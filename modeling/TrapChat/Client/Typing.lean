import TrapChat.Client.Media
import TrapChat.Library.InsertionOrder
import TrapChat.Library.Timers
import TrapChat.Library.Transition

/-!
The typing indicator, `useTypingIndicator`: the names of those who type, each with a timeout
that removes it, and the throttle of what is sent. The handles of the timeouts are the
properties of an object, which takes no property `__proto__`.
-/

namespace TrapChat.Client

open Timers Transition InsertionOrder

def TYPING_THROTTLE_MS : ℕ := 2000
def TYPING_EXPIRE_MS : ℕ := 3500

/-- The payload of a typing message. -/
structure TypingPayload where
  typing : Bool
  nickname : Option JSString

structure TypingIndicator where
  loop : Loop
  typingPeers : List JSString
  typingTimers : List (JSString × ℕ)
  lastTypingSent : ℕ
  /-- The name that the callback of a timeout has. -/
  expires : ℕ → JSString
  /-- When a name was last said to be typing. -/
  lastTyped : JSString → ℕ
  /-- What has been sent, and when. -/
  sent : List (ℕ × Bool)

inductive TypingEvent
  /-- A message from the room. `none` is a payload that does not parse. -/
  | message (id : Option JSString) (payload : Option TypingPayload)
  | expire (handle : ℕ)
  | clearTyping
  /-- `sendTypingIndicator`, with a client and a room. -/
  | send (typing : Bool)
  | wait (ms : ℕ)

/-- The property that an object does not take. -/
def proto : JSString := codeUnits "__proto__".toList

/-- `timers[name] = handle`. -/
def setTimer (timers : List (JSString × ℕ)) (name : JSString) (handle : ℕ) :
    List (JSString × ℕ) :=
  if name = proto then timers else set timers name handle

/-- `delete timers[name]`. -/
def deleteTimer (timers : List (JSString × ℕ)) (name : JSString) : List (JSString × ℕ) :=
  timers.filter fun e => e.1 ≠ name

/-- `timers[name]`, of the object's own properties. -/
def timer (timers : List (JSString × ℕ)) (name : JSString) : Option ℕ := timers.lookup name

/-- The name of the sender: a nickname, or the start of an ID. -/
def senderName (id : Option JSString) (payload : TypingPayload) : JSString :=
  (payload.nickname.filter (· ≠ [])).getD
    (((id.filter (· ≠ [])).getD (codeUnits "unknown".toList)).take 8)

namespace TypingIndicator

/-- `Date.now()` is not 0 at the start. -/
def new (now : ℕ) : TypingIndicator where
  loop := { Loop.new with clock := now }
  typingPeers := []
  typingTimers := []
  lastTypingSent := 0
  expires := fun _ => []
  lastTyped := fun _ => 0
  sent := []

def sendTypingIndicator (typing : Bool) (s : TypingIndicator) : TypingIndicator :=
  if typing = true ∧ s.loop.clock - s.lastTypingSent < TYPING_THROTTLE_MS then s
  else { s with lastTypingSent := s.loop.clock, sent := s.sent ++ [(s.loop.clock, typing)] }

/-- `clearTimeout(timers[name])`, if there is one. -/
def clearTimer (name : JSString) (s : TypingIndicator) : TypingIndicator :=
  match timer s.typingTimers name with
  | some handle => { s with loop := s.loop.clearTimeout handle }
  | none => s

/-- `next.delete(name)`. -/
def unlist (name : JSString) (s : TypingIndicator) : TypingIndicator :=
  { s with typingPeers := s.typingPeers.filter (· ≠ name) }

/-- A name is typing: it is shown, and its timeout starts again. -/
def typing (name : JSString) (s : TypingIndicator) : TypingIndicator :=
  let s := { s with typingPeers := add s.typingPeers name }.clearTimer name
  { s with
    loop := s.loop.setTimeout TYPING_EXPIRE_MS
    typingTimers := setTimer s.typingTimers name s.loop.next
    expires := Function.update s.expires s.loop.next name
    lastTyped := Function.update s.lastTyped name s.loop.clock }

def stopped (name : JSString) (s : TypingIndicator) : TypingIndicator :=
  let s := (s.unlist name).clearTimer name
  { s with typingTimers := deleteTimer s.typingTimers name }

def handleTypingMessage (id : Option JSString) : Option TypingPayload → TypingIndicator →
    TypingIndicator
  | some payload, s =>
    if payload.typing = true then s.typing (senderName id payload)
    else s.stopped (senderName id payload)
  | none, s => s

/-- The callback of a timeout. -/
def expire (handle : ℕ) (s : TypingIndicator) : TypingIndicator :=
  let s := { s with loop := s.loop.clearTimeout handle }.unlist (s.expires handle)
  { s with typingTimers := deleteTimer s.typingTimers (s.expires handle) }

/-- `Object.values(timers).forEach(clearTimeout)`. -/
def clearTyping (s : TypingIndicator) : TypingIndicator :=
  { s with
    loop := { s.loop with
      timeouts := s.loop.timeouts.filter fun t => t.1 ∉ s.typingTimers.map Prod.snd }
    typingTimers := []
    typingPeers := [] }

def step (s : TypingIndicator) : TypingEvent → Option TypingIndicator
  | .message id payload => some (s.handleTypingMessage id payload)
  | .expire handle =>
    if Due s.loop.clock handle s.loop.timeouts then some (s.expire handle) else none
  | .clearTyping => some s.clearTyping
  | .send typing => some (s.sendTypingIndicator typing)
  | .wait ms => some { s with loop := s.loop.wait ms }

/-- Nobody who types is called `__proto__`. -/
def Named (_ : TypingIndicator) : TypingEvent → Prop
  | .message id (some payload) => payload.typing = true → senderName id payload ≠ proto
  | _ => True

/-! ### One timeout for each name -/

variable {s s' : TypingIndicator} {name : JSString} {handle : ℕ}

theorem timer_eq_lookup (timers : List (JSString × ℕ)) (name : JSString) :
    timer timers name = @List.lookup _ _ instBEqOfDecidableEq name timers := by
  rw [timer]
  congr
  exact lawful_beq_subsingleton _ _

theorem timer_deleteTimer (timers : List (JSString × ℕ)) (name x : JSString) :
    timer (deleteTimer timers name) x = if x = name then none else timer timers x := by
  induction timers with
  | nil => simp [deleteTimer, timer]
  | cons e timers ih =>
      rw [timer] at ih ⊢
      rw [deleteTimer, List.filter_cons]
      by_cases he : e.1 = name
      · rw [if_neg (by simpa using he)]
        refine ih.trans ?_
        by_cases hx : x = name
        · rw [if_pos hx, if_pos hx]
        · have hne : (x == e.1) = false := beq_eq_false_iff_ne.mpr fun h => hx (h.trans he)
          rw [if_neg hx, if_neg hx, timer, timer, List.lookup_cons, hne]
      · rw [if_pos (by simpa using he), timer, List.lookup_cons, List.lookup_cons]
        cases hx : x == e.1 with
        | true =>
            have heq : x = e.1 := beq_iff_eq.mp hx
            rw [if_neg (heq ▸ he)]
        | false => exact ih

theorem timer_setTimer (timers : List (JSString × ℕ)) (hname : name ≠ proto) (x : JSString) :
    timer (setTimer timers name handle) x = if x = name then some handle else timer timers x := by
  rw [setTimer, if_neg hname, timer_eq_lookup]
  by_cases hx : x = name
  · rw [if_pos hx, hx]
    exact lookup_set_self timers name handle
  · rw [if_neg hx, timer_eq_lookup]
    exact lookup_set_of_ne timers handle hx

theorem mem_handles (timers : List (JSString × ℕ)) (h : timer timers name = some handle) :
    handle ∈ timers.map Prod.snd := by
  induction timers with
  | nil => cases h
  | cons e timers ih =>
      rw [timer, List.lookup_cons] at h
      split at h
      · cases h
        exact List.mem_cons_self
      · exact List.mem_cons_of_mem _ (ih h)

/-- The timeouts that run are those of the names that are shown. -/
structure Timed (s : TypingIndicator) : Prop where
  shown : ∀ name, name ∈ s.typingPeers ↔ (timer s.typingTimers name).isSome
  unique : s.typingPeers.Nodup
  pending : ∀ t ∈ s.loop.timeouts, timer s.typingTimers (s.expires t.1) = some t.1 ∧
    t.2 = s.lastTyped (s.expires t.1) + TYPING_EXPIRE_MS ∧ t.1 < s.loop.next
  running : ∀ name handle, timer s.typingTimers name = some handle →
    s.expires handle = name ∧ ∃ t ∈ s.loop.timeouts, t.1 = handle
  handles : (s.loop.timeouts.map Prod.fst).Nodup

/-- The timeouts that are left when that of a name is cleared are those of the other names. -/
theorem Timed.mem_cleared (hs : s.Timed) (hhandle : timer s.typingTimers name = some handle)
    {t : ℕ × ℕ} : t ∈ cleared handle s.loop.timeouts ↔
      t ∈ s.loop.timeouts ∧ s.expires t.1 ≠ name := by
  rw [cleared, List.mem_filter, decide_eq_true_iff]
  refine and_congr_right fun ht => not_congr ⟨fun heq => ?_, fun heq => ?_⟩
  · rw [heq]
    exact (hs.running name handle hhandle).1
  · have hlookup := (hs.pending t ht).1
    rw [heq, hhandle] at hlookup
    exact (Option.some.inj hlookup).symm

/-- A name that is not shown has no timeout. -/
theorem Timed.ne_of_none (hs : s.Timed) (hnone : timer s.typingTimers name = none) {t : ℕ × ℕ}
    (ht : t ∈ s.loop.timeouts) : s.expires t.1 ≠ name := by
  intro heq
  have hlookup := (hs.pending t ht).1
  rw [heq, hnone] at hlookup
  cases hlookup

/-- `clearTimer` leaves the timeouts of the other names. -/
theorem Timed.clearTimer_spec (hs : s.Timed) (name : JSString) :
    (∀ t, t ∈ (s.clearTimer name).loop.timeouts ↔
      t ∈ s.loop.timeouts ∧ s.expires t.1 ≠ name) ∧
    (s.clearTimer name).loop.timeouts.Sublist s.loop.timeouts ∧
    s.clearTimer name = { s with loop := (s.clearTimer name).loop } ∧
    (s.clearTimer name).loop.next = s.loop.next ∧
    (s.clearTimer name).loop.clock = s.loop.clock := by
  rw [clearTimer]
  cases hlookup : timer s.typingTimers name with
  | some handle =>
      exact ⟨fun t => hs.mem_cleared hlookup, List.filter_sublist, rfl, rfl, rfl⟩
  | none =>
      exact ⟨fun t => ⟨fun ht => ⟨ht, hs.ne_of_none hlookup ht⟩, And.left⟩, .refl _, rfl, rfl, rfl⟩

/-- A name goes, with its timeout. -/
theorem Timed.remove (hs : s.Timed) (name : JSString)
    (hpeers : s'.typingPeers = s.typingPeers.filter (· ≠ name))
    (htimers : s'.typingTimers = deleteTimer s.typingTimers name)
    (hmem : ∀ t, t ∈ s'.loop.timeouts ↔ t ∈ s.loop.timeouts ∧ s.expires t.1 ≠ name)
    (hsub : s'.loop.timeouts.Sublist s.loop.timeouts) (hnext : s'.loop.next = s.loop.next)
    (hexpires : s'.expires = s.expires) (htyped : s'.lastTyped = s.lastTyped) : s'.Timed where
  shown := by
    intro x
    rw [hpeers, htimers, timer_deleteTimer, List.mem_filter, decide_eq_true_iff, hs.shown x]
    by_cases hx : x = name
    · simp [hx]
    · simp [hx]
  unique := by
    rw [hpeers]
    exact hs.unique.filter _
  pending := by
    intro t ht
    obtain ⟨hold, hne⟩ := (hmem t).mp ht
    rw [hexpires, htyped, htimers, timer_deleteTimer, if_neg hne, hnext]
    exact hs.pending t hold
  running := by
    intro x handle hx
    rw [htimers, timer_deleteTimer] at hx
    split at hx
    · cases hx
    · rename_i hne
      obtain ⟨hexp, t, ht, rfl⟩ := hs.running x handle hx
      rw [hexpires]
      exact ⟨hexp, t, (hmem t).mpr ⟨ht, hexp ▸ hne⟩, rfl⟩
  handles := hs.handles.sublist (hsub.map _)

theorem Timed.stopped (hs : s.Timed) (name : JSString) : (s.stopped name).Timed := by
  obtain ⟨hmem, hsub, heq, hnext, -⟩ := hs.clearTimer_spec name
  have hunlist : (s.unlist name).clearTimer name = (s.clearTimer name).unlist name := by
    rw [clearTimer, clearTimer]
    show (match timer s.typingTimers name with
      | some handle => { s.unlist name with loop := s.loop.clearTimeout handle }
      | none => s.unlist name) = _
    cases timer s.typingTimers name <;> rfl
  rw [TypingIndicator.stopped]
  rw [hunlist, heq]
  exact hs.remove name rfl rfl hmem hsub hnext rfl rfl

theorem Timed.expire (hs : s.Timed) (hdue : Due s.loop.clock handle s.loop.timeouts) :
    (s.expire handle).Timed := by
  obtain ⟨t, ht, rfl, -⟩ := hdue
  have hlookup := (hs.pending t ht).1
  exact hs.remove (s.expires t.1) rfl rfl (fun t' => hs.mem_cleared hlookup)
    List.filter_sublist rfl rfl rfl

/-- A name is shown, with a new timeout in place of the one it has. -/
theorem Timed.typing (hs : s.Timed) (hname : name ≠ proto) : (s.typing name).Timed := by
  obtain ⟨hmem, hsub, heq, hnext, hclock⟩ := hs.clearTimer_spec name
  have hadd : ({ s with typingPeers := add s.typingPeers name }.clearTimer name) =
      { s with typingPeers := add s.typingPeers name, loop := (s.clearTimer name).loop } := by
    rw [clearTimer, clearTimer]
    show (match timer s.typingTimers name with
      | some handle => { s with
          typingPeers := add s.typingPeers name
          loop := s.loop.clearTimeout handle }
      | none => { s with typingPeers := add s.typingPeers name }) = _
    cases timer s.typingTimers name <;> rfl
  have hfresh : ∀ t ∈ (s.clearTimer name).loop.timeouts, t.1 ≠ s.loop.next := fun t ht =>
    ((hs.pending t ((hmem t).mp ht).1).2.2).ne
  rw [TypingIndicator.typing]
  rw [hadd]
  constructor
  · intro x
    show x ∈ add s.typingPeers name ↔ (timer (setTimer s.typingTimers name _) x).isSome
    rw [mem_add_iff, timer_setTimer _ hname, hs.shown x]
    by_cases hx : x = name
    · simp [hx]
    · simp [hx]
  · exact nodup_add hs.unique
  · intro t ht
    show timer (setTimer s.typingTimers name _) (Function.update s.expires _ name t.1) = some t.1 ∧
      t.2 = Function.update s.lastTyped name _ (Function.update s.expires _ name t.1) + _ ∧
      t.1 < (s.clearTimer name).loop.next + 1
    rw [hnext]
    rcases List.mem_append.mp ht with hold | hnew
    · obtain ⟨hin, hne⟩ := (hmem t).mp hold
      obtain ⟨hlookup, hdue, hlt⟩ := hs.pending t hin
      rw [Function.update_of_ne (hfresh t hold), timer_setTimer _ hname, if_neg hne,
        Function.update_of_ne hne]
      exact ⟨hlookup, hdue, Nat.lt_succ_of_lt hlt⟩
    · obtain rfl := List.mem_singleton.mp hnew
      rw [hnext, Function.update_self, timer_setTimer _ hname, if_pos rfl, Function.update_self]
      exact ⟨rfl, rfl, Nat.lt_succ_self _⟩
  · intro x h hx
    have hx' : (if x = name then some (s.clearTimer name).loop.next
        else timer s.typingTimers x) = some h := (timer_setTimer _ hname x).symm.trans hx
    show Function.update s.expires (s.clearTimer name).loop.next name h = x ∧
      ∃ t ∈ (s.clearTimer name).loop.timeouts ++ [((s.clearTimer name).loop.next, _)], t.1 = h
    split at hx'
    · cases hx'
      rename_i hxn
      rw [Function.update_self]
      exact ⟨hxn.symm, _, List.mem_append_right _ List.mem_cons_self, rfl⟩
    · rename_i hxn
      obtain ⟨hexp, t, ht, rfl⟩ := hs.running x h hx'
      have hold : t ∈ (s.clearTimer name).loop.timeouts := (hmem t).mpr ⟨ht, hexp ▸ hxn⟩
      rw [hnext, Function.update_of_ne (hfresh t hold)]
      exact ⟨hexp, t, List.mem_append_left _ hold, rfl⟩
  · show (((s.clearTimer name).loop.timeouts ++ [_]).map Prod.fst).Nodup
    rw [List.map_append, List.map_singleton]
    refine (hs.handles.sublist (hsub.map _)).append (List.nodup_singleton _) ?_
    intro h hold hnew
    obtain ⟨t, ht, rfl⟩ := List.mem_map.mp hold
    exact hfresh t ht ((List.mem_singleton.mp hnew).trans hnext)

theorem Timed.clearTyping (hs : s.Timed) : s.clearTyping.Timed := by
  have hempty : s.clearTyping.loop.timeouts = [] := by
    refine List.filter_eq_nil_iff.mpr fun t ht => ?_
    simpa using mem_handles s.typingTimers (hs.pending t ht).1
  constructor
  · intro name
    exact ⟨fun h => absurd h List.not_mem_nil, fun h => absurd h Bool.false_ne_true⟩
  · exact List.nodup_nil
  · rw [hempty]
    intro t ht
    cases ht
  · intro name handle h
    cases h
  · rw [hempty]
    exact List.nodup_nil

theorem Timed.step {e : TypingEvent} (hs : s.Timed) (hnamed : Named s e)
    (h : s.step e = some s') : s'.Timed := by
  cases e with
  | message id payload =>
      cases h
      cases payload with
      | none => exact hs
      | some payload =>
          rw [handleTypingMessage]
          split
          · exact hs.typing (hnamed ‹_›)
          · exact hs.stopped _
  | expire handle =>
      rw [TypingIndicator.step] at h
      split at h
      · cases h
        exact hs.expire ‹_›
      · cases h
  | clearTyping =>
      cases h
      exact hs.clearTyping
  | send typing =>
      cases h
      rw [sendTypingIndicator]
      split
      · exact hs
      · exact ⟨hs.shown, hs.unique, hs.pending, hs.running, hs.handles⟩
  | wait ms =>
      cases h
      exact ⟨hs.shown, hs.unique, hs.pending, hs.running, hs.handles⟩

/-! ### The throttle -/

/-- What says that the user types is sent some time after whatever was sent before. -/
structure Throttled (s : TypingIndicator) : Prop where
  last : s.lastTypingSent ≤ s.loop.clock
  sent : ∀ e ∈ s.sent, e.1 ≤ s.lastTypingSent
  apart : s.sent.Pairwise fun a b => b.2 = true → a.1 + TYPING_THROTTLE_MS ≤ b.1

theorem Throttled.of_eq (hs : s.Throttled) (hclock : s.loop.clock ≤ s'.loop.clock)
    (hlast : s'.lastTypingSent = s.lastTypingSent) (hsent : s'.sent = s.sent) : s'.Throttled where
  last := by
    rw [hlast]
    exact hs.last.trans hclock
  sent := by
    rw [hlast, hsent]
    exact hs.sent
  apart := by
    rw [hsent]
    exact hs.apart

theorem Throttled.send (hs : s.Throttled) (typing : Bool) :
    (s.sendTypingIndicator typing).Throttled := by
  have hlast := hs.last
  rw [sendTypingIndicator]
  split
  · exact hs
  · rename_i hpass
    refine ⟨Nat.le_refl _, fun e he => ?_, ?_⟩
    · rcases List.mem_append.mp he with hold | hnew
      · exact (hs.sent e hold).trans hlast
      · rw [List.mem_singleton.mp hnew]
    · refine List.pairwise_append.mpr ⟨hs.apart, List.pairwise_singleton _ _, fun a ha b hb => ?_⟩
      obtain rfl := List.mem_singleton.mp hb
      intro htyping
      have hold := hs.sent a ha
      have hlate : ¬s.loop.clock - s.lastTypingSent < TYPING_THROTTLE_MS :=
        fun hlt => hpass ⟨htyping, hlt⟩
      show a.1 + TYPING_THROTTLE_MS ≤ s.loop.clock
      omega

/-- Nothing but `sendTypingIndicator` sends. -/
theorem sent_typing (s : TypingIndicator) (name : JSString) :
    (s.typing name).loop.clock = s.loop.clock ∧
      (s.typing name).lastTypingSent = s.lastTypingSent ∧ (s.typing name).sent = s.sent := by
  rw [typing, clearTimer]
  dsimp only
  split <;> exact ⟨rfl, rfl, rfl⟩

theorem sent_stopped (s : TypingIndicator) (name : JSString) :
    (s.stopped name).loop.clock = s.loop.clock ∧
      (s.stopped name).lastTypingSent = s.lastTypingSent ∧ (s.stopped name).sent = s.sent := by
  rw [stopped, clearTimer]
  split <;> exact ⟨rfl, rfl, rfl⟩

theorem Throttled.step {e : TypingEvent} (hs : s.Throttled) (h : s.step e = some s') :
    s'.Throttled := by
  cases e with
  | message id payload =>
      cases h
      cases payload with
      | none => exact hs
      | some payload =>
          rw [handleTypingMessage]
          split
          · obtain ⟨hclock, hlast, hsent⟩ := s.sent_typing (senderName id payload)
            exact hs.of_eq hclock.ge hlast hsent
          · obtain ⟨hclock, hlast, hsent⟩ := s.sent_stopped (senderName id payload)
            exact hs.of_eq hclock.ge hlast hsent
  | expire handle =>
      rw [TypingIndicator.step] at h
      split at h
      · cases h
        exact hs.of_eq (Nat.le_refl _) rfl rfl
      · cases h
  | clearTyping =>
      cases h
      exact hs.of_eq (Nat.le_refl _) rfl rfl
  | send typing =>
      cases h
      exact hs.send typing
  | wait ms =>
      cases h
      exact hs.of_eq (Nat.le_add_right _ _) rfl rfl

instance (s : TypingIndicator) : (e : TypingEvent) → Decidable (Named s e)
  | .message _ (some _) => inferInstanceAs (Decidable (_ → _))
  | .message _ none | .expire _ | .clearTyping | .send _ | .wait _ =>
    inferInstanceAs (Decidable True)

end TypingIndicator

end TrapChat.Client
