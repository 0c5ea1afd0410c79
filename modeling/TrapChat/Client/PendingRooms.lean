import TrapChat.Client.RoomKeys
import TrapChat.Library.Transition

/-!
Chat that arrives while a room's key is derived again. A presence message with another
salt marks the room as pending until the key is there; the frames that come meanwhile
wait in a queue, which is emitted again at the end of the derivation. A derivation that
is rejected ends in the handler's `catch`, which does nothing.

Several derivations of a room can run at the same time, and any of them may be the
next to end. A frame counts as processed when it is handed to `decryptAndAppendChat`.
-/

namespace TrapChat.Client

open Storage Transition

/-- A derivation that a presence message has started. -/
structure Derivation where
  room : RoomName
  passphrase : String
  salt : List UInt8
  /-- How many chat frames of the room had arrived. Nothing reads it. -/
  since : ℕ
  deriving DecidableEq

/-- What the listener of `message` works on. -/
structure ChatListener (χ : Type*) where
  keyRefs : RoomName → Option KeyEntry
  saltRefs : RoomName → Option (List UInt8)
  passphraseRefs : RoomName → Option String
  pendingKeyRooms : Finset RoomName
  pendingMessages : RoomName → Option (List χ)
  /-- The derivations that are awaited, the oldest first. -/
  running : List Derivation
  /-- The frames that have been handed to `decryptAndAppendChat`. -/
  processed : RoomName → List χ
  /-- The frames that the connection has delivered. Nothing reads it. -/
  arrived : RoomName → List χ

inductive ChatAction (χ : Type*)
  | presence (room : RoomName) (salt : String)
  | chat (room : RoomName) (data : χ)
  /-- The derivation in place `i` resolves. -/
  | resolve (i : ℕ)
  | reject (i : ℕ)

namespace ChatListener

variable {χ : Type*}

/-- The rooms of the app as they are joined. -/
def new (a : App) : ChatListener χ where
  keyRefs := a.keyRefs
  saltRefs := a.saltRefs
  passphraseRefs := a.passphraseRefs
  pendingKeyRooms := ∅
  pendingMessages := fun _ => none
  running := []
  processed := fun _ => []
  arrived := fun _ => []

def queued (s : ChatListener χ) (room : RoomName) : List χ := (s.pendingMessages room).getD []

/-- The key handling of a presence message, up to its `await`. -/
def onPresence (s : ChatListener χ) (room : RoomName) (salt : String) : ChatListener χ :=
  if room = "" ∨ salt = "" then s
  else
    match Base64.decodeForgiving salt with
    | none => s
    | some serverSalt =>
      if s.saltRefs room = some serverSalt then s
      else
        match s.passphraseRefs room with
        | none => s
        | some passphrase =>
          { s with
            pendingKeyRooms := insert room s.pendingKeyRooms
            saltRefs := Function.update s.saltRefs room (some serverSalt)
            running := s.running ++ [⟨room, passphrase, serverSalt, (s.arrived room).length⟩] }

/-- The chat branch, up to `decryptAndAppendChat`. -/
def onChat (s : ChatListener χ) (room : RoomName) (data : χ) : ChatListener χ :=
  if room ∈ s.pendingKeyRooms then
    { s with
      pendingMessages :=
        Function.update s.pendingMessages room (some (s.queued room ++ [data])) }
  else
    { s with processed := Function.update s.processed room (s.processed room ++ [data]) }

/-- The frames that have been queued for the room are emitted again. -/
def flush (s : ChatListener χ) (room : RoomName) : ChatListener χ :=
  match s.pendingMessages room with
  | some (data :: rest) =>
    (data :: rest).foldl (fun s data => s.onChat room data)
      { s with pendingMessages := Function.update s.pendingMessages room none }
  | _ => s

/-- What follows the `await` of a derivation. -/
def onDerived (s : ChatListener χ) (d : Derivation) : ChatListener χ :=
  flush
    { s with
      keyRefs := Function.update s.keyRefs d.room (some (.key (.derived d.room d.passphrase d.salt)))
      passphraseRefs := Function.update s.passphraseRefs d.room none
      pendingKeyRooms := s.pendingKeyRooms.erase d.room }
    d.room

/-- A frame is delivered. -/
def arrive (s : ChatListener χ) (room : RoomName) (data : χ) : ChatListener χ :=
  onChat { s with arrived := Function.update s.arrived room (s.arrived room ++ [data]) } room data

/-- The derivation in place `i` is no longer awaited. -/
def finish (s : ChatListener χ) (i : ℕ) : ChatListener χ :=
  { s with running := s.running.eraseIdx i }

def step (s : ChatListener χ) : ChatAction χ → Option (ChatListener χ)
  | .presence room salt => some (s.onPresence room salt)
  | .chat room data => if room = "" then some s else some (s.arrive room data)
  | .resolve i =>
    match s.running[i]? with
    -- `deriveRoomKey` throws for a salt of another length
    | some d => if d.salt.length = 32 then some ((s.finish i).onDerived d) else none
    | none => none
  | .reject i => s.running[i]?.map fun _ => s.finish i

/-- No frame is lost: those of a room are processed in order, each once; none that
arrived during a derivation before its end; and where no derivation runs, the room is
not pending and nothing waits. -/
structure Lossless (s : ChatListener χ) : Prop where
  order : ∀ room, s.processed room ++ s.queued room = s.arrived room
  waits : ∀ d ∈ s.running, (s.processed d.room).length ≤ d.since
  idle : ∀ room, (∀ d ∈ s.running, d.room ≠ room) →
    room ∉ s.pendingKeyRooms ∧ s.queued room = []

/-- A rejection of the room's last derivation while it is pending; the end of one while
another runs during which a frame has arrived; or a frame that comes during a derivation
to a room that is not pending. -/
def Loses (s : ChatListener χ) : ChatAction χ → Prop
  | .presence _ _ => False
  | .chat room _ => room ≠ "" ∧ room ∉ s.pendingKeyRooms ∧ ∃ d ∈ s.running, d.room = room
  | .resolve i => ∃ d ∈ s.running[i]?, ∃ other ∈ s.running.eraseIdx i,
      other.room = d.room ∧ other.since < (s.arrived d.room).length
  | .reject i => ∃ d ∈ s.running[i]?, d.room ∈ s.pendingKeyRooms ∧
      ∀ other ∈ s.running.eraseIdx i, other.room ≠ d.room

/-! ### The queue -/

section
variable {s : ChatListener χ} {room : RoomName}

/-- Frames that come to a room that is not pending are processed in their order. -/
theorem foldl_onChat (h : room ∉ s.pendingKeyRooms) (frames : List χ) :
    frames.foldl (fun s data => s.onChat room data) s =
      { s with processed := Function.update s.processed room (s.processed room ++ frames) } := by
  induction frames generalizing s with
  | nil => simp
  | cons data rest ih =>
      let s' : ChatListener χ :=
        { s with processed := Function.update s.processed room (s.processed room ++ [data]) }
      have hfirst : s.onChat room data = s' := if_neg h
      have hrest := ih (s := s') h
      rw [List.foldl_cons, hfirst, hrest]
      simp [s']

/-- **What an emptied queue leaves.** -/
theorem flush_of_notMem (h : room ∉ s.pendingKeyRooms) :
    (∀ r, (s.flush room).processed r =
      if r = room then s.processed r ++ s.queued r else s.processed r) ∧
    (∀ r, (s.flush room).queued r = if r = room then [] else s.queued r) ∧
    (s.flush room).pendingKeyRooms = s.pendingKeyRooms ∧ (s.flush room).running = s.running ∧
      (s.flush room).arrived = s.arrived := by
  unfold flush
  split
  · next data rest hqueue =>
      have hall := foldl_onChat
        (s := { s with pendingMessages := Function.update s.pendingMessages room none }) h
        (data :: rest)
      rw [hall]
      refine ⟨fun r => ?_, fun r => ?_, rfl, rfl, rfl⟩
      · by_cases hr : r = room
        · subst hr
          simp [queued, hqueue]
        · simp [hr]
      · by_cases hr : r = room
        · simp [queued, hr]
        · simp [queued, hr]
  · -- no queue, or an empty one
    next hqueue =>
      have hempty : s.queued room = [] := by
        rw [queued]
        cases hp : s.pendingMessages room with
        | none => rfl
        | some frames =>
            cases frames with
            | nil => rfl
            | cons data rest => exact absurd hp (hqueue data rest)
      refine ⟨fun r => ?_, fun r => ?_, rfl, rfl, rfl⟩
      · split
        · next hr => rw [hr, hempty, List.append_nil]
        · rfl
      · split
        · next hr => rw [hr, hempty]
        · rfl

end

/-! ### Refinement of the app

Frames that wait or are processed change nothing that the app says of its keys.
-/

/-- The app whose tasks are the derivations. -/
def app (s : ChatListener χ) (a : App) : App :=
  { a with
    keyRefs := s.keyRefs
    saltRefs := s.saltRefs
    passphraseRefs := s.passphraseRefs
    tasks := s.running.map fun d => .rederive d.room d.passphrase d.salt }

section
variable {s : ChatListener χ} {room : RoomName} {d : Derivation} {i : ℕ} (a : App)

theorem onChat_app (data : χ) : (s.onChat room data).app a = s.app a := by
  unfold onChat
  split
  · rfl
  · rfl

theorem foldl_onChat_app (frames : List χ) :
    (frames.foldl (fun s data => s.onChat room data) s).app a = s.app a := by
  induction frames generalizing s with
  | nil => rfl
  | cons data rest ih => rw [List.foldl_cons, ih, onChat_app]

theorem flush_app (s : ChatListener χ) (room : RoomName) : (s.flush room).app a = s.app a := by
  unfold flush
  split
  · rw [foldl_onChat_app]
    rfl
  · rfl

theorem onPresence_app (hroom : room ≠ "") (salt : String) :
    (s.onPresence room salt).app a = (s.app a).presence room salt := by
  unfold onPresence App.presence
  by_cases hsalt : salt = ""
  · rw [if_pos (.inr hsalt), if_pos hsalt]
  · rw [if_neg (not_or.mpr ⟨hroom, hsalt⟩), if_neg hsalt]
    cases hdecode : Base64.decodeForgiving salt with
    | none => rfl
    | some serverSalt =>
        change app (if s.saltRefs room = some serverSalt then _ else _) a =
          if s.saltRefs room = some serverSalt then _ else _
        split
        · rfl
        · change app (match s.passphraseRefs room with | none => _ | some passphrase => _) a =
            match s.passphraseRefs room with | none => _ | some passphrase => _
          cases s.passphraseRefs room with
          | none => rfl
          | some passphrase => simp [app]

/-- The end of a derivation is the completion of its task. -/
theorem onDerived_app (hd : s.running[i]? = some d) (hsize : d.salt.length = 32) :
    (s.app a).complete i = some (((s.finish i).onDerived d).app a) := by
  rw [onDerived, flush_app]
  simp [App.complete, app, hd, KeyTask.key, hsize, App.settle, App.setKey, finish,
    List.eraseIdx_map]

theorem finish_app (hd : s.running[i]? = some d) (hsize : d.salt.length ≠ 32) :
    (s.app a).complete i = some ((s.finish i).app a) := by
  simp [App.complete, app, hd, KeyTask.key, hsize, finish, List.eraseIdx_map]

end

/-! ### The invariant -/

/-- What holds whatever becomes of the derivations. -/
structure Inv (s : ChatListener χ) : Prop where
  order : ∀ room, s.processed room ++ s.queued room = s.arrived room
  empty : ∀ room, room ∉ s.pendingKeyRooms → s.queued room = []
  since : ∀ d ∈ s.running, d.since ≤ (s.arrived d.room).length

theorem inv_new (a : App) : (new a : ChatListener χ).Inv where
  order := fun _ => rfl
  empty := fun _ _ => rfl
  since := fun _ h => absurd h List.not_mem_nil

theorem lossless_new (a : App) : (new a : ChatListener χ).Lossless where
  order := fun _ => rfl
  waits := fun _ h => absurd h List.not_mem_nil
  idle := fun _ _ => ⟨Finset.notMem_empty _, rfl⟩

section
variable {s s' : ChatListener χ} {room : RoomName} {data : χ} {d : Derivation} {i : ℕ}

theorem mem_running_iff (h : s.running[i]? = some d) {x : Derivation} :
    x ∈ s.running ↔ x = d ∨ x ∈ s.running.eraseIdx i := by
  obtain ⟨hi, rfl⟩ := List.getElem?_eq_some_iff.mp h
  rw [← (List.getElem_cons_eraseIdx_perm hi).mem_iff, List.mem_cons]

/-! ### A presence message -/

theorem onPresence_cases (s : ChatListener χ) (room : RoomName) (salt : String) :
    s.onPresence room salt = s ∨ ∃ d : Derivation, d.room = room ∧
      d.since = (s.arrived room).length ∧ s.onPresence room salt =
        { s with
          pendingKeyRooms := insert room s.pendingKeyRooms
          saltRefs := Function.update s.saltRefs room (some d.salt)
          running := s.running ++ [d] } := by
  unfold onPresence
  split
  · exact .inl rfl
  · split
    · exact .inl rfl
    · next serverSalt _ =>
        split
        · exact .inl rfl
        · split
          · exact .inl rfl
          · next passphrase _ =>
              exact .inr ⟨⟨room, passphrase, serverSalt, (s.arrived room).length⟩, rfl, rfl, rfl⟩

theorem Inv.presence (h : s.Inv) (room : RoomName) (salt : String) :
    (s.onPresence room salt).Inv := by
  obtain hsame | ⟨d, rfl, hsince, hnew⟩ := s.onPresence_cases room salt
  · rwa [hsame]
  · rw [hnew]
    refine ⟨h.order, fun r hr => h.empty r fun hin => hr (Finset.mem_insert_of_mem hin), ?_⟩
    intro x hx
    rcases List.mem_append.mp hx with hx | hx
    · exact h.since x hx
    · obtain rfl := List.mem_singleton.mp hx
      exact hsince.le

theorem Lossless.presence (hinv : s.Inv) (h : s.Lossless) (room : RoomName) (salt : String) :
    (s.onPresence room salt).Lossless := by
  obtain hsame | ⟨d, rfl, hsince, hnew⟩ := s.onPresence_cases room salt
  · rwa [hsame]
  · rw [hnew]
    refine ⟨h.order, fun x hx => ?_, fun r hr => ?_⟩
    · rcases List.mem_append.mp hx with hx | hx
      · exact h.waits x hx
      · obtain rfl := List.mem_singleton.mp hx
        have hlength := congrArg List.length (hinv.order x.room)
        rw [List.length_append] at hlength
        dsimp only
        omega
    · have hne : r ≠ d.room :=
        fun heq => hr d (List.mem_append_right _ (List.mem_singleton_self d)) heq.symm
      obtain ⟨hpending, hempty⟩ := h.idle r fun x hx => hr x (List.mem_append_left _ hx)
      exact ⟨by simp [hne, hpending], hempty⟩

/-! ### A chat frame -/

/-- A frame is queued or processed, by the room's mark. -/
theorem arrive_spec (s : ChatListener χ) (room : RoomName) (data : χ) :
    (∀ r, (s.arrive room data).processed r =
      if r = room ∧ room ∉ s.pendingKeyRooms then s.processed r ++ [data] else s.processed r) ∧
    (∀ r, (s.arrive room data).queued r =
      if r = room ∧ room ∈ s.pendingKeyRooms then s.queued r ++ [data] else s.queued r) ∧
    (∀ r, (s.arrive room data).arrived r =
      if r = room then s.arrived r ++ [data] else s.arrived r) ∧
    (s.arrive room data).pendingKeyRooms = s.pendingKeyRooms ∧
      (s.arrive room data).running = s.running := by
  have harrived : ∀ r, Function.update s.arrived room (s.arrived room ++ [data]) r =
      if r = room then s.arrived r ++ [data] else s.arrived r := by
    intro r
    by_cases hr : r = room
    · subst hr
      simp
    · simp [hr]
  unfold arrive onChat
  by_cases hpending : room ∈ s.pendingKeyRooms
  · rw [if_pos hpending]
    refine ⟨fun r => by simp [hpending], fun r => ?_, harrived, rfl, rfl⟩
    by_cases hr : r = room
    · subst hr
      simp [queued, hpending]
    · simp [queued, hr]
  · rw [if_neg hpending]
    refine ⟨fun r => ?_, fun r => by simp [queued, hpending], harrived, rfl, rfl⟩
    by_cases hr : r = room
    · subst hr
      simp [hpending]
    · simp [hr]

theorem Inv.arrive (h : s.Inv) (room : RoomName) (data : χ) : (s.arrive room data).Inv := by
  obtain ⟨hprocessed, hqueued, harrived, hpending, hrunning⟩ := s.arrive_spec room data
  refine ⟨fun r => ?_, fun r hr => ?_, fun x hx => ?_⟩
  · rw [hprocessed, hqueued, harrived, ← h.order r]
    by_cases hr : r = room
    · subst hr
      by_cases hin : r ∈ s.pendingKeyRooms
      · simp [hin]
      · simp [hin, h.empty r hin]
    · simp [hr]
  · rw [hpending] at hr
    have hout : ¬(r = room ∧ room ∈ s.pendingKeyRooms) := fun hin => hr (hin.1 ▸ hin.2)
    rw [hqueued, if_neg hout]
    exact h.empty r hr
  · rw [hrunning] at hx
    rw [harrived]
    have hsince := h.since x hx
    split
    · rw [List.length_append]
      omega
    · exact hsince

theorem Lossless.arrive_iff (hinv : s.Inv) (h : s.Lossless) (room : RoomName) (data : χ) :
    (s.arrive room data).Lossless ↔
      ¬(room ∉ s.pendingKeyRooms ∧ ∃ d ∈ s.running, d.room = room) := by
  obtain ⟨hprocessed, hqueued, harrived, hpending, hrunning⟩ := s.arrive_spec room data
  constructor
  · -- the room is not pending, so that all its frames are processed, this one too
    rintro h' ⟨hout, d, hd, rfl⟩
    have hwaits := h'.waits d (hrunning ▸ hd)
    have hlength := congrArg List.length (hinv.order d.room)
    have hsince := hinv.since d hd
    rw [hprocessed, if_pos ⟨rfl, hout⟩, List.length_append, List.length_singleton] at hwaits
    rw [hinv.empty d.room hout, List.append_nil] at hlength
    omega
  · intro hkept
    refine ⟨(hinv.arrive room data).order, fun d hd => ?_, fun r hr => ?_⟩
    · rw [hrunning] at hd
      rw [hprocessed, if_neg fun hout => hkept ⟨hout.2, d, hd, hout.1⟩]
      exact h.waits d hd
    · rw [hrunning] at hr
      obtain ⟨hout, hempty⟩ := h.idle r hr
      have hnot : ¬(r = room ∧ room ∈ s.pendingKeyRooms) := fun hin => hout (hin.1 ▸ hin.2)
      rw [hpending, hqueued, if_neg hnot]
      exact ⟨hout, hempty⟩

/-! ### The end of a derivation -/

theorem onDerived_spec (s : ChatListener χ) (d : Derivation) :
    (∀ r, (s.onDerived d).processed r =
      if r = d.room then s.processed r ++ s.queued r else s.processed r) ∧
    (∀ r, (s.onDerived d).queued r = if r = d.room then [] else s.queued r) ∧
    (s.onDerived d).pendingKeyRooms = s.pendingKeyRooms.erase d.room ∧
      (s.onDerived d).running = s.running ∧ (s.onDerived d).arrived = s.arrived :=
  flush_of_notMem (Finset.notMem_erase d.room s.pendingKeyRooms)

theorem Inv.derived (h : s.Inv) (i : ℕ) (d : Derivation) : ((s.finish i).onDerived d).Inv := by
  obtain ⟨hprocessed, hqueued, hpending, hrunning, harrived⟩ := (s.finish i).onDerived_spec d
  refine ⟨fun r => ?_, fun r hr => ?_, fun x hx => ?_⟩
  · rw [hprocessed, hqueued, harrived]
    split
    · exact (List.append_nil _).trans (h.order r)
    · exact h.order r
  · rw [hpending, Finset.mem_erase, not_and] at hr
    rw [hqueued]
    split
    · rfl
    · next hne => exact h.empty r (hr hne)
  · rw [hrunning] at hx
    rw [harrived]
    exact h.since x (List.mem_of_mem_eraseIdx hx)

theorem Lossless.derived_iff (hinv : s.Inv) (h : s.Lossless) (hd : s.running[i]? = some d) :
    ((s.finish i).onDerived d).Lossless ↔ ¬∃ other ∈ s.running.eraseIdx i,
      other.room = d.room ∧ other.since < (s.arrived d.room).length := by
  obtain ⟨hprocessed, hqueued, hpending, hrunning, harrived⟩ := (s.finish i).onDerived_spec d
  have hall : ∀ r, (s.finish i).processed r ++ (s.finish i).queued r = s.arrived r := hinv.order
  constructor
  · -- the flush processes all that has arrived, also since the other one began
    rintro h' ⟨other, hother, hroom, hlt⟩
    have hwaits := h'.waits other (hrunning ▸ hother)
    rw [hprocessed, if_pos hroom, hall, hroom] at hwaits
    omega
  · intro hkept
    refine ⟨(hinv.derived i d).order, fun x hx => ?_, fun r hr => ?_⟩
    · rw [hrunning] at hx
      rw [hprocessed]
      split
      · next hroom =>
          rw [hall]
          by_contra hlt
          exact hkept ⟨x, hx, hroom, hroom ▸ Nat.lt_of_not_le hlt⟩
      · exact h.waits x (List.mem_of_mem_eraseIdx hx)
    · rw [hrunning] at hr
      rw [hpending, hqueued]
      by_cases hroom : r = d.room
      · simp [hroom]
      · -- no other room loses a derivation
        have hidle : ∀ x ∈ s.running, x.room ≠ r := by
          intro x hx
          rcases (mem_running_iff hd).mp hx with rfl | hx
          · exact Ne.symm hroom
          · exact hr x hx
        obtain ⟨hout, hempty⟩ := h.idle r hidle
        rw [if_neg hroom]
        exact ⟨fun hin => hout (Finset.mem_of_mem_erase hin), hempty⟩

theorem Inv.finish (h : s.Inv) (i : ℕ) : (s.finish i).Inv :=
  ⟨h.order, h.empty, fun x hx => h.since x (List.mem_of_mem_eraseIdx hx)⟩

theorem Lossless.finish_iff (hinv : s.Inv) (h : s.Lossless) (hd : s.running[i]? = some d) :
    (s.finish i).Lossless ↔
      ¬(d.room ∈ s.pendingKeyRooms ∧ ∀ other ∈ s.running.eraseIdx i, other.room ≠ d.room) := by
  constructor
  · rintro h' ⟨hpending, hlast⟩
    exact (h'.idle d.room hlast).1 hpending
  · intro hkept
    refine ⟨h.order, fun x hx => h.waits x (List.mem_of_mem_eraseIdx hx), fun r hr => ?_⟩
    by_cases hroom : r = d.room
    · subst hroom
      have hout : d.room ∉ s.pendingKeyRooms := fun hin => hkept ⟨hin, hr⟩
      exact ⟨hout, hinv.empty _ hout⟩
    · refine h.idle r fun x hx => ?_
      rcases (mem_running_iff hd).mp hx with rfl | hx
      · exact Ne.symm hroom
      · exact hr x hx

/-! ### Runs -/

variable {a : ChatAction χ}

/-- What the listener does. -/
theorem step_cases (h : s.step a = some s') :
    (∃ room salt, a = .presence room salt ∧ s' = s.onPresence room salt) ∨
    (∃ data, a = .chat "" data ∧ s' = s) ∨
    (∃ room data, room ≠ "" ∧ a = .chat room data ∧ s' = s.arrive room data) ∨
    (∃ i d, a = .resolve i ∧ s.running[i]? = some d ∧ d.salt.length = 32 ∧
      s' = (s.finish i).onDerived d) ∨
    ∃ i d, a = .reject i ∧ s.running[i]? = some d ∧ s' = s.finish i := by
  cases a with
  | presence room salt =>
      cases h
      exact .inl ⟨room, salt, rfl, rfl⟩
  | chat room data =>
      simp only [step] at h
      split at h
      · next hroom =>
          cases h
          exact .inr (.inl ⟨data, by rw [hroom], rfl⟩)
      · next hroom =>
          cases h
          exact .inr (.inr (.inl ⟨room, data, hroom, rfl, rfl⟩))
  | resolve i =>
      simp only [step] at h
      split at h
      · next d hd =>
          split at h
          · next hsize =>
              cases h
              exact .inr (.inr (.inr (.inl ⟨i, d, rfl, hd, hsize, rfl⟩)))
          · cases h
      · cases h
  | reject i =>
      obtain ⟨d, hd, rfl⟩ := Option.map_eq_some_iff.mp h
      exact .inr (.inr (.inr (.inr ⟨i, d, rfl, hd, rfl⟩)))

theorem Inv.step (h : s.Inv) (hstep : s.step a = some s') : s'.Inv := by
  obtain ⟨room, salt, -, rfl⟩ | ⟨data, -, rfl⟩ | ⟨room, data, -, -, rfl⟩ |
    ⟨i, d, -, hd, -, rfl⟩ | ⟨i, d, -, hd, rfl⟩ := step_cases hstep
  · exact h.presence room salt
  · exact h
  · exact h.arrive room data
  · exact h.derived i d
  · exact h.finish i

/-- **One step loses nothing exactly where it is none that loses.** -/
theorem Lossless.step_iff (hinv : s.Inv) (h : s.Lossless) (hstep : s.step a = some s') :
    s'.Lossless ↔ ¬s.Loses a := by
  obtain ⟨room, salt, rfl, rfl⟩ | ⟨data, rfl, rfl⟩ | ⟨room, data, hroom, rfl, rfl⟩ |
    ⟨i, d, rfl, hd, hsize, rfl⟩ | ⟨i, d, rfl, hd, rfl⟩ := step_cases hstep
  · exact iff_of_true (Lossless.presence hinv h room salt) fun hl => hl
  · exact iff_of_true h fun hl => hl.1 rfl
  · rw [Lossless.arrive_iff hinv h]
    exact not_congr (and_iff_right hroom).symm
  · rw [Lossless.derived_iff hinv h hd]
    simp [Loses, hd]
  · rw [Lossless.finish_iff hinv h hd]
    simp [Loses, hd]

/-- **No frame is lost exactly in the runs none of whose steps loses one.** -/
theorem queueing_lossless_iff (a : App) (as : List (ChatAction χ)) :
    Along step (fun _ _ s' => Lossless s') (new a) as ↔
      Along step (fun s action _ => ¬Loses s action) (new a) as := by
  refine along_congr (I := fun s => s.Inv ∧ s.Lossless) ?_ ?_ ⟨inv_new a, lossless_new a⟩
  · rintro s action s' ⟨hinv, h⟩ hkept hstep
    exact ⟨hinv.step hstep, (Lossless.step_iff hinv h hstep).mpr hkept⟩
  · rintro s action s' ⟨hinv, h⟩ hstep
    exact Lossless.step_iff hinv h hstep

/-- A room that was joined with a passphrase. -/
def passphraseRoom : App :=
  { App.open none with
    saltRefs := fun room => if room = "r" then some (List.replicate 32 0) else none
    passphraseRefs := fun room => if room = "r" then some "p" else none }

/-- A presence message with a salt of three bytes, whose derivation is rejected. -/
def shortSalt : List (ChatAction String) := [.presence "r" "AAAA", .reject 0]

/-- The room stays pending where no derivation runs. -/
theorem shortSalt_pending : ¬∀ (a : App) (as : List (ChatAction String)),
    Along step (fun _ _ s' => Lossless s') (new a) as := by
  intro h
  let s : ChatListener String := (new passphraseRoom).onPresence "r" "AAAA"
  have hpresence : (new passphraseRoom).step (.presence "r" "AAAA") = some s := rfl
  have hrunning : s.running = [⟨"r", "p", [0, 0, 0], 0⟩] := by decide
  have hreject : s.step (.reject 0) = some (s.finish 0) := by
    rw [step, hrunning]
    rfl
  have hfinished : (s.finish 0).running = [] := by
    rw [finish, hrunning]
    rfl
  have hpending : "r" ∈ (s.finish 0).pendingKeyRooms := by decide
  obtain ⟨-, hrest⟩ := (along_cons hpresence).mp (h passphraseRoom shortSalt)
  obtain ⟨hlossless, -⟩ := (along_cons hreject).mp hrest
  exact (hlossless.idle "r" (by simp [hfinished])).1 hpending

end

end ChatListener

end TrapChat.Client
