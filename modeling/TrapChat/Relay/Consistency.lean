import TrapChat.Relay.Addressing

/-!
Membership is recorded twice in the relay: in the map of the room and in each
handler's `current_room`. Every operation of a handler changes both for its own
connection. The eviction of slow consumers changes the map for connections whose
handlers are not told, and leaves the room in the map when nobody is left in it.
-/

namespace TrapChat.Relay

open Transition

/-- No room in the map is empty. -/
def Occupied (s : State) : Prop := ∀ room r, s.rooms.lookup room = some r → r.Nonempty

/-- The two records agree, on connections that are there and on rooms that are
occupied. -/
structure Consistent (s : State) : Prop where
  current : ∀ c room, s.current c = some room → c ∈ s.members room
  members : ∀ room, ∀ c ∈ s.members room, c ∈ s.conns ∧ s.current c = some room
  occupied : Occupied s

/-- One of the two limits refuses a join. -/
def JoinRefused (s : State) (c : ConnId) (room : RoomName) : Prop :=
  ((s.leaveCurrent c).rooms.lookup room = none ∧ maxRooms ≤ (s.leaveCurrent c).rooms.keys.card) ∨
    (maxPeersPerRoom ≤ ((s.leaveCurrent c).members room).card ∧
      c ∉ (s.leaveCurrent c).members room)

/-- The event is a join that a limit refuses. -/
def RefusesJoin (rt : RustRuntime) (s : State) : Event → Prop
  | .message c (some m) _ _ => refusal rt c m = none ∧ m.msgType = .join ∧ JoinRefused s c m.room
  | _ => False

/-- A fan-out finds the queue of another member full or closed. -/
def Evicts (rt : RustRuntime) (s : State) : Event → Prop
  | .message c (some m) refuse _ => refusal rt c m = none ∧ m.msgType.fansOut = true ∧
      ∃ room ∈ s.current c, ∃ x ∈ s.members room, x ≠ c ∧ x ∈ refuse
  | _ => False

instance (s : State) (c : ConnId) (room : RoomName) : Decidable (JoinRefused s c room) :=
  inferInstanceAs (Decidable (_ ∨ _))

instance (rt : RustRuntime) (s : State) : (e : Event) → Decidable (RefusesJoin rt s e)
  | .message _ (some _) _ _ => inferInstanceAs (Decidable (_ ∧ _))
  | .message _ none _ _ | .connect _ | .disconnect _ => .isFalse id

instance (rt : RustRuntime) (s : State) : (e : Event) → Decidable (Evicts rt s e)
  | .message _ (some _) _ _ => inferInstanceAs (Decidable (_ ∧ _ ∧ ∃ _ ∈ _, ∃ _ ∈ _, _))
  | .message _ none _ _ | .connect _ | .disconnect _ => .isFalse id

/-! ### Occupied rooms -/

section
variable {s : State} {room : RoomName} {c : ConnId}

theorem Occupied.leaveRoom (h : Occupied s) (room : RoomName) (c : ConnId) :
    Occupied (s.leaveRoom room c) := by
  intro q r hq
  unfold State.leaveRoom at hq
  split at hq
  · exact h q r hq
  · dsimp only at hq
    split at hq
    · rename_i hempty
      by_cases hne : q = room
      · rw [hne, Finmap.lookup_erase] at hq
        cases hq
      · rw [Finmap.lookup_erase_ne hne] at hq
        exact h q r hq
    · rename_i hempty
      by_cases hne : q = room
      · rw [hne, Finmap.lookup_insert] at hq
        obtain rfl := Option.some.inj hq
        exact Finset.nonempty_iff_ne_empty.mpr hempty
      · rw [Finmap.lookup_insert_of_ne _ hne] at hq
        exact h q r hq

theorem Occupied.leaveCurrent (h : Occupied s) (c : ConnId) : Occupied (s.leaveCurrent c) := by
  unfold State.leaveCurrent
  split
  · exact h
  · exact h.leaveRoom _ c

/-- A join opens a room and fills it. -/
theorem Occupied.enter (h : Occupied s) (room : RoomName) (c : ConnId) :
    Occupied ((s.openRoom room).enter room c) := by
  intro q r hq
  unfold State.enter at hq
  by_cases hne : q = room
  · rw [hne, Finmap.lookup_insert] at hq
    rw [← Option.some.inj hq]
    exact Finset.insert_nonempty c _
  · rw [Finmap.lookup_insert_of_ne _ hne] at hq
    unfold State.openRoom at hq
    rw [Finmap.lookup_insert_of_ne _ hne] at hq
    exact h q r hq

theorem Occupied.evict_nobody (h : Occupied s) (room : RoomName) {stale : Finset ConnId}
    (hstale : stale = ∅) : Occupied (s.evict room stale) := by
  intro q r hq
  unfold State.evict at hq
  split at hq
  · exact h q r hq
  · rename_i r' hr'
    by_cases hne : q = room
    · rw [hne, Finmap.lookup_insert, hstale, Finset.sdiff_empty] at hq
      obtain rfl := Option.some.inj hq
      exact h room r' hr'
    · rw [Finmap.lookup_insert_of_ne _ hne] at hq
      exact h q r hq

end

/-! ### What one message does to a consistent state -/

section
variable {s : State} {c : ConnId} {m : Message} {refuse : Finset ConnId}

theorem Consistent.placed (h : Consistent s) : Placed s := fun room c hc => (h.members room c hc).2

theorem Consistent.leave (h : Consistent s) (c : ConnId) : Consistent (handleLeave s c).1 := by
  unfold handleLeave
  split
  · exact h
  · rename_i room hroom
    have hmem : ∀ q x, x ∈ ((s.leaveRoom room c).setCurrent c none).members q ↔
        ¬(q = room ∧ x = c) ∧ x ∈ s.members q := fun q x => State.mem_members_leaveRoom
    have hcur : ((s.leaveRoom room c).setCurrent c none).current =
        Function.update s.current c none := by
      rw [State.setCurrent, State.current_leaveRoom]
    refine ⟨?_, ?_, (h.occupied.leaveRoom room c)⟩
    · intro x q hx
      rw [hcur] at hx
      obtain ⟨hxc, hx⟩ := of_update_none hx
      exact (hmem q x).mpr ⟨fun hq => hxc hq.2, h.current x q hx⟩
    · intro q x hx
      obtain ⟨hout, hx⟩ := (hmem q x).mp hx
      obtain ⟨hconn, hxq⟩ := h.members q x hx
      have hxc : x ≠ c := by
        rintro rfl
        exact hout ⟨Option.some.inj (hxq.symm.trans hroom), rfl⟩
      refine ⟨?_, ?_⟩
      · show x ∈ (s.leaveRoom room c).conns
        rwa [State.conns_leaveRoom]
      · rw [hcur, Function.update_of_ne hxc]
        exact hxq

/-- A join that no limit refuses. -/
theorem handleJoin_of_not_refused (hjoins : ¬JoinRefused s c m.room) : handleJoin s c m =
    (((s.leaveCurrent c).openRoom m.room).enter m.room c,
      broadcastPresence (((s.leaveCurrent c).openRoom m.room).enter m.room c) m.room) := by
  have hroom : ¬((s.leaveCurrent c).rooms.lookup m.room = none ∧
      maxRooms ≤ (s.leaveCurrent c).rooms.keys.card) := fun hl => hjoins (.inl hl)
  have hfull : ¬(maxPeersPerRoom ≤ (((s.leaveCurrent c).openRoom m.room).members m.room).card ∧
      c ∉ ((s.leaveCurrent c).openRoom m.room).members m.room) := by
    rw [State.members_openRoom]
    exact fun hl => hjoins (.inr hl)
  unfold handleJoin
  dsimp only
  rw [if_neg hroom, if_neg hfull]

/-- A join that a limit refuses has left the current room all the same. -/
theorem handleJoin_of_refused (hrefused : JoinRefused s c m.room) :
    ∃ s' text, handleJoin s c m = (s', [.error c m.room text]) ∧ s'.current = s.current ∧
      ∀ q, s'.members q = (s.leaveCurrent c).members q := by
  unfold handleJoin
  dsimp only
  split
  · exact ⟨_, _, rfl, State.current_leaveCurrent s c, fun q => rfl⟩
  · next hroom =>
      have hfull := hrefused.resolve_left hroom
      rw [State.members_openRoom, if_pos hfull]
      exact ⟨_, _, rfl, State.current_leaveCurrent s c, fun q => State.members_openRoom _ _ q⟩

theorem mem_members_joined {q : RoomName} {x : ConnId} :
    x ∈ (((s.leaveCurrent c).openRoom m.room).enter m.room c).members q ↔
      (q = m.room ∧ x = c) ∨ ¬(s.current c = some q ∧ x = c) ∧ x ∈ s.members q := by
  rw [State.mem_members_enter, State.members_openRoom, State.mem_members_leaveCurrent]

theorem current_joined : (((s.leaveCurrent c).openRoom m.room).enter m.room c).current =
    Function.update s.current c (some m.room) := by
  show Function.update (s.leaveCurrent c).current c (some m.room) = _
  rw [State.current_leaveCurrent]

theorem Consistent.join (h : Consistent s) (hc : c ∈ s.conns) (hjoins : ¬JoinRefused s c m.room) :
    Consistent (handleJoin s c m).1 := by
  rw [handleJoin_of_not_refused hjoins]
  dsimp only
  refine ⟨?_, ?_, (h.occupied.leaveCurrent c).enter m.room c⟩
  · intro x q hx
    rw [current_joined] at hx
    by_cases hxc : x = c
    · rw [hxc, Function.update_self] at hx
      exact mem_members_joined.mpr (.inl ⟨(Option.some.inj hx).symm, hxc⟩)
    · rw [Function.update_of_ne hxc] at hx
      exact mem_members_joined.mpr (.inr ⟨fun hq => hxc hq.2, h.current x q hx⟩)
  · intro q x hx
    have hconns : (((s.leaveCurrent c).openRoom m.room).enter m.room c).conns = s.conns :=
      State.conns_leaveCurrent s c
    rw [current_joined, hconns]
    obtain ⟨rfl, rfl⟩ | ⟨hout, hx⟩ := mem_members_joined.mp hx
    · exact ⟨hc, Function.update_self _ _ _⟩
    · obtain ⟨hconn, hxq⟩ := h.members q x hx
      have hxc : x ≠ c := by
        rintro rfl
        exact hout ⟨hxq, rfl⟩
      rw [Function.update_of_ne hxc]
      exact ⟨hconn, hxq⟩

/-- A fan-out that evicts nobody. -/
theorem Consistent.fanOut (h : Consistent s)
    (hkeep : ∀ room, s.current c = some room → ∀ x ∈ s.members room, x ≠ c → x ∉ refuse) :
    Consistent (fanOut s c m refuse).1 := by
  unfold Relay.fanOut
  split
  · exact h
  · rename_i room hroom
    split
    · exact h
    · rename_i r hr
      have hmembers : s.members room = r := by rw [State.members, hr, Option.getD_some]
      have hnobody : r.erase c ∩ refuse = ∅ := by
        rw [← Finset.disjoint_iff_inter_eq_empty, Finset.disjoint_left]
        intro x hx
        obtain ⟨hxc, hxr⟩ := Finset.mem_erase.mp hx
        exact hkeep room hroom x (hmembers ▸ hxr) hxc
      have hmem : ∀ q x, x ∈ (s.evict room (r.erase c ∩ refuse)).members q ↔ x ∈ s.members q := by
        intro q x
        rw [State.mem_members_evict, hnobody]
        simp
      refine ⟨?_, ?_, h.occupied.evict_nobody room hnobody⟩
      · intro x q hx
        rw [State.current_evict] at hx
        exact (hmem q x).mpr (h.current x q hx)
      · intro q x hx
        rw [State.current_evict, State.conns_evict]
        exact h.members q x ((hmem q x).mp hx)

/-- An evicted connection still has the room as its current one. -/
theorem Consistent.not_evict {room : RoomName} {x : ConnId} (h : Consistent s)
    (hroom : s.current c = some room) (hx : x ∈ s.members room) (hxc : x ≠ c) (href : x ∈ refuse) :
    ¬Consistent (Relay.fanOut s c m refuse).1 := by
  intro h'
  have hlookup : s.rooms.lookup room = some (s.members room) := by
    cases hr : s.rooms.lookup room with
    | none => simp [State.members, hr] at hx
    | some r => rw [State.members, hr, Option.getD_some]
  have hfan : (Relay.fanOut s c m refuse).1 =
      s.evict room ((s.members room).erase c ∩ refuse) := by
    unfold Relay.fanOut
    rw [hroom]
    dsimp only
    rw [hlookup]
  rw [hfan] at h'
  have hin := h'.current x room (by rw [State.current_evict]; exact (h.members room x hx).2)
  refine (State.mem_members_evict.mp hin).1 ⟨rfl, ?_⟩
  exact Finset.mem_inter.mpr ⟨Finset.mem_erase.mpr ⟨hxc, hx⟩, href⟩

theorem Consistent.dispatch (h : Consistent s) (hc : c ∈ s.conns) {now : ℕ}
    (hjoins : m.msgType = .join → ¬JoinRefused s c m.room) :
    Consistent (dispatch s c { m with timestamp := now } refuse).1 ↔
      ¬(m.msgType.fansOut = true ∧
        ∃ room ∈ s.current c, ∃ x ∈ s.members room, x ≠ c ∧ x ∈ refuse) := by
  have hfan : m.msgType.fansOut = true → ∀ m' : Message,
      (Consistent (Relay.fanOut s c m' refuse).1 ↔ ¬(m.msgType.fansOut = true ∧
        ∃ room ∈ s.current c, ∃ x ∈ s.members room, x ≠ c ∧ x ∈ refuse)) := by
    intro htype m'
    constructor
    · rintro h' ⟨-, room, hroom, x, hx, hxc, href⟩
      exact h.not_evict hroom hx hxc href h'
    · intro hnobody
      exact h.fanOut fun room hroom x hx hxc href => hnobody ⟨htype, room, hroom, x, hx, hxc, href⟩
  have hother : ∀ {s' : State}, m.msgType.fansOut = false → Consistent s' →
      (Consistent s' ↔ ¬(m.msgType.fansOut = true ∧
        ∃ room ∈ s.current c, ∃ x ∈ s.members room, x ≠ c ∧ x ∈ refuse)) := by
    intro s' htype h'
    refine iff_of_true h' fun hf => ?_
    rw [htype] at hf
    cases hf.1
  unfold Relay.dispatch
  dsimp only
  split
  case h_1 htype =>
    exact hother (by rw [htype]; rfl) (h.join (m := { m with timestamp := now }) hc (hjoins htype))
  case h_7 htype => exact hother (by rw [htype]; rfl) (h.leave c)
  case h_2 htype => exact hfan (by rw [htype]; rfl) _
  case h_3 htype => exact hfan (by rw [htype]; rfl) _
  case h_4 htype => exact hfan (by rw [htype]; rfl) _
  case h_5 htype => exact hfan (by rw [htype]; rfl) _
  case h_6 htype => exact hfan (by rw [htype]; rfl) _
  all_goals
    rename_i htype
    exact hother (by rw [htype]; rfl) h

end

/-! ### Runs -/

variable {rt : RustRuntime} {s s' : State} {e : Event}

theorem consistent_newState : Consistent newState where
  current := fun _ _ h => by cases h
  members := fun _ _ h => absurd h (Finset.notMem_empty _)
  occupied := fun _ _ h => by
    rw [newState, Finmap.lookup_empty] at h
    cases h

/-- **A step keeps the two records in agreement exactly when it evicts nobody.** -/
theorem Consistent.step_iff (h : Consistent s) (hstep : step rt s e = some s')
    (hjoins : ¬RefusesJoin rt s e) : Consistent s' ↔ ¬Evicts rt s e := by
  obtain ⟨res, hres, rfl⟩ := Option.map_eq_some_iff.mp hstep
  cases e with
  | connect c =>
      simp only [handle, Option.ite_none_left_eq_some, Option.some.injEq] at hres
      obtain ⟨hfresh, rfl⟩ := hres
      refine iff_of_true ⟨h.current, fun room x hx => ?_, h.occupied⟩ fun hf => hf
      obtain ⟨hconn, hroom⟩ := h.members room x hx
      exact ⟨Finset.mem_insert_of_mem hconn, hroom⟩
  | disconnect c =>
      simp only [handle, Option.ite_none_right_eq_some, Option.some.injEq] at hres
      obtain ⟨hc, rfl⟩ := hres
      have hleft := h.leave c
      refine iff_of_true ⟨hleft.current, fun room x hx => ?_, hleft.occupied⟩ fun hf => hf
      obtain ⟨hconn, hroom⟩ := hleft.members room x hx
      refine ⟨Finset.mem_erase.mpr ⟨?_, hconn⟩, hroom⟩
      rintro rfl
      have hnone : (handleLeave s x).1.current x = none := by
        unfold handleLeave
        split
        · assumption
        · exact Function.update_self _ _ _
      rw [hnone] at hroom
      cases hroom
  | message c frame refuse now =>
      simp only [handle, Option.ite_none_right_eq_some, Option.some.injEq] at hres
      obtain ⟨hc, rfl⟩ := hres
      cases frame with
      | none => exact iff_of_true h fun hf => hf
      | some m =>
          unfold handleMessage Evicts
          dsimp only
          cases href : refusal rt c m with
          | some reply => exact iff_of_true h fun hf => nomatch hf.1
          | none =>
              rw [h.dispatch hc fun htype hlimit => hjoins ⟨href, htype, hlimit⟩]
              simp

/-- **Relay membership is consistent** in every state of a run that refuses no
join exactly when no fan-out of the run finds another member's queue full or
closed. -/
theorem membership_consistent_iff (rt : RustRuntime) {es : List Event}
    (hjoins : Along (step rt) (fun s e _ => ¬RefusesJoin rt s e) newState es) :
    Along (step rt) (fun _ _ s' => Consistent s') newState es ↔
      Along (step rt) (fun s e _ => ¬Evicts rt s e) newState es := by
  have hboth : Along (step rt) (fun s e s' => ¬RefusesJoin rt s e ∧ Consistent s') newState es ↔
      Along (step rt) (fun s e _ => ¬RefusesJoin rt s e ∧ ¬Evicts rt s e) newState es :=
    along_congr (I := Consistent)
      (fun s e s' h hmeets hstep => (h.step_iff hstep hmeets.1).mpr hmeets.2)
      (fun s e s' h hstep => and_congr_right fun hadm => h.step_iff hstep hadm) consistent_newState
  rw [along_and, along_and] at hboth
  exact ⟨fun h => (hboth.mp ⟨hjoins, h⟩).2, fun h => (hboth.mpr ⟨hjoins, h⟩).2⟩

/-- The connection `a` sends chat to `b`, whose queue has room, and leaves. -/
def chatInX : List Event :=
  twoInX ++ [.message "a" (some ⟨"", .chat, "x", some "hi", 0⟩) ∅ 0,
    .message "a" (some ⟨"", .leave, "x", none, 0⟩) ∅ 0, .disconnect "b"]

theorem membership_consistent_chatInX :
    Along (step asciiRelay) (fun _ _ s' => Consistent s') newState chatInX :=
  (membership_consistent_iff asciiRelay (by decide)).mpr (by decide)

/-- The queue of `b` is full when `a` sends chat. -/
def fullQueueInX : List Event := twoInX ++ [.message "a" (some ⟨"", .chat, "x", some "hi", 0⟩) {"b"} 0]

/-- **An evicted connection goes on sending to a room it is not in.** -/
theorem fullQueue_evicts : ¬∀ es, Along (step asciiRelay) (fun s e _ => ¬RefusesJoin asciiRelay s e)
    newState es → Along (step asciiRelay) (fun _ _ s' => Consistent s') newState es := by
  intro h
  have hall := h fullQueueInX (by decide)
  have hlast := (((((hall _ rfl).2 _ rfl).2 _ rfl).2 _ rfl).2 _ rfl).1
  exact absurd (hlast.current "b" "x" (by decide)) (by decide)

/-! ### Refused joins -/

/-- A connection's current room and everybody's membership are as before. -/
structure JoinUndone (s s' : State) (c : ConnId) : Prop where
  current : s'.current c = s.current c
  members : ∀ room, s'.members room = s.members room

/-- Presence is all that an accepted join sends. -/
theorem error_not_mem_broadcastPresence {room q : RoomName} {c : ConnId} {text : String} :
    Output.error c q text ∉ broadcastPresence s room := by
  unfold broadcastPresence
  split <;> simp

theorem handleJoin_of_error {c : ConnId} {m : Message} {room : RoomName} {text : String}
    (h : Output.error c room text ∈ (handleJoin s c m).2) :
    (handleJoin s c m).1.current = s.current ∧
      ∀ q, (handleJoin s c m).1.members q = (s.leaveCurrent c).members q := by
  by_cases hrefused : JoinRefused s c m.room
  · obtain ⟨s', _, heq, hcurrent, hmembers⟩ := handleJoin_of_refused hrefused
    rw [heq]
    exact ⟨hcurrent, hmembers⟩
  · rw [handleJoin_of_not_refused hrefused] at h
    exact absurd h error_not_mem_broadcastPresence

/-- Leaving the current room changes no membership for a connection that is not in it. -/
theorem members_leaveCurrent_eq_iff {c : ConnId} :
    (∀ q, (s.leaveCurrent c).members q = s.members q) ↔
      ∀ room, s.current c = some room → c ∉ s.members room := by
  constructor
  · intro h room hroom hc
    rw [← h room] at hc
    exact (State.mem_members_leaveCurrent.mp hc).1 ⟨hroom, rfl⟩
  · intro h q
    ext x
    rw [State.mem_members_leaveCurrent]
    refine and_iff_right_of_imp fun hx => ?_
    rintro ⟨hroom, rfl⟩
    exact h q hroom hx

/-- **A refused join is atomic exactly** when the message itself was refused, or when
the connection is not a member of the room it has as its current one. -/
theorem refused_join_undone_iff (rt : RustRuntime) (s s' : State) (c : ConnId) (m : Message)
    (refuse : Finset ConnId) (now : ℕ) (out : List Output) (hjoin : m.msgType = .join)
    (hstep : handle rt s (.message c (some m) refuse now) = some (s', out))
    (herror : ∃ room text, Output.error c room text ∈ out) :
    JoinUndone s s' c ↔
      refusal rt c m ≠ none ∨ ∀ room, s.current c = some room → c ∉ s.members room := by
  simp only [handle, Option.ite_none_right_eq_some, Option.some.injEq] at hstep
  obtain ⟨-, hstep⟩ := hstep
  rw [handleMessage] at hstep
  cases href : refusal rt c m with
  | some reply =>
      rw [href] at hstep
      cases hstep
      exact iff_of_true ⟨rfl, fun _ => rfl⟩ (.inl (Option.some_ne_none reply))
  | none =>
      have hdispatch : dispatch s c { m with timestamp := now } refuse =
          handleJoin s c { m with timestamp := now } := by
        rw [dispatch]
        simp only [hjoin]
      rw [href] at hstep
      dsimp only at hstep
      rw [hdispatch] at hstep
      have hs' := congrArg Prod.fst hstep
      obtain ⟨room, text, herror⟩ := herror
      obtain ⟨hcurrent, hmembers⟩ := handleJoin_of_error (by rwa [hstep])
      rw [hs'] at hcurrent hmembers
      rw [or_iff_right (fun h => h rfl), ← members_leaveCurrent_eq_iff]
      constructor
      · intro hundone q
        rw [← hmembers q]
        exact hundone.members q
      · intro hsame
        exact ⟨congrFun hcurrent c, fun q => (hmembers q).trans (hsame q)⟩

/-- A connection that joins a room. -/
def joins (c : ConnId) (room : RoomName) : List Event :=
  [.connect c, .message c (some ⟨"", .join, room, none, 0⟩) ∅ 0]

/-- Room `y` is full, and `a` is in `x`. -/
def fullY : List Event := ((List.range 50).flatMap fun n => joins (toString n) "y") ++ joins "a" "x"

theorem fullY_runs : (exec (step asciiRelay) newState fullY).isSome = true := by decide +kernel

@[irreducible] def atFullY : State := (exec (step asciiRelay) newState fullY).get fullY_runs

theorem reachable_atFullY : Reachable (step asciiRelay) newState atFullY := by
  rw [atFullY]
  exact reachable_get fullY_runs

/-- What `a` does next. -/
def joinFullY : Message := ⟨"", .join, "y", none, 0⟩

theorem handle_message {c : ConnId} {frame : Option Message} {refuse : Finset ConnId} {now : ℕ}
    (h : c ∈ s.conns) : handle rt s (.message c frame refuse now) =
      some ((handleMessage rt s c frame refuse now).1, (handleMessage rt s c frame refuse now).2) :=
  if_pos h

theorem mem_conns_atFullY : "a" ∈ atFullY.conns := by decide +kernel

theorem error_joinFullY : Output.error "a" "y" "room full — max 50 peers" ∈
    (handleMessage asciiRelay atFullY "a" (some joinFullY) ∅ 0).2 := by
  decide +kernel

theorem refused_join_undone_fullY :
    JoinUndone atFullY (handleMessage asciiRelay atFullY "a" (some joinFullY) ∅ 0).1 "a" ↔
      refusal asciiRelay "a" joinFullY ≠ none ∨
        ∀ room, atFullY.current "a" = some room → "a" ∉ atFullY.members room :=
  refused_join_undone_iff asciiRelay _ _ _ _ _ _ _ rfl (handle_message mem_conns_atFullY)
    ⟨_, _, error_joinFullY⟩

/-- **A connection that a full room refuses is out of the room it came from.** -/
theorem refused_join_loses_membership : ¬∀ s, Reachable (step asciiRelay) newState s →
    ∀ s' c m refuse now out, m.msgType = .join →
      handle asciiRelay s (.message c (some m) refuse now) = some (s', out) →
      (∃ room text, Output.error c room text ∈ out) → JoinUndone s s' c := by
  intro h
  have hundone := h atFullY reachable_atFullY _ _ joinFullY _ _ _ rfl
    (handle_message mem_conns_atFullY) ⟨_, _, error_joinFullY⟩
  have hleft : "a" ∉ (handleMessage asciiRelay atFullY "a" (some joinFullY) ∅ 0).1.members "x" := by
    decide +kernel
  rw [hundone.members "x"] at hleft
  exact hleft (by decide +kernel)

end TrapChat.Relay
