import TrapChat.Library.Transition
import TrapChat.Relay.Handler

/-!
Where the relay sends a message, compared with the room the message names. The
handler checks the name in the message and then routes by the connection's
current room, so the two have to be related over whole runs: a connection is in
no room but its current one, though it may be out of that one too, after a
refused join or an eviction.
-/

namespace TrapChat.Relay

open Transition

/-- The connections that a handler's fan-outs reach. -/
def deliveries : List Output → Finset ConnId
  | [] => ∅
  | .fanOut targets _ :: outs => targets ∪ deliveries outs
  | _ :: outs => deliveries outs

/-- The types that are passed on to a room. -/
def MessageType.fansOut : MessageType → Bool
  | .chat | .media | .typing | .receipt | .keyRotation => true
  | _ => false

/-! ### What a message can do -/

/-- All that one message does to membership, and whom it reaches. -/
inductive MessageEffect (s : State) (c : ConnId) (m : Message) (refuse : Finset ConnId) :
    State × List Output → Prop
  | none {s' : State} {outs : List Output} (hmem : ∀ q, s'.members q = s.members q)
      (hcur : s'.current = s.current) (hdel : deliveries outs = ∅)
      (hidle : ∀ q, s.current c = some q →
        m.msgType ≠ .leave ∧ (m.msgType.fansOut = true → s.members q = ∅)) :
      MessageEffect s c m refuse (s', outs)
  /-- A join that a limit refuses has left the current room all the same. -/
  | unjoined {s' : State} {outs : List Output} (htype : m.msgType = .join)
      (hmem : ∀ q x, x ∈ s'.members q ↔ ¬(s.current c = some q ∧ x = c) ∧ x ∈ s.members q)
      (hcur : s'.current = s.current) (hdel : deliveries outs = ∅) :
      MessageEffect s c m refuse (s', outs)
  | joined {s' : State} {outs : List Output} (htype : m.msgType = .join)
      (hmem : ∀ q x, x ∈ s'.members q ↔
        (q = m.room ∧ x = c) ∨ ¬(s.current c = some q ∧ x = c) ∧ x ∈ s.members q)
      (hcur : s'.current = Function.update s.current c (some m.room))
      (hdel : deliveries outs = ∅) : MessageEffect s c m refuse (s', outs)
  | fanned {s' : State} {outs : List Output} (htype : m.msgType.fansOut = true)
      (room : RoomName) (hroom : s.current c = some room)
      (hmem : ∀ q x, x ∈ s'.members q ↔
        ¬(q = room ∧ x ≠ c ∧ x ∈ refuse) ∧ x ∈ s.members q)
      (hcur : s'.current = s.current)
      (hdel : deliveries outs = (s.members room).erase c \ refuse) :
      MessageEffect s c m refuse (s', outs)
  | left {s' : State} {outs : List Output} (htype : m.msgType = .leave)
      (room : RoomName) (hroom : s.current c = some room)
      (hmem : ∀ q x, x ∈ s'.members q ↔ ¬(q = room ∧ x = c) ∧ x ∈ s.members q)
      (hcur : s'.current = Function.update s.current c Option.none)
      (hdel : deliveries outs = ∅) : MessageEffect s c m refuse (s', outs)

section
variable {s : State} {c : ConnId} {m : Message} {refuse : Finset ConnId}

@[simp] theorem deliveries_broadcastPresence (s : State) (room : RoomName) :
    deliveries (broadcastPresence s room) = ∅ := by
  unfold broadcastPresence
  split <;> rfl

theorem handleJoin_effect (htype : m.msgType = .join) :
    MessageEffect s c m refuse (handleJoin s c m) := by
  unfold handleJoin
  dsimp only
  split
  · exact .unjoined htype (fun q x => State.mem_members_leaveCurrent) (by simp) rfl
  · split
    · refine .unjoined htype (fun q x => ?_) ?_ rfl
      · rw [State.members_openRoom]
        exact State.mem_members_leaveCurrent
      · change (s.leaveCurrent c).current = s.current
        exact State.current_leaveCurrent s c
    · refine .joined htype (fun q x => ?_) ?_ (deliveries_broadcastPresence _ _)
      · rw [State.mem_members_enter, State.members_openRoom, State.mem_members_leaveCurrent]
      · change Function.update (s.leaveCurrent c).current c (some m.room) = _
        rw [State.current_leaveCurrent]

theorem fanOut_effect {m' : Message} (htype : m.msgType.fansOut = true) :
    MessageEffect s c m refuse (fanOut s c m' refuse) := by
  unfold fanOut
  split
  · rename_i hnone
    exact .none (fun _ => rfl) rfl rfl fun q hq => by simp [hnone] at hq
  · rename_i room hroom
    split
    · rename_i hr
      refine .none (fun _ => rfl) rfl rfl fun q hq => ⟨?_, fun _ => ?_⟩
      · intro hleave
        simp [hleave, MessageType.fansOut] at htype
      · obtain rfl : room = q := Option.some.inj (hroom.symm.trans hq)
        simp [State.members, hr]
    · rename_i r hr
      have hmembers : s.members room = r := by rw [State.members, hr, Option.getD_some]
      refine .fanned htype room hroom (fun q x => ?_) (State.current_evict _ _ _) ?_
      · rw [State.mem_members_evict, Finset.mem_inter, Finset.mem_erase]
        constructor
        · rintro ⟨hout, hx⟩
          refine ⟨?_, hx⟩
          rintro ⟨hq, hne, href⟩
          apply hout
          refine ⟨hq, ⟨hne, ?_⟩, href⟩
          rw [← hmembers, ← hq]
          exact hx
        · rintro ⟨hout, hx⟩
          refine ⟨?_, hx⟩
          rintro ⟨hq, ⟨hne, -⟩, href⟩
          exact hout ⟨hq, hne, href⟩
      · simp [deliveries, hmembers]

theorem handleLeave_effect (htype : m.msgType = .leave) :
    MessageEffect s c m refuse (handleLeave s c) := by
  unfold handleLeave
  split
  · rename_i hnone
    exact .none (fun _ => rfl) rfl rfl fun q hq => by simp [hnone] at hq
  · rename_i room hroom
    refine .left htype room hroom (fun q x => ?_) ?_ (deliveries_broadcastPresence _ _)
    · rw [State.members_setCurrent, State.mem_members_leaveRoom]
    · change Function.update (s.leaveRoom room c).current c none = _
      rw [State.current_leaveRoom]

/-- **The effect of a message** that the checks let through. -/
theorem dispatch_effect (now : ℕ) :
    MessageEffect s c m refuse (dispatch s c { m with timestamp := now } refuse) := by
  unfold dispatch
  dsimp only
  split
  case h_1 htype => exact handleJoin_effect (m := m) htype
  case h_2 htype => exact fanOut_effect (by rw [htype]; rfl)
  case h_3 htype => exact fanOut_effect (by rw [htype]; rfl)
  case h_4 htype => exact fanOut_effect (by rw [htype]; rfl)
  case h_5 htype => exact fanOut_effect (by rw [htype]; rfl)
  case h_6 htype => exact fanOut_effect (by rw [htype]; rfl)
  case h_7 htype => exact handleLeave_effect htype
  all_goals
    rename_i htype
    exact .none (fun _ => rfl) rfl rfl fun _ _ => by simp [htype, MessageType.fansOut]

end

/-! ### A connection is in its current room or in none -/

def Placed (s : State) : Prop := ∀ q c, c ∈ s.members q → s.current c = some q

theorem MessageEffect.placed {s : State} {c : ConnId} {m : Message} {refuse : Finset ConnId}
    {res : State × List Output} (h : MessageEffect s c m refuse res) (hs : Placed s) :
    Placed res.1 := by
  intro q x hx
  cases h with
  | none hmem hcur =>
      rw [hcur]
      exact hs q x (hmem q ▸ hx)
  | unjoined _ hmem hcur =>
      rw [hcur]
      exact hs q x ((hmem q x).mp hx).2
  | joined _ hmem hcur =>
      rw [hcur]
      rcases (hmem q x).mp hx with ⟨rfl, rfl⟩ | ⟨hout, hx⟩
      · exact Function.update_self _ _ _
      · have hne : x ≠ c := by
          rintro rfl
          exact hout ⟨hs q x hx, rfl⟩
        rw [Function.update_of_ne hne]
        exact hs q x hx
  | fanned _ room _ hmem hcur =>
      rw [hcur]
      exact hs q x ((hmem q x).mp hx).2
  | left _ room hroom hmem hcur =>
      rw [hcur]
      obtain ⟨hout, hx⟩ := (hmem q x).mp hx
      have hne : x ≠ c := by
        rintro rfl
        have hq : some q = some room := (hs q x hx).symm.trans hroom
        exact hout ⟨Option.some.inj hq, rfl⟩
      rw [Function.update_of_ne hne]
      exact hs q x hx

theorem placed_handleMessage {rt : RustRuntime} {s : State} {c : ConnId} {frame : Option Message}
    {refuse : Finset ConnId} {now : ℕ} (hs : Placed s) :
    Placed (handleMessage rt s c frame refuse now).1 := by
  unfold handleMessage
  split
  · exact hs
  · split
    · exact hs
    · exact (dispatch_effect now).placed hs

theorem placed_handleDisconnect {s : State} {c : ConnId} (hs : Placed s) :
    Placed (handleDisconnect s c).1 := by
  have heff : MessageEffect s c ⟨"", .leave, "", none, 0⟩ ∅ (handleLeave s c) :=
    handleLeave_effect rfl
  exact heff.placed hs

theorem placed_step {rt : RustRuntime} {s s' : State} {e : Event} (hs : Placed s)
    (h : step rt s e = some s') : Placed s' := by
  unfold step handle at h
  cases e <;> simp only at h
  case connect c =>
    split at h
    · cases h
    · cases h
      exact hs
  case message c frame refuse now =>
    split at h
    · cases h
      exact placed_handleMessage hs
    · cases h
  case disconnect c =>
    split at h
    · cases h
      exact placed_handleDisconnect hs
    · cases h

theorem placed_of_reachable {rt : RustRuntime} {s : State}
    (hs : Reachable (step rt) newState s) : Placed s :=
  hs.invariant (fun _ _ h => absurd h (Finset.notMem_empty _)) fun _ _ _ hs _ h => placed_step hs h

/-! ### Connections in rooms they have named -/

/-- Connections are in rooms, and have them as their current ones, that `P` allows. -/
structure Within (P : ConnId → RoomName → Prop) (s : State) : Prop where
  members : ∀ q, ∀ x ∈ s.members q, P x q
  current : ∀ x q, s.current x = some q → P x q

section
variable {P : ConnId → RoomName → Prop} {rt : RustRuntime} {s : State} {c : ConnId} {m : Message}
  {refuse : Finset ConnId} {res : State × List Output}

theorem MessageEffect.within (h : MessageEffect s c m refuse res) (hs : Within P s)
    (hroom : P c m.room) : Within P res.1 := by
  cases h with
  | none hmem hcur =>
      exact ⟨fun q x hx => hs.members q x (hmem q ▸ hx), by rw [hcur]; exact hs.current⟩
  | unjoined _ hmem hcur =>
      exact ⟨fun q x hx => hs.members q x ((hmem q x).mp hx).2, by rw [hcur]; exact hs.current⟩
  | joined _ hmem hcur =>
      constructor
      · intro q x hx
        rcases (hmem q x).mp hx with ⟨rfl, rfl⟩ | ⟨-, hx⟩
        · exact hroom
        · exact hs.members q x hx
      · intro x q hq
        rw [hcur] at hq
        by_cases hx : x = c
        · rw [hx, Function.update_self] at hq
          rw [hx, ← Option.some.inj hq]
          exact hroom
        · rw [Function.update_of_ne hx] at hq
          exact hs.current x q hq
  | fanned _ room _ hmem hcur =>
      exact ⟨fun q x hx => hs.members q x ((hmem q x).mp hx).2, by rw [hcur]; exact hs.current⟩
  | left _ room _ hmem hcur =>
      refine ⟨fun q x hx => hs.members q x ((hmem q x).mp hx).2, fun x q hq => ?_⟩
      rw [hcur] at hq
      by_cases hx : x = c
      · rw [hx, Function.update_self] at hq
        cases hq
      · rw [Function.update_of_ne hx] at hq
        exact hs.current x q hq

/-- A message reaches other members of its connection's current room. -/
theorem MessageEffect.reached (h : MessageEffect s c m refuse res) {x : ConnId}
    (hx : x ∈ deliveries res.2) : ∃ room, s.current c = some room ∧ x ∈ s.members room ∧ x ≠ c := by
  cases h with
  | fanned _ room hroom _ _ hdel =>
      rw [hdel, Finset.mem_sdiff, Finset.mem_erase] at hx
      exact ⟨room, hroom, hx.1.2, hx.1.1⟩
  | none _ _ hdel | unjoined _ _ _ hdel | joined _ _ _ hdel | left _ _ _ _ _ hdel =>
      rw [hdel] at hx
      cases hx

/-- A refusal is an error for the sender. -/
theorem error_of_refusal {reply : Output} (h : refusal rt c m = some reply) :
    ∃ room text, reply = .error c room text := by
  unfold refusal at h
  split at h
  · cases h
    exact ⟨_, _, rfl⟩
  · split at h
    · cases h
      exact ⟨_, _, rfl⟩
    · split at h
      · obtain ⟨reason, -, rfl⟩ := Option.map_eq_some_iff.mp h
        exact ⟨_, _, rfl⟩
      · cases h

/-- It goes back to the sender only. -/
theorem deliveries_refusal {reply : Output} (h : refusal rt c m = some reply) :
    deliveries [reply] = ∅ := by
  obtain ⟨room, text, rfl⟩ := error_of_refusal h
  rfl

theorem effect_handleLeave (s : State) (c : ConnId) (room : RoomName) :
    MessageEffect s c ⟨"", .leave, room, none, 0⟩ ∅ (handleLeave s c) :=
  handleLeave_effect rfl

/-- An event takes a connection only where a message of it names the room. -/
theorem Within.handle (hs : Within P s) {e : Event}
    (hnames : ∀ c m refuse now, e = .message c (some m) refuse now → P c m.room)
    (h : handle rt s e = some res) : Within P res.1 := by
  cases e with
  | connect c =>
      obtain ⟨-, h⟩ := Option.ite_none_left_eq_some.mp h
      obtain rfl := Option.some.inj h
      exact ⟨hs.members, hs.current⟩
  | message c frame refuse now =>
      obtain ⟨-, h⟩ := Option.ite_none_right_eq_some.mp h
      obtain rfl := Option.some.inj h
      cases frame with
      | none => exact hs
      | some m =>
          rw [handleMessage]
          split
          · exact hs
          · exact (dispatch_effect now).within hs (hnames c m refuse now rfl)
  | disconnect c =>
      obtain ⟨-, h⟩ := Option.ite_none_right_eq_some.mp h
      obtain rfl := Option.some.inj h
      cases hc : s.current c with
      | none =>
          have hleave : handleLeave s c = (s, []) := by rw [handleLeave, hc]
          rw [handleDisconnect, hleave]
          exact ⟨hs.members, hs.current⟩
      | some room =>
          have heffect := (effect_handleLeave s c room).within hs (hs.current c room hc)
          exact ⟨heffect.members, heffect.current⟩

theorem reached_of_handle {e : Event} {x : ConnId} (h : handle rt s e = some res)
    (hx : x ∈ deliveries res.2) : ∃ c frame refuse now room, e = .message c frame refuse now ∧
      s.current c = some room ∧ x ∈ s.members room ∧ x ≠ c := by
  cases e with
  | connect c =>
      obtain ⟨-, h⟩ := Option.ite_none_left_eq_some.mp h
      obtain rfl := Option.some.inj h
      cases hx
  | message c frame refuse now =>
      obtain ⟨-, h⟩ := Option.ite_none_right_eq_some.mp h
      obtain rfl := Option.some.inj h
      cases frame with
      | none => cases hx
      | some m =>
          rw [handleMessage] at hx
          split at hx
          · next reply hreply =>
            rw [deliveries_refusal hreply] at hx
            cases hx
          · obtain ⟨room, hroom⟩ := (dispatch_effect now).reached hx
            exact ⟨c, some m, refuse, now, room, rfl, hroom⟩
  | disconnect c =>
      obtain ⟨-, h⟩ := Option.ite_none_right_eq_some.mp h
      obtain rfl := Option.some.inj h
      have hnone : deliveries (handleLeave s c).2 = ∅ := by
        unfold handleLeave
        split
        · rfl
        · exact deliveries_broadcastPresence _ _
      rw [handleDisconnect] at hx
      rw [hnone] at hx
      cases hx

end

/-! ### Room addressing -/

/-- What the room named in a message promises: the message reaches members of
that room only, nobody if its sender is not one of them, and a leave changes no
other room. -/
structure Addressed (s : State) (c : ConnId) (m : Message) (res : State × List Output) : Prop where
  members : deliveries res.2 ⊆ s.members m.room
  nonmember : m.msgType ≠ .join → c ∉ s.members m.room → deliveries res.2 = ∅
  leave : m.msgType = .leave → ∀ q ≠ m.room, res.1.members q = s.members q

/-- The message names the current room of a connection that is in it, unless the
current room has nobody to take it, or nobody to leave. -/
def Names (s : State) (c : ConnId) (m : Message) (refuse : Finset ConnId) (q : RoomName) : Prop :=
  (m.msgType.fansOut = true → (q = m.room ∧ c ∈ s.members q) ∨ (s.members q).erase c ⊆ refuse) ∧
    (m.msgType = .leave → q = m.room ∨ c ∉ s.members q)

/-- A message the checks let through names its connection's current room. -/
def WellAddressed (rt : RustRuntime) (s : State) (c : ConnId) (m : Message)
    (refuse : Finset ConnId) : Prop :=
  refusal rt c m = none → ∀ q, s.current c = some q → Names s c m refuse q

/-- A fan-out reaches the current room; it is the named one, or the fan-out has
to be empty. -/
theorem addressed_fanned_iff {s s' : State} {c : ConnId} {m : Message} {refuse : Finset ConnId}
    {outs : List Output} {room : RoomName} (hs : Placed s) (htype : m.msgType.fansOut = true)
    (hdel : deliveries outs = (s.members room).erase c \ refuse) :
    Addressed s c m (s', outs) ↔ Names s c m refuse room := by
  have hjoin : m.msgType ≠ .join := by
    intro h
    simp [h, MessageType.fansOut] at htype
  have hleave : m.msgType ≠ .leave := by
    intro h
    simp [h, MessageType.fansOut] at htype
  constructor
  · intro h
    refine ⟨fun _ => ?_, fun hl => absurd hl hleave⟩
    by_cases hempty : (s.members room).erase c ⊆ refuse
    · exact .inr hempty
    left
    have hne : deliveries outs ≠ ∅ := by
      rw [hdel]
      exact fun h => hempty (Finset.sdiff_eq_empty_iff_subset.mp h)
    obtain ⟨x, hx⟩ := Finset.nonempty_iff_ne_empty.mpr hne
    have hnamed : s.current x = some m.room := hs _ _ (h.members hx)
    have hcurrent : s.current x = some room := by
      rw [hdel] at hx
      exact hs _ _ (Finset.mem_of_mem_erase (Finset.mem_sdiff.mp hx).1)
    obtain rfl : room = m.room := Option.some.inj (hcurrent.symm.trans hnamed)
    exact ⟨rfl, by_contra fun hc => hne (h.nonmember hjoin hc)⟩
  · rintro ⟨hfan, -⟩
    rcases hfan htype with ⟨rfl, hc⟩ | hempty
    · refine ⟨?_, fun _ hout => absurd hc hout, fun hl => absurd hl hleave⟩
      rw [hdel]
      exact Finset.sdiff_subset.trans (Finset.erase_subset _ _)
    · have hnone : deliveries outs = ∅ := hdel.trans (Finset.sdiff_eq_empty_iff_subset.mpr hempty)
      exact ⟨by rw [hnone]; exact Finset.empty_subset _, fun _ _ => hnone, fun hl => absurd hl hleave⟩

/-- A leave takes the connection out of its current room, whichever it names. -/
theorem addressed_left_iff {s s' : State} {c : ConnId} {m : Message} {refuse : Finset ConnId}
    {outs : List Output} {room : RoomName} (htype : m.msgType = .leave)
    (hmem : ∀ q x, x ∈ s'.members q ↔ ¬(q = room ∧ x = c) ∧ x ∈ s.members q)
    (hdel : deliveries outs = ∅) : Addressed s c m (s', outs) ↔ Names s c m refuse room := by
  constructor
  · intro h
    refine ⟨fun hfan => by simp [htype, MessageType.fansOut] at hfan, fun _ => ?_⟩
    by_contra hwrong
    obtain ⟨hroom, hc⟩ := not_or.mp hwrong
    have hsame := h.leave htype room hroom
    have hc' : c ∈ s'.members room := hsame.symm ▸ not_not.mp hc
    exact ((hmem room c).mp hc').1 ⟨rfl, rfl⟩
  · rintro ⟨-, hleft⟩
    refine ⟨by rw [hdel]; exact Finset.empty_subset _, fun _ _ => hdel, fun _ q hq => ?_⟩
    ext x
    rw [hmem]
    refine ⟨fun h => h.2, fun hx => ⟨?_, hx⟩⟩
    rintro ⟨rfl, rfl⟩
    exact (hleft htype).elim hq fun hc => hc hx

/-- What moves nobody and reaches nobody is addressed as it should be. -/
theorem addressed_of_idle {s s' : State} {c : ConnId} {m : Message} {outs : List Output}
    (hdel : deliveries outs = ∅) (hleave : m.msgType = .leave → ∀ q, s'.members q = s.members q) :
    Addressed s c m (s', outs) :=
  ⟨by rw [hdel]; exact Finset.empty_subset _, fun _ _ => hdel, fun hl q _ => hleave hl q⟩

theorem MessageEffect.addressed_iff {s : State} {c : ConnId} {m : Message}
    {refuse : Finset ConnId} {res : State × List Output} (h : MessageEffect s c m refuse res)
    (hs : Placed s) :
    Addressed s c m res ↔ ∀ q, s.current c = some q → Names s c m refuse q := by
  have hjoin : m.msgType = .join → ∀ q, Names s c m refuse q := fun htype q =>
    ⟨fun hfan => by simp [htype, MessageType.fansOut] at hfan, fun hl => by simp [htype] at hl⟩
  have hcurrent : ∀ room, s.current c = some room →
      (Names s c m refuse room ↔ ∀ q, s.current c = some q → Names s c m refuse q) := by
    intro room hroom
    exact ⟨fun h q hq => Option.some.inj (hroom.symm.trans hq) ▸ h, fun h => h room hroom⟩
  cases h with
  | none hmem _ hdel hidle =>
      refine iff_of_true (addressed_of_idle hdel fun _ => hmem) fun q hq => ⟨fun hfan => .inr ?_, fun hl => ?_⟩
      · rw [(hidle q hq).2 hfan, Finset.erase_empty]
        exact Finset.empty_subset _
      · exact absurd hl (hidle q hq).1
  | unjoined htype _ _ hdel =>
      exact iff_of_true (addressed_of_idle hdel fun hl => by simp [htype] at hl)
        fun q _ => hjoin htype q
  | joined htype _ _ hdel =>
      exact iff_of_true (addressed_of_idle hdel fun hl => by simp [htype] at hl)
        fun q _ => hjoin htype q
  | fanned htype room hroom _ _ hdel =>
      exact (addressed_fanned_iff hs htype hdel).trans (hcurrent room hroom)
  | left htype room hroom hmem _ hdel =>
      exact (addressed_left_iff htype hmem hdel).trans (hcurrent room hroom)

/-- **Room addressing.** In every reachable state, a message does what its room
field promises exactly when it names its connection's current room. -/
theorem room_addressing_iff (rt : RustRuntime) {s : State} (hs : Reachable (step rt) newState s)
    (c : ConnId) (m : Message) (refuse : Finset ConnId) (now : ℕ) :
    Addressed s c m (handleMessage rt s c (some m) refuse now) ↔ WellAddressed rt s c m refuse := by
  unfold handleMessage WellAddressed
  dsimp only
  cases href : refusal rt c m with
  | some reply =>
      exact iff_of_true (addressed_of_idle (deliveries_refusal href) fun _ _ => rfl)
        fun h => by cases h
  | none =>
      rw [(dispatch_effect now).addressed_iff (placed_of_reachable hs)]
      exact ⟨fun h _ => h, fun h => h rfl⟩

/-- Rooms named in ASCII. -/
def asciiRelay : RustRuntime := ⟨Char.isAlphanum⟩

def joinMessage (room : RoomName) : Message := ⟨"", .join, room, none, 0⟩

/-- Two connections in the room `x`. -/
def twoInX : List Event :=
  [.connect "a", .connect "b", .message "a" (some (joinMessage "x")) ∅ 0,
    .message "b" (some (joinMessage "x")) ∅ 0]

theorem twoInX_runs : (exec (step asciiRelay) newState twoInX).isSome = true := by decide

/-- Chat that names the room both are in reaches the other one. -/
theorem room_addressing_twoInX :
    Addressed ((exec (step asciiRelay) newState twoInX).get twoInX_runs) "a"
      ⟨"", .chat, "x", some "hi", 0⟩
      (handleMessage asciiRelay ((exec (step asciiRelay) newState twoInX).get twoInX_runs) "a"
        (some ⟨"", .chat, "x", some "hi", 0⟩) ∅ 0) := by
  refine (room_addressing_iff asciiRelay (reachable_get twoInX_runs) _ _ _ _).mpr ?_
  intro _ q hq
  obtain rfl : "x" = q := Option.some.inj hq
  exact ⟨fun _ => .inl ⟨rfl, by decide⟩, fun hl => by cases hl⟩

/-- Chat that names another room reaches the current one. -/
theorem chat_crosses_rooms : ¬∀ s, Reachable (step asciiRelay) newState s →
    ∀ c m refuse now, Addressed s c m (handleMessage asciiRelay s c (some m) refuse now) := by
  intro h
  have haddr := h _ (reachable_get twoInX_runs) "a" ⟨"", .chat, "y", some "hi", 0⟩ ∅ 0
  exact absurd haddr.members (by decide)

end TrapChat.Relay
