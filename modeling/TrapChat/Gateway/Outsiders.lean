import TrapChat.Gateway.Authenticity
import TrapChat.Gateway.Salts

/-!
What a peer can do to a room it is not in. A message acts for one room, the one it
names: what it sends goes to its sender or to members of that room, and what it
forwards is for that room. Every type that is for members refuses a message whose
sender is not one, before it acts. Leaving is not such a type.
-/

namespace TrapChat.Gateway

open Storage Protocol Transition

/-- A member of a room by either account. -/
def Server.HasMember (s : Server) (room : RoomName) (p : PeerID) : Prop :=
  p ∈ s.store.peers room ∨ room ∈ s.roomsOf p

instance (s : Server) (room : RoomName) (p : PeerID) : Decidable (s.HasMember room p) :=
  inferInstanceAs (Decidable (_ ∨ _))

/-- Nothing happens to a room: its record stays, its members are sent nothing but what
they are sent as members of another room, and the relay is told nothing about it. -/
structure Unaffected (s : Server) (room : RoomName) (res : Server × List Output) : Prop where
  record : res.1.store.rooms.lookup room = s.store.rooms.lookup room
  silent : ∀ q, s.HasMember room q → ∀ env ∈ received q res,
    env.room ≠ room ∧ s.HasMember env.room q
  unforwarded : ∀ env, .forward env ∈ res.2 → env.room ≠ room

/-- The message asks to leave a room. -/
def Leaves (rt : GoRuntime) (room : RoomName) (env : Envelope) : Prop :=
  env.type = .leave ∧ env.room = room ∧ validateRoomName rt room = ""

/-- An output goes back to the peer itself. -/
def Output.Own (p : PeerID) : Output → Prop
  | .send targets _ => targets = {p}
  | _ => False

/-- An output for a room goes to its members, or to the relay. -/
def Output.ForRoom (s : Server) (room : RoomName) : Output → Prop
  | .send targets env | .presence targets env _ =>
    env.room = room ∧ ∀ q ∈ targets, s.HasMember room q
  | .forward env => env.room = room
  | .close _ => False

section
variable {rt : GoRuntime} {s t : Server} {p q : PeerID} {room : RoomName} {env : Envelope}
  {now : Time} {outs : List Output}

theorem own_sendError (msg : String) : ∀ o ∈ [sendError p msg now], o.Own p := by
  intro o ho
  rw [List.mem_singleton.mp ho]
  rfl

theorem forRoom_broadcast (hstore : t.store = s.store) (env : Envelope) (exclude : PeerID) :
    (broadcast rt t env.room env exclude).ForRoom s env.room := by
  refine ⟨rfl, fun q hq => .inl ?_⟩
  rw [← hstore]
  exact Finset.mem_of_mem_erase (Finset.mem_inter.mp hq).1

/-! ### What a message leads to -/

/-- A message for members: its sender is answered, or it is one and the message goes
to the room. The store stays. -/
structure MembersOnly (s : Server) (p : PeerID) (room : RoomName) (res : Server × List Output) :
    Prop where
  store : res.1.store = s.store
  outputs : ∀ o ∈ res.2, o.Own p ∨ s.inRoom p room = true ∧ o.ForRoom s room

theorem MembersOnly.own (hstore : t.store = s.store) (h : ∀ o ∈ outs, o.Own p) :
    MembersOnly s p room (t, outs) :=
  ⟨hstore, fun o ho => .inl (h o ho)⟩

theorem MembersOnly.member (hstore : t.store = s.store) (hroom : ¬s.inRoom p room = false)
    (h : ∀ o ∈ outs, o.ForRoom s room) : MembersOnly s p room (t, outs) :=
  ⟨hstore, fun o ho => .inr ⟨by simpa using hroom, h o ho⟩⟩

theorem membersOnly_forwarded (refusal : String) :
    MembersOnly s p env.room (handleForwarded refusal rt s p env now) := by
  unfold handleForwarded
  dsimp only
  split
  · exact .own rfl (own_sendError _)
  · split
    · exact .own rfl (own_sendError _)
    · next hroom =>
      refine .member rfl hroom fun o ho => ?_
      obtain rfl | ho := List.mem_cons.mp ho
      · exact forRoom_broadcast rfl (stamp env p now) p
      · rw [List.mem_singleton.mp ho]
        rfl

theorem membersOnly_typing : MembersOnly s p env.room (handleTyping rt s p env now) := by
  unfold handleTyping
  dsimp only
  split
  · exact .own rfl (own_sendError _)
  · next hroom =>
    split
    · exact .own rfl fun _ ho => nomatch ho
    · refine .member rfl hroom fun o ho => ?_
      rw [List.mem_singleton.mp ho]
      exact forRoom_broadcast rfl (stamp env p now) p

theorem membersOnly_receipt : MembersOnly s p env.room (handleReceipt rt s p env now) := by
  unfold handleReceipt
  split
  · exact .own rfl (own_sendError _)
  · next hroom =>
    refine .member rfl hroom fun o ho => ?_
    rw [List.mem_singleton.mp ho]
    exact forRoom_broadcast rfl (stamp env p now) p

/-- A signal is for the room of its sender, also when it has a target. -/
theorem forRoom_routeSignal (hstore : t.store = s.store) (hrooms : t.peerRooms = s.peerRooms) :
    ∀ o ∈ routeSignal rt t p env, o.ForRoom s env.room := by
  intro o ho
  unfold routeSignal at ho
  split at ho
  · split at ho
    · next htarget =>
      rw [List.mem_singleton.mp ho]
      refine ⟨rfl, fun q hq => .inr ?_⟩
      rw [Finset.mem_singleton.mp hq, Server.roomsOf, ← hrooms]
      exact of_decide_eq_true htarget.2
    · rw [List.mem_singleton.mp ho]
      rfl
  · obtain rfl | ho := List.mem_cons.mp ho
    · exact forRoom_broadcast hstore env p
    · rw [List.mem_singleton.mp ho]
      rfl

theorem membersOnly_signal : MembersOnly s p env.room (handleSignal rt s p env now) := by
  unfold handleSignal
  split
  · exact .own rfl (own_sendError _)
  · next hroom =>
    split
    · dsimp only
      split
      · exact .own rfl fun _ ho => nomatch ho
      · split
        · exact .own rfl (own_sendError _)
        · exact .member rfl hroom (@forRoom_routeSignal rt s _ p (stamp env p now) rfl rfl)
    · exact .member rfl hroom (@forRoom_routeSignal rt s _ p (stamp env p now) rfl rfl)

/-- Every type but two is for members. -/
theorem membersOnly_type (hjoin : env.type ≠ .join) (hleave : env.type ≠ .leave) :
    MembersOnly s p env.room (handleType rt s p env now) := by
  unfold handleType
  split
  case h_1 htype => exact absurd htype hjoin
  case h_2 htype => exact absurd htype hleave
  case h_3 => exact membersOnly_forwarded _
  case h_4 => exact membersOnly_forwarded _
  case h_5 => exact membersOnly_typing
  case h_6 => exact membersOnly_receipt
  case h_7 => exact membersOnly_forwarded _
  case h_12 => exact .own rfl fun _ ho => nomatch ho
  case h_13 => exact .own rfl (own_sendError _)
  all_goals exact membersOnly_signal

/-! ### What it leaves alone -/

theorem Output.Own.envelopeFor {o : Output} (h : o.Own p) (hq : q ≠ p) : o.envelopeFor q = none := by
  cases o with
  | send targets env =>
      obtain rfl : targets = {p} := h
      exact if_neg (Finset.notMem_singleton.mpr hq)
  | presence targets env pp => cases h
  | forward env => cases h
  | close p => cases h

theorem Output.ForRoom.envelopeFor {o : Output} (h : o.ForRoom s room) (henv : env ∈ o.envelopeFor q) :
    env.room = room ∧ s.HasMember room q := by
  cases o with
  | send targets env' =>
      obtain ⟨hq, rfl⟩ := envelopeFor_send henv
      exact ⟨h.1, h.2 q hq⟩
  | presence targets env' pp =>
      obtain ⟨hq, rfl⟩ := envelopeFor_presence henv
      exact ⟨h.1, h.2 q hq⟩
  | forward env => cases henv
  | close p => cases henv

/-- Outputs to the peer itself, and for other rooms. -/
theorem unaffected_of_outputs {room' : RoomName} (hp : ¬s.HasMember room p)
    (hrecord : t.store.rooms.lookup room = s.store.rooms.lookup room)
    (h : ∀ o ∈ outs, o.Own p ∨ room' ≠ room ∧ o.ForRoom s room') : Unaffected s room (t, outs) := by
  refine ⟨hrecord, fun q hq env henv => ?_, fun env ho => ?_⟩
  · obtain ⟨o, ho, henv⟩ := List.mem_filterMap.mp henv
    obtain hown | ⟨hne, hroom⟩ := h o ho
    · have hqp : q ≠ p := fun heq => hp (heq ▸ hq)
      rw [hown.envelopeFor hqp] at henv
      cases henv
    · obtain ⟨rfl, hmember⟩ := hroom.envelopeFor henv
      exact ⟨hne, hmember⟩
  · obtain hown | ⟨hne, hroom⟩ := h _ ho
    · cases hown
    · obtain rfl : env.room = room' := hroom
      exact hne

theorem MembersOnly.unaffected {room' : RoomName} {res : Server × List Output}
    (h : MembersOnly s p room' res) (hp : ¬s.HasMember room p) : Unaffected s room res := by
  refine @unaffected_of_outputs s _ p room _ room' hp (by rw [h.store]) fun o ho => ?_
  refine (h.outputs o ho).imp_right fun ⟨hin, hfor⟩ => ⟨?_, hfor⟩
  rintro rfl
  exact hp (.inr (of_decide_eq_true hin))

theorem unaffected_leave (hp : ¬s.HasMember room p) (hne : env.room ≠ room) :
    Unaffected s room (handleLeave rt s p env now) := by
  refine @unaffected_of_outputs s _ p room _ env.room hp ?_ fun o ho => ?_
  · rw [Server.store_removeRoom]
    exact s.store.lookup_leave_ne p now hne.symm
  · simp only [List.mem_cons, List.not_mem_nil, or_false] at ho
    obtain rfl | rfl | rfl := ho
    · refine .inr ⟨hne, ?_, fun q hq => .inl ?_⟩
      · exact presenceOf_room _ _
      · have hmem := Finset.mem_of_mem_erase (Finset.mem_inter.mp hq).1
        rw [Server.store_removeRoom] at hmem
        exact (Store.mem_peers_leave.mp hmem).2
    · exact .inl rfl
    · exact .inr ⟨hne, rfl⟩

theorem unaffected_frame {frame : Option Envelope} (hp : ¬s.HasMember room p)
    (hjoin : ∀ env ∈ frame, env.type ≠ .join) (hleave : ∀ env ∈ frame, ¬Leaves rt room env) :
    Unaffected s room (handleFrame rt s p frame now) := by
  have hown : ∀ msg, Unaffected s room (s, [sendError p msg now]) := fun msg =>
    @unaffected_of_outputs s s p room _ room hp rfl fun o ho => .inl (own_sendError msg o ho)
  cases frame with
  | none => exact hown _
  | some env =>
      unfold handleFrame
      dsimp only
      split
      · exact hown _
      · next hname =>
        by_cases htype : env.type = .leave
        · have hvalid : validateRoomName rt env.room = "" := by
            by_contra hne
            exact hname ⟨by rw [htype]; rfl, hne⟩
          have hne : env.room ≠ room := by
            rintro rfl
            exact hleave env rfl ⟨htype, rfl, hvalid⟩
          have hhandle : handleType rt s p env now = handleLeave rt s p env now := by
            rw [handleType, htype]
          rw [hhandle]
          exact unaffected_leave hp hne
        · exact (membersOnly_type (hjoin env rfl) htype).unaffected hp

/-- A leave is forwarded. -/
theorem forward_of_leaves (h : Leaves rt room env) :
    .forward (memberEnvelope .leave room p now) ∈ (handleFrame rt s p (some env) now).2 := by
  obtain ⟨htype, rfl, hvalid⟩ := h
  have hframe : handleFrame rt s p (some env) now = handleLeave rt s p env now := by
    rw [handleFrame, if_neg fun hn => hn.2 hvalid, handleType, htype]
  rw [hframe]
  exact List.mem_cons_of_mem _ (List.mem_cons_of_mem _ List.mem_cons_self)

end

/-- **What an outsider sends leaves a room alone exactly when it does not ask to leave
that room.** -/
theorem outsider_unaffected_iff (rt : GoRuntime) (s : Server) (p : PeerID) (room : RoomName)
    (frame : Option Envelope) (now : Time) (hp : ¬s.HasMember room p)
    (hjoin : ∀ env ∈ frame, env.type ≠ .join) :
    Unaffected s room (handleFrame rt s p frame now) ↔ ∀ env ∈ frame, ¬Leaves rt room env := by
  constructor
  · rintro h env rfl hleaves
    exact h.unforwarded _ (forward_of_leaves hleaves) rfl
  · exact unaffected_frame hp hjoin

/-- One peer is in a room, and another is connected. -/
def oneInside : List Event :=
  [.connect "a" 0, .connect "b" 0, .frame "a" (some { type := .join, room := "r" }) 0]

theorem oneInside_run : (exec (step (asciiRuntime "" {})) newServer oneInside).isSome = true := by
  decide

theorem outsider_unaffected_chat : Unaffected ((exec (step (asciiRuntime "" {})) newServer
    oneInside).get oneInside_run) "r" (handleFrame (asciiRuntime "" {})
      ((exec (step (asciiRuntime "" {})) newServer oneInside).get oneInside_run) "b"
      (some { type := .chat, room := "r", payload := "hi" }) 5) :=
  (outsider_unaffected_iff _ _ _ _ _ _ (by decide) (by decide)).mpr (by
    rintro env ⟨⟩ ⟨hleave, -⟩
    cases hleave)

/-- **A leave from outside writes to the room's record.** -/
theorem leave_from_outside : ¬∀ s, Reachable (step (asciiRuntime "" {})) newServer s →
    ∀ p ∈ s.conns, ∀ room, ¬s.HasMember room p → ∀ frame, (∀ env ∈ frame, env.type ≠ .join) →
      ∀ now, Unaffected s room (handleFrame (asciiRuntime "" {}) s p frame now) := by
  intro h
  have hleave := h _ (reachable_get oneInside_run) "b" (by decide) "r" (by decide)
    (some { type := .leave, room := "r" }) (by decide) 5
  have hrecord := congrArg (Option.map Room.lastActivity) hleave.record
  exact absurd hrecord (by decide)

end TrapChat.Gateway
