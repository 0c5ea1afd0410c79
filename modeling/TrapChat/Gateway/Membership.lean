import TrapChat.Gateway.Handler
import TrapChat.Library.Transition

/-!
Membership is recorded twice: `peerRooms` decides whether a message is accepted
and the store decides who receives it. This file says when the two agree along a
run of whole handlers.

One inversion lemma, `handleFrame_effect`, says all that a client's message can
do to either map; everything below uses it and never unfolds a handler. The one
effect that separates the maps is that of a join refused for its salt: the room
is already in the peer's set when the salt is looked at.
-/

namespace TrapChat.Gateway

open Storage Protocol Transition

/-- The two records of membership list the same rooms for every connected peer. -/
def Agree (s : Server) : Prop :=
  ∀ p ∈ s.conns, ∀ room, room ∈ s.roomsOf p ↔ p ∈ s.store.peers room

/-- An ID that was not handed out is found nowhere. -/
structure Fresh (s : Server) : Prop where
  conns : ∀ p ∉ s.issued, p ∉ s.conns
  rooms : ∀ p ∉ s.issued, ∀ room, room ∉ s.roomsOf p
  store : ∀ p ∉ s.issued, ∀ room, p ∉ s.store.peers room

/-- Nothing but rate limits differs. -/
structure SameMembers (s s' : Server) : Prop where
  store : s'.store = s.store
  peerRooms : s'.peerRooms = s.peerRooms
  conns : s'.conns = s.conns
  issued : s'.issued = s.issued

theorem SameMembers.refl (s : Server) : SameMembers s s := ⟨rfl, rfl, rfl, rfl⟩

/-- A join that passes the name check and both limits and is then refused for
its salt. -/
def RefusedSalt (rt : GoRuntime) (s : Server) (p : PeerID) (env : Envelope) : Prop :=
  env.type = .join ∧ validateRoomName rt env.room = "" ∧ ¬s.roomLimit env.room ∧
    ¬s.peerLimit p env.room ∧ (decodeSalt (joinPayload rt env.payload).salt).toOption = none

/-! ### What a message can do -/

/-- All that one frame does to the two records, with what it answers where that
matters. -/
inductive FrameEffect (rt : GoRuntime) (s : Server) (p : PeerID) (now : Time) :
    Option Envelope → Server × List Output → Prop
  | none {frame : Option Envelope} {s' : Server} {outs : List Output} (h : SameMembers s s') :
      FrameEffect rt s p now frame (s', outs)
  | joined {env : Envelope} {outs : List Output} (ttl : ℤ) (salt : List UInt8) (nick : String)
      (hsalt : ¬RefusedSalt rt s p env) (houts : 1 < outs.length) :
      FrameEffect rt s p now (some env)
        (((s.addRoom p env.room).joinStore env.room p ttl salt now).nickStore env.room p nick, outs)
  | half {env : Envelope} {outs : List Output} (hsalt : RefusedSalt rt s p env) :
      FrameEffect rt s p now (some env) (s.addRoom p env.room, outs)
  | left {env : Envelope} {outs : List Output} (htype : env.type = .leave) :
      FrameEffect rt s p now (some env)
        ((s.leaveStore env.room p now).removeRoom p env.room, outs)

section
variable {rt : GoRuntime} {s : Server} {p : PeerID} {env : Envelope} {now : Time}

theorem handleJoin_effect (htype : env.type = .join) (hname : validateRoomName rt env.room = "") :
    FrameEffect rt s p now (some env) (handleJoin rt s p env now) := by
  unfold handleJoin joinRoom
  by_cases hroom : s.roomLimit env.room
  · rw [if_pos hroom]
    exact .none (.refl s)
  rw [if_neg hroom]
  by_cases hpeer : s.peerLimit p env.room
  · rw [if_pos hpeer]
    exact .none (.refl s)
  rw [if_neg hpeer]
  cases hsalt : decodeSalt (joinPayload rt env.payload).salt with
  | error msg => simpa only [hsalt] using .half ⟨htype, hname, hroom, hpeer, by rw [hsalt]; rfl⟩
  | ok salt =>
      simp only
      refine .joined _ _ _ (fun h => ?_) (by simp)
      have := h.2.2.2.2
      rw [hsalt] at this
      cases this

theorem handleForwarded_same (refusal : String) :
    SameMembers s (handleForwarded refusal rt s p env now).1 := by
  unfold handleForwarded
  dsimp only
  split
  · exact ⟨rfl, rfl, rfl, rfl⟩
  · split <;> exact ⟨rfl, rfl, rfl, rfl⟩

theorem handleTyping_same : SameMembers s (handleTyping rt s p env now).1 := by
  unfold handleTyping
  split
  · exact .refl s
  · dsimp only
    split <;> exact ⟨rfl, rfl, rfl, rfl⟩

theorem handleReceipt_same : SameMembers s (handleReceipt rt s p env now).1 := by
  unfold handleReceipt
  split <;> exact .refl s

theorem handleSignal_same : SameMembers s (handleSignal rt s p env now).1 := by
  unfold handleSignal
  split
  · exact .refl s
  · split
    · dsimp only
      split
      · exact ⟨rfl, rfl, rfl, rfl⟩
      · split <;> exact ⟨rfl, rfl, rfl, rfl⟩
    · exact .refl s

theorem handleType_effect
    (hname : MessageType.needsRoom env.type = true → validateRoomName rt env.room = "") :
    FrameEffect rt s p now (some env) (handleType rt s p env now) := by
  unfold handleType
  split
  case h_1 htype => exact handleJoin_effect htype (hname (by rw [htype]; rfl))
  case h_2 htype => exact .left htype
  case h_3 => exact .none (handleForwarded_same _)
  case h_4 => exact .none (handleForwarded_same _)
  case h_5 => exact .none handleTyping_same
  case h_6 => exact .none handleReceipt_same
  case h_7 => exact .none (handleForwarded_same _)
  case h_8 => exact .none handleSignal_same
  case h_9 => exact .none handleSignal_same
  case h_10 => exact .none handleSignal_same
  case h_11 => exact .none handleSignal_same
  all_goals exact .none (.refl s)

/-- **The effect of a frame.** -/
theorem handleFrame_effect (frame : Option Envelope) :
    FrameEffect rt s p now frame (handleFrame rt s p frame now) := by
  cases frame with
  | none => exact .none (.refl s)
  | some env =>
      unfold handleFrame
      dsimp only
      split
      · exact .none (.refl s)
      · rename_i h
        exact handleType_effect fun hroom => by_contra fun hne => h ⟨hroom, hne⟩

end

/-! ### Loops over rooms and over peers -/

/-- The cleanup's loop takes one peer out of the rooms it walks. -/
theorem leaveRooms_spec (rt : GoRuntime) (p : PeerID) (now : Time) :
    ∀ (order : List RoomName) (s : Server),
      (leaveRooms rt p now order s).1.conns = s.conns ∧
      (leaveRooms rt p now order s).1.issued = s.issued ∧
      (∀ q, (leaveRooms rt p now order s).1.roomsOf q = s.roomsOf q) ∧
      ∀ q room, q ∈ (leaveRooms rt p now order s).1.store.peers room ↔
        ¬(q = p ∧ room ∈ order) ∧ q ∈ s.store.peers room
  | [], s => by simp [leaveRooms]
  | r :: rest, s => by
      obtain ⟨hconns, hissued, hrooms, hpeers⟩ := leaveRooms_spec rt p now rest (s.leaveStore r p now)
      refine ⟨hconns, hissued, hrooms, fun q room => ?_⟩
      change q ∈ (leaveRooms rt p now rest (s.leaveStore r p now)).1.store.peers room ↔ _
      rw [hpeers]
      change _ ∧ q ∈ (s.store.leave r p now).1.peers room ↔ _
      rw [Store.mem_peers_leave]
      simp only [List.mem_cons]
      tauto

/-- `disconnectAllPeers` takes the peers it walks out of the room, in the store
and, where they are connected, in their own sets. -/
theorem disconnectPeers_spec (room : RoomName) (now : Time) :
    ∀ (order : List PeerID) (s : Server),
      (∀ q, q ∈ (disconnectPeers room now order s).1.conns → q ∈ s.conns) ∧
      (disconnectPeers room now order s).1.issued = s.issued ∧
      (∀ q r, r ∈ (disconnectPeers room now order s).1.roomsOf q → r ∈ s.roomsOf q) ∧
      (∀ q ∈ (disconnectPeers room now order s).1.conns, ∀ r,
        r ∈ (disconnectPeers room now order s).1.roomsOf q ↔
          ¬(q ∈ order ∧ r = room) ∧ r ∈ s.roomsOf q) ∧
      ∀ q r, q ∈ (disconnectPeers room now order s).1.store.peers r ↔
        ¬(q ∈ order ∧ r = room) ∧ q ∈ s.store.peers r
  | [], s => by simp [disconnectPeers]
  | p :: rest, s => by
      obtain ⟨hconns, hissued, hsub, hrooms, hpeers⟩ :=
        disconnectPeers_spec room now rest ((s.detach room p).leaveStore room p now)
      have hstep : (disconnectPeers room now (p :: rest) s).1 =
          (disconnectPeers room now rest ((s.detach room p).leaveStore room p now)).1 := rfl
      rw [hstep]
      refine ⟨fun q hq => (Server.mem_conns_detach.mp (hconns q hq)).1, ?_, fun q r hr => ?_,
        fun q hq r => ?_, fun q r => ?_⟩
      · rw [hissued]
        change (s.detach room p).issued = s.issued
        unfold Server.detach
        split
        · split
          · rfl
          · dsimp only
            split <;> rfl
        · rfl
      · have hr' := hsub q r hr
        rw [Server.roomsOf_leaveStore] at hr'
        exact (Server.mem_roomsOf_detach.mp hr').2
      · have hin : q ∈ s.conns := (Server.mem_conns_detach.mp (hconns q hq)).1
        rw [hrooms q hq, Server.roomsOf_leaveStore, Server.mem_roomsOf_detach, List.mem_cons]
        by_cases hqp : q = p
        · subst hqp
          simp only [hin]
          tauto
        · tauto
      · rw [hpeers]
        change _ ∧ q ∈ ((s.detach room p).store.leave room p now).1.peers r ↔ _
        rw [Store.mem_peers_leave, Server.store_detach, List.mem_cons]
        tauto

/-! ### Agreement step by step -/

/-- A refused join that nevertheless enters a room in the peer's set: one
refused for its salt, for a room the peer is not in. -/
def HalfJoin (rt : GoRuntime) (s : Server) : Event → Prop
  | .frame p (some env) _ => RefusedSalt rt s p env ∧ env.room ∉ s.roomsOf p
  | _ => False

theorem addRoom_of_mem {s : Server} {p : PeerID} {room : RoomName} (h : room ∈ s.roomsOf p) :
    s.addRoom p room = s := by
  have hentry : s.peerRooms p = some (s.roomsOf p) := by
    cases hr : s.peerRooms p with
    | none => simp [Server.roomsOf, hr] at h
    | some rooms => simp [Server.roomsOf, hr]
  have hupd : Function.update s.peerRooms p (some (insert room (s.roomsOf p))) = s.peerRooms := by
    rw [Finset.insert_eq_self.mpr h, ← hentry, Function.update_eq_self]
  unfold Server.addRoom
  rw [hupd]

theorem SameMembers.roomsOf {s s' : Server} (h : SameMembers s s') (p : PeerID) :
    s'.roomsOf p = s.roomsOf p := by
  simp only [Server.roomsOf, h.peerRooms]

theorem SameMembers.agree {s s' : Server} (h : SameMembers s s') (hs : Agree s) : Agree s' := by
  intro p hp room
  rw [h.roomsOf, h.store]
  exact hs p (h.conns ▸ hp) room

theorem SameMembers.fresh {s s' : Server} (h : SameMembers s s') (hs : Fresh s) : Fresh s' where
  conns := fun p hp => h.conns ▸ hs.conns p (h.issued ▸ hp)
  rooms := fun p hp room => h.roomsOf p ▸ hs.rooms p (h.issued ▸ hp) room
  store := fun p hp room => h.store ▸ hs.store p (h.issued ▸ hp) room

theorem Fresh.issued_of_conn {s : Server} (hs : Fresh s) {p : PeerID} (hp : p ∈ s.conns) :
    p ∈ s.issued :=
  by_contra fun h => hs.conns p h hp

/-- The registry after a join: its room gains the peer. -/
theorem mem_peers_joined {s : Server} {p q : PeerID} {room r : RoomName} {ttl : ℤ}
    {salt : List UInt8} {nick : String} {now : Time} :
    q ∈ (((s.addRoom p room).joinStore room p ttl salt now).nickStore room p nick).store.peers r ↔
      (r = room ∧ q = p) ∨ q ∈ s.store.peers r := by
  rw [Server.peers_nickStore]
  exact Store.mem_peers_joinWithTTL

theorem mem_roomsOf_joined {s : Server} {p q : PeerID} {room r : RoomName} {ttl : ℤ}
    {salt : List UInt8} {nick : String} {now : Time} :
    r ∈ (((s.addRoom p room).joinStore room p ttl salt now).nickStore room p nick).roomsOf q ↔
      (q = p ∧ r = room) ∨ r ∈ s.roomsOf q := by
  rw [Server.roomsOf_nickStore, Server.roomsOf_joinStore, Server.mem_roomsOf_addRoom]

theorem mem_peers_left {s : Server} {p q : PeerID} {room r : RoomName} {now : Time} :
    q ∈ ((s.leaveStore room p now).removeRoom p room).store.peers r ↔
      ¬(r = room ∧ q = p) ∧ q ∈ s.store.peers r := by
  rw [Server.store_removeRoom]
  exact Store.mem_peers_leave

theorem mem_roomsOf_left {s : Server} {p q : PeerID} {room r : RoomName} {now : Time} :
    r ∈ ((s.leaveStore room p now).removeRoom p room).roomsOf q ↔
      ¬(q = p ∧ r = room) ∧ r ∈ s.roomsOf q := by
  rw [Server.mem_roomsOf_removeRoom, Server.roomsOf_leaveStore]

@[simp] theorem issued_removeRoom (s : Server) (p : PeerID) (room : RoomName) :
    (s.removeRoom p room).issued = s.issued := by
  unfold Server.removeRoom
  split <;> rfl

@[simp] theorem issued_nickStore (s : Server) (room : RoomName) (p : PeerID) (nick : String) :
    (s.nickStore room p nick).issued = s.issued := by
  unfold Server.nickStore
  split <;> rfl

/-- No frame registers or unregisters a peer. -/
theorem FrameEffect.conns {rt : GoRuntime} {s : Server} {p : PeerID} {now : Time}
    {frame : Option Envelope} {res : Server × List Output} (h : FrameEffect rt s p now frame res) :
    res.1.conns = s.conns ∧ res.1.issued = s.issued := by
  cases h with
  | none h => exact ⟨h.conns, h.issued⟩
  | joined => simp [Server.joinStore, Server.addRoom]
  | half => exact ⟨rfl, rfl⟩
  | left => simp [Server.leaveStore]

/-- A frame is about the rooms of its sender only. -/
theorem FrameEffect.other {rt : GoRuntime} {s : Server} {p q : PeerID} {now : Time}
    {frame : Option Envelope} {res : Server × List Output} (h : FrameEffect rt s p now frame res)
    (hq : q ≠ p) (room : RoomName) :
    (room ∈ res.1.roomsOf q ↔ room ∈ s.roomsOf q) ∧
      (q ∈ res.1.store.peers room ↔ q ∈ s.store.peers room) := by
  cases h with
  | none h => exact ⟨by rw [h.roomsOf], by rw [h.store]⟩
  | joined =>
      refine ⟨?_, ?_⟩
      · rw [mem_roomsOf_joined]
        simp [hq]
      · rw [mem_peers_joined]
        simp [hq]
  | half => exact ⟨by simp [Server.mem_roomsOf_addRoom, hq], Iff.rfl⟩
  | left =>
      refine ⟨?_, ?_⟩
      · rw [mem_roomsOf_left]
        simp [hq]
      · rw [mem_peers_left]
        simp [hq]

theorem fresh_handleFrame {rt : GoRuntime} {s : Server} {p : PeerID} {now : Time}
    {frame : Option Envelope} (hs : Fresh s) (hp : p ∈ s.conns) :
    Fresh (handleFrame rt s p frame now).1 := by
  have heff : FrameEffect rt s p now frame (handleFrame rt s p frame now) :=
    handleFrame_effect frame
  obtain ⟨hconns, hissued⟩ := heff.conns
  have hne : ∀ q ∉ (handleFrame rt s p frame now).1.issued, q ≠ p := by
    rintro q hq rfl
    exact hq (hissued ▸ hs.issued_of_conn hp)
  refine ⟨fun q hq => ?_, fun q hq room => ?_, fun q hq room => ?_⟩
  · rw [hconns]
    exact hs.conns q (hissued ▸ hq)
  · rw [(heff.other (hne q hq) room).1]
    exact hs.rooms q (hissued ▸ hq) room
  · rw [(heff.other (hne q hq) room).2]
    exact hs.store q (hissued ▸ hq) room

theorem agree_handleFrame {rt : GoRuntime} {s : Server} {p : PeerID} {now : Time}
    {frame : Option Envelope} (hs : Agree s) (hhalf : ¬HalfJoin rt s (.frame p frame now)) :
    Agree (handleFrame rt s p frame now).1 := by
  generalize hres : handleFrame rt s p frame now = res
  have heff : FrameEffect rt s p now frame res := hres ▸ handleFrame_effect frame
  intro q hq room
  rw [heff.conns.1] at hq
  have hagree := hs q hq room
  cases heff with
  | none h => exact h.agree hs q (h.conns.symm ▸ hq) room
  | joined => rw [mem_roomsOf_joined, mem_peers_joined, hagree, and_comm]
  | @half env outs hsalt =>
      have hin : env.room ∈ s.roomsOf p := by_contra fun h => hhalf ⟨hsalt, h⟩
      rw [addRoom_of_mem hin]
      exact hagree
  | left => rw [mem_roomsOf_left, mem_peers_left, hagree, and_comm (a := q = p)]

theorem agree_handleDisconnect {rt : GoRuntime} {s : Server} {p : PeerID} {now : Time}
    {order : List RoomName} (hs : Agree s) : Agree (handleDisconnect rt s p order now).1 := by
  intro q hq room
  obtain ⟨hconns, -, hrooms, hpeers⟩ := leaveRooms_spec rt p now order
    (Server.dropPeer { s with
      rl := s.rl.remove p, typingRL := s.typingRL.remove p, signalRL := s.signalRL.remove p } p)
  change q ∈ (leaveRooms rt p now order _).1.conns at hq
  change room ∈ (leaveRooms rt p now order _).1.roomsOf q ↔
    q ∈ (leaveRooms rt p now order _).1.store.peers room
  rw [hconns] at hq
  obtain ⟨hqp, hq⟩ := Finset.mem_erase.mp hq
  rw [hrooms, hpeers, Server.mem_roomsOf_dropPeer]
  have hagree : room ∈ s.roomsOf q ↔ q ∈ s.store.peers room := hs q hq room
  exact ⟨fun h => ⟨fun hp => hqp hp.1, hagree.mp h.2⟩, fun h => ⟨hqp, hagree.mpr h.2⟩⟩

theorem fresh_handleDisconnect {rt : GoRuntime} {s : Server} {p : PeerID} {now : Time}
    {order : List RoomName} (hs : Fresh s) : Fresh (handleDisconnect rt s p order now).1 := by
  obtain ⟨hconns, hissued, hrooms, hpeers⟩ := leaveRooms_spec rt p now order
    (Server.dropPeer { s with
      rl := s.rl.remove p, typingRL := s.typingRL.remove p, signalRL := s.signalRL.remove p } p)
  refine ⟨fun q hq hin => ?_, fun q hq room hin => ?_, fun q hq room hin => ?_⟩
  · change q ∈ (leaveRooms rt p now order _).1.conns at hin
    rw [hconns] at hin
    exact hs.conns q (fun h => hq (hissued ▸ h)) (Finset.mem_of_mem_erase hin)
  · change room ∈ (leaveRooms rt p now order _).1.roomsOf q at hin
    rw [hrooms, Server.mem_roomsOf_dropPeer] at hin
    exact hs.rooms q (fun h => hq (hissued ▸ h)) room hin.2
  · change q ∈ (leaveRooms rt p now order _).1.store.peers room at hin
    rw [hpeers] at hin
    exact hs.store q (fun h => hq (hissued ▸ h)) room hin.2

theorem agree_cleanupRoom {s : Server} {room : RoomName} {dummy : PeerID} {order : List PeerID}
    {now : Time} (hs : Agree s) (horder : Enumerates order (s.store.peers room)) :
    Agree (cleanupRoom s room dummy order now).1 := by
  obtain ⟨hconns, -, -, hrooms, hpeers⟩ := disconnectPeers_spec room now order s
  intro q hq r
  change q ∈ (disconnectPeers room now order s).1.conns at hq
  change r ∈ (disconnectPeers room now order s).1.roomsOf q ↔
    q ∈ ((disconnectPeers room now order s).1.store.leave room dummy now).1.peers r
  rw [Store.mem_peers_leave, hrooms q hq, hpeers, hs q (hconns q hq), horder.mem_iff]
  -- the placeholder peer is taken out of a room that the loop has emptied
  constructor
  · rintro ⟨hne, hin⟩
    exact ⟨fun ⟨hr, _⟩ => hne ⟨hr ▸ hin, hr⟩, hne, hin⟩
  · exact fun h => h.2

theorem fresh_cleanupRoom {s : Server} {room : RoomName} {dummy : PeerID} {order : List PeerID}
    {now : Time} (hs : Fresh s) : Fresh (cleanupRoom s room dummy order now).1 := by
  obtain ⟨hconns, hissued, hsub, -, hpeers⟩ := disconnectPeers_spec room now order s
  refine ⟨fun q hq hin => ?_, fun q hq r hin => ?_, fun q hq r hin => ?_⟩
  · exact hs.conns q (fun h => hq (hissued.symm ▸ h)) (hconns q hin)
  · exact hs.rooms q (fun h => hq (hissued.symm ▸ h)) r (hsub q r hin)
  · have hin' := (Store.mem_peers_leave.mp hin).2
    exact hs.store q (fun h => hq (hissued.symm ▸ h)) r ((hpeers q r).mp hin').2

/-- A new connection has no rooms on either side. -/
theorem agree_register {s : Server} {p : PeerID} (hfresh : Fresh s) (hs : Agree s)
    (hp : p ∉ s.issued) : Agree (s.register p) := by
  intro q hq room
  change room ∈ s.roomsOf q ↔ q ∈ s.store.peers room
  rcases Finset.mem_insert.mp hq with rfl | hq
  · exact iff_of_false (hfresh.rooms q hp room) (hfresh.store q hp room)
  · exact hs q hq room

theorem fresh_register {s : Server} {p : PeerID} (hs : Fresh s) : Fresh (s.register p) where
  conns := by
    intro q hq
    obtain ⟨hne, hq⟩ := not_or.mp (mt Finset.mem_insert.mpr hq)
    exact fun h => (Finset.mem_insert.mp h).elim hne (hs.conns q hq)
  rooms := fun q hq => hs.rooms q fun h => hq (Finset.mem_insert_of_mem h)
  store := fun q hq => hs.store q fun h => hq (Finset.mem_insert_of_mem h)

theorem fresh_step {rt : GoRuntime} {s s' : Server} {e : Event} (hs : Fresh s)
    (h : step rt s e = some s') : Fresh s' := by
  unfold step handle at h
  cases e <;> simp only at h
  case connect p now =>
    split at h
    · cases h
    · cases h
      exact fresh_register hs
  case frame p frame now =>
    split at h
    · cases h
      exact fresh_handleFrame hs ‹_›
    · cases h
  case disconnect p order now =>
    split at h
    · cases h
      exact fresh_handleDisconnect hs
    · cases h
  case cleanup room order now =>
    split at h
    · cases h
      exact fresh_cleanupRoom hs
    · cases h
  case expire room order now =>
    split at h
    · cases h
      exact fresh_cleanupRoom hs
    · cases h
  case relayed env =>
    cases h
    exact hs

theorem agree_step {rt : GoRuntime} {s s' : Server} {e : Event} (hfresh : Fresh s) (hs : Agree s)
    (hhalf : ¬HalfJoin rt s e) (h : step rt s e = some s') : Agree s' := by
  unfold step handle at h
  cases e <;> simp only at h
  case connect p now =>
    split at h
    · cases h
    · cases h
      exact agree_register hfresh hs ‹_›
  case frame p frame now =>
    split at h
    · cases h
      exact agree_handleFrame hs hhalf
    · cases h
  case disconnect p order now =>
    split at h
    · cases h
      exact agree_handleDisconnect hs
    · cases h
  case cleanup room order now =>
    split at h
    · cases h
      exact agree_cleanupRoom hs ‹_›
    · cases h
  case expire room order now =>
    split at h
    · cases h
      exact agree_cleanupRoom hs ‹_›
    · cases h
  case relayed env =>
    cases h
    exact hs

/-! ### Members are connected -/

/-- A member of a room is connected and has the room in its set. -/
def Homed (s : Server) : Prop :=
  ∀ p room, p ∈ s.store.peers room → p ∈ s.conns ∧ room ∈ s.roomsOf p

theorem homed_newServer : Homed newServer := fun p _ h => absurd h (Finset.notMem_empty p)

theorem homed_handleFrame {rt : GoRuntime} {s : Server} {p : PeerID} {now : Time}
    {frame : Option Envelope} (hs : Homed s) (hp : p ∈ s.conns) :
    Homed (handleFrame rt s p frame now).1 := by
  generalize hres : handleFrame rt s p frame now = res
  have heff : FrameEffect rt s p now frame res := hres ▸ handleFrame_effect frame
  intro q room hq
  rw [heff.conns.1]
  cases heff with
  | none h =>
      rw [h.store] at hq
      rw [h.roomsOf]
      exact hs q room hq
  | joined =>
      rw [mem_roomsOf_joined]
      obtain ⟨rfl, rfl⟩ | hold := mem_peers_joined.mp hq
      · exact ⟨hp, .inl ⟨rfl, rfl⟩⟩
      · exact ⟨(hs q room hold).1, .inr (hs q room hold).2⟩
  | half =>
      obtain ⟨hconn, hroom⟩ := hs q room hq
      exact ⟨hconn, Server.mem_roomsOf_addRoom.mpr (.inr hroom)⟩
  | left =>
      obtain ⟨hne, hold⟩ := mem_peers_left.mp hq
      rw [mem_roomsOf_left]
      exact ⟨(hs q room hold).1, fun h => hne h.symm, (hs q room hold).2⟩

theorem homed_handleDisconnect {rt : GoRuntime} {s : Server} {p : PeerID} {now : Time}
    {order : List RoomName} (hs : Homed s) (horder : Enumerates order (s.roomsOf p)) :
    Homed (handleDisconnect rt s p order now).1 := by
  intro q room hq
  obtain ⟨hconns, -, hrooms, hpeers⟩ := leaveRooms_spec rt p now order
    (Server.dropPeer { s with
      rl := s.rl.remove p, typingRL := s.typingRL.remove p, signalRL := s.signalRL.remove p } p)
  change q ∈ (leaveRooms rt p now order _).1.store.peers room at hq
  change q ∈ (leaveRooms rt p now order _).1.conns ∧
    room ∈ (leaveRooms rt p now order _).1.roomsOf q
  rw [hpeers] at hq
  rw [hconns, hrooms, Server.mem_roomsOf_dropPeer]
  obtain ⟨hconn, hroom⟩ := hs q room hq.2
  have hqp : q ≠ p := by
    rintro rfl
    exact hq.1 ⟨rfl, horder.mem_iff.mpr hroom⟩
  exact ⟨Finset.mem_erase.mpr ⟨hqp, hconn⟩, hqp, hroom⟩

/-- A peer that has another room as well stays connected through a
`disconnectAllPeers` call. -/
theorem disconnectPeers_keeps {room r : RoomName} {q : PeerID} {now : Time} (hr : r ≠ room) :
    ∀ (order : List PeerID) (s : Server), q ∈ s.conns → r ∈ s.roomsOf q →
      q ∈ (disconnectPeers room now order s).1.conns ∧
        r ∈ (disconnectPeers room now order s).1.roomsOf q
  | [], _, hconn, hroom => ⟨hconn, hroom⟩
  | p :: rest, s, hconn, hroom => by
      refine disconnectPeers_keeps hr rest ((s.detach room p).leaveStore room p now) ?_ ?_
      · rw [Server.conns_leaveStore, Server.mem_conns_detach]
        refine ⟨hconn, ?_⟩
        rintro ⟨rfl, -, hlast⟩
        -- the other room is left in the set
        rw [Server.roomsOf] at hroom
        cases hset : s.peerRooms q with
        | none => simp [hset] at hlast
        | some rooms =>
            simp only [hset, Option.any_some, decide_eq_true_eq, Option.getD_some] at hlast hroom
            exact Finset.notMem_empty r (hlast ▸ Finset.mem_erase.mpr ⟨hr, hroom⟩)
      · rw [Server.roomsOf_leaveStore, Server.mem_roomsOf_detach]
        exact ⟨fun h => hr h.2.1, hroom⟩

theorem homed_cleanupRoom {s : Server} {room : RoomName} {dummy : PeerID} {order : List PeerID}
    {now : Time} (hs : Homed s) (horder : Enumerates order (s.store.peers room)) :
    Homed (cleanupRoom s room dummy order now).1 := by
  obtain ⟨-, -, -, -, hpeers⟩ := disconnectPeers_spec room now order s
  intro q r hq
  obtain ⟨hne, hold⟩ := (hpeers q r).mp (Store.mem_peers_leave.mp hq).2
  have hr : r ≠ room := by
    rintro rfl
    exact hne ⟨horder.mem_iff.mpr hold, rfl⟩
  obtain ⟨hconn, hroom⟩ := hs q r hold
  exact disconnectPeers_keeps hr order s hconn hroom

theorem homed_step {rt : GoRuntime} {s s' : Server} {e : Event} (hs : Homed s)
    (h : step rt s e = some s') : Homed s' := by
  unfold step handle at h
  cases e <;> simp only at h
  case connect p now =>
    split at h
    · cases h
    · cases h
      exact fun q r hq => ⟨Finset.mem_insert_of_mem (hs q r hq).1, (hs q r hq).2⟩
  case frame p frame now =>
    split at h
    · cases h
      exact homed_handleFrame hs ‹_›
    · cases h
  case disconnect p order now =>
    split at h
    · next hguard =>
      cases h
      exact homed_handleDisconnect hs hguard.2
    · cases h
  case cleanup room order now =>
    split at h
    · cases h
      exact homed_cleanupRoom hs ‹_›
    · cases h
  case expire room order now =>
    split at h
    · cases h
      exact homed_cleanupRoom hs ‹_›
    · cases h
  case relayed env =>
    cases h
    exact hs

/-! ### Agreement along runs -/

/-- A frame answered with an error and nothing else. -/
def Refused (rt : GoRuntime) (s : Server) (p : PeerID) (env : Envelope) (now : Time) : Prop :=
  ∃ msg, (handleFrame rt s p (some env) now).2 = [sendError p msg now]

/-- What a step owes to membership: the records agree after it, and a refused
join has left both alone, so that its sender stays shut out of the room. -/
structure MembershipStep (rt : GoRuntime) (s : Server) (e : Event) (s' : Server) : Prop where
  agree : Agree s'
  untouched : ∀ p env now, e = .frame p (some env) now → env.type = .join →
    Refused rt s p env now → s'.store = s.store ∧ s'.peerRooms = s.peerRooms
  shut : ∀ p env now, e = .frame p (some env) now → env.type = .join → Refused rt s p env now →
    env.room ∉ s.roomsOf p → ∀ msg now', msg.room = env.room →
      MessageType.memberOnly msg.type = true → Refused rt s' p msg now'

/-- Who is not in a room is refused there, whatever the type. -/
theorem refused_of_notMem {rt : GoRuntime} {s : Server} {p : PeerID} {env : Envelope} {now : Time}
    (htype : MessageType.memberOnly env.type = true) (hroom : env.room ∉ s.roomsOf p) :
    Refused rt s p env now := by
  have hout : ∀ t : Server, t.peerRooms = s.peerRooms → t.inRoom p env.room = false := by
    intro t ht
    simpa only [Server.inRoom, Server.roomsOf, ht, decide_eq_false_iff_not] using hroom
  have hforwarded : ∀ refusal, ∃ msg,
      (handleForwarded refusal rt s p env now).2 = [sendError p msg now] := by
    intro refusal
    unfold handleForwarded
    dsimp only
    split
    · exact ⟨_, rfl⟩
    · split
      · exact ⟨_, rfl⟩
      · exact absurd (hout _ rfl) ‹_›
  unfold Refused handleFrame
  dsimp only
  split
  · exact ⟨_, rfl⟩
  unfold handleType
  split
  case h_3 => exact hforwarded _
  case h_4 => exact hforwarded _
  case h_5 => exact ⟨_, by rw [handleTyping, if_pos (hout s rfl)]⟩
  case h_6 => exact ⟨_, by rw [handleReceipt, if_pos (hout s rfl)]⟩
  case h_7 => exact hforwarded _
  case h_8 => exact ⟨_, by rw [handleSignal, if_pos (hout s rfl)]⟩
  case h_9 => exact ⟨_, by rw [handleSignal, if_pos (hout s rfl)]⟩
  case h_10 => exact ⟨_, by rw [handleSignal, if_pos (hout s rfl)]⟩
  case h_11 => exact ⟨_, by rw [handleSignal, if_pos (hout s rfl)]⟩
  all_goals simp_all [MessageType.memberOnly]

theorem step_frame {rt : GoRuntime} {s s' : Server} {p : PeerID} {frame : Option Envelope}
    {now : Time} (h : step rt s (.frame p frame now) = some s') :
    p ∈ s.conns ∧ s' = (handleFrame rt s p frame now).1 := by
  simp only [step, handle] at h
  split at h
  · exact ⟨‹_›, (Option.some.inj h).symm⟩
  · cases h

/-- A refused join without the slip changes neither record. -/
theorem untouched_step {rt : GoRuntime} {s s' : Server} {p : PeerID} {env : Envelope} {now : Time}
    (hhalf : ¬HalfJoin rt s (.frame p (some env) now)) (htype : env.type = .join)
    (href : Refused rt s p env now) (h : step rt s (.frame p (some env) now) = some s') :
    s'.store = s.store ∧ s'.peerRooms = s.peerRooms := by
  obtain ⟨-, rfl⟩ := step_frame h
  obtain ⟨msg, hmsg⟩ := href
  generalize hres : handleFrame rt s p (some env) now = res at hmsg
  have heff : FrameEffect rt s p now (some env) res := hres ▸ handleFrame_effect (some env)
  cases heff with
  | none h => exact ⟨h.store, h.peerRooms⟩
  | @joined _ outs ttl salt nick hsalt houts =>
      have hone : outs = [sendError p msg now] := hmsg
      rw [hone] at houts
      exact absurd houts (lt_irrefl 1)
  | half hsalt =>
      have hin : env.room ∈ s.roomsOf p := by_contra fun hout => hhalf ⟨hsalt, hout⟩
      rw [addRoom_of_mem hin]
      exact ⟨rfl, rfl⟩
  | left hleave =>
      rw [htype] at hleave
      cases hleave

/-- A half join sets the two records apart. -/
theorem not_agree_of_halfJoin {rt : GoRuntime} {s s' : Server} {e : Event} (hs : Agree s)
    (hhalf : HalfJoin rt s e) (h : step rt s e = some s') : ¬Agree s' := by
  match e, hhalf with
  | .frame p (some env) now, ⟨hsalt, hout⟩ =>
      obtain ⟨hp, rfl⟩ := step_frame h
      intro hagree
      generalize hres : handleFrame rt s p (some env) now = res at hagree
      have heff : FrameEffect rt s p now (some env) res := hres ▸ handleFrame_effect (some env)
      obtain ⟨htype, hname, hroom, hpeer, hdec⟩ := hsalt
      have hstate : res.1 = s.addRoom p env.room := by
        cases hd : decodeSalt (joinPayload rt env.payload).salt with
        | ok salt =>
            rw [hd] at hdec
            cases hdec
        | error msg =>
            rw [← hres]
            simp only [handleFrame, hname, handleType, htype, handleJoin, joinRoom, if_neg hroom,
              if_neg hpeer, hd, ne_eq, not_true_eq_false, and_false, if_false]
      have hin : env.room ∈ res.1.roomsOf p := by
        rw [hstate]
        exact Server.mem_roomsOf_addRoom.mpr (.inl ⟨rfl, rfl⟩)
      have hstore := (hagree p (heff.conns.1 ▸ hp) env.room).mp hin
      rw [hstate] at hstore
      exact hout ((hs p hp env.room).mpr hstore)

theorem membershipStep_iff {rt : GoRuntime} {s s' : Server} {e : Event} (hfresh : Fresh s)
    (hs : Agree s) (h : step rt s e = some s') : MembershipStep rt s e s' ↔ ¬HalfJoin rt s e := by
  constructor
  · exact fun hstep hhalf => not_agree_of_halfJoin hs hhalf h hstep.agree
  · intro hhalf
    refine ⟨agree_step hfresh hs hhalf h, ?_, ?_⟩
    · rintro p env now rfl htype href
      exact untouched_step hhalf htype href h
    · rintro p env now rfl htype href hout msg now' hroom hmember
      have hrooms := (untouched_step hhalf htype href h).2
      refine refused_of_notMem hmember ?_
      simpa only [hroom, Server.roomsOf, hrooms] using hout

theorem agree_newServer : Agree newServer := fun p hp => absurd hp (Finset.notMem_empty p)

theorem fresh_newServer : Fresh newServer where
  conns := fun p _ => Finset.notMem_empty p
  rooms := fun _ _ room => Finset.notMem_empty room
  store := fun p _ _ => Finset.notMem_empty p

/-- **Membership agreement.** A run keeps the two records in agreement, and its
refused joins without effect, exactly when none of its joins is refused for its
salt alone. -/
theorem membership_agreement_iff (rt : GoRuntime) (es : List Event) :
    Along (step rt) (MembershipStep rt) newServer es ↔
      Along (step rt) (fun s e _ => ¬HalfJoin rt s e) newServer es :=
  along_congr (Q := fun s e _ => ¬HalfJoin rt s e) (I := fun s => Fresh s ∧ Agree s)
    (fun _ _ _ hs hhalf h => ⟨fresh_step hs.1 h, agree_step hs.1 hs.2 hhalf h⟩)
    (fun _ _ _ hs h => membershipStep_iff hs.1 hs.2 h) ⟨fresh_newServer, agree_newServer⟩

def badSaltText : String := "\x7b\"salt\":\"AAAA\"\x7d"

/-- A peer joins with a salt of three bytes. -/
def badSaltRun : List Event :=
  [.connect "p" 0, .frame "p" (some { type := .join, room := "r", payload := badSaltText }) 0]

/-- The refused peer is in its own set and not in the store. -/
theorem badSaltRun_disagrees :
    ¬Along (step (asciiRuntime badSaltText { salt := "AAAA" }))
      (MembershipStep (asciiRuntime badSaltText { salt := "AAAA" })) newServer badSaltRun := by
  intro h
  have hlast := (((h _ rfl).2) _ rfl).1.agree
  exact absurd ((hlast "p" (by decide) "r").mp (by decide)) (by decide)

end TrapChat.Gateway
