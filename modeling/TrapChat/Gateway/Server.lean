import TrapChat.Gateway.RateLimiter

/-!
The gateway's state and its critical sections. `conns` and `peerRooms` are
guarded by one mutex and the store by another; each definition below is what one
acquisition of the first does. The handlers, which string these sections
together, are built from them twice: as whole functions in `Handler`, and step
by step in `Goroutines`.

A peer is identified with its ID: `newPeerID` never hands one out twice, so the
map from IDs to peers is the set of registered IDs. A missing entry of
`peerRooms` is the source's nil map.
-/

namespace TrapChat.Gateway

open Storage

structure Server where
  store : Store
  conns : Finset PeerID
  peerRooms : PeerID → Option (Finset RoomName)
  rl : RateLimiter
  typingRL : RateLimiter
  signalRL : RateLimiter
  /-- The IDs handed out so far. -/
  issued : Finset PeerID

def newServer : Server where
  store := newStore
  conns := ∅
  peerRooms := fun _ => none
  rl := newRateLimiter 10 (seconds 1) 20
  typingRL := newRateLimiter 1 (seconds 2) 3
  signalRL := newRateLimiter 50 (seconds 1) 100
  issued := ∅

namespace Server

/-- The rooms of a peer; reading a nil map is reading an empty one. -/
def roomsOf (s : Server) (p : PeerID) : Finset RoomName := (s.peerRooms p).getD ∅

/-- The check every message handler makes before it acts for a room. -/
def inRoom (s : Server) (p : PeerID) (room : RoomName) : Bool := decide (room ∈ s.roomsOf p)

/-- Registers a new connection. -/
def register (s : Server) (p : PeerID) : Server :=
  { s with conns := insert p s.conns, issued := insert p s.issued }

/-- The section of the join handler that enters a room in the peer's set. -/
def addRoom (s : Server) (p : PeerID) (room : RoomName) : Server :=
  { s with peerRooms := Function.update s.peerRooms p (some (insert room (s.roomsOf p))) }

/-- The section of the leave handler; an emptied set is deleted. -/
def removeRoom (s : Server) (p : PeerID) (room : RoomName) : Server :=
  match s.peerRooms p with
  | none => s
  | some rooms =>
    let rooms' := rooms.erase room
    { s with
      peerRooms := Function.update s.peerRooms p (if rooms' = ∅ then none else some rooms') }

/-- Whether `disconnectAllPeers` finds the room to be the connected peer's last. -/
def lastRoom (s : Server) (room : RoomName) (p : PeerID) : Prop :=
  p ∈ s.conns ∧ (s.peerRooms p).any (fun rooms => decide (rooms.erase room = ∅))

instance (s : Server) (room : RoomName) (p : PeerID) : Decidable (s.lastRoom room p) :=
  inferInstanceAs (Decidable (_ ∧ _))

/-- The section of `disconnectAllPeers` for one peer. A peer whose last room
this was is unregistered, and the caller goes on to close it. -/
def detach (s : Server) (room : RoomName) (p : PeerID) : Server :=
  if p ∈ s.conns then
    match s.peerRooms p with
    | none => s
    | some rooms =>
      let rooms' := rooms.erase room
      if rooms' = ∅ then
        { s with
          conns := s.conns.erase p
          peerRooms := Function.update s.peerRooms p none }
      else { s with peerRooms := Function.update s.peerRooms p (some rooms') }
  else s

/-- The section of the deferred cleanup, which then walks the rooms it read. -/
def dropPeer (s : Server) (p : PeerID) : Server :=
  { s with
    conns := s.conns.erase p
    peerRooms := Function.update s.peerRooms p none }

/-- `store.JoinWithTTL`, for its effect. -/
def joinStore (s : Server) (room : RoomName) (p : PeerID) (ttl : ℤ) (salt : List UInt8)
    (now : Time) : Server :=
  { s with store := (s.store.joinWithTTL room p ttl salt now).1 }

/-- `store.Leave`, for its effect. -/
def leaveStore (s : Server) (room : RoomName) (p : PeerID) (now : Time) : Server :=
  { s with store := (s.store.leave room p now).1 }

/-- `store.SetNickname`, which the join handler calls for a non-empty nickname. -/
def nickStore (s : Server) (room : RoomName) (p : PeerID) (nick : String) : Server :=
  if nick = "" then s else { s with store := s.store.setNickname room p nick }

/-! ### What each section does to the rooms of every peer -/

@[simp] theorem conns_addRoom (s : Server) (p : PeerID) (room : RoomName) :
    (s.addRoom p room).conns = s.conns := rfl

@[simp] theorem store_addRoom (s : Server) (p : PeerID) (room : RoomName) :
    (s.addRoom p room).store = s.store := rfl

@[simp] theorem conns_removeRoom (s : Server) (p : PeerID) (room : RoomName) :
    (s.removeRoom p room).conns = s.conns := by
  unfold removeRoom
  split <;> rfl

@[simp] theorem store_removeRoom (s : Server) (p : PeerID) (room : RoomName) :
    (s.removeRoom p room).store = s.store := by
  unfold removeRoom
  split <;> rfl

@[simp] theorem store_detach (s : Server) (room : RoomName) (p : PeerID) :
    (s.detach room p).store = s.store := by
  unfold detach
  split
  · split
    · rfl
    · dsimp only
      split <;> rfl
  · rfl

@[simp] theorem store_dropPeer (s : Server) (p : PeerID) : (s.dropPeer p).store = s.store := rfl

@[simp] theorem conns_dropPeer (s : Server) (p : PeerID) :
    (s.dropPeer p).conns = s.conns.erase p := rfl

@[simp] theorem conns_joinStore (s : Server) (room : RoomName) (p : PeerID) (ttl : ℤ)
    (salt : List UInt8) (now : Time) : (s.joinStore room p ttl salt now).conns = s.conns := rfl

@[simp] theorem roomsOf_joinStore (s : Server) (room : RoomName) (p q : PeerID) (ttl : ℤ)
    (salt : List UInt8) (now : Time) :
    (s.joinStore room p ttl salt now).roomsOf q = s.roomsOf q := rfl

@[simp] theorem conns_leaveStore (s : Server) (room : RoomName) (p : PeerID) (now : Time) :
    (s.leaveStore room p now).conns = s.conns := rfl

@[simp] theorem roomsOf_leaveStore (s : Server) (room : RoomName) (p q : PeerID) (now : Time) :
    (s.leaveStore room p now).roomsOf q = s.roomsOf q := rfl

@[simp] theorem conns_nickStore (s : Server) (room : RoomName) (p : PeerID) (nick : String) :
    (s.nickStore room p nick).conns = s.conns := by
  unfold nickStore
  split <;> rfl

@[simp] theorem roomsOf_nickStore (s : Server) (room : RoomName) (p q : PeerID) (nick : String) :
    (s.nickStore room p nick).roomsOf q = s.roomsOf q := by
  unfold nickStore
  split <;> rfl

@[simp] theorem peers_nickStore (s : Server) (room room' : RoomName) (p : PeerID)
    (nick : String) : (s.nickStore room p nick).store.peers room' = s.store.peers room' := by
  unfold nickStore
  split
  · rfl
  · exact s.store.peers_setNickname room room' p nick

@[simp] theorem roomSalt_nickStore (s : Server) (room room' : RoomName) (p : PeerID)
    (nick : String) : (s.nickStore room p nick).store.roomSalt room' = s.store.roomSalt room' := by
  unfold nickStore
  split
  · rfl
  · exact s.store.roomSalt_setNickname room room' p nick

theorem mem_roomsOf_addRoom {s : Server} {p q : PeerID} {room room' : RoomName} :
    room' ∈ (s.addRoom p room).roomsOf q ↔ (q = p ∧ room' = room) ∨ room' ∈ s.roomsOf q := by
  by_cases hq : q = p
  · subst hq
    simp [roomsOf, addRoom]
  · simp [roomsOf, addRoom, hq]

/-- The last room of a set. -/
theorem eq_of_mem_of_erase_eq_empty {rooms : Finset RoomName} {room x : RoomName}
    (h : rooms.erase room = ∅) (hx : x ∈ rooms) : x = room := by
  obtain rfl | rfl := (Finset.erase_eq_empty_iff rooms room).mp h
  · exact absurd hx (Finset.notMem_empty x)
  · exact Finset.mem_singleton.mp hx

theorem mem_roomsOf_removeRoom {s : Server} {p q : PeerID} {room room' : RoomName} :
    room' ∈ (s.removeRoom p room).roomsOf q ↔
      ¬(q = p ∧ room' = room) ∧ room' ∈ s.roomsOf q := by
  by_cases hq : q = p
  · subst hq
    cases hr : s.peerRooms q with
    | none => simp [roomsOf, removeRoom, hr]
    | some rooms =>
        by_cases he : rooms.erase room = ∅
        · have hall : ∀ x ∈ rooms, x = room := fun x => eq_of_mem_of_erase_eq_empty he
          simp only [roomsOf, removeRoom, hr, he, if_true, Function.update_self, Option.getD_none,
            Finset.notMem_empty, Option.getD_some, false_iff, true_and]
          exact fun h => h.1 (hall _ h.2)
        · simp [roomsOf, removeRoom, hr, he, Finset.mem_erase]
  · unfold removeRoom
    split <;> simp [roomsOf, hq]

theorem mem_roomsOf_dropPeer {s : Server} {p q : PeerID} {room : RoomName} :
    room ∈ (s.dropPeer p).roomsOf q ↔ q ≠ p ∧ room ∈ s.roomsOf q := by
  by_cases hq : q = p
  · subst hq
    simp [roomsOf, dropPeer]
  · simp [roomsOf, dropPeer, hq]

theorem mem_roomsOf_detach {s : Server} {p q : PeerID} {room room' : RoomName} :
    room' ∈ (s.detach room p).roomsOf q ↔
      ¬(q = p ∧ room' = room ∧ p ∈ s.conns) ∧ room' ∈ s.roomsOf q := by
  by_cases hc : p ∈ s.conns
  · by_cases hq : q = p
    · subst hq
      cases hr : s.peerRooms q with
      | none => simp [roomsOf, detach, hc, hr]
      | some rooms =>
          by_cases he : rooms.erase room = ∅
          · have hall : ∀ x ∈ rooms, x = room := fun x => eq_of_mem_of_erase_eq_empty he
            simp only [roomsOf, detach, hc, hr, he, if_true, Function.update_self,
              Option.getD_none, Finset.notMem_empty, Option.getD_some, false_iff, true_and,
              and_true]
            exact fun h => h.1 (hall _ h.2)
          · simp [roomsOf, detach, hc, hr, he, Finset.mem_erase]
    · unfold detach
      rw [if_pos hc]
      split
      · simp [hq]
      · dsimp only
        split <;> simp [roomsOf, hq]
  · simp [detach, hc]

/-- A detached peer stays registered unless the room was its last. -/
theorem mem_conns_detach {s : Server} {p q : PeerID} {room : RoomName} :
    q ∈ (s.detach room p).conns ↔ q ∈ s.conns ∧ ¬(q = p ∧ s.lastRoom room p) := by
  by_cases hc : p ∈ s.conns
  · cases hr : s.peerRooms p with
    | none => simp [detach, lastRoom, hc, hr]
    | some rooms =>
        by_cases he : rooms.erase room = ∅
        · simp [detach, lastRoom, hc, hr, he, Finset.mem_erase, and_comm]
        · simp [detach, lastRoom, hc, hr, he]
  · simp [detach, lastRoom, hc]

/-! ### Nothing gives a room set to a peer that has none, a join apart -/

theorem peerRooms_dropPeer_eq_none {s : Server} {p q : PeerID} (h : s.peerRooms q = none) :
    (s.dropPeer p).peerRooms q = none := by
  by_cases hq : q = p
  · simp [dropPeer, hq]
  · simp [dropPeer, hq, h]

theorem peerRooms_removeRoom_eq_none {s : Server} {p q : PeerID} {room : RoomName}
    (h : s.peerRooms q = none) : (s.removeRoom p room).peerRooms q = none := by
  unfold removeRoom
  split
  · exact h
  · rename_i rooms hp
    have hq : q ≠ p := by
      rintro rfl
      rw [h] at hp
      cases hp
    simp [hq, h]

theorem peerRooms_detach_eq_none {s : Server} {p q : PeerID} {room : RoomName}
    (h : s.peerRooms q = none) : (s.detach room p).peerRooms q = none := by
  unfold detach
  split
  · split
    · exact h
    · rename_i rooms hp
      have hq : q ≠ p := by
        rintro rfl
        rw [h] at hp
        cases hp
      dsimp only
      split <;> simp [hq, h]
  · exact h

end Server

end TrapChat.Gateway
