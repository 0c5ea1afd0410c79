import Mathlib.Data.Finmap

/-!
The gateway's room registry. A Go map is a `Finmap`: it has no iteration order
and no entry occurs twice. A room whose last peer leaves is deleted in the same
critical section, so the registry carries as a field that every room it holds is
occupied.

Every operation is one acquisition of the store's mutex. The clock is an
argument, in nanoseconds.
-/

namespace TrapChat.Storage

abbrev PeerID := String
abbrev RoomName := String
abbrev Time := ℕ

/-- A duration of `n` seconds. -/
def seconds (n : ℕ) : Time := n * 1000000000

/-- Connected peers of one chat room. `peers` maps a peer to its nickname, the
empty string when it has none; an empty `salt` is the source's `nil`. -/
structure Room where
  name : RoomName
  peers : Finmap (fun _ : PeerID => String)
  lastActivity : Time
  ttlSeconds : ℤ
  createdAt : Time
  salt : List UInt8

/-- The room a join creates, before the joining peer is entered. -/
def Room.create (name : RoomName) (ttlSeconds : ℤ) (salt : List UInt8) (now : Time) : Room where
  name := name
  peers := ∅
  lastActivity := 0
  ttlSeconds := if ttlSeconds > 0 then ttlSeconds else 0
  createdAt := now
  salt := salt

/-- A peer that is already there keeps its nickname. -/
def Room.enter (r : Room) (peerID : PeerID) (now : Time) : Room :=
  { r with
    peers := if peerID ∈ r.peers then r.peers else r.peers.insert peerID ""
    lastActivity := now }

def Room.remove (r : Room) (peerID : PeerID) (now : Time) : Room :=
  { r with peers := r.peers.erase peerID, lastActivity := now }

def Room.nickname (r : Room) (peerID : PeerID) (nickname : String) : Room :=
  { r with peers := r.peers.insert peerID nickname }

@[simp] theorem Room.mem_enter {r : Room} {p q : PeerID} {now : Time} :
    q ∈ (r.enter p now).peers ↔ q = p ∨ q ∈ r.peers := by
  simp only [Room.enter]
  split
  · rename_i h
    exact ⟨Or.inr, fun hq => hq.elim (fun e => e ▸ h) id⟩
  · exact Finmap.mem_insert

@[simp] theorem Room.mem_remove {r : Room} {p q : PeerID} {now : Time} :
    q ∈ (r.remove p now).peers ↔ q ≠ p ∧ q ∈ r.peers := Finmap.mem_erase

@[simp] theorem Room.mem_nickname {r : Room} {p q : PeerID} {nick : String} :
    q ∈ (r.nickname p nick).peers ↔ q = p ∨ q ∈ r.peers := Finmap.mem_insert

@[simp] theorem Room.salt_enter (r : Room) (p : PeerID) (now : Time) :
    (r.enter p now).salt = r.salt := rfl

@[simp] theorem Room.salt_remove (r : Room) (p : PeerID) (now : Time) :
    (r.remove p now).salt = r.salt := rfl

theorem Room.keys_enter_nonempty (r : Room) (p : PeerID) (now : Time) :
    (r.enter p now).peers.keys.Nonempty :=
  ⟨p, Finmap.mem_keys.mpr (Room.mem_enter.mpr (.inl rfl))⟩

theorem Room.keys_nickname_nonempty (r : Room) (p : PeerID) (nick : String) :
    (r.nickname p nick).peers.keys.Nonempty :=
  ⟨p, Finmap.mem_keys.mpr (Room.mem_nickname.mpr (.inl rfl))⟩

structure Store where
  rooms : Finmap (fun _ : RoomName => Room)
  occupied : ∀ name r, rooms.lookup name = some r → r.peers.keys.Nonempty

def newStore : Store where
  rooms := ∅
  occupied := by simp

/-- The registry with an occupied room put under a name. -/
def Store.put (s : Store) (name : RoomName) (r : Room) (h : r.peers.keys.Nonempty) : Store where
  rooms := s.rooms.insert name r
  occupied := by
    intro name' r' hr'
    by_cases hn : name' = name
    · subst hn
      rw [Finmap.lookup_insert] at hr'
      cases hr'
      exact h
    · rw [Finmap.lookup_insert_of_ne _ hn] at hr'
      exact s.occupied name' r' hr'

/-- The registry without a name. -/
def Store.delete (s : Store) (name : RoomName) : Store where
  rooms := s.rooms.erase name
  occupied := by
    intro name' r' hr'
    by_cases hn : name' = name
    · subst hn
      rw [Finmap.lookup_erase] at hr'
      cases hr'
    · rw [Finmap.lookup_erase_ne hn] at hr'
      exact s.occupied name' r' hr'

/-- Joins a room, creating it if needed, and returns the registry, the peer
count and whether the room is new. TTL and salt are taken from the creating
join only. -/
def Store.joinWithTTL (s : Store) (room : RoomName) (peerID : PeerID) (ttlSeconds : ℤ)
    (salt : List UInt8) (now : Time) : Store × ℕ × Bool :=
  let isNew := (s.rooms.lookup room).isNone
  let r := (s.rooms.lookup room).getD (Room.create room ttlSeconds salt now)
  let r' := r.enter peerID now
  (s.put room r' (r.keys_enter_nonempty peerID now), r'.peers.keys.card, isNew)

def Store.join (s : Store) (room : RoomName) (peerID : PeerID) (now : Time) : Store × ℕ :=
  let res := s.joinWithTTL room peerID 0 [] now
  (res.1, res.2.1)

/-- The salt of a room, empty when there is none or no such room. -/
def Store.roomSalt (s : Store) (room : RoomName) : List UInt8 :=
  match s.rooms.lookup room with
  | some r => r.salt
  | none => []

/-- Removes a peer from a room, and the room with its last peer. Returns the
remaining count. -/
def Store.leave (s : Store) (room : RoomName) (peerID : PeerID) (now : Time) : Store × ℕ :=
  match s.rooms.lookup room with
  | none => (s, 0)
  | some r =>
    let r' := r.remove peerID now
    if h : r'.peers.keys.Nonempty then (s.put room r' h, r'.peers.keys.card)
    else (s.delete room, 0)

def Store.count (s : Store) (room : RoomName) : ℕ :=
  match s.rooms.lookup room with
  | some r => r.peers.keys.card
  | none => 0

def Store.peers (s : Store) (room : RoomName) : Finset PeerID :=
  match s.rooms.lookup room with
  | some r => r.peers.keys
  | none => ∅

/-- Only a member can be given a nickname. -/
def Store.setNickname (s : Store) (room : RoomName) (peerID : PeerID) (nickname : String) :
    Store :=
  match s.rooms.lookup room with
  | none => s
  | some r =>
    if peerID ∈ r.peers then
      s.put room (r.nickname peerID nickname) (r.keys_nickname_nonempty peerID nickname)
    else s

def Store.peersWithNicknames (s : Store) (room : RoomName) : Finmap (fun _ : PeerID => String) :=
  match s.rooms.lookup room with
  | some r => r.peers
  | none => ∅

/-- The names of the rooms. -/
def Store.roomNames (s : Store) : Finset RoomName := s.rooms.keys

/-- The rooms with their peer counts. -/
def Store.roomsWithCounts (s : Store) : Finset (RoomName × ℕ) :=
  s.rooms.keys.image fun name => (name, s.count name)

def Store.roomCount (s : Store) : ℕ := s.rooms.keys.card

/-- Peer count, last activity and existence of a room. -/
def Store.roomInfo (s : Store) (name : RoomName) : ℕ × Time × Bool :=
  match s.rooms.lookup name with
  | some r => (r.peers.keys.card, r.lastActivity, true)
  | none => (0, 0, false)

def Store.setRoomTTL (s : Store) (room : RoomName) (ttlSeconds : ℤ) : Store :=
  match h : s.rooms.lookup room with
  | none => s
  | some r => s.put room { r with ttlSeconds := ttlSeconds } (s.occupied room r h)

/-- TTL, creation time and existence of a room. -/
def Store.roomTTL (s : Store) (room : RoomName) : ℤ × Time × Bool :=
  match s.rooms.lookup room with
  | some r => (r.ttlSeconds, r.createdAt, true)
  | none => (0, 0, false)

def Room.expired (r : Room) (now : Time) : Bool :=
  r.ttlSeconds > 0 && r.createdAt + seconds r.ttlSeconds.toNat < now

/-- The rooms with a positive TTL that has run out. -/
def Store.expiredRooms (s : Store) (now : Time) : Finset RoomName :=
  s.rooms.keys.filter fun name => (s.rooms.lookup name).any (·.expired now)

/-! ### Membership after each operation -/

theorem Store.mem_peers {s : Store} {room : RoomName} {p : PeerID} :
    p ∈ s.peers room ↔ ∃ r, s.rooms.lookup room = some r ∧ p ∈ r.peers := by
  unfold Store.peers
  cases h : s.rooms.lookup room with
  | none => simp
  | some r => simp [Finmap.mem_keys]

theorem Store.peers_eq_keys (s : Store) (room : RoomName) :
    s.peers room = (s.peersWithNicknames room).keys := by
  rw [Store.peers, Store.peersWithNicknames]
  split <;> rfl

theorem Store.count_eq_card (s : Store) (room : RoomName) : s.count room = (s.peers room).card := by
  rw [Store.count, Store.peers]
  split <;> rfl

theorem Store.peersWithNicknames_congr {s s' : Store} {room : RoomName}
    (h : s'.rooms.lookup room = s.rooms.lookup room) :
    s'.peersWithNicknames room = s.peersWithNicknames room := by
  rw [Store.peersWithNicknames, Store.peersWithNicknames, h]

@[simp] theorem Store.lookup_put_self (s : Store) (name : RoomName) (r : Room)
    (h : r.peers.keys.Nonempty) : (s.put name r h).rooms.lookup name = some r :=
  Finmap.lookup_insert _

@[simp] theorem Store.lookup_delete_self (s : Store) (name : RoomName) :
    (s.delete name).rooms.lookup name = none := Finmap.lookup_erase _ _

theorem Store.lookup_delete_ne (s : Store) {name name' : RoomName} (hn : name' ≠ name) :
    (s.delete name).rooms.lookup name' = s.rooms.lookup name' := Finmap.lookup_erase_ne hn

@[simp] theorem newStore_peers (room : RoomName) : newStore.peers room = ∅ := rfl

@[simp] theorem Store.peers_put_self (s : Store) (name : RoomName) (r : Room)
    (h : r.peers.keys.Nonempty) : (s.put name r h).peers name = r.peers.keys := by
  simp only [peers, lookup_put_self]

theorem Store.peers_of_lookup {s : Store} {name : RoomName} {r : Room}
    (h : s.rooms.lookup name = some r) : s.peers name = r.peers.keys := by
  simp only [peers, h]

theorem Store.lookup_joinWithTTL_self (s : Store) (room : RoomName) (p : PeerID) (ttl : ℤ)
    (salt : List UInt8) (now : Time) :
    (s.joinWithTTL room p ttl salt now).1.rooms.lookup room =
      some (((s.rooms.lookup room).getD (Room.create room ttl salt now)).enter p now) :=
  lookup_put_self _ _ _ (Room.keys_enter_nonempty _ p now)

/-- Rooms an operation does not name are untouched: it leaves their record alone. -/
theorem Store.lookup_joinWithTTL_ne (s : Store) {room room' : RoomName} (p : PeerID) (ttl : ℤ)
    (salt : List UInt8) (now : Time) (h : room' ≠ room) :
    (s.joinWithTTL room p ttl salt now).1.rooms.lookup room' = s.rooms.lookup room' :=
  Finmap.lookup_insert_of_ne _ h

theorem Store.lookup_leave_ne (s : Store) {room room' : RoomName} (p : PeerID) (now : Time)
    (h : room' ≠ room) : (s.leave room p now).1.rooms.lookup room' = s.rooms.lookup room' := by
  unfold Store.leave
  split
  · rfl
  · dsimp only
    split
    · exact Finmap.lookup_insert_of_ne _ h
    · exact s.lookup_delete_ne h

theorem Store.lookup_setNickname_ne (s : Store) {room room' : RoomName} (p : PeerID)
    (nick : String) (h : room' ≠ room) :
    (s.setNickname room p nick).rooms.lookup room' = s.rooms.lookup room' := by
  unfold Store.setNickname
  split
  · rfl
  · split
    · exact Finmap.lookup_insert_of_ne _ h
    · rfl

theorem Store.lookup_setRoomTTL_self (s : Store) (room : RoomName) (ttl : ℤ) :
    (s.setRoomTTL room ttl).rooms.lookup room =
      (s.rooms.lookup room).map fun r => { r with ttlSeconds := ttl } := by
  unfold setRoomTTL
  split
  · next h => rw [h, Option.map_none]
  · next r h => rw [lookup_put_self, h, Option.map_some]

theorem Store.lookup_setRoomTTL_ne (s : Store) {room room' : RoomName} (ttl : ℤ)
    (h : room' ≠ room) : (s.setRoomTTL room ttl).rooms.lookup room' = s.rooms.lookup room' := by
  unfold setRoomTTL
  split
  · rfl
  · exact Finmap.lookup_insert_of_ne _ h

theorem Store.mem_peers_joinWithTTL {s : Store} {room room' : RoomName} {p q : PeerID} {ttl : ℤ}
    {salt : List UInt8} {now : Time} :
    q ∈ (s.joinWithTTL room p ttl salt now).1.peers room' ↔
      (room' = room ∧ q = p) ∨ q ∈ s.peers room' := by
  by_cases h : room' = room
  · subst h
    simp only [joinWithTTL, peers_put_self, Finmap.mem_keys, Room.mem_enter, true_and]
    cases hl : s.rooms.lookup room' with
    | none => simp [peers, hl, Room.create, Finmap.notMem_empty]
    | some r => simp [peers, hl, Finmap.mem_keys]
  · rw [Store.mem_peers, lookup_joinWithTTL_ne s p ttl salt now h, ← Store.mem_peers]
    simp [h]

theorem Store.mem_peers_leave {s : Store} {room room' : RoomName} {p q : PeerID} {now : Time} :
    q ∈ (s.leave room p now).1.peers room' ↔ ¬(room' = room ∧ q = p) ∧ q ∈ s.peers room' := by
  by_cases h : room' = room
  · subst h
    cases hl : s.rooms.lookup room' with
    | none => simp [leave, hl, peers]
    | some r =>
        by_cases hne : (r.remove p now).peers.keys.Nonempty
        · simp [leave, hl, hne, peers_of_lookup hl, Finmap.mem_keys]
        · have hempty : ¬(q ≠ p ∧ q ∈ r.peers) := fun hq =>
            hne ⟨q, Finmap.mem_keys.mpr (Room.mem_remove.mpr hq)⟩
          have hgone : q ∉ (s.delete room').peers room' := by simp [peers]
          simpa [leave, hl, hne, peers_of_lookup hl, Finmap.mem_keys, hgone] using hempty
  · rw [Store.mem_peers, lookup_leave_ne s p now h, ← Store.mem_peers]
    simp [h]

theorem Store.peers_setNickname (s : Store) (room room' : RoomName) (p : PeerID)
    (nick : String) : (s.setNickname room p nick).peers room' = s.peers room' := by
  by_cases h : room' = room
  · subst h
    unfold setNickname
    split
    · rfl
    · rename_i r hl
      split
      · rename_i hp
        rw [peers_put_self, peers_of_lookup hl]
        ext q
        rw [Finmap.mem_keys, Finmap.mem_keys, Room.mem_nickname]
        exact ⟨fun hq => hq.elim (fun e => e ▸ hp) id, Or.inr⟩
      · rfl
  · simp only [peers, lookup_setNickname_ne s p nick h]

theorem Store.peers_setRoomTTL (s : Store) (room room' : RoomName) (ttl : ℤ) :
    (s.setRoomTTL room ttl).peers room' = s.peers room' := by
  by_cases h : room' = room
  · subst h
    rw [peers, peers, lookup_setRoomTTL_self]
    cases s.rooms.lookup room' <;> rfl
  · simp only [peers, lookup_setRoomTTL_ne s ttl h]

/-! ### Nicknames after each operation -/

/-- The nickname of a member. -/
def Store.nickname (s : Store) (room : RoomName) (p : PeerID) : Option String :=
  (s.peersWithNicknames room).lookup p

theorem Store.nickname_eq_none {s : Store} {room : RoomName} {p : PeerID} :
    s.nickname room p = none ↔ p ∉ s.peers room := by
  rw [nickname, Finmap.lookup_eq_none, peers_eq_keys, Finmap.mem_keys]

theorem Store.nickname_of_lookup {s : Store} {room : RoomName} {r : Room} (p : PeerID)
    (h : s.rooms.lookup room = some r) : s.nickname room p = r.peers.lookup p := by
  rw [nickname, peersWithNicknames, h]

theorem Store.nickname_congr {s s' : Store} {room : RoomName} (p : PeerID)
    (h : s'.rooms.lookup room = s.rooms.lookup room) : s'.nickname room p = s.nickname room p := by
  rw [nickname, nickname, peersWithNicknames_congr h]

/-- A join gives a new member the empty nickname, and leaves the other nicknames. -/
theorem Store.nickname_joinWithTTL (s : Store) (room : RoomName) (p q : PeerID) (ttl : ℤ)
    (salt : List UInt8) (now : Time) :
    (s.joinWithTTL room p ttl salt now).1.nickname room q =
      if q = p then some ((s.nickname room p).getD "") else s.nickname room q := by
  rw [nickname_of_lookup q (lookup_joinWithTTL_self s room p ttl salt now)]
  have hold : ∀ q, s.nickname room q =
      ((s.rooms.lookup room).getD (Room.create room ttl salt now)).peers.lookup q := by
    intro q
    rw [nickname, peersWithNicknames]
    cases s.rooms.lookup room <;> rfl
  rw [hold, hold]
  generalize (s.rooms.lookup room).getD (Room.create room ttl salt now) = r
  by_cases hp : p ∈ r.peers
  · obtain ⟨nick, hnick⟩ := Finmap.mem_iff.mp hp
    have henter : (r.enter p now).peers = r.peers := if_pos hp
    rw [henter]
    split
    · next hq => rw [hq, hnick, Option.getD_some]
    · rfl
  · have henter : (r.enter p now).peers = r.peers.insert p "" := if_neg hp
    rw [henter, Finmap.lookup_eq_none.mpr hp]
    split
    · next hq => rw [hq, Finmap.lookup_insert, Option.getD_none]
    · next hq => exact Finmap.lookup_insert_of_ne _ hq

theorem Store.nickname_leave (s : Store) (room : RoomName) (p q : PeerID) (now : Time) :
    (s.leave room p now).1.nickname room q = if q = p then none else s.nickname room q := by
  by_cases hgone : q ∈ (s.leave room p now).1.peers room
  · have hq : q ≠ p := fun h => (mem_peers_leave.mp hgone).1 ⟨rfl, h⟩
    obtain ⟨r, hr, hmem⟩ := mem_peers.mp (mem_peers_leave.mp hgone).2
    have hne : (r.remove p now).peers.keys.Nonempty :=
      ⟨q, Finmap.mem_keys.mpr (Room.mem_remove.mpr ⟨hq, hmem⟩)⟩
    have hlookup : (s.leave room p now).1.rooms.lookup room = some (r.remove p now) := by
      simp [leave, hr, hne]
    rw [nickname_of_lookup q hlookup, nickname_of_lookup q hr, if_neg hq]
    exact Finmap.lookup_erase_ne hq
  · rw [nickname_eq_none.mpr hgone]
    split
    · rfl
    · next hq =>
      refine (nickname_eq_none.mpr fun hmem => hgone ?_).symm
      exact mem_peers_leave.mpr ⟨fun h => hq h.2, hmem⟩

theorem Store.nickname_setNickname (s : Store) (room : RoomName) (p q : PeerID) (nick : String) :
    (s.setNickname room p nick).nickname room q =
      if q = p ∧ p ∈ s.peers room then some nick else s.nickname room q := by
  by_cases hp : p ∈ s.peers room
  · obtain ⟨r, hr, hmem⟩ := mem_peers.mp hp
    have hlookup : (s.setNickname room p nick).rooms.lookup room = some (r.nickname p nick) := by
      simp [setNickname, hr, hmem]
    rw [nickname_of_lookup q hlookup, nickname_of_lookup q hr]
    by_cases hq : q = p
    · rw [if_pos ⟨hq, hp⟩, hq]
      exact Finmap.lookup_insert _
    · rw [if_neg fun h => hq h.1]
      exact Finmap.lookup_insert_of_ne _ hq
  · have hsame : s.setNickname room p nick = s := by
      unfold setNickname
      split
      · rfl
      · next r hr => exact if_neg fun hmem => hp (mem_peers.mpr ⟨r, hr, hmem⟩)
    rw [hsame, if_neg fun h => hp h.2]

theorem Store.nickname_setRoomTTL (s : Store) (room : RoomName) (q : PeerID) (ttl : ℤ) :
    (s.setRoomTTL room ttl).nickname room q = s.nickname room q := by
  rw [nickname, nickname, peersWithNicknames, peersWithNicknames, lookup_setRoomTTL_self]
  cases s.rooms.lookup room <;> rfl

/-! ### The salt of a room after each operation -/

theorem Store.roomSalt_put_self (s : Store) (name : RoomName) (r : Room)
    (h : r.peers.keys.Nonempty) : (s.put name r h).roomSalt name = r.salt := by
  simp only [roomSalt, lookup_put_self]

theorem Store.roomSalt_congr {s s' : Store} {room : RoomName}
    (h : s'.rooms.lookup room = s.rooms.lookup room) : s'.roomSalt room = s.roomSalt room := by
  simp only [roomSalt, h]

/-- The first joiner's salt stays. -/
theorem Store.roomSalt_joinWithTTL (s : Store) (room room' : RoomName) (p : PeerID) (ttl : ℤ)
    (salt : List UInt8) (now : Time) : (s.joinWithTTL room p ttl salt now).1.roomSalt room' =
      if room' = room ∧ s.peers room = ∅ then salt else s.roomSalt room' := by
  by_cases h : room' = room
  · subst h
    rw [joinWithTTL, roomSalt_put_self, Room.salt_enter]
    cases hl : s.rooms.lookup room' with
    | none => simp [peers, hl, Room.create]
    | some r =>
        have hne : s.peers room' ≠ ∅ := by
          rw [peers_of_lookup hl]
          exact (s.occupied room' r hl).ne_empty
        simp [hne, roomSalt, hl]
  · rw [if_neg (fun hr => h hr.1)]
    exact roomSalt_congr (lookup_joinWithTTL_ne s p ttl salt now h)

/-- A room that survives a leave keeps its salt. -/
theorem Store.roomSalt_leave {s : Store} {room room' : RoomName} {p q : PeerID} {now : Time}
    (hq : q ∈ (s.leave room p now).1.peers room') :
    (s.leave room p now).1.roomSalt room' = s.roomSalt room' := by
  by_cases h : room' = room
  · subst h
    cases hl : s.rooms.lookup room' with
    | none => simp [leave, hl]
    | some r =>
        by_cases hne : (r.remove p now).peers.keys.Nonempty
        · simp [leave, hl, hne, roomSalt]
        · simp [leave, hl, hne, peers] at hq
  · exact roomSalt_congr (lookup_leave_ne s p now h)

theorem Store.roomSalt_setNickname (s : Store) (room room' : RoomName) (p : PeerID)
    (nick : String) : (s.setNickname room p nick).roomSalt room' = s.roomSalt room' := by
  by_cases h : room' = room
  · subst h
    cases hl : s.rooms.lookup room' with
    | none => simp [setNickname, hl]
    | some r =>
        by_cases hp : p ∈ r.peers
        · simp [setNickname, hl, hp, roomSalt, Room.nickname]
        · simp [setNickname, hl, hp]
  · exact roomSalt_congr (lookup_setNickname_ne s p nick h)

/-- A room is registered exactly while it has a member. -/
theorem Store.exists_iff_peers_nonempty {s : Store} {room : RoomName} :
    (∃ r, s.rooms.lookup room = some r) ↔ (s.peers room).Nonempty := by
  constructor
  · rintro ⟨r, hr⟩
    obtain ⟨p, hp⟩ := s.occupied room r hr
    exact ⟨p, Store.mem_peers.mpr ⟨r, hr, Finmap.mem_keys.mp hp⟩⟩
  · rintro ⟨p, hp⟩
    obtain ⟨r, hr, -⟩ := Store.mem_peers.mp hp
    exact ⟨r, hr⟩

end TrapChat.Storage
