import Mathlib.Data.Finmap
import TrapChat.Relay.Message

/-!
The relay, each message handled to completion. A connection has one variable of
its own, `current_room`; the rooms are maps from connection IDs to send queues,
of which only the keys matter, a queue being its connection's.

A queue that is full or closed makes `try_send` fail; the event that runs a
handler says which queues those are. Error texts go back to the sender.
-/

namespace TrapChat.Relay

abbrev ConnId := String
abbrev RoomName := String

/-- Rust's `char::is_alphanumeric`. -/
structure RustRuntime where
  isAlphanumeric : Char → Bool

def maxRooms : ℕ := 10000

def maxRoomNameLen : ℕ := 64

def maxPayloadBytes : ℕ := 256 * 1024

def maxPeersPerRoom : ℕ := 50

/-- The reason a room name is refused, `none` for a valid one. -/
def validateRoomName (rt : RustRuntime) (name : String) : Option String :=
  if name = "" then some "room name is required"
  else if name.length > maxRoomNameLen then some "room name too long"
  else if name.toList.all fun c =>
      rt.isAlphanumeric c || c = ' ' || c = '-' || c = '_' || c = '.' then none
  else some "room name contains invalid characters"

/-- `rooms` is shared; `current` holds the `current_room` of every handler. -/
structure State where
  rooms : Finmap (fun _ : RoomName => Finset ConnId)
  current : ConnId → Option RoomName
  conns : Finset ConnId

def newState : State where
  rooms := ∅
  current := fun _ => none
  conns := ∅

inductive Output
  | error (c : ConnId) (room : RoomName) (text : String)
  | fanOut (targets : Finset ConnId) (m : Message)
  | presence (targets : Finset ConnId) (room : RoomName) (count : ℕ)
  deriving DecidableEq

namespace State

/-- The connections in a room; a room that is not in the map has none. -/
def members (s : State) (room : RoomName) : Finset ConnId := (s.rooms.lookup room).getD ∅

/-- `leave_room`: takes a connection out of a room, and the room out of the map
once it is empty. -/
def leaveRoom (s : State) (room : RoomName) (c : ConnId) : State :=
  match s.rooms.lookup room with
  | none => s
  | some r =>
    { s with
      rooms := if r.erase c = ∅ then s.rooms.erase room else s.rooms.insert room (r.erase c) }

/-- The first step of a join leaves the room the connection is in. -/
def leaveCurrent (s : State) (c : ConnId) : State :=
  match s.current c with
  | none => s
  | some prev => s.leaveRoom prev c

/-- The entry of a room, made if there is none. -/
def openRoom (s : State) (room : RoomName) : State :=
  { s with rooms := s.rooms.insert room (s.members room) }

/-- Puts a connection in a room and makes the room its current one. -/
def enter (s : State) (room : RoomName) (c : ConnId) : State :=
  { s with
    rooms := s.rooms.insert room (insert c (s.members room))
    current := Function.update s.current c (some room) }

/-- Takes slow consumers out of a room, which stays in the map. -/
def evict (s : State) (room : RoomName) (stale : Finset ConnId) : State :=
  match s.rooms.lookup room with
  | none => s
  | some r => { s with rooms := s.rooms.insert room (r \ stale) }

def setCurrent (s : State) (c : ConnId) (room : Option RoomName) : State :=
  { s with current := Function.update s.current c room }

end State

/-- `broadcast_presence`: nothing for a room that is not in the map. -/
def broadcastPresence (s : State) (room : RoomName) : List Output :=
  match s.rooms.lookup room with
  | none => []
  | some r => [.presence r room r.card]

def handleJoin (s : State) (c : ConnId) (m : Message) : State × List Output :=
  let s := s.leaveCurrent c
  if s.rooms.lookup m.room = none ∧ maxRooms ≤ s.rooms.keys.card then
    (s, [.error c m.room "room limit reached"])
  else
    let s := s.openRoom m.room
    if maxPeersPerRoom ≤ (s.members m.room).card ∧ c ∉ s.members m.room then
      (s, [.error c m.room "room full — max 50 peers"])
    else
      let s := s.enter m.room c
      (s, broadcastPresence s m.room)

/-- `fan_out_msg` to the connection's current room, whatever room the message
names. -/
def fanOut (s : State) (c : ConnId) (m : Message) (refuse : Finset ConnId) :
    State × List Output :=
  match s.current c with
  | none => (s, [])
  | some room =>
    match s.rooms.lookup room with
    | none => (s, [])
    | some r => (s.evict room (r.erase c ∩ refuse), [.fanOut (r.erase c \ refuse) m])

def handleLeave (s : State) (c : ConnId) : State × List Output :=
  match s.current c with
  | none => (s, [])
  | some room =>
    let s := s.leaveRoom room c
    (s.setCurrent c none, broadcastPresence s room)

/-- The types whose room name is checked. -/
def MessageType.needsRoom : MessageType → Bool
  | .join | .leave | .chat | .media | .typing | .receipt | .keyRotation => true
  | _ => false

/-- The dispatch on the type of a validated message. Signals, which the relay
deserialises, are logged and dropped. -/
def dispatch (s : State) (c : ConnId) (m : Message) (refuse : Finset ConnId) :
    State × List Output :=
  match m.msgType with
  | .join => handleJoin s c m
  | .chat | .media | .typing | .receipt | .keyRotation => fanOut s c m refuse
  | .leave => handleLeave s c
  | .presence | .error | .welcome =>
    (s, [.error c m.room (ProtocolError.text (.invalidMessageType m.msgType.debug))])
  | .signal => (s, [])

/-- Everything a message is checked for before it is dispatched: the reply that
refuses it, if any. -/
def refusal (rt : RustRuntime) (c : ConnId) (m : Message) : Option Output :=
  match m.validate with
  | .error e => some (.error c m.room e.text)
  | .ok () =>
    if maxPayloadBytes < (m.payload.getD "").utf8ByteSize then
      some (.error c m.room "payload exceeds 256KB limit")
    else if m.msgType.needsRoom then
      (validateRoomName rt m.room).map (.error c "" ·)
    else none

/-- One turn of the read loop; `none` is a frame that does not deserialise. The
client's timestamp is overwritten. -/
def handleMessage (rt : RustRuntime) (s : State) (c : ConnId) (frame : Option Message)
    (refuse : Finset ConnId) (now : ℕ) : State × List Output :=
  match frame with
  | none => (s, [])
  | some m =>
    match refusal rt c m with
    | some reply => (s, [reply])
    | none => dispatch s c { m with timestamp := now } refuse

/-- The cleanup after the read loop. -/
def handleDisconnect (s : State) (c : ConnId) : State × List Output :=
  let res := handleLeave s c
  ({ res.1 with conns := res.1.conns.erase c }, res.2)

/-! ### Runs -/

inductive Event
  | connect (c : ConnId)
  | message (c : ConnId) (frame : Option Message) (refuse : Finset ConnId) (now : ℕ)
  | disconnect (c : ConnId)

/-- One event, run to completion. -/
def handle (rt : RustRuntime) (s : State) : Event → Option (State × List Output)
  | .connect c => if c ∈ s.conns then none else some ({ s with conns := insert c s.conns }, [])
  | .message c frame refuse now =>
    if c ∈ s.conns then some (handleMessage rt s c frame refuse now) else none
  | .disconnect c => if c ∈ s.conns then some (handleDisconnect s c) else none

/-- The transition system of one relay. -/
def step (rt : RustRuntime) (s : State) (e : Event) : Option State :=
  (handle rt s e).map Prod.fst

/-! ### Rooms after each operation -/

namespace State

@[simp] theorem members_newState (room : RoomName) : newState.members room = ∅ := rfl

theorem mem_members_insert {s : State} {rooms : Finmap (fun _ : RoomName => Finset ConnId)}
    {room q : RoomName} {r : Finset ConnId} {x : ConnId}
    (h : s.rooms = rooms.insert room r) :
    x ∈ s.members q ↔ if q = room then x ∈ r else x ∈ (rooms.lookup q).getD ∅ := by
  unfold members
  rw [h]
  by_cases hq : q = room
  · subst hq
    simp
  · simp [hq, Finmap.lookup_insert_of_ne _ hq]

theorem mem_members_leaveRoom {s : State} {room q : RoomName} {c x : ConnId} :
    x ∈ (s.leaveRoom room c).members q ↔ ¬(q = room ∧ x = c) ∧ x ∈ s.members q := by
  cases hl : s.rooms.lookup room with
  | none =>
      have hempty : x ∉ s.members room := by simp [members, hl]
      simp only [leaveRoom, hl]
      exact ⟨fun h => ⟨fun hq => hempty (hq.1 ▸ h), h⟩, fun h => h.2⟩
  | some r =>
      by_cases hq : q = room
      · subst hq
        by_cases he : r.erase c = ∅
        · have hall : x ∈ r → x = c := by
            intro hx
            by_contra hne
            exact Finset.notMem_empty x (he ▸ Finset.mem_erase.mpr ⟨hne, hx⟩)
          simpa [leaveRoom, hl, he, members] using fun hne hx => hne (hall hx)
        · simp [leaveRoom, hl, he, members]
      · by_cases he : r.erase c = ∅
        · simp [leaveRoom, hl, he, members, hq, Finmap.lookup_erase_ne hq]
        · simp [leaveRoom, hl, he, members, hq, Finmap.lookup_insert_of_ne _ hq]

theorem mem_members_leaveCurrent {s : State} {q : RoomName} {c x : ConnId} :
    x ∈ (s.leaveCurrent c).members q ↔ ¬(s.current c = some q ∧ x = c) ∧ x ∈ s.members q := by
  unfold leaveCurrent
  cases hc : s.current c with
  | none => simp
  | some prev =>
      simp only [mem_members_leaveRoom, Option.some.injEq, eq_comm (a := q)]

@[simp] theorem members_openRoom (s : State) (room q : RoomName) :
    (s.openRoom room).members q = s.members q := by
  ext x
  rw [mem_members_insert (s := s.openRoom room) rfl]
  split
  · subst q
    exact Iff.rfl
  · exact Iff.rfl

theorem mem_members_enter {s : State} {room q : RoomName} {c x : ConnId} :
    x ∈ (s.enter room c).members q ↔ (q = room ∧ x = c) ∨ x ∈ s.members q := by
  rw [mem_members_insert (s := s.enter room c) rfl]
  split
  · subst q
    simp
  · rename_i hq
    simp [hq, members]

theorem mem_members_evict {s : State} {room q : RoomName} {stale : Finset ConnId} {x : ConnId} :
    x ∈ (s.evict room stale).members q ↔ ¬(q = room ∧ x ∈ stale) ∧ x ∈ s.members q := by
  unfold evict
  cases hl : s.rooms.lookup room with
  | none =>
      have hempty : x ∉ s.members room := by simp [members, hl]
      exact ⟨fun h => ⟨fun hq => hempty (hq.1 ▸ h), h⟩, fun h => h.2⟩
  | some r =>
      by_cases hq : q = room
      · subst hq
        simp [members, hl, and_comm]
      · simp [members, hq, Finmap.lookup_insert_of_ne _ hq]

@[simp] theorem members_setCurrent (s : State) (c : ConnId) (room : Option RoomName)
    (q : RoomName) : (s.setCurrent c room).members q = s.members q := rfl

@[simp] theorem current_leaveRoom (s : State) (room : RoomName) (c : ConnId) :
    (s.leaveRoom room c).current = s.current := by
  unfold leaveRoom
  split <;> rfl

@[simp] theorem conns_leaveRoom (s : State) (room : RoomName) (c : ConnId) :
    (s.leaveRoom room c).conns = s.conns := by
  unfold leaveRoom
  split <;> rfl

@[simp] theorem current_leaveCurrent (s : State) (c : ConnId) :
    (s.leaveCurrent c).current = s.current := by
  unfold leaveCurrent
  split
  · rfl
  · exact current_leaveRoom _ _ _

@[simp] theorem conns_leaveCurrent (s : State) (c : ConnId) :
    (s.leaveCurrent c).conns = s.conns := by
  unfold leaveCurrent
  split
  · rfl
  · exact conns_leaveRoom _ _ _

@[simp] theorem current_evict (s : State) (room : RoomName) (stale : Finset ConnId) :
    (s.evict room stale).current = s.current := by
  unfold evict
  split <;> rfl

@[simp] theorem conns_evict (s : State) (room : RoomName) (stale : Finset ConnId) :
    (s.evict room stale).conns = s.conns := by
  unfold evict
  split <;> rfl

end State

end TrapChat.Relay
