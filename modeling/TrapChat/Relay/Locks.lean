import TrapChat.Relay.Handler

/-!
The relay's handlers at the granularity of lock acquisitions. A room is behind
an `Arc`, so that the room map and a handler that has fetched a room refer to
the same peer map; `arcs` is the heap of these maps. The outer lock is the one of
the room map. Peer-map locks are held for one action only and need no record;
the outer lock is held over two actions in two places of `leave_room`, where a
room is tested for emptiness under it.

A handler's program counter names the next lock it acquires. What a handler does
without a lock belongs to the action before.
-/

namespace TrapChat.Relay

abbrev ArcId := ℕ

/-- What a handler does after `leave_room` and after `broadcast_presence`. -/
inductive After
  | join (room : RoomName)
  | leave
  | disconnect
  deriving DecidableEq

inductive PC
  | idle
  | joinFetch (room : RoomName)
  | joinInsert (room : RoomName) (arc : ArcId)
  | joinCount (room : RoomName)
  | leaveGet (room : RoomName) (after : After)
  | leaveErase (room : RoomName) (arc : ArcId) (after : After)
  | leaveCheck (room : RoomName) (after : After)
  /-- Holds the outer lock for reading. -/
  | leaveCheckInner (room : RoomName) (arc : ArcId) (after : After)
  | leaveRemove (room : RoomName) (after : After)
  /-- Holds the outer lock for writing. -/
  | leaveRemoveInner (room : RoomName) (arc : ArcId) (after : After)
  | presenceGet (room : RoomName) (after : After)
  | presenceSend (arc : ArcId) (after : After)
  | fanGet (room : RoomName)
  | fanSend (arc : ArcId)
  | fanEvict (arc : ArcId) (stale : Finset ConnId)
  deriving DecidableEq

/-- Where a handler goes on when `leave_room` returns. -/
def After.resume (room : RoomName) : After → PC
  | .join next => .joinFetch next
  | after => .presenceGet room after

structure Shared where
  rooms : Finmap (fun _ : RoomName => ArcId)
  arcs : ArcId → Finset ConnId
  /-- The next unused heap cell. -/
  next : ArcId
  readers : Finset ConnId
  writer : Option ConnId
  conns : Finset ConnId
  current : ConnId → Option RoomName
  pc : ConnId → PC

def newShared : Shared where
  rooms := ∅
  arcs := fun _ => ∅
  next := 0
  readers := ∅
  writer := none
  conns := ∅
  current := fun _ => none
  pc := fun _ => .idle

namespace Shared

def goto (s : Shared) (c : ConnId) (pc : PC) : Shared :=
  { s with pc := Function.update s.pc c pc }

def setArc (s : Shared) (a : ArcId) (r : Finset ConnId) : Shared :=
  { s with arcs := Function.update s.arcs a r }

def setCurrent (s : Shared) (c : ConnId) (room : Option RoomName) : Shared :=
  { s with current := Function.update s.current c room }

/-- The outer lock can be taken for reading. -/
def canRead (s : Shared) : Prop := s.writer = none

/-- The outer lock can be taken for writing. -/
def canWrite (s : Shared) : Prop := s.writer = none ∧ s.readers = ∅

instance (s : Shared) : Decidable s.canRead := inferInstanceAs (Decidable (_ = _))

instance (s : Shared) : Decidable s.canWrite := inferInstanceAs (Decidable (_ ∧ _))

/-- `leave_room` returns. -/
def left (s : Shared) (c : ConnId) (room : RoomName) (after : After) : Shared :=
  s.goto c (after.resume room)

/-- `broadcast_presence` returns, and the handler with it. -/
def finish (s : Shared) (c : ConnId) : After → Shared
  | .join _ => s.goto c .idle
  | .leave => (s.goto c .idle).setCurrent c none
  | .disconnect => { (s.goto c .idle).setCurrent c none with conns := s.conns.erase c }

/-- The room limit refuses a join of the room. -/
def roomLimit (s : Shared) (room : RoomName) : Prop :=
  s.rooms.lookup room = none ∧ maxRooms ≤ s.rooms.keys.card

/-- The limit on a room's peers refuses a connection. -/
def peerLimit (s : Shared) (c : ConnId) (a : ArcId) : Prop :=
  maxPeersPerRoom ≤ (s.arcs a).card ∧ c ∉ s.arcs a

instance (s : Shared) (room : RoomName) : Decidable (s.roomLimit room) :=
  inferInstanceAs (Decidable (_ ∧ _))

instance (s : Shared) (c : ConnId) (a : ArcId) : Decidable (s.peerLimit c a) :=
  inferInstanceAs (Decidable (_ ∧ _))

/-- The room that a join under the outer write lock goes on with, created if
there is none. -/
def fetch (s : Shared) (room : RoomName) : Shared × ArcId :=
  match s.rooms.lookup room with
  | some a => (s, a)
  | none =>
    ({ s.setArc s.next ∅ with rooms := s.rooms.insert room s.next, next := s.next + 1 }, s.next)

/-- The receivers of a fan-out. -/
def targets (s : Shared) (c : ConnId) (a : ArcId) : Finset ConnId := (s.arcs a).erase c

end Shared

/-- One lock acquisition of a handler and what follows up to the next one.
`refuse` are the connections whose queue does not take a message. -/
def advance (s : Shared) (c : ConnId) (refuse : Finset ConnId) : PC → Option Shared
  | .idle => none
  | .joinFetch room =>
    if s.canWrite then
      if s.roomLimit room then some (s.goto c .idle)
      else some ((s.fetch room).1.goto c (.joinInsert room (s.fetch room).2))
    else none
  | .joinInsert room a =>
    if s.peerLimit c a then some (s.goto c .idle)
    else some (((s.setArc a (insert c (s.arcs a))).setCurrent c (some room)).goto c
      (.joinCount room))
  | .joinCount room => some (s.goto c (.presenceGet room (.join room)))
  | .leaveGet room after =>
    if s.canRead then
      match s.rooms.lookup room with
      | none => some (s.left c room after)
      | some a => some (s.goto c (.leaveErase room a after))
    else none
  | .leaveErase room a after =>
    let s' := s.setArc a ((s.arcs a).erase c)
    if (s.arcs a).erase c = ∅ then some (s'.goto c (.leaveCheck room after))
    else some (s'.left c room after)
  | .leaveCheck room after =>
    if s.canRead then
      match s.rooms.lookup room with
      | none => some (s.left c room after)
      | some a =>
        some ({ s with readers := insert c s.readers }.goto c (.leaveCheckInner room a after))
    else none
  | .leaveCheckInner room a after =>
    let s' := { s with readers := s.readers.erase c }
    if s.arcs a = ∅ then some (s'.goto c (.leaveRemove room after))
    else some (s'.left c room after)
  | .leaveRemove room after =>
    if s.canWrite then
      match s.rooms.lookup room with
      | none => some (s.left c room after)
      | some a => some ({ s with writer := some c }.goto c (.leaveRemoveInner room a after))
    else none
  | .leaveRemoveInner room a after =>
    if s.arcs a = ∅ then
      some ({ s with writer := none, rooms := s.rooms.erase room }.left c room after)
    else some ({ s with writer := none }.left c room after)
  | .presenceGet room after =>
    if s.canRead then
      match s.rooms.lookup room with
      | none => some (s.finish c after)
      | some a => some (s.goto c (.presenceSend a after))
    else none
  | .presenceSend _ after => some (s.finish c after)
  | .fanGet room =>
    if s.canRead then
      match s.rooms.lookup room with
      | none => some (s.goto c .idle)
      | some a => some (s.goto c (.fanSend a))
    else none
  | .fanSend a =>
    if s.targets c a ∩ refuse = ∅ then some (s.goto c .idle)
    else some (s.goto c (.fanEvict a (s.targets c a ∩ refuse)))
  | .fanEvict a stale => some ((s.setArc a (s.arcs a \ stale)).goto c .idle)

inductive LockAction
  | connect (c : ConnId)
  | join (c : ConnId) (room : RoomName)
  | leave (c : ConnId)
  | chat (c : ConnId)
  | disconnect (c : ConnId)
  | run (c : ConnId) (refuse : Finset ConnId)

/-- A handler starts on a message or goes on. -/
def lockStep (s : Shared) : LockAction → Option Shared
  | .connect c => if c ∈ s.conns then none else some { s with conns := insert c s.conns }
  | .join c room =>
    if c ∈ s.conns ∧ s.pc c = .idle then
      match s.current c with
      | some prev => some (s.goto c (.leaveGet prev (.join room)))
      | none => some (s.goto c (.joinFetch room))
    else none
  | .leave c =>
    if c ∈ s.conns ∧ s.pc c = .idle then
      match s.current c with
      | some room => some (s.goto c (.leaveGet room .leave))
      | none => some s
    else none
  | .chat c =>
    if c ∈ s.conns ∧ s.pc c = .idle then
      match s.current c with
      | some room => some (s.goto c (.fanGet room))
      | none => some s
    else none
  | .disconnect c =>
    if c ∈ s.conns ∧ s.pc c = .idle then
      match s.current c with
      | some room => some (s.goto c (.leaveGet room .disconnect))
      | none => some { s with conns := s.conns.erase c }
    else none
  | .run c refuse => if c ∈ s.conns then advance s c refuse (s.pc c) else none

end TrapChat.Relay
