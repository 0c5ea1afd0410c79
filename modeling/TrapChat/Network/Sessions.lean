import TrapChat.Client.RoomKeys
import TrapChat.Library.Transition

/-!
Clients of one gateway: their apps, the messages about membership on their way to
the gateway and the presence messages on their way back. A connection is known by
the peer ID that the gateway has given it. Of a presence message only what the
clients' key handling reads is kept.

The messages of one client arrive in the order in which they were sent. Presence
messages are delivered in any order, and tasks are completed in any order. The
gateway's handlers are run one at a time. A gateway restart loses the rooms, the
connections and all messages under way.
-/

namespace TrapChat.Network

open Storage Protocol Client Gateway

/-- A presence message under way. Serials tell which one was sent last. -/
structure Notice where
  serial : ℕ
  room : RoomName
  salt : String
  deriving DecidableEq

structure Session (α : Type) where
  server : Server
  apps : α → App
  toGateway : PeerID → List Frame
  toClient : PeerID → List Notice
  /-- The next serial. -/
  serial : ℕ
  /-- The serial of the last presence of a room sent over a connection. -/
  latest : PeerID → RoomName → ℕ

/-- All pages are open, some of them through a link that carries a key. -/
def opened {α : Type} (fragments : α → Option (RoomName × String)) : Session α where
  server := newServer
  apps := fun c => .open (fragments c)
  toGateway := fun _ => []
  toClient := fun _ => []
  serial := 0
  latest := fun _ _ => 0

namespace Session

variable {α : Type}

def setApp [DecidableEq α] (s : Session α) (c : α) (a : App) : Session α :=
  { s with apps := Function.update s.apps c a }

/-- Frames go out over a connection, if it is open. -/
def send (s : Session α) (conn : Option PeerID) (frames : List Frame) : Session α :=
  match conn with
  | none => s
  | some p => { s with toGateway := Function.update s.toGateway p (s.toGateway p ++ frames) }

/-- One output of a gateway handler is put on its way to the clients. -/
def postOne (s : Session α) : Output → Session α
  | .presence targets _ pp =>
    { s with
      toClient := fun p =>
        if p ∈ targets then s.toClient p ++ [⟨s.serial, pp.room, pp.salt⟩] else s.toClient p
      latest := fun p room =>
        if p ∈ targets ∧ room = pp.room then s.serial else s.latest p room
      serial := s.serial + 1 }
  | _ => s

/-- The result of a gateway handler. -/
def post (s : Session α) (res : Server × List Output) : Session α :=
  res.2.foldl postOne { s with server := res.1 }

end Session

/-- The handler of a client's message about its membership. -/
def handleMember (rt : GoRuntime) (s : Server) (p : PeerID) (frame : Frame) (now : Time) :
    Server × List Output :=
  match frame with
  | .join room jp =>
    if validateRoomName rt room ≠ "" then (s, [sendError p (validateRoomName rt room) now])
    else joinRoom rt s p room jp now
  | .leave room =>
    if validateRoomName rt room ≠ "" then (s, [sendError p (validateRoomName rt room) now])
    else leaveRoom rt s p room now

inductive SessionAction (α : Type)
  | join (c : α) (form : JoinForm) (passphrase : String) (salt : List UInt8) (generated : AesKey)
  | complete (c : α) (i : ℕ)
  | sendJoin (c : α) (i : ℕ)
  | leave (c : α) (room : RoomName)
  | connect (c : α) (p : PeerID)
  | drop (c : α)
  | deliver (c : α) (i : ℕ)
  | receive (p : PeerID) (now : Time)
  | disconnect (p : PeerID) (order : List RoomName) (now : Time)
  | cleanup (room : RoomName) (order : List PeerID) (now : Time)
  | restart

/-- The step of the clients and their gateway. -/
def sessionStep {α : Type} [DecidableEq α] (rt : GoRuntime) (s : Session α) :
    SessionAction α → Option (Session α)
  -- the join form is submitted
  | .join c form passphrase salt generated =>
    let a := s.apps c
    if salt.length = 32 ∧ (form.room ∈ a.rooms ∨ a.rooms.card < maxJoinedRooms) then
      some (s.setApp c (a.setupRoomKey form passphrase salt generated))
    else none
  | .complete c i => ((s.apps c).complete i).map fun a => s.setApp c a
  | .sendJoin c i =>
    if (s.apps c).conn.isSome = true then
      ((s.apps c).sendJoin i).map fun res => (s.setApp c res.1).send res.1.conn res.2
    else none
  | .leave c room =>
    let a := s.apps c
    if room ∈ a.rooms then some ((s.setApp c (a.leave room)).send a.conn [.leave room]) else none
  -- a connection opens, and the joins are sent again
  | .connect c p =>
    let a := s.apps c
    if a.conn = none ∧ p ∉ s.server.issued ∧ p ≠ "" then
      some (({ s with server := s.server.register p }.setApp c { a with conn := some p }).send
        (some p) a.rejoins)
    else none
  -- the client loses its connection
  | .drop c => some (s.setApp c { s.apps c with conn := none })
  | .deliver c i =>
    (s.apps c).conn.bind fun p =>
      (s.toClient p)[i]?.map fun n =>
        { s with toClient := Function.update s.toClient p ((s.toClient p).eraseIdx i) }.setApp c
          ((s.apps c).presence n.room n.salt)
  | .receive p now =>
    match s.toGateway p with
    | [] => none
    | frame :: rest =>
      if p ∈ s.server.conns then
        some ({ s with toGateway := Function.update s.toGateway p rest }.post
          (handleMember rt s.server p frame now))
      else none
  -- the gateway's side of a connection ends
  | .disconnect p order now =>
    if p ∈ s.server.issued ∧ Enumerates order (s.server.roomsOf p) then
      some ({ s with toGateway := Function.update s.toGateway p [] }.post
        (handleDisconnect rt s.server p order now))
    else none
  | .cleanup room order now =>
    if Enumerates order (s.server.store.peers room) then
      some (s.post (cleanupRoom s.server room "__cleanup__" order now))
    else none
  | .restart =>
    some { s with
      server := newServer
      apps := fun c => { s.apps c with conn := none }
      toGateway := fun _ => []
      toClient := fun _ => [] }

end TrapChat.Network
