import TrapChat.Gateway.Handler

/-!
The gateway's goroutines at the granularity of lock acquisitions and channel
operations. A goroutine is the list of operations it still has to make; one
operation is one critical section or one operation on a peer's queue, and may put
further ones before the rest. What a goroutine does without a lock belongs to the
operation before it.

What a queue holds is read by its write pump only and is left out. A queue is
known by how often it has been closed: a send on it after that, or a second
close, panics. A panic ends a request and a connection's handler, the latter
through its deferred cleanup; nothing recovers it in a relay reader or in the TTL
loop, and the process is gone.
-/

namespace TrapChat.Gateway

open Storage Protocol

inductive Task
  | handler (p : PeerID)
  | relayReader (i : ℕ)
  | http (n : ℕ)
  | ttlLoop
  deriving DecidableEq

inductive Limiter
  | rl | typingRL | signalRL
  deriving DecidableEq

inductive Op
  -- the connection's handler
  | register (p : PeerID)
  | deferCleanup (p : PeerID)
  | joinCount (p : PeerID) (env : Envelope)
  | joinRoomCount (p : PeerID) (env : Envelope)
  | joinLimit (p : PeerID) (env : Envelope)
  | addRoom (p : PeerID) (env : Envelope)
  | storeJoin (p : PeerID) (room : RoomName) (jp : JoinPayload) (salt : List UInt8)
  | setNickname (p : PeerID) (room : RoomName) (nick : String)
  | leaveRoom (p : PeerID) (room : RoomName)
  | removeRoom (p : PeerID) (room : RoomName)
  | allow (p : PeerID) (env : Envelope)
  | member (p : PeerID) (env : Envelope)
  | roomList (p : PeerID)
  -- its deferred cleanup
  | forget (limiter : Limiter) (p : PeerID)
  | dropPeer (p : PeerID)
  | handlerReturn (p : PeerID)
  -- `disconnectAllPeers` and its callers
  | roomPeers (room : RoomName)
  | detach (room : RoomName) (p : PeerID)
  | leaveStore (room : RoomName) (p : PeerID)
  /-- `Leave` for a peer that does not exist. -/
  | sweep (room : RoomName) (dummy : PeerID)
  | closeSend (p : PeerID)
  | expiredRooms
  -- sending
  | presencePeers (room : RoomName)
  | presenceTTL (pp : PresencePayload)
  | presenceSalt (pp : PresencePayload)
  | broadcastPeers (room : RoomName) (env : Envelope) (exclude : PeerID)
  | broadcastConns (peers : Finset PeerID) (env : Envelope)
  | signalTarget (env : Envelope)
  | enqueue (p : PeerID) (env : Envelope)
  | forward (env : Envelope)
  deriving DecidableEq

/-! ### What a client message starts -/

/-- The refusal of a message to a room that its sender is not in. -/
def refusal : MessageType → String
  | .typing => "must join a room before sending typing"
  | .receipt => "must join a room before sending receipts"
  | .keyRotation => "must join a room before sending key rotation"
  | .chat | .media => "must join a room before sending messages"
  | _ => "must join a room before sending signals"

def frameCode (rt : GoRuntime) (p : PeerID) (frame : Option Envelope) (now : Time) : List Op :=
  match frame with
  | none => [.enqueue p (errorEnvelope "invalid message format" now)]
  | some env =>
    if MessageType.needsRoom env.type = true ∧ validateRoomName rt env.room ≠ "" then
      [.enqueue p (errorEnvelope (validateRoomName rt env.room) now)]
    else
      match env.type with
      | .join => [.joinCount p env]
      | .leave => [.leaveRoom p env.room]
      | .chat | .media | .keyRotation => [.allow p env]
      | .typing | .receipt | .signal | .callOffer | .callAnswer | .callEnd => [.member p env]
      | .presence => []
      | t => [.enqueue p (errorEnvelope ("unknown message type: " ++ t.wire) now)]

/-- What follows a membership change in the store. -/
def announce (type : MessageType) (room : RoomName) (p : PeerID) (now : Time) : List Op :=
  [.presencePeers room, .roomList p, .forward (memberEnvelope type room p now)]

/-- Where a signal goes. -/
def routeCode (p : PeerID) (env : Envelope) : List Op :=
  if env.toPeer ≠ "" then [.signalTarget env]
  else [.broadcastPeers env.room env p, .forward env]

/-- What follows the membership check of a message. -/
def acceptCode (p : PeerID) (env : Envelope) (now : Time) : List Op :=
  match env.type with
  | .typing | .signal => [.allow p env]
  | .receipt => [.broadcastPeers env.room (stamp env p now) p]
  | .callOffer | .callAnswer | .callEnd => routeCode p (stamp env p now)
  | _ => [.broadcastPeers env.room (stamp env p now) p, .forward (stamp env p now)]

/-- The rate limit of a message, and what follows if it passes. -/
def allowCode (s : Server) (p : PeerID) (env : Envelope) (now : Time) : Server × List Op :=
  match env.type with
  | .typing =>
    let res := s.typingRL.allow p now
    ({ s with typingRL := res.1 },
      if res.2 = true then [.broadcastPeers env.room (stamp env p now) p] else [])
  | .signal =>
    let res := s.signalRL.allow p now
    ({ s with signalRL := res.1 },
      if res.2 = true then
        if env.toPeer = "" then [.enqueue p (errorEnvelope "signal requires target peer" now)]
        else routeCode p (stamp env p now)
      else [])
  | _ =>
    let res := s.rl.allow p now
    ({ s with rl := res.1 },
      if res.2 = true then [.member p env]
      else [.enqueue p (errorEnvelope "rate limit exceeded — slow down" now)])

/-- What a join does once its room is in the peer's set. -/
def saltCode (rt : GoRuntime) (p : PeerID) (env : Envelope) (now : Time) : List Op :=
  let jp := joinPayload rt env.payload
  match decodeSalt jp.salt with
  | .error msg => [.enqueue p (errorEnvelope msg now)]
  | .ok salt => [.storeJoin p env.room jp salt]

/-- The deferred cleanup. -/
def cleanupCode (p : PeerID) : List Op :=
  [.forget .rl p, .forget .typingRL p, .forget .signalRL p, .dropPeer p, .closeSend p,
    .handlerReturn p]

/-- The cleanup's work for one room. -/
def leaveCode (p : PeerID) (now : Time) (room : RoomName) : List Op :=
  [.leaveStore room p, .presencePeers room, .forward (memberEnvelope .leave room p now)]

/-- The TTL loop's work for one room. -/
def expireCode (now : Time) (room : RoomName) : List Op :=
  [.broadcastPeers room (expiredEnvelope room now) "", .roomPeers room,
    .sweep room "__ttl_cleanup__"]

def Server.forgetBucket (s : Server) (p : PeerID) : Limiter → Server
  | .rl => { s with rl := s.rl.remove p }
  | .typingRL => { s with typingRL := s.typingRL.remove p }
  | .signalRL => { s with signalRL := s.signalRL.remove p }

/-- The critical section of an operation and the operations that come of it.
`order` is the order of the loop over a map that follows, if one does. -/
def execute (rt : GoRuntime) (s : Server) (order : List String) (now : Time) :
    Op → Option (Server × List Op)
  | .register p => some (s.register p, [])
  | .joinCount p env =>
    some (s, if s.store.count env.room = 0 then [.joinRoomCount p env] else [.joinLimit p env])
  | .joinRoomCount p env =>
    some (s,
      if maxRooms ≤ s.store.roomCount then
        [.enqueue p (errorEnvelope "room limit reached — try again later" now)]
      else [.joinLimit p env])
  | .joinLimit p env =>
    some (s,
      if s.peerLimit p env.room then
        [.enqueue p (errorEnvelope "max 5 rooms — leave one first" now)]
      else [.addRoom p env])
  | .addRoom p env => some (s.addRoom p env.room, saltCode rt p env now)
  | .storeJoin p room jp salt =>
    let nick := sanitizeNickname jp.nickname
    some (s.joinStore room p (ttlForJoin jp) salt now,
      if nick = "" then announce .join room p now
      else .setNickname p room nick :: announce .join room p now)
  | .setNickname p room nick => some ({ s with store := s.store.setNickname room p nick }, [])
  | .leaveRoom p room => some (s.leaveStore room p now, [.removeRoom p room])
  | .removeRoom p room => some (s.removeRoom p room, announce .leave room p now)
  | .allow p env => some (allowCode s p env now)
  | .member p env =>
    some (s,
      if s.inRoom p env.room = true then acceptCode p env now
      else [.enqueue p (errorEnvelope (refusal env.type) now)])
  | .roomList p => some (s, [.enqueue p (roomListEnvelope rt (s.roomsOf p) now)])
  | .forget limiter p => some (s.forgetBucket p limiter, [])
  | .dropPeer p =>
    if Enumerates order (s.roomsOf p) then some (s.dropPeer p, order.flatMap (leaveCode p now))
    else none
  | .roomPeers room =>
    if Enumerates order (s.store.peers room) then some (s, order.map (.detach room)) else none
  | .detach room p =>
    some (s.detach room p,
      if s.lastRoom room p then [.leaveStore room p, .closeSend p] else [.leaveStore room p])
  | .leaveStore room p => some (s.leaveStore room p now, [])
  | .sweep room dummy => some (s.leaveStore room dummy now, [])
  | .expiredRooms =>
    if Enumerates order (s.store.expiredRooms now) then some (s, order.flatMap (expireCode now))
    else none
  | .presencePeers room => some (s, [.presenceTTL (presenceMembers s.store room)])
  | .presenceTTL pp => some (s, [.presenceSalt (presenceTTL pp (s.store.roomTTL pp.room))])
  | .presenceSalt pp =>
    some (s, [.broadcastPeers pp.room
      (presenceEnvelope rt (presenceSalt pp (s.store.roomSalt pp.room)) now) ""])
  | .broadcastPeers room env exclude =>
    some (s, [.broadcastConns ((s.store.peers room).erase exclude) env])
  | .broadcastConns peers env =>
    if Enumerates order (peers ∩ s.conns) then
      some (s, order.map fun p => .enqueue p (signEnvelope rt env))
    else none
  | .signalTarget env =>
    some (s,
      if env.toPeer ∈ s.conns ∧ s.inRoom env.toPeer env.room = true then [.enqueue env.toPeer env]
      else [.forward env])
  | .forward _ => some (s, [])
  -- operations on queues and on the handler itself
  | .enqueue _ _ | .closeSend _ | .deferCleanup _ | .handlerReturn _ => none

/-! ### The process -/

/-- Where the handler of a connection is. Its cleanup is deferred only after it
has registered the peer and sent it its ID. -/
inductive Phase
  | absent | starting | running | cleanup | returned
  deriving DecidableEq

structure Process where
  server : Server
  /-- How often a peer's queue has been closed. -/
  closes : PeerID → ℕ
  /-- Something was sent on a closed queue. -/
  sentClosed : Bool
  phase : PeerID → Phase
  /-- The goroutines there have been. -/
  tasks : Finset Task
  code : Task → List Op
  crashed : Bool

def newProcess : Process where
  server := newServer
  closes := fun _ => 0
  sentClosed := false
  phase := fun _ => .absent
  tasks := ∅
  code := fun _ => []
  crashed := false

namespace Process

def setCode (s : Process) (t : Task) (code : List Op) : Process :=
  { s with code := Function.update s.code t code, tasks := insert t s.tasks }

def setPhase (s : Process) (p : PeerID) (phase : Phase) : Process :=
  { s with phase := Function.update s.phase p phase }

/-- A goroutine panics. -/
def panics (s : Process) : Task → Process
  | .handler p =>
    if s.phase p = .running then (s.setPhase p .cleanup).setCode (.handler p) (cleanupCode p)
    else (s.setPhase p .returned).setCode (.handler p) []
  | .http n => s.setCode (.http n) []
  | _ => { s with crashed := true }

/-- `close(p.sendCh)`. -/
def close (s : Process) (p : PeerID) : Process :=
  { s with closes := Function.update s.closes p (s.closes p + 1) }

end Process

/-- A goroutine makes its next operation. -/
def runOp (rt : GoRuntime) (s : Process) (t : Task) (rest : List Op) (order : List String)
    (now : Time) : Op → Option Process
  | .enqueue p _ =>
    if s.closes p = 0 then some (s.setCode t rest)
    else some ({ s with sentClosed := true }.panics t)
  | .closeSend p =>
    if s.closes p = 0 then some ((s.close p).setCode t rest) else some ((s.close p).panics t)
  | .deferCleanup p => some ((s.setPhase p .running).setCode t rest)
  | .handlerReturn p => some ((s.setPhase p .returned).setCode t rest)
  | op =>
    (execute rt s.server order now op).map fun res =>
      { s with server := res.1 }.setCode t (res.2 ++ rest)

inductive Action
  | connect (p : PeerID) (now : Time)
  | frame (p : PeerID) (frame : Option Envelope) (now : Time)
  | readError (p : PeerID)
  | cleanupRequest (n : ℕ) (room : RoomName)
  | broadcastRequest (n : ℕ) (room : RoomName) (type : MessageType) (payload : String) (now : Time)
  | tick
  | relayed (i : ℕ) (env : Envelope)
  | run (t : Task) (order : List String) (now : Time)

def workerEnvelope (room : RoomName) (type : MessageType) (payload : String) (now : Time) :
    Envelope where
  type := type
  room := room
  payload := payload
  id := "__worker__"
  timestamp := unixMilli now

/-- What is asked of a goroutine that has nothing to do, or the next operation of
one that has. -/
def act (rt : GoRuntime) (s : Process) : Action → Option Process
  | .connect p now =>
    if s.phase p = .absent then
      some ((s.setPhase p .starting).setCode (.handler p)
        [.register p, .enqueue p (welcomeEnvelope p now), .deferCleanup p])
    else none
  | .frame p frame now =>
    if s.phase p = .running ∧ s.code (.handler p) = [] then
      some (s.setCode (.handler p) (frameCode rt p frame now))
    else none
  | .readError p =>
    if s.phase p = .running ∧ s.code (.handler p) = [] then
      some ((s.setPhase p .cleanup).setCode (.handler p) (cleanupCode p))
    else none
  | .cleanupRequest n room =>
    if s.code (.http n) = [] then
      some (s.setCode (.http n) [.roomPeers room, .sweep room "__cleanup__"])
    else none
  | .broadcastRequest n room type payload now =>
    if s.code (.http n) = [] ∧ (type = .error ∨ type = .presence) then
      some (s.setCode (.http n) [.broadcastPeers room (workerEnvelope room type payload now) ""])
    else none
  | .tick => if s.code .ttlLoop = [] then some (s.setCode .ttlLoop [.expiredRooms]) else none
  | .relayed i env =>
    if s.code (.relayReader i) = [] then
      some (s.setCode (.relayReader i) [.broadcastPeers env.room env env.id])
    else none
  | .run t order now =>
    match s.code t with
    | [] => none
    | op :: rest => runOp rt s t rest order now op

/-- The transition system of a gateway process. -/
def processStep (rt : GoRuntime) (s : Process) (a : Action) : Option Process :=
  if s.crashed = true then none else act rt s a

/-! ### Schedules -/

/-- The operations of a goroutine one after the other, with no loop over a map of
more than one key. -/
def runs (t : Task) (orders : List (List String)) : List Action :=
  orders.map fun order => .run t order 0

def joinEnvelope (room : RoomName) : Envelope := { type := .join, room := room }

/-- A peer joins a room that is empty. -/
def joinEmpty (p : PeerID) (room : RoomName) : List Action :=
  .frame p (some (joinEnvelope room)) 0 :: runs (.handler p)
    [[], [], [], [], [], [], [], [], [], [p], [], [], [], []]

def connectAndJoin (p : PeerID) (room : RoomName) : List Action :=
  .connect p 0 :: runs (.handler p) [[], [], []] ++ joinEmpty p room

/-- A peer joins a room and disconnects. -/
def joinAndDisconnect : List Action :=
  connectAndJoin "a" "r" ++ .readError "a" :: runs (.handler "a")
    [[], [], [], ["r"], [], [], [], [], [], [], [], [], []]

end TrapChat.Gateway
