import TrapChat.Gateway.Server
import TrapChat.Library.Base64
import TrapChat.Protocol.Envelope

/-!
The gateway's handlers, each run to completion: one client message, the deferred
cleanup of a connection, one `disconnectAllPeers` call, one message from a relay.
A handler returns the new state and, in order, what it sends.

What the source takes from Go's standard library is in `GoRuntime`: JSON, HMAC
and the Unicode categories of the room-name pattern. Go leaves the order of a map
iteration open; an event carries the order its loop takes.
-/

namespace TrapChat.Gateway

open Storage Protocol

structure GoRuntime where
  /-- `\p{L}` -/
  isLetter : Char → Bool
  /-- `\p{N}` -/
  isNumber : Char → Bool
  /-- The hex digits of `SignHMAC` under the server key. -/
  signHMAC : List String → String
  marshalPresence : PresencePayload → String
  marshalRoomList : Finset RoomName → String
  /-- The join payload of a JSON text. Errors are ignored and leave what could
  be read. -/
  unmarshalJoin : String → JoinPayload

/-- What a handler sends: an envelope enqueued to each of some peers, an
envelope written to the relay of its room, or a connection closed. The envelope
of a presence comes with the data that its payload is the text of. -/
inductive Output
  | send (targets : Finset PeerID) (env : Envelope)
  | presence (targets : Finset PeerID) (env : Envelope) (pp : PresencePayload)
  | forward (env : Envelope)
  | close (p : PeerID)
  deriving DecidableEq

def unixMilli (now : Time) : ℤ := (now / 1000000 : ℕ)

def maxRooms : ℕ := 10000

def maxRoomNameLen : ℕ := 64

/-- The reason a room name is refused, empty for a valid one. -/
def validateRoomName (rt : GoRuntime) (name : String) : String :=
  if name = "" then "room name is required"
  else if name.length > maxRoomNameLen then "room name exceeds 64 characters"
  else if name.toList.all fun c =>
      rt.isLetter c || rt.isNumber c || c = ' ' || c = '_' || c = '-' || c = '.' then ""
  else "room name contains invalid characters"

/-- The characters that are named one by one. -/
def roomPunctuation : List Char := [' ', '_', '-', '.']

theorem validateRoomName_eq_empty_iff {rt : GoRuntime} {name : String} :
    validateRoomName rt name = "" ↔ name ≠ "" ∧ name.length ≤ maxRoomNameLen ∧
      ∀ c ∈ name.toList,
        rt.isLetter c = true ∨ rt.isNumber c = true ∨ c ∈ roomPunctuation := by
  rw [validateRoomName]
  split
  · next hempty => exact iff_of_false (by decide) fun h => h.1 hempty
  · next hnonempty =>
    split
    · next hlong => exact iff_of_false (by decide) fun h => Nat.not_lt.mpr h.2.1 hlong
    · next hshort =>
      rw [and_iff_right hnonempty, and_iff_right (Nat.not_lt.mp hshort)]
      split
      · next hchars => simpa [roomPunctuation, or_assoc] using hchars
      · next hchars =>
        refine iff_of_false (by decide) fun h => hchars ?_
        simpa [roomPunctuation, or_assoc] using h

/-- `unicode.IsSpace`. -/
def isSpace (c : Char) : Bool :=
  (9 ≤ c.toNat && c.toNat ≤ 13) || c.toNat = 0x20 || c.toNat = 0x85 || c.toNat = 0xA0 ||
    c.toNat = 0x1680 || (0x2000 ≤ c.toNat && c.toNat ≤ 0x200A) || c.toNat = 0x2028 ||
    c.toNat = 0x2029 || c.toNat = 0x202F || c.toNat = 0x205F || c.toNat = 0x3000

def trimSpace (cs : List Char) : List Char :=
  ((cs.dropWhile isSpace).reverse.dropWhile isSpace).reverse

/-- Drops control characters, keeps 32 of the rest and trims. -/
def sanitizeNickname (nick : String) : String :=
  String.ofList (trimSpace ((nick.toList.filter fun c => !(c.toNat < 32 || c.toNat = 127)).take 32))

/-- The TTL a join asks for, when it is one of the four allowed values. -/
def ttlForJoin (jp : JoinPayload) : ℤ :=
  if jp.ttlSeconds = 900 ∨ jp.ttlSeconds = 3600 ∨ jp.ttlSeconds = 14400 ∨ jp.ttlSeconds = 86400
  then jp.ttlSeconds else 0

def joinPayload (rt : GoRuntime) (payload : String) : JoinPayload :=
  if payload = "" then {} else rt.unmarshalJoin payload

/-- The salt bytes of a join, or the message that refuses it. An absent salt is
the empty one. -/
def decodeSalt (salt : String) : Except String (List UInt8) :=
  if salt = "" then .ok []
  else
    match Base64.decode salt with
    | none => .error "invalid salt encoding"
    | some decoded =>
      if decoded.length ≠ 32 then .error "salt must be exactly 32 bytes" else .ok decoded

/-- The types whose room name is checked before anything else. -/
def MessageType.needsRoom : MessageType → Bool
  | .join | .leave | .chat | .media | .typing | .receipt | .keyRotation | .signal | .callOffer
  | .callAnswer | .callEnd => true
  | _ => false

/-- The types a peer sends to a room it is in. -/
def MessageType.memberOnly : MessageType → Bool
  | .chat | .media | .typing | .receipt | .keyRotation | .signal | .callOffer | .callAnswer
  | .callEnd => true
  | _ => false

/-! ### Sending -/

def errorEnvelope (msg : String) (now : Time) : Envelope :=
  { type := .error, payload := msg, timestamp := unixMilli now }

def sendError (p : PeerID) (msg : String) (now : Time) : Output := .send {p} (errorEnvelope msg now)

def signEnvelope (rt : GoRuntime) (env : Envelope) : Envelope :=
  { env with
    sig := rt.signHMAC [env.id, env.type.wire, env.room, env.payload, toString env.timestamp] }

/-- The members of a room that are registered, less the excluded one. -/
def Server.targets (s : Server) (room : RoomName) (exclude : PeerID) : Finset PeerID :=
  (s.store.peers room).erase exclude ∩ s.conns

def broadcast (rt : GoRuntime) (s : Server) (room : RoomName) (env : Envelope)
    (exclude : PeerID) : Output :=
  .send (s.targets room exclude) (signEnvelope rt env)

def roomListEnvelope (rt : GoRuntime) (rooms : Finset RoomName) (now : Time) : Envelope :=
  { type := .roomList, payload := rt.marshalRoomList rooms, timestamp := unixMilli now }

def sendRoomList (rt : GoRuntime) (s : Server) (p : PeerID) (now : Time) : Output :=
  .send {p} (roomListEnvelope rt (s.roomsOf p) now)

/-- The members in a room's presence data, the first of three reads of the store. -/
def presenceMembers (store : Store) (room : RoomName) : PresencePayload :=
  let peers := store.peersWithNicknames room
  { room := room, count := peers.keys.card, peers := peers }

/-- The TTL data of a room that exists and has a TTL. -/
def presenceTTL (pp : PresencePayload) (ttl : ℤ × Time × Bool) : PresencePayload :=
  if ttl.2.2 = true ∧ ttl.1 > 0 then
    { pp with ttlSeconds := ttl.1, expiresAt := unixMilli (ttl.2.1 + seconds ttl.1.toNat) }
  else pp

def presenceSalt (pp : PresencePayload) (salt : List UInt8) : PresencePayload :=
  if salt = [] then pp else { pp with salt := Base64.encode salt }

def presenceOf (store : Store) (room : RoomName) : PresencePayload :=
  presenceSalt (presenceTTL (presenceMembers store room) (store.roomTTL room))
    (store.roomSalt room)

def presenceEnvelope (rt : GoRuntime) (pp : PresencePayload) (now : Time) : Envelope where
  type := .presence
  room := pp.room
  payload := rt.marshalPresence pp
  timestamp := unixMilli now

def broadcastPresence (rt : GoRuntime) (s : Server) (room : RoomName) (now : Time) : Output :=
  let pp := presenceOf s.store room
  .presence (s.targets room "") (signEnvelope rt (presenceEnvelope rt pp now)) pp

/-- The membership envelope a gateway sends to the relay. -/
def memberEnvelope (type : MessageType) (room : RoomName) (p : PeerID) (now : Time) : Envelope where
  type := type
  room := room
  id := p
  timestamp := unixMilli now

def welcomeEnvelope (p : PeerID) (now : Time) : Envelope :=
  { type := .welcome, id := p, timestamp := unixMilli now }

/-- A client's envelope with the fields the server assigns. -/
def stamp (env : Envelope) (p : PeerID) (now : Time) : Envelope :=
  { env with id := p, timestamp := unixMilli now }

/-! ### Client messages -/

/-- Whether the room limit refuses a join. -/
def Server.roomLimit (s : Server) (room : RoomName) : Prop :=
  s.store.count room = 0 ∧ maxRooms ≤ s.store.roomCount

instance (s : Server) (room : RoomName) : Decidable (s.roomLimit room) :=
  inferInstanceAs (Decidable (_ ∧ _))

/-- Whether the limit on one peer's rooms refuses a join. -/
def Server.peerLimit (s : Server) (p : PeerID) (room : RoomName) : Prop :=
  room ∉ s.roomsOf p ∧ maxRoomsPerPeer ≤ (s.roomsOf p).card

instance (s : Server) (p : PeerID) (room : RoomName) : Decidable (s.peerLimit p room) :=
  inferInstanceAs (Decidable (_ ∧ _))

/-- A join with its payload read. The peer's room set is written before the salt
is checked. -/
def joinRoom (rt : GoRuntime) (s : Server) (p : PeerID) (room : RoomName) (jp : JoinPayload)
    (now : Time) : Server × List Output :=
  if s.roomLimit room then (s, [sendError p "room limit reached — try again later" now])
  else if s.peerLimit p room then (s, [sendError p "max 5 rooms — leave one first" now])
  else
    let s := s.addRoom p room
    match decodeSalt jp.salt with
    | .error msg => (s, [sendError p msg now])
    | .ok salt =>
      let s := s.joinStore room p (ttlForJoin jp) salt now
      let s := s.nickStore room p (sanitizeNickname jp.nickname)
      (s, [broadcastPresence rt s room now, sendRoomList rt s p now,
        .forward (memberEnvelope .join room p now)])

def handleJoin (rt : GoRuntime) (s : Server) (p : PeerID) (env : Envelope) (now : Time) :
    Server × List Output :=
  joinRoom rt s p env.room (joinPayload rt env.payload) now

def leaveRoom (rt : GoRuntime) (s : Server) (p : PeerID) (room : RoomName) (now : Time) :
    Server × List Output :=
  let s := (s.leaveStore room p now).removeRoom p room
  (s, [broadcastPresence rt s room now, sendRoomList rt s p now,
    .forward (memberEnvelope .leave room p now)])

def handleLeave (rt : GoRuntime) (s : Server) (p : PeerID) (env : Envelope) (now : Time) :
    Server × List Output :=
  leaveRoom rt s p env.room now

/-- Chat, media and key rotation: rate-limited, then for members only, to the
room and to the relay. They differ in the text of the refusal. -/
def handleForwarded (refusal : String) (rt : GoRuntime) (s : Server) (p : PeerID) (env : Envelope)
    (now : Time) : Server × List Output :=
  let res := s.rl.allow p now
  let s := { s with rl := res.1 }
  if res.2 = false then (s, [sendError p "rate limit exceeded — slow down" now])
  else if s.inRoom p env.room = false then (s, [sendError p refusal now])
  else
    let env := stamp env p now
    (s, [broadcast rt s env.room env p, .forward env])

def handleChat := handleForwarded "must join a room before sending messages"

def handleKeyRotation := handleForwarded "must join a room before sending key rotation"

/-- Typing indicators stay on this gateway and are dropped beyond their rate. -/
def handleTyping (rt : GoRuntime) (s : Server) (p : PeerID) (env : Envelope) (now : Time) :
    Server × List Output :=
  if s.inRoom p env.room = false then
    (s, [sendError p "must join a room before sending typing" now])
  else
    let res := s.typingRL.allow p now
    let s := { s with typingRL := res.1 }
    if res.2 = false then (s, [])
    else
      let env := stamp env p now
      (s, [broadcast rt s env.room env p])

def handleReceipt (rt : GoRuntime) (s : Server) (p : PeerID) (env : Envelope) (now : Time) :
    Server × List Output :=
  if s.inRoom p env.room = false then
    (s, [sendError p "must join a room before sending receipts" now])
  else
    let env := stamp env p now
    (s, [broadcast rt s env.room env p])

/-- Where a signal goes once it is accepted: to its target when that is here and
in the room, else to the relay; without a target to the room and the relay. -/
def routeSignal (rt : GoRuntime) (s : Server) (p : PeerID) (env : Envelope) : List Output :=
  if env.toPeer ≠ "" then
    if env.toPeer ∈ s.conns ∧ s.inRoom env.toPeer env.room = true then [.send {env.toPeer} env]
    else [.forward env]
  else [broadcast rt s env.room env p, .forward env]

def handleSignal (rt : GoRuntime) (s : Server) (p : PeerID) (env : Envelope) (now : Time) :
    Server × List Output :=
  if s.inRoom p env.room = false then
    (s, [sendError p "must join a room before sending signals" now])
  else if env.type = .signal then
    let res := s.signalRL.allow p now
    let s := { s with signalRL := res.1 }
    if res.2 = false then (s, [])
    else if env.toPeer = "" then (s, [sendError p "signal requires target peer" now])
    else (s, routeSignal rt s p (stamp env p now))
  else (s, routeSignal rt s p (stamp env p now))

/-- The dispatch on the type of a client's message. -/
def handleType (rt : GoRuntime) (s : Server) (p : PeerID) (env : Envelope) (now : Time) :
    Server × List Output :=
  match env.type with
  | .join => handleJoin rt s p env now
  | .leave => handleLeave rt s p env now
  | .chat | .media => handleChat rt s p env now
  | .typing => handleTyping rt s p env now
  | .receipt => handleReceipt rt s p env now
  | .keyRotation => handleKeyRotation rt s p env now
  | .signal | .callOffer | .callAnswer | .callEnd => handleSignal rt s p env now
  | .presence => (s, [])
  | t => (s, [sendError p ("unknown message type: " ++ t.wire) now])

/-- One turn of the read loop; `none` is a frame that is not an envelope. -/
def handleFrame (rt : GoRuntime) (s : Server) (p : PeerID) (frame : Option Envelope) (now : Time) :
    Server × List Output :=
  match frame with
  | none => (s, [sendError p "invalid message format" now])
  | some env =>
    if MessageType.needsRoom env.type = true ∧ validateRoomName rt env.room ≠ "" then
      (s, [sendError p (validateRoomName rt env.room) now])
    else handleType rt s p env now

/-! ### Connections and rooms ending -/

/-- The loop of the deferred cleanup over the rooms it read. -/
def leaveRooms (rt : GoRuntime) (p : PeerID) (now : Time) :
    List RoomName → Server → Server × List Output
  | [], s => (s, [])
  | room :: rest, s =>
    let s := s.leaveStore room p now
    let res := leaveRooms rt p now rest s
    (res.1, broadcastPresence rt s room now ::
      .forward (memberEnvelope .leave room p now) :: res.2)

/-- The deferred cleanup of a connection. -/
def handleDisconnect (rt : GoRuntime) (s : Server) (p : PeerID) (order : List RoomName)
    (now : Time) : Server × List Output :=
  let s := { s with
    rl := s.rl.remove p, typingRL := s.typingRL.remove p, signalRL := s.signalRL.remove p }
  let res := leaveRooms rt p now order (s.dropPeer p)
  (res.1, res.2 ++ [.close p])

/-- The loop of `disconnectAllPeers` over the peers it read. -/
def disconnectPeers (room : RoomName) (now : Time) :
    List PeerID → Server → Server × List Output
  | [], s => (s, [])
  | p :: rest, s =>
    let closes := if s.lastRoom room p then [Output.close p] else []
    let res := disconnectPeers room now rest ((s.detach room p).leaveStore room p now)
    (res.1, closes ++ res.2)

/-- `disconnectAllPeers` and the `Leave` of a peer that does not exist, which
both its callers make after it. -/
def cleanupRoom (s : Server) (room : RoomName) (dummy : PeerID) (order : List PeerID)
    (now : Time) : Server × List Output :=
  let res := disconnectPeers room now order s
  (res.1.leaveStore room dummy now, res.2)

def expiredPayload : String := "\x7b\"text\":\"room expired — TTL reached\",\"encrypted\":false\x7d"

def expiredEnvelope (room : RoomName) (now : Time) : Envelope where
  type := .chat
  room := room
  payload := expiredPayload
  id := "__system__"
  timestamp := unixMilli now

/-- The body of the TTL loop for one room. -/
def expireRoom (rt : GoRuntime) (s : Server) (room : RoomName) (order : List PeerID)
    (now : Time) : Server × List Output :=
  let res := cleanupRoom s room "__ttl_cleanup__" order now
  (res.1, broadcast rt s room (expiredEnvelope room now) "" :: res.2)

/-- A message read from a relay. -/
def handleRelayMessage (rt : GoRuntime) (s : Server) (env : Envelope) : Server × List Output :=
  (s, [broadcast rt s env.room env env.id])

/-! ### Runs -/

inductive Event
  | connect (p : PeerID) (now : Time)
  | frame (p : PeerID) (frame : Option Envelope) (now : Time)
  | disconnect (p : PeerID) (order : List RoomName) (now : Time)
  | cleanup (room : RoomName) (order : List PeerID) (now : Time)
  | expire (room : RoomName) (order : List PeerID) (now : Time)
  | relayed (env : Envelope)

/-- `order` lists a set, each element once. -/
def Enumerates {α : Type} [DecidableEq α] (order : List α) (s : Finset α) : Prop :=
  order.Nodup ∧ order.toFinset = s

instance {α : Type} [DecidableEq α] (order : List α) (s : Finset α) :
    Decidable (Enumerates order s) := inferInstanceAs (Decidable (_ ∧ _))

theorem Enumerates.mem_iff {α : Type} [DecidableEq α] {order : List α} {s : Finset α}
    (h : Enumerates order s) {a : α} : a ∈ order ↔ a ∈ s := by
  rw [← h.2, List.mem_toFinset]

/-- One event, run to completion. A new connection has an unused ID, frames come
from registered peers, and a loop over a map visits each of its keys once. -/
def handle (rt : GoRuntime) (s : Server) : Event → Option (Server × List Output)
  | .connect p now =>
    if p ∈ s.issued then none
    else some (s.register p, [.send {p} (welcomeEnvelope p now)])
  | .frame p frame now => if p ∈ s.conns then some (handleFrame rt s p frame now) else none
  | .disconnect p order now =>
    if p ∈ s.issued ∧ Enumerates order (s.roomsOf p) then some (handleDisconnect rt s p order now)
    else none
  | .cleanup room order now =>
    if Enumerates order (s.store.peers room) then some (cleanupRoom s room "__cleanup__" order now)
    else none
  | .expire room order now =>
    if Enumerates order (s.store.peers room) then some (expireRoom rt s room order now) else none
  | .relayed env => some (handleRelayMessage rt s env)

/-- The transition system of one gateway. -/
def step (rt : GoRuntime) (s : Server) (e : Event) : Option Server := (handle rt s e).map Prod.fst

/-- A runtime for evaluating handlers: the letters and digits of ASCII, and one
join payload that is read as given. Its digests and JSON texts are blank. -/
def asciiRuntime (text : String) (jp : JoinPayload) : GoRuntime where
  isLetter := Char.isAlpha
  isNumber := Char.isDigit
  signHMAC := fun _ => ""
  marshalPresence := fun _ => ""
  marshalRoomList := fun _ => ""
  unmarshalJoin := fun t => if t = text then jp else {}

end TrapChat.Gateway
