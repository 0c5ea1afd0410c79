import TrapChat.Library.JsonRecord
import TrapChat.Storage.Store

/-!
The wire format between clients, gateway and relay as the Go side declares it.
Fields the source marks `omitempty` are strings whose empty value is left out of
the JSON text.
-/

namespace TrapChat.Protocol

open Storage

/-- The set of envelope types. The Go type is open: a client may put any string
there, which is `other`. -/
inductive MessageType
  | join | leave | chat | media | presence | error | typing | receipt | keyRotation | signal
  | welcome | roomList | callOffer | callAnswer | callEnd
  | other (name : String)
  deriving DecidableEq, Repr

/-- The text of a type on the wire. -/
def MessageType.wire : MessageType → String
  | .join => "join"
  | .leave => "leave"
  | .chat => "chat"
  | .media => "media"
  | .presence => "presence"
  | .error => "error"
  | .typing => "typing"
  | .receipt => "receipt"
  | .keyRotation => "key_rotation"
  | .signal => "signal"
  | .welcome => "welcome"
  | .roomList => "room_list"
  | .callOffer => "call_offer"
  | .callAnswer => "call_answer"
  | .callEnd => "call_end"
  | .other name => name

def MessageType.ofWire (name : String) : MessageType :=
  if name = "join" then .join
  else if name = "leave" then .leave
  else if name = "chat" then .chat
  else if name = "media" then .media
  else if name = "presence" then .presence
  else if name = "error" then .error
  else if name = "typing" then .typing
  else if name = "receipt" then .receipt
  else if name = "key_rotation" then .keyRotation
  else if name = "signal" then .signal
  else if name = "welcome" then .welcome
  else if name = "room_list" then .roomList
  else if name = "call_offer" then .callOffer
  else if name = "call_answer" then .callAnswer
  else if name = "call_end" then .callEnd
  else .other name

/-- The most rooms one peer can be in at a time. -/
def maxRoomsPerPeer : ℕ := 5

structure Envelope where
  id : String := ""
  msgId : String := ""
  type : MessageType
  room : String := ""
  payload : String := ""
  timestamp : ℤ := 0
  sig : String := ""
  toPeer : String := ""
  deriving DecidableEq, Repr

/-- The JSON object of an envelope. Its text is `marshal`'s. -/
def Envelope.record (env : Envelope) : JsonRecord.Record :=
  ("id", .str env.id) :: JsonRecord.strField "msgId" env.msgId ++
    ("type", .str env.type.wire) :: ("room", .str env.room) ::
      JsonRecord.strField "payload" env.payload ++ ("timestamp", .int env.timestamp) ::
        JsonRecord.strField "sig" env.sig ++ JsonRecord.strField "to" env.toPeer

/-- `json.Marshal`, which escapes the characters of HTML. -/
def Envelope.marshal (env : Envelope) : String := JsonRecord.render true env.record

/-- A string field of an object: the last value of its key, empty without one. -/
def stringField (r : JsonRecord.Record) (key : String) : Option String :=
  match (r.values key).getLast? with
  | none => some ""
  | some (.str s) => some s
  | some (.int _) => none

/-- An `int64` field of an object. -/
def int64Field (r : JsonRecord.Record) (key : String) : Option ℤ :=
  match (r.values key).getLast? with
  | none => some 0
  | some (.int n) => if -2 ^ 63 ≤ n ∧ n < 2 ^ 63 then some n else none
  | some (.str _) => none

def Envelope.ofRecord (r : JsonRecord.Record) : Option Envelope := do
  let id ← stringField r "id"
  let msgId ← stringField r "msgId"
  let type ← stringField r "type"
  let room ← stringField r "room"
  let payload ← stringField r "payload"
  let timestamp ← int64Field r "timestamp"
  let sig ← stringField r "sig"
  let toPeer ← stringField r "to"
  some ⟨id, msgId, .ofWire type, room, payload, timestamp, sig, toPeer⟩

/-- `json.Unmarshal` into an envelope. -/
def Envelope.unmarshal (text : String) : Option Envelope :=
  (JsonRecord.parse text).bind Envelope.ofRecord

/-- Room occupancy, with TTL data and salt where the room has them. -/
structure PresencePayload where
  room : String
  count : ℕ
  peers : Finmap (fun _ : PeerID => String)
  ttlSeconds : ℤ := 0
  expiresAt : ℤ := 0
  salt : String := ""
  deriving DecidableEq

/-- Optional data of a join. -/
structure JoinPayload where
  nickname : String := ""
  ttlSeconds : ℤ := 0
  salt : String := ""
  deriving DecidableEq, Repr

end TrapChat.Protocol
