import TrapChat.Library.JsonRecord

/-!
The wire format as the relay declares it, with its own validation. The enum is
closed: a type it does not list does not deserialise.
-/

namespace TrapChat.Relay

inductive MessageType
  | join | leave | chat | media | presence | error | typing | receipt | keyRotation | signal
  | welcome
  deriving DecidableEq, Repr

/-- The text of a type on the wire, in snake case. -/
def MessageType.wire : MessageType → String
  | .join => "join"
  | .leave => "leave"
  | .chat => "chat"
  | .media => "media"
  | .presence => "presence"
  | .error => "error"
  | .typing => "typing"
  | .receipt => "receipt"
  | .keyRotation => "key_rotation"
  | .signal => "signal"
  | .welcome => "welcome"

def MessageType.ofWire (name : String) : Option MessageType :=
  if name = "join" then some .join
  else if name = "leave" then some .leave
  else if name = "chat" then some .chat
  else if name = "media" then some .media
  else if name = "presence" then some .presence
  else if name = "error" then some .error
  else if name = "typing" then some .typing
  else if name = "receipt" then some .receipt
  else if name = "key_rotation" then some .keyRotation
  else if name = "signal" then some .signal
  else if name = "welcome" then some .welcome
  else none

/-- The name of a type in an error message, as `Debug` prints it. -/
def MessageType.debug : MessageType → String
  | .join => "Join"
  | .leave => "Leave"
  | .chat => "Chat"
  | .media => "Media"
  | .presence => "Presence"
  | .error => "Error"
  | .typing => "Typing"
  | .receipt => "Receipt"
  | .keyRotation => "KeyRotation"
  | .signal => "Signal"
  | .welcome => "Welcome"

theorem MessageType.ofWire_wire (t : MessageType) : ofWire t.wire = some t := by
  cases t <;> rfl

structure Message where
  id : String
  msgType : MessageType
  room : String
  payload : Option String
  timestamp : ℕ
  deriving DecidableEq, Repr

inductive ProtocolError
  | invalidMessageType (type : String)
  | missingField (field : String)

def ProtocolError.text : ProtocolError → String
  | .invalidMessageType type => "invalid message type: " ++ type
  | .missingField field => "missing required field: " ++ field

/-! ### JSON -/

/-- The JSON object of a message; an absent payload is left out. -/
def Message.record (m : Message) : JsonRecord.Record :=
  ("id", .str m.id) :: ("type", .str m.msgType.wire) :: ("room", .str m.room) ::
    (m.payload.map fun p => ("payload", JsonRecord.Scalar.str p)).toList ++
      [("timestamp", .int m.timestamp)]

def Message.serialize (m : Message) : String := JsonRecord.render false m.record

/-- A string field of an object, `none` inside for an absent one. A key that
occurs twice is an error. -/
def stringField (r : JsonRecord.Record) (key : String) : Option (Option String) :=
  match r.values key with
  | [] => some none
  | [.str s] => some (some s)
  | _ => none

/-- A `u64` field that must be there. -/
def u64Field (r : JsonRecord.Record) (key : String) : Option ℕ :=
  match r.values key with
  | [.int n] => if 0 ≤ n ∧ n < 2 ^ 64 then some n.toNat else none
  | _ => none

/-- A message without an ID is given a fresh one. -/
def Message.ofRecord (fresh : String) (r : JsonRecord.Record) : Option Message := do
  let id ← stringField r "id"
  let type ← stringField r "type"
  let msgType ← type.bind MessageType.ofWire
  let room ← (← stringField r "room")
  let payload ← stringField r "payload"
  let timestamp ← u64Field r "timestamp"
  some ⟨id.getD fresh, msgType, room, payload, timestamp⟩

/-- The most bytes a frame may have. -/
def maxMessageBytes : ℕ := 1024 * 1024

/-- A frame as the handler takes it: `none` when it is too long or does not
deserialise. -/
def Message.deserialize (fresh text : String) : Option Message :=
  if maxMessageBytes < text.utf8ByteSize then none
  else (JsonRecord.parse text).bind (Message.ofRecord fresh)

/-! ### Validation -/

/-- The types that must carry a payload. -/
def MessageType.needsPayload : MessageType → Bool
  | .chat | .media | .keyRotation | .signal => true
  | _ => false

/-- Validates a deserialised message for required fields. -/
def Message.validate (m : Message) : Except ProtocolError Unit :=
  if m.room = "" then .error (.missingField "room")
  else if m.msgType.needsPayload = true ∧ m.payload.getD "" = "" then
    .error (.missingField "payload")
  else .ok ()

end TrapChat.Relay
