import TrapChat.Network.RoomNames
import TrapChat.Relay.Addressing

/-!
The gateway and the relay declare the wire format separately. This file follows
an envelope that the gateway's client handler forwards: through the relay's
deserialisation, validation and dispatch, and for what is fanned out back into a
gateway. It says which envelopes arrive as they were sent.
-/

namespace TrapChat.Network

open Gateway Protocol

/-! ### What the gateway forwards -/

/-- The envelopes that `handleFrame` forwards: what the server assigned, and the
checks they have passed. -/
structure Forwarded (rt : GoRuntime) (p : Storage.PeerID) (now : Storage.Time) (env : Envelope) :
    Prop where
  id : env.id = p
  room : validateRoomName rt env.room = ""
  timestamp : env.timestamp = unixMilli now
  type : env.type = .join ∧ env.payload = "" ∨ env.type = .leave ∧ env.payload = "" ∨
    env.type = .chat ∨ env.type = .media ∨ env.type = .keyRotation ∨ env.type = .signal ∨
    env.type = .callOffer ∨ env.type = .callAnswer ∨ env.type = .callEnd

section
variable {rt : GoRuntime} {s : Server} {p : Storage.PeerID} {env out : Envelope}
  {now : Storage.Time}

theorem forward_handleJoin (h : Output.forward out ∈ (handleJoin rt s p env now).2) :
    out = memberEnvelope .join env.room p now := by
  unfold handleJoin joinRoom at h
  split at h
  · simp [sendError] at h
  split at h
  · simp [sendError] at h
  dsimp only at h
  split at h
  · simp [sendError] at h
  · simpa [broadcastPresence, broadcast, sendRoomList] using h

theorem forward_handleLeave (h : Output.forward out ∈ (handleLeave rt s p env now).2) :
    out = memberEnvelope .leave env.room p now := by
  simpa [handleLeave, leaveRoom, broadcastPresence, broadcast, sendRoomList] using h

theorem forward_handleForwarded {refusal : String}
    (h : Output.forward out ∈ (handleForwarded refusal rt s p env now).2) :
    out = stamp env p now := by
  unfold handleForwarded at h
  dsimp only at h
  split at h
  · simp [sendError] at h
  split at h
  · simp [sendError] at h
  · simpa [broadcast] using h

theorem forward_routeSignal (h : Output.forward out ∈ routeSignal rt s p env) : out = env := by
  unfold routeSignal at h
  split at h
  · split at h
    · simp at h
    · simpa using h
  · simpa [broadcast] using h

theorem forward_handleSignal (h : Output.forward out ∈ (handleSignal rt s p env now).2) :
    out = stamp env p now := by
  unfold handleSignal at h
  split at h
  · simp [sendError] at h
  split at h
  · dsimp only at h
    split at h
    · simp at h
    split at h
    · simp [sendError] at h
    · exact forward_routeSignal h
  · exact forward_routeSignal h

theorem not_forward_handleTyping : Output.forward out ∉ (handleTyping rt s p env now).2 := by
  unfold handleTyping
  split
  · simp [sendError]
  · dsimp only
    split <;> simp [broadcast]

theorem not_forward_handleReceipt : Output.forward out ∉ (handleReceipt rt s p env now).2 := by
  unfold handleReceipt
  split <;> simp [sendError, broadcast]

theorem forwarded_stamp (hroom : validateRoomName rt env.room = "")
    (htype : env.type = .chat ∨ env.type = .media ∨ env.type = .keyRotation ∨
      env.type = .signal ∨ env.type = .callOffer ∨ env.type = .callAnswer ∨ env.type = .callEnd) :
    Forwarded rt p now (stamp env p now) :=
  ⟨rfl, hroom, rfl, .inr (.inr htype)⟩

/-- **What is forwarded.** -/
theorem forwarded_of_mem {frame : Option Envelope}
    (h : Output.forward out ∈ (handleFrame rt s p frame now).2) : Forwarded rt p now out := by
  cases frame with
  | none => simp [handleFrame, sendError] at h
  | some env =>
      unfold handleFrame at h
      dsimp only at h
      split at h
      · simp [sendError] at h
      rename_i hcheck
      have hroom : MessageType.needsRoom env.type = true → validateRoomName rt env.room = "" :=
        fun hneeds => by_contra fun hne => hcheck ⟨hneeds, hne⟩
      unfold handleType at h
      split at h
      case h_1 htype =>
        rw [forward_handleJoin h]
        exact ⟨rfl, hroom (by rw [htype]; rfl), rfl, .inl ⟨rfl, rfl⟩⟩
      case h_2 htype =>
        rw [forward_handleLeave h]
        exact ⟨rfl, hroom (by rw [htype]; rfl), rfl, .inr (.inl ⟨rfl, rfl⟩)⟩
      case h_3 htype =>
        rw [forward_handleForwarded h]
        exact forwarded_stamp (hroom (by rw [htype]; rfl)) (by simp [htype])
      case h_4 htype =>
        rw [forward_handleForwarded h]
        exact forwarded_stamp (hroom (by rw [htype]; rfl)) (by simp [htype])
      case h_5 => exact absurd h not_forward_handleTyping
      case h_6 => exact absurd h not_forward_handleReceipt
      case h_7 htype =>
        rw [forward_handleForwarded h]
        exact forwarded_stamp (hroom (by rw [htype]; rfl)) (by simp [htype])
      case h_8 htype =>
        rw [forward_handleSignal h]
        exact forwarded_stamp (hroom (by rw [htype]; rfl)) (by simp [htype])
      case h_9 htype =>
        rw [forward_handleSignal h]
        exact forwarded_stamp (hroom (by rw [htype]; rfl)) (by simp [htype])
      case h_10 htype =>
        rw [forward_handleSignal h]
        exact forwarded_stamp (hroom (by rw [htype]; rfl)) (by simp [htype])
      case h_11 htype =>
        rw [forward_handleSignal h]
        exact forwarded_stamp (hroom (by rw [htype]; rfl)) (by simp [htype])
      all_goals simp [sendError] at h

end

/-! ### From one schema into the other -/

/-- The relay's reading of an envelope's JSON text. -/
theorem ofRecord_record (fresh : String) (env : Envelope) :
    Relay.Message.ofRecord fresh env.record =
      (Relay.MessageType.ofWire env.type.wire).bind fun t =>
        if 0 ≤ env.timestamp ∧ env.timestamp < 2 ^ 64 then
          some ⟨env.id, t, env.room, if env.payload = "" then none else some env.payload,
            env.timestamp.toNat⟩
        else none := by
  have hid : Relay.stringField env.record "id" = some (some env.id) := by
    simp [Relay.stringField, Envelope.record, JsonRecord.values_append, JsonRecord.values_cons,
      JsonRecord.values_strField]
  have htype : Relay.stringField env.record "type" = some (some env.type.wire) := by
    simp [Relay.stringField, Envelope.record, JsonRecord.values_append, JsonRecord.values_cons,
      JsonRecord.values_strField]
  have hroom : Relay.stringField env.record "room" = some (some env.room) := by
    simp [Relay.stringField, Envelope.record, JsonRecord.values_append, JsonRecord.values_cons,
      JsonRecord.values_strField]
  have hpayload : Relay.stringField env.record "payload" =
      some (if env.payload = "" then none else some env.payload) := by
    by_cases hp : env.payload = ""
    · simp [Relay.stringField, Envelope.record, JsonRecord.values_append, JsonRecord.values_cons,
        JsonRecord.values_strField, hp]
    · simp [Relay.stringField, Envelope.record, JsonRecord.values_append, JsonRecord.values_cons,
        JsonRecord.values_strField, hp]
  have htimestamp : Relay.u64Field env.record "timestamp" =
      if 0 ≤ env.timestamp ∧ env.timestamp < 2 ^ 64 then some env.timestamp.toNat else none := by
    simp [Relay.u64Field, Envelope.record, JsonRecord.values_append, JsonRecord.values_cons,
      JsonRecord.values_strField]
  simp only [Relay.Message.ofRecord, hid, htype, hroom, hpayload, htimestamp]
  cases hwire : Relay.MessageType.ofWire env.type.wire with
  | none => simp [hwire]
  | some t =>
      simp only [Option.bind_eq_bind, Option.bind_some, hwire, Option.getD_some]
      by_cases ht : 0 ≤ env.timestamp ∧ env.timestamp < 2 ^ 64
      · rw [if_pos ht, if_pos ht, Option.bind_some]
      · rw [if_neg ht, if_neg ht, Option.bind_none]

/-- The gateway's reading of a message's JSON object. -/
theorem ofRecord_message (m : Relay.Message) :
    Envelope.ofRecord m.record =
      if m.timestamp < 2 ^ 63 then
        some { id := m.id, type := .ofWire m.msgType.wire, room := m.room,
               payload := m.payload.getD "", timestamp := m.timestamp }
      else none := by
  obtain ⟨id, t, room, payload, timestamp⟩ := m
  have hmin : -9223372036854775808 ≤ (timestamp : ℤ) := by omega
  by_cases htime : timestamp < 9223372036854775808
  · cases payload <;> simp [Envelope.ofRecord, Relay.Message.record, stringField, int64Field,
      JsonRecord.values_cons, hmin, htime]
  · cases payload <;> simp [Envelope.ofRecord, Relay.Message.record, stringField, int64Field,
      JsonRecord.values_cons, htime]

/-- The gateway's reading of a message's JSON text. -/
theorem unmarshal_serialize (m : Relay.Message) (htime : m.timestamp < 2 ^ 63) :
    Envelope.unmarshal m.serialize =
      some { id := m.id, type := .ofWire m.msgType.wire, room := m.room,
             payload := m.payload.getD "", timestamp := m.timestamp } := by
  rw [Envelope.unmarshal, Relay.Message.serialize, JsonRecord.parse_render, Option.bind_some,
    ofRecord_message, if_pos htime]

/-- What the gateway reads of a message, if anything, is what the message says. -/
theorem unmarshal_serialize_some {m : Relay.Message} {env : Envelope}
    (h : Envelope.unmarshal m.serialize = some env) :
    env = { id := m.id, type := .ofWire m.msgType.wire, room := m.room,
            payload := m.payload.getD "", timestamp := m.timestamp } := by
  rw [Envelope.unmarshal, Relay.Message.serialize, JsonRecord.parse_render, Option.bind_some,
    ofRecord_message] at h
  exact (Option.some.inj (Option.ite_none_right_eq_some.mp h).2).symm

/-! ### Agreement -/

/-- The content of an envelope that the relay path is to preserve. -/
structure SameContent (env env' : Envelope) : Prop where
  id : env'.id = env.id
  msgId : env'.msgId = env.msgId
  type : env'.type = env.type
  room : env'.room = env.room
  payload : env'.payload = env.payload
  toPeer : env'.toPeer = env.toPeer

/-- The relay accepts an envelope's text, and passes on to the connection's room
what a gateway decodes to the same content. Joins and leaves only have to be
accepted. -/
structure WireAgreement (rt : Relay.RustRuntime) (c : Relay.ConnId) (fresh : String)
    (relayNow : ℕ) (env : Envelope) : Prop where
  accepted : ∃ m, Relay.Message.deserialize fresh env.marshal = some m ∧
    Relay.refusal rt c m = none
  passed : env.type ≠ .join → env.type ≠ .leave → ∀ (rs : Relay.State) (room : String) refuse,
    rs.current c = some room → (rs.rooms.lookup room).isSome = true →
      ∃ targets m env', Relay.Output.fanOut targets m ∈ (Relay.handleMessage rt rs c
          (Relay.Message.deserialize fresh env.marshal) refuse relayNow).2 ∧
        Envelope.unmarshal m.serialize = some env' ∧ SameContent env env'

/-- What both schemas can carry: a frame within the relay's limit that is a join
or a leave, or data with a payload within its limit and neither a message ID nor
a target. -/
def Carried (env : Envelope) : Prop :=
  env.marshal.utf8ByteSize ≤ Relay.maxMessageBytes ∧
    (env.type = .join ∨ env.type = .leave ∨
      (env.type = .chat ∨ env.type = .media ∨ env.type = .keyRotation) ∧ env.payload ≠ "" ∧
        env.payload.utf8ByteSize ≤ Relay.maxPayloadBytes ∧ env.msgId = "" ∧ env.toPeer = "")

/-- The clocks of the two services, in milliseconds, fit their signed types. -/
def ClocksFit (now : Storage.Time) (relayNow : ℕ) : Prop :=
  unixMilli now < 2 ^ 63 ∧ relayNow < 2 ^ 63

/-- Every room name the gateway accepts the relay accepts, since a letter or a
number is alphanumeric. -/
theorem validateRoomName_relay {goRt : GoRuntime} {rt : Relay.RustRuntime}
    (hunicode : ∀ ch, goRt.isLetter ch || goRt.isNumber ch → rt.isAlphanumeric ch = true)
    {room : String} (h : validateRoomName goRt room = "") :
    room ≠ "" ∧ Relay.validateRoomName rt room = none := by
  obtain ⟨hne, hlength, hchars⟩ := validateRoomName_eq_empty_iff.mp h
  refine ⟨hne, relay_validateRoomName_eq_none_iff.mpr ⟨hne, hlength, fun ch hch => ?_⟩⟩
  obtain hletter | hnumber | hpunctuation := hchars ch hch
  · exact .inl (hunicode ch (by rw [hletter, Bool.true_or]))
  · exact .inl (hunicode ch (by rw [hnumber, Bool.or_true]))
  · exact .inr hpunctuation

/-- The message the relay reads from a forwarded envelope. -/
def relayed (env : Envelope) (t : Relay.MessageType) : Relay.Message :=
  ⟨env.id, t, env.room, if env.payload = "" then none else some env.payload, env.timestamp.toNat⟩

theorem deserialize_marshal {goRt : GoRuntime} {p : Storage.PeerID} {now : Storage.Time}
    {env : Envelope} (hfwd : Forwarded goRt p now env) {relayNow : ℕ}
    (hclock : ClocksFit now relayNow) (fresh : String)
    (hsize : env.marshal.utf8ByteSize ≤ Relay.maxMessageBytes) :
    Relay.Message.deserialize fresh env.marshal =
      (Relay.MessageType.ofWire env.type.wire).map (relayed env) := by
  have htime : 0 ≤ env.timestamp ∧ env.timestamp < 2 ^ 64 := by
    have hlt := hclock.1
    have hpos : 0 ≤ unixMilli now := Int.natCast_nonneg _
    rw [hfwd.timestamp]
    omega
  rw [Relay.Message.deserialize, if_neg (by omega), Envelope.marshal, JsonRecord.parse_render,
    Option.bind_some, ofRecord_record, Option.map_eq_bind]
  congr 1
  funext t
  rw [if_pos htime]
  rfl

/-- A message is for the room that its envelope names. -/
theorem room_of_deserialize {fresh : String} {env : Envelope} {m : Relay.Message}
    (h : Relay.Message.deserialize fresh env.marshal = some m) : m.room = env.room := by
  rw [Relay.Message.deserialize] at h
  obtain ⟨-, h⟩ := Option.ite_none_left_eq_some.mp h
  rw [Envelope.marshal, JsonRecord.parse_render, Option.bind_some, ofRecord_record] at h
  obtain ⟨t, -, h⟩ := Option.bind_eq_some_iff.mp h
  obtain ⟨-, h⟩ := Option.ite_none_right_eq_some.mp h
  obtain rfl := Option.some.inj h
  rfl

theorem refusal_relayed {rt : Relay.RustRuntime} (c : Relay.ConnId) {env : Envelope}
    {t : Relay.MessageType} (hroom : env.room ≠ "")
    (hname : Relay.validateRoomName rt env.room = none) :
    Relay.refusal rt c (relayed env t) = none ↔
      (t.needsPayload = true → env.payload ≠ "") ∧
        env.payload.utf8ByteSize ≤ Relay.maxPayloadBytes := by
  have hpayload : (relayed env t).payload.getD "" = env.payload := by
    by_cases hp : env.payload = "" <;> simp [relayed, hp]
  have hvalidate : (relayed env t).validate =
      if t.needsPayload = true ∧ env.payload = "" then .error (.missingField "payload")
      else .ok () := by
    rw [Relay.Message.validate, hpayload]
    exact if_neg hroom
  unfold Relay.refusal
  rw [hvalidate, hpayload]
  by_cases hneeds : t.needsPayload = true ∧ env.payload = ""
  · rw [if_pos hneeds]
    simp [hneeds.1, hneeds.2]
  · rw [if_neg hneeds]
    dsimp only
    have hneeds' : t.needsPayload = true → env.payload ≠ "" := fun h hp => hneeds ⟨h, hp⟩
    by_cases hbig : Relay.maxPayloadBytes < env.payload.utf8ByteSize
    · rw [if_pos hbig]
      simp only [reduceCtorEq, false_iff, not_and]
      omega
    · rw [if_neg hbig]
      have hmap : (Relay.validateRoomName rt (relayed env t).room).map
          (Relay.Output.error c "" ·) = none := by
        rw [show (relayed env t).room = env.room from rfl, hname]
        rfl
      rw [hmap, ite_self]
      exact iff_of_true rfl ⟨hneeds', by omega⟩

/-- In a room, a message the checks let through is fanned out if its type is. -/
theorem fanOut_mem {rt : Relay.RustRuntime} {rs : Relay.State} {c : Relay.ConnId}
    {m : Relay.Message} {refuse : Finset Relay.ConnId} {relayNow : ℕ} {room : String}
    (hroom : rs.current c = some room) (hopen : (rs.rooms.lookup room).isSome = true)
    (href : Relay.refusal rt c m = none) (htype : m.msgType.fansOut = true) :
    ∃ targets, Relay.Output.fanOut targets { m with timestamp := relayNow } ∈
      (Relay.handleMessage rt rs c (some m) refuse relayNow).2 := by
  obtain ⟨r, hr⟩ := Option.isSome_iff_exists.mp hopen
  have hfan : ∀ m', (Relay.fanOut rs c m' refuse).2 = [.fanOut (r.erase c \ refuse) m'] := by
    intro m'
    simp [Relay.fanOut, hroom, hr]
  refine ⟨r.erase c \ refuse, ?_⟩
  simp only [Relay.handleMessage, href]
  unfold Relay.dispatch
  dsimp only
  split <;> first | (rw [hfan]; exact List.mem_singleton_self _) | simp_all [Relay.MessageType.fansOut]

theorem not_fanOut_of_refusal {rt : Relay.RustRuntime} {c : Relay.ConnId} {m m' : Relay.Message}
    {targets : Finset Relay.ConnId} :
    Relay.refusal rt c m ≠ some (.fanOut targets m') := by
  unfold Relay.refusal
  split
  · simp
  · split
    · simp
    · split <;> simp

/-- Nothing is fanned out but the message itself, and only for a type that is. -/
theorem fansOut_of_mem {rt : Relay.RustRuntime} {rs : Relay.State} {c : Relay.ConnId}
    {m m' : Relay.Message} {refuse targets : Finset Relay.ConnId} {relayNow : ℕ}
    (h : Relay.Output.fanOut targets m' ∈
      (Relay.handleMessage rt rs c (some m) refuse relayNow).2) :
    m.msgType.fansOut = true ∧ m' = { m with timestamp := relayNow } := by
  have hpresence : ∀ (rs : Relay.State) room,
      Relay.Output.fanOut targets m' ∉ Relay.broadcastPresence rs room := by
    intro rs room
    unfold Relay.broadcastPresence
    split <;> simp
  have hfan : ∀ m'', Relay.Output.fanOut targets m' ∈ (Relay.fanOut rs c m'' refuse).2 →
      m' = m'' := by
    intro m'' h
    unfold Relay.fanOut at h
    split at h
    · simp at h
    · split at h
      · simp at h
      · simp only [List.mem_singleton, Relay.Output.fanOut.injEq] at h
        exact h.2
  unfold Relay.handleMessage at h
  dsimp only at h
  split at h
  · rename_i reply href
    rw [List.mem_singleton] at h
    exact absurd (h ▸ href) not_fanOut_of_refusal
  unfold Relay.dispatch at h
  dsimp only at h
  split at h
  case h_1 htype =>
    unfold Relay.handleJoin at h
    dsimp only at h
    split at h
    · simp at h
    split at h
    · simp at h
    · exact absurd h (hpresence _ _)
  case h_2 htype => exact ⟨by rw [htype]; rfl, hfan _ h⟩
  case h_3 htype => exact ⟨by rw [htype]; rfl, hfan _ h⟩
  case h_4 htype => exact ⟨by rw [htype]; rfl, hfan _ h⟩
  case h_5 htype => exact ⟨by rw [htype]; rfl, hfan _ h⟩
  case h_6 htype => exact ⟨by rw [htype]; rfl, hfan _ h⟩
  case h_7 htype =>
    unfold Relay.handleLeave at h
    split at h
    · simp at h
    · exact absurd h (hpresence _ _)
  all_goals simp at h

/-- A relay with one connection, in one room. -/
def soloState (c : Relay.ConnId) (room : String) : Relay.State where
  rooms := (∅ : Finmap (fun _ : Relay.RoomName => Finset Relay.ConnId)).insert room {c}
  current := fun _ => some room
  conns := {c}

section
variable {goRt : GoRuntime} {rt : Relay.RustRuntime} {p : Storage.PeerID} {now : Storage.Time}
  {env : Envelope} {c : Relay.ConnId} {fresh : String} {relayNow : ℕ}

/-- A join or a leave carries no payload, so that there is nothing to refuse. -/
theorem wireAgreement_member (hfwd : Forwarded goRt p now env)
    (hunicode : ∀ ch, goRt.isLetter ch || goRt.isNumber ch → rt.isAlphanumeric ch = true)
    (hclock : ClocksFit now relayNow) (hsize : env.marshal.utf8ByteSize ≤ Relay.maxMessageBytes)
    (hmember : env.type = .join ∨ env.type = .leave) :
    WireAgreement rt c fresh relayNow env := by
  obtain ⟨hroom, hname⟩ := validateRoomName_relay hunicode hfwd.room
  have hread := deserialize_marshal hfwd hclock fresh hsize
  have hempty : env.payload = "" := by
    rcases hfwd.type with h | h | h
    · exact h.2
    · exact h.2
    · rcases hmember with hm | hm <;> simp [hm] at h
  have hwire : ∃ t, Relay.MessageType.ofWire env.type.wire = some t ∧ t.needsPayload = false := by
    rcases hmember with hm | hm
    · exact ⟨.join, by rw [hm]; decide, rfl⟩
    · exact ⟨.leave, by rw [hm]; decide, rfl⟩
  obtain ⟨t, ht, hneeds⟩ := hwire
  refine ⟨⟨relayed env t, by rw [hread, ht]; rfl, (refusal_relayed c hroom hname).mpr ?_⟩, ?_⟩
  · exact ⟨fun h => by simp [hneeds] at h, by rw [hempty]; decide⟩
  · exact fun hj hl => (hmember.elim hj hl).elim

theorem wireAgreement_data (hfwd : Forwarded goRt p now env)
    (hunicode : ∀ ch, goRt.isLetter ch || goRt.isNumber ch → rt.isAlphanumeric ch = true)
    (hclock : ClocksFit now relayNow) (hsize : env.marshal.utf8ByteSize ≤ Relay.maxMessageBytes)
    (hdata : env.type = .chat ∨ env.type = .media ∨ env.type = .keyRotation)
    (hpayload : env.payload ≠ "") (hlimit : env.payload.utf8ByteSize ≤ Relay.maxPayloadBytes)
    (hmsgId : env.msgId = "") (hto : env.toPeer = "") :
    WireAgreement rt c fresh relayNow env := by
  obtain ⟨hroom, hname⟩ := validateRoomName_relay hunicode hfwd.room
  have hread := deserialize_marshal hfwd hclock fresh hsize
  have hwire : ∃ t, Relay.MessageType.ofWire env.type.wire = some t ∧ t.fansOut = true ∧
      MessageType.ofWire t.wire = env.type := by
    rcases hdata with hm | hm | hm
    · exact ⟨.chat, by rw [hm]; decide, rfl, by rw [hm]; decide⟩
    · exact ⟨.media, by rw [hm]; decide, rfl, by rw [hm]; decide⟩
    · exact ⟨.keyRotation, by rw [hm]; decide, rfl, by rw [hm]; decide⟩
  obtain ⟨t, ht, hfans, hback⟩ := hwire
  have hread' : Relay.Message.deserialize fresh env.marshal = some (relayed env t) := by
    rw [hread, ht]
    rfl
  have href : Relay.refusal rt c (relayed env t) = none :=
    (refusal_relayed c hroom hname).mpr ⟨fun _ => hpayload, hlimit⟩
  refine ⟨⟨relayed env t, hread', href⟩, fun _ _ rs room refuse hcur hopen => ?_⟩
  obtain ⟨targets, hmem⟩ := fanOut_mem hcur hopen href hfans
  refine ⟨targets, { relayed env t with timestamp := relayNow }, _, by rw [hread']; exact hmem,
    unmarshal_serialize _ hclock.2, ?_⟩
  exact ⟨rfl, hmsgId.symm, hback, rfl, by simp [relayed, hpayload], hto.symm⟩

/-- What the relay accepts and passes on with its content is one of the two. -/
theorem carried_of_wireAgreement (hfwd : Forwarded goRt p now env)
    (hunicode : ∀ ch, goRt.isLetter ch || goRt.isNumber ch → rt.isAlphanumeric ch = true)
    (hclock : ClocksFit now relayNow) (h : WireAgreement rt c fresh relayNow env) :
    Carried env := by
  obtain ⟨m, hread, href⟩ := h.accepted
  have hsize : env.marshal.utf8ByteSize ≤ Relay.maxMessageBytes := by
    by_contra hbig
    rw [Relay.Message.deserialize, if_pos (by omega)] at hread
    cases hread
  have hread' := deserialize_marshal hfwd hclock fresh hsize
  rw [hread'] at hread
  obtain ⟨t, ht, rfl⟩ := Option.map_eq_some_iff.mp hread
  obtain ⟨hroom, hname⟩ := validateRoomName_relay hunicode hfwd.room
  obtain ⟨hneeds, hlimit⟩ := (refusal_relayed c hroom hname).mp href
  refine ⟨hsize, ?_⟩
  by_cases hjoin : env.type = .join
  · exact .inl hjoin
  by_cases hleave : env.type = .leave
  · exact .inr (.inl hleave)
  -- anything else has to come out of a room that its connection is in
  obtain ⟨targets, m', env', hout, hback, hsame⟩ := h.passed hjoin hleave (soloState c env.room)
    env.room ∅ rfl (by simp [soloState])
  rw [hread', ht, Option.map_some] at hout
  obtain ⟨hfans, rfl⟩ := fansOut_of_mem hout
  rw [unmarshal_serialize _ hclock.2] at hback
  obtain rfl := Option.some.inj hback
  have hdata : (env.type = .chat ∨ env.type = .media ∨ env.type = .keyRotation) ∧
      t.needsPayload = true := by
    rcases hfwd.type with h | h | h | h | h | h | h | h | h
    · exact absurd h.1 hjoin
    · exact absurd h.1 hleave
    · rw [h] at ht
      obtain rfl : Relay.MessageType.chat = t := Option.some.inj ht
      exact ⟨.inl h, rfl⟩
    · rw [h] at ht
      obtain rfl : Relay.MessageType.media = t := Option.some.inj ht
      exact ⟨.inr (.inl h), rfl⟩
    · rw [h] at ht
      obtain rfl : Relay.MessageType.keyRotation = t := Option.some.inj ht
      exact ⟨.inr (.inr h), rfl⟩
    · rw [h] at ht
      obtain rfl : Relay.MessageType.signal = t := Option.some.inj ht
      cases hfans
    · rw [h] at ht
      cases ht
    · rw [h] at ht
      cases ht
    · rw [h] at ht
      cases ht
  exact .inr (.inr ⟨hdata.1, hneeds hdata.2, hlimit, hsame.msgId.symm, hsame.toPeer.symm⟩)

/-- **Wire agreement.** An envelope that the gateway forwards for a client
message crosses the relay with its content exactly when both schemas carry it. -/
theorem wireAgreement_iff (goRt : GoRuntime) (rt : Relay.RustRuntime)
    (hunicode : ∀ ch, goRt.isLetter ch || goRt.isNumber ch → rt.isAlphanumeric ch = true)
    (s : Server) (p : Storage.PeerID) (frame : Option Envelope) (now : Storage.Time)
    (relayNow : ℕ) (hclock : ClocksFit now relayNow) (c : Relay.ConnId) (fresh : String)
    (env : Envelope) (hfwd : Output.forward env ∈ (handleFrame goRt s p frame now).2) :
    WireAgreement rt c fresh relayNow env ↔ Carried env := by
  have hforwarded := forwarded_of_mem hfwd
  constructor
  · exact carried_of_wireAgreement hforwarded hunicode hclock
  · rintro ⟨hsize, h | h | ⟨hdata, hpayload, hlimit, hmsgId, hto⟩⟩
    · exact wireAgreement_member hforwarded hunicode hclock hsize (.inl h)
    · exact wireAgreement_member hforwarded hunicode hclock hsize (.inr h)
    · exact wireAgreement_data hforwarded hunicode hclock hsize hdata hpayload hlimit hmsgId hto

end

/-- A server with one peer, in one room. -/
def soloServer : Server :=
  ((newServer.register "p").addRoom "p" "r").joinStore "r" "p" 0 [] 0

theorem asciiRuntime_alphanumeric (ch : Char)
    (h : (asciiRuntime "" {}).isLetter ch || (asciiRuntime "" {}).isNumber ch) :
    Relay.asciiRelay.isAlphanumeric ch = true := h

/-- A chat message from the one peer crosses the relay. -/
theorem wireAgreement_iff_chat : WireAgreement Relay.asciiRelay "g" "fresh" 0
    { id := "p", type := .chat, room := "r", payload := "hi" } :=
  (wireAgreement_iff (asciiRuntime "" {}) Relay.asciiRelay asciiRuntime_alphanumeric soloServer "p"
    (some { type := .chat, room := "r", payload := "hi" }) 0 0 ⟨by decide, by decide⟩ "g" "fresh" _
    (by decide)).mpr ⟨by decide, by decide⟩

/-- A call offer from the one peer, which the relay does not deserialise. -/
theorem callOffer_is_lost : Output.forward
      { id := "p", type := .callOffer, room := "r", payload := "sdp" } ∈
        (handleFrame (asciiRuntime "" {}) soloServer "p"
          (some { type := .callOffer, room := "r", payload := "sdp" }) 0).2 ∧
    ¬WireAgreement Relay.asciiRelay "g" "fresh" 0
      { id := "p", type := .callOffer, room := "r", payload := "sdp" } := by
  refine ⟨by decide, fun h => ?_⟩
  obtain ⟨m, hread, -⟩ := h.accepted
  have hlost : Relay.Message.deserialize "fresh"
      (Envelope.marshal { id := "p", type := .callOffer, room := "r", payload := "sdp" }) = none := by
    decide
  rw [hlost] at hread
  cases hread

end TrapChat.Network
