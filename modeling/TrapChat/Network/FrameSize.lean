import TrapChat.Client.Crypto
import TrapChat.Client.MediaTransfer
import TrapChat.Library.JsonSize
import TrapChat.Protocol.Envelope
import TrapChat.Relay.Handler

/-!
The size of media frames. A chunk is written in Base64 into an envelope, which is
encrypted, written in Base64 again, put into the payload and with that into the frame.
The two encodings make 16 bytes of every 9; what the rest adds does not grow with the
chunk.

The relay's limit on payloads is the narrowest of the three on the way. A payload
within it is well within the others, as its escapes in the frame at most double it.
-/

namespace TrapChat.Network

open Protocol Client MediaAssembler JsonRecord

/-- The most bytes of a message that a peer may send to the gateway, `SetReadLimit`. -/
def readLimit : ℕ := 1048576

/-- The characters of a UUID. -/
def isHexOrHyphen (c : Char) : Bool :=
  c = '-' || (48 ≤ c.toNat && c.toNat ≤ 57) || (97 ≤ c.toNat && c.toNat ≤ 102)

/-- A text of the form that `crypto.randomUUID` and `newPeerID` return. -/
structure IsUUID (s : String) : Prop where
  length : s.length = 36
  chars : ∀ c ∈ s.toList, isHexOrHyphen c = true

/-- What `client.send` writes to the socket. -/
def clientFrame (id msgId : String) (msg : MediaMessage) (timestamp : ℕ) : String :=
  render false [("id", .str id), ("msgId", .str msgId), ("type", .str "media"),
    ("room", .str msg.room), ("payload", .str msg.payload), ("timestamp", .int timestamp)]

/-- The envelope that the gateway forwards to the relay. -/
def forwarded (peerID msgId : String) (msg : MediaMessage) (timestamp : ℕ) : Envelope where
  id := peerID
  msgId := msgId
  type := .media
  room := msg.room
  payload := msg.payload
  timestamp := timestamp

/-- No hop rejects a message for its size, whatever UUIDs and times it gets. -/
structure FitsEveryHop (msg : MediaMessage) : Prop where
  read : ∀ id msgId timestamp, IsUUID id → IsUUID msgId → timestamp < 2 ^ 63 →
    (clientFrame id msgId msg timestamp).utf8ByteSize ≤ readLimit
  forward : ∀ peerID msgId timestamp, IsUUID peerID → IsUUID msgId → timestamp < 2 ^ 63 →
    (forwarded peerID msgId msg timestamp).marshal.utf8ByteSize ≤ Relay.maxMessageBytes
  payload : msg.payload.utf8ByteSize ≤ Relay.maxPayloadBytes

/-! ### Texts that need no escapes -/

theorem plain_hexOrHyphen {c : Char} (h : isHexOrHyphen c = true) : plain c = true := by
  simp only [isHexOrHyphen, Bool.or_eq_true, Bool.and_eq_true, decide_eq_true_eq] at h
  have hc : c = Char.ofNat c.toNat := (Char.ofNat_toNat c).symm
  rcases h with (rfl | ⟨hlo, hhi⟩) | ⟨hlo, hhi⟩
  · decide
  · rw [hc]
    generalize c.toNat = n at hlo hhi
    interval_cases n <;> decide
  · rw [hc]
    generalize c.toNat = n at hlo hhi
    interval_cases n <;> decide

theorem plain_base64 {bs : Bytes} {c : Char} (h : c ∈ Base64.encodeChars bs) : plain c = true := by
  rcases Base64.mem_encodeChars h with rfl | ⟨n, hn, rfl⟩
  · decide
  · interval_cases n <;> decide

theorem unescaped_of_plain {cs : List Char} (h : ∀ c ∈ cs, plain c = true) : Unescaped cs := by
  intro c hc
  have hplain := h c hc
  simp only [plain, Bool.and_eq_true, Bool.not_eq_true'] at hplain
  exact hplain.2

theorem unescaped_base64 (bs : Bytes) : Unescaped (Base64.encode bs).toList := by
  rw [Base64.encode, String.toList_ofList]
  exact unescaped_of_plain fun c hc => plain_base64 hc

theorem IsUUID.unescaped {s : String} (h : IsUUID s) : Unescaped s.toList :=
  unescaped_of_plain fun c hc => plain_hexOrHyphen (h.chars c hc)

theorem literalSize_uuid (html : Bool) {s : String} (h : IsUUID s) : literalSize html s = 38 := by
  rw [literalSize_of_plain (List.all_eq_true.mpr fun c hc => plain_hexOrHyphen (h.chars c hc)),
    String.length_toList, h.length]

theorem literalSize_base64 (html : Bool) (bs : Bytes) :
    literalSize html (Base64.encode bs) = 4 * ((bs.length + 2) / 3) + 2 := by
  have hlist : (Base64.encode bs).toList = Base64.encodeChars bs := String.toList_ofList
  rw [literalSize_of_plain (List.all_eq_true.mpr fun c hc => plain_base64 (hlist ▸ hc)), hlist,
    Base64.encodeChars_length]

theorem timestamp_digits {timestamp : ℕ} (h : timestamp < 2 ^ 63) :
    (Nat.toDigits 10 timestamp).length ≤ 19 := by
  apply (Nat.length_toDigits_le_iff (by decide) (by decide)).mpr
  omega

/-! ### The frame around a payload -/

/-- **A payload within the relay's limit** fits the other hops. -/
theorem fitsEveryHop_of_payload {msg : MediaMessage} (hroom : msg.room.length ≤ 64)
    (hescapes : Unescaped msg.payload.toList)
    (hpayload : msg.payload.utf8ByteSize ≤ Relay.maxPayloadBytes) : FitsEveryHop msg := by
  have hlimit : Relay.maxPayloadBytes = 262144 := rfl
  have hroomSize : ∀ html, literalSize html msg.room ≤ 386 := fun html =>
    (literalSize_le html msg.room).trans (by omega)
  have hpayloadSize : ∀ html, literalSize html msg.payload ≤ 524290 := fun html =>
    (literalSize_le_two hescapes).trans (by omega)
  refine ⟨?_, ?_, hpayload⟩
  · intro id msgId timestamp hid hmsgId htime
    have hroom' := hroomSize false
    have hpayload' := hpayloadSize false
    have hdigits := timestamp_digits htime
    rw [clientFrame, render_size false (List.cons_ne_nil _ _)]
    simp only [recordSize_cons, recordSize_nil, fieldSize_str, fieldSize_nat,
      literalSize_uuid false hid, literalSize_uuid false hmsgId, readLimit]
    simp (disch := decide) only [literalSize_of_plain, String.reduceToList, List.length_cons,
      List.length_nil]
    omega
  · intro peerID msgId timestamp hid hmsgId htime
    have hroom' := hroomSize true
    have hpayload' := hpayloadSize true
    have hdigits := timestamp_digits htime
    have hpayloadField := recordSize_strField_le true "payload" msg.payload
    have hmsgIdField := recordSize_strField_le true "msgId" msgId
    have hempty : ∀ key, strField key "" = [] := fun _ => rfl
    have hrecord : (forwarded peerID msgId msg timestamp).record ≠ [] := List.cons_ne_nil _ _
    rw [Envelope.marshal, render_size true hrecord]
    simp only [forwarded, Envelope.record, recordSize_cons, recordSize_append, fieldSize_str,
      fieldSize_nat, literalSize_uuid true hid, literalSize_uuid true hmsgId, MessageType.wire,
      hempty, recordSize_nil, Relay.maxMessageBytes] at hmsgIdField ⊢
    simp (disch := decide) only [literalSize_of_plain, String.reduceToList, List.length_cons,
      List.length_nil] at hpayloadField hmsgIdField ⊢
    omega

/-! ### The payload of a chunk -/

/-- The size of the envelope's text for a file that is one chunk: the literals of its
type and its name, the digits of its size, and its bytes in Base64. -/
def envelopeSize (file : File) : ℕ :=
  47 + literalSize false file.mimeType + literalSize false file.name +
    (Nat.toDigits 10 file.size).length + 4 * ((file.size + 2) / 3)

/-- The envelope of the first chunk. -/
theorem envelope_zero (file : File) (data : Bytes) :
    ({ chunkMetadata file 0 with data := some (Base64.encode data) } :
      MediaEnvelope).stringify.utf8ByteSize =
      47 + literalSize false file.mimeType + literalSize false file.name +
        (Nat.toDigits 10 file.size).length + 4 * ((data.length + 2) / 3) := by
  rw [chunkMetadata_zero, MediaEnvelope.stringify]
  show (render false [("mimeType", .str file.mimeType), ("fileName", .str file.name),
    ("fileSize", .int file.size), ("data", .str (Base64.encode data))]).utf8ByteSize = _
  rw [render_size false (List.cons_ne_nil _ _)]
  simp only [recordSize_cons, recordSize_nil, fieldSize_str, fieldSize_nat, literalSize_base64]
  simp (disch := decide) only [literalSize_of_plain, String.reduceToList, List.length_cons,
    List.length_nil]
  omega

section
variable {subtle : SubtleCrypto} {getRandomValues : ℕ → Fin Crypto.IV_LENGTH → UInt8}
  {decodeText : Bytes → String} (key : subtle.Key) (room : String) (file : File)
  {transferId : String} (ivs : ℕ → ℕ)

/-- The message of a chunk, as `sendMedia` makes it with the cipher on text. -/
def sentChunk (getRandomValues : ℕ → Fin Crypto.IV_LENGTH → UInt8) (decodeText : Bytes → String)
    (transferId : String) (seq : ℕ) : MediaMessage :=
  chunkMessage (Crypto.aesGcm subtle getRandomValues decodeText) key room file transferId ivs seq

/-- **The payload of a chunk**, by the size of the text in its envelope. -/
theorem payload_sentChunk (hsubtle : subtle.Tagged) (hid : IsUUID transferId) (seq : ℕ) :
    let text := ({ chunkMetadata file seq with
        data := some (Base64.encode (file.piece seq)) } : MediaEnvelope).stringify
    let payload :=
      (sentChunk key room file ivs getRandomValues decodeText transferId seq).payload
    payload.utf8ByteSize = 80 + (Nat.toDigits 10 seq).length + (Nat.toDigits 10 file.total).length +
        4 * ((text.utf8ByteSize + 30) / 3) ∧
      Unescaped payload.toList := by
  intro text payload
  obtain ⟨bytes, hchunk, hlength⟩ :=
    Crypto.encrypt_aesGcm hsubtle getRandomValues decodeText key (ivs seq) text
  have hpayload : payload = render false [("transferId", .str transferId), ("seq", .int seq),
      ("total", .int (file.total : ℕ)), ("chunk", .str (Base64.encode bytes))] := by
    rw [← hchunk]
    rfl
  rw [hpayload]
  constructor
  · rw [render_size false (List.cons_ne_nil _ _)]
    simp only [recordSize_cons, recordSize_nil, fieldSize_str, fieldSize_nat, literalSize_base64,
      literalSize_uuid false hid, hlength]
    simp (disch := decide) only [literalSize_of_plain, String.reduceToList, List.length_cons,
      List.length_nil]
    omega
  · apply unescaped_render
    simp only [Record.texts, List.flatMap_cons, List.flatMap_nil, List.append_nil, List.cons_append,
      List.nil_append, List.forall_mem_cons]
    refine ⟨by decide, hid.unescaped, by decide, by decide, by decide, unescaped_base64 bytes, ?_⟩
    simp

/-- **Media frames fit every hop** if and only if the file is one chunk with an envelope of
at most 196517 bytes. -/
theorem mediaFrames_fit (hsubtle : subtle.Tagged) (hid : IsUUID transferId)
    (hroom : room.length ≤ 64) (hpos : 1 ≤ file.size) {messages : List MediaMessage}
    {sent : SentMedia}
    (hsent : sendMedia (Crypto.aesGcm subtle getRandomValues decodeText) key room file transferId
      ivs = .ok (messages, sent)) :
    (∀ msg ∈ messages, FitsEveryHop msg) ↔ envelopeSize file ≤ 196517 := by
  have hlimit : Relay.maxPayloadBytes = 262144 := rfl
  have hchunk : CHUNK_SIZE = 524288 := rfl
  have hmessages : messages = (List.range file.total).map
      (sentChunk key room file ivs getRandomValues decodeText transferId) :=
    messages_of_sendMedia (W := Crypto.aesGcm subtle getRandomValues decodeText) key room ivs hsent
  obtain ⟨hsize, hescapes⟩ := @payload_sentChunk subtle getRandomValues decodeText key room
    file transferId ivs hsubtle hid 0
  rw [envelope_zero] at hsize
  have hpiece : (file.piece 0).length = min file.size CHUNK_SIZE := by
    rw [File.piece, Pieces.piece, Nat.zero_mul, List.drop_zero, List.length_take, Nat.min_comm]
    rfl
  have hzero : (Nat.toDigits 10 0).length = 1 := rfl
  rw [hpiece, hzero] at hsize
  rw [hmessages]
  constructor
  · intro hfit
    have hmem : 0 ∈ List.range file.total := List.mem_range.mpr (file_total_pos hpos)
    have hpayload := (hfit _ (List.mem_map_of_mem hmem)).payload
    have hdigits : 0 < (Nat.toDigits 10 file.total).length := Nat.length_toDigits_pos
    rw [hsize] at hpayload
    rw [envelopeSize]
    omega
  · intro hsmall msg hmsg
    rw [envelopeSize] at hsmall
    have hone : file.total ≤ 1 := by
      rw [File.total, Pieces.count_le_iff (by decide)]
      omega
    obtain ⟨seq, hseq, rfl⟩ := List.mem_map.mp hmsg
    obtain rfl : seq = 0 := by
      have hlt := List.mem_range.mp hseq
      omega
    have htotal : file.total = 1 := by
      have hlt := List.mem_range.mp hseq
      omega
    refine fitsEveryHop_of_payload hroom hescapes ?_
    have hdigits : (Nat.toDigits 10 1).length = 1 := rfl
    rw [hsize, htotal, hdigits]
    omega

end

/-- A cipher that masks every byte and adds a tag of zeros. -/
def masked : SubtleCrypto where
  Key := UInt8
  encrypt key _ data := data.map (key ^^^ ·) ++ List.replicate 16 0
  decrypt key _ bytes :=
    if bytes.length < 16 then none else some ((bytes.take (bytes.length - 16)).map (key ^^^ ·))

theorem masked_tagged : masked.Tagged := by
  intro key iv data
  simp [masked]

def someUUID : String := "00000000-0000-4000-8000-000000000000"

theorem someUUID_isUUID : IsUUID someUUID := ⟨by decide, List.all_eq_true.mp (by decide)⟩

/-- The masking cipher on text. -/
def maskedText : AesGcm := Crypto.aesGcm masked (fun _ _ => 0) fun _ => ""

def maskedChunk (file : File) (seq : ℕ) : MediaMessage :=
  @sentChunk masked (7 : UInt8) "r" file (fun seq => seq) (fun _ _ => 0) (fun _ => "")
    someUUID seq

theorem sendMedia_masked {file : File} (h : file.size ≤ MAX_FILE_SIZE) :
    sendMedia maskedText (7 : UInt8) "r" file someUUID (fun seq => seq) =
      .ok ((List.range file.total).map (maskedChunk file),
        ⟨someUUID, file.total, file.mimeType, file.name⟩) :=
  sendMedia_ok (W := maskedText) (7 : UInt8) "r" (fun seq => seq) h

/-- The only chunk of a small file. -/
theorem mediaFrames_fit_small : FitsEveryHop (maskedChunk smallFile 0) := by
  have hsent := sendMedia_masked (show smallFile.size ≤ MAX_FILE_SIZE by decide)
  have hfit := (@mediaFrames_fit masked (fun _ _ => 0) (fun _ => "") (7 : UInt8) "r" smallFile someUUID
    (fun seq => seq) masked_tagged someUUID_isUUID (by decide) (by decide) _ _ hsent).mpr (by decide)
  have htotal : 0 < smallFile.total := by decide
  exact hfit _ (List.mem_map_of_mem (List.mem_range.mpr htotal))

/-- A picture of 200 kB. -/
def picture : File := ⟨"a.png", "image/png", List.replicate 200000 0⟩

/-- The payload of a picture's only chunk is over the relay's limit. -/
theorem picture_rejected :
    ∃ messages sent, sendMedia maskedText (7 : UInt8) "r" picture someUUID (fun seq => seq) =
        .ok (messages, sent) ∧
      ∃ msg ∈ messages, Relay.maxPayloadBytes < msg.payload.utf8ByteSize := by
  have hsize : picture.size = 200000 := List.length_replicate
  have hlarge : picture.size ≤ MAX_FILE_SIZE := by
    rw [hsize]
    decide
  have htotal : 0 < picture.total := file_total_pos (by omega)
  have hpiece : (picture.piece 0).length = 200000 := by
    rw [File.piece, Pieces.piece, Nat.zero_mul, List.drop_zero, List.length_take]
    show min CHUNK_SIZE picture.size = _
    rw [hsize]
    decide
  obtain ⟨hpayload, -⟩ := @payload_sentChunk masked (fun _ _ => 0) (fun _ => "") (7 : UInt8) "r"
    picture someUUID (fun seq => seq) masked_tagged someUUID_isUUID 0
  rw [envelope_zero, hpiece] at hpayload
  have hlimit : Relay.maxPayloadBytes < (maskedChunk picture 0).payload.utf8ByteSize := by
    rw [maskedChunk, hpayload]
    have hmax : Relay.maxPayloadBytes = 262144 := rfl
    omega
  exact ⟨_, _, sendMedia_masked hlarge, maskedChunk picture 0,
    List.mem_map_of_mem (List.mem_range.mpr htotal), hlimit⟩

end TrapChat.Network
