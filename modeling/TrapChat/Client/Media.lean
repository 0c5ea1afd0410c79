import TrapChat.Library.Base64
import TrapChat.Library.JsonRecord
import TrapChat.Library.Pieces
import Mathlib.Data.Finmap

/-!
Media transfers. A file is cut into chunks, every chunk is put into an encrypted
envelope, and only the envelope of chunk 0 carries the file's metadata. The
receiver's `MediaAssembler` keeps a record of every open transfer.

`handleChunk` is asynchronous. Between its awaits other calls may run, and a call
goes on with the record it found, which may have left the map by then: records
are objects with a reference of their own, and the stretches between two awaits
are `accept`, `openSlot` and `store`.

AES-GCM is a parameter, by what its ciphertexts are as text. A file name is well
formed, as every `File`'s is; cutting it at 255 code units may split a character,
so a sanitised name is a list of code units.
-/

namespace TrapChat.Client

/-- A JavaScript string, by its UTF-16 code units. -/
abbrev JSString := List UInt16

abbrev Bytes := List UInt8
abbrev TransferRef := ℕ
abbrev TimeoutId := ℕ

def CHUNK_SIZE : ℕ := 512 * 1024
def MAX_FILE_SIZE : ℕ := 25 * 1024 * 1024

/-- Delay between chunks, in milliseconds. -/
def SEND_THROTTLE_MS : ℕ := 50

def MAX_CHUNKS : ℕ := 100
def MAX_CONCURRENT_TRANSFERS : ℕ := 10

/-- A signature `none` is checked apart: ftyp at offset 4. -/
def MAGIC_BYTES : List (String × Option Bytes) :=
  [("image/png", some [0x89, 0x50, 0x4E, 0x47]),
    ("image/jpeg", some [0xFF, 0xD8, 0xFF]),
    ("image/gif", some [0x47, 0x49, 0x46]),
    ("image/webp", some [0x52, 0x49, 0x46, 0x46]),
    ("video/mp4", none),
    ("application/pdf", some [0x25, 0x50, 0x44, 0x46])]

def SAFE_NO_MAGIC : List String :=
  ["text/", "application/json", "application/xml", "image/svg+xml",
    "application/javascript", "application/x-yaml", "application/toml"]

def utf16 (c : Char) : JSString :=
  let n := c.toNat
  if n < 0x10000 then [n.toUInt16]
  else [(0xD800 + (n - 0x10000) / 0x400).toUInt16, (0xDC00 + (n - 0x10000) % 0x400).toUInt16]

def codeUnits (s : List Char) : JSString := s.flatMap utf16

/-- The removal of every `..`, from left to right. -/
def dropDotDot : List Char → List Char
  | '.' :: '.' :: rest => dropDotDot rest
  | c :: rest => c :: dropDotDot rest
  | [] => []

/-- A path separator, a colon or a null byte. -/
def isPathChar (c : Char) : Bool := c = '/' || c = '\\' || c = ':' || c = Char.ofNat 0

/-- Strip path separators, null bytes, and collapse '..' to prevent path traversal. -/
def sanitizeFileName (name : Option String) : JSString :=
  let file := codeUnits "file".toList
  match name with
  | none => file
  | some name =>
    if name = "" then file
    else
      let kept := (dropDotDot name.toList).map fun c => if isPathChar c then '_' else c
      let units := (codeUnits kept).take 255
      if units = [] then file else units

/-- The type of the first signature that the bytes begin with. -/
def magicMime (bytes : Bytes) : Option String :=
  MAGIC_BYTES.findSome? fun (mime, sig) =>
    match sig with
    | none => none
    | some sig => if sig.isPrefixOf bytes then some mime else none

/-- `ftyp` at offset 4. -/
def isMp4 (bytes : Bytes) : Bool := (bytes.drop 4).take 4 = [0x66, 0x74, 0x79, 0x70]

/-- The file's own type, or the one that its bytes show. -/
def detectMimeType (type : String) (bytes : Bytes) : String :=
  if type ≠ "" then type
  else
    match magicMime bytes with
    | some mime => mime
    | none => if isMp4 bytes then "video/mp4" else "application/octet-stream"

def validateMimeType (claimedMime : Option String) (bytes : Bytes) : String :=
  match claimedMime with
  | none | some "" => "application/octet-stream"
  | some claimed =>
    if bytes.length < 8 then "application/octet-stream"
    else
      match magicMime bytes with
      | some mime => mime
      | none =>
        if isMp4 bytes then "video/mp4"
        else if SAFE_NO_MAGIC.any fun safe => safe.toList.isPrefixOf claimed.toList then claimed
        else "application/octet-stream"

/-! ### JSON objects -/

/-- The last string of a key, which is what the object has there. -/
def stringOf (r : JsonRecord.Record) (key : String) : Option String :=
  match (r.values key).getLast? with
  | some (.str s) => some s
  | _ => none

def intOf (r : JsonRecord.Record) (key : String) : Option ℤ :=
  match (r.values key).getLast? with
  | some (.int n) => some n
  | _ => none

/-- A member that is left out when it is undefined. -/
def stringMember (key : String) (value : Option String) : JsonRecord.Record :=
  (value.map fun s => (key, .str s)).toList

def intMember (key : String) (value : Option ℤ) : JsonRecord.Record :=
  (value.map fun n => (key, .int n)).toList

/-- The object inside the encryption. A field that is absent, or of another type, is
`none`. -/
structure MediaEnvelope where
  mimeType : Option String := none
  fileName : Option String := none
  fileSize : Option ℤ := none
  data : Option String := none
  deriving DecidableEq

namespace MediaEnvelope

def record (e : MediaEnvelope) : JsonRecord.Record :=
  stringMember "mimeType" e.mimeType ++ stringMember "fileName" e.fileName ++
    intMember "fileSize" e.fileSize ++ stringMember "data" e.data

def ofRecord (r : JsonRecord.Record) : MediaEnvelope where
  mimeType := stringOf r "mimeType"
  fileName := stringOf r "fileName"
  fileSize := intOf r "fileSize"
  data := stringOf r "data"

def stringify (e : MediaEnvelope) : String := JsonRecord.render false e.record

def parse (text : String) : Option MediaEnvelope := (JsonRecord.parse text).map ofRecord

end MediaEnvelope

/-- The object that is sent. -/
structure MediaPayload where
  transferId : Option String := none
  seq : Option ℤ := none
  total : Option ℤ := none
  chunk : Option String := none
  deriving DecidableEq

namespace MediaPayload

def record (p : MediaPayload) : JsonRecord.Record :=
  stringMember "transferId" p.transferId ++ intMember "seq" p.seq ++ intMember "total" p.total ++
    stringMember "chunk" p.chunk

def ofRecord (r : JsonRecord.Record) : MediaPayload where
  transferId := stringOf r "transferId"
  seq := intOf r "seq"
  total := intOf r "total"
  chunk := stringOf r "chunk"

def stringify (p : MediaPayload) : String := JsonRecord.render false p.record

def parse (text : String) : Option MediaPayload := (JsonRecord.parse text).map ofRecord

end MediaPayload

section
variable (key : String)

theorem values_stringMember (k : String) (value : Option String) :
    JsonRecord.Record.values (stringMember k value) key =
      if k = key then (value.map JsonRecord.Scalar.str).toList else [] := by
  cases value with
  | none => simp [stringMember]
  | some s => by_cases h : k = key <;> simp [stringMember, JsonRecord.values_cons, h]

theorem values_intMember (k : String) (value : Option ℤ) :
    JsonRecord.Record.values (intMember k value) key =
      if k = key then (value.map JsonRecord.Scalar.int).toList else [] := by
  cases value with
  | none => simp [intMember]
  | some n => by_cases h : k = key <;> simp [intMember, JsonRecord.values_cons, h]

end

/-- **Round trip of the envelope's text.** -/
theorem MediaEnvelope.parse_stringify (e : MediaEnvelope) : parse e.stringify = some e := by
  have hrecord : ofRecord e.record = e := by
    obtain ⟨mimeType, fileName, fileSize, data⟩ := e
    simp only [ofRecord, record, stringOf, intOf, JsonRecord.values_append, values_stringMember,
      values_intMember]
    cases mimeType <;> cases fileName <;> cases fileSize <;> cases data <;> rfl
  rw [parse, stringify, JsonRecord.parse_render, Option.map_some, hrecord]

theorem MediaPayload.parse_stringify (p : MediaPayload) : parse p.stringify = some p := by
  have hrecord : ofRecord p.record = p := by
    obtain ⟨transferId, seq, total, chunk⟩ := p
    simp only [ofRecord, record, stringOf, intOf, JsonRecord.values_append, values_stringMember,
      values_intMember]
    cases transferId <;> cases seq <;> cases total <;> cases chunk <;> rfl
  rw [parse, stringify, JsonRecord.parse_render, Option.map_some, hrecord]

/-! ### The envelope -/

/-- AES-GCM under a key, with the text that `encrypt` makes of a text and the
initialisation vector it draws. `decrypt` is `none` where it throws. -/
structure AesGcm where
  Key : Type
  encrypt : Key → ℕ → String → String
  decrypt : Key → String → Option String

/-- Decryption inverts encryption, and a ciphertext is not empty. -/
structure AesGcm.Lawful (W : AesGcm) : Prop where
  decrypt_encrypt : ∀ key iv text, W.decrypt key (W.encrypt key iv text) = some text
  encrypt_ne_empty : ∀ key iv text, W.encrypt key iv text ≠ ""

section
variable (W : AesGcm)

def encryptMediaEnvelope (key : W.Key) (iv : ℕ) (chunkData : Bytes) (metadata : MediaEnvelope) :
    String :=
  W.encrypt key iv { metadata with data := some (Base64.encode chunkData) }.stringify

/-- `decrypt` and `JSON.parse`. -/
def openEnvelope (key : W.Key) (ciphertext : String) : Option MediaEnvelope :=
  (W.decrypt key ciphertext).bind MediaEnvelope.parse

/-- The chunk's bytes and the metadata. -/
def decryptMediaEnvelope (key : W.Key) (ciphertext : String) : Option (Bytes × MediaEnvelope) := do
  let parsed ← openEnvelope W key ciphertext
  let data ← parsed.data
  let chunkData ← Base64.decodeForgiving data
  some (chunkData, { parsed with data := none })

/-! ### Sending -/

structure File where
  name : String
  type : String
  bytes : Bytes

def File.size (file : File) : ℕ := file.bytes.length

/-- The text of the error, with the size in megabytes to one decimal place. -/
def fileTooLarge (size : ℕ) : String :=
  let tenths := (10 * size + 524288) / 1048576
  "File too large (" ++ toString (tenths / 10) ++ "." ++ toString (tenths % 10) ++
    "MB). Max is 25MB."

/-- A media message, by its room and its payload. -/
structure MediaMessage where
  room : String
  payload : String
  deriving DecidableEq

structure SentMedia where
  transferId : String
  total : ℕ
  mimeType : String
  fileName : String

/-- The metadata is embedded in chunk 0 only. -/
def chunkMetadata (file : File) (seq : ℕ) : MediaEnvelope :=
  if seq = 0 then
    { mimeType := some (detectMimeType file.type file.bytes)
      fileName := some file.name
      fileSize := some file.size }
  else {}

/-- The message of chunk `seq`. -/
def chunkMessage (key : W.Key) (room : String) (file : File) (transferId : String)
    (ivs : ℕ → ℕ) (seq : ℕ) : MediaMessage where
  room := room
  payload := MediaPayload.stringify
    { transferId := some transferId
      seq := some seq
      total := some (Pieces.count CHUNK_SIZE file.size : ℕ)
      chunk := some (encryptMediaEnvelope W key (ivs seq)
        (Pieces.piece CHUNK_SIZE file.bytes seq) (chunkMetadata file seq)) }

/-- `sendMedia`, with the transfer id and the initialisation vectors it draws: the
messages it sends and its result, or the text of its error. -/
def sendMedia (key : W.Key) (room : String) (file : File) (transferId : String) (ivs : ℕ → ℕ) :
    Except String (List MediaMessage × SentMedia) :=
  if MAX_FILE_SIZE < file.size then .error (fileTooLarge file.size)
  else
    let total := Pieces.count CHUNK_SIZE file.size
    .ok ((List.range total).map (chunkMessage W key room file transferId ivs),
      ⟨transferId, total, detectMimeType file.type file.bytes, file.name⟩)

end

/-! ### Receiving -/

/-- The record of an open transfer. `chunks` is a sparse array of the given
length. -/
structure Transfer where
  chunks : ℕ → Option Bytes
  length : ℕ
  received : ℕ
  total : ℕ
  mimeType : Option String
  fileName : Option JSString
  fileSize : Option ℤ

namespace Transfer

def new (total : ℕ) : Transfer where
  chunks := fun _ => none
  length := total
  received := 0
  total := total
  mimeType := none
  fileName := none
  fileSize := none

def describe (t : Transfer) (e : MediaEnvelope) : Transfer :=
  { t with
    mimeType := e.mimeType
    fileName := some (sanitizeFileName e.fileName)
    fileSize := e.fileSize }

/-- Stores a chunk and counts it. -/
def fill (t : Transfer) (seq : ℕ) (data : Bytes) : Transfer :=
  { t with
    chunks := Function.update t.chunks seq (some data)
    length := max t.length (seq + 1)
    received := t.received + 1 }

/-- The chunk in its slot, with the metadata of the first chunk that has it. -/
def storeChunk (seq : ℕ) (data : Bytes) (chunkMeta : MediaEnvelope) (t : Transfer) : Transfer :=
  (if t.mimeType = none ∧ chunkMeta.mimeType.getD "" ≠ "" then t.describe chunkMeta else t).fill
    seq data

/-- The chunks in the order of the array. -/
def slots (t : Transfer) : List (Option Bytes) := (List.range t.length).map t.chunks

/-- `reduce` skips the holes of the array. -/
def totalSize (t : Transfer) : ℕ := (t.slots.filterMap id).flatten.length

end Transfer

/-- What a call of `handleChunk` returns. `ignored` is `null`; an object URL is the
number of its blob. -/
inductive ChunkResult
  | ignored
  | error (transferId : String) (message : String)
  | progress (transferId : String) (received total : ℕ)
  | complete (transferId : String) (mimeType : String) (fileName : Option JSString)
      (fileSize : Option ℤ) (url : ℕ) (blob : Bytes)
  deriving DecidableEq

/-- A call that throws has no result. -/
inductive Outcome
  | returned (result : ChunkResult)
  | thrown
  deriving DecidableEq

/-- The assembler, the records its calls have made, and the stale timeouts that are
running. -/
structure MediaAssembler where
  transfers : Finmap fun _ : String => TransferRef
  timers : Finmap fun _ : String => TimeoutId
  objects : TransferRef → Transfer
  allocated : ℕ
  running : List (TimeoutId × String)
  timersSet : ℕ
  /-- The calls of `onProgress`. -/
  progressed : List (String × ℕ × ℕ)
  urls : ℕ

/-- The fields of a chunk that has passed the bounds checks. -/
structure Chunk where
  transferId : String
  seq : ℕ
  total : ℕ
  chunk : String
  deriving DecidableEq

def keyMismatch : String := "[encrypted media — key mismatch]"
def mediaRejected : String := "[media rejected — exceeds 25MB limit]"

/-- The payload of a message as it arrives. -/
inductive PayloadData
  | text (s : String)
  | object (p : MediaPayload)
  deriving DecidableEq

/-- The checks on a payload: absent, empty and zero fields, then the bounds. -/
def acceptFields (p : MediaPayload) : Option Chunk := do
  let transferId ← p.transferId
  let seq ← p.seq
  let total ← p.total
  let chunk ← p.chunk
  if transferId = "" ∨ total = 0 ∨ chunk = "" then none
  else if total > MAX_CHUNKS ∨ total ≤ 0 then none
  else if seq < 0 ∨ seq ≥ total then none
  else some ⟨transferId, seq.toNat, total.toNat, chunk⟩

/-- `handleChunk` up to its first await: `none` where it returns `null`. -/
def accept : PayloadData → Option Chunk
  | .text s => (MediaPayload.parse s).bind acceptFields
  | .object p => acceptFields p

namespace MediaAssembler

def new : MediaAssembler where
  transfers := ∅
  timers := ∅
  objects := fun _ => Transfer.new 0
  allocated := 0
  running := []
  timersSet := 0
  progressed := []
  urls := 0

/-- The record of a transfer that is open. -/
def find (m : MediaAssembler) (transferId : String) : Option Transfer :=
  (m.transfers.lookup transferId).map m.objects

def setObject (m : MediaAssembler) (ref : TransferRef) (t : Transfer) : MediaAssembler :=
  { m with objects := Function.update m.objects ref t }

/-- A new record for the transfer. -/
def openTransfer (m : MediaAssembler) (transferId : String) (total : ℕ) : MediaAssembler :=
  { m with
    transfers := m.transfers.insert transferId m.allocated
    objects := Function.update m.objects m.allocated (Transfer.new total)
    allocated := m.allocated + 1 }

/-- Reset stale timeout on each chunk. -/
def resetTimer (m : MediaAssembler) (transferId : String) : MediaAssembler :=
  { m with
    timers := m.timers.insert transferId m.timersSet
    running := (m.timersSet, transferId) ::
      match m.timers.lookup transferId with
      | none => m.running
      | some timer => m.running.filter (·.1 ≠ timer)
    timersSet := m.timersSet + 1 }

/-- The cleanup of a transfer that has ended. -/
def forget (m : MediaAssembler) (transferId : String) : MediaAssembler :=
  { m with
    transfers := m.transfers.erase transferId
    timers := m.timers.erase transferId
    running :=
      match m.timers.lookup transferId with
      | none => m.running
      | some timer => m.running.filter (·.1 ≠ timer) }

/-- The callback of a stale timeout. -/
def stale (m : MediaAssembler) (transferId : String) : MediaAssembler :=
  { m with transfers := m.transfers.erase transferId, timers := m.timers.erase transferId }

/-- The record for a chunk, made or brought up to date; `none` at the limit. -/
def record (c : Chunk) (inner : MediaEnvelope) (m : MediaAssembler) :
    Option (MediaAssembler × TransferRef) :=
  match m.transfers.lookup c.transferId with
  | none =>
      if MAX_CONCURRENT_TRANSFERS ≤ m.transfers.keys.card then none
      else some (m.openTransfer c.transferId c.total, m.allocated)
  | some ref =>
      if c.seq = 0 ∧ inner.mimeType.getD "" ≠ "" then
        -- First chunk arrived out of order — update metadata
        some (m.setObject ref ((m.objects ref).describe inner), ref)
      else some (m, ref)

/-- From the first await to the second one: the record that the call goes on with,
`none` where it returns `null`. -/
def openSlot (c : Chunk) (inner : MediaEnvelope) (m : MediaAssembler) :
    MediaAssembler × Option TransferRef :=
  match m.record c inner with
  | none => (m, none)
  | some (m, ref) =>
      let m := m.resetTimer c.transferId
      if ((m.objects ref).chunks c.seq).isSome then (m, none) else (m, some ref)

/-- The call of `onProgress`. -/
def report (c : Chunk) (t : Transfer) (m : MediaAssembler) : MediaAssembler :=
  { m with progressed := m.progressed ++ [(c.transferId, t.received, t.total)] }

/-- The end of a call whose chunk is the last one. A hole in the array throws. -/
def reassemble (c : Chunk) (t : Transfer) (m : MediaAssembler) : MediaAssembler × Outcome :=
  if MAX_FILE_SIZE < t.totalSize then
    (m.forget c.transferId, .returned (.error c.transferId mediaRejected))
  else
    match t.slots.allSome with
    | none => (m, .thrown)
    | some chunks =>
        let assembled := chunks.flatten
        ({ m.forget c.transferId with urls := m.urls + 1 },
          .returned (.complete c.transferId (validateMimeType t.mimeType assembled) t.fileName
            t.fileSize m.urls assembled))

/-- From the second await on, with what `decryptMediaEnvelope` gives. -/
def store (c : Chunk) (ref : TransferRef) (opened : Option (Bytes × MediaEnvelope))
    (m : MediaAssembler) : MediaAssembler × Outcome :=
  match opened with
  | none => (m, .returned (.error c.transferId keyMismatch))
  | some (data, chunkMeta) =>
      let t := (m.objects ref).storeChunk c.seq data chunkMeta
      let m := (m.setObject ref t).report c t
      if t.received = t.total then m.reassemble c t
      else (m, .returned (.progress c.transferId t.received t.total))

/-- A call of `handleChunk` that runs from its beginning to its end. -/
def handleChunk (W : AesGcm) (key : W.Key) (payload : PayloadData) (m : MediaAssembler) :
    MediaAssembler × Outcome :=
  match accept payload with
  | none => (m, .returned .ignored)
  | some c =>
      match openEnvelope W key c.chunk with
      | none => (m, .returned (.error c.transferId keyMismatch))
      | some inner =>
          match m.openSlot c inner with
          | (m, none) => (m, .returned .ignored)
          | (m, some ref) => m.store c ref (decryptMediaEnvelope W key c.chunk)

end MediaAssembler

end TrapChat.Client
