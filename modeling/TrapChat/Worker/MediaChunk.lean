import TrapChat.Client.ShareLink
import TrapChat.Library.JsonRecord
import TrapChat.Library.Pieces

/-!
The worker's `media:chunk` job. The payload is decoded and cut into chunks, and each
chunk is posted to the broadcast endpoint of a gateway. What a request comes to is
logged at most: the job resolves with its chunks as soon as the URL is allowed.

The fields of a job's data are strings and integers here. The requests of one attempt
are numbered by their chunks.
-/

namespace TrapChat.Worker

open Client (encodeURIComponent)

/-- What is read of a parsed URL. -/
structure Url where
  protocol : String
  hostname : String
  port : String
  host : String

/-- What the worker takes from Node and from its environment. -/
structure NodeRuntime where
  /-- `Buffer.from` of base64 text. -/
  bufferFrom : String → List UInt8
  /-- `new URL`, or what it throws. -/
  parseURL : String → Except String Url
  /-- `ALLOWED_GATEWAY_HOSTS` -/
  allowedHosts : List String

def ALLOWED_PORTS : List String := ["80", "443", "8080"]

def validateGatewayURL (node : NodeRuntime) (gatewayURL : String) : Except String Url := do
  if gatewayURL = "" then throw "gatewayURL is required"
  let parsed ← node.parseURL gatewayURL
  let port :=
    if parsed.port = "" then (if parsed.protocol = "https:" then "443" else "80") else parsed.port
  if parsed.protocol ∉ ["http:", "https:"] ∨ parsed.hostname ∉ node.allowedHosts ∨
      port ∉ ALLOWED_PORTS then
    throw ("disallowed gatewayURL host or port: " ++ parsed.host)
  return parsed

/-- `job.data` -/
structure MediaData where
  payload : Option String
  /-- `none` where it is no number. -/
  chunkSize : Option ℤ
  roomId : Option String
  gatewayURL : Option String
  transferId : Option String
  mimeType : Option String
  fileName : Option String
  fileSize : Option ℤ

structure MediaChunk where
  seq : ℕ
  data : String
  total : ℕ
  roomId : Option String
  transferId : Option String
  mimeType : Option String
  fileName : Option String
  fileSize : Option ℤ

/-- A string that counts as true. -/
def truthy (field : Option String) : Option String := field.filter (· ≠ "")

/-- One chunk of the decoded payload. -/
def chunkAt (data : MediaData) (rawBytes : List UInt8) (chunkSize seq : ℕ) : MediaChunk where
  seq := seq
  data := Base64.encode (Pieces.piece chunkSize rawBytes seq)
  total := Pieces.count chunkSize rawBytes.length
  roomId := data.roomId
  transferId := data.transferId
  mimeType := data.mimeType
  fileName := data.fileName
  fileSize := data.fileSize

def chunksOf (data : MediaData) (rawBytes : List UInt8) (chunkSize : ℕ) : List MediaChunk :=
  (List.range (Pieces.count chunkSize rawBytes.length)).map (chunkAt data rawBytes chunkSize)

def splitPayload (node : NodeRuntime) (data : MediaData) : Except String (List MediaChunk) :=
  match truthy data.payload, data.chunkSize with
  | some payload, some chunkSize =>
    if chunkSize ≤ 0 then .error "media:chunk requires payload and positive chunkSize"
    else .ok (chunksOf data (node.bufferFrom payload) chunkSize.toNat)
  | _, _ => .error "media:chunk requires payload and positive chunkSize"

/-- A member that is left out where it is undefined. -/
def optional (key : String) (value : Option JsonRecord.Scalar) : JsonRecord.Record :=
  value.toList.map fun v => (key, v)

/-- The payload of a media envelope for one chunk. -/
def chunkPayload (jobId : String) (chunk : MediaChunk) : String :=
  JsonRecord.render false <|
    ("transferId", .str ((truthy chunk.transferId).getD jobId)) :: ("seq", .int chunk.seq) ::
      ("total", .int chunk.total) :: optional "mimeType" (chunk.mimeType.map .str) ++
        optional "fileName" (chunk.fileName.map .str) ++
          optional "fileSize" (chunk.fileSize.map .int) ++ [("chunk", .str chunk.data)]

structure FetchRequest where
  url : String
  method : String
  body : String

/-- The request for one chunk. -/
def broadcastRequest (gatewayURL roomId jobId : String) (chunk : MediaChunk) : FetchRequest where
  url := gatewayURL ++ "/api/rooms/" ++ encodeURIComponent roomId ++ "/broadcast"
  method := "POST"
  body := JsonRecord.render false
    [("type", .str "media"), ("payload", .str (chunkPayload jobId chunk))]

section
variable {ρ : Type}

/-- The loop over the chunks. A request that fails is logged. -/
def forwardChunks (fetch : MediaChunk → Except String ρ) : List MediaChunk → Except String Unit
  | [] => .ok ()
  | chunk :: rest => do
    tryCatch (discard (fetch chunk)) fun _ => pure ()
    forwardChunks fetch rest

/-- `processJob` for a `media:chunk` job; `fetch` is told the chunk whose request it
makes. -/
def processMediaChunk (node : NodeRuntime) (fetch : MediaChunk → FetchRequest → Except String ρ)
    (jobId : String) (data : MediaData) : Except String (List MediaChunk) := do
  let result ← splitPayload node data
  match truthy data.gatewayURL, truthy data.roomId with
  | some gatewayURL, some roomId =>
    let _ ← validateGatewayURL node gatewayURL
    forwardChunks (fun chunk => fetch chunk (broadcastRequest gatewayURL roomId jobId chunk)) result
    return result
  | _, _ => return result

end

/-! ### What a job comes to -/

section
variable {ρ : Type} {node : NodeRuntime} {data : MediaData} {payload : String} {chunkSize : ℤ}

/-- No request fails the loop. -/
theorem forwardChunks_ok (fetch : MediaChunk → Except String ρ) (chunks : List MediaChunk) :
    forwardChunks fetch chunks = .ok () := by
  induction chunks with
  | nil => rfl
  | cons chunk rest ih =>
      rw [forwardChunks, ih]
      cases h : fetch chunk with
      | ok response => rfl
      | error message => rfl

theorem splitPayload_ok (hpayload : truthy data.payload = some payload)
    (hsize : data.chunkSize = some chunkSize) (hpos : 0 < chunkSize) :
    splitPayload node data = .ok (chunksOf data (node.bufferFrom payload) chunkSize.toNat) := by
  rw [splitPayload, hpayload, hsize]
  exact if_neg (Int.not_le.mpr hpos)

/-- **The chunks carry the payload**, in their order. -/
theorem chunksOf_data {size : ℕ} (hpos : 0 < size) (data : MediaData) (rawBytes : List UInt8) :
    (chunksOf data rawBytes size).flatMap (fun chunk => (Base64.decode chunk.data).getD []) =
      rawBytes := by
  rw [chunksOf, List.flatMap_map]
  have hpiece : ∀ seq, (Base64.decode (chunkAt data rawBytes size seq).data).getD [] =
      Pieces.piece size rawBytes seq := by
    intro seq
    rw [chunkAt, Base64.decode_encode, Option.getD_some]
  simp only [hpiece]
  exact Pieces.flatMap_pieces hpos rawBytes

theorem chunksOf_eq_nil_iff {size : ℕ} (hpos : 0 < size) {rawBytes : List UInt8} :
    chunksOf data rawBytes size = [] ↔ rawBytes = [] := by
  constructor
  · intro h
    rw [← chunksOf_data hpos data rawBytes, h, List.flatMap_nil]
  · rintro rfl
    have hcount : Pieces.count size 0 = 0 :=
      Nat.le_zero.mp ((Pieces.count_le_iff hpos).mpr (Nat.zero_le _))
    rw [chunksOf, List.length_nil, hcount]
    rfl

/-- **A job with an allowed URL resolves**, whatever becomes of its requests. -/
theorem processMediaChunk_ok (fetch : MediaChunk → FetchRequest → Except String ρ) (jobId : String)
    {chunks : List MediaChunk} {gatewayURL roomId : String} {parsed : Url}
    (hsplit : splitPayload node data = .ok chunks) (hurl : truthy data.gatewayURL = some gatewayURL)
    (hroom : truthy data.roomId = some roomId)
    (hallowed : validateGatewayURL node gatewayURL = .ok parsed) :
    processMediaChunk node fetch jobId data = .ok chunks := by
  simp only [processMediaChunk, hsplit, hurl, hroom, hallowed, forwardChunks_ok]
  rfl

end

end TrapChat.Worker
