import TrapChat.Gateway.RoomApi
import TrapChat.Worker.MediaChunk

/-!
A `media:chunk` job against a gateway. The worker posts every chunk as a media
envelope, the gateway's broadcast endpoint takes errors and presence only, and the
worker does not look at the responses.

A request may be lost on its way, and so may the response to one that was handled. How
the HTTP stacks turn a URL into what a handler reads is left open, and the gateway may
be in any state at each request.
-/

namespace TrapChat.Network

open Gateway Protocol
open Storage (PeerID)
open Worker (MediaChunk MediaData NodeRuntime FetchRequest Url truthy splitPayload chunksOf
  chunkPayload broadcastRequest processMediaChunk validateGatewayURL)

/-- What becomes of a request; `fetch` throws unless it is answered. -/
inductive Fate
  | lost (message : String)
  | unanswered (message : String)
  | answered

/-- What a request meets on its way and at the gateway. -/
structure Hop where
  server : Server
  order : List PeerID
  now : Storage.Time
  fate : Fate
  /-- What `handleRoomSub` reads of the request, or the response of another handler. -/
  route : FetchRequest → Except Response Request

/-- What the gateway sends on a request, and what `fetch` settles with. -/
structure Exchange where
  sent : List Output
  result : Except String Response

section
variable (rt : GoRuntime) (cfg : ApiConfig)

def exchange (hop : Hop) (req : FetchRequest) : Exchange :=
  let handled : List Output × Response :=
    match hop.route req with
    | .ok r => (handleRoomSub rt cfg hop.server r hop.order hop.now).2
    | .error response => ([], response)
  match hop.fate with
  | .lost message => ⟨[], .error message⟩
  | .unanswered message => ⟨handled.1, .error message⟩
  | .answered => ⟨handled.1, .ok handled.2⟩

/-- The endpoint accepted the request and broadcast the payload as media to the room. -/
def MediaAccepted (server : Server) (room payload : String) (ex : Exchange) : Prop :=
  (∃ response, ex.result = .ok response ∧ response.status = 200) ∧
    ∃ env, .send (server.targets room "") env ∈ ex.sent ∧ env.type = .media ∧ env.room = room ∧
      env.payload = payload

/-- One attempt at a job, each of its requests meeting its own hop. -/
structure Attempt where
  node : NodeRuntime
  jobId : String
  data : MediaData
  gatewayURL : String
  roomId : String
  hops : MediaChunk → Hop

namespace Attempt
variable (a : Attempt)

def exchangeOf (chunk : MediaChunk) : Exchange :=
  exchange rt cfg (a.hops chunk) (broadcastRequest a.gatewayURL a.roomId a.jobId chunk)

/-- What `processJob` settles with. -/
def run : Except String (List MediaChunk) :=
  processMediaChunk a.node (fun chunk req => (exchange rt cfg (a.hops chunk) req).result)
    a.jobId a.data

def Accepts (chunk : MediaChunk) : Prop :=
  MediaAccepted (a.hops chunk).server a.roomId (chunkPayload a.jobId chunk) (a.exchangeOf rt cfg chunk)

/-- A job that resolves had every chunk accepted, and one with a chunk that is not
accepted rejects. -/
structure Delivers : Prop where
  resolved : ∀ result, a.run rt cfg = .ok result → ∀ chunk ∈ result, a.Accepts rt cfg chunk
  rejected : ∀ chunks, splitPayload a.node a.data = .ok chunks →
    (∃ chunk ∈ chunks, ¬a.Accepts rt cfg chunk) → ∃ message, a.run rt cfg = .error message

end Attempt

end

variable {rt : GoRuntime} {cfg : ApiConfig} {a : Attempt}

/-- No request has the gateway send media. -/
theorem not_media_of_sent {hop : Hop} {req : FetchRequest} {targets : Finset PeerID}
    {env : Envelope} (h : .send targets env ∈ (exchange rt cfg hop req).sent) :
    env.type ≠ .media := by
  have hhandled : ∀ r, .send targets env ∈
      (handleRoomSub rt cfg hop.server r hop.order hop.now).2.1 → env.type ≠ .media := by
    intro r hr
    rcases handleRoomSub_sends hr with htype | htype <;> simp [htype]
  unfold exchange at h
  cases hroute : hop.route req with
  | error response =>
      rw [hroute] at h
      cases hfate : hop.fate <;> simp [hfate] at h
  | ok r =>
      rw [hroute] at h
      cases hfate : hop.fate with
      | lost message => simp [hfate] at h
      | unanswered message | answered =>
          rw [hfate] at h
          exact hhandled r h

theorem Attempt.not_accepts (chunk : MediaChunk) : ¬a.Accepts rt cfg chunk := by
  rintro ⟨-, env, hsent, hmedia, -⟩
  exact not_media_of_sent hsent hmedia

/-- Where the job resolves, only a job without chunks delivers them all. -/
theorem Attempt.delivers_iff_nil {chunks : List MediaChunk}
    (hsplit : splitPayload a.node a.data = .ok chunks) (hrun : a.run rt cfg = .ok chunks) :
    a.Delivers rt cfg ↔ chunks = [] := by
  constructor
  · intro h
    refine List.eq_nil_iff_forall_not_mem.mpr fun chunk hchunk => ?_
    exact Attempt.not_accepts chunk (h.resolved chunks hrun chunk hchunk)
  · rintro rfl
    refine ⟨fun result hresult chunk hchunk => ?_, fun chunks hchunks => ?_⟩
    · cases hrun.symm.trans hresult
      cases hchunk
    · rintro ⟨chunk, hchunk, -⟩
      cases hsplit.symm.trans hchunks
      cases hchunk

section
variable {payload : String} {chunkSize : ℤ} {parsed : Url}

theorem Attempt.run_ok (hpayload : truthy a.data.payload = some payload)
    (hsize : a.data.chunkSize = some chunkSize) (hpos : 0 < chunkSize)
    (hroom : truthy a.data.roomId = some a.roomId)
    (hurl : truthy a.data.gatewayURL = some a.gatewayURL)
    (hallowed : validateGatewayURL a.node a.gatewayURL = .ok parsed) :
    a.run rt cfg = .ok (chunksOf a.data (a.node.bufferFrom payload) chunkSize.toNat) :=
  Worker.processMediaChunk_ok _ _ (Worker.splitPayload_ok hpayload hsize hpos) hurl hroom hallowed

end

/-- The request as it was sent, to a room whose name needs no escapes. -/
def plainRequest (room : String) (req : FetchRequest) : Request where
  method := req.method
  path := String.ofList (roomsPath ++ (room.toList ++ '/' :: "broadcast".toList))
  authorization := ""
  token := ""
  body := req.body

/-- What the endpoint answers to media where nothing is lost and no token is asked for. -/
theorem exchange_plain {hop : Hop} {req : FetchRequest} {room : String} {body : BroadcastBody}
    (hauth : cfg.authToken = "") (hroom : room.toList ≠ []) (hslash : '/' ∉ room.toList)
    (hpercent : '%' ∉ room.toList) (hfate : hop.fate = .answered)
    (hroute : hop.route req = .ok (plainRequest room req)) (hmethod : req.method = "POST")
    (hbody : decodeBroadcastBody req.body = some body) (hmedia : body.type = "media") :
    exchange rt cfg hop req =
      ⟨[], .ok ⟨400, "broadcast type " ++ cfg.quote "media" ++ " not allowed"⟩⟩ := by
  have hrefused : handleRoomSub rt cfg hop.server (plainRequest room req) hop.order hop.now =
      (hop.server, [], ⟨400, "broadcast type " ++ cfg.quote "media" ++ " not allowed"⟩) :=
    handleRoomSub_media hroom hslash hpercent (checkAuth_of_none hauth) hmethod rfl hbody hmedia
  simp only [exchange, hroute, hfate, hrefused]

theorem decode_broadcastRequest {gatewayURL roomId jobId : String} {chunk : MediaChunk}
    (h : (broadcastRequest gatewayURL roomId jobId chunk).body.utf8ByteSize ≤ maxBroadcastBody) :
    decodeBroadcastBody (broadcastRequest gatewayURL roomId jobId chunk).body =
      some ⟨"media", chunkPayload jobId chunk⟩ := by
  rw [decodeBroadcastBody, if_neg (Nat.not_lt.mpr h), broadcastRequest]
  dsimp only
  rw [JsonRecord.parse_render]
  rfl

/-- A chunk's request, unless its body is over the limit, is refused for its type. -/
theorem Attempt.exchangeOf_plain {chunk : MediaChunk} (hauth : cfg.authToken = "")
    (hroom : a.roomId.toList ≠ []) (hslash : '/' ∉ a.roomId.toList)
    (hpercent : '%' ∉ a.roomId.toList) (hfate : (a.hops chunk).fate = .answered)
    (hroute : ∀ req, (a.hops chunk).route req = .ok (plainRequest a.roomId req))
    (hsize : (broadcastRequest a.gatewayURL a.roomId a.jobId chunk).body.utf8ByteSize ≤
      maxBroadcastBody) :
    a.exchangeOf rt cfg chunk =
      ⟨[], .ok ⟨400, "broadcast type " ++ cfg.quote "media" ++ " not allowed"⟩⟩ :=
  exchange_plain hauth hroom hslash hpercent hfate (hroute _) rfl (decode_broadcastRequest hsize)
    rfl

/-- **Chunks are delivered exactly where there are none**: where the payload decodes to
no bytes. -/
theorem media_delivered_iff (rt : GoRuntime) (cfg : ApiConfig) (a : Attempt) (payload : String)
    (chunkSize : ℤ) (parsed : Url) (hpayload : truthy a.data.payload = some payload)
    (hsize : a.data.chunkSize = some chunkSize) (hpos : 0 < chunkSize)
    (hroom : truthy a.data.roomId = some a.roomId)
    (hurl : truthy a.data.gatewayURL = some a.gatewayURL)
    (hallowed : validateGatewayURL a.node a.gatewayURL = .ok parsed) :
    a.Delivers rt cfg ↔ a.node.bufferFrom payload = [] := by
  have hrun : a.run rt cfg = .ok _ := Attempt.run_ok hpayload hsize hpos hroom hurl hallowed
  rw [Attempt.delivers_iff_nil (Worker.splitPayload_ok hpayload hsize hpos) hrun]
  exact Worker.chunksOf_eq_nil_iff (Int.lt_toNat.mpr hpos)

/-- A message of two bytes, to a room with one member, with nothing lost. -/
def twoBytes : Attempt where
  node :=
    { bufferFrom := fun text => (Base64.decodeForgiving text).getD []
      parseURL := fun _ => .ok ⟨"http:", "localhost", "8080", "localhost:8080"⟩
      allowedHosts := ["localhost", "127.0.0.1"] }
  jobId := "j"
  data :=
    { payload := some "aGk=", chunkSize := some 100, roomId := some "r"
      gatewayURL := some "http://localhost:8080", transferId := none, mimeType := none
      fileName := none, fileSize := none }
  gatewayURL := "http://localhost:8080"
  roomId := "r"
  hops := fun _ =>
    { server := (newServer.register "p").joinStore "r" "p" 0 [] 0
      order := []
      now := 0
      fate := .answered
      route := fun req => .ok (plainRequest "r" req) }

theorem twoBytes_decoded : twoBytes.node.bufferFrom "aGk=" = [104, 105] := by decide

def openApi : ApiConfig := ⟨"", fun text => "\"" ++ text ++ "\""⟩

theorem media_delivered_iff_twoBytes :
    twoBytes.Delivers (asciiRuntime "" {}) openApi ↔ twoBytes.node.bufferFrom "aGk=" = [] :=
  media_delivered_iff (asciiRuntime "" {}) openApi twoBytes "aGk=" 100
    ⟨"http:", "localhost", "8080", "localhost:8080"⟩ (by decide) rfl (by decide) (by decide)
    (by decide) rfl

/-- A job that completes without its chunk having reached the room. -/
theorem twoBytes_undelivered : ¬∀ (rt : GoRuntime) (cfg : ApiConfig) (a : Attempt)
    (payload : String) (chunkSize : ℤ) (parsed : Url), truthy a.data.payload = some payload →
    a.data.chunkSize = some chunkSize → 0 < chunkSize → truthy a.data.roomId = some a.roomId →
    (∀ chunk, (a.hops chunk).server.store.peers a.roomId ≠ ∅) →
    truthy a.data.gatewayURL = some a.gatewayURL →
    validateGatewayURL a.node a.gatewayURL = .ok parsed → a.Delivers rt cfg := by
  intro h
  have hpayload : truthy twoBytes.data.payload = some "aGk=" := by decide
  have hroom : truthy twoBytes.data.roomId = some twoBytes.roomId := by decide
  have hurl : truthy twoBytes.data.gatewayURL = some twoBytes.gatewayURL := by decide
  have hmember : ((newServer.register "p").joinStore "r" "p" 0 [] 0).store.peers "r" ≠ ∅ := by
    decide
  have hdelivers := h (asciiRuntime "" {}) openApi twoBytes "aGk=" 100 _ hpayload rfl (by decide)
    hroom (fun _ => hmember) hurl rfl
  have hsize : twoBytes.data.chunkSize = some 100 := rfl
  have hrun : twoBytes.run (asciiRuntime "" {}) openApi = .ok _ :=
    Attempt.run_ok hpayload hsize (by decide) hroom hurl rfl
  have hsplit : splitPayload twoBytes.node twoBytes.data = .ok _ :=
    Worker.splitPayload_ok hpayload hsize (by decide)
  have hnil := (Attempt.delivers_iff_nil hsplit hrun).mp hdelivers
  have hempty := (Worker.chunksOf_eq_nil_iff (by decide)).mp hnil
  exact absurd (twoBytes_decoded.symm.trans hempty) (by decide)

end TrapChat.Network
