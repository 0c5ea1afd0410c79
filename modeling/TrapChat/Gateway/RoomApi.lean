import TrapChat.Gateway.Handler
import TrapChat.Library.PercentEncoding

/-!
The gateway's HTTP endpoints under `/api/rooms/`. An action is taken on a room whose
name is in the path; what a response says beyond its status and error text is left
out.
-/

namespace TrapChat.Gateway

open Storage Protocol

/-- A request as the handler reads it; the path is already unescaped once. -/
structure Request where
  method : String
  path : String
  authorization : String
  /-- The query parameter. -/
  token : String
  body : String

structure Response where
  status : ℕ
  error : String
deriving DecidableEq, Repr

def ok : Response := ⟨200, ""⟩

/-- `strings.TrimPrefix`. -/
def trimFront (front cs : List Char) : List Char :=
  if front.isPrefixOf cs then cs.drop front.length else cs

/-- The token of a request: the bearer token, or else the query parameter. -/
def requestToken (r : Request) : String :=
  let token := String.ofList (trimFront "Bearer ".toList r.authorization.toList)
  if token = "" ∨ token = r.authorization then r.token else token

def checkAuth (authToken : String) (r : Request) : Bool :=
  authToken = "" || requestToken r = authToken

def roomsPath : List Char := "/api/rooms/".toList

/-- The escaped room name and the action of a path. -/
def roomSubPath (path : String) : Option (List Char × String) :=
  match (trimFront roomsPath path.toList).span (· ≠ '/') with
  | (name, _ :: action) => if name = [] then none else some (name, String.ofList action)
  | (_, []) => none

/-- The body of a broadcast request. -/
structure BroadcastBody where
  type : String
  payload : String

def maxBroadcastBody : ℕ := 1048576

def decodeBroadcastBody (text : String) : Option BroadcastBody :=
  if text.utf8ByteSize > maxBroadcastBody then none
  else (JsonRecord.parse text).bind fun r => do
    let type ← stringField r "type"
    let payload ← stringField r "payload"
    some ⟨type, payload⟩

def allowedBroadcastTypes (t : MessageType) : Bool := t = .error || t = .presence

/-- What the handlers take from `fmt` and from the configuration. -/
structure ApiConfig where
  authToken : String
  /-- The verb `%q`. -/
  quote : String → String

section
variable (rt : GoRuntime) (cfg : ApiConfig) (s : Server)

/-- The action `broadcast`. -/
def handleBroadcast (room : RoomName) (body : String) (now : Time) : List Output × Response :=
  match decodeBroadcastBody body with
  | none => ([], ⟨400, "invalid json"⟩)
  | some body =>
    let msgType := MessageType.ofWire body.type
    if allowedBroadcastTypes msgType then
      let env : Envelope :=
        { type := msgType, room := room, payload := body.payload, id := "__worker__",
          timestamp := unixMilli now }
      ([broadcast rt s room env ""], ok)
    else ([], ⟨400, "broadcast type " ++ cfg.quote body.type ++ " not allowed"⟩)

/-- `handleRoomSub`; `order` is that in which a cleanup takes the members. -/
def handleRoomSub (r : Request) (order : List PeerID) (now : Time) :
    Server × List Output × Response :=
  if !checkAuth cfg.authToken r then (s, [], ⟨401, "unauthorized"⟩)
  else match roomSubPath r.path with
    | none => (s, [], ⟨404, "not found"⟩)
    | some (name, action) =>
      match PercentEncoding.decodeChars name with
      | none => (s, [], ⟨400, "invalid room name encoding"⟩)
      | some room =>
        if action = "info" ∨ action = "ttl" then
          if r.method ≠ "GET" then (s, [], ⟨405, "method not allowed"⟩) else (s, [], ok)
        else if action = "cleanup" then
          if r.method ≠ "POST" then (s, [], ⟨405, "method not allowed"⟩)
          else
            let (s, outs) := cleanupRoom s room "__cleanup__" order now
            (s, outs, ok)
        else if action = "broadcast" then
          if r.method ≠ "POST" then (s, [], ⟨405, "method not allowed"⟩)
          else (s, handleBroadcast rt cfg s room r.body now)
        else (s, [], ⟨404, "not found"⟩)

end

/-! ### What an endpoint sends -/

section
variable {rt : GoRuntime} {cfg : ApiConfig} {s : Server} {r : Request} {order : List PeerID}
  {now : Time}

theorem handleBroadcast_sends {room : RoomName} {body : String} {o : Output}
    (h : o ∈ (handleBroadcast rt cfg s room body now).1) :
    ∃ env, o = broadcast rt s room env "" ∧ (env.type = .error ∨ env.type = .presence) := by
  unfold handleBroadcast at h
  split at h
  · cases h
  · dsimp only at h
    split at h
    · next hallowed =>
        obtain rfl := List.mem_singleton.mp h
        refine ⟨_, rfl, ?_⟩
        simpa [allowedBroadcastTypes] using hallowed
    · cases h

/-- A cleanup closes connections and sends nothing. -/
theorem disconnectPeers_closes {room : RoomName} {peers : List PeerID} {o : Output}
    (h : o ∈ (disconnectPeers room now peers s).2) : ∃ p, o = .close p := by
  induction peers generalizing s with
  | nil => cases h
  | cons p peers ih =>
      rcases List.mem_append.mp h with h | h
      · split at h
        · exact ⟨p, List.mem_singleton.mp h⟩
        · cases h
      · exact ih h

/-- **The endpoints send errors and presence, and nothing else.** -/
theorem handleRoomSub_sends {targets : Finset PeerID} {env : Envelope}
    (h : .send targets env ∈ (handleRoomSub rt cfg s r order now).2.1) :
    env.type = .error ∨ env.type = .presence := by
  unfold handleRoomSub at h
  split at h
  · cases h
  · split at h
    · cases h
    · split at h
      · cases h
      · split at h
        · split at h <;> cases h
        · split at h
          · split at h
            · cases h
            · obtain ⟨p, hp⟩ := disconnectPeers_closes h
              cases hp
          · split at h
            · split at h
              · cases h
              · obtain ⟨env', heq, htype⟩ := handleBroadcast_sends h
                cases heq
                exact htype
            · cases h

/-- **A request that is refused changes nothing and is told to nobody.** -/
theorem handleRoomSub_refused (h : (handleRoomSub rt cfg s r order now).2.2 ≠ ok) :
    (handleRoomSub rt cfg s r order now).1 = s ∧
      (handleRoomSub rt cfg s r order now).2.1 = [] := by
  unfold handleRoomSub at h ⊢
  split
  · exact ⟨rfl, rfl⟩
  · next hauth =>
      rw [if_neg hauth] at h
      split
      · exact ⟨rfl, rfl⟩
      · next name action hpath =>
          rw [hpath] at h
          dsimp only at h
          split
          · exact ⟨rfl, rfl⟩
          · next room hname =>
              rw [hname] at h
              dsimp only at h
              split_ifs at h ⊢ with hinfo hget hcleanup hpost hbroadcast hpost'
              all_goals first | exact absurd rfl h | exact ⟨rfl, rfl⟩ | skip
              -- what is left is the broadcast, which leaves the state alone in any case
              refine ⟨rfl, ?_⟩
              unfold handleBroadcast at h ⊢
              split
              · rfl
              · next body hbody =>
                  rw [hbody] at h
                  dsimp only at h ⊢
                  split_ifs at h ⊢
                  · exact absurd rfl h
                  · rfl

/-! ### A broadcast by the book -/

theorem trimFront_append (front cs : List Char) : trimFront front (front ++ cs) = cs := by
  have h : front.isPrefixOf (front ++ cs) = true :=
    List.isPrefixOf_iff_prefix.mpr (List.prefix_append front cs)
  rw [trimFront, if_pos h, List.drop_left]

theorem roomSubPath_of_name {name : List Char} (hname : name ≠ []) (hslash : '/' ∉ name)
    (action : String) :
    roomSubPath (String.ofList (roomsPath ++ (name ++ '/' :: action.toList))) =
      some (name, action) := by
  have hspan : (name ++ '/' :: action.toList).span (· ≠ '/') = (name, '/' :: action.toList) := by
    have hall : ∀ c ∈ name, decide (c ≠ '/') = true := by
      intro c hc
      exact decide_eq_true fun heq => hslash (heq ▸ hc)
    rw [List.span_eq_takeWhile_dropWhile, List.takeWhile_append_of_pos hall,
      List.dropWhile_append_of_pos hall]
    simp
  unfold roomSubPath
  rw [String.toList_ofList, trimFront_append, hspan]
  simp [hname]

theorem checkAuth_of_none (h : cfg.authToken = "") : checkAuth cfg.authToken r = true := by
  rw [checkAuth, h]
  rfl

/-- A media broadcast, to a room whose name needs no escapes, is refused for its type. -/
theorem handleRoomSub_media {name : List Char} (hname : name ≠ []) (hslash : '/' ∉ name)
    (hpercent : '%' ∉ name) {body : BroadcastBody} (hauth : checkAuth cfg.authToken r = true)
    (hmethod : r.method = "POST")
    (hpath : r.path = String.ofList (roomsPath ++ (name ++ '/' :: "broadcast".toList)))
    (hbody : decodeBroadcastBody r.body = some body) (hmedia : body.type = "media") :
    handleRoomSub rt cfg s r order now =
      (s, [], ⟨400, "broadcast type " ++ cfg.quote "media" ++ " not allowed"⟩) := by
  have hrefused : allowedBroadcastTypes (.ofWire "media") = false := by decide
  have hget : ¬("broadcast" = "info" ∨ "broadcast" = "ttl") := by decide
  have hcleanup : ¬("broadcast" = "cleanup") := by decide
  have hhandled : handleBroadcast rt cfg s (String.ofList name) r.body now =
      ([], ⟨400, "broadcast type " ++ cfg.quote "media" ++ " not allowed"⟩) := by
    simp [handleBroadcast, hbody, hmedia, hrefused]
  have hsub : roomSubPath r.path = some (name, "broadcast") := by
    rw [hpath]
    exact roomSubPath_of_name hname hslash _
  simp only [handleRoomSub, hauth, hsub, PercentEncoding.decodeChars_of_plain hpercent, hget,
    hcleanup, hmethod, hhandled, Bool.not_true, Bool.false_eq_true, ne_eq, not_true_eq_false,
    if_true, if_false]

end

end TrapChat.Gateway
