import TrapChat.Worker.MediaChunk

/-!
The worker's `room:cleanup` job. It asks a gateway for its rooms, then each room for its
state and its TTL, and has the gateway clean up those that are stale. A room whose
requests fail is left as it is.

Every request is made once in an attempt, so that its answer is a function of it.
-/

namespace TrapChat.Worker

open Client (encodeURIComponent)

inductive RoomAction
  | info
  | ttl
  | cleanup

def RoomAction.word : RoomAction → String
  | .info => "info"
  | .ttl => "ttl"
  | .cleanup => "cleanup"

def RoomAction.method : RoomAction → String
  | .info | .ttl => "GET"
  | .cleanup => "POST"

def roomsRequest (gatewayURL : String) : FetchRequest where
  url := gatewayURL ++ "/api/rooms"
  method := "GET"
  body := ""

def roomRequest (gatewayURL name : String) (action : RoomAction) : FetchRequest where
  url := gatewayURL ++ "/api/rooms/" ++ encodeURIComponent name ++ "/" ++ action.word
  method := action.method
  body := ""

structure FetchResponse where
  status : ℕ
  body : String

def FetchResponse.ok (res : FetchResponse) : Bool := 200 ≤ res.status ∧ res.status ≤ 299

structure RoomInfo where
  peers : ℤ
  /-- In milliseconds; `none` for no valid date. -/
  lastActivity : Option ℤ

structure RoomTTL where
  ttlSeconds : ℤ
  expiresAt : ℤ

/-- What an attempt meets. -/
structure CleanupRuntime where
  fetch : FetchRequest → Except String FetchResponse
  /-- The names in the list of rooms. -/
  rooms : FetchResponse → Except String (List String)
  info : FetchResponse → Except String RoomInfo
  ttl : FetchResponse → Except String RoomTTL
  /-- `Date.now()` after a request. -/
  now : FetchRequest → ℤ

/-- 30 minutes. -/
def defaultStaleThreshold : ℤ := 30 * 60 * 1000

def CONCURRENCY : ℕ := 10

section
variable (env : CleanupRuntime) (gatewayURL name : String)

/-- The inner `try` block. -/
def ttlExpired : Except String Bool := do
  let request := roomRequest gatewayURL name .ttl
  let ttlRes ← env.fetch request
  if !ttlRes.ok then return false
  let ttlData ← env.ttl ttlRes
  return 0 < ttlData.ttlSeconds ∧ 0 < ttlData.expiresAt ∧ ttlData.expiresAt < env.now request

def isIdle (info : RoomInfo) : Bool :=
  match info.lastActivity with
  | none => false
  | some t =>
    info.peers = 0 ∧ defaultStaleThreshold < env.now (roomRequest gatewayURL name .ttl) - t

/-- The outer `try` block. -/
def checkRoom : Except String Bool := do
  let infoRes ← env.fetch (roomRequest gatewayURL name .info)
  if !infoRes.ok then return false
  let info ← env.info infoRes
  let expired ← tryCatch (ttlExpired env gatewayURL name) fun _ => pure false
  return expired || isIdle env gatewayURL name info

def shouldCleanRoom : Bool :=
  match checkRoom env gatewayURL name with
  | .ok stale => stale
  | .error _ => false

/-- What `Promise.allSettled` is given for a room. -/
def cleanRoom : Except String Bool := do
  if !shouldCleanRoom env gatewayURL name then return false
  let cleanRes ← env.fetch (roomRequest gatewayURL name .cleanup)
  return cleanRes.ok

/-- `r.status === 'fulfilled' && r.value` -/
def isCleaned : Bool :=
  match cleanRoom env gatewayURL name with
  | .ok cleaned => cleaned
  | .error _ => false

end

structure CleanupResult where
  checked : ℕ
  cleaned : ℕ

/-- The loop over the batches. -/
def cleanBatches (env : CleanupRuntime) (gatewayURL : String) (rooms : List String) : ℕ :=
  ((List.range (Pieces.count CONCURRENCY rooms.length)).map (Pieces.piece CONCURRENCY rooms)).foldl
    (fun cleaned batch => cleaned + batch.countP (isCleaned env gatewayURL)) 0

/-- `processJob` for a `room:cleanup` job. -/
def processRoomCleanup (node : NodeRuntime) (env : CleanupRuntime) (gatewayURL : Option String) :
    Except String CleanupResult := do
  let gatewayURL := gatewayURL.getD ""
  let _ ← validateGatewayURL node gatewayURL
  let roomsRes ← env.fetch (roomsRequest gatewayURL)
  if !roomsRes.ok then throw ("failed to fetch rooms: " ++ toString roomsRes.status)
  let rooms ← env.rooms roomsRes
  return { checked := rooms.length, cleaned := cleanBatches env gatewayURL rooms }

/-! ### What the rooms come to -/

section
variable {env : CleanupRuntime} {gatewayURL name : String}

theorem foldl_countP (p : String → Bool) (batches : List (List String)) (n : ℕ) :
    batches.foldl (fun cleaned batch => cleaned + batch.countP p) n =
      n + (batches.flatMap id).countP p := by
  induction batches generalizing n with
  | nil => rfl
  | cons batch rest ih =>
      rw [List.foldl_cons, ih, List.flatMap_cons, List.countP_append, Nat.add_assoc]
      rfl

/-- The batches make no difference: every room is counted that is cleaned. -/
theorem cleanBatches_eq (rooms : List String) :
    cleanBatches env gatewayURL rooms = rooms.countP (isCleaned env gatewayURL) := by
  rw [cleanBatches, foldl_countP, Nat.zero_add, List.flatMap_map]
  exact congrArg _ (Pieces.flatMap_pieces (by decide) rooms)

/-- **A room comes to what its three requests are answered.** -/
theorem isCleaned_congr {fetch : FetchRequest → Except String FetchResponse}
    (h : ∀ action, fetch (roomRequest gatewayURL name action) =
      env.fetch (roomRequest gatewayURL name action)) :
    isCleaned { env with fetch := fetch } gatewayURL name = isCleaned env gatewayURL name := by
  have hcheck : checkRoom { env with fetch := fetch } gatewayURL name =
      checkRoom env gatewayURL name := by
    simp only [checkRoom, ttlExpired, isIdle, h]
  have hclean : cleanRoom { env with fetch := fetch } gatewayURL name =
      cleanRoom env gatewayURL name := by
    rw [cleanRoom, cleanRoom, shouldCleanRoom, shouldCleanRoom, hcheck]
    simp only [h]
  rw [isCleaned, isCleaned, hclean]

/-- A room whose state is not to be had is left as it is. -/
theorem isCleaned_of_refused {res : FetchResponse}
    (hfetch : env.fetch (roomRequest gatewayURL name .info) = .ok res) (hres : res.ok = false) :
    isCleaned env gatewayURL name = false := by
  have hcheck : checkRoom env gatewayURL name = .ok false := by
    simp only [checkRoom, hfetch]
    show (if (!res.ok) = true then Except.ok false else _) = _
    rw [hres]
    rfl
  have hstale : shouldCleanRoom env gatewayURL name = false := by
    rw [shouldCleanRoom, hcheck]
  rw [isCleaned, cleanRoom, hstale]
  rfl

variable {node : NodeRuntime} {parsed : Url} {res : FetchResponse} {rooms : List String}

/-- **What the job resolves with**: every room on the list is checked, and cleaned if it is
stale and the gateway agrees. -/
theorem processRoomCleanup_ok (hallowed : validateGatewayURL node gatewayURL = .ok parsed)
    (hfetch : env.fetch (roomsRequest gatewayURL) = .ok res) (hres : res.ok = true)
    (hrooms : env.rooms res = .ok rooms) :
    processRoomCleanup node env (some gatewayURL) =
      .ok ⟨rooms.length, rooms.countP (isCleaned env gatewayURL)⟩ := by
  simp only [processRoomCleanup, Option.getD_some, hallowed, hfetch]
  show (if (!res.ok) = true then _ else _) = _
  rw [hres]
  show (env.rooms res >>= fun rooms => _) = _
  rw [hrooms]
  show Except.ok (CleanupResult.mk rooms.length (cleanBatches env gatewayURL rooms)) = _
  rw [cleanBatches_eq]

/-- **The job makes no other requests** than for the list, and three for each room on it. -/
theorem processRoomCleanup_congr {fetch : FetchRequest → Except String FetchResponse}
    (hallowed : validateGatewayURL node gatewayURL = .ok parsed)
    (hfetch : env.fetch (roomsRequest gatewayURL) = .ok res) (hres : res.ok = true)
    (hrooms : env.rooms res = .ok rooms)
    (hlist : fetch (roomsRequest gatewayURL) = env.fetch (roomsRequest gatewayURL))
    (hroom : ∀ name ∈ rooms, ∀ action, fetch (roomRequest gatewayURL name action) =
      env.fetch (roomRequest gatewayURL name action)) :
    processRoomCleanup node { env with fetch := fetch } (some gatewayURL) =
      processRoomCleanup node env (some gatewayURL) := by
  have hother : processRoomCleanup node { env with fetch := fetch } (some gatewayURL) =
      .ok ⟨rooms.length, rooms.countP (isCleaned { env with fetch := fetch } gatewayURL)⟩ :=
    processRoomCleanup_ok hallowed (hlist.trans hfetch) hres hrooms
  have hcount : rooms.countP (isCleaned { env with fetch := fetch } gatewayURL) =
      rooms.countP (isCleaned env gatewayURL) :=
    List.countP_congr fun name hname => by rw [isCleaned_congr (hroom name hname)]
  rw [hother, processRoomCleanup_ok hallowed hfetch hres hrooms, hcount]

end

end TrapChat.Worker
