import TrapChat.Library.JsValue
import TrapChat.Worker.RateLimit
import TrapChat.Worker.Status

/-!
The HTTP service of the worker: who may ask it, how it reads the body of a submission, and what it
answers. A request is handled when its head has arrived; the body of a submission comes in chunks
afterwards, while other requests are handled and the manager goes on.

A body that grows too large destroys its request. A destroyed request ends with no `end` event, so
that the answer for this case is never given. A request whose target is no URL ends the process.
-/

namespace TrapChat.Worker

open Transition JsValue

def MAX_BODY : ℕ := 1024 * 1024

/-- What the source takes from Node. -/
structure HttpRuntime where
  sha256 : String → List UInt8
  /-- `String(chunk)` of a buffer -/
  decode : List UInt8 → Text
  decode_length : ∀ bytes, (decode bytes).length ≤ bytes.length
  parse : Text → Option Json
  string : Text → String
  string_ne : ∀ t, t ≠ [] → string t ≠ ""

/-- The head of a request. -/
structure HttpRequest where
  method : String
  /-- `none` where `new URL` throws. -/
  pathname : Option String
  authorization : String
  remoteAddress : String
  deriving DecidableEq

inductive HttpAnswer (ρ : Type*)
  | health (queued : ℕ)
  | error (status : ℕ) (message : String)
  | created (id : JobId)
  | job (id : JobId) (status : Status ρ)
  | deadLetters (letters : List DeadLetter)
  | notFound

/-- A submission whose body is being read. -/
structure Reading where
  request : HttpRequest
  body : Text

structure HttpServer (ρ : Type*) where
  rateLimitMap : RateLimitMap String
  service : Service Json ρ
  reading : List Reading
  crashed : Bool
  /-- `server.close()` has been called. -/
  closed : Bool
  /-- All answers that have been given, and the submissions that `checkRateLimit` was asked about. -/
  answers : List (HttpRequest × HttpAnswer ρ)
  submissions : Requests String

inductive HttpAction (ρ : Type*)
  | request (req : HttpRequest) (now : Time)
  | data (i : ℕ) (chunk : List UInt8)
  /-- The end of a body, with the id and the time for `enqueue`. -/
  | ends (i : ℕ) (id : JobId) (now : Time)
  /-- The connection of a submission is lost. -/
  | lost (i : ℕ)
  | manager (a : ServiceAction Json ρ)
  | shutdown

section
variable (rt : HttpRuntime) (AUTH_TOKEN : String)

def bearerToken (authorization : String) : String :=
  if "Bearer ".toList <+: authorization.toList then String.ofList (authorization.toList.drop 7)
  else ""

def authorized (req : HttpRequest) : Bool :=
  if AUTH_TOKEN = "" then true
  else
    let token := bearerToken req.authorization
    if token = "" then false else rt.sha256 token = rt.sha256 AUTH_TOKEN

/-- The id in `/jobs/:id`. -/
def jobPath (pathname : String) : Option JobId :=
  if "/jobs/".toList <+: pathname.toList then
    let id := pathname.toList.drop 6
    if id ≠ [] ∧ '/' ∉ id then some (String.ofList id) else none
  else none

/-- What is submitted with a body, or the error. -/
def readJob (body : Text) : Except String (Text × Option Json) :=
  match rt.parse body with
  | none | some .null => .error "invalid json"
  | some job =>
    match job.get (text "type") with
    | some (.str type) =>
      if type = [] then .error "type must be a non-empty string"
      else
        match job.get (text "data") with
        | none => .ok (type, none)
        | some (.obj members) => .ok (type, some (.obj members))
        | some _ => .error "data must be an object"
    | _ => .error "type must be a non-empty string"

end

namespace HttpServer

variable {ρ : Type*}

def new : HttpServer ρ := ⟨.empty, .new, [], false, false, [], []⟩

def answer (req : HttpRequest) (a : HttpAnswer ρ) (s : HttpServer ρ) : HttpServer ρ :=
  { s with answers := s.answers ++ [(req, a)] }

section
variable (rt : HttpRuntime) (AUTH_TOKEN : String)

/-- `POST /jobs`, up to the body. -/
def submit (req : HttpRequest) (now : Time) (s : HttpServer ρ) : HttpServer ρ :=
  let (rateLimitMap, accepted) := checkRateLimit s.rateLimitMap req.remoteAddress now
  let s := { s with
    rateLimitMap := rateLimitMap
    submissions := s.submissions ++ [(req.remoteAddress, now)] }
  if accepted then { s with reading := s.reading ++ [⟨req, []⟩] }
  else s.answer req (.error 429 "rate limit exceeded")

def handle (req : HttpRequest) (now : Time) (s : HttpServer ρ) : HttpServer ρ :=
  match req.pathname with
  | none => { s with crashed := true }
  | some pathname =>
    if pathname = "/health" ∧ req.method = "GET" then
      s.answer req (.health s.service.world.manager.queue.items.length)
    else if !authorized rt AUTH_TOKEN req then s.answer req (.error 401 "unauthorized")
    else if pathname = "/jobs" ∧ req.method = "POST" then s.submit req now
    else
      match jobPath pathname with
      | some id =>
        if req.method = "GET" then s.answer req (.job id (getJob s.service id))
        else s.answer req .notFound
      | none =>
        if pathname = "/dead-letters" ∧ req.method = "GET" then
          s.answer req (.deadLetters s.service.world.manager.queue.deadLetters)
        else s.answer req .notFound

def drop (i : ℕ) (s : HttpServer ρ) : HttpServer ρ := { s with reading := s.reading.eraseIdx i }

def step (s : HttpServer ρ) (a : HttpAction ρ) : Option (HttpServer ρ) :=
  if s.crashed then none
  else
    match a with
    | .request req now => if s.closed then none else some (s.handle rt AUTH_TOKEN req now)
    | .data i chunk =>
      s.reading[i]?.map fun r =>
        if MAX_BODY < r.body.length + chunk.length then s.drop i
        else { s with reading := s.reading.set i ⟨r.request, r.body ++ rt.decode chunk⟩ }
    | .ends i id now =>
      s.reading[i]?.bind fun r =>
        match readJob rt r.body with
        | .error message => some ((s.drop i).answer r.request (.error 400 message))
        | .ok (type, data) =>
          (serviceStep s.service (.post id (rt.string type) data now)).map fun service =>
            { s.drop i with service := service }.answer r.request (.created id)
    | .lost i => if i < s.reading.length then some (s.drop i) else none
    | .manager (.post ..) => none
    | .manager a => (serviceStep s.service a).map fun service => { s with service := service }
    | .shutdown =>
      (serviceStep s.service (.worker .stop)).map fun service =>
        { s with service := service, closed := true }

end

/-! ### What the service does with the jobs -/

/-- The jobs that clients have been told of. -/
def createdIds (answers : List (HttpRequest × HttpAnswer ρ)) : List JobId :=
  answers.filterMap fun a =>
    match a.2 with
    | .created id => some id
    | _ => none

/-- How many jobs an address has been told of. -/
def createdBy (ip : String) (answers : List (HttpRequest × HttpAnswer ρ)) : ℕ :=
  answers.countP fun a => a.1.remoteAddress = ip && (match a.2 with
    | .created _ => true
    | _ => false)

def readingBy (ip : String) (reading : List Reading) : ℕ :=
  reading.countP fun r => r.request.remoteAddress = ip

/-- The request may be answered so. -/
def Permitted (rt : HttpRuntime) (AUTH_TOKEN : String) (req : HttpRequest) :
    HttpAnswer ρ → Prop
  | .health _ => True
  | .error status _ => status = 401 ↔ authorized rt AUTH_TOKEN req = false
  | _ => authorized rt AUTH_TOKEN req = true

structure Admits (rt : HttpRuntime) (AUTH_TOKEN : String) (s : HttpServer ρ) : Prop where
  reached : Reachable serviceStep .new s.service
  created : (createdIds s.answers).reverse = enqueuedIds s.service.world.log
  permitted : ∀ a ∈ s.answers, Permitted rt AUTH_TOKEN a.1 a.2
  reading : ∀ r ∈ s.reading, authorized rt AUTH_TOKEN r.request = true
  limits : s.rateLimitMap = afterRequests .empty s.submissions
  counted : ∀ ip, createdBy ip s.answers + readingBy ip s.reading ≤
    (decisions ip .empty s.submissions).count true

variable {rt : HttpRuntime} {AUTH_TOKEN : String} {s s' : HttpServer ρ} {req : HttpRequest}
  {a : HttpAnswer ρ} {now : Time} {i : ℕ}

theorem admits_new : Admits rt AUTH_TOKEN (new : HttpServer ρ) where
  reached := .start
  created := rfl
  permitted := fun _ h => absurd h List.not_mem_nil
  reading := fun _ h => absurd h List.not_mem_nil
  limits := rfl
  counted := fun _ => Nat.le_refl _

theorem createdIds_append (answers answers' : List (HttpRequest × HttpAnswer ρ)) :
    createdIds (answers ++ answers') = createdIds answers ++ createdIds answers' :=
  List.filterMap_append

/-- An answer that tells of no job. -/
theorem Admits.answer (h : Admits rt AUTH_TOKEN s) (ha : Permitted rt AUTH_TOKEN req a)
    (hnone : ∀ id, a ≠ .created id) : Admits rt AUTH_TOKEN (s.answer req a) where
  reached := h.reached
  created := by
    have hids : createdIds [(req, a)] = [] := by
      cases a with
      | created id => exact absurd rfl (hnone id)
      | _ => rfl
    rw [HttpServer.answer, createdIds_append, hids, List.append_nil]
    exact h.created
  permitted := by
    intro x hx
    rcases List.mem_append.mp hx with hold | hnew
    · exact h.permitted x hold
    · rw [List.mem_singleton.mp hnew]
      exact ha
  reading := h.reading
  limits := h.limits
  counted := by
    intro ip
    have hzero : createdBy ip [(req, a)] = 0 := by
      cases a with
      | created id => exact absurd rfl (hnone id)
      | _ => simp [createdBy]
    have hsum : createdBy ip (s.answers ++ [(req, a)]) = createdBy ip s.answers := by
      rw [createdBy, List.countP_append]
      exact congrArg (_ + ·) hzero
    rw [HttpServer.answer, hsum]
    exact h.counted ip

/-- Nothing but the service changes, and no job is enqueued. -/
theorem Admits.serve (h : Admits rt AUTH_TOKEN s) {service : Service Json ρ} {closed : Bool}
    {action : ServiceAction Json ρ} (hstep : serviceStep s.service action = some service)
    (hids : enqueuedIds service.world.log = enqueuedIds s.service.world.log) :
    Admits rt AUTH_TOKEN { s with service := service, closed := closed } :=
  { h with
    reached := h.reached.next trivial hstep
    created := h.created.trans hids.symm }

/-- Fewer bodies are read, or one has grown. -/
theorem Admits.read (h : Admits rt AUTH_TOKEN s) {reading : List Reading}
    (hreading : ∀ r ∈ reading, authorized rt AUTH_TOKEN r.request = true)
    (hcount : ∀ ip, readingBy ip reading ≤ readingBy ip s.reading) :
    Admits rt AUTH_TOKEN { s with reading := reading } :=
  { h with
    reading := hreading
    counted := fun ip => (Nat.add_le_add_left (hcount ip) _).trans (h.counted ip) }

theorem Admits.drop (h : Admits rt AUTH_TOKEN s) (i : ℕ) : Admits rt AUTH_TOKEN (s.drop i) :=
  h.read (fun r hr => h.reading r (List.mem_of_mem_eraseIdx hr))
    fun _ => (List.eraseIdx_sublist _ _).countP_le

theorem Admits.submit (h : Admits rt AUTH_TOKEN s) (hauth : authorized rt AUTH_TOKEN req = true)
    (now : Time) : Admits rt AUTH_TOKEN (s.submit req now) := by
  -- the decision is the last one of the address
  have hdecisions : ∀ ip, decisions ip .empty (s.submissions ++ [(req.remoteAddress, now)]) =
      decisions ip .empty s.submissions ++
        if req.remoteAddress = ip then
          [(checkRateLimit s.rateLimitMap req.remoteAddress now).2] else [] := by
    intro ip
    rw [decisions_append, ← h.limits]
    by_cases hip : req.remoteAddress = ip
    · rw [if_pos hip, ← hip, decisions_cons_self]
      rfl
    · rw [if_neg hip, decisions_cons_of_ne hip]
      rfl
  have hasked : Admits rt AUTH_TOKEN { s with
      rateLimitMap := (checkRateLimit s.rateLimitMap req.remoteAddress now).1
      submissions := s.submissions ++ [(req.remoteAddress, now)] } :=
    { h with
      limits := by
        rw [h.limits]
        simp [afterRequests]
      counted := by
        intro ip
        rw [hdecisions, List.count_append]
        exact (h.counted ip).trans (Nat.le_add_right _ _) }
  rw [HttpServer.submit]
  dsimp only
  split
  · rename_i haccepted
    refine { hasked with reading := fun r hr => ?_, counted := fun ip => ?_ }
    · rcases List.mem_append.mp hr with hold | hnew
      · exact h.reading r hold
      · rw [List.mem_singleton.mp hnew]
        exact hauth
    · have hcount := h.counted ip
      rw [hdecisions, List.count_append, haccepted]
      have hone : readingBy ip (s.reading ++ [⟨req, []⟩]) =
          readingBy ip s.reading + if req.remoteAddress = ip then 1 else 0 := by
        by_cases hip : req.remoteAddress = ip <;> simp [readingBy, List.countP_append, hip]
      show createdBy ip s.answers + readingBy ip (s.reading ++ [⟨req, []⟩]) ≤ _
      rw [hone]
      by_cases hip : req.remoteAddress = ip
      · rw [if_pos hip, if_pos hip, List.count_singleton_self]
        omega
      · rw [if_neg hip, if_neg hip]
        exact hcount
  · exact hasked.answer (iff_of_false (by decide) (by simp [hauth])) fun id h => by cases h

theorem Admits.handle (h : Admits rt AUTH_TOKEN s) (req : HttpRequest) (now : Time) :
    Admits rt AUTH_TOKEN (s.handle rt AUTH_TOKEN req now) := by
  rw [HttpServer.handle]
  split
  · exact { h with }
  · split
    · exact h.answer trivial fun id h => by cases h
    · by_cases hauth : authorized rt AUTH_TOKEN req = true
      · rw [hauth, Bool.not_true, if_neg Bool.false_ne_true]
        split
        · exact h.submit hauth now
        · split
          · split
            · exact h.answer hauth fun id h => by cases h
            · exact h.answer hauth fun id h => by cases h
          · split
            · exact h.answer hauth fun id h => by cases h
            · exact h.answer hauth fun id h => by cases h
      · rw [Bool.not_eq_true] at hauth
        rw [hauth, Bool.not_false, if_pos rfl]
        exact h.answer (iff_of_true rfl hauth) fun id h => by cases h

/-! ### Bodies and jobs -/

theorem enqueuedIds_of_post {service service' : Service Json ρ} {id : JobId} {type : String}
    {data : Option Json} (htype : type ≠ "")
    (hstep : serviceStep service (.post id type data now) = some service') :
    enqueuedIds service'.world.log = id :: enqueuedIds service.world.log := by
  rw [serviceStep, if_neg htype] at hstep
  obtain ⟨world, hworld, rfl⟩ := Option.map_eq_some_iff.mp hstep
  show enqueuedIds world.log = _
  rw [(log_of_enqueue hworld).2]
  rfl

theorem enqueuedIds_of_manager {service service' : Service Json ρ} {action : ServiceAction Json ρ}
    (hpost : ∀ id type data now, action ≠ .post id type data now)
    (hstep : serviceStep service action = some service') :
    enqueuedIds service'.world.log = enqueuedIds service.world.log := by
  cases action with
  | post id type data now => exact absurd rfl (hpost id type data now)
  | succeed i c =>
      rw [serviceStep] at hstep
      split at hstep
      · rename_i job hloop
        obtain ⟨world, hworld, rfl⟩ := Option.map_eq_some_iff.mp hstep
        show enqueuedIds world.log = _
        rw [log_of_succeed hloop hworld]
        rfl
      · cases hstep
  | worker b =>
      rw [serviceStep] at hstep
      split at hstep
      · obtain ⟨world, hworld, rfl⟩ := Option.map_eq_some_iff.mp hstep
        exact (log_of_internal ‹_› hworld).1
      · cases hstep

/-- A body grows, and its request stays. -/
theorem readingBy_set {r r' : Reading} (hr : s.reading[i]? = some r) (hreq : r'.request = r.request)
    (ip : String) : readingBy ip (s.reading.set i r') = readingBy ip s.reading := by
  obtain ⟨hi, hget⟩ := List.getElem?_eq_some_iff.mp hr
  have hmap : (s.reading.set i r').map Reading.request = s.reading.map Reading.request := by
    rw [List.map_set, hreq, ← hget, ← List.getElem_map Reading.request, List.set_getElem_self]
    simpa using hi
  have hcount : ∀ l : List Reading, readingBy ip l =
      (l.map Reading.request).countP fun req => req.remoteAddress = ip := by
    intro l
    rw [List.countP_map]
    rfl
  rw [hcount, hcount, hmap]

/-- A submission that is over is one less to read. -/
theorem readingBy_drop {r : Reading} (hr : s.reading[i]? = some r) (ip : String) :
    readingBy ip (s.drop i).reading + (if r.request.remoteAddress = ip then 1 else 0) =
      readingBy ip s.reading := by
  obtain ⟨hi, hget⟩ := List.getElem?_eq_some_iff.mp hr
  have hperm : (r :: s.reading.eraseIdx i).Perm s.reading := by
    rw [← hget]
    exact List.getElem_cons_eraseIdx_perm hi
  have hcount := hperm.countP_eq fun x : Reading => x.request.remoteAddress = ip
  rw [List.countP_cons] at hcount
  simpa [readingBy, HttpServer.drop] using hcount

theorem readJob_type {body : Text} {type : Text} {data : Option Json}
    (h : readJob rt body = .ok (type, data)) : type ≠ [] := by
  rw [readJob] at h
  split at h
  · cases h
  · cases h
  · split at h
    · rename_i type' _
      split at h
      · cases h
      · rename_i htype
        split at h
        · cases h
          exact htype
        · cases h
          exact htype
        · cases h
    · cases h

theorem Admits.ends (h : Admits rt AUTH_TOKEN s) {r : Reading} (hr : s.reading[i]? = some r)
    {id : JobId} {type : Text} {data : Option Json} {service : Service Json ρ}
    (hjob : readJob rt r.body = .ok (type, data))
    (hstep : serviceStep s.service (.post id (rt.string type) data now) = some service) :
    Admits rt AUTH_TOKEN ({ s.drop i with service := service }.answer r.request (.created id)) := by
  have hdrop := h.drop i
  have hauth := h.reading r (List.mem_of_getElem? hr)
  have hids := enqueuedIds_of_post (rt.string_ne type (readJob_type hjob)) hstep
  refine ⟨h.reached.next trivial hstep, ?_, fun x hx => ?_, hdrop.reading, h.limits, fun ip => ?_⟩
  · show (createdIds (s.answers ++ [(r.request, .created id)])).reverse = _
    rw [createdIds_append, List.reverse_append]
    exact (congrArg (id :: ·) h.created).trans hids.symm
  · rcases List.mem_append.mp hx with hold | hnew
    · exact h.permitted x hold
    · rw [List.mem_singleton.mp hnew]
      exact hauth
  · have hcount := h.counted ip
    rw [← readingBy_drop hr ip] at hcount
    have hone : createdBy ip (s.answers ++ [(r.request, .created id)]) =
        createdBy ip s.answers + if r.request.remoteAddress = ip then 1 else 0 := by
      by_cases hip : r.request.remoteAddress = ip <;> simp [createdBy, List.countP_append, hip]
    show createdBy ip (s.answers ++ [(r.request, .created id)]) + readingBy ip (s.drop i).reading ≤
      (decisions ip .empty s.submissions).count true
    rw [hone]
    omega

theorem Admits.step {action : HttpAction ρ} (h : Admits rt AUTH_TOKEN s)
    (hstep : s.step rt AUTH_TOKEN action = some s') : Admits rt AUTH_TOKEN s' := by
  unfold HttpServer.step at hstep
  split at hstep
  · cases hstep
  · cases action with
    | request req now =>
        dsimp only at hstep
        split at hstep
        · cases hstep
        · cases hstep
          exact h.handle req now
    | data i chunk =>
        obtain ⟨r, hr, rfl⟩ := Option.map_eq_some_iff.mp hstep
        split
        · exact h.drop i
        · refine h.read (fun x hx => ?_) fun ip => ?_
          · rcases List.mem_or_eq_of_mem_set hx with hold | rfl
            · exact h.reading x hold
            · exact h.reading r (List.mem_of_getElem? hr)
          · refine le_of_eq (readingBy_set hr ?_ ip)
            rfl
    | ends i id now =>
        obtain ⟨r, hr, hends⟩ := Option.bind_eq_some_iff.mp hstep
        split at hends
        · cases hends
          refine (h.drop i).answer (iff_of_false (by decide) ?_) fun id h => by cases h
          simp [h.reading r (List.mem_of_getElem? hr)]
        · rename_i type data hjob
          obtain ⟨service, hservice, rfl⟩ := Option.map_eq_some_iff.mp hends
          exact h.ends hr hjob hservice
    | lost i =>
        dsimp only at hstep
        split at hstep
        · cases hstep
          exact h.drop i
        · cases hstep
    | manager b =>
        cases b with
        | post id type data now => cases hstep
        | succeed i c =>
            obtain ⟨service, hservice, rfl⟩ := Option.map_eq_some_iff.mp hstep
            exact h.serve hservice (enqueuedIds_of_manager (by simp) hservice)
        | worker b =>
            obtain ⟨service, hservice, rfl⟩ := Option.map_eq_some_iff.mp hstep
            exact h.serve hservice (enqueuedIds_of_manager (by simp) hservice)
    | shutdown =>
        obtain ⟨service, hservice, rfl⟩ := Option.map_eq_some_iff.mp hstep
        exact h.serve hservice (enqueuedIds_of_manager (by simp) hservice)

/-- **The service admits whom it means to.** In every run of requests, chunks, ends of bodies and
steps of the manager: the jobs that were enqueued are those that clients were told of, in the same
order; every answer but the health check went to an authorized request, a 401 to one that is not;
no address was told of more jobs than `checkRateLimit` let pass; and the queue and the results are
in a state that submissions and the manager alone lead to. -/
theorem admits_exactly (hs : Reachable (step rt AUTH_TOKEN) (new : HttpServer ρ) s) :
    (createdIds s.answers).reverse = enqueuedIds s.service.world.log ∧
    (∀ a ∈ s.answers, Permitted rt AUTH_TOKEN a.1 a.2) ∧
    (∀ ip, createdBy ip s.answers ≤ (decisions ip .empty s.submissions).count true) ∧
    Reachable serviceStep .new s.service := by
  have hadmits : Admits rt AUTH_TOKEN s :=
    hs.invariant admits_new fun _ _ _ hI _ hstep => hI.step hstep
  exact ⟨hadmits.created, hadmits.permitted,
    fun ip => (Nat.le_add_right _ _).trans (hadmits.counted ip), hadmits.reached⟩

/-! ### What the service keeps -/

/-- The containers of the service do not outgrow their bounds. -/
structure Compact (s : Service Json ρ) : Prop where
  results : s.results.length ≤ maxResults
  submitted : s.submitted.length ≤ maxSubmittedJobs

theorem Compact.step {service service' : Service Json ρ} {action : ServiceAction Json ρ}
    (h : Compact service) (hstep : serviceStep service action = some service') :
    Compact service' := by
  cases action with
  | post id type data now =>
      rw [serviceStep] at hstep
      split at hstep
      · cases hstep
        exact h
      · obtain ⟨world, -, rfl⟩ := Option.map_eq_some_iff.mp hstep
        exact ⟨h.results, InsertionOrder.length_evict_add_le h.submitted⟩
  | succeed i c =>
      rw [serviceStep] at hstep
      split at hstep
      · obtain ⟨world, -, rfl⟩ := Option.map_eq_some_iff.mp hstep
        refine ⟨?_, h.submitted⟩
        rw [Service.trackResult, ← List.length_map Prod.fst, InsertionOrder.map_evict,
          InsertionOrder.keys_set]
        exact InsertionOrder.length_evict_add_le (by rw [List.length_map]; exact h.results)
      · cases hstep
  | worker b =>
      rw [serviceStep] at hstep
      split at hstep
      · obtain ⟨world, -, rfl⟩ := Option.map_eq_some_iff.mp hstep
        exact ⟨h.results, h.submitted⟩
      · cases hstep

/-- No body is longer than the limit. -/
def Short (s : HttpServer ρ) : Prop := ∀ r ∈ s.reading, r.body.length ≤ MAX_BODY

theorem Short.drop (h : s.Short) (i : ℕ) : (s.drop i).Short :=
  fun r hr => h r (List.mem_of_mem_eraseIdx hr)

theorem Short.handle (h : s.Short) (req : HttpRequest) (now : Time) :
    (s.handle rt AUTH_TOKEN req now).Short := by
  have hsubmit : (s.submit req now).Short := by
    rw [HttpServer.submit]
    dsimp only
    split
    · intro r hr
      rcases List.mem_append.mp hr with hold | hnew
      · exact h r hold
      · rw [List.mem_singleton.mp hnew]
        exact Nat.zero_le _
    · exact h
  rw [HttpServer.handle]
  split
  · exact h
  · split
    · exact h
    · split
      · exact h
      · split
        · exact hsubmit
        · split <;> split <;> exact h

theorem Short.step {action : HttpAction ρ} (h : s.Short)
    (hstep : s.step rt AUTH_TOKEN action = some s') : s'.Short := by
  unfold HttpServer.step at hstep
  split at hstep
  · cases hstep
  · cases action with
    | request req now =>
        dsimp only at hstep
        split at hstep
        · cases hstep
        · cases hstep
          exact h.handle req now
    | data i chunk =>
        obtain ⟨r, hr, rfl⟩ := Option.map_eq_some_iff.mp hstep
        split
        · exact h.drop i
        · rename_i hfits
          intro x hx
          rcases List.mem_or_eq_of_mem_set hx with hold | rfl
          · exact h x hold
          · have hdecode := rt.decode_length chunk
            rw [List.length_append]
            omega
    | ends i id now =>
        obtain ⟨r, hr, hends⟩ := Option.bind_eq_some_iff.mp hstep
        split at hends
        · cases hends
          exact h.drop i
        · obtain ⟨service, -, rfl⟩ := Option.map_eq_some_iff.mp hends
          exact h.drop i
    | lost i =>
        dsimp only at hstep
        split at hstep
        · cases hstep
          exact h.drop i
        · cases hstep
    | manager b =>
        cases b with
        | post id type data now => cases hstep
        | succeed i c | worker b =>
            obtain ⟨service, -, rfl⟩ := Option.map_eq_some_iff.mp hstep
            exact h
    | shutdown =>
        obtain ⟨service, -, rfl⟩ := Option.map_eq_some_iff.mp hstep
        exact h

/-- A runtime for evaluating the service: every body is the same submission. -/
def echoRuntime : HttpRuntime where
  sha256 := fun s => s.toList.map fun c => c.toNat.toUInt8
  decode := fun bytes => bytes.map fun b => b.toUInt16
  decode_length := fun bytes => by rw [List.length_map]
  parse := fun _ => some (.obj [(text "type", .str (text "t"))])
  string := fun _ => "t"
  string_ne := fun _ _ => by decide

def submission (authorization : String) : HttpRequest :=
  ⟨"POST", some "/jobs", authorization, "a"⟩

/-- One client has the token and another one has not. -/
def twoClients : List (HttpAction ℕ) :=
  [.request (submission "Bearer x") 0, .request (submission "Bearer y") 0, .data 0 [123],
    .ends 0 "id" 5]

theorem admits_exactly_twoClients : ∃ s, exec (step echoRuntime "x") new twoClients = some s ∧
    createdIds s.answers = ["id"] ∧
    (createdIds s.answers).reverse = enqueuedIds s.service.world.log := by
  have hrun : (exec (step echoRuntime "x") new twoClients).isSome = true := by decide
  exact ⟨_, (Option.some_get hrun).symm, rfl, (admits_exactly (reachable_get hrun)).1⟩

end HttpServer

end TrapChat.Worker
