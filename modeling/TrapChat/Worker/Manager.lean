import TrapChat.Library.Transition
import TrapChat.Worker.Queue

/-!
The worker manager. `start` begins a poll loop, which takes jobs as long as there
are eligible ones and then sleeps on a timer; `stop` clears the last timer that was
set, and a loop that sleeps on it never wakes. A loop that is busy when the manager
is stopped goes on, so that a later `start` makes it one of several.

A step of a loop runs from one point where it gives way or could be interrupted to
the next. What an attempt does is the schedule's choice. The log records what
happened to every job, the latest event first; no code reads it.
-/

namespace TrapChat.Worker

open Transition

variable {δ : Type*}

/-- Where a poll loop is. -/
inductive Loop (δ : Type*)
  /-- At `while (this.#running)`. -/
  | checking
  /-- At the call of `dequeue`. -/
  | pulling
  | processing (job : Job δ)
  /-- On its timer. -/
  | sleeping
  /-- On a timer that was cleared. -/
  | stranded
  | ended

structure Manager (δ : Type*) where
  queue : Queue δ
  running : Bool
  /-- The loop that set the last timer. -/
  timer : Option ℕ
  loops : List (Loop δ)

def Manager.new : Manager δ := ⟨.new, false, none, []⟩

inductive LogEvent
  | enqueued (id : JobId)
  | started (id : JobId) (now : Time)
  | succeeded (id : JobId)
  | failed (id : JobId)
  /-- The retry time that is recorded after a failure. -/
  | backoff (id : JobId) (t : Time)
  | dead (id : JobId)
deriving DecidableEq, Repr

inductive Action (δ : Type*)
  | enqueue (id : JobId) (type : String) (data : Option δ) (now : Time)
  | start
  | stop
  | check (i : ℕ)
  | pull (i : ℕ) (now : Job δ → Time)
  /-- The attempt succeeds, and `onResult` returns. -/
  | succeed (i : ℕ)
  /-- The attempt throws; the clock is read for the dead letter or for the backoff. -/
  | fail (i : ℕ) (now : Time)
  | wake (i : ℕ)

def Manager.goto (s : Manager δ) (i : ℕ) (loop : Loop δ) : Manager δ :=
  { s with loops := s.loops.set i loop }

/-- Clears the timer, if it is pending, and so strands the loop that sleeps on it. -/
def Manager.clearTimer (s : Manager δ) : Manager δ :=
  match s.timer with
  | none => s
  | some i =>
    match s.loops[i]? with
    | some .sleeping => { s.goto i .stranded with timer := none }
    | _ => { s with timer := none }

/-- `Math.min(1000 * Math.pow(2, job.attempts - 1), 30000)`. -/
def backoffDelay (attempts : ℕ) : Time := min (1000 * Nat.pow 2 (attempts - 1)) 30000

/-- The `catch` branch of an attempt. -/
def Manager.attemptFailed (s : Manager δ) (i : ℕ) (job : Job δ) (now : Time) :
    Manager δ × List LogEvent :=
  match s.queue.requeue job now with
  | (q, job, true) =>
    let t := now + backoffDelay job.attempts
    ({ s.goto i .pulling with queue := q.setRetryAfter job.id t },
      [.backoff job.id t, .failed job.id])
  | (q, job, false) =>
    ({ s.goto i .pulling with queue := q }, [.dead job.id, .failed job.id])

/-- One step, with what it adds to the log. -/
def Manager.act (s : Manager δ) : Action δ → Option (Manager δ × List LogEvent)
  | .enqueue id type data now =>
    some ({ s with queue := s.queue.enqueue id type data now }, [.enqueued id])
  | .start =>
    if s.running then some (s, [])
    else some ({ s with running := true, loops := s.loops ++ [.checking] }, [])
  | .stop => some (({ s with running := false }).clearTimer, [])
  | .check i =>
    match s.loops[i]? with
    | some .checking => some (s.goto i (if s.running then .pulling else .ended), [])
    | _ => none
  | .pull i now =>
    match s.loops[i]? with
    | some .pulling =>
      match s.queue.dequeue now with
      | some (job, q) =>
        some ({ s.goto i (.processing job) with queue := q }, [.started job.id (now job)])
      | none => some ({ s.goto i .sleeping with timer := some i }, [])
    | _ => none
  | .succeed i =>
    match s.loops[i]? with
    | some (.processing job) => some (s.goto i .pulling, [.succeeded job.id])
    | _ => none
  | .fail i now =>
    match s.loops[i]? with
    | some (.processing job) => some (s.attemptFailed i job now)
    | _ => none
  | .wake i =>
    match s.loops[i]? with
    | some .sleeping => some (s.goto i .checking, [])
    | _ => none

/-! ### The log -/

/-- The jobs enqueued, the latest first. -/
def enqueuedIds (log : List LogEvent) : List JobId :=
  log.filterMap fun
    | .enqueued id => some id
    | _ => none

/-- The jobs dead-lettered, the latest first. -/
def deadIds (log : List LogEvent) : List JobId :=
  log.filterMap fun
    | .dead id => some id
    | _ => none

def LogEvent.starts (id : JobId) : LogEvent → Bool
  | .started id' _ => id' = id
  | _ => false

/-- The attempts at a job. -/
def starts (log : List LogEvent) (id : JobId) : ℕ := log.countP (LogEvent.starts id)

/-- The attempts that failed. -/
def fails (log : List LogEvent) (id : JobId) : ℕ := log.count (.failed id)

/-- The retry time recorded last. -/
def retryTime (id : JobId) : List LogEvent → Option Time
  | [] => none
  | .backoff id' t :: log => if id' = id then some t else retryTime id log
  | _ :: log => retryTime id log

/-- The jobs whose first attempt has started, the latest first. -/
def firstStarts : List LogEvent → List JobId
  | [] => []
  | .started id _ :: log => if starts log id = 0 then id :: firstStarts log else firstStarts log
  | _ :: log => firstStarts log

structure World (δ : Type*) where
  manager : Manager δ
  log : List LogEvent

def World.new : World δ := ⟨.new, []⟩

/-- A random UUID has not been given to a job before. -/
def Action.Fresh (log : List LogEvent) : Action δ → Prop
  | .enqueue id _ _ _ => id ∉ enqueuedIds log
  | _ => True

instance (log : List LogEvent) (a : Action δ) : Decidable (a.Fresh log) := by
  induction a using Action.casesOn <;> unfold Action.Fresh <;> infer_instance

def step (w : World δ) (a : Action δ) : Option (World δ) :=
  if a.Fresh w.log then
    (w.manager.act a).map fun res => ⟨res.1, res.2 ++ w.log⟩
  else none

/-! ### What a step does -/

/-- The loop is processing the job. -/
def Loop.holds (id : JobId) : Loop δ → Bool
  | .processing job => job.id = id
  | _ => false

/-- How many loops are processing the job. -/
def Manager.processing (s : Manager δ) (id : JobId) : ℕ := s.loops.countP (Loop.holds id)

section
variable {s s' : Manager δ} {i : ℕ} {loop loop' : Loop δ}

/-- Only the loop that moves changes how many loops meet a condition. -/
theorem countP_goto (h : s.loops[i]? = some loop) (loop' : Loop δ) (P : Loop δ → Bool) :
    (s.goto i loop').loops.countP P + (if P loop then 1 else 0) =
      s.loops.countP P + (if P loop' then 1 else 0) := by
  obtain ⟨hi, rfl⟩ := List.getElem?_eq_some_iff.mp h
  have hpos : (if P s.loops[i] then 1 else 0) ≤ s.loops.countP P := by
    split
    · next hheld => exact List.countP_pos_iff.mpr ⟨_, List.getElem_mem hi, hheld⟩
    · exact Nat.zero_le _
  unfold Manager.goto
  dsimp only
  rw [List.countP_set hi]
  omega

/-- Only the loop that moves changes what the loops hold. -/
theorem processing_goto (h : s.loops[i]? = some loop) (loop' : Loop δ) (id : JobId) :
    (s.goto i loop').processing id + (if loop.holds id then 1 else 0) =
      s.processing id + (if loop'.holds id then 1 else 0) :=
  countP_goto h loop' (Loop.holds id)

theorem mem_loops_goto {x : Loop δ} (h : x ∈ (s.goto i loop).loops) : x = loop ∨ x ∈ s.loops :=
  (List.mem_or_eq_of_mem_set h).symm

/-- A loop that moves between points at which it processes nothing. -/
theorem processing_goto_idle (h : s.loops[i]? = some loop) (hidle : ∀ id, loop.holds id = false)
    (loop' : Loop δ) (hidle' : ∀ id, loop'.holds id = false) :
    (∀ id, (s.goto i loop').processing id = s.processing id) ∧
      ∀ job, .processing job ∈ (s.goto i loop').loops → .processing job ∈ s.loops := by
  refine ⟨fun id => ?_, fun job hjob => ?_⟩
  · simpa [hidle id, hidle' id] using processing_goto h loop' id
  · rcases mem_loops_goto hjob with rfl | hmem
    · simpa [Loop.holds] using hidle' job.id
    · exact hmem

/-- A loop that is done with its job. -/
theorem processing_release {job : Job δ} (h : s.loops[i]? = some (.processing job)) :
    (∀ id, (s.goto i .pulling).processing id + (if job.id = id then 1 else 0) = s.processing id) ∧
      ∀ j, .processing j ∈ (s.goto i .pulling).loops → .processing j ∈ s.loops := by
  refine ⟨fun id => ?_, fun j hj => ?_⟩
  · simpa [Loop.holds] using processing_goto h .pulling id
  · rcases mem_loops_goto hj with hpull | hmem
    · cases hpull
    · exact hmem

/-- A loop that takes a job. -/
theorem processing_take (h : s.loops[i]? = some .pulling) (job : Job δ) :
    (∀ id, (s.goto i (.processing job)).processing id =
      s.processing id + (if job.id = id then 1 else 0)) ∧
      ∀ j, .processing j ∈ (s.goto i (.processing job)).loops →
        j = job ∨ .processing j ∈ s.loops := by
  refine ⟨fun id => ?_, fun j hj => ?_⟩
  · simpa [Loop.holds] using processing_goto h (.processing job) id
  · rcases mem_loops_goto hj with heq | hmem
    · cases heq
      exact .inl rfl
    · exact .inr hmem

theorem clearTimer_queue (s : Manager δ) : s.clearTimer.queue = s.queue := by
  unfold Manager.clearTimer
  split
  · rfl
  · split <;> rfl

theorem processing_clearTimer (s : Manager δ) :
    (∀ id, s.clearTimer.processing id = s.processing id) ∧
      ∀ job, .processing job ∈ s.clearTimer.loops → .processing job ∈ s.loops := by
  unfold Manager.clearTimer
  split
  · exact ⟨fun _ => rfl, fun _ h => h⟩
  · split
    · next hsleeping =>
        exact processing_goto_idle hsleeping (fun _ => rfl) .stranded fun _ => rfl
    · exact ⟨fun _ => rfl, fun _ h => h⟩

end

/-- All that a step does to the jobs, with what it logs. -/
inductive Effect (log : List LogEvent) (s s' : Manager δ) : List LogEvent → Prop
  | idle (hqueue : s'.queue = s.queue) (hproc : ∀ id, s'.processing id = s.processing id)
      (hmem : ∀ job, .processing job ∈ s'.loops → .processing job ∈ s.loops) : Effect log s s' []
  | enqueued (id : JobId) (type : String) (data : Option δ) (now : Time)
      (hfresh : id ∉ enqueuedIds log)
      (hitems : s'.queue.items = s.queue.items ++ [.new id type data now])
      (hletters : s'.queue.deadLetters = s.queue.deadLetters) (hloops : s'.loops = s.loops) :
      Effect log s s' [.enqueued id]
  | started (job : Job δ) (front back : List (Job δ)) (now : Time)
      (hitems : s.queue.items = front ++ job :: back) (hitems' : s'.queue.items = front ++ back)
      (hletters : s'.queue.deadLetters = s.queue.deadLetters) (helig : job.eligible now = true)
      (hfront : ∀ j ∈ front, j.retryAfter ≠ none)
      (hproc : ∀ id, s'.processing id = s.processing id + (if job.id = id then 1 else 0))
      (hmem : ∀ j, .processing j ∈ s'.loops → j = job ∨ .processing j ∈ s.loops) :
      Effect log s s' [.started job.id now]
  | succeeded (job : Job δ) (hjob : .processing job ∈ s.loops) (hqueue : s'.queue = s.queue)
      (hproc : ∀ id, s'.processing id + (if job.id = id then 1 else 0) = s.processing id)
      (hmem : ∀ j, .processing j ∈ s'.loops → .processing j ∈ s.loops) :
      Effect log s s' [.succeeded job.id]
  | retried (job : Job δ) (t : Time) (hjob : .processing job ∈ s.loops)
      (hleft : job.attempts + 1 < job.maxAttempts)
      (hitems : s'.queue.items =
        s.queue.items ++ [{ job with attempts := job.attempts + 1, retryAfter := some t }])
      (hletters : s'.queue.deadLetters = s.queue.deadLetters)
      (hproc : ∀ id, s'.processing id + (if job.id = id then 1 else 0) = s.processing id)
      (hmem : ∀ j, .processing j ∈ s'.loops → .processing j ∈ s.loops) :
      Effect log s s' [.backoff job.id t, .failed job.id]
  | died (job : Job δ) (letter : DeadLetter) (hjob : .processing job ∈ s.loops)
      (hlast : job.maxAttempts ≤ job.attempts + 1) (hid : letter.id = job.id)
      (hitems : s'.queue.items = s.queue.items)
      (hletters : s'.queue.deadLetters = evictDeadLetters (s.queue.deadLetters ++ [letter]))
      (hproc : ∀ id, s'.processing id + (if job.id = id then 1 else 0) = s.processing id)
      (hmem : ∀ j, .processing j ∈ s'.loops → .processing j ∈ s.loops) :
      Effect log s s' [.dead job.id, .failed job.id]

section
variable {s s' : Manager δ} {log evs : List LogEvent}

theorem Effect.of_attemptFailed {i : ℕ} {job : Job δ} (now : Time)
    (hloop : s.loops[i]? = some (.processing job)) (hwaits : s.queue.waiting job.id = 0) :
    Effect log s (s.attemptFailed i job now).1 (s.attemptFailed i job now).2 := by
  obtain ⟨hproc, hmem⟩ := processing_release hloop
  have hjob : .processing job ∈ s.loops := List.mem_of_getElem? hloop
  unfold Manager.attemptFailed Queue.requeue
  dsimp only
  by_cases hlast : job.attempts + 1 ≥ job.maxAttempts
  · rw [if_pos hlast]
    unfold Manager.processing at hproc
    refine .died job ⟨job.id, job.type, job.attempts + 1, job.maxAttempts, now⟩ hjob hlast rfl ?_ ?_
      ?_ hmem
    all_goals dsimp only [Manager.goto, Manager.processing, Queue.failed]
    exact hproc
  · rw [if_neg hlast]
    refine .retried job _ hjob (Nat.lt_of_not_le hlast) ?_ rfl hproc hmem
    exact Queue.setRetryAfter_append { job with attempts := job.attempts + 1 } _ hwaits

/-- **What a step does.** A job that is being processed is assumed not to wait as well. -/
theorem Effect.of_act {a : Action δ} (h : s.act a = some (s', evs)) (hfresh : a.Fresh log)
    (hone : ∀ id, s.queue.waiting id + s.processing id ≤ 1) : Effect log s s' evs := by
  cases a with
  | enqueue id type data now =>
      cases h
      exact .enqueued id type data now hfresh rfl rfl rfl
  | start =>
      simp only [Manager.act] at h
      split at h
      · cases h
        exact .idle rfl (fun _ => rfl) fun _ hmem => hmem
      · cases h
        refine .idle rfl (fun id => ?_) fun job hjob => ?_
        · simp [Manager.processing, Loop.holds]
        · simpa using hjob
  | stop =>
      cases h
      obtain ⟨hproc, hmem⟩ := processing_clearTimer { s with running := false }
      exact .idle (clearTimer_queue _) hproc hmem
  | check i =>
      simp only [Manager.act] at h
      split at h
      · next hloop =>
          cases h
          obtain ⟨hproc, hmem⟩ := processing_goto_idle hloop (fun _ => rfl)
            (if s.running = true then .pulling else .ended) fun _ => by split <;> rfl
          exact .idle rfl hproc hmem
      · cases h
  | wake i =>
      simp only [Manager.act] at h
      split at h
      · next hloop =>
          cases h
          obtain ⟨hproc, hmem⟩ := processing_goto_idle hloop (fun _ => rfl) .checking
            fun _ => rfl
          exact .idle rfl hproc hmem
      · cases h
  | pull i now =>
      simp only [Manager.act] at h
      split at h
      · next hloop =>
          split at h
          · next job q hdequeue =>
              cases h
              obtain ⟨front, back, hitems, rfl, helig, hfront⟩ := Queue.dequeue_eq_some hdequeue
              obtain ⟨hproc, hmem⟩ := processing_take hloop job
              refine .started job front back (now job) hitems rfl rfl helig (fun j hj hnone => ?_)
                hproc hmem
              exact absurd (hfront j hj) (by simp [eligible_of_retryAfter_none hnone])
          · cases h
            obtain ⟨hproc, hmem⟩ := processing_goto_idle hloop (fun _ => rfl) .sleeping
              fun _ => rfl
            exact .idle rfl hproc hmem
      · cases h
  | succeed i =>
      simp only [Manager.act] at h
      split at h
      · next job hloop =>
          cases h
          obtain ⟨hproc, hmem⟩ := processing_release hloop
          exact .succeeded job (List.mem_of_getElem? hloop) rfl hproc hmem
      · cases h
  | fail i now =>
      simp only [Manager.act] at h
      split at h
      · next job hloop =>
          -- the job does not wait as well, so that the backoff marks nothing else
          have hheld : 0 < s.processing job.id :=
            List.countP_pos_iff.mpr ⟨_, List.mem_of_getElem? hloop, by simp [Loop.holds]⟩
          have hwaits : s.queue.waiting job.id = 0 := by
            have := hone job.id
            omega
          have heffect : Effect log s _ _ := Effect.of_attemptFailed now hloop hwaits
          rw [Option.some.inj h] at heffect
          exact heffect
      · cases h

end

end TrapChat.Worker
