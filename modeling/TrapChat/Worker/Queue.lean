import TrapChat.Library.InsertionOrder

/-!
The worker's job queue. A job waits in the list of items, from which the first one
that is not in retry backoff is taken, and goes back to its tail after an attempt
that failed; after the third such attempt a dead letter is all that is left of it.
-/

namespace TrapChat.Worker

abbrev JobId := String

abbrev Time := ℕ

/-- A job; `data` is what was submitted with it. -/
structure Job (δ : Type*) where
  id : JobId
  type : String
  data : Option δ
  createdAt : Time
  attempts : ℕ
  maxAttempts : ℕ
  retryAfter : Option Time

/-- What `failed` keeps of a job. The other fields it reads are set nowhere. -/
structure DeadLetter where
  id : JobId
  type : String
  attempts : ℕ
  maxAttempts : ℕ
  failedAt : Time
deriving DecidableEq, Repr

structure Queue (δ : Type*) where
  items : List (Job δ)
  deadLetters : List DeadLetter

variable {δ : Type*}

def maxDeadLetters : ℕ := 1000

def Queue.new : Queue δ := ⟨[], []⟩

/-- A job as it is submitted. -/
def Job.new (id : JobId) (type : String) (data : Option δ) (now : Time) : Job δ where
  id := id
  type := type
  data := data
  createdAt := now
  attempts := 0
  maxAttempts := 3
  retryAfter := none

def Queue.enqueue (q : Queue δ) (id : JobId) (type : String) (data : Option δ) (now : Time) :
    Queue δ :=
  { q with items := q.items ++ [.new id type data now] }

/-- The job is not in backoff. -/
def Job.eligible (now : Time) (job : Job δ) : Bool :=
  match job.retryAfter with
  | none => true
  | some t => t ≤ now

/-- The first eligible job, taken out. The clock is read anew for every job in backoff. -/
def Queue.dequeue (q : Queue δ) (now : Job δ → Time) : Option (Job δ × Queue δ) :=
  (q.items.find? fun job => job.eligible (now job)).map fun job =>
    (job, { q with items := q.items.eraseP fun job => job.eligible (now job) })

/-- The most recent dead letters, the oldest ones dropped. -/
def evictDeadLetters (letters : List DeadLetter) : List DeadLetter :=
  letters.drop (letters.length - maxDeadLetters)

def Queue.failed (q : Queue δ) (job : Job δ) (now : Time) : Queue δ :=
  let letter : DeadLetter := ⟨job.id, job.type, job.attempts, job.maxAttempts, now⟩
  { q with deadLetters := evictDeadLetters (q.deadLetters ++ [letter]) }

/-- Counts the attempt. The flag says whether the job waits again. -/
def Queue.requeue (q : Queue δ) (job : Job δ) (now : Time) : Queue δ × Job δ × Bool :=
  let job := { job with attempts := job.attempts + 1 }
  if job.attempts ≥ job.maxAttempts then (q.failed job now, job, false)
  else ({ q with items := q.items ++ [job] }, job, true)

/-- Sets `_retryAfter` of a job that the queue holds. -/
def Queue.setRetryAfter (q : Queue δ) (id : JobId) (t : Time) : Queue δ :=
  { q with items := q.items.map fun job =>
      if job.id = id then { job with retryAfter := some t } else job }

/-! ### The operations -/

/-- How often a job is among the items. -/
def Queue.waiting (q : Queue δ) (id : JobId) : ℕ := q.items.countP fun job => job.id = id

theorem Queue.waiting_concat {q q' : Queue δ} {job : Job δ} (h : q'.items = q.items ++ [job])
    (id : JobId) : q'.waiting id = q.waiting id + if job.id = id then 1 else 0 := by
  simp [Queue.waiting, h, List.countP_append, List.countP_singleton]

theorem Queue.waiting_take {q q' : Queue δ} {job : Job δ} {front back : List (Job δ)}
    (h : q.items = front ++ job :: back) (h' : q'.items = front ++ back) (id : JobId) :
    q.waiting id = q'.waiting id + if job.id = id then 1 else 0 := by
  simp only [Queue.waiting, h, h', List.countP_append, List.countP_cons, decide_eq_true_eq]
  omega

theorem eligible_of_retryAfter_none {job : Job δ} (h : job.retryAfter = none) (now : Time) :
    job.eligible now = true := by
  rw [Job.eligible, h]

theorem retryAfter_le_of_eligible {job : Job δ} {now t : Time} (h : job.eligible now = true)
    (ht : job.retryAfter = some t) : t ≤ now := by
  rw [Job.eligible, ht] at h
  exact of_decide_eq_true h

/-- **What is taken out** stands behind jobs in backoff only. -/
theorem Queue.dequeue_eq_some {q q' : Queue δ} {now : Job δ → Time} {job : Job δ}
    (h : q.dequeue now = some (job, q')) :
    ∃ front back, q.items = front ++ job :: back ∧ q' = { q with items := front ++ back } ∧
      job.eligible (now job) = true ∧ ∀ j ∈ front, j.eligible (now j) = false := by
  obtain ⟨found, hfind, heq⟩ := Option.map_eq_some_iff.mp h
  obtain ⟨rfl, rfl⟩ := Prod.mk.inj heq
  obtain ⟨helig, front, back, hitems, hfront⟩ := List.find?_eq_some_iff_append.mp hfind
  have hbackoff : ∀ j ∈ front, j.eligible (now j) = false := fun j hj => by
    simpa using hfront j hj
  have herase : (found :: back).eraseP (fun job => job.eligible (now job)) = back :=
    List.eraseP_cons_of_pos helig
  refine ⟨front, back, hitems, ?_, helig, hbackoff⟩
  rw [hitems, List.eraseP_append_right _ fun j hj => by simp [hbackoff j hj], herase]

/-- Nothing but the job's own mark is set. -/
theorem Queue.setRetryAfter_append {q : Queue δ} (job : Job δ) (t : Time)
    (h : q.waiting job.id = 0) :
    (Queue.setRetryAfter { q with items := q.items ++ [job] } job.id t).items =
      q.items ++ [{ job with retryAfter := some t }] := by
  have hothers : ∀ j ∈ q.items, ¬j.id = job.id := by
    simpa [Queue.waiting, List.countP_eq_zero] using h
  have hmap : q.items.map (fun j => if j.id = job.id then { j with retryAfter := some t } else j) =
      q.items.map id := List.map_congr_left fun j hj => if_neg (hothers j hj)
  rw [Queue.setRetryAfter]
  dsimp only
  rw [List.map_append, hmap, List.map_id, List.map_singleton, if_pos rfl]

end TrapChat.Worker
