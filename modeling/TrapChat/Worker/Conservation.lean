import Mathlib.Data.List.Nodup
import TrapChat.Worker.Manager

/-!
What becomes of every job. It is at each moment in one place: it waits, one poll loop
processes it, it has succeeded, or it is dead-lettered after its third failure. The
numbers of its attempts and failures in the log fit the place, and jobs that no
attempt was made at wait in the order in which they were enqueued.
-/

namespace TrapChat.Worker

open Transition

variable {δ : Type*}

/-! ### The log, event by event -/

/-- The job that an event is about. -/
def LogEvent.job : LogEvent → JobId
  | .enqueued id | .started id _ | .succeeded id | .failed id | .backoff id _ | .dead id => id

section
variable {e : LogEvent} {log : List LogEvent} {id : JobId}

theorem starts_cons (e : LogEvent) (log : List LogEvent) (id : JobId) :
    starts (e :: log) id = starts log id + if e.starts id then 1 else 0 :=
  List.countP_cons

theorem fails_cons (e : LogEvent) (log : List LogEvent) (id : JobId) :
    fails (e :: log) id = fails log id + if e == .failed id then 1 else 0 :=
  List.count_cons

theorem starts_cons_of_ne (h : e.job ≠ id) : starts (e :: log) id = starts log id := by
  rw [starts_cons]
  cases e <;> simp_all [LogEvent.starts, LogEvent.job]

theorem fails_cons_of_ne (h : e.job ≠ id) : fails (e :: log) id = fails log id := by
  rw [fails_cons]
  cases e <;> simp_all [LogEvent.job]

theorem retryTime_cons_of_ne (h : e.job ≠ id) : retryTime id (e :: log) = retryTime id log := by
  cases e <;> simp_all [retryTime, LogEvent.job]

end

/-! ### Places -/

/-- In how many places a job is. -/
def World.places (w : World δ) (id : JobId) : ℕ :=
  w.manager.queue.waiting id + w.manager.processing id + w.log.count (.succeeded id) +
    w.log.count (.dead id)

/-- A job that waits has failed at every attempt so far. -/
structure Waits (log : List LogEvent) (job : Job δ) : Prop where
  maxAttempts : job.maxAttempts = 3
  attempts : job.attempts < 3
  starts : starts log job.id = job.attempts
  fails : fails log job.id = job.attempts
  retry : retryTime job.id log = job.retryAfter
  fresh : job.attempts = 0 ↔ job.retryAfter = none

/-- A job that is being processed has failed at every attempt but this one. -/
structure Runs (log : List LogEvent) (job : Job δ) : Prop where
  maxAttempts : job.maxAttempts = 3
  attempts : job.attempts < 3
  starts : starts log job.id = job.attempts + 1
  fails : fails log job.id = job.attempts

/-- A job not yet attempted. -/
def Job.isFresh (job : Job δ) : Bool := job.attempts = 0

/-- An attempt starts before the job's success and after its retry time. -/
def Orderly : List LogEvent → Prop
  | [] => True
  | .started id now :: log =>
      (.succeeded id ∉ log ∧ ∀ t, retryTime id log = some t → t ≤ now) ∧ Orderly log
  | _ :: log => Orderly log

/-- The numbers of attempts and failures of the jobs that are nowhere else than in the
log, or not even there. -/
structure Tallied (log : List LogEvent) : Prop where
  succeeded : ∀ id, .succeeded id ∈ log → fails log id < 3 ∧ starts log id ≤ 3
  dead : ∀ id, .dead id ∈ log → fails log id = 3 ∧ starts log id = 3
  unknown : ∀ id, id ∉ enqueuedIds log →
    starts log id = 0 ∧ fails log id = 0 ∧ retryTime id log = none

structure Inv (w : World δ) : Prop where
  place : ∀ id, w.places id = (enqueuedIds w.log).count id
  once : (enqueuedIds w.log).Nodup
  waiting : ∀ job ∈ w.manager.queue.items, Waits w.log job
  processing : ∀ job, .processing job ∈ w.manager.loops → Runs w.log job
  tallied : Tallied w.log
  order : enqueuedIds w.log =
    ((w.manager.queue.items.filter Job.isFresh).map Job.id).reverse ++ firstStarts w.log
  letters : w.manager.queue.deadLetters.map DeadLetter.id =
    (deadIds w.log).reverse.rtake maxDeadLetters
  orderly : Orderly w.log

section
variable {log : List LogEvent} {e : LogEvent} {job : Job δ}

theorem Waits.cons (h : Waits log job) (he : e.job ≠ job.id) : Waits (e :: log) job where
  maxAttempts := h.maxAttempts
  attempts := h.attempts
  starts := (starts_cons_of_ne he).trans h.starts
  fails := (fails_cons_of_ne he).trans h.fails
  retry := (retryTime_cons_of_ne he).trans h.retry
  fresh := h.fresh

theorem Runs.cons (h : Runs log job) (he : e.job ≠ job.id) : Runs (e :: log) job where
  maxAttempts := h.maxAttempts
  attempts := h.attempts
  starts := (starts_cons_of_ne he).trans h.starts
  fails := (fails_cons_of_ne he).trans h.fails

/-- An attempt at another job has failed. -/
theorem Waits.failed (h : Waits log job) (he : e.job ≠ job.id) :
    Waits (e :: .failed e.job :: log) job := by
  have hfailed : Waits (.failed e.job :: log) job := h.cons he
  exact hfailed.cons he

theorem Runs.failed (h : Runs log job) (he : e.job ≠ job.id) :
    Runs (e :: .failed e.job :: log) job := by
  have hfailed : Runs (.failed e.job :: log) job := h.cons he
  exact hfailed.cons he

theorem mem_enqueuedIds_cons {id : JobId} (h : id ∈ enqueuedIds log) (e : LogEvent) :
    id ∈ enqueuedIds (e :: log) := by
  obtain ⟨e', he', hid⟩ := List.mem_filterMap.mp h
  exact List.mem_filterMap.mpr ⟨e', List.mem_cons_of_mem _ he', hid⟩

/-- An event about a job that is still waiting or being processed. -/
theorem Tallied.cons (h : Tallied log) (hknown : e.job ∈ enqueuedIds log)
    (hsucc : .succeeded e.job ∉ log) (hdead : .dead e.job ∉ log)
    (hs : ∀ id, e = .succeeded id → fails (e :: log) id < 3 ∧ starts (e :: log) id ≤ 3)
    (hd : ∀ id, e = .dead id → fails (e :: log) id = 3 ∧ starts (e :: log) id = 3) :
    Tallied (e :: log) where
  succeeded := by
    intro id hid
    rcases List.mem_cons.mp hid with heq | hid
    · exact hs id heq.symm
    · have hne : e.job ≠ id := fun heq => hsucc (heq ▸ hid)
      rw [starts_cons_of_ne hne, fails_cons_of_ne hne]
      exact h.succeeded id hid
  dead := by
    intro id hid
    rcases List.mem_cons.mp hid with heq | hid
    · exact hd id heq.symm
    · have hne : e.job ≠ id := fun heq => hdead (heq ▸ hid)
      rw [starts_cons_of_ne hne, fails_cons_of_ne hne]
      exact h.dead id hid
  unknown := by
    intro id hid
    have hne : e.job ≠ id := by
      rintro rfl
      exact hid (mem_enqueuedIds_cons hknown e)
    rw [starts_cons_of_ne hne, fails_cons_of_ne hne, retryTime_cons_of_ne hne]
    exact h.unknown id fun hin => hid (mem_enqueuedIds_cons hin e)

theorem Tallied.enqueued (h : Tallied log) (id : JobId) : Tallied (.enqueued id :: log) where
  succeeded := by
    intro q hq
    simpa [starts_cons, fails_cons, LogEvent.starts] using h.succeeded q (by simpa using hq)
  dead := by
    intro q hq
    simpa [starts_cons, fails_cons, LogEvent.starts] using h.dead q (by simpa using hq)
  unknown := by
    intro q hq
    have hold : q ∉ enqueuedIds log := fun hin => hq (mem_enqueuedIds_cons hin _)
    simpa [starts_cons, fails_cons, LogEvent.starts, retryTime] using h.unknown q hold

end

section
variable {s s' : Manager δ} {log : List LogEvent} {job : Job δ}

theorem Inv.places_le_one (h : Inv ⟨s, log⟩) (id : JobId) : World.places ⟨s, log⟩ id ≤ 1 := by
  rw [h.place id]
  exact List.nodup_iff_count_le_one.mp h.once id

/-- A job in one place is in no other one. -/
theorem Inv.of_waiting (h : Inv ⟨s, log⟩) (hjob : job ∈ s.queue.items) :
    s.queue.waiting job.id = 1 ∧ s.processing job.id = 0 ∧ .succeeded job.id ∉ log ∧
      .dead job.id ∉ log ∧ job.id ∈ enqueuedIds log := by
  have hone := h.places_le_one job.id
  have hplace := h.place job.id
  have hpos : 0 < s.queue.waiting job.id := List.countP_pos_iff.mpr ⟨job, hjob, by simp⟩
  simp only [World.places] at hone hplace
  refine ⟨by omega, by omega, ?_, ?_, ?_⟩
  · exact List.count_eq_zero.mp (by omega)
  · exact List.count_eq_zero.mp (by omega)
  · exact List.count_pos_iff.mp (by omega)

theorem Inv.of_processing (h : Inv ⟨s, log⟩) (hjob : .processing job ∈ s.loops) :
    s.queue.waiting job.id = 0 ∧ s.processing job.id = 1 ∧ .succeeded job.id ∉ log ∧
      .dead job.id ∉ log ∧ job.id ∈ enqueuedIds log := by
  have hone := h.places_le_one job.id
  have hplace := h.place job.id
  have hpos : 0 < s.processing job.id :=
    List.countP_pos_iff.mpr ⟨_, hjob, by simp [Loop.holds]⟩
  simp only [World.places] at hone hplace
  refine ⟨by omega, by omega, ?_, ?_, ?_⟩
  · exact List.count_eq_zero.mp (by omega)
  · exact List.count_eq_zero.mp (by omega)
  · exact List.count_pos_iff.mp (by omega)

theorem ne_of_waiting_zero {id : JobId} (h : s.queue.waiting id = 0) (hjob : job ∈ s.queue.items) :
    job.id ≠ id := by
  rintro rfl
  exact absurd h (List.countP_pos_iff.mpr ⟨job, hjob, by simp⟩).ne'

theorem ne_of_processing_zero {id : JobId} (h : s.processing id = 0)
    (hjob : .processing job ∈ s.loops) : job.id ≠ id := by
  rintro rfl
  exact absurd h (List.countP_pos_iff.mpr ⟨_, hjob, by simp [Loop.holds]⟩).ne'

theorem Inv.idle (h : Inv ⟨s, log⟩) (hqueue : s'.queue = s.queue)
    (hproc : ∀ id, s'.processing id = s.processing id)
    (hmem : ∀ job, .processing job ∈ s'.loops → .processing job ∈ s.loops) : Inv ⟨s', log⟩ where
  place := fun id => by
    rw [← h.place id]
    simp only [World.places, hqueue, hproc]
  once := h.once
  waiting := by
    dsimp only
    rw [hqueue]
    exact h.waiting
  processing := fun job hjob => h.processing job (hmem job hjob)
  tallied := h.tallied
  order := by
    dsimp only
    rw [hqueue]
    exact h.order
  letters := by
    dsimp only
    rw [hqueue]
    exact h.letters
  orderly := h.orderly

theorem Inv.enqueued (h : Inv ⟨s, log⟩) {id : JobId} {type : String} {data : Option δ}
    {now : Time} (hfresh : id ∉ enqueuedIds log)
    (hitems : s'.queue.items = s.queue.items ++ [.new id type data now])
    (hletters : s'.queue.deadLetters = s.queue.deadLetters) (hloops : s'.loops = s.loops) :
    Inv ⟨s', .enqueued id :: log⟩ := by
  have hids : enqueuedIds (.enqueued id :: log) = id :: enqueuedIds log := rfl
  have hother : ∀ q, q ∈ enqueuedIds log → LogEvent.job (.enqueued id) ≠ q := by
    rintro q hq rfl
    exact hfresh hq
  obtain ⟨hstarts, hfails, hretry⟩ := h.tallied.unknown id hfresh
  refine ⟨fun q => ?_, List.nodup_cons.mpr ⟨hfresh, h.once⟩, ?_, ?_, h.tallied.enqueued id, ?_, ?_,
    h.orderly⟩
  · -- a fresh id is in no place yet
    have hplace := h.place q
    have hwaiting := Queue.waiting_concat hitems q
    have hproc : s'.processing q = s.processing q := by
      rw [Manager.processing, hloops]
      rfl
    simp only [World.places, List.count_cons, hids, hproc, hwaiting, Job.new, beq_iff_eq,
      reduceCtorEq, if_false] at hplace ⊢
    by_cases hq : id = q
    all_goals
      simp only [hq, if_true, if_false]
      omega
  · intro job hjob
    dsimp only at hjob ⊢
    rw [hitems] at hjob
    rcases List.mem_append.mp hjob with hjob | hjob
    · exact (h.waiting job hjob).cons (hother _ (h.of_waiting hjob).2.2.2.2)
    · obtain rfl := List.mem_singleton.mp hjob
      exact ⟨rfl, Nat.succ_pos 2, by simpa [starts_cons, LogEvent.starts, Job.new] using hstarts,
        by simpa [fails_cons, Job.new] using hfails, hretry, by simp [Job.new]⟩
  · intro job hjob
    dsimp only at hjob ⊢
    rw [hloops] at hjob
    exact (h.processing job hjob).cons (hother _ (h.of_processing hjob).2.2.2.2)
  · dsimp only
    rw [hids, hitems, h.order]
    simp [Job.isFresh, Job.new, firstStarts]
  · dsimp only
    rw [hletters]
    exact h.letters

/-- Taking a job out keeps the order of those not attempted. -/
theorem Inv.order_started (h : Inv ⟨s, log⟩) {front back : List (Job δ)} {now : Time}
    (hitems : s.queue.items = front ++ job :: back) (hitems' : s'.queue.items = front ++ back)
    (hfront : ∀ j ∈ front, j.retryAfter ≠ none) :
    enqueuedIds (.started job.id now :: log) =
      ((s'.queue.items.filter Job.isFresh).map Job.id).reverse ++
        firstStarts (.started job.id now :: log) := by
  have hjob : job ∈ s.queue.items := by
    rw [hitems]
    exact List.mem_append_right _ List.mem_cons_self
  have horder := h.order
  dsimp only at horder
  rw [hitems, List.filter_append, List.filter_cons] at horder
  rw [firstStarts, (h.waiting job hjob).starts, hitems', List.filter_append]
  change enqueuedIds log = _
  by_cases hfresh : job.attempts = 0
  · -- the jobs in front of a fresh one are in backoff, so that it is the first fresh one
    have hnone : front.filter Job.isFresh = [] := by
      rw [List.filter_eq_nil_iff]
      intro j hj hjfresh
      have hjitems : j ∈ s.queue.items := by
        rw [hitems]
        exact List.mem_append_left _ hj
      exact hfront j hj ((h.waiting j hjitems).fresh.mp (of_decide_eq_true hjfresh))
    rw [if_pos hfresh, hnone, List.nil_append]
    have hisFresh : job.isFresh = true := decide_eq_true hfresh
    rw [hnone, if_pos hisFresh, List.nil_append, List.map_cons, List.reverse_cons,
      List.append_assoc] at horder
    exact horder
  · rw [if_neg hfresh]
    have hnotFresh : ¬job.isFresh = true := fun hf => hfresh (of_decide_eq_true hf)
    rw [if_neg hnotFresh] at horder
    exact horder

theorem Inv.started (h : Inv ⟨s, log⟩) {front back : List (Job δ)} {now : Time}
    (hitems : s.queue.items = front ++ job :: back) (hitems' : s'.queue.items = front ++ back)
    (hletters : s'.queue.deadLetters = s.queue.deadLetters) (helig : job.eligible now = true)
    (hfront : ∀ j ∈ front, j.retryAfter ≠ none)
    (hproc : ∀ id, s'.processing id = s.processing id + (if job.id = id then 1 else 0))
    (hmem : ∀ j, .processing j ∈ s'.loops → j = job ∨ .processing j ∈ s.loops) :
    Inv ⟨s', .started job.id now :: log⟩ := by
  have hjob : job ∈ s.queue.items := by
    rw [hitems]
    exact List.mem_append_right _ List.mem_cons_self
  have hwaits := h.waiting job hjob
  obtain ⟨hone, hidle, hsucc, hdead, hknown⟩ := h.of_waiting hjob
  have hwaiting := Queue.waiting_take hitems hitems'
  have hgone : s'.queue.waiting job.id = 0 := by
    have := hwaiting job.id
    rw [if_pos rfl] at this
    omega
  have hsub : ∀ j ∈ s'.queue.items, j ∈ s.queue.items := by
    intro j hj
    rw [hitems'] at hj
    rw [hitems]
    rcases List.mem_append.mp hj with hj | hj
    · exact List.mem_append_left _ hj
    · exact List.mem_append_right _ (List.mem_cons_of_mem _ hj)
  refine ⟨fun q => ?_, h.once, ?_, ?_, ?_, h.order_started hitems hitems' hfront, ?_, ?_⟩
  · -- the job moves from the waiting ones to those being processed
    have hplace := h.place q
    have hq := hwaiting q
    simp only [World.places, List.count_cons, hproc, beq_iff_eq, reduceCtorEq, if_false,
      Nat.add_zero] at hplace ⊢
    change _ = (enqueuedIds log).count q
    omega
  · intro j hj
    exact (h.waiting j (hsub j hj)).cons fun heq => ne_of_waiting_zero hgone hj heq.symm
  · intro j hj
    rcases hmem j hj with rfl | hj
    · refine ⟨hwaits.maxAttempts, hwaits.attempts, ?_, ?_⟩
      · simp [starts_cons, LogEvent.starts, hwaits.starts]
      · simp [fails_cons, hwaits.fails]
    · exact (h.processing j hj).cons fun heq => ne_of_processing_zero hidle hj heq.symm
  · exact h.tallied.cons hknown hsucc hdead (fun _ heq => by cases heq) fun _ heq => by cases heq
  · dsimp only
    rw [hletters]
    exact h.letters
  · refine ⟨⟨hsucc, fun t ht => ?_⟩, h.orderly⟩
    rw [hwaits.retry] at ht
    exact retryAfter_le_of_eligible helig ht

/-- The attempt that is under way fails, with what becomes of the job still open. -/
theorem Inv.tallied_failed (h : Inv ⟨s, log⟩) (hjob : .processing job ∈ s.loops) :
    Tallied (.failed job.id :: log) := by
  obtain ⟨-, -, hsucc, hdead, hknown⟩ := h.of_processing hjob
  exact h.tallied.cons hknown hsucc hdead (fun _ heq => by cases heq) fun _ heq => by cases heq

/-- Once a loop is done with a job, no loop is processing it. -/
theorem Inv.released (h : Inv ⟨s, log⟩) (hjob : .processing job ∈ s.loops)
    (hproc : ∀ id, s'.processing id + (if job.id = id then 1 else 0) = s.processing id) :
    s'.processing job.id = 0 := by
  have hone := (h.of_processing hjob).2.1
  have := hproc job.id
  rw [if_pos rfl] at this
  omega

theorem Inv.attempt_succeeded (h : Inv ⟨s, log⟩) (hjob : .processing job ∈ s.loops)
    (hqueue : s'.queue = s.queue)
    (hproc : ∀ id, s'.processing id + (if job.id = id then 1 else 0) = s.processing id)
    (hmem : ∀ j, .processing j ∈ s'.loops → .processing j ∈ s.loops) :
    Inv ⟨s', .succeeded job.id :: log⟩ := by
  have hruns := h.processing job hjob
  obtain ⟨hidle, hone, hsucc, hdead, hknown⟩ := h.of_processing hjob
  have hgone := h.released hjob hproc
  refine ⟨fun q => ?_, h.once, ?_, ?_, ?_, ?_, ?_, h.orderly⟩
  · -- the job moves from the loop into the log
    have hplace := h.place q
    have hq := hproc q
    simp only [World.places, List.count_cons, hqueue, beq_iff_eq, reduceCtorEq, if_false,
      LogEvent.succeeded.injEq] at hplace ⊢
    change _ = (enqueuedIds log).count q
    by_cases hid : job.id = q
    all_goals
      simp only [hid, if_true, if_false] at hq ⊢
      omega
  · intro j hj
    dsimp only at hj
    rw [hqueue] at hj
    exact (h.waiting j hj).cons fun heq => ne_of_waiting_zero hidle hj heq.symm
  · intro j hj
    exact (h.processing j (hmem j hj)).cons fun heq => ne_of_processing_zero hgone hj heq.symm
  · refine h.tallied.cons hknown hsucc hdead (fun id heq => ?_) fun _ heq => by cases heq
    cases heq
    obtain ⟨-, hlt, hstarts, hfails⟩ := hruns
    dsimp only at hstarts hfails ⊢
    simp only [starts_cons, fails_cons, LogEvent.starts, beq_iff_eq, reduceCtorEq, if_false]
    constructor <;> omega
  · dsimp only
    rw [hqueue]
    exact h.order
  · dsimp only
    rw [hqueue]
    exact h.letters

theorem Inv.retried (h : Inv ⟨s, log⟩) {t : Time} (hjob : .processing job ∈ s.loops)
    (hleft : job.attempts + 1 < job.maxAttempts)
    (hitems : s'.queue.items =
      s.queue.items ++ [{ job with attempts := job.attempts + 1, retryAfter := some t }])
    (hletters : s'.queue.deadLetters = s.queue.deadLetters)
    (hproc : ∀ id, s'.processing id + (if job.id = id then 1 else 0) = s.processing id)
    (hmem : ∀ j, .processing j ∈ s'.loops → .processing j ∈ s.loops) :
    Inv ⟨s', .backoff job.id t :: .failed job.id :: log⟩ := by
  obtain ⟨hmax, hlt, hstarts, hfails⟩ := h.processing job hjob
  obtain ⟨hidle, hone, hsucc, hdead, hknown⟩ := h.of_processing hjob
  have hgone := h.released hjob hproc
  refine ⟨fun q => ?_, h.once, ?_, ?_, ?_, ?_, ?_, h.orderly⟩
  · -- the job moves back to the waiting ones
    have hplace := h.place q
    have hq := hproc q
    have hwaiting := Queue.waiting_concat hitems q
    simp only [World.places, List.count_cons, beq_iff_eq, reduceCtorEq, if_false, Nat.add_zero]
      at hplace ⊢
    change _ = (enqueuedIds log).count q
    dsimp only at hwaiting
    omega
  · intro j hj
    dsimp only at hj
    rw [hitems] at hj
    rcases List.mem_append.mp hj with hj | hj
    · exact (h.waiting j hj).failed (ne_of_waiting_zero hidle hj).symm
    · -- the job itself, with one more attempt and failure than before
      obtain rfl := List.mem_singleton.mp hj
      refine ⟨hmax, by dsimp only; omega, ?_, ?_, ?_, ?_⟩
      all_goals dsimp only
      · simpa [starts_cons, LogEvent.starts] using hstarts
      · simpa [fails_cons] using hfails
      · simp [retryTime]
      · simp
  · intro j hj
    exact (h.processing j (hmem j hj)).failed (ne_of_processing_zero hgone hj).symm
  · refine (h.tallied_failed hjob).cons (mem_enqueuedIds_cons hknown _) ?_ ?_ (fun _ heq => by cases heq)
      fun _ heq => by cases heq
    · simpa [LogEvent.job] using hsucc
    · simpa [LogEvent.job] using hdead
  · have horder := h.order
    dsimp only at horder ⊢
    rw [hitems, List.filter_append]
    simpa [Job.isFresh, enqueuedIds, firstStarts] using horder
  · dsimp only
    rw [hletters]
    exact h.letters

theorem Inv.died (h : Inv ⟨s, log⟩) {letter : DeadLetter} (hjob : .processing job ∈ s.loops)
    (hlast : job.maxAttempts ≤ job.attempts + 1) (hid : letter.id = job.id)
    (hitems : s'.queue.items = s.queue.items)
    (hletters : s'.queue.deadLetters = evictDeadLetters (s.queue.deadLetters ++ [letter]))
    (hproc : ∀ id, s'.processing id + (if job.id = id then 1 else 0) = s.processing id)
    (hmem : ∀ j, .processing j ∈ s'.loops → .processing j ∈ s.loops) :
    Inv ⟨s', .dead job.id :: .failed job.id :: log⟩ := by
  obtain ⟨hmax, hlt, hstarts, hfails⟩ := h.processing job hjob
  obtain ⟨hidle, hone, hsucc, hdead, hknown⟩ := h.of_processing hjob
  have hgone := h.released hjob hproc
  refine ⟨fun q => ?_, h.once, ?_, ?_, ?_, ?_, ?_, h.orderly⟩
  · -- the job moves from the loop into the log
    have hplace := h.place q
    have hq := hproc q
    have hwaiting : s'.queue.waiting q = s.queue.waiting q := by
      rw [Queue.waiting, hitems]
      rfl
    simp only [World.places, List.count_cons, hwaiting, beq_iff_eq, reduceCtorEq, if_false,
      LogEvent.dead.injEq, Nat.add_zero] at hplace ⊢
    change _ = (enqueuedIds log).count q
    by_cases hjq : job.id = q
    all_goals
      simp only [hjq, if_true, if_false] at hq ⊢
      omega
  · intro j hj
    dsimp only at hj
    rw [hitems] at hj
    exact (h.waiting j hj).failed (ne_of_waiting_zero hidle hj).symm
  · intro j hj
    exact (h.processing j (hmem j hj)).failed (ne_of_processing_zero hgone hj).symm
  · refine (h.tallied_failed hjob).cons (mem_enqueuedIds_cons hknown _) ?_ ?_ (fun _ heq => by cases heq)
      fun id heq => ?_
    · simpa [LogEvent.job] using hsucc
    · simpa [LogEvent.job] using hdead
    · cases heq
      simp only [starts_cons, fails_cons, LogEvent.starts, beq_iff_eq, reduceCtorEq, if_false,
        if_true]
      dsimp only at hstarts hfails
      simp
      omega
  · have horder := h.order
    dsimp only at horder ⊢
    rw [hitems]
    exact horder
  · have hold : s.queue.deadLetters.map DeadLetter.id = (deadIds log).reverse.rtake maxDeadLetters :=
      h.letters
    have hids : deadIds (.dead job.id :: .failed job.id :: log) = job.id :: deadIds log := rfl
    have hevict : ∀ l : List DeadLetter, (evictDeadLetters l).map DeadLetter.id =
        (l.map DeadLetter.id).rtake maxDeadLetters := by
      intro l
      rw [evictDeadLetters, List.rtake, List.map_drop, List.length_map]
    dsimp only
    rw [hletters, hids, hevict, List.map_append, hold, List.map_singleton, hid,
      InsertionOrder.rtake_rtake_concat, List.reverse_cons]

/-- **Every step keeps the jobs accounted for.** -/
theorem Inv.step {w w' : World δ} {a : Action δ} (h : Inv w) (hstep : step w a = some w') :
    Inv w' := by
  obtain ⟨s, log⟩ := w
  simp only [Worker.step, Option.ite_none_right_eq_some, Option.map_eq_some_iff] at hstep
  obtain ⟨hfresh, ⟨s', evs⟩, hact, rfl⟩ := hstep
  have hone : ∀ id, s.queue.waiting id + s.processing id ≤ 1 := by
    intro id
    have := h.places_le_one id
    simp only [World.places] at this
    omega
  cases Effect.of_act hact hfresh hone with
  | idle hqueue hproc hmem => exact h.idle hqueue hproc hmem
  | enqueued id type data now hnew hitems hletters hloops =>
      exact h.enqueued hnew hitems hletters hloops
  | started job front back now hitems hitems' hletters helig hfront hproc hmem =>
      exact h.started hitems hitems' hletters helig hfront hproc hmem
  | succeeded job hjob hqueue hproc hmem => exact h.attempt_succeeded hjob hqueue hproc hmem
  | retried job t hjob hleft hitems hletters hproc hmem =>
      exact h.retried hjob hleft hitems hletters hproc hmem
  | died job letter hjob hlast hid hitems hletters hproc hmem =>
      exact h.died hjob hlast hid hitems hletters hproc hmem

end

theorem inv_new : Inv (World.new : World δ) where
  place := fun _ => rfl
  once := List.nodup_nil
  waiting := fun _ h => absurd h List.not_mem_nil
  processing := fun _ h => absurd h List.not_mem_nil
  tallied := ⟨fun _ h => absurd h List.not_mem_nil, fun _ h => absurd h List.not_mem_nil,
    fun _ _ => ⟨rfl, rfl, rfl⟩⟩
  order := rfl
  letters := (List.rtake_nil maxDeadLetters).symm
  orderly := trivial

theorem inv_of_reachable {w : World δ} (hw : Reachable step World.new w) : Inv w :=
  hw.invariant inv_new fun _ _ _ h _ hstep => h.step hstep

/-! ### What follows for every run -/

section
variable {w : World δ} {id : JobId}

/-- A job that is enqueued is in one of the four places. -/
theorem Inv.cases_place (h : Inv w) (hid : id ∈ enqueuedIds w.log) :
    (∃ job ∈ w.manager.queue.items, job.id = id) ∨
      (∃ job, .processing job ∈ w.manager.loops ∧ job.id = id) ∨
        .succeeded id ∈ w.log ∨ .dead id ∈ w.log := by
  have hplace := h.place id
  have hpos : 0 < (enqueuedIds w.log).count id := List.count_pos_iff.mpr hid
  rw [← hplace, World.places] at hpos
  rcases Nat.eq_zero_or_pos (w.manager.queue.waiting id) with hw | hw
  · rcases Nat.eq_zero_or_pos (w.manager.processing id) with hp | hp
    · rcases Nat.eq_zero_or_pos (w.log.count (.succeeded id)) with hs | hs
      · exact .inr (.inr (.inr (List.count_pos_iff.mp (by omega))))
      · exact .inr (.inr (.inl (List.count_pos_iff.mp hs)))
    · obtain ⟨loop, hloop, hheld⟩ := List.countP_pos_iff.mp hp
      cases loop with
      | processing job => exact .inr (.inl ⟨job, hloop, of_decide_eq_true hheld⟩)
      | checking | pulling | sleeping | stranded | ended => cases hheld
  · obtain ⟨job, hjob, hjid⟩ := List.countP_pos_iff.mp hw
    exact .inl ⟨job, hjob, of_decide_eq_true hjid⟩

theorem Inv.tally (h : Inv w) (id : JobId) :
    starts w.log id ≤ 3 ∧ (.dead id ∈ w.log ↔ fails w.log id = 3) := by
  by_cases hid : id ∈ enqueuedIds w.log
  · rcases h.cases_place hid with ⟨job, hjob, rfl⟩ | ⟨job, hjob, rfl⟩ | hsucc | hdead
    · obtain ⟨-, hlt, hstarts, hfails, -, -⟩ := h.waiting job hjob
      refine ⟨by omega, fun hdead => (h.tallied.dead _ hdead).1, fun hthree => ?_⟩
      omega
    · obtain ⟨-, hlt, hstarts, hfails⟩ := h.processing job hjob
      refine ⟨by omega, fun hdead => (h.tallied.dead _ hdead).1, fun hthree => ?_⟩
      omega
    · obtain ⟨hlt, hstarts⟩ := h.tallied.succeeded id hsucc
      refine ⟨hstarts, fun hdead => (h.tallied.dead _ hdead).1, fun hthree => ?_⟩
      omega
    · obtain ⟨hfails, hstarts⟩ := h.tallied.dead id hdead
      exact ⟨hstarts.le, iff_of_true hdead hfails⟩
  · obtain ⟨hstarts, hfails, -⟩ := h.tallied.unknown id hid
    refine ⟨by omega, fun hdead => (h.tallied.dead _ hdead).1, fun hthree => ?_⟩
    omega

theorem Orderly.started {log : List LogEvent} (h : Orderly log) {newer older : List LogEvent}
    {now : Time} (hlog : log = newer ++ .started id now :: older) :
    .succeeded id ∉ older ∧ ∀ t, retryTime id older = some t → t ≤ now := by
  induction newer generalizing log with
  | nil =>
      rw [hlog] at h
      exact h.1
  | cons e newer ih =>
      rw [hlog, List.cons_append] at h
      refine ih ?_ rfl
      cases e with
      | started _ _ => exact h.2
      | enqueued _ | succeeded _ | failed _ | backoff _ _ | dead _ => exact h

end

/-- Each job in exactly one place; at most three attempts, none after a success or before
the retry time; dead-lettered exactly with the third failure, the most recent dead
letters kept in order; first attempts in the order of enqueueing. -/
structure Conserved (w : World δ) : Prop where
  place : ∀ id ∈ enqueuedIds w.log, w.places id = 1
  attempts : ∀ id, starts w.log id ≤ 3
  dead_iff : ∀ id, .dead id ∈ w.log ↔ fails w.log id = 3
  letters : w.manager.queue.deadLetters.map DeadLetter.id =
    (deadIds w.log).reverse.rtake maxDeadLetters
  started : ∀ newer id now older, w.log = newer ++ .started id now :: older →
    .succeeded id ∉ older ∧ ∀ t, retryTime id older = some t → t ≤ now
  order : firstStarts w.log <:+ enqueuedIds w.log

/-- **Jobs are conserved** at every moment of every run, with any number of poll loops. -/
theorem jobs_conserved (w : World δ) (hw : Reachable step World.new w) : Conserved w := by
  have h := inv_of_reachable hw
  refine ⟨fun id hid => ?_, fun id => (h.tally id).1, fun id => (h.tally id).2, h.letters,
    fun newer id now older => h.orderly.started, ?_⟩
  · rw [h.place id]
    exact List.count_eq_one_of_mem h.once hid
  · rw [h.order]
    exact List.suffix_append _ _

/-- A job that fails once, waits out its backoff, and succeeds. -/
def retryOnce : List (Action String) :=
  [.enqueue "a" "room:cleanup" none 0, .start, .check 0, .pull 0 fun _ => 5, .fail 0 7,
    .pull 0 fun _ => 8, .wake 0, .check 0, .pull 0 fun _ => 1007, .succeed 0]

theorem retryOnce_runs : (exec step World.new retryOnce).isSome = true := by decide

theorem jobs_conserved_retryOnce :
    let w := (exec step World.new retryOnce).get retryOnce_runs
    w.log = [.succeeded "a", .started "a" 1007, .backoff "a" 1007, .failed "a", .started "a" 5,
      .enqueued "a"] ∧ Conserved w :=
  ⟨by decide, jobs_conserved _ (reachable_get retryOnce_runs)⟩

end TrapChat.Worker
