import TrapChat.Library.InsertionOrder
import TrapChat.Worker.Conservation

/-!
What the worker answers about a job. A job that was posted is in a bounded set of
submitted jobs, and the result of one that succeeded is in a bounded map of results;
a submitted job without a result counts as pending. Nothing is recorded of a
dead-lettered job, and the two containers forget at different times.

Requests that are refused for their token, rate, size or form change none of this.
-/

namespace TrapChat.Worker

open Transition InsertionOrder

variable {δ ρ : Type*}

def maxResults : ℕ := 1000

def maxSubmittedJobs : ℕ := 10000

theorem maxResults_pos : 0 < maxResults := Nat.succ_pos 999

theorem maxSubmittedJobs_pos : 0 < maxSubmittedJobs := Nat.succ_pos 9999

/-- An entry of the results; its status is `completed`. -/
structure Completion (ρ : Type*) where
  result : ρ
  completedAt : Time

structure Service (δ ρ : Type*) where
  world : World δ
  results : List (JobId × Completion ρ)
  submitted : List JobId

def Service.new : Service δ ρ := ⟨.new, [], []⟩

/-- `trackResult`, which the manager calls with the result of a job. -/
def Service.trackResult (s : Service δ ρ) (id : JobId) (c : Completion ρ) : Service δ ρ :=
  { s with results := evict maxResults (set s.results id c) }

/-- `submittedJobs.add`, with the eviction after it. -/
def Service.addSubmitted (s : Service δ ρ) (id : JobId) : Service δ ρ :=
  { s with submitted := evict maxSubmittedJobs (add s.submitted id) }

inductive Status (ρ : Type*)
  | completed (c : Completion ρ)
  | pending
  | notFound

/-- `GET /jobs/:id`. -/
def getJob (s : Service δ ρ) (id : JobId) : Status ρ :=
  match s.results.lookup id with
  | some c => .completed c
  | none => if id ∈ s.submitted then .pending else .notFound

inductive ServiceAction (δ ρ : Type*)
  /-- `POST /jobs`; the id is the one that is returned. -/
  | post (id : JobId) (type : String) (data : Option δ) (now : Time)
  | succeed (i : ℕ) (c : Completion ρ)
  | worker (a : Action δ)

/-- The steps of the manager in which nothing is posted and no attempt succeeds. -/
def Action.internal : Action δ → Bool
  | .enqueue _ _ _ _ | .succeed _ => false
  | _ => true

def serviceStep (s : Service δ ρ) : ServiceAction δ ρ → Option (Service δ ρ)
  | .post id type data now =>
    if type = "" then some s
    else (step s.world (.enqueue id type data now)).map fun w =>
      { s with world := w }.addSubmitted id
  | .succeed i c =>
    match s.world.manager.loops[i]? with
    | some (.processing job) =>
      (step s.world (.succeed i)).map fun w => { s with world := w }.trackResult job.id c
    | _ => none
  | .worker a =>
    if a.internal then (step s.world a).map fun w => { s with world := w } else none

/-- The job waits or is being processed. -/
def World.Unfinished (w : World δ) (id : JobId) : Prop :=
  0 < w.manager.queue.waiting id ∨ 0 < w.manager.processing id

instance (w : World δ) (id : JobId) : Decidable (w.Unfinished id) :=
  inferInstanceAs (Decidable (_ ∨ _))

/-- At every moment of a run the answers are true, and no job that answered completed
answers pending later. -/
structure TruthfulRun (as : List (ServiceAction δ ρ)) : Prop where
  unfinished : ∀ before after s, as = before ++ after → exec serviceStep .new before = some s →
    ∀ id, s.world.Unfinished id → getJob s id = .pending
  dead : ∀ before after s, as = before ++ after → exec serviceStep .new before = some s →
    ∀ id, .dead id ∈ s.world.log → getJob s id ≠ .pending
  monotone : ∀ before between after s s', as = before ++ between ++ after →
    exec serviceStep .new before = some s → exec serviceStep s between = some s' →
    ∀ id c, getJob s id = .completed c → getJob s' id ≠ .pending

/-- The answers are true: pending for an unfinished job, never for one that is
dead-lettered or has completed. -/
structure Truthful (s : Service δ ρ) : Prop where
  unfinished : ∀ id, s.world.Unfinished id → getJob s id = .pending
  dead : ∀ id, .dead id ∈ s.world.log → getJob s id ≠ .pending
  completed : ∀ id, .succeeded id ∈ s.world.log → getJob s id ≠ .pending

/-- The attempt is a job's last one. -/
def LastFailure (w : World δ) (a : Action δ) (id : JobId) : Prop :=
  match a with
  | .fail i _ =>
    match w.manager.loops[i]? with
    | some (.processing job) => job.maxAttempts ≤ job.attempts + 1 ∧ job.id = id
    | _ => False
  | _ => False

/-- A post that makes the full set forget an unfinished job, a completion that makes the
full map forget a job that is still in the set, or a failure that dead-letters a job. -/
def Misleads (s : Service δ ρ) : ServiceAction δ ρ → Prop
  | .post _ type _ _ => type ≠ "" ∧ maxSubmittedJobs ≤ s.submitted.length ∧
      ∃ oldest ∈ s.submitted.head?, s.world.Unfinished oldest
  | .succeed _ _ => maxResults ≤ s.results.length ∧
      ∃ oldest ∈ (s.results.map Prod.fst).head?, oldest ∈ s.submitted
  | .worker a => ∃ id, LastFailure s.world a id

/-! ### The answers by the log -/

theorem getJob_eq_pending_iff {s : Service δ ρ} {id : JobId} :
    getJob s id = .pending ↔ id ∉ s.results.map Prod.fst ∧ id ∈ s.submitted := by
  unfold getJob
  cases hl : s.results.lookup id with
  | some c =>
      obtain ⟨front, back, hresults, -⟩ := List.lookup_eq_some_iff.mp hl
      simp [hresults]
  | none =>
      have hkeys := lookup_eq_none_iff_notMem.mp hl
      by_cases hsub : id ∈ s.submitted <;> simp [hsub, hkeys]

theorem getJob_completed_iff {s : Service δ ρ} {id : JobId} :
    (∃ c, getJob s id = .completed c) ↔ id ∈ s.results.map Prod.fst := by
  unfold getJob
  cases hl : s.results.lookup id with
  | some c =>
      obtain ⟨front, back, hresults, -⟩ := List.lookup_eq_some_iff.mp hl
      simp [hresults]
  | none =>
      refine iff_of_false ?_ (lookup_eq_none_iff_notMem.mp hl)
      by_cases hsub : id ∈ s.submitted <;> simp [hsub]

/-- A job that is enqueued is unfinished until the log has an end of it. -/
theorem Inv.unfinished_iff {w : World δ} (h : Inv w) (id : JobId) :
    w.Unfinished id ↔ id ∈ enqueuedIds w.log ∧ .succeeded id ∉ w.log ∧ .dead id ∉ w.log := by
  have hplace := h.place id
  have hone := List.nodup_iff_count_le_one.mp h.once id
  simp only [World.places] at hplace
  rw [World.Unfinished, ← List.count_pos_iff, ← List.count_eq_zero, ← List.count_eq_zero]
  constructor
  · intro hpos
    refine ⟨?_, ?_, ?_⟩ <;> omega
  · rintro ⟨henq, hsucc, hdead⟩
    omega

theorem Inv.not_dead_of_succeeded {w : World δ} (h : Inv w) {id : JobId}
    (hs : .succeeded id ∈ w.log) : .dead id ∉ w.log ∧ id ∈ enqueuedIds w.log := by
  have hplace := h.place id
  have hone := List.nodup_iff_count_le_one.mp h.once id
  have hpos := List.count_pos_iff.mpr hs
  simp only [World.places] at hplace
  rw [← List.count_eq_zero, ← List.count_pos_iff]
  constructor <;> omega

theorem Inv.enqueued_of_dead {w : World δ} (h : Inv w) {id : JobId} (hd : .dead id ∈ w.log) :
    id ∈ enqueuedIds w.log := by
  have hplace := h.place id
  have hpos := List.count_pos_iff.mpr hd
  simp only [World.places] at hplace
  rw [← List.count_pos_iff]
  omega

/-- What the containers hold, whatever they have forgotten. -/
structure ServiceInv (s : Service δ ρ) : Prop where
  inv : Inv s.world
  keys : (s.results.map Prod.fst).Nodup
  tracked : ∀ id ∈ s.results.map Prod.fst, .succeeded id ∈ s.world.log
  once : s.submitted.Nodup
  posted : ∀ id ∈ s.submitted, id ∈ enqueuedIds s.world.log

/-- The answers are true where the containers remember what they have to. -/
structure Remembered (s : Service δ ρ) : Prop where
  unfinished : ∀ id, s.world.Unfinished id → id ∈ s.submitted
  dead : ∀ id, .dead id ∈ s.world.log → id ∉ s.submitted
  completed : ∀ id, .succeeded id ∈ s.world.log →
    id ∈ s.results.map Prod.fst ∨ id ∉ s.submitted

theorem ServiceInv.truthful_iff {s : Service δ ρ} (h : ServiceInv s) :
    Truthful s ↔ Remembered s := by
  constructor
  · rintro ⟨hunfinished, hdead, hcompleted⟩
    refine ⟨fun id hid => (getJob_eq_pending_iff.mp (hunfinished id hid)).2, fun id hid hsub => ?_,
      fun id hid => ?_⟩
    · refine hdead id hid (getJob_eq_pending_iff.mpr ⟨fun hkey => ?_, hsub⟩)
      exact (h.inv.not_dead_of_succeeded (h.tracked id hkey)).1 hid
    · by_contra hnot
      obtain ⟨hkey, hsub⟩ := not_or.mp hnot
      exact hcompleted id hid (getJob_eq_pending_iff.mpr ⟨hkey, not_not.mp hsub⟩)
  · rintro ⟨hunfinished, hdead, hcompleted⟩
    refine ⟨fun id hid => getJob_eq_pending_iff.mpr ⟨fun hkey => ?_, hunfinished id hid⟩,
      fun id hid hpending => ?_, fun id hid hpending => ?_⟩
    · exact ((h.inv.unfinished_iff id).mp hid).2.1 (h.tracked id hkey)
    · exact hdead id hid (getJob_eq_pending_iff.mp hpending).2
    · obtain ⟨hkey, hsub⟩ := getJob_eq_pending_iff.mp hpending
      exact (hcompleted id hid).elim hkey fun hnot => hnot hsub

/-! ### What a step leaves -/

theorem attemptFailed_events (s : Manager δ) (i : ℕ) (job : Job δ) (now : Time) :
    (s.attemptFailed i job now).2 =
      if job.maxAttempts ≤ job.attempts + 1 then [.dead job.id, .failed job.id]
      else [.backoff job.id (now + backoffDelay (job.attempts + 1)), .failed job.id] := by
  unfold Manager.attemptFailed Queue.requeue
  dsimp only
  by_cases hlast : job.attempts + 1 ≥ job.maxAttempts
  · rw [if_pos hlast, if_pos hlast]
  · rw [if_neg hlast, if_neg hlast]

/-- The jobs that a step of the manager ends. -/
theorem log_of_internal {w w' : World δ} {a : Action δ} (ha : a.internal = true)
    (h : step w a = some w') :
    enqueuedIds w'.log = enqueuedIds w.log ∧
      (∀ id, .succeeded id ∈ w'.log ↔ .succeeded id ∈ w.log) ∧
        ∀ id, .dead id ∈ w'.log ↔ LastFailure w a id ∨ .dead id ∈ w.log := by
  obtain ⟨s, log⟩ := w
  simp only [step, Option.ite_none_right_eq_some, Option.map_eq_some_iff] at h
  obtain ⟨-, ⟨s', evs⟩, hact, rfl⟩ := h
  cases a with
  | enqueue _ _ _ _ => cases ha
  | succeed i => cases ha
  | start =>
      simp only [Manager.act] at hact
      split at hact
      all_goals
        cases hact
        simp [LastFailure]
  | stop =>
      cases hact
      simp [LastFailure]
  | check i | wake i =>
      simp only [Manager.act] at hact
      split at hact
      · cases hact
        simp [LastFailure]
      · cases hact
  | pull i now =>
      simp only [Manager.act] at hact
      split at hact
      · split at hact
        all_goals
          cases hact
          simp [LastFailure, enqueuedIds]
      · cases hact
  | fail i now =>
      simp only [Manager.act] at hact
      split at hact
      · next job hloop =>
          -- only the last attempt at a job logs an end of it
          obtain rfl : (s.attemptFailed i job now).2 = evs := congrArg Prod.snd (Option.some.inj hact)
          simp only [LastFailure, hloop, attemptFailed_events]
          by_cases hlast : job.maxAttempts ≤ job.attempts + 1
          · simp [hlast, enqueuedIds, eq_comm]
          · simp [hlast, enqueuedIds]
      · cases hact

theorem log_of_enqueue {w w' : World δ} {id : JobId} {type : String} {data : Option δ} {now : Time}
    (h : step w (.enqueue id type data now) = some w') :
    id ∉ enqueuedIds w.log ∧ w'.log = .enqueued id :: w.log := by
  simp only [step, Option.ite_none_right_eq_some, Manager.act, Option.map_some,
    Option.some.injEq] at h
  obtain ⟨hfresh, rfl⟩ := h
  exact ⟨hfresh, rfl⟩

theorem log_of_succeed {w w' : World δ} {i : ℕ} {job : Job δ}
    (hloop : w.manager.loops[i]? = some (.processing job)) (h : step w (.succeed i) = some w') :
    w'.log = .succeeded job.id :: w.log := by
  simp only [step, Option.ite_none_right_eq_some, Manager.act, hloop, Option.map_some,
    Option.some.injEq] at h
  obtain ⟨-, rfl⟩ := h
  rfl

theorem unfinished_of_processing {w : World δ} {i : ℕ} {job : Job δ}
    (hloop : w.manager.loops[i]? = some (.processing job)) : w.Unfinished job.id :=
  .inr (List.countP_pos_iff.mpr ⟨_, List.mem_of_getElem? hloop, by simp [Loop.holds]⟩)

theorem unfinished_of_lastFailure {w : World δ} {a : Action δ} {id : JobId}
    (h : LastFailure w a id) : w.Unfinished id := by
  cases a with
  | fail i now =>
      simp only [LastFailure] at h
      split at h
      · next job hloop =>
          obtain ⟨-, rfl⟩ := h
          exact unfinished_of_processing hloop
      · exact h.elim
  | enqueue _ _ _ _ | start | stop | check _ | pull _ _ | succeed _ | wake _ => exact h.elim

section
variable {s : Service δ ρ} {w : World δ} {id x : JobId}

/-! ### A post -/

section
variable {type : String} {data : Option δ} {now : Time}

theorem ServiceInv.notMem_submitted (h : ServiceInv s)
    (hstep : step s.world (.enqueue id type data now) = some w) : id ∉ s.submitted :=
  fun hsub => (log_of_enqueue hstep).1 (h.posted id hsub)

theorem ServiceInv.mem_submitted_iff (h : ServiceInv s)
    (hstep : step s.world (.enqueue id type data now) = some w) :
    x ∈ ({ s with world := w }.addSubmitted id).submitted ↔
      x = id ∨ x ∈ s.submitted ∧
        ¬(maxSubmittedJobs ≤ s.submitted.length ∧ s.submitted.head? = some x) :=
  mem_evict_add_iff maxSubmittedJobs_pos h.once (h.notMem_submitted hstep)

theorem ServiceInv.post (h : ServiceInv s)
    (hstep : step s.world (.enqueue id type data now) = some w) :
    ServiceInv ({ s with world := w }.addSubmitted id) := by
  have hlog := (log_of_enqueue hstep).2
  refine ⟨h.inv.step hstep, h.keys, fun x hx => ?_, nodup_evict_add h.once, fun x hx => ?_⟩
  · change .succeeded x ∈ w.log
    rw [hlog]
    exact List.mem_cons_of_mem _ (h.tracked x hx)
  · change x ∈ enqueuedIds w.log
    rw [hlog]
    rcases (h.mem_submitted_iff hstep).mp hx with rfl | ⟨hx, -⟩
    · exact List.mem_cons_self
    · exact mem_enqueuedIds_cons (h.posted x hx) _

theorem ServiceInv.remembered_post_iff (h : ServiceInv s) (hr : Remembered s)
    (hstep : step s.world (.enqueue id type data now) = some w) :
    Remembered ({ s with world := w }.addSubmitted id) ↔
      ¬(maxSubmittedJobs ≤ s.submitted.length ∧
        ∃ oldest ∈ s.submitted.head?, s.world.Unfinished oldest) := by
  obtain ⟨hfresh, hlog⟩ := log_of_enqueue hstep
  have hinv := h.inv.step hstep
  have hmem := fun x => h.mem_submitted_iff (x := x) hstep
  have hunf : ∀ x, w.Unfinished x ↔ x = id ∨ s.world.Unfinished x := by
    intro x
    rw [hinv.unfinished_iff, h.inv.unfinished_iff, hlog]
    by_cases hx : x = id
    · subst hx
      refine iff_of_true ⟨List.mem_cons_self, fun hs => hfresh ?_, fun hd => hfresh ?_⟩ (.inl rfl)
      · exact (h.inv.not_dead_of_succeeded (by simpa using hs)).2
      · exact h.inv.enqueued_of_dead (by simpa using hd)
    · simp [enqueuedIds, hx, eq_comm]
  constructor
  · -- the unfinished job that is forgotten would have to be in the set
    rintro hr' ⟨hfull, oldest, hhead, hold⟩
    rcases (hmem oldest).mp (hr'.unfinished oldest ((hunf oldest).mpr (.inr hold))) with
      rfl | ⟨-, hnot⟩
    · exact h.notMem_submitted hstep (List.mem_of_mem_head? hhead)
    · exact hnot ⟨hfull, hhead⟩
  · intro hkept
    refine ⟨fun x hx => (hmem x).mpr ?_, fun x hx => ?_, fun x hx => ?_⟩
    · rcases (hunf x).mp hx with rfl | hx
      · exact .inl rfl
      · refine .inr ⟨hr.unfinished x hx, ?_⟩
        rintro ⟨hfull, hhead⟩
        exact hkept ⟨hfull, x, hhead, hx⟩
    · have hd : .dead x ∈ s.world.log := by simpa [Service.addSubmitted, hlog] using hx
      rw [hmem]
      rintro (rfl | ⟨hsub, -⟩)
      · exact hfresh (h.inv.enqueued_of_dead hd)
      · exact hr.dead x hd hsub
    · have hs : .succeeded x ∈ s.world.log := by simpa [Service.addSubmitted, hlog] using hx
      refine (hr.completed x hs).imp_right fun hsub => ?_
      rw [hmem]
      rintro (rfl | ⟨hsub', -⟩)
      · exact hfresh (h.inv.not_dead_of_succeeded hs).2
      · exact hsub hsub'

end

/-! ### A success -/

section
variable {i : ℕ} {job : Job δ} {c : Completion ρ}

theorem ServiceInv.mem_results_iff (h : ServiceInv s)
    (hloop : s.world.manager.loops[i]? = some (.processing job)) :
    x ∈ ({ s with world := w }.trackResult job.id c).results.map Prod.fst ↔
      x = job.id ∨ x ∈ s.results.map Prod.fst ∧
        ¬(maxResults ≤ s.results.length ∧ (s.results.map Prod.fst).head? = some x) := by
  have hnew : job.id ∉ s.results.map Prod.fst := fun hkey =>
    ((h.inv.unfinished_iff job.id).mp (unfinished_of_processing hloop)).2.1 (h.tracked _ hkey)
  unfold Service.trackResult
  rw [map_evict, keys_set, mem_evict_add_iff maxResults_pos h.keys hnew, List.length_map]

theorem ServiceInv.succeed (h : ServiceInv s)
    (hloop : s.world.manager.loops[i]? = some (.processing job))
    (hstep : step s.world (.succeed i) = some w) :
    ServiceInv ({ s with world := w }.trackResult job.id c) := by
  have hlog := log_of_succeed hloop hstep
  refine ⟨h.inv.step hstep, ?_, fun x hx => ?_, h.once, fun x hx => ?_⟩
  · unfold Service.trackResult
    rw [map_evict, keys_set]
    exact nodup_evict_add h.keys
  · change .succeeded x ∈ w.log
    rw [hlog]
    rcases (h.mem_results_iff hloop).mp hx with rfl | ⟨hx, -⟩
    · exact List.mem_cons_self
    · exact List.mem_cons_of_mem _ (h.tracked x hx)
  · change x ∈ enqueuedIds w.log
    rw [hlog]
    exact mem_enqueuedIds_cons (h.posted x hx) _

theorem ServiceInv.remembered_succeed_iff (h : ServiceInv s) (hr : Remembered s)
    (hloop : s.world.manager.loops[i]? = some (.processing job))
    (hstep : step s.world (.succeed i) = some w) :
    Remembered ({ s with world := w }.trackResult job.id c) ↔
      ¬(maxResults ≤ s.results.length ∧
        ∃ oldest ∈ (s.results.map Prod.fst).head?, oldest ∈ s.submitted) := by
  have hlog := log_of_succeed hloop hstep
  have hinv := h.inv.step hstep
  have hmem := fun x => h.mem_results_iff (w := w) (c := c) (x := x) hloop
  have hrunning := (h.inv.unfinished_iff job.id).mp (unfinished_of_processing hloop)
  constructor
  · -- the completed job whose result is forgotten is still in the set
    rintro hr' ⟨hfull, oldest, hhead, hsub⟩
    have hkey : oldest ∈ s.results.map Prod.fst := List.mem_of_mem_head? hhead
    have hs : .succeeded oldest ∈ w.log := by
      rw [hlog]
      exact List.mem_cons_of_mem _ (h.tracked oldest hkey)
    rcases hr'.completed oldest hs with hkept | hnot
    · rcases (hmem oldest).mp hkept with rfl | ⟨-, hout⟩
      · exact hrunning.2.1 (h.tracked _ hkey)
      · exact hout ⟨hfull, hhead⟩
    · exact hnot hsub
  · intro hkept
    refine ⟨fun x hx => ?_, fun x hx => ?_, fun x hx => ?_⟩
    · obtain ⟨henq, hs, hd⟩ := (hinv.unfinished_iff x).mp hx
      rw [hlog] at henq hs hd
      refine hr.unfinished x ((h.inv.unfinished_iff x).mpr ⟨henq, fun hs' => ?_, fun hd' => ?_⟩)
      · exact hs (List.mem_cons_of_mem _ hs')
      · exact hd (List.mem_cons_of_mem _ hd')
    · exact hr.dead x (by simpa [Service.trackResult, hlog] using hx)
    · rw [hmem]
      have hx' : x = job.id ∨ .succeeded x ∈ s.world.log := by
        simpa [Service.trackResult, hlog] using hx
      rcases hx' with rfl | hs
      · exact .inl (.inl rfl)
      · by_cases hsub : x ∈ s.submitted
        · have hkey := (hr.completed x hs).resolve_right fun hnot => hnot hsub
          refine .inl (.inr ⟨hkey, ?_⟩)
          rintro ⟨hfull, hhead⟩
          exact hkept ⟨hfull, x, hhead, hsub⟩
        · exact .inr hsub

/-- The answer right after a success. -/
theorem ServiceInv.getJob_succeed (h : ServiceInv s)
    (hloop : s.world.manager.loops[i]? = some (.processing job)) :
    ∃ c', getJob ({ s with world := w }.trackResult job.id c) job.id = .completed c' := by
  have hkey := (h.mem_results_iff (w := w) (c := c) hloop).mpr (.inl rfl)
  exact getJob_completed_iff.mpr hkey

end

/-! ### The other steps of the manager -/

section
variable {a : Action δ}

theorem ServiceInv.worker (h : ServiceInv s) (ha : a.internal = true)
    (hstep : step s.world a = some w) : ServiceInv { s with world := w } := by
  obtain ⟨henq, hs, -⟩ := log_of_internal ha hstep
  refine ⟨h.inv.step hstep, h.keys, fun x hx => ?_, h.once, fun x hx => ?_⟩
  · exact (hs x).mpr (h.tracked x hx)
  · change x ∈ enqueuedIds w.log
    rw [henq]
    exact h.posted x hx

theorem ServiceInv.remembered_worker_iff (h : ServiceInv s) (hr : Remembered s)
    (ha : a.internal = true) (hstep : step s.world a = some w) :
    Remembered { s with world := w } ↔ ¬∃ id, LastFailure s.world a id := by
  obtain ⟨henq, hs, hd⟩ := log_of_internal ha hstep
  have hinv := h.inv.step hstep
  constructor
  · -- a job is in the set as long as it is unfinished, and nothing takes it out
    rintro hr' ⟨id, hlast⟩
    exact hr'.dead id ((hd id).mpr (.inl hlast))
      (hr.unfinished id (unfinished_of_lastFailure hlast))
  · intro hnone
    refine ⟨fun x hx => ?_, fun x hx => ?_, fun x hx => hr.completed x ((hs x).mp hx)⟩
    · obtain ⟨henq', hs', hd'⟩ := (hinv.unfinished_iff x).mp hx
      rw [henq] at henq'
      refine hr.unfinished x ((h.inv.unfinished_iff x).mpr ⟨henq', ?_, ?_⟩)
      · exact fun hsx => hs' ((hs x).mpr hsx)
      · exact fun hdx => hd' ((hd x).mpr (.inr hdx))
    · rcases (hd x).mp hx with hlast | hdx
      · exact absurd ⟨x, hlast⟩ hnone
      · exact hr.dead x hdx

end

/-! ### Runs -/

/-- What a request or a step of the manager does. -/
inductive Served (s : Service δ ρ) : ServiceAction δ ρ → Service δ ρ → Prop
  | refused (id : JobId) (data : Option δ) (now : Time) : Served s (.post id "" data now) s
  | posted {id : JobId} {type : String} {data : Option δ} {now : Time} {w : World δ}
      (htype : type ≠ "") (hstep : step s.world (.enqueue id type data now) = some w) :
      Served s (.post id type data now) ({ s with world := w }.addSubmitted id)
  | succeeded {i : ℕ} {c : Completion ρ} {job : Job δ} {w : World δ}
      (hloop : s.world.manager.loops[i]? = some (.processing job))
      (hstep : step s.world (.succeed i) = some w) :
      Served s (.succeed i c) ({ s with world := w }.trackResult job.id c)
  | worked {a : Action δ} {w : World δ} (ha : a.internal = true)
      (hstep : step s.world a = some w) : Served s (.worker a) { s with world := w }

variable {s' : Service δ ρ} {a : ServiceAction δ ρ}

theorem Served.of_step (h : serviceStep s a = some s') : Served s a s' := by
  cases a with
  | post id type data now =>
      simp only [serviceStep] at h
      split at h
      · next htype =>
          subst htype
          cases h
          exact .refused id data now
      · next htype =>
          obtain ⟨w, hstep, rfl⟩ := Option.map_eq_some_iff.mp h
          exact .posted htype hstep
  | succeed i c =>
      simp only [serviceStep] at h
      split at h
      · next job hloop =>
          obtain ⟨w, hstep, rfl⟩ := Option.map_eq_some_iff.mp h
          exact .succeeded hloop hstep
      · cases h
  | worker a =>
      simp only [serviceStep, Option.ite_none_right_eq_some] at h
      obtain ⟨ha, hmap⟩ := h
      obtain ⟨w, hstep, rfl⟩ := Option.map_eq_some_iff.mp hmap
      exact .worked ha hstep

theorem ServiceInv.kept (h : ServiceInv s) (hstep : serviceStep s a = some s') :
    ServiceInv s' := by
  cases Served.of_step hstep with
  | refused => exact h
  | posted htype hpost => exact h.post hpost
  | succeeded hloop hsucceed => exact h.succeed hloop hsucceed
  | worked ha hworker => exact h.worker ha hworker

/-- **One step keeps the answers true exactly where it does not mislead.** -/
theorem ServiceInv.truthful_step_iff (h : ServiceInv s) (ht : Truthful s)
    (hstep : serviceStep s a = some s') : Truthful s' ↔ ¬Misleads s a := by
  have hr := h.truthful_iff.mp ht
  rw [(h.kept hstep).truthful_iff]
  cases Served.of_step hstep with
  | refused => exact iff_of_true hr fun hm => hm.1 rfl
  | posted htype hpost =>
      rw [h.remembered_post_iff hr hpost]
      exact not_congr (and_iff_right htype).symm
  | succeeded hloop hsucceed => exact h.remembered_succeed_iff hr hloop hsucceed
  | worked ha hworker => exact h.remembered_worker_iff hr ha hworker

/-- A success stays in the log, and a new one is answered with completed. -/
theorem ServiceInv.succeeded_step (h : ServiceInv s) (hstep : serviceStep s a = some s')
    (id : JobId) :
    (.succeeded id ∈ s.world.log → .succeeded id ∈ s'.world.log) ∧
      (.succeeded id ∈ s'.world.log → .succeeded id ∈ s.world.log ∨
        ∃ c, getJob s' id = .completed c) := by
  cases Served.of_step hstep with
  | refused => exact ⟨fun hs => hs, .inl⟩
  | posted htype hpost =>
      have hlog := (log_of_enqueue hpost).2
      refine ⟨fun hs => ?_, fun hs => .inl ?_⟩
      · simp [Service.addSubmitted, hlog, hs]
      · simpa [Service.addSubmitted, hlog] using hs
  | @succeeded i c job w hloop hsucceed =>
      have hlog := log_of_succeed hloop hsucceed
      refine ⟨fun hs => ?_, fun hs => ?_⟩
      · simp [Service.trackResult, hlog, hs]
      · have hcases : id = job.id ∨ .succeeded id ∈ s.world.log := by
          simpa [Service.trackResult, hlog] using hs
        rcases hcases with rfl | hold
        · exact .inr (h.getJob_succeed hloop)
        · exact .inl hold
  | worked ha hworker =>
      have hiff := (log_of_internal ha hworker).2.1 id
      exact ⟨hiff.mpr, fun hs => .inl (hiff.mp hs)⟩

end

theorem serviceInv_new : ServiceInv (Service.new : Service δ ρ) where
  inv := inv_new
  keys := List.nodup_nil
  tracked := fun _ h => absurd h List.not_mem_nil
  once := List.nodup_nil
  posted := fun _ h => absurd h List.not_mem_nil

theorem truthful_new : Truthful (Service.new : Service δ ρ) :=
  serviceInv_new.truthful_iff.mpr
    ⟨fun _ h => by cases h <;> contradiction, fun _ h => absurd h List.not_mem_nil,
      fun _ h => absurd h List.not_mem_nil⟩

section
variable {s s' : Service δ ρ} {as : List (ServiceAction δ ρ)} {id : JobId}

theorem ServiceInv.run (h : ServiceInv s) (hexec : exec serviceStep s as = some s') :
    ServiceInv s' ∧ ∀ id, .succeeded id ∈ s.world.log → .succeeded id ∈ s'.world.log := by
  induction as generalizing s with
  | nil =>
      cases hexec
      exact ⟨h, fun _ hs => hs⟩
  | cons a as ih =>
      obtain ⟨s₁, hstep, hrest⟩ := Option.bind_eq_some_iff.mp hexec
      obtain ⟨h', hlog⟩ := ih (h.kept hstep) hrest
      exact ⟨h', fun id hs => hlog id ((h.succeeded_step hstep id).1 hs)⟩

/-- A success in a run was answered with completed at some moment of it. -/
theorem ServiceInv.completed_of_succeeded (h : ServiceInv s)
    (hexec : exec serviceStep s as = some s') (hold : .succeeded id ∉ s.world.log)
    (hs : .succeeded id ∈ s'.world.log) :
    ∃ before between t c, as = before ++ between ∧
      exec serviceStep s before = some t ∧
        exec serviceStep t between = some s' ∧ getJob t id = .completed c := by
  induction as generalizing s with
  | nil =>
      cases hexec
      exact absurd hs hold
  | cons a as ih =>
      obtain ⟨s₁, hstep, hrest⟩ := Option.bind_eq_some_iff.mp hexec
      by_cases hnew : .succeeded id ∈ s₁.world.log
      · obtain ⟨c, hc⟩ := ((h.succeeded_step hstep id).2 hnew).resolve_left hold
        exact ⟨[a], as, s₁, c, rfl, exec_of_step hstep rfl, hrest, hc⟩
      · obtain ⟨before, between, t, c, rfl, hbefore, hbetween, hc⟩ := ih (h.kept hstep) hrest hnew
        exact ⟨a :: before, between, t, c, rfl, exec_of_step hstep hbefore, hbetween, hc⟩

theorem truthfulRun_iff_along :
    TruthfulRun as ↔ Along serviceStep (fun _ _ t => Truthful t) .new as := by
  rw [along_states_iff truthful_new]
  constructor
  · intro hrun before after t hsplit hexec
    refine ⟨hrun.unfinished before after t hsplit hexec, hrun.dead before after t hsplit hexec,
      fun id hs => ?_⟩
    -- a job in the log as succeeded has answered completed at some moment before
    obtain ⟨front, back, u, c, rfl, hfront, hback, hc⟩ :=
      serviceInv_new.completed_of_succeeded hexec List.not_mem_nil hs
    exact hrun.monotone front back after u t hsplit hfront hback id c hc
  · intro hall
    refine ⟨fun before after t hsplit hexec => (hall before after t hsplit hexec).unfinished,
      fun before after t hsplit hexec => (hall before after t hsplit hexec).dead, ?_⟩
    intro before between after u t hsplit hbefore hbetween id c hc
    obtain ⟨hinv, -⟩ := serviceInv_new.run hbefore
    have hs := hinv.tracked id (getJob_completed_iff.mp ⟨c, hc⟩)
    refine (hall (before ++ between) after t hsplit ?_).completed id ((hinv.run hbetween).2 id hs)
    rw [exec_append, hbefore, Option.bind_some, hbetween]

/-- **The answers are true and no job goes back to pending exactly in the runs in which
no step misleads**: none dead-letters a job, makes the full set forget an unfinished
job, or makes the full map forget a job that is still in the set. -/
theorem statuses_truthful_iff (as : List (ServiceAction δ ρ)) :
    TruthfulRun as ↔ Along serviceStep (fun s a _ => ¬Misleads s a) .new as := by
  rw [truthfulRun_iff_along]
  refine along_congr (I := fun s => ServiceInv s ∧ Truthful s) ?_ ?_ ⟨serviceInv_new, truthful_new⟩
  · rintro s a s' ⟨hinv, htrue⟩ hkeeps hstep
    exact ⟨hinv.kept hstep, (hinv.truthful_step_iff htrue hstep).mpr hkeeps⟩
  · rintro s a s' ⟨hinv, htrue⟩ hstep
    exact hinv.truthful_step_iff htrue hstep

end

/-- A job whose three attempts fail. -/
def deadLettered : List (ServiceAction String String) :=
  [.post "a" "room:cleanup" none 0, .worker .start, .worker (.check 0),
    .worker (.pull 0 fun _ => 1), .worker (.fail 0 2), .worker (.pull 0 fun _ => 2000),
    .worker (.fail 0 2001), .worker (.pull 0 fun _ => 5000), .worker (.fail 0 5001)]

theorem deadLettered_runs : (exec serviceStep .new deadLettered).isSome = true := by decide

theorem dead_letter_pending : ¬∀ as : List (ServiceAction String String), TruthfulRun as := by
  intro h
  let s := (exec serviceStep .new deadLettered).get deadLettered_runs
  have hexec : exec serviceStep .new deadLettered = some s := (Option.some_get _).symm
  have hdead : .dead "a" ∈ s.world.log := by decide
  have hpending : getJob s "a" = .pending := rfl
  exact (h deadLettered).dead deadLettered [] s rfl hexec "a" hdead hpending

end TrapChat.Worker
