import TrapChat.Worker.Manager

/-!
How many poll loops a manager has. `stop` ends no loop: it clears the flag that a
loop reads after it has slept, and the timer on which it sleeps. A loop that is busy
then goes on, and finds the flag set again by a later `start`, which has begun
another one.

So one loop polls exactly in the runs in which `start` finds none of the earlier
loops alive.
-/

namespace TrapChat.Worker

open Transition

variable {δ : Type*}

/-- The loop comes back to `dequeue`, as long as the manager runs. -/
def Loop.alive : Loop δ → Bool
  | .checking | .pulling | .processing _ | .sleeping => true
  | .stranded | .ended => false

def Loop.busy : Loop δ → Bool
  | .processing _ => true
  | _ => false

/-- How many loops are alive. -/
def Manager.pollers (s : Manager δ) : ℕ := s.loops.countP Loop.alive

/-- How many jobs are in process. -/
def Manager.inProcess (s : Manager δ) : ℕ := s.loops.countP Loop.busy

/-- While the manager runs, at most one loop dequeues; and at most one job is in process. -/
structure SinglePoll (s : Manager δ) : Prop where
  pollers : s.running = true → s.pollers ≤ 1
  inProcess : s.inProcess ≤ 1

/-- Where the action is a `start` that begins a loop, no earlier one is alive. -/
def StartsAlone (s : Manager δ) : Action δ → Prop
  | .start => s.running = false → s.pollers = 0
  | _ => True

section
variable {s s' : Manager δ} {i : ℕ} {loop loop' : Loop δ} {a : Action δ} {evs : List LogEvent}

/-- A job is in process in a loop that is alive. -/
theorem inProcess_le_pollers (s : Manager δ) : s.inProcess ≤ s.pollers :=
  List.countP_mono_left fun loop _ h => by cases loop <;> simp_all [Loop.busy, Loop.alive]

theorem singlePoll_of_pollers (h : s.pollers ≤ 1) : SinglePoll s :=
  ⟨fun _ => h, (inProcess_le_pollers s).trans h⟩

/-- A loop that is alive moves on. -/
theorem pollers_goto (h : s.loops[i]? = some loop) (halive : loop.alive = true)
    (loop' : Loop δ) : (s.goto i loop').pollers ≤ s.pollers := by
  have hcount := countP_goto h loop' Loop.alive
  rw [if_pos halive] at hcount
  show (s.goto i loop').loops.countP Loop.alive ≤ s.loops.countP Loop.alive
  split at hcount <;> omega

theorem pollers_clearTimer (s : Manager δ) : s.clearTimer.pollers ≤ s.pollers := by
  rw [Manager.clearTimer]
  split
  · exact le_rfl
  · split
    · next hsleeping => exact pollers_goto hsleeping rfl .stranded
    · exact le_rfl

theorem pollers_attemptFailed {job : Job δ} (h : s.loops[i]? = some (.processing job))
    (now : Time) : (s.attemptFailed i job now).1.pollers ≤ s.pollers := by
  rw [Manager.attemptFailed]
  split
  · exact pollers_goto h rfl .pulling
  · exact pollers_goto h rfl .pulling

/-- **No action but `start` makes a loop.** -/
theorem pollers_act (h : s.act a = some (s', evs)) (ha : a ≠ .start) :
    s'.pollers ≤ s.pollers := by
  cases a with
  | enqueue id type data now =>
      cases h
      exact le_rfl
  | start => exact absurd rfl ha
  | stop =>
      cases h
      exact pollers_clearTimer { s with running := false }
  | check i =>
      simp only [Manager.act] at h
      split at h
      · next hloop =>
          cases h
          exact pollers_goto hloop rfl _
      · cases h
  | pull i now =>
      simp only [Manager.act] at h
      split at h
      · next hloop =>
          split at h
          · next job q _ =>
              cases h
              exact pollers_goto hloop rfl (.processing job)
          · cases h
            exact pollers_goto hloop rfl .sleeping
      · cases h
  | succeed i =>
      simp only [Manager.act] at h
      split at h
      · next hloop =>
          cases h
          exact pollers_goto hloop rfl .pulling
      · cases h
  | fail i now =>
      simp only [Manager.act] at h
      split at h
      · next job hloop =>
          have hle := pollers_attemptFailed hloop now
          rwa [Option.some.inj h] at hle
      · cases h
  | wake i =>
      simp only [Manager.act] at h
      split at h
      · next hloop =>
          cases h
          exact pollers_goto hloop rfl .checking
      · cases h

/-- A `start` of a stopped manager adds a loop to those that are alive. -/
theorem start_act (h : s.act .start = some (s', evs)) :
    s.running = true ∧ s' = s ∨
      s.running = false ∧ s'.running = true ∧ s'.pollers = s.pollers + 1 := by
  simp only [Manager.act] at h
  split at h
  · next hrunning =>
      cases h
      exact .inl ⟨hrunning, rfl⟩
  · next hstopped =>
      cases h
      refine .inr ⟨Bool.eq_false_iff.mpr hstopped, rfl, ?_⟩
      rw [Manager.pollers, Manager.pollers, List.countP_append]
      rfl

/-- **One step.** With at most one loop alive, another one comes up exactly where a `start`
finds one alive. -/
theorem singlePoll_act_iff (hone : s.pollers ≤ 1) (h : s.act a = some (s', evs)) :
    (SinglePoll s' ↔ StartsAlone s a) ∧ (StartsAlone s a → s'.pollers ≤ 1) := by
  by_cases ha : a = .start
  · subst ha
    obtain ⟨hrunning, rfl⟩ | ⟨hstopped, hrunning, hpollers⟩ := start_act h
    · have halone : StartsAlone s' .start := fun hstopped => by simp [hrunning] at hstopped
      exact ⟨iff_of_true (singlePoll_of_pollers hone) halone, fun _ => hone⟩
    · have hnone : StartsAlone s .start ↔ s.pollers = 0 := ⟨fun hs => hs hstopped, fun hs _ => hs⟩
      rw [hnone]
      refine ⟨⟨fun hs => ?_, fun hs => singlePoll_of_pollers (by omega)⟩, fun hs => by omega⟩
      have := hs.pollers hrunning
      omega
  · have hle : s'.pollers ≤ 1 := (pollers_act h ha).trans hone
    have halone : StartsAlone s a := by
      cases a <;> first | exact absurd rfl ha | trivial
    exact ⟨iff_of_true (singlePoll_of_pollers hle) halone, fun _ => hle⟩

end

/-- A step of the world is an action of the manager. -/
theorem act_of_step {w w' : World δ} {a : Action δ} (h : step w a = some w') :
    ∃ evs, w.manager.act a = some (w'.manager, evs) := by
  rw [step] at h
  split at h
  · obtain ⟨res, hact, rfl⟩ := Option.map_eq_some_iff.mp h
    exact ⟨res.2, hact⟩
  · cases h

/-- **One loop polls exactly in the runs in which every `start` of the stopped manager
finds no earlier loop alive.** -/
theorem singlePoll_iff (as : List (Action δ)) :
    Along step (fun _ _ w' => SinglePoll w'.manager) .new as ↔
      Along step (fun w a _ => StartsAlone w.manager a) .new as := by
  refine along_congr (I := fun w => w.manager.pollers ≤ 1) ?_ ?_ (Nat.zero_le 1)
  · intro w a w' hone halone hstep
    obtain ⟨evs, hact⟩ := act_of_step hstep
    exact (singlePoll_act_iff hone hact).2 halone
  · intro w a w' hone hstep
    obtain ⟨evs, hact⟩ := act_of_step hstep
    exact (singlePoll_act_iff hone hact).1

/-- The manager is stopped and started again while a job is processed, and the new loop
takes the next job. -/
def restarted : List (Action String) :=
  [.enqueue "a" "media:chunk" none 0, .enqueue "b" "media:chunk" none 0, .start, .check 0,
    .pull 0 fun _ => 1, .stop, .start, .check 1, .pull 1 fun _ => 2]

theorem restarted_runs : (exec step .new restarted).isSome = true := by decide

theorem restarted_two_in_process : ¬∀ as : List (Action String),
    Along step (fun _ _ w' => SinglePoll w'.manager) .new as := by
  intro h
  let w := (exec step .new restarted).get restarted_runs
  have hexec : exec step .new restarted = some w := (Option.some_get _).symm
  have hnew : SinglePoll (World.new : World String).manager := singlePoll_of_pollers (Nat.zero_le 1)
  have hsingle : SinglePoll w.manager :=
    (along_states_iff (p := fun w => SinglePoll w.manager) hnew).mp (h restarted) restarted [] w
      (List.append_nil _).symm hexec
  have htwo : w.manager.inProcess = 2 := by decide
  have hone := hsingle.inProcess
  omega

end TrapChat.Worker
