import Mathlib.Logic.Function.Basic

/-!
Transition systems given by a partial step function: `step s a = some s'` says
that the action `a` is enabled in `s` and leads to `s'`. A nondeterministic
choice (a schedule, a fresh value, an iteration order) is part of the action, so
that a run is a list of actions and can be evaluated.

A statement about every run whose steps all meet a condition `C`, read on the
state before the step, is one about `ReachableVia step C init`. The induction
over runs is done once, in `ReachableVia.invariant`; a proof about a particular
system supplies the step.
-/

namespace Transition

variable {σ α : Type*}

/-- The states reached from `init` by steps that all meet `C`. -/
inductive ReachableVia (step : σ → α → Option σ) (C : σ → α → Prop) (init : σ) : σ → Prop
  | start : ReachableVia step C init init
  | next {s s' : σ} {a : α} (hs : ReachableVia step C init s) (hC : C s a)
      (hstep : step s a = some s') : ReachableVia step C init s'

/-- The states reached from `init` by any steps. -/
def Reachable (step : σ → α → Option σ) (init : σ) : σ → Prop :=
  ReachableVia step (fun _ _ => True) init

variable {step : σ → α → Option σ} {C D : σ → α → Prop} {init : σ}

/-- **The invariant rule.** What holds at the start and is kept by every step
that meets the condition holds in every state reached. -/
theorem ReachableVia.invariant {I : σ → Prop} (hinit : I init)
    (hkeep : ∀ s a s', I s → C s a → step s a = some s' → I s') {s : σ}
    (hs : ReachableVia step C init s) : I s := by
  induction hs with
  | start => exact hinit
  | next _ hC hstep ih => exact hkeep _ _ _ ih hC hstep

/-- A second invariant may use the first one at every step. -/
theorem ReachableVia.invariant_of {I J : σ → Prop} (hI : ∀ s, ReachableVia step C init s → I s)
    (hinit : J init) (hkeep : ∀ s a s', I s → J s → C s a → step s a = some s' → J s') {s : σ}
    (hs : ReachableVia step C init s) : J s := by
  induction hs with
  | start => exact hinit
  | next hs hC hstep ih => exact hkeep _ _ _ (hI _ hs) ih hC hstep

theorem ReachableVia.mono (hCD : ∀ s a, C s a → D s a) {s : σ}
    (hs : ReachableVia step C init s) : ReachableVia step D init s := by
  induction hs with
  | start => exact .start
  | next _ hC hstep ih => exact .next ih (hCD _ _ hC) hstep

theorem ReachableVia.reachable {s : σ} (hs : ReachableVia step C init s) :
    Reachable step init s :=
  hs.mono fun _ _ _ => trivial

/-- The run of a list of actions, `none` as soon as one of them is not enabled. -/
def exec (step : σ → α → Option σ) : σ → List α → Option σ
  | s, [] => some s
  | s, a :: as => (step s a).bind fun s' => exec step s' as

@[simp] theorem exec_nil (s : σ) : exec step s [] = some s := rfl

@[simp] theorem exec_cons (s : σ) (a : α) (as : List α) :
    exec step s (a :: as) = (step s a).bind fun s' => exec step s' as := rfl

/-- One step more at the front of a run. -/
theorem exec_of_step {s s' t : σ} {a : α} {as : List α} (h : step s a = some s')
    (hrest : exec step s' as = some t) : exec step s (a :: as) = some t :=
  Option.bind_eq_some_iff.mpr ⟨s', h, hrest⟩

theorem exec_append (s : σ) (as bs : List α) :
    exec step s (as ++ bs) = (exec step s as).bind fun t => exec step t bs := by
  induction as generalizing s with
  | nil => rfl
  | cons a as ih =>
      rw [List.cons_append, exec_cons, exec_cons, Option.bind_assoc]
      exact Option.bind_congr fun s' _ => ih s'

theorem reachable_of_exec {as : List α} {s t : σ} (hs : Reachable step init s)
    (h : exec step s as = some t) : Reachable step init t := by
  induction as generalizing s with
  | nil =>
      cases h
      exact hs
  | cons a as ih =>
      obtain ⟨s', hstep, hrest⟩ := Option.bind_eq_some_iff.mp h
      exact ih (.next hs trivial hstep) hrest

/-- The invariant rule for one run, whose actions are known. -/
theorem invariant_of_exec {I : σ → Prop} {as : List α}
    (hkeep : ∀ s, ∀ a ∈ as, ∀ s', I s → step s a = some s' → I s') {s t : σ} (hs : I s)
    (h : exec step s as = some t) : I t := by
  induction as generalizing s with
  | nil =>
      cases h
      exact hs
  | cons a as ih =>
      obtain ⟨s', hstep, hrest⟩ := Option.bind_eq_some_iff.mp h
      have hs' : I s' := hkeep s a List.mem_cons_self s' hs hstep
      exact ih (fun s a ha => hkeep s a (List.mem_cons_of_mem _ ha)) hs' hrest

/-- The state a run ends in, for a run that can be evaluated. -/
theorem reachable_get {as : List α} (h : (exec step init as).isSome = true) :
    Reachable step init ((exec step init as).get h) :=
  reachable_of_exec .start (Option.some_get h).symm

/-- The run of a list of actions that stops where the condition fails. -/
def execVia (step : σ → α → Option σ) (C : σ → α → Prop) [∀ s a, Decidable (C s a)] :
    σ → List α → Option σ
  | s, [] => some s
  | s, a :: as => if C s a then (step s a).bind fun s' => execVia step C s' as else none

theorem reachableVia_of_execVia [∀ s a, Decidable (C s a)] {as : List α} {s t : σ}
    (hs : ReachableVia step C init s) (h : execVia step C s as = some t) :
    ReachableVia step C init t := by
  induction as generalizing s with
  | nil =>
      cases h
      exact hs
  | cons a as ih =>
      rw [execVia] at h
      split at h
      · rename_i hC
        obtain ⟨s', hstep, hrest⟩ := Option.bind_eq_some_iff.mp h
        exact ih (.next hs hC hstep) hrest
      · cases h

theorem reachableVia_get [∀ s a, Decidable (C s a)] {as : List α}
    (h : (execVia step C init as).isSome = true) :
    ReachableVia step C init ((execVia step C init as).get h) :=
  reachableVia_of_execVia .start (Option.some_get h).symm

/-! ### What every step of a run meets -/

/-- `P` holds of every step of the run of a list of actions, which ends where an
action is not enabled. -/
def Along (step : σ → α → Option σ) (P : σ → α → σ → Prop) : σ → List α → Prop
  | _, [] => True
  | s, a :: as => ∀ s', step s a = some s' → P s a s' ∧ Along step P s' as

variable {P Q : σ → α → σ → Prop}

@[simp] theorem along_nil (s : σ) : Along step P s [] := trivial

theorem along_cons {s s' : σ} {a : α} {as : List α} (h : step s a = some s') :
    Along step P s (a :: as) ↔ P s a s' ∧ Along step P s' as := by
  simp [Along, h]

theorem along_cons_none {s : σ} {a : α} {as : List α} (h : step s a = none) :
    Along step P s (a :: as) := by
  simp [Along, h]

instance decidableAlong [∀ s a s', Decidable (P s a s')] :
    (as : List α) → (s : σ) → Decidable (Along step P s as)
  | [], _ => .isTrue trivial
  | a :: as, s =>
    match h : step s a with
    | none => .isTrue (along_cons_none h)
    | some s' =>
      have := decidableAlong as s'
      decidable_of_iff _ (along_cons h).symm

theorem along_and {as : List α} {s : σ} :
    Along step (fun s a s' => P s a s' ∧ Q s a s') s as ↔
      Along step P s as ∧ Along step Q s as := by
  induction as generalizing s with
  | nil => simp
  | cons a as ih =>
      cases hstep : step s a with
      | none => simp [along_cons_none hstep]
      | some s' =>
          simp only [along_cons hstep, ih]
          exact and_and_and_comm

/-- A property of the actions alone. -/
theorem along_of_forall {p : α → Prop} {as : List α} {s : σ} (h : ∀ a ∈ as, p a) :
    Along step (fun _ a _ => p a) s as := by
  induction as generalizing s with
  | nil => exact along_nil s
  | cons a as ih =>
      intro s' _
      exact ⟨h a List.mem_cons_self, ih fun a' ha' => h a' (List.mem_cons_of_mem a ha')⟩

/-- **The exactness rule.** Two step properties that agree wherever an invariant
holds, one of which keeps the invariant, hold along the same runs. -/
theorem along_congr {I : σ → Prop}
    (hkeep : ∀ s a s', I s → Q s a s' → step s a = some s' → I s')
    (hiff : ∀ s a s', I s → step s a = some s' → (P s a s' ↔ Q s a s')) {as : List α} {s : σ}
    (hs : I s) : Along step P s as ↔ Along step Q s as := by
  induction as generalizing s with
  | nil => simp
  | cons a as ih =>
      cases hstep : step s a with
      | none => simp [along_cons_none hstep]
      | some s' =>
          rw [along_cons hstep, along_cons hstep, hiff s a s' hs hstep]
          exact and_congr_right fun hQ => ih (hkeep s a s' hs hQ hstep)

/-- What holds of the state at every moment of a run. -/
theorem along_states_iff {p : σ → Prop} {as : List α} {s : σ} (hs : p s) :
    Along step (fun _ _ s' => p s') s as ↔
      ∀ before after t, as = before ++ after → exec step s before = some t → p t := by
  induction as generalizing s with
  | nil =>
      refine iff_of_true (along_nil s) fun before after t hsplit hexec => ?_
      obtain rfl := (List.append_eq_nil_iff.mp hsplit.symm).1
      cases hexec
      exact hs
  | cons a as ih =>
      constructor
      · intro halong before after t hsplit hexec
        cases before with
        | nil =>
            cases hexec
            exact hs
        | cons b before =>
            obtain ⟨rfl, rfl⟩ := List.cons.inj hsplit
            obtain ⟨s', hstep, hrest⟩ := Option.bind_eq_some_iff.mp hexec
            obtain ⟨hs', halong'⟩ := halong s' hstep
            exact (ih hs').mp halong' before after t rfl hrest
      · intro hall s' hstep
        have hs' : p s' := hall [a] as s' rfl (exec_of_step hstep rfl)
        refine ⟨hs', (ih hs').mpr fun before after t hsplit hexec => ?_⟩
        exact hall (a :: before) after t (by rw [hsplit]; rfl) (exec_of_step hstep hexec)

/-! ### Links and slots

A state keeps one queue for each link, or one slot for each place, as a function
that a step updates at one argument.
-/

section
variable {ι β : Type*} [DecidableEq ι] {i j : ι} {x y : β}

/-- Taking the first message of a link puts none on any link. -/
theorem mem_of_mem_update_tail {f : ι → List β} {rest : List β} (hi : f i = x :: rest)
    (hy : y ∈ Function.update f i rest j) : y ∈ f j := by
  by_cases hj : j = i
  · rw [hj, Function.update_self] at hy
    rw [hj, hi]
    exact List.mem_cons_of_mem _ hy
  · rwa [Function.update_of_ne hj] at hy

/-- The messages on a link, before and after its first one is taken. -/
theorem countP_update_tail {f : ι → List β} {rest : List β} (hi : f i = x :: rest) (P : β → Bool) :
    (f j).countP P = (Function.update f i rest j).countP P +
      if j = i ∧ P x = true then 1 else 0 := by
  by_cases hj : j = i
  · rw [hj, Function.update_self, hi, List.countP_cons]
    simp
  · rw [Function.update_of_ne hj, if_neg fun h => hj h.1, Nat.add_zero]

/-- Clearing a slot fills none: what stands in one is in another, and stood there before. -/
theorem of_update_none {f : ι → Option β} (h : Function.update f i none j = some y) :
    j ≠ i ∧ f j = some y := by
  by_cases hj : j = i
  · rw [hj, Function.update_self] at h
    cases h
  · rw [Function.update_of_ne hj] at h
    exact ⟨hj, h⟩

end

end Transition
