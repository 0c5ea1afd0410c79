import Mathlib.Data.List.Basic
import TrapChat.Library.Transition

/-!
Bounds on how often actions of one kind happen in a run. A potential that such an
action lowers, and that no other action raises, bounds their number by its value
at the start.
-/

namespace Transition

variable {σ α : Type*} {step : σ → α → Option σ}

/-- **The potential rule.** The actions that satisfy `p` pay one unit each. -/
theorem countP_add_potential_le {I : σ → Prop} {Φ : σ → ℕ} {p : α → Bool}
    (hkeep : ∀ s a s', I s → step s a = some s' → I s')
    (hpay : ∀ s a s', I s → step s a = some s' → p a = true → Φ s' + 1 ≤ Φ s)
    (hrest : ∀ s a s', I s → step s a = some s' → p a = false → Φ s' ≤ Φ s)
    {as : List α} {s t : σ} (hs : I s) (h : exec step s as = some t) :
    as.countP p + Φ t ≤ Φ s := by
  induction as generalizing s with
  | nil =>
      cases h
      simp
  | cons a as ih =>
      obtain ⟨s', hstep, hrun⟩ := Option.bind_eq_some_iff.mp h
      have hlater := ih (hkeep s a s' hs hstep) hrun
      rw [List.countP_cons]
      cases hp : p a with
      | true =>
          have hnow := hpay s a s' hs hstep hp
          rw [if_pos rfl]
          omega
      | false =>
          have hnow := hrest s a s' hs hstep hp
          rw [if_neg Bool.false_ne_true]
          omega

/-- What the steps of a run keep holds at its end. -/
theorem exec_invariant {I : σ → Prop} (hkeep : ∀ s a s', I s → step s a = some s' → I s')
    {as : List α} {s t : σ} (hs : I s) (h : exec step s as = some t) : I t := by
  induction as generalizing s with
  | nil =>
      cases h
      exact hs
  | cons a as ih =>
      obtain ⟨s', hstep, hrun⟩ := Option.bind_eq_some_iff.mp h
      exact ih (hkeep s a s' hs hstep) hrun

end Transition
