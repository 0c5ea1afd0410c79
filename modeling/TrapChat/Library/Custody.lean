import Mathlib.Logic.Function.Basic

/-!
Resources that are opened for an owner and closed later. An owner has at most one of
them in hand at a time; each that was opened for it is in its hands or closed. Someone
else may close one that is in hand, but only under a condition that is named beside it.
-/

variable {ι κ : Type*} [DecidableEq ι] [DecidableEq κ]

/-- `current` is what the owners have in hand, `owner` who a resource was opened for. -/
structure Custody (current : ι → Option κ) (owner : κ → Option ι) (closed : κ → Bool)
    (early : Prop) : Prop where
  owns : ∀ i c, current i = some c → owner c = some i
  settled : ∀ i c, owner c = some i → closed c = true ∨ current i = some c
  opened : ∀ c, closed c = true → owner c ≠ none
  live : ∀ i c, current i = some c → closed c = true → early

namespace Custody

variable {current : ι → Option κ} {owner : κ → Option ι} {closed : κ → Bool} {early : Prop}
  {i : ι} {c : κ}

omit [DecidableEq ι] [DecidableEq κ] in
theorem start :
    Custody (fun _ : ι => (none : Option κ)) (fun _ => none) (fun _ => false) early where
  owns := fun _ _ h => absurd h.symm (Option.some_ne_none _)
  settled := fun _ _ h => absurd h.symm (Option.some_ne_none _)
  opened := fun _ h => absurd h Bool.false_ne_true
  live := fun _ _ h => absurd h.symm (Option.some_ne_none _)

omit [DecidableEq ι] [DecidableEq κ] in
theorem imp {early' : Prop} (h : Custody current owner closed early) (hearly : early → early') :
    Custody current owner closed early' :=
  ⟨h.owns, h.settled, h.opened, fun i c hc hclosed => hearly (h.live i c hc hclosed)⟩

/-- A new resource is opened for an owner that has none in hand. -/
theorem opens (h : Custody current owner closed early) (hnew : owner c = none)
    (hi : current i = none) :
    Custody (Function.update current i (some c)) (Function.update owner c (some i)) closed
      early where
  owns := by
    intro j c' hc'
    by_cases hj : j = i
    · subst hj
      rw [Function.update_self] at hc'
      cases hc'
      exact Function.update_self ..
    · rw [Function.update_of_ne hj] at hc'
      have hne : c' ≠ c := by
        rintro rfl
        rw [h.owns j c' hc'] at hnew
        cases hnew
      rw [Function.update_of_ne hne]
      exact h.owns j c' hc'
  settled := by
    intro j c' hc'
    by_cases hne : c' = c
    · subst hne
      rw [Function.update_self] at hc'
      cases hc'
      exact .inr (Function.update_self ..)
    · rw [Function.update_of_ne hne] at hc'
      refine (h.settled j c' hc').imp_right fun hcurrent => ?_
      have hj : j ≠ i := by
        rintro rfl
        rw [hi] at hcurrent
        cases hcurrent
      rw [Function.update_of_ne hj]
      exact hcurrent
  opened := by
    intro c' hc'
    by_cases hne : c' = c
    · subst hne
      rw [Function.update_self]
      exact Option.some_ne_none i
    · rw [Function.update_of_ne hne]
      exact h.opened c' hc'
  live := by
    intro j c' hc' hclosed
    by_cases hj : j = i
    · subst hj
      rw [Function.update_self] at hc'
      cases hc'
      exact absurd hnew (h.opened c hclosed)
    · rw [Function.update_of_ne hj] at hc'
      exact h.live j c' hc' hclosed

omit [DecidableEq ι] in
/-- Someone else closes the resource that an owner has in hand. -/
theorem shuts (h : Custody current owner closed early) (hi : current i = some c)
    (hearly : early) : Custody current owner (Function.update closed c true) early where
  owns := h.owns
  settled := by
    intro j c' hc'
    by_cases hne : c' = c
    · subst hne
      exact .inl (Function.update_self ..)
    · rw [Function.update_of_ne hne]
      exact h.settled j c' hc'
  opened := by
    intro c' hc'
    by_cases hne : c' = c
    · subst hne
      rw [h.owns i c' hi]
      exact Option.some_ne_none i
    · rw [Function.update_of_ne hne] at hc'
      exact h.opened c' hc'
  live := fun _ _ _ _ => hearly

/-- An owner closes the resource that it has in hand. -/
theorem closes (h : Custody current owner closed early) (hi : current i = some c) :
    Custody (Function.update current i none) owner (Function.update closed c true) early where
  owns := by
    intro j c' hc'
    by_cases hj : j = i
    · subst hj
      rw [Function.update_self] at hc'
      cases hc'
    · rw [Function.update_of_ne hj] at hc'
      exact h.owns j c' hc'
  settled := by
    intro j c' hc'
    by_cases hne : c' = c
    · subst hne
      exact .inl (Function.update_self ..)
    · rw [Function.update_of_ne hne]
      refine (h.settled j c' hc').imp_right fun hcurrent => ?_
      have hj : j ≠ i := by
        rintro rfl
        rw [hi] at hcurrent
        exact hne (Option.some.inj hcurrent).symm
      rw [Function.update_of_ne hj]
      exact hcurrent
  opened := by
    intro c' hc'
    by_cases hne : c' = c
    · subst hne
      rw [h.owns i c' hi]
      exact Option.some_ne_none i
    · rw [Function.update_of_ne hne] at hc'
      exact h.opened c' hc'
  live := by
    intro j c' hc' hclosed
    by_cases hj : j = i
    · subst hj
      rw [Function.update_self] at hc'
      cases hc'
    · rw [Function.update_of_ne hj] at hc'
      have hne : c' ≠ c := by
        rintro rfl
        have howned := h.owns j c' hc'
        rw [h.owns i c' hi] at howned
        exact hj (Option.some.inj howned).symm
      rw [Function.update_of_ne hne] at hclosed
      exact h.live j c' hc' hclosed

end Custody
