import Mathlib.Data.Multiset.MapFold
import Mathlib.Data.Multiset.ZeroCons

/-!
Walks that are known by their edges only. Something that starts at `a` and is
moved along edges, each leaving from where it stands, is at a vertex that the
edges determine, whatever their order: every vertex but the two ends is entered
as often as it is left.
-/

namespace Walk

variable {α : Type*}

/-- The edges lead from `a` to `b`, counting ends and starts. -/
def Balanced (a : α) (edges : Multiset (α × α)) (b : α) : Prop :=
  a ::ₘ edges.map Prod.snd = b ::ₘ edges.map Prod.fst

theorem balanced_zero (a : α) : Balanced a 0 a := rfl

/-- One more edge, from where the walk stands. -/
theorem Balanced.step {a b c : α} {edges : Multiset (α × α)} (h : Balanced a edges b) :
    Balanced a ((b, c) ::ₘ edges) c := by
  unfold Balanced at h ⊢
  calc a ::ₘ ((b, c) ::ₘ edges).map Prod.snd
      = c ::ₘ a ::ₘ edges.map Prod.snd := by rw [Multiset.map_cons, Multiset.cons_swap]
    _ = c ::ₘ b ::ₘ edges.map Prod.fst := by rw [h]
    _ = c ::ₘ ((b, c) ::ₘ edges).map Prod.fst := by rw [Multiset.map_cons]

/-- **The edges determine the end.** -/
theorem Balanced.unique {a b c : α} {edges : Multiset (α × α)} (hb : Balanced a edges b)
    (hc : Balanced a edges c) : b = c := by
  have h : b ::ₘ edges.map Prod.fst = c ::ₘ edges.map Prod.fst := hb.symm.trans hc
  exact (Multiset.cons_inj_left _).mp h

end Walk
