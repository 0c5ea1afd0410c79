import Mathlib.Data.List.Basic
import Mathlib.Tactic.Linarith

/-!
Logs of times, and how many of them fall into a window. A log grows at its end, and
what is added is not earlier than what is there.
-/

namespace Windows

/-- The times that are less than `width` before `now`. -/
def recent (width now : ℕ) (times : List ℕ) : List ℕ := times.filter fun u => now - u < width

/-- How many of the times are in the half-open window of the given width. -/
def within (start width : ℕ) (times : List ℕ) : ℕ :=
  times.countP fun u => start ≤ u ∧ u < start + width

variable {width start now later n : ℕ} {times times' : List ℕ}

@[simp] theorem recent_nil : recent width now [] = [] := rfl

@[simp] theorem within_nil : within start width [] = 0 := rfl

theorem recent_append :
    recent width now (times ++ times') = recent width now times ++ recent width now times' :=
  List.filter_append ..

theorem within_append :
    within start width (times ++ times') = within start width times + within start width times' :=
  List.countP_append ..

theorem within_singleton :
    within start width [now] = if start ≤ now ∧ now < start + width then 1 else 0 := by
  simp [within, List.countP_singleton]

/-- What is recent later on is recent now. -/
theorem recent_recent (h : now ≤ later) :
    recent width later (recent width now times) = recent width later times := by
  unfold recent
  rw [List.filter_filter]
  refine List.filter_congr fun u _ => ?_
  rw [Bool.and_eq_left_iff_imp, decide_eq_true_eq, decide_eq_true_eq]
  omega

/-- A window that holds the last time holds nothing but recent ones. -/
theorem within_le_recent (hpast : ∀ u ∈ times, u ≤ now) (hnow : now < start + width) :
    within start width times ≤ (recent width now times).length := by
  rw [within, recent, ← List.countP_eq_length_filter]
  refine List.countP_mono_left fun u hu hin => ?_
  have := hpast u hu
  simp only [decide_eq_true_eq] at hin ⊢
  omega

/-- **One time more.** A window stays within a bound that the recent times are below. -/
theorem within_concat_le (hpast : ∀ u ∈ times, u ≤ now) (hbound : within start width times ≤ n)
    (hrecent : (recent width now times).length < n) :
    within start width (times ++ [now]) ≤ n := by
  rw [within_append, within_singleton]
  split
  · next hin =>
    have := within_le_recent hpast hin.2
    omega
  · exact hbound

theorem within_le_append : within start width times ≤ within start width (times ++ times') := by
  rw [within_append]
  exact Nat.le_add_right _ _

/-! ### Boundaries, one every `width` after a start -/

/-- The last boundary that has passed. -/
theorem boundary (hwidth : 0 < width) (hpast : start ≤ now) :
    start + (now - start) / width * width ≤ now ∧
      now < start + (now - start) / width * width + width := by
  have hdiv := Nat.div_add_mod (now - start) width
  have hmod := Nat.mod_lt (now - start) hwidth
  rw [Nat.mul_comm] at hdiv
  omega

theorem before_boundary (hwidth : 0 < width) (hnone : (now - start) / width = 0) :
    now < start + width := by
  have := (Nat.div_eq_zero_iff_lt hwidth).mp hnone
  omega

/-- Between a boundary that has passed and `later` there are as many fewer as have passed. -/
theorem boundaries_left (hnow : now ≤ later) (hn : n = (now - start) / width) :
    n + (later - (start + n * width)) / width = (later - start) / width := by
  have hpassed : n ≤ (later - start) / width := by
    rw [hn]
    exact Nat.div_le_div_right (Nat.sub_le_sub_right hnow start)
  rw [← Nat.sub_sub, Nat.mul_comm n width, Nat.sub_mul_div, Nat.add_sub_of_le hpassed]

/-- A window holds at most one boundary more than fit into its width. -/
theorem boundaries_within {length : ℕ} (hwidth : 0 < width) (hstart : start ≤ now)
    (hnow : now < n + width) : (start + length - n) / width ≤ length / width + 1 := by
  have hle : start + length - n ≤ length + width := by omega
  exact (Nat.div_le_div_right hle).trans (Nat.add_div_right length hwidth).le

end Windows
