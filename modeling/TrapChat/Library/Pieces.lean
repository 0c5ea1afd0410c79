import Mathlib.Data.List.Basic
import Mathlib.Tactic.Linarith

/-!
A list cut into pieces of one size, the last of which may be shorter. Piece `k`
is read off the list on its own, so that a piece can be named without the others;
the pieces in their order make up the list.
-/

namespace Pieces

variable {α : Type*}

/-- How many pieces of size `c` a list of length `n` has. -/
def count (c n : ℕ) : ℕ := (n + (c - 1)) / c

def piece (c : ℕ) (xs : List α) (k : ℕ) : List α := (xs.drop (k * c)).take c

variable {c : ℕ}

theorem count_le_iff (hc : 0 < c) {n m : ℕ} : count c n ≤ m ↔ n ≤ m * c := by
  rw [count, ← Nat.lt_succ_iff, Nat.div_lt_iff_lt_mul hc, Nat.succ_eq_add_one, Nat.add_mul]
  omega

theorem count_pos (hc : 0 < c) {n : ℕ} (hn : 0 < n) : 0 < count c n := by
  by_contra h
  have hle := (count_le_iff hc).mp (Nat.le_of_not_lt h)
  omega

theorem lt_count_iff (hc : 0 < c) {n k : ℕ} : k < count c n ↔ k * c < n := by
  rw [← Nat.not_le, count_le_iff hc, Nat.not_le]

/-- A piece has at most its size. -/
theorem length_piece_le (xs : List α) (k : ℕ) : (piece c xs k).length ≤ c :=
  List.length_take_le _ _

theorem piece_ne_nil (hc : 0 < c) {xs : List α} {k : ℕ} (hk : k < count c xs.length) :
    piece c xs k ≠ [] := by
  rw [lt_count_iff hc] at hk
  rw [← List.length_pos_iff, piece, List.length_take, List.length_drop]
  omega

/-- Every piece but the last one is full. -/
theorem length_piece (hc : 0 < c) {xs : List α} {k : ℕ} (hk : k + 1 < count c xs.length) :
    (piece c xs k).length = c := by
  rw [lt_count_iff hc, Nat.add_mul] at hk
  rw [piece, List.length_take, List.length_drop]
  omega

/-- The pieces before the `m`-th one. -/
theorem flatMap_piece (xs : List α) (m : ℕ) :
    (List.range m).flatMap (piece c xs) = xs.take (m * c) := by
  induction m with
  | zero => simp
  | succ m ih =>
      rw [List.range_succ, List.flatMap_append, ih, List.flatMap_singleton, piece,
        Nat.add_mul, Nat.one_mul, List.take_add]

/-- **The pieces make up the list.** -/
theorem flatMap_pieces (hc : 0 < c) (xs : List α) :
    (List.range (count c xs.length)).flatMap (piece c xs) = xs := by
  rw [flatMap_piece, List.take_of_length_le]
  exact (count_le_iff hc).mp (Nat.le_refl _)

end Pieces
