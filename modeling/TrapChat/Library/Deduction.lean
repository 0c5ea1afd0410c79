import Mathlib.Data.List.Basic
import Mathlib.Data.Set.Basic

/-!
What can be learnt from keys that are sent encrypted under keys. An edge `(a, b)` is a
ciphertext that contains `b` and opens under `a`; who has some keys and all ciphertexts opens
what can be opened, and goes on with what was in there.
-/

namespace Deduction

variable {κ : Type*}

/-- The keys that follow from the known ones. -/
inductive Derivable (sent : Set (κ × κ)) (known : Set κ) : κ → Prop
  | known {k : κ} (hk : k ∈ known) : Derivable sent known k
  | opens {a b : κ} (ha : Derivable sent known a) (hsent : (a, b) ∈ sent) : Derivable sent known b

variable {sent : Set (κ × κ)} {known closed : Set κ} {k root : κ} {keys : List κ}

/-- **The closed-set rule.** What contains the known keys, and with the key of a ciphertext also
what is in it, contains all that follows. -/
theorem Derivable.mem_of_closed (h : Derivable sent known k) (hknown : known ⊆ closed)
    (hclosed : ∀ e ∈ sent, e.1 ∈ closed → e.2 ∈ closed) : k ∈ closed := by
  induction h with
  | known hk => exact hknown hk
  | opens _ hsent ih => exact hclosed _ hsent ih

/-- Ciphertexts that nobody can open who has the known keys only. -/
theorem derivable_iff_of_shut (hshut : ∀ e ∈ sent, e.1 ∉ known) :
    Derivable sent known k ↔ k ∈ known :=
  ⟨fun h => h.mem_of_closed subset_rfl fun e he hknown => absurd hknown (hshut e he), .known⟩

variable [DecidableEq κ]

/-- The key of the edge is the older one. -/
def Older (keys : List κ) (e : κ × κ) : Prop := keys.idxOf e.1 < keys.idxOf e.2 ∧ e.2 ∈ keys

theorem Older.mem_left {e : κ × κ} (h : Older keys e) : e.1 ∈ keys :=
  List.idxOf_lt_length_iff.mp (h.1.trans (List.idxOf_lt_length_iff.mpr h.2))

/-- New keys come after all others. -/
theorem Older.append {e : κ × κ} (h : Older keys e) (new : List κ) : Older (keys ++ new) e := by
  refine ⟨?_, List.mem_append_left _ h.2⟩
  rw [List.idxOf_append_of_mem h.mem_left, List.idxOf_append_of_mem h.2]
  exact h.1

theorem older_concat {old : κ} (hold : old ∈ keys) (hk : k ∉ keys) :
    Older (keys ++ [k]) (old, k) := by
  have hlt := List.idxOf_lt_length_iff.mpr hold
  refine ⟨?_, by simp⟩
  rw [List.idxOf_append_of_mem hold, List.idxOf_append_of_notMem hk]
  omega

/-- **No key leads back to an older one.** -/
theorem Derivable.idxOf_le {n : ℕ} (h : Derivable sent known k)
    (hsent : ∀ e ∈ sent, Older keys e) (hknown : ∀ a ∈ known, n ≤ keys.idxOf a) :
    n ≤ keys.idxOf k := by
  have hmem : k ∈ {a | n ≤ keys.idxOf a} :=
    h.mem_of_closed hknown fun e he hle => le_trans hle (hsent e he).1.le
  exact hmem

/-- **The first key leads to every other one** that was sent under an older one. -/
theorem derivable_of_root (hroot : root ∈ known) (hsent : ∀ e ∈ sent, Older keys e)
    (hreached : ∀ a ∈ keys, a ≠ root → ∃ old, (old, a) ∈ sent) (hk : k ∈ keys) :
    Derivable sent known k := by
  -- by the place of the key in the list
  induction hn : keys.idxOf k using Nat.strongRecOn generalizing k with
  | ind n ih =>
      by_cases heq : k = root
      · rw [heq]
        exact .known hroot
      · obtain ⟨old, hedge⟩ := hreached k hk heq
        have holder := hsent _ hedge
        exact (ih _ (hn ▸ holder.1) holder.mem_left rfl).opens hedge

end Deduction
