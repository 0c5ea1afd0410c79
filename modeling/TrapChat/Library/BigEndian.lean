import Mathlib.Data.List.Induction
import Mathlib.Tactic.Ring

/-!
Numbers as lists of bytes, the most significant byte first. A number is written
at a width fixed beforehand; what does not fit is cut off, as a cast to a
narrower integer does.
-/

namespace BigEndian

/-- The number a list of bytes stands for. -/
def ofBytes (bs : List UInt8) : ℕ := bs.foldl (fun acc b => acc * 256 + b.toNat) 0

/-- The last `w` bytes of a number. -/
def toBytes : ℕ → ℕ → List UInt8
  | 0, _ => []
  | w + 1, n => toBytes w (n / 256) ++ [UInt8.ofNat n]

@[simp] theorem ofBytes_nil : ofBytes [] = 0 := rfl

@[simp] theorem ofBytes_append_singleton (bs : List UInt8) (b : UInt8) :
    ofBytes (bs ++ [b]) = ofBytes bs * 256 + b.toNat := by
  simp [ofBytes]

@[simp] theorem length_toBytes (w n : ℕ) : (toBytes w n).length = w := by
  induction w generalizing n with
  | zero => rfl
  | succ w ih => simp [toBytes, ih]

theorem ofBytes_lt (bs : List UInt8) : ofBytes bs < 256 ^ bs.length := by
  induction bs using List.reverseRecOn with
  | nil => simp
  | append_singleton bs b ih =>
      have hb := b.toNat_lt
      rw [ofBytes_append_singleton, List.length_append, List.length_singleton, pow_succ]
      omega

/-- **A number that fits its width is read back.** -/
theorem ofBytes_toBytes {w n : ℕ} (h : n < 256 ^ w) : ofBytes (toBytes w n) = n := by
  induction w generalizing n with
  | zero =>
      rw [pow_zero, Nat.lt_one_iff] at h
      rw [h, toBytes, ofBytes_nil]
  | succ w ih =>
      have hn : n / 256 < 256 ^ w := by
        rw [pow_succ] at h
        omega
      rw [toBytes, ofBytes_append_singleton, ih hn, UInt8.toNat_ofNat']
      omega

/-- **Bytes are written back as they were read.** -/
theorem toBytes_ofBytes (bs : List UInt8) : toBytes bs.length (ofBytes bs) = bs := by
  induction bs using List.reverseRecOn with
  | nil => rfl
  | append_singleton bs b ih =>
      have hb := b.toNat_lt
      have hdiv : (ofBytes bs * 256 + b.toNat) / 256 = ofBytes bs := by omega
      have hlast : UInt8.ofNat (ofBytes bs * 256 + b.toNat) = b := by
        apply UInt8.toNat_inj.mp
        rw [UInt8.toNat_ofNat']
        omega
      rw [List.length_append, List.length_singleton, toBytes, ofBytes_append_singleton, hdiv, ih,
        hlast]

end BigEndian
