import Mathlib.Data.List.Basic
import Mathlib.Tactic.Linarith

/-!
Items laid end to end in a list of symbols. A decoder reads the item at the front
of a list and says how many symbols it used; decoding many items starts each one
at the offset where the one before it ended. A stream reader has a state of its
own and hands out the items one by one; it follows a decoder when every reading
is a decoding of what the reader has not consumed yet.
-/

namespace Framing

variable {σ α β ε ε' : Type*}

/-- The item at the front, with the number of symbols it takes up. -/
abbrev Decoder (α β ε : Type*) := List β → Except ε (α × ℕ)

/-- `k` items one after the other, with the offset at which the last one ends. -/
def decodeMany (decode : Decoder α β ε) : ℕ → List β → Except ε (List α × ℕ)
  | 0, _ => .ok ([], 0)
  | k + 1, d =>
      match decode d with
      | .error e => .error e
      | .ok (a, n) =>
          match decodeMany decode k (d.drop n) with
          | .error e => .error e
          | .ok (as, m) => .ok (a :: as, n + m)

variable {decode : Decoder α β ε}

theorem decodeMany_succ {k : ℕ} {d : List β} {a : α} {n : ℕ} (h : decode d = .ok (a, n)) :
    decodeMany decode (k + 1) d =
      (decodeMany decode k (d.drop n)).map fun x => (a :: x.1, n + x.2) := by
  rw [decodeMany, h]
  dsimp only
  cases decodeMany decode k (d.drop n) <;> rfl

/-- The first item of a successful decoding, and the others after it. -/
theorem decodeMany_succ_ok {k m : ℕ} {d : List β} {as : List α}
    (h : decodeMany decode (k + 1) d = .ok (as, m)) :
    ∃ a n as' m', decode d = .ok (a, n) ∧ decodeMany decode k (d.drop n) = .ok (as', m') ∧
      as = a :: as' ∧ m = n + m' := by
  rw [decodeMany] at h
  split at h
  · cases h
  · next a n hd =>
      split at h
      · cases h
      · next as' m' hrest =>
          cases h
          exact ⟨a, n, as', m', hd, hrest, rfl, rfl⟩

/-- What was encoded is decoded, whatever follows it. -/
def Inverts (decode : Decoder α β ε) (encode : α → List β) (a : α) : Prop :=
  ∀ t, decode (encode a ++ t) = .ok (a, (encode a).length)

/-- **Encodings laid end to end are decoded one by one.** -/
theorem decodeMany_flatMap {encode : α → List β} {as : List α}
    (h : ∀ a ∈ as, Inverts decode encode a) (t : List β) :
    decodeMany decode as.length (as.flatMap encode ++ t) =
      .ok (as, (as.flatMap encode).length) := by
  induction as with
  | nil => rfl
  | cons a as ih =>
      obtain ⟨ha, has⟩ := List.forall_mem_cons.mp h
      have hfront : decode ((a :: as).flatMap encode ++ t) = .ok (a, (encode a).length) := by
        rw [List.flatMap_cons, List.append_assoc]
        exact ha _
      have hrest : ((a :: as).flatMap encode ++ t).drop (encode a).length =
          as.flatMap encode ++ t := by
        rw [List.flatMap_cons, List.append_assoc, List.drop_left]
      rw [List.length_cons, decodeMany_succ hfront, hrest, ih has, List.flatMap_cons,
        List.length_append]
      rfl

/-- Every item among those decoded was decoded at some offset. -/
theorem exists_decode_of_mem {k m : ℕ} {d : List β} {as : List α}
    (h : decodeMany decode k d = .ok (as, m)) {a : α} (ha : a ∈ as) :
    ∃ o n, decode (d.drop o) = .ok (a, n) := by
  induction k generalizing d as m with
  | zero =>
      cases h
      cases ha
  | succ k ih =>
      obtain ⟨a', n, as', m', hd, hrest, rfl, rfl⟩ := decodeMany_succ_ok h
      rcases List.mem_cons.mp ha with rfl | ha
      · exact ⟨0, n, by rwa [List.drop_zero]⟩
      · obtain ⟨o, n', ho⟩ := ih hrest ha
        exact ⟨n + o, n', by rwa [List.drop_drop] at ho⟩

/-! ### Where the decoding stops -/

/-- The items a list begins with, and what is left where no further one is
decoded. A decoder that uses nothing up ends the splitting. -/
def leading (decode : Decoder α β ε) (d : List β) : List α × List β :=
  match decode d with
  | .error _ => ([], d)
  | .ok (a, n) =>
      if (d.drop n).length < d.length then
        (a :: (leading decode (d.drop n)).1, (leading decode (d.drop n)).2)
      else ([], d)
termination_by d.length
decreasing_by all_goals assumption

/-- Every item takes up a symbol or more, and none that is not there. -/
def Advances (decode : Decoder α β ε) : Prop :=
  ∀ d a n, decode d = .ok (a, n) → 0 < n ∧ n ≤ d.length

theorem leading_of_error {d : List β} {e : ε} (h : decode d = .error e) :
    leading decode d = ([], d) := by
  rw [leading, h]

theorem leading_of_ok (hadv : Advances decode) {d : List β} {a : α} {n : ℕ}
    (h : decode d = .ok (a, n)) :
    leading decode d = (a :: (leading decode (d.drop n)).1, (leading decode (d.drop n)).2) := by
  have hlt : (d.drop n).length < d.length := by
    have := hadv d a n h
    rw [List.length_drop]
    omega
  rw [leading, h]
  exact if_pos hlt

/-- An induction along the items a list begins with. -/
theorem leading_induction (hadv : Advances decode) {motive : List β → Prop}
    (stuck : ∀ d e, decode d = .error e → motive d)
    (item : ∀ d a n, decode d = .ok (a, n) → motive (d.drop n) → motive d) (d : List β) :
    motive d := by
  induction hlen : d.length using Nat.strong_induction_on generalizing d with
  | _ len ih =>
      cases hd : decode d with
      | error e => exact stuck d e hd
      | ok x =>
          obtain ⟨a, n⟩ := x
          obtain ⟨hpos, hle⟩ := hadv d a n hd
          refine item d a n hd (ih _ ?_ _ rfl)
          rw [List.length_drop]
          omega

/-- What is left is not decoded. -/
theorem leading_rest_error (hadv : Advances decode) (d : List β) :
    ∃ e, decode (leading decode d).2 = .error e := by
  induction d using leading_induction hadv with
  | stuck d e h =>
      rw [leading_of_error h]
      exact ⟨e, h⟩
  | item d a n h ih =>
      rw [leading_of_ok hadv h]
      exact ih

/-- **The leading items and what is left make up the list**, for a decoder whose
items encode to the symbols they were decoded from. -/
theorem flatMap_leading (hadv : Advances decode) {encode : α → List β}
    (henc : ∀ d a n, decode d = .ok (a, n) → encode a = d.take n) (d : List β) :
    (leading decode d).1.flatMap encode ++ (leading decode d).2 = d := by
  induction d using leading_induction hadv with
  | stuck d e h => rw [leading_of_error h, List.flatMap_nil, List.nil_append]
  | item d a n h ih =>
      rw [leading_of_ok hadv h, List.flatMap_cons, List.append_assoc, ih, henc d a n h,
        List.take_append_drop]

/-- Encodings laid end to end come first among the leading items. -/
theorem leading_flatMap (hadv : Advances decode) {encode : α → List β} {as : List α}
    (h : ∀ a ∈ as, Inverts decode encode a) (t : List β) :
    leading decode (as.flatMap encode ++ t) =
      (as ++ (leading decode t).1, (leading decode t).2) := by
  induction as with
  | nil => rfl
  | cons a as ih =>
      obtain ⟨ha, has⟩ := List.forall_mem_cons.mp h
      rw [List.flatMap_cons, List.append_assoc, leading_of_ok hadv (ha _), List.drop_left, ih has,
        List.cons_append]

/-- **Unique parsing.** Encodings laid end to end determine the items, whatever
their number. -/
theorem flatMap_injOn (hadv : Advances decode) {encode : α → List β} {as bs : List α}
    (has : ∀ a ∈ as, Inverts decode encode a) (hbs : ∀ b ∈ bs, Inverts decode encode b)
    (h : as.flatMap encode = bs.flatMap encode) : as = bs := by
  have hleading := leading_flatMap hadv has []
  rw [h, leading_flatMap hadv hbs []] at hleading
  exact (List.append_cancel_right (congrArg Prod.fst hleading)).symm

/-! ### Readers -/

/-- `k` readings one after the other. -/
def readMany (read : σ → Except ε' α × σ) : ℕ → σ → Except ε' (List α × σ)
  | 0, s => .ok ([], s)
  | k + 1, s =>
      match read s with
      | (.error e, _) => .error e
      | (.ok a, s') =>
          match readMany read k s' with
          | .error e => .error e
          | .ok (as, t) => .ok (a :: as, t)

variable {read : σ → Except ε' α × σ} {remaining : σ → List β}

/-- A reader succeeds where the decoder does, with the same item, and leaves what
the decoder did not use. -/
structure Follows (read : σ → Except ε' α × σ) (remaining : σ → List β)
    (decode : Decoder α β ε) : Prop where
  item : ∀ s a n, decode (remaining s) = .ok (a, n) →
    (read s).1 = .ok a ∧ remaining (read s).2 = (remaining s).drop n
  stuck : ∀ s e, decode (remaining s) = .error e → ∃ e', (read s).1 = .error e'

theorem readMany_succ_ok {k : ℕ} {s t : σ} {as : List α}
    (h : readMany read (k + 1) s = .ok (as, t)) :
    ∃ a as', (read s).1 = .ok a ∧ readMany read k (read s).2 = .ok (as', t) ∧ as = a :: as' := by
  rw [readMany] at h
  split at h
  · cases h
  · next a s' hr =>
      split at h
      · cases h
      · next as' t' hrest =>
          cases h
          exact ⟨a, as', by rw [hr], by rw [hr]; exact hrest, rfl⟩

theorem Follows.decode_of_read (hf : Follows read remaining decode) {s : σ} {a : α}
    (h : (read s).1 = .ok a) :
    ∃ n, decode (remaining s) = .ok (a, n) ∧ remaining (read s).2 = (remaining s).drop n := by
  cases hd : decode (remaining s) with
  | error e =>
      obtain ⟨e', he⟩ := hf.stuck s e hd
      rw [he] at h
      cases h
  | ok x =>
      obtain ⟨a', n⟩ := x
      obtain ⟨hread, hrest⟩ := hf.item s a' n hd
      cases hread.symm.trans h
      exact ⟨n, rfl, hrest⟩

/-- **Readings are decodings.** The items read one after the other are those
decoded, and the reader stands at the offset where the last one ends. -/
theorem Follows.decodeMany_of_readMany (hf : Follows read remaining decode) {k : ℕ} {s t : σ}
    {as : List α} (h : readMany read k s = .ok (as, t)) :
    ∃ m, decodeMany decode k (remaining s) = .ok (as, m) ∧
      remaining t = (remaining s).drop m := by
  induction k generalizing s as with
  | zero =>
      cases h
      exact ⟨0, rfl, rfl⟩
  | succ k ih =>
      obtain ⟨a, as', hread, hrest, rfl⟩ := readMany_succ_ok h
      obtain ⟨n, hd, hs'⟩ := hf.decode_of_read hread
      obtain ⟨m, hm, ht⟩ := ih hrest
      rw [hs'] at hm ht
      refine ⟨n + m, ?_, ?_⟩
      · rw [decodeMany_succ hd, hm]
        rfl
      · rw [ht, List.drop_drop]

end Framing
