import TrapChat.Library.JsonRecord
import Mathlib.Data.String.Basic

/-!
The size of a JSON object as text, in bytes of UTF-8. The text of a record is the
sum of its members and what separates them; a string that needs no escapes is as long
as it is, with its quotes, and any other at most six times.
-/

namespace JsonRecord

open String (utf8Len)

def literalSize (html : Bool) (s : String) : ℕ := utf8Len (renderString html s)

def fieldSize (html : Bool) (f : String × Scalar) : ℕ := utf8Len (renderField html f)

/-- The members of a record, each with a brace or a comma. -/
def recordSize (html : Bool) (r : Record) : ℕ := (r.map fun f => fieldSize html f + 1).sum

/-! ### Characters -/

/-- No writer gives a character of the text by its number. -/
def Unescaped (cs : List Char) : Prop := ∀ c ∈ cs, escaped true c = false

instance (cs : List Char) : Decidable (Unescaped cs) :=
  List.decidableBAll (fun c => escaped true c = false) cs

/-- A character of one byte that no writer escapes. -/
def plain (c : Char) : Bool := c.utf8Size = 1 && shortLetter c = none && !escaped true c

variable {html : Bool} {c : Char}

theorem escaped_html (h : escaped html c = true) : escaped true c = true := by
  simp only [escaped, Bool.or_eq_true, Bool.and_eq_true, Bool.true_and] at h ⊢
  exact h.imp_right And.right

theorem renderChar_of_plain (h : plain c = true) : renderChar html c = [c] := by
  simp only [plain, Bool.and_eq_true, decide_eq_true_eq, Bool.not_eq_true'] at h
  obtain ⟨⟨-, hshort⟩, hescaped⟩ := h
  rw [renderChar, hshort]
  apply if_neg
  intro hc
  rw [escaped_html hc] at hescaped
  cases hescaped

theorem digitChar_size {n : ℕ} (h : n < 16) : (Nat.digitChar n).utf8Size = 1 := by
  interval_cases n <;> rfl

theorem shortLetter_size {l : Char} (h : shortLetter c = some l) : l.utf8Size = 1 := by
  unfold shortLetter at h
  split_ifs at h <;> cases h <;> rfl

theorem utf8Len_renderChar_le (html : Bool) (c : Char) : utf8Len (renderChar html c) ≤ 6 := by
  unfold renderChar
  split
  · next l hl =>
    rw [String.utf8Len_cons, String.utf8Len_cons, String.utf8Len_nil, shortLetter_size hl]
    decide
  · split
    · have hdigit : ∀ k, (Nat.digitChar (k % 16)).utf8Size = 1 := fun k =>
        digitChar_size (Nat.mod_lt k (by decide))
      simp only [hex4, String.utf8Len_cons, String.utf8Len_nil, hdigit]
      decide
    · have hc := c.utf8Size_le_four
      rw [String.utf8Len_cons, String.utf8Len_nil]
      omega

/-- An escape is short where no character is written by its number. -/
theorem utf8Len_renderChar_le_two (h : escaped true c = false) :
    utf8Len (renderChar html c) ≤ 2 * c.utf8Size := by
  have hpos := c.utf8Size_pos
  unfold renderChar
  split
  · next l hl =>
    have hback : Char.utf8Size '\\' = 1 := rfl
    rw [String.utf8Len_cons, String.utf8Len_cons, String.utf8Len_nil, shortLetter_size hl, hback]
    omega
  · split
    · next hc =>
      rw [escaped_html hc] at h
      cases h
    · rw [String.utf8Len_cons, String.utf8Len_nil]
      omega

/-! ### Strings -/

theorem literalSize_eq (html : Bool) (s : String) :
    literalSize html s = utf8Len (s.toList.flatMap (renderChar html)) + 2 := by
  have hquote : Char.utf8Size '"' = 1 := rfl
  rw [literalSize, renderString, String.utf8Len_cons, String.utf8Len_append, String.utf8Len_cons,
    String.utf8Len_nil, hquote]

theorem literalSize_of_plain {s : String} (h : s.toList.all plain = true) :
    literalSize html s = s.toList.length + 2 := by
  rw [literalSize_eq]
  rw [List.all_eq_true] at h
  generalize s.toList = cs at h
  induction cs with
  | nil => rfl
  | cons c cs ih =>
      have hc : plain c = true := h c List.mem_cons_self
      have hsize : c.utf8Size = 1 := by
        simp only [plain, Bool.and_eq_true, decide_eq_true_eq] at hc
        exact hc.1.1
      have hrest := ih fun d hd => h d (List.mem_cons_of_mem c hd)
      rw [List.flatMap_cons, String.utf8Len_append, renderChar_of_plain hc, String.utf8Len_cons,
        String.utf8Len_nil, hsize, List.length_cons]
      omega

theorem literalSize_le (html : Bool) (s : String) : literalSize html s ≤ 6 * s.length + 2 := by
  rw [literalSize_eq, ← String.length_toList]
  induction s.toList with
  | nil => exact Nat.le_refl 2
  | cons c cs ih =>
      have hc := utf8Len_renderChar_le html c
      rw [List.flatMap_cons, String.utf8Len_append, List.length_cons]
      omega

theorem literalSize_le_two {s : String} (h : Unescaped s.toList) :
    literalSize html s ≤ 2 * s.utf8ByteSize + 2 := by
  rw [literalSize_eq, ← String.utf8Len_toList]
  generalize s.toList = cs at h
  induction cs with
  | nil => exact Nat.le_refl 2
  | cons c cs ih =>
      have hc : utf8Len (renderChar html c) ≤ 2 * c.utf8Size :=
        utf8Len_renderChar_le_two (h c List.mem_cons_self)
      have hrest := ih fun d hd => h d (List.mem_cons_of_mem c hd)
      rw [List.flatMap_cons, String.utf8Len_append, String.utf8Len_cons]
      omega

/-! ### Objects -/

@[simp] theorem recordSize_nil : recordSize html [] = 0 := rfl

theorem recordSize_cons (f : String × Scalar) (r : Record) :
    recordSize html (f :: r) = fieldSize html f + 1 + recordSize html r := by
  rw [recordSize, List.map_cons, List.sum_cons, recordSize]

theorem recordSize_append (r r' : Record) :
    recordSize html (r ++ r') = recordSize html r + recordSize html r' := by
  rw [recordSize, List.map_append, List.sum_append, recordSize, recordSize]

theorem utf8Len_renderFields (html : Bool) : ∀ (f : String × Scalar) (fs : Record),
    utf8Len (renderFields html (f :: fs)) = recordSize html (f :: fs)
  | f, [] => by
      have hbrace : Char.utf8Size '}' = 1 := rfl
      rw [renderFields, String.utf8Len_append, String.utf8Len_cons, String.utf8Len_nil, hbrace,
        recordSize_cons, fieldSize]
      rfl
  | f, g :: fs => by
      have hcomma : Char.utf8Size ',' = 1 := rfl
      have ih := utf8Len_renderFields html g fs
      rw [renderFields, String.utf8Len_append, String.utf8Len_cons, ih, hcomma,
        recordSize_cons f, ← fieldSize]
      omega

/-- **The size of an object.** -/
theorem render_size (html : Bool) {r : Record} (h : r ≠ []) :
    (render html r).utf8ByteSize = recordSize html r + 1 := by
  cases r with
  | nil => exact absurd rfl h
  | cons f fs =>
      have hbrace : Char.utf8Size '{' = 1 := rfl
      rw [render, String.utf8ByteSize_ofList, String.utf8Len_cons, utf8Len_renderFields, hbrace]

theorem fieldSize_str (html : Bool) (key s : String) :
    fieldSize html (key, .str s) = literalSize html key + 1 + literalSize html s := by
  have hcolon : Char.utf8Size ':' = 1 := rfl
  rw [fieldSize, renderField, String.utf8Len_append, String.utf8Len_cons, hcolon]
  show literalSize html key + (literalSize html s + 1) = _
  omega

theorem fieldSize_nat (html : Bool) (key : String) (n : ℕ) :
    fieldSize html (key, .int n) = literalSize html key + 1 + (Nat.toDigits 10 n).length := by
  have hcolon : Char.utf8Size ':' = 1 := rfl
  have hdigits : utf8Len (renderInt n) = (Nat.toDigits 10 n).length := by
    have hint : renderInt n = Nat.toDigits 10 n := if_neg (by omega)
    have hall : ∀ c ∈ Nat.toDigits 10 n, c.isDigit = true := fun c hc =>
      Nat.isDigit_of_mem_toDigits (by decide) (by decide) hc
    rw [hint]
    generalize Nat.toDigits 10 n = ds at hall
    induction ds with
    | nil => rfl
    | cons d ds ih =>
        have hd : d.utf8Size = 1 := by
          have hdigit := hall d List.mem_cons_self
          simp only [Char.isDigit, Bool.and_eq_true, decide_eq_true_eq] at hdigit
          rw [Char.utf8Size_eq_one_iff]
          exact UInt32.le_trans hdigit.2 (by decide)
        rw [String.utf8Len_cons, ih fun c hc => hall c (List.mem_cons_of_mem d hc), hd,
          List.length_cons]
  rw [fieldSize, renderField, String.utf8Len_append, String.utf8Len_cons, hcolon]
  show literalSize html key + (utf8Len (renderInt n) + 1) = _
  rw [hdigits]
  omega

theorem recordSize_strField_le (html : Bool) (key s : String) :
    recordSize html (strField key s) ≤ literalSize html key + literalSize html s + 2 := by
  unfold strField
  split
  · exact Nat.zero_le _
  · rw [recordSize_cons, fieldSize_str]
    show _ + 0 ≤ _
    omega

/-! ### Objects in objects -/

theorem Unescaped.append {cs ds : List Char} (hcs : Unescaped cs) (hds : Unescaped ds) :
    Unescaped (cs ++ ds) := fun c hc => (List.mem_append.mp hc).elim (hcs c) (hds c)

theorem Unescaped.cons {cs : List Char} (hc : escaped true c = false) (hcs : Unescaped cs) :
    Unescaped (c :: cs) := List.forall_mem_cons.mpr ⟨hc, hcs⟩

theorem unescaped_shortLetter {l : Char} (h : shortLetter c = some l) : escaped true l = false := by
  unfold shortLetter at h
  split_ifs at h <;> cases h <;> decide

theorem unescaped_renderChar (h : escaped true c = false) : Unescaped (renderChar html c) := by
  unfold renderChar
  split
  · next l hl => exact .cons (by decide) (.cons (unescaped_shortLetter hl) (by decide))
  · split
    · next hc =>
      rw [escaped_html hc] at h
      cases h
    · exact .cons h (by decide)

theorem unescaped_renderString {s : String} (h : Unescaped s.toList) :
    Unescaped (renderString html s) := by
  refine .cons (by decide) (.append ?_ (by decide))
  intro d hd
  obtain ⟨c, hc, hd⟩ := List.mem_flatMap.mp hd
  exact unescaped_renderChar (h c hc) d hd

theorem unescaped_digit (h : c.isDigit = true) : escaped true c = false := by
  by_contra hc
  rw [Bool.not_eq_false] at hc
  simp only [escaped, Bool.or_eq_true, Bool.true_and, decide_eq_true_eq] at hc
  have hrange : 48 ≤ c.toNat ∧ c.toNat ≤ 57 := by
    simp only [Char.isDigit, Bool.and_eq_true, decide_eq_true_eq] at h
    exact ⟨UInt32.le_iff_toNat_le.mp h.1, UInt32.le_iff_toNat_le.mp h.2⟩
  rcases hc with hc | (((rfl | rfl) | rfl) | hc) | hc
  · omega
  · cases h
  · cases h
  · cases h
  · omega
  · omega

theorem unescaped_renderInt (n : ℤ) : Unescaped (renderInt n) := by
  have hdigits : Unescaped (Nat.toDigits 10 n.natAbs) := by
    intro d hd
    exact unescaped_digit (Nat.isDigit_of_mem_toDigits (b := 10) (by decide) (by decide) hd)
  unfold renderInt
  split
  · exact .cons (by decide) hdigits
  · exact hdigits

/-- The keys and the strings of a record. -/
def Record.texts (r : Record) : List String :=
  r.flatMap fun f => match f.2 with
    | .str s => [f.1, s]
    | .int _ => [f.1]

theorem unescaped_renderFields : ∀ {r : Record}, (∀ s ∈ r.texts, Unescaped s.toList) →
    Unescaped (renderFields html r)
  | [], _ => List.forall_mem_singleton.mpr (by decide)
  | f :: fs, h => by
      have hfield : Unescaped (renderField html f) := by
        obtain ⟨key, v⟩ := f
        cases v with
        | str s =>
            exact .append (unescaped_renderString (h key (by simp [Record.texts])))
              (.cons (by decide) (unescaped_renderString (h s (by simp [Record.texts]))))
        | int n =>
            exact .append (unescaped_renderString (h key (by simp [Record.texts])))
              (.cons (by decide) (unescaped_renderInt n))
      have hrest := unescaped_renderFields (r := fs) fun s hs =>
        h s (by rw [Record.texts, List.flatMap_cons]; exact List.mem_append_right _ hs)
      cases fs with
      | nil => exact hfield.append (by decide)
      | cons g fs => exact hfield.append (.cons (by decide) hrest)

/-- The text of a record, inside another one, needs short escapes only. -/
theorem unescaped_render {r : Record} (h : ∀ s ∈ r.texts, Unescaped s.toList) :
    Unescaped (render html r).toList := by
  rw [render, String.toList_ofList]
  exact .cons (by decide) (unescaped_renderFields h)

end JsonRecord
