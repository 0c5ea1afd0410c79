import Mathlib.Data.Nat.Notation
import Mathlib.Tactic.IntervalCases

/-!
Percent-encoding of text over UTF-8: the characters of a given safe set stand
for themselves, every other one is written as its bytes in hexadecimal. Decoding
collects the bytes and reads them as UTF-8.
-/

namespace PercentEncoding

/-- An upper-case hexadecimal digit. -/
def hexDigit (n : ℕ) : Char := if n < 10 then Char.ofNat (48 + n) else Char.ofNat (55 + n)

def hexValue (c : Char) : Option ℕ :=
  if 48 ≤ c.toNat ∧ c.toNat ≤ 57 then some (c.toNat - 48)
  else if 65 ≤ c.toNat ∧ c.toNat ≤ 70 then some (c.toNat - 55)
  else if 97 ≤ c.toNat ∧ c.toNat ≤ 102 then some (c.toNat - 87)
  else none

theorem hexValue_hexDigit {n : ℕ} (h : n < 16) : hexValue (hexDigit n) = some n := by
  interval_cases n <;> decide

theorem hexDigit_alphanum {n : ℕ} (h : n < 16) : (hexDigit n).isAlphanum = true := by
  interval_cases n <;> decide

/-- The three characters of an escaped byte. -/
def escape (b : UInt8) : List Char := ['%', hexDigit (b.toNat / 16), hexDigit (b.toNat % 16)]

def encodeChar (safe : Char → Bool) (c : Char) : List Char :=
  if safe c then [c] else (String.utf8EncodeChar c).flatMap escape

def encodeChars (safe : Char → Bool) (cs : List Char) : List Char := cs.flatMap (encodeChar safe)

/-- The bytes of a text, its escapes resolved; `none` at a broken escape. -/
def bytes : List Char → Option (List UInt8)
  | [] => some []
  | ['%'] => none
  | ['%', _] => none
  | '%' :: a :: b :: rest => do
    let x ← hexValue a
    let y ← hexValue b
    let bs ← bytes rest
    some (UInt8.ofNat (x * 16 + y) :: bs)
  | c :: rest => (bytes rest).map (String.utf8EncodeChar c ++ ·)

def decodeChars (cs : List Char) : Option String :=
  (bytes cs).bind fun bs => String.fromUTF8? bs.toByteArray

theorem bytes_cons {c : Char} (hc : c ≠ '%') (rest : List Char) :
    bytes (c :: rest) = (bytes rest).map (String.utf8EncodeChar c ++ ·) := by
  rw [bytes] <;> simp [hc]

theorem bytes_escape (b : UInt8) (rest : List Char) :
    bytes (escape b ++ rest) = (bytes rest).map (b :: ·) := by
  have hb : b.toNat < 256 := b.toNat_lt
  show bytes ('%' :: hexDigit (b.toNat / 16) :: hexDigit (b.toNat % 16) :: rest) = _
  rw [bytes, hexValue_hexDigit (by omega), hexValue_hexDigit (by omega)]
  have hback : UInt8.ofNat (b.toNat / 16 * 16 + b.toNat % 16) = b := by
    rw [show b.toNat / 16 * 16 + b.toNat % 16 = b.toNat by omega, UInt8.ofNat_toNat]
  simp only [Option.bind_eq_bind, Option.bind_some, hback]
  cases bytes rest <;> rfl

theorem bytes_escapes (bs : List UInt8) (rest : List Char) :
    bytes (bs.flatMap escape ++ rest) = (bytes rest).map (bs ++ ·) := by
  induction bs with
  | nil => simp
  | cons b bs ih =>
      rw [List.flatMap_cons, List.append_assoc, bytes_escape, ih, Option.map_map]
      rfl

variable {safe : Char → Bool}

theorem bytes_encodeChar (hsafe : safe '%' = false) (c : Char) (rest : List Char) :
    bytes (encodeChar safe c ++ rest) = (bytes rest).map (String.utf8EncodeChar c ++ ·) := by
  unfold encodeChar
  split
  · rename_i h
    apply bytes_cons
    rintro rfl
    rw [hsafe] at h
    cases h
  · exact bytes_escapes _ _

theorem bytes_encodeChars (hsafe : safe '%' = false) (cs : List Char) :
    bytes (encodeChars safe cs) = some (cs.flatMap String.utf8EncodeChar) := by
  induction cs with
  | nil => rfl
  | cons c cs ih =>
      show bytes (encodeChar safe c ++ encodeChars safe cs) = _
      rw [bytes_encodeChar hsafe, ih]
      rfl

/-- **Round trip.** -/
theorem decodeChars_encodeChars (hsafe : safe '%' = false) (s : String) :
    decodeChars (encodeChars safe s.toList) = some s := by
  have hbytes : (s.toList.flatMap String.utf8EncodeChar).toByteArray = s.toByteArray :=
    String.utf8Encode_toList
  rw [decodeChars, bytes_encodeChars hsafe, Option.bind_some, hbytes, String.fromUTF8?,
    dif_pos s.isValidUTF8]
  rfl

theorem encodeChars_append (safe : Char → Bool) (cs cs' : List Char) :
    encodeChars safe (cs ++ cs') = encodeChars safe cs ++ encodeChars safe cs' :=
  List.flatMap_append

theorem encodeChars_of_safe {cs : List Char} (h : ∀ c ∈ cs, safe c = true) :
    encodeChars safe cs = cs := by
  induction cs with
  | nil => rfl
  | cons c cs ih =>
      have hchar : encodeChar safe c = [c] := if_pos (h c List.mem_cons_self)
      show encodeChar safe c ++ encodeChars safe cs = c :: cs
      rw [hchar, ih fun c' hc' => h c' (List.mem_cons_of_mem _ hc')]
      rfl

theorem encodeChars_congr {safe' : Char → Bool} {cs : List Char}
    (h : ∀ c ∈ cs, safe c = safe' c) : encodeChars safe cs = encodeChars safe' cs := by
  induction cs with
  | nil => rfl
  | cons c cs ih =>
      show encodeChar safe c ++ encodeChars safe cs = encodeChar safe' c ++ encodeChars safe' cs
      rw [encodeChar, encodeChar, h c List.mem_cons_self,
        ih fun c' hc' => h c' (List.mem_cons_of_mem _ hc')]

/-- Text without percent signs stands for itself. -/
theorem decodeChars_of_plain {cs : List Char} (h : '%' ∉ cs) :
    decodeChars cs = some (String.ofList cs) := by
  have hplain : encodeChars (fun c => c ≠ '%') cs = cs := by
    refine encodeChars_of_safe fun c hc => decide_eq_true ?_
    rintro rfl
    exact h hc
  have hback : decodeChars (encodeChars (fun c => c ≠ '%') (String.ofList cs).toList) =
      some (String.ofList cs) := decodeChars_encodeChars (by decide) _
  rwa [String.toList_ofList, hplain] at hback

/-- Only safe characters, percent signs and hexadecimal digits are written. -/
theorem mem_encodeChars {cs : List Char} {x : Char} (h : x ∈ encodeChars safe cs) :
    safe x = true ∨ x = '%' ∨ x.isAlphanum = true := by
  obtain ⟨c, -, hx⟩ := List.mem_flatMap.mp h
  unfold encodeChar at hx
  split at hx
  · rename_i hc
    rw [List.mem_singleton] at hx
    exact .inl (hx ▸ hc)
  · obtain ⟨b, -, hx⟩ := List.mem_flatMap.mp hx
    have hb : b.toNat < 256 := b.toNat_lt
    rcases List.mem_cons.mp hx with rfl | hx
    · exact .inr (.inl rfl)
    rcases List.mem_cons.mp hx with rfl | hx
    · exact .inr (.inr (hexDigit_alphanum (by omega)))
    · rw [List.mem_singleton.mp hx]
      exact .inr (.inr (hexDigit_alphanum (by omega)))

theorem encodeChars_ne_nil {cs : List Char} (h : cs ≠ []) : encodeChars safe cs ≠ [] := by
  cases cs with
  | nil => exact absurd rfl h
  | cons c cs =>
      have hchar : encodeChar safe c ≠ [] := by
        unfold encodeChar
        split
        · simp
        · cases hbytes : String.utf8EncodeChar c with
          | nil => exact absurd hbytes String.utf8EncodeChar_ne_nil
          | cons b bs => simp [escape]
      show encodeChar safe c ++ encodeChars safe cs ≠ []
      simp [hchar]

end PercentEncoding
