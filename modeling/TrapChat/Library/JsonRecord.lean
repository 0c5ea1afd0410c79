import Mathlib.Data.Nat.Notation
import Mathlib.Tactic.IntervalCases

/-!
JSON objects whose values are strings and integers, as compact text. The writer
has one option, whether it also escapes the characters that matter in HTML; the
reader takes white space between tokens and every escape of the grammar. What is
written is read back, whichever writer wrote it.
-/

namespace JsonRecord

inductive Scalar
  | str (s : String)
  | int (n : ℤ)
  deriving DecidableEq, Repr

/-- The members of an object in order. -/
abbrev Record := List (String × Scalar)

/-- The values of a key, in order. -/
def Record.values (r : Record) (key : String) : List Scalar :=
  (r.filter fun f => f.1 = key).map Prod.snd

/-- A member that is left out when its string is empty. -/
def strField (key s : String) : Record := if s = "" then [] else [(key, .str s)]

@[simp] theorem values_nil (key : String) : Record.values [] key = [] := rfl

theorem values_cons (k : String) (v : Scalar) (r : Record) (key : String) :
    Record.values ((k, v) :: r) key = if k = key then v :: r.values key else r.values key := by
  by_cases h : k = key <;> simp [Record.values, h]

theorem values_append (r r' : Record) (key : String) :
    Record.values (r ++ r') key = r.values key ++ Record.values r' key := by
  simp [Record.values]

theorem values_strField (k s key : String) :
    (strField k s).values key = if k = key ∧ s ≠ "" then [.str s] else [] := by
  unfold strField
  by_cases hs : s = ""
  · simp [hs]
  · rw [if_neg hs, values_cons]
    simp [hs]

/-! ### Characters -/

/-- The letter after the backslash of a two-character escape. -/
def shortLetter (c : Char) : Option Char :=
  if c = '"' then some '"'
  else if c = '\\' then some '\\'
  else if c = '\n' then some 'n'
  else if c = '\r' then some 'r'
  else if c = '\t' then some 't'
  else if c = Char.ofNat 8 then some 'b'
  else if c = Char.ofNat 12 then some 'f'
  else none

def ofShortLetter (l : Char) : Option Char :=
  if l = '"' then some '"'
  else if l = '\\' then some '\\'
  else if l = '/' then some '/'
  else if l = 'n' then some '\n'
  else if l = 'r' then some '\r'
  else if l = 't' then some '\t'
  else if l = 'b' then some (Char.ofNat 8)
  else if l = 'f' then some (Char.ofNat 12)
  else none

theorem ofShortLetter_shortLetter {c l : Char} (h : shortLetter c = some l) :
    ofShortLetter l = some c ∧ l ≠ 'u' := by
  unfold shortLetter at h
  split_ifs at h with h1 h2 h3 h4 h5 h6 h7 <;> cases h <;> subst c <;> decide

/-- The characters written by their number: control characters, and with `html`
also `<`, `>`, `&` and the two Unicode line separators. -/
def escaped (html : Bool) (c : Char) : Bool :=
  c.toNat < 32 || (html && (c = '<' || c = '>' || c = '&' || c.toNat = 0x2028 || c.toNat = 0x2029))

def hex4 (n : ℕ) : List Char :=
  [Nat.digitChar (n / 4096 % 16), Nat.digitChar (n / 256 % 16), Nat.digitChar (n / 16 % 16),
    Nat.digitChar (n % 16)]

def hexValue (c : Char) : Option ℕ :=
  if 48 ≤ c.toNat ∧ c.toNat ≤ 57 then some (c.toNat - 48)
  else if 97 ≤ c.toNat ∧ c.toNat ≤ 102 then some (c.toNat - 87)
  else if 65 ≤ c.toNat ∧ c.toNat ≤ 70 then some (c.toNat - 55)
  else none

theorem hexValue_digitChar {n : ℕ} (h : n < 16) : hexValue (Nat.digitChar n) = some n := by
  interval_cases n <;> decide

def readHex4 : List Char → Option (ℕ × List Char)
  | a :: b :: c :: d :: rest => do
    let w ← hexValue a
    let x ← hexValue b
    let y ← hexValue c
    let z ← hexValue d
    some (((w * 16 + x) * 16 + y) * 16 + z, rest)
  | _ => none

theorem readHex4_hex4 {n : ℕ} (h : n < 65536) (rest : List Char) :
    readHex4 (hex4 n ++ rest) = some (n, rest) := by
  have hlt : ∀ k, k % 16 < 16 := fun k => Nat.mod_lt k (by decide)
  simp only [hex4, List.cons_append, List.nil_append, readHex4, hexValue_digitChar (hlt _),
    Option.bind_eq_bind, Option.bind_some, Option.some.injEq, Prod.mk.injEq, and_true]
  omega

def renderChar (html : Bool) (c : Char) : List Char :=
  match shortLetter c with
  | some l => ['\\', l]
  | none => if escaped html c then '\\' :: 'u' :: hex4 c.toNat else [c]

/-- What follows `\u`: a code unit, or the two of a surrogate pair. A lone
surrogate is refused. -/
def readUnicode (cs : List Char) : Option (Char × List Char) :=
  match readHex4 cs with
  | none => none
  | some (u, rest) =>
    if u < 0xD800 ∨ 0xE000 ≤ u then some (Char.ofNat u, rest)
    else
      match rest with
      | '\\' :: 'u' :: rest =>
        match readHex4 rest with
        | some (v, rest) =>
          if u < 0xDC00 ∧ 0xDC00 ≤ v ∧ v < 0xE000 then
            some (Char.ofNat (0x10000 + (u - 0xD800) * 0x400 + (v - 0xDC00)), rest)
          else none
        | none => none
      | _ => none

/-- One character of a string literal. -/
def readChar : List Char → Option (Char × List Char)
  | [] => none
  | c :: rest =>
    if c = '\\' then
      match rest with
      | [] => none
      | l :: rest => if l = 'u' then readUnicode rest else (ofShortLetter l).map (·, rest)
    else if c = '"' ∨ c.toNat < 32 then none
    else some (c, rest)

theorem escaped_lt {html : Bool} {c : Char} (h : escaped html c = true) :
    c.toNat < 0xD800 := by
  simp only [escaped, Bool.or_eq_true, decide_eq_true_eq, Bool.and_eq_true] at h
  rcases h with h | ⟨-, (((rfl | rfl) | rfl) | h) | h⟩
  · omega
  · decide
  · decide
  · decide
  · omega
  · omega

theorem readChar_renderChar (html : Bool) (c : Char) (rest : List Char) :
    readChar (renderChar html c ++ rest) = some (c, rest) := by
  unfold renderChar
  cases hshort : shortLetter c with
  | some l =>
      obtain ⟨hback, hu⟩ := ofShortLetter_shortLetter hshort
      simp [readChar, hback, hu]
  | none =>
      dsimp only
      split
      · rename_i hesc
        have hlt := escaped_lt hesc
        have hread := readHex4_hex4 (n := c.toNat) (by omega) rest
        change readUnicode (hex4 c.toNat ++ rest) = some (c, rest)
        simp [readUnicode, hread, hlt, Char.ofNat_toNat]
      · rename_i hesc
        have hctl : ¬c.toNat < 32 := by
          intro h
          exact hesc (by simp [escaped, h])
        have hquote : c ≠ '"' := by
          rintro rfl
          cases hshort
        have hback : c ≠ '\\' := by
          rintro rfl
          cases hshort
        simp [readChar, hquote, hback, hctl]

theorem renderChar_head (html : Bool) (c : Char) (rest : List Char) :
    ∃ d tail, renderChar html c ++ rest = d :: tail ∧ d ≠ '"' := by
  unfold renderChar
  cases hshort : shortLetter c with
  | some l => exact ⟨'\\', l :: rest, rfl, by decide⟩
  | none =>
      dsimp only
      split
      · exact ⟨'\\', 'u' :: (hex4 c.toNat ++ rest), rfl, by decide⟩
      · refine ⟨c, rest, rfl, ?_⟩
        rintro rfl
        cases hshort

/-! ### Strings and numbers -/

def renderString (html : Bool) (s : String) : List Char :=
  '"' :: (s.toList.flatMap (renderChar html) ++ ['"'])

/-- The characters up to the closing quote. -/
def readChars : ℕ → List Char → Option (List Char × List Char)
  | 0, _ => none
  | fuel + 1, cs =>
    if cs.head? = some '"' then some ([], cs.tail)
    else do
      let (c, rest) ← readChar cs
      let (s, rest) ← readChars fuel rest
      some (c :: s, rest)

theorem readChars_render (html : Bool) (rest : List Char) :
    ∀ (s : List Char) (fuel : ℕ), s.length < fuel →
      readChars fuel (s.flatMap (renderChar html) ++ '"' :: rest) = some (s, rest)
  | [], fuel + 1, _ => by simp [readChars]
  | c :: s, fuel + 1, h => by
      obtain ⟨d, tail, hd, hne⟩ :=
        renderChar_head html c (s.flatMap (renderChar html) ++ '"' :: rest)
      have ih := readChars_render html rest s fuel (by simpa using h)
      have hread := readChar_renderChar html c (s.flatMap (renderChar html) ++ '"' :: rest)
      rw [List.flatMap_cons, List.append_assoc, readChars]
      have hhead : (renderChar html c ++ (s.flatMap (renderChar html) ++ '"' :: rest)).head? ≠
          some '"' := by
        rw [hd]
        simpa using hne
      rw [if_neg hhead, hread]
      simp [ih]

/-- The literal after its opening quote. -/
def readString (cs : List Char) : Option (String × List Char) :=
  (readChars (cs.length + 1) cs).map fun (s, rest) => (String.ofList s, rest)

theorem length_le_flatMap (html : Bool) (s : List Char) :
    s.length ≤ (s.flatMap (renderChar html)).length := by
  induction s with
  | nil => simp
  | cons c s ih =>
      obtain ⟨d, tail, hd, -⟩ := renderChar_head html c []
      have hpos : 0 < (renderChar html c).length := by
        rw [List.append_nil] at hd
        simp [hd]
      rw [List.flatMap_cons, List.length_append, List.length_cons]
      omega

theorem readString_render (html : Bool) (s : String) (rest : List Char) :
    readString (s.toList.flatMap (renderChar html) ++ '"' :: rest) = some (s, rest) := by
  have hlen := length_le_flatMap html s.toList
  unfold readString
  rw [readChars_render html rest s.toList _ (by rw [List.length_append]; omega)]
  simp

def renderInt (n : ℤ) : List Char :=
  if n < 0 then '-' :: Nat.toDigits 10 n.natAbs else Nat.toDigits 10 n.natAbs

def readNat (cs : List Char) : Option (ℕ × List Char) :=
  if cs.takeWhile Char.isDigit = [] then none
  else some (Nat.ofDigitChars 10 (cs.takeWhile Char.isDigit) 0, cs.dropWhile Char.isDigit)

def readInt (cs : List Char) : Option (ℤ × List Char) :=
  if cs.head? = some '-' then (readNat cs.tail).map fun (n, rest) => (-(n : ℤ), rest)
  else (readNat cs).map fun (n, rest) => ((n : ℤ), rest)

theorem readNat_toDigits (n : ℕ) {rest : List Char}
    (hrest : ∀ c ∈ rest.head?, c.isDigit = false) :
    readNat (Nat.toDigits 10 n ++ rest) = some (n, rest) := by
  have hdigits : ∀ c ∈ Nat.toDigits 10 n, Char.isDigit c = true := fun c hc =>
    Nat.isDigit_of_mem_toDigits (by decide) (by decide) hc
  have hstop : rest.takeWhile Char.isDigit = [] ∧ rest.dropWhile Char.isDigit = rest := by
    cases rest with
    | nil => exact ⟨rfl, rfl⟩
    | cons c rest =>
        have hc : c.isDigit = false := hrest c rfl
        simp [hc]
  unfold readNat
  rw [List.takeWhile_append_of_pos hdigits, List.dropWhile_append_of_pos hdigits, hstop.1, hstop.2,
    List.append_nil, if_neg Nat.toDigits_ne_nil, Nat.ofDigitChars_toDigits (by decide) (by decide)]

theorem toDigits_head_ne (n : ℕ) (rest : List Char) {c : Char} (hc : c.isDigit = false) :
    (Nat.toDigits 10 n ++ rest).head? ≠ some c := by
  cases hd : Nat.toDigits 10 n with
  | nil => exact absurd hd Nat.toDigits_ne_nil
  | cons d ds =>
      rintro h
      obtain rfl : d = c := Option.some.inj h
      have hdig := Nat.isDigit_of_mem_toDigits (b := 10) (n := n) (c := d) (by decide) (by decide)
        (by rw [hd]; exact List.mem_cons_self)
      rw [hdig] at hc
      cases hc

theorem readInt_render (n : ℤ) {rest : List Char} (hrest : ∀ c ∈ rest.head?, c.isDigit = false) :
    readInt (renderInt n ++ rest) = some (n, rest) := by
  unfold renderInt readInt
  split
  · rename_i hneg
    simp only [List.cons_append, List.head?_cons, if_true, List.tail_cons,
      readNat_toDigits _ hrest, Option.map_some]
    rw [Int.ofNat_natAbs_of_nonpos (by omega), neg_neg]
  · rename_i hnonneg
    have habs : (n.natAbs : ℤ) = n := Int.natAbs_of_nonneg (by omega)
    rw [if_neg (toDigits_head_ne _ _ (by decide)), readNat_toDigits _ hrest]
    simp only [Option.map_some, habs]

/-! ### Objects -/

def isWhite (c : Char) : Bool := c = ' ' || c = '\t' || c = '\n' || c = '\r'

def skipWhite (cs : List Char) : List Char := cs.dropWhile isWhite

def renderScalar (html : Bool) : Scalar → List Char
  | .str s => renderString html s
  | .int n => renderInt n

def readScalar (cs : List Char) : Option (Scalar × List Char) :=
  match cs with
  | '"' :: rest => (readString rest).map fun (s, rest) => (.str s, rest)
  | cs => (readInt cs).map fun (n, rest) => (.int n, rest)

def renderField (html : Bool) (f : String × Scalar) : List Char :=
  renderString html f.1 ++ ':' :: renderScalar html f.2

/-- The members with what separates and ends them. -/
def renderFields (html : Bool) : Record → List Char
  | [] => ['}']
  | [f] => renderField html f ++ ['}']
  | f :: g :: fs => renderField html f ++ ',' :: renderFields html (g :: fs)

def render (html : Bool) (r : Record) : String := String.ofList ('{' :: renderFields html r)

/-- One member, and the text from the next token on. -/
def readField (cs : List Char) : Option ((String × Scalar) × List Char) :=
  match skipWhite cs with
  | '"' :: rest =>
    match readString rest with
    | none => none
    | some (key, rest) =>
      match skipWhite rest with
      | ':' :: rest =>
        (readScalar (skipWhite rest)).map fun (v, rest) => ((key, v), skipWhite rest)
      | _ => none
  | _ => none

def readFields : ℕ → List Char → Option (Record × List Char)
  | 0, _ => none
  | fuel + 1, cs =>
    match readField cs with
    | none => none
    | some (f, '}' :: rest) => some ([f], rest)
    | some (f, ',' :: rest) => (readFields fuel rest).map fun (fs, rest) => (f :: fs, rest)
    | some _ => none

def readObject (cs : List Char) : Option (Record × List Char) :=
  match skipWhite cs with
  | '{' :: rest =>
    match skipWhite rest with
    | '}' :: rest => some ([], rest)
    | rest => readFields rest.length rest
  | _ => none

/-- The record of a text that holds one object and nothing after it. -/
def parse (text : String) : Option Record :=
  match readObject text.toList with
  | some (r, rest) => if skipWhite rest = [] then some r else none
  | none => none

theorem skipWhite_cons {c : Char} (h : isWhite c = false) (rest : List Char) :
    skipWhite (c :: rest) = c :: rest := by
  simp [skipWhite, h]

theorem renderInt_head (n : ℤ) (rest : List Char) :
    ∃ d tail, renderInt n ++ rest = d :: tail ∧ d ≠ '"' ∧ isWhite d = false := by
  have hdigits : ∃ d tail, Nat.toDigits 10 n.natAbs ++ rest = d :: tail ∧ d.isDigit = true := by
    cases hd : Nat.toDigits 10 n.natAbs with
    | nil => exact absurd hd Nat.toDigits_ne_nil
    | cons d ds =>
        refine ⟨d, ds ++ rest, rfl, ?_⟩
        exact Nat.isDigit_of_mem_toDigits (b := 10) (n := n.natAbs) (by decide) (by decide)
          (by rw [hd]; exact List.mem_cons_self)
  unfold renderInt
  split
  · exact ⟨'-', _, rfl, by decide, by decide⟩
  · obtain ⟨d, tail, hd, hdigit⟩ := hdigits
    refine ⟨d, tail, hd, ?_, ?_⟩
    · rintro rfl
      cases hdigit
    · by_contra hwhite
      rw [Bool.not_eq_false] at hwhite
      simp only [isWhite, Bool.or_eq_true, decide_eq_true_eq] at hwhite
      rcases hwhite with ((rfl | rfl) | rfl) | rfl <;> cases hdigit

theorem readScalar_render (html : Bool) (v : Scalar) {rest : List Char}
    (hrest : ∀ c ∈ rest.head?, c.isDigit = false) :
    readScalar (skipWhite (renderScalar html v ++ rest)) = some (v, rest) := by
  cases v with
  | str s =>
      change readScalar (skipWhite ('"' :: (s.toList.flatMap (renderChar html) ++ ['"']) ++ rest)) = _
      rw [List.cons_append, List.append_assoc, skipWhite_cons (by decide)]
      change (readString (s.toList.flatMap (renderChar html) ++ '"' :: rest)).map _ = _
      rw [readString_render]
      rfl
  | int n =>
      obtain ⟨d, tail, hd, hquote, hwhite⟩ := renderInt_head n rest
      have hread := readInt_render n hrest
      change readScalar (skipWhite (renderInt n ++ rest)) = _
      rw [hd] at hread ⊢
      rw [skipWhite_cons hwhite]
      unfold readScalar
      split
      · rename_i heq
        cases heq
        exact absurd rfl hquote
      · rw [hread]
        rfl

theorem readField_render (html : Bool) (f : String × Scalar) {c : Char} {rest : List Char}
    (hdigit : c.isDigit = false) (hwhite : isWhite c = false) :
    readField (renderField html f ++ c :: rest) = some (f, c :: rest) := by
  have htext : renderField html f ++ c :: rest =
      '"' :: (f.1.toList.flatMap (renderChar html) ++
        '"' :: ':' :: (renderScalar html f.2 ++ c :: rest)) := by
    simp [renderField, renderString]
  rw [htext]
  unfold readField
  rw [skipWhite_cons (by decide)]
  simp only [readString_render]
  have hvalue : readScalar (skipWhite (renderScalar html f.2 ++ c :: rest)) =
      some (f.2, c :: rest) :=
    readScalar_render html f.2 fun d hd => Option.mem_some_iff.mp hd ▸ hdigit
  rw [skipWhite_cons (by decide)]
  simp only [hvalue, Option.map_some, skipWhite_cons hwhite]

theorem readFields_render (html : Bool) (rest : List Char) :
    ∀ (r : Record) (fuel : ℕ), r ≠ [] → r.length ≤ fuel →
      readFields fuel (renderFields html r ++ rest) = some (r, rest)
  | [f], fuel + 1, _, _ => by
      simp only [renderFields, List.append_assoc, List.singleton_append, readFields,
        readField_render html f (c := '}') (by decide) (by decide)]
  | f :: g :: fs, fuel + 1, _, h => by
      have ih := readFields_render html rest (g :: fs) fuel (by simp) (by simpa using h)
      simp only [renderFields, List.append_assoc, List.cons_append, readFields,
        readField_render html f (c := ',') (by decide) (by decide), ih, Option.map_some]

theorem length_le_renderFields (html : Bool) : ∀ r : Record, r.length ≤ (renderFields html r).length
  | [] => by simp
  | [f] => by simp [renderFields]
  | f :: g :: fs => by
      have ih := length_le_renderFields html (g :: fs)
      simp only [renderFields, List.length_append, List.length_cons] at ih ⊢
      omega

/-- **Round trip.** Either writer's text is read back. -/
theorem parse_render (html : Bool) (r : Record) : parse (render html r) = some r := by
  have hobject : readObject ('{' :: renderFields html r) = some (r, []) := by
    unfold readObject
    rw [skipWhite_cons (by decide)]
    cases r with
    | nil => rfl
    | cons f fs =>
        have hhead : ∃ tail, renderFields html (f :: fs) = '"' :: tail := by
          cases fs with
          | nil => exact ⟨_, rfl⟩
          | cons g fs => exact ⟨_, rfl⟩
        have hread := readFields_render html [] (f :: fs) (renderFields html (f :: fs)).length
          (by simp) (length_le_renderFields html _)
        rw [List.append_nil] at hread
        obtain ⟨tail, htail⟩ := hhead
        rw [htail] at hread ⊢
        simp only [skipWhite_cons (c := '"') (by decide)]
        exact hread
  unfold parse render
  rw [String.toList_ofList, hobject]
  rfl

end JsonRecord
