import Mathlib.Data.Nat.Notation
import Mathlib.Tactic.IntervalCases

/-!
Base64 over the standard alphabet (`+` and `/` as its last two characters), with
`=` padding: the encoder, and the two decoders that read what it writes. The
strict one asks for complete groups of four and allows padding at the end only;
the forgiving one also takes text without padding and skips ASCII white space.

Both invert the encoder. Text is a list of characters here; `encode`, `decode`
and `decodeForgiving` are the versions on strings.
-/

namespace Base64

/-- The character of a six-bit value. -/
def toChar (n : ℕ) : Char :=
  if n < 26 then Char.ofNat (65 + n)
  else if n < 52 then Char.ofNat (97 + (n - 26))
  else if n < 62 then Char.ofNat (48 + (n - 52))
  else if n = 62 then '+' else '/'

/-- The six-bit value of a character of the alphabet. -/
def ofChar (c : Char) : Option ℕ :=
  if 65 ≤ c.toNat ∧ c.toNat ≤ 90 then some (c.toNat - 65)
  else if 97 ≤ c.toNat ∧ c.toNat ≤ 122 then some (c.toNat - 97 + 26)
  else if 48 ≤ c.toNat ∧ c.toNat ≤ 57 then some (c.toNat - 48 + 52)
  else if c = '+' then some 62
  else if c = '/' then some 63
  else none

theorem ofChar_toChar {n : ℕ} (h : n < 64) : ofChar (toChar n) = some n := by
  interval_cases n <;> decide

theorem ofChar_pad : ofChar '=' = none := by decide

theorem toChar_ne_pad {n : ℕ} (h : n < 64) : toChar n ≠ '=' := by
  intro heq
  have := ofChar_toChar h
  rw [heq, ofChar_pad] at this
  cases this

/-- ASCII white space, which the forgiving decoder removes. -/
def isWhite (c : Char) : Bool :=
  c = '\t' || c = '\n' || c = Char.ofNat 12 || c = '\r' || c = ' '

theorem isWhite_toChar {n : ℕ} (h : n < 64) : isWhite (toChar n) = false := by
  interval_cases n <;> decide

/-! ### Encoding -/

/-- The characters of the text without its padding. -/
def encodeRaw : List UInt8 → List Char
  | [] => []
  | [a] => [toChar (a.toNat / 4), toChar (a.toNat % 4 * 16)]
  | [a, b] =>
    [toChar (a.toNat / 4), toChar (a.toNat % 4 * 16 + b.toNat / 16),
      toChar (b.toNat % 16 * 4)]
  | a :: b :: c :: rest =>
    toChar (a.toNat / 4) :: toChar (a.toNat % 4 * 16 + b.toNat / 16) ::
      toChar (b.toNat % 16 * 4 + c.toNat / 64) :: toChar (c.toNat % 64) :: encodeRaw rest

/-- The padding that completes the last group. -/
def padding : List UInt8 → List Char
  | [] => []
  | [_] => ['=', '=']
  | [_, _] => ['=']
  | _ :: _ :: _ :: rest => padding rest

def encodeChars (bs : List UInt8) : List Char := encodeRaw bs ++ padding bs

def encode (bs : List UInt8) : String := String.ofList (encodeChars bs)

/-- Every character of the text proper stands for a six-bit value. -/
theorem encodeRaw_mem : ∀ (bs : List UInt8) {c : Char}, c ∈ encodeRaw bs →
    ∃ n < 64, c = toChar n
  | [], c, h => by simp [encodeRaw] at h
  | [a], c, h => by
      have ha := a.toNat_lt
      simp only [encodeRaw, List.mem_cons, List.not_mem_nil, or_false] at h
      rcases h with rfl | rfl
      · exact ⟨_, by omega, rfl⟩
      · exact ⟨_, by omega, rfl⟩
  | [a, b], c, h => by
      have ha := a.toNat_lt
      have hb := b.toNat_lt
      simp only [encodeRaw, List.mem_cons, List.not_mem_nil, or_false] at h
      rcases h with rfl | rfl | rfl
      · exact ⟨_, by omega, rfl⟩
      · exact ⟨_, by omega, rfl⟩
      · exact ⟨_, by omega, rfl⟩
  | a :: b :: d :: rest, c, h => by
      have ha := a.toNat_lt
      have hb := b.toNat_lt
      have hd := d.toNat_lt
      simp only [encodeRaw, List.mem_cons] at h
      rcases h with rfl | rfl | rfl | rfl | h
      · exact ⟨_, by omega, rfl⟩
      · exact ⟨_, by omega, rfl⟩
      · exact ⟨_, by omega, rfl⟩
      · exact ⟨_, by omega, rfl⟩
      · exact encodeRaw_mem rest h

theorem padding_length_le : ∀ bs : List UInt8, (padding bs).length ≤ 2
  | [] => by simp [padding]
  | [_] => by simp [padding]
  | [_, _] => by simp [padding]
  | _ :: _ :: _ :: rest => padding_length_le rest

theorem padding_eq_replicate : ∀ bs : List UInt8,
    padding bs = List.replicate (padding bs).length '='
  | [] => rfl
  | [_] => rfl
  | [_, _] => rfl
  | _ :: _ :: _ :: rest => padding_eq_replicate rest

/-- Padding makes the length a multiple of four. -/
theorem encodeChars_length_mod : ∀ bs : List UInt8, (encodeChars bs).length % 4 = 0
  | [] => rfl
  | [_] => by simp [encodeChars, encodeRaw, padding]
  | [_, _] => by simp [encodeChars, encodeRaw, padding]
  | _ :: _ :: _ :: rest => by
      have ih := encodeChars_length_mod rest
      simp only [encodeChars, encodeRaw, padding, List.length_append, List.length_cons] at ih ⊢
      omega

/-- Four characters for every three bytes begun. -/
theorem encodeChars_length : ∀ bs : List UInt8,
    (encodeChars bs).length = 4 * ((bs.length + 2) / 3)
  | [] => rfl
  | [_] => by simp [encodeChars, encodeRaw, padding]
  | [_, _] => by simp [encodeChars, encodeRaw, padding]
  | _ :: _ :: _ :: rest => by
      have ih := encodeChars_length rest
      simp only [encodeChars, encodeRaw, padding, List.length_append, List.length_cons] at ih ⊢
      omega

theorem mem_encodeChars {bs : List UInt8} {c : Char} (h : c ∈ encodeChars bs) :
    c = '=' ∨ ∃ n < 64, c = toChar n := by
  rcases List.mem_append.mp h with h | h
  · exact .inr (encodeRaw_mem bs h)
  · rw [padding_eq_replicate] at h
    exact .inl (List.eq_of_mem_replicate h)

/-- The first character depends on the first byte alone. -/
theorem encodeChars_ne_nil {bs : List UInt8} (h : bs ≠ []) : encodeChars bs ≠ [] := by
  match bs, h with
  | [_], _ => simp [encodeChars, encodeRaw]
  | [_, _], _ => simp [encodeChars, encodeRaw]
  | _ :: _ :: _ :: _, _ => simp [encodeChars, encodeRaw]

/-! ### Decoding -/

/-- The bytes of unpadded text. A final group of two or three characters gives
one or two bytes and its left-over bits are dropped. -/
def decodeRaw : List Char → Option (List UInt8)
  | [] => some []
  | [_] => none
  | [a, b] => do
    let x ← ofChar a
    let y ← ofChar b
    some [UInt8.ofNat (x * 4 + y / 16)]
  | [a, b, c] => do
    let x ← ofChar a
    let y ← ofChar b
    let z ← ofChar c
    some [UInt8.ofNat (x * 4 + y / 16), UInt8.ofNat (y % 16 * 16 + z / 4)]
  | a :: b :: c :: d :: rest => do
    let x ← ofChar a
    let y ← ofChar b
    let z ← ofChar c
    let w ← ofChar d
    let bs ← decodeRaw rest
    some (UInt8.ofNat (x * 4 + y / 16) :: UInt8.ofNat (y % 16 * 16 + z / 4) ::
      UInt8.ofNat (z % 4 * 64 + w) :: bs)

/-- The text without the padding that ends it: two `=` at most, and only where
they complete a group. -/
def stripPadding (cs : List Char) : List Char :=
  if cs.length % 4 = 0 then
    if cs.drop (cs.length - 2) = ['=', '='] then cs.take (cs.length - 2)
    else if cs.drop (cs.length - 1) = ['='] then cs.take (cs.length - 1)
    else cs
  else cs

/-- Strict decoding: complete groups of four, new lines ignored. -/
def decodeChars (cs : List Char) : Option (List UInt8) :=
  let cs := cs.filter fun c => c ≠ '\r' ∧ c ≠ '\n'
  if cs.length % 4 = 0 then decodeRaw (stripPadding cs) else none

/-- Forgiving decoding: padding optional, ASCII white space ignored. -/
def decodeForgivingChars (cs : List Char) : Option (List UInt8) :=
  decodeRaw (stripPadding (cs.filter fun c => !isWhite c))

def decode (s : String) : Option (List UInt8) := decodeChars s.toList

def decodeForgiving (s : String) : Option (List UInt8) := decodeForgivingChars s.toList

private theorem ofNat_toNat_eq {b : UInt8} {n : ℕ} (h : n = b.toNat) : UInt8.ofNat n = b := by
  rw [h, UInt8.ofNat_toNat]

theorem decodeRaw_encodeRaw : ∀ bs : List UInt8, decodeRaw (encodeRaw bs) = some bs
  | [] => rfl
  | [a] => by
      have ha := a.toNat_lt
      rw [encodeRaw, decodeRaw, ofChar_toChar (by omega), ofChar_toChar (by omega)]
      simp only [Option.bind_eq_bind, Option.bind_some, Option.some.injEq, List.cons.injEq,
        and_true]
      exact ofNat_toNat_eq (by omega)
  | [a, b] => by
      have ha := a.toNat_lt
      have hb := b.toNat_lt
      rw [encodeRaw, decodeRaw, ofChar_toChar (by omega), ofChar_toChar (by omega),
        ofChar_toChar (by omega)]
      simp only [Option.bind_eq_bind, Option.bind_some, Option.some.injEq, List.cons.injEq,
        and_true]
      exact ⟨ofNat_toNat_eq (by omega), ofNat_toNat_eq (by omega)⟩
  | a :: b :: c :: rest => by
      have ha := a.toNat_lt
      have hb := b.toNat_lt
      have hc := c.toNat_lt
      rw [encodeRaw, decodeRaw, ofChar_toChar (by omega), ofChar_toChar (by omega),
        ofChar_toChar (by omega), ofChar_toChar (by omega), decodeRaw_encodeRaw rest]
      simp only [Option.bind_eq_bind, Option.bind_some, Option.some.injEq, List.cons.injEq,
        and_true]
      exact ⟨ofNat_toNat_eq (by omega), ofNat_toNat_eq (by omega), ofNat_toNat_eq (by omega)⟩

/-- Padding behind text that does not end in `=` is found and removed. -/
theorem stripPadding_append {cs pad : List Char} (hpad : pad = List.replicate pad.length '=')
    (hle : pad.length ≤ 2) (hmod : (cs ++ pad).length % 4 = 0) (hcs : ∀ c ∈ cs, c ≠ '=') :
    stripPadding (cs ++ pad) = cs := by
  have hlast : ∀ k, 0 < k → k ≤ cs.length → ∃ c ∈ cs.drop (cs.length - k), c ≠ '=' := by
    intro k hk hkl
    have hne : cs.drop (cs.length - k) ≠ [] := by
      intro h
      have := congrArg List.length h
      simp only [List.length_drop, List.length_nil] at this
      omega
    obtain ⟨c, hc⟩ := List.exists_mem_of_ne_nil _ hne
    exact ⟨c, hc, hcs c (List.mem_of_mem_drop hc)⟩
  rw [stripPadding, if_pos hmod]
  match hp : pad.length, hle with
  | 0, _ =>
      have hnil : pad = [] := List.length_eq_zero_iff.mp hp
      subst hnil
      rw [List.append_nil] at hmod ⊢
      have hno : ∀ k, 0 < k → k ≤ 2 → cs.drop (cs.length - k) ≠ List.replicate k '=' := by
        intro k hk hk2 heq
        by_cases hlen : k ≤ cs.length
        · obtain ⟨c, hc, hne⟩ := hlast k hk hlen
          rw [heq] at hc
          exact hne (List.eq_of_mem_replicate hc)
        · have := congrArg List.length heq
          simp only [List.length_drop, List.length_replicate] at this
          omega
      rw [if_neg (show ¬_ = ['=', '='] from hno 2 (by omega) (by omega)),
        if_neg (show ¬_ = ['='] from hno 1 (by omega) (by omega))]
  | 1, _ =>
      have hone : pad = ['='] := by rw [hpad, hp]; rfl
      subst hone
      have htwo : (cs ++ ['=']).drop ((cs ++ ['=']).length - 2) ≠ ['=', '='] := by
        intro heq
        simp only [List.length_append, List.length_cons, List.length_nil] at hmod heq
        obtain ⟨c, hc, hne⟩ := hlast 1 (by omega) (by omega)
        rw [show cs.length + (0 + 1) - 2 = cs.length - 1 by omega,
          List.drop_append_of_le_length (by omega)] at heq
        have hmem : c ∈ cs.drop (cs.length - 1) ++ ['='] := List.mem_append_left _ hc
        rw [heq] at hmem
        simp at hmem
        exact hne hmem
      rw [if_neg htwo]
      simp
  | 2, _ =>
      have htwo : pad = ['=', '='] := by rw [hpad, hp]; rfl
      subst htwo
      simp

theorem stripPadding_encodeChars (bs : List UInt8) :
    stripPadding (encodeChars bs) = encodeRaw bs := by
  refine stripPadding_append (padding_eq_replicate bs) (padding_length_le bs)
    (encodeChars_length_mod bs) fun c hc => ?_
  obtain ⟨n, hn, rfl⟩ := encodeRaw_mem bs hc
  exact toChar_ne_pad hn

/-- Encoded text contains no white space. -/
theorem isWhite_of_mem_encodeChars {bs : List UInt8} {c : Char} (h : c ∈ encodeChars bs) :
    isWhite c = false := by
  rcases mem_encodeChars h with rfl | ⟨n, hn, rfl⟩
  · decide
  · exact isWhite_toChar hn

theorem decodeForgivingChars_encodeChars (bs : List UInt8) :
    decodeForgivingChars (encodeChars bs) = some bs := by
  have hfilter : (encodeChars bs).filter (fun c => !isWhite c) = encodeChars bs :=
    List.filter_eq_self.mpr fun c hc => by simp [isWhite_of_mem_encodeChars hc]
  rw [decodeForgivingChars, hfilter, stripPadding_encodeChars, decodeRaw_encodeRaw]

theorem decodeChars_encodeChars (bs : List UInt8) :
    decodeChars (encodeChars bs) = some bs := by
  have hfilter : (encodeChars bs).filter (fun c => c ≠ '\r' ∧ c ≠ '\n') = encodeChars bs := by
    refine List.filter_eq_self.mpr fun c hc => ?_
    have hw := isWhite_of_mem_encodeChars hc
    simp only [isWhite, Bool.or_eq_false_iff, decide_eq_false_iff_not] at hw
    simpa using ⟨hw.1.2, hw.1.1.1.2⟩
  simp only [decodeChars, hfilter, encodeChars_length_mod, if_true, stripPadding_encodeChars,
    decodeRaw_encodeRaw]

/-- **The strict decoder inverts the encoder.** -/
@[simp] theorem decode_encode (bs : List UInt8) : decode (encode bs) = some bs := by
  rw [decode, encode, String.toList_ofList, decodeChars_encodeChars]

/-- **The forgiving decoder inverts the encoder.** -/
@[simp] theorem decodeForgiving_encode (bs : List UInt8) :
    decodeForgiving (encode bs) = some bs := by
  rw [decodeForgiving, encode, String.toList_ofList, decodeForgivingChars_encodeChars]

theorem encode_injective {bs bs' : List UInt8} (h : encode bs = encode bs') : bs = bs' := by
  have heq : some bs = some bs' := by rw [← decode_encode bs, h, decode_encode]
  exact Option.some.inj heq

theorem encode_ne_empty {bs : List UInt8} (h : bs ≠ []) : encode bs ≠ "" := by
  intro hempty
  refine encodeChars_ne_nil h ?_
  rw [← String.toList_ofList (l := encodeChars bs), show String.ofList (encodeChars bs) = "" from hempty]
  rfl

end Base64
