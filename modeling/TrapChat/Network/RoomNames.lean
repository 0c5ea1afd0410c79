import TrapChat.Gateway.Handler
import TrapChat.Relay.Handler

/-!
The room names that the two services accept. The gateway asks for letters and numbers by
their general category, the relay for alphanumeric characters; and the vowel signs of
many scripts are alphabetic, but no letters.
-/

namespace TrapChat.Network

open Gateway

variable {goRt : GoRuntime} {rt : Relay.RustRuntime} {isAlphabetic : Char → Bool} {name : String}

/-- What the relay accepts. -/
theorem relay_validateRoomName_eq_none_iff : Relay.validateRoomName rt name = none ↔
    name ≠ "" ∧ name.length ≤ maxRoomNameLen ∧ ∀ c ∈ name.toList,
      rt.isAlphanumeric c = true ∨ c ∈ roomPunctuation := by
  rw [Relay.validateRoomName]
  split
  · next hempty => exact iff_of_false (Option.some_ne_none _) fun h => h.1 hempty
  · next hnonempty =>
    split
    · next hlong => exact iff_of_false (Option.some_ne_none _) fun h => Nat.not_lt.mpr h.2.1 hlong
    · next hshort =>
      have hlen : name.length ≤ maxRoomNameLen := Nat.not_lt.mp hshort
      rw [and_iff_right hnonempty, and_iff_right hlen]
      split
      · next hchars =>
        refine iff_of_true rfl fun c hc => ?_
        have h := List.all_eq_true.mp hchars c hc
        simp only [Bool.or_eq_true, decide_eq_true_eq] at h
        simp only [roomPunctuation, List.mem_cons, List.not_mem_nil, or_false]
        tauto
      · next hchars =>
        refine iff_of_false (Option.some_ne_none _) fun h => hchars ?_
        refine List.all_eq_true.mpr fun c hc => ?_
        have hchar := h c hc
        simp only [roomPunctuation, List.mem_cons, List.not_mem_nil, or_false] at hchar
        simp only [Bool.or_eq_true, decide_eq_true_eq]
        tauto

/-- The two regexp and character tables read one Unicode: every letter is alphabetic, and
`char::is_alphanumeric` adds the numbers to the alphabetic characters. -/
structure SameUnicode (goRt : GoRuntime) (rt : Relay.RustRuntime) (isAlphabetic : Char → Bool) :
    Prop where
  letter : ∀ c, goRt.isLetter c = true → isAlphabetic c = true
  alphanumeric : ∀ c, rt.isAlphanumeric c = (isAlphabetic c || goRt.isNumber c)

/-- An alphabetic character that the gateway's expression has no class for. -/
def IsMark (goRt : GoRuntime) (isAlphabetic : Char → Bool) (c : Char) : Prop :=
  isAlphabetic c = true ∧ goRt.isLetter c = false ∧ goRt.isNumber c = false ∧ c ∉ roomPunctuation

/-- A character of neither service. -/
def IsForeign (goRt : GoRuntime) (isAlphabetic : Char → Bool) (c : Char) : Prop :=
  isAlphabetic c = false ∧ goRt.isNumber c = false ∧ c ∉ roomPunctuation

theorem gateway_char_iff (hsame : SameUnicode goRt rt isAlphabetic) (c : Char) :
    (goRt.isLetter c = true ∨ goRt.isNumber c = true ∨ c ∈ roomPunctuation) ↔
      ¬IsForeign goRt isAlphabetic c ∧ ¬IsMark goRt isAlphabetic c := by
  have hletter := hsame.letter c
  simp only [IsForeign, IsMark]
  cases hl : goRt.isLetter c <;> cases hn : goRt.isNumber c <;> cases ha : isAlphabetic c <;>
    simp_all

theorem relay_char_iff (hsame : SameUnicode goRt rt isAlphabetic) (c : Char) :
    (rt.isAlphanumeric c = true ∨ c ∈ roomPunctuation) ↔ ¬IsForeign goRt isAlphabetic c := by
  rw [hsame.alphanumeric c, IsForeign, Bool.or_eq_true]
  cases goRt.isNumber c <;> cases isAlphabetic c <;> simp

/-- The two services agree on a name unless it has a mark and is refused for nothing else. -/
theorem validateRoomName_agree_iff (hsame : SameUnicode goRt rt isAlphabetic) (name : String) :
    (validateRoomName goRt name = "" ↔ Relay.validateRoomName rt name = none) ↔
      name = "" ∨ maxRoomNameLen < name.length ∨
        (∃ c ∈ name.toList, IsForeign goRt isAlphabetic c) ∨
        ∀ c ∈ name.toList, ¬IsMark goRt isAlphabetic c := by
  rw [validateRoomName_eq_empty_iff, relay_validateRoomName_eq_none_iff]
  simp only [gateway_char_iff hsame, relay_char_iff hsame]
  by_cases hempty : name = ""
  · exact iff_of_true (by simp [hempty]) (.inl hempty)
  by_cases hlong : maxRoomNameLen < name.length
  · exact iff_of_true (iff_of_false (fun h => h.2.1.not_gt hlong) fun h => h.2.1.not_gt hlong)
      (.inr (.inl hlong))
  rw [or_iff_right hempty, or_iff_right hlong, and_iff_right hempty, and_iff_right hempty,
    and_iff_right (Nat.not_lt.mp hlong), and_iff_right (Nat.not_lt.mp hlong)]
  by_cases hforeign : ∃ c ∈ name.toList, IsForeign goRt isAlphabetic c
  · obtain ⟨c, hc, hbad⟩ := hforeign
    exact iff_of_true (iff_of_false (fun h => (h c hc).1 hbad) fun h => h c hc hbad)
      (.inl ⟨c, hc, hbad⟩)
  have hnone : ∀ c ∈ name.toList, ¬IsForeign goRt isAlphabetic c :=
    fun c hc hbad => hforeign ⟨c, hc, hbad⟩
  rw [or_iff_right hforeign, iff_true_right hnone]
  exact ⟨fun h c hc => (h c hc).2, fun h c hc => ⟨hnone c hc, h c hc⟩⟩

/-- The Go tables for ASCII and the letters of Devanagari. -/
def devanagariRuntime : GoRuntime :=
  { asciiRuntime "" {} with
    isLetter := fun c => c.isAlpha || (0x0904 ≤ c.toNat && c.toNat ≤ 0x0939) }

/-- The letters and the vowel signs `U+093E` to `U+094C`. -/
def devanagariAlphabetic (c : Char) : Bool :=
  devanagariRuntime.isLetter c || (0x093E ≤ c.toNat && c.toNat ≤ 0x094C)

def devanagariRelay : Relay.RustRuntime where
  isAlphanumeric c := devanagariAlphabetic c || devanagariRuntime.isNumber c

theorem devanagari_sameUnicode :
    SameUnicode devanagariRuntime devanagariRelay devanagariAlphabetic where
  letter c hc := by rw [devanagariAlphabetic, hc, Bool.true_or]
  alphanumeric _ := rfl

theorem validateRoomName_agree_word :
    (validateRoomName devanagariRuntime "\u0915\u093E" = "" ↔
      Relay.validateRoomName devanagariRelay "\u0915\u093E" = none) ↔
      "\u0915\u093E" = "" ∨ maxRoomNameLen < "\u0915\u093E".length ∨
        (∃ c ∈ "\u0915\u093E".toList, IsForeign devanagariRuntime devanagariAlphabetic c) ∨
        ∀ c ∈ "\u0915\u093E".toList, ¬IsMark devanagariRuntime devanagariAlphabetic c :=
  validateRoomName_agree_iff devanagari_sameUnicode "\u0915\u093E"

/-- A letter with a vowel sign is a room of the relay alone. -/
theorem validateRoomName_differ : ¬∀ (goRt : GoRuntime) (rt : Relay.RustRuntime)
    (isAlphabetic : Char → Bool), SameUnicode goRt rt isAlphabetic → ∀ name : String,
      (validateRoomName goRt name = "" ↔ Relay.validateRoomName rt name = none) := by
  intro h
  have hagree := h _ _ _ devanagari_sameUnicode "\u0915\u093E"
  exact absurd (hagree.mpr (by decide)) (by decide)

end TrapChat.Network
