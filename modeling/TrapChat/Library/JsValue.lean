import Mathlib.Data.Rat.Defs
import Mathlib.Algebra.Order.Ring.Rat

/-!
JavaScript values as `JSON.parse` makes them, with the conversions that operators apply to
them: truth values, primitive values, texts, property keys, and the comparison `<`.

A conversion throws a `TypeError` on an object that has a `toString` of its own, since a
value of JSON cannot be called. Texts are by their UTF-16 code units. How a number is
written and which number a text is read as is left open.
-/

namespace JsValue

/-- A text, by its UTF-16 code units. -/
abbrev Text := List UInt16

/-- The text of characters that are one code unit each. -/
def text (s : String) : Text := s.toList.map fun c => c.toNat.toUInt16

inductive Number
  | nan
  | infinite (negative : Bool)
  | finite (value : ℚ)
  deriving DecidableEq

inductive Json
  | null
  | bool (b : Bool)
  | num (n : Number)
  | str (s : Text)
  | arr (elements : List Json)
  | obj (members : List (Text × Json))

/-- How numbers are written, and how texts are read as numbers. -/
structure Numerals where
  toText : Number → Text
  ofText : Text → Number

/-- `Boolean(value)` -/
def Json.truthy : Json → Bool
  | .null => false
  | .bool b => b
  | .num n => n ≠ .nan && n ≠ .finite 0
  | .str s => s ≠ []
  | .arr _ => true
  | .obj _ => true

def Json.isString : Json → Bool
  | .str _ => true
  | _ => false

def Json.isNumber : Json → Bool
  | .num _ => true
  | _ => false

def Json.isNull : Json → Bool
  | .null => true
  | _ => false

/-- `value === n` -/
def Json.equalsNumber (value : Json) (n : ℕ) : Bool :=
  match value with
  | .num m => m = .finite n
  | _ => false

/-- A member that the value has itself; `none` is undefined. -/
def Json.get (value : Json) (key : Text) : Option Json :=
  match value with
  | .obj members => (members.reverse.find? fun member => member.1 = key).map Prod.snd
  | _ => none

section
variable (N : Numerals)

mutual

/-- `String(value)`; `none` where it throws. -/
def Json.toText : Json → Option Text
  | .null => some (text "null")
  | .bool b => some (text (if b then "true" else "false"))
  | .num n => some (N.toText n)
  | .str s => some s
  | .arr elements => (elementTexts elements).map fun texts => [0x2C].intercalate texts
  | .obj members =>
    if members.any fun member => member.1 = text "toString" then none
    else some (text "[object Object]")

/-- What `join` makes of the elements. -/
def elementTexts : List Json → Option (List Text)
  | [] => some []
  | .null :: rest => (elementTexts rest).map fun texts => [] :: texts
  | element :: rest =>
    (Json.toText element).bind fun t => (elementTexts rest).map fun texts => t :: texts

end

/-- The value as a primitive one; `none` where it throws. -/
def Json.toPrimitive : Json → Option Json
  | .arr elements => (Json.toText N (.arr elements)).map .str
  | .obj members => (Json.toText N (.obj members)).map .str
  | value => some value

/-- The number that a primitive value is converted to. -/
def Json.toNumber : Json → Number
  | .null => .finite 0
  | .bool b => .finite (if b then 1 else 0)
  | .num n => n
  | .str s => N.ofText s
  | .arr _ => .nan
  | .obj _ => .nan

/-- Whether one number is less than another one; `none` is undefined. -/
def Number.less : Number → Number → Option Bool
  | .nan, _ => none
  | _, .nan => none
  | .finite a, .finite b => some (a < b)
  | .infinite a, .infinite b => some (a && !b)
  | .infinite a, .finite _ => some a
  | .finite _, .infinite b => some !b

/-- Whether one primitive value is less than another one. Two texts are compared by their code
units. -/
def Json.less (a b : Json) : Option Bool :=
  match a, b with
  | .str s, .str t => some (s < t)
  | _, _ => (a.toNumber N).less (b.toNumber N)

end

/-- The index that a property key of an array is; keys like `01` or `1.5` are none. -/
def arrayIndex (key : Text) : Option ℕ :=
  let n := key.foldl (fun n unit => 10 * n + (unit.toNat - 48)) 0
  if text (toString n) = key ∧ n < 4294967295 then some n else none

variable {N : Numerals}

/-- A value that is converted to a primitive one has a text. -/
theorem isSome_toText {value p : Json} (h : value.toPrimitive N = some p) :
    (value.toText N).isSome := by
  cases value with
  | arr elements =>
      obtain ⟨t, ht, -⟩ := Option.map_eq_some_iff.mp h
      rw [ht]
      rfl
  | obj members =>
      obtain ⟨t, ht, -⟩ := Option.map_eq_some_iff.mp h
      rw [ht]
      rfl
  | _ =>
      rw [Json.toText]
      rfl

end JsValue
