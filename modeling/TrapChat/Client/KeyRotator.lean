import Mathlib.Data.Multiset.AddSub

/-!
The client's `KeyRotator`. Keys are symbols, and a ciphertext opens under the key
it was made with and no other. `#rotate` is asynchronous: between its awaits the
object can change, so a rotation in progress is a value of its own, and the
methods below are the stretches between two awaits.
-/

namespace TrapChat.Client

/-- An exported key encrypted under a key. -/
structure Sealed (Key : Type) where
  under : Key
  content : Key
  deriving DecidableEq

/-- Decryption under a key; `none` where the source throws. -/
def decrypt {Key : Type} [DecidableEq Key] (key : Option Key) (c : Sealed Key) : Option Key :=
  if key = some c.under then some c.content else none

/-- A `#rotate` call at one of its awaits. -/
inductive Rotation (Key : Type)
  | generating (oldKey : Key)
  | exporting (oldKey newKey : Key)
  deriving DecidableEq

structure KeyRotator (Key : Type) where
  currentKey : Option Key
  previousKey : Option Key
  /-- The rotation interval is running. -/
  timer : Bool
  /-- The grace period of the previous key is running. -/
  graceTimer : Bool
  rotations : Multiset (Rotation Key)

namespace KeyRotator

variable {Key : Type} [DecidableEq Key]

/-- The constructor. -/
def new : KeyRotator Key where
  currentKey := none
  previousKey := none
  timer := false
  graceTimer := false
  rotations := 0

def stop (r : KeyRotator Key) : KeyRotator Key := { r with timer := false, graceTimer := false }

def start (r : KeyRotator Key) (key : Key) : KeyRotator Key :=
  { r.stop with currentKey := some key, timer := true }

/-- Accepts a key that a peer rotated to. -/
def acceptKey (r : KeyRotator Key) (key : Key) : KeyRotator Key :=
  { r with previousKey := r.currentKey, currentKey := some key, graceTimer := true }

/-- The callback of the grace timer. -/
def graceExpired (r : KeyRotator Key) : KeyRotator Key :=
  { r with previousKey := none, graceTimer := false }

/-- `#rotate` up to the generation of the new key. -/
def rotate (r : KeyRotator Key) (oldKey : Key) : KeyRotator Key :=
  { r with previousKey := some oldKey, rotations := .generating oldKey ::ₘ r.rotations }

/-- From there to the export of the new key. -/
def generated (r : KeyRotator Key) (oldKey newKey : Key) : KeyRotator Key :=
  { r with
    currentKey := some newKey
    rotations := .exporting oldKey newKey ::ₘ r.rotations.erase (.generating oldKey) }

/-- The rest, after the call of `onRotate`. -/
def exported (r : KeyRotator Key) (oldKey newKey : Key) : KeyRotator Key :=
  { r with graceTimer := true, rotations := r.rotations.erase (.exporting oldKey newKey) }

end KeyRotator

end TrapChat.Client
