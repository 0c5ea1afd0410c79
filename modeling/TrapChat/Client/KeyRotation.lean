import TrapChat.Client.KeyRotator

/-!
Key rotation in a room: peers that each run a `KeyRotator` and the callbacks of
`useKeyRotation` around it. A peer announces a rotated key to every other one
over channels that keep the order of each sender, and handles each announcement
once, an announcement of one sender after the other.

Callbacks are asynchronous. `announcing` holds the `onRotate` calls that wait
for their encryption, and `handling` the message handler at work on a sender's
announcement. Every action is one stretch between two awaits, of one peer.
-/

namespace TrapChat.Client

/-- `handleKeyRotationMessage` at one of its awaits: the first decryption, under
the key that was current when it started, the second one, under the previous
key, or the import of the new key. -/
inductive Handling (Key : Type)
  | decrypting (msg : Sealed Key) (key : Option Key)
  | retrying (msg : Sealed Key) (key : Key)
  | importing (msg : Sealed Key)
  deriving DecidableEq

structure Peer (ι Key : Type) where
  rotator : KeyRotator Key
  keyRef : Option Key
  announcing : Multiset (Sealed Key)
  handling : ι → Option (Handling Key)

structure Room (ι Key : Type) where
  peers : ι → Peer ι Key
  /-- The announcements on their way, by sender and receiver. -/
  channel : ι → ι → List (Sealed Key)

namespace KeyRotation

variable {ι Key : Type} [DecidableEq ι] [DecidableEq Key]

/-- `startRotation` at every peer, with the same key. -/
def startAll (key : Key) : Room ι Key where
  peers := fun _ =>
    { rotator := KeyRotator.new.start key, keyRef := some key, announcing := 0,
      handling := fun _ => none }
  channel := fun _ _ => []

def setPeer (s : Room ι Key) (i : ι) (p : Peer ι Key) : Room ι Key :=
  { s with peers := Function.update s.peers i p }

def setRotator (s : Room ι Key) (i : ι) (r : KeyRotator Key) : Room ι Key :=
  setPeer s i { s.peers i with rotator := r }

def setHandling (s : Room ι Key) (i j : ι) (h : Option (Handling Key)) : Room ι Key :=
  setPeer s i { s.peers i with handling := Function.update (s.peers i).handling j h }

/-- The synchronous part of `onRotate`, which reads the current key anew. -/
def onRotate (p : Peer ι Key) (oldKey exportedKey : Key) : Peer ι Key :=
  { p with
    keyRef := p.rotator.currentKey
    announcing := ⟨oldKey, exportedKey⟩ ::ₘ p.announcing }

/-- The end of `handleKeyRotationMessage`. -/
def install (p : Peer ι Key) (newKey : Key) : Peer ι Key :=
  { p with keyRef := some newKey, rotator := p.rotator.acceptKey newKey }

def broadcast (s : Room ι Key) (i : ι) (msg : Sealed Key) : Room ι Key :=
  { s with channel := fun a b => if a = i ∧ b ≠ i then s.channel a b ++ [msg] else s.channel a b }

inductive Action (ι Key : Type)
  | fire (i : ι)
  | generated (i : ι) (oldKey newKey : Key)
  | exported (i : ι) (oldKey newKey : Key)
  | encrypted (i : ι) (msg : Sealed Key)
  | receive (i j : ι)
  | decrypted (i j : ι)
  | retried (i j : ι)
  | accept (i j : ι)
  | graceExpired (i : ι)

/-- One stretch between two awaits. A rotation that has its new key goes on with
`exported`, where `onRotate` is called, and then `encrypted`, where the message
is sent. -/
def step (s : Room ι Key) : Action ι Key → Option (Room ι Key)
  | .fire i =>
    match (s.peers i).rotator.currentKey with
    | some oldKey =>
      if (s.peers i).rotator.timer = true then
        some (setRotator s i ((s.peers i).rotator.rotate oldKey))
      else none
    | none => none
  | .generated i oldKey newKey =>
    if .generating oldKey ∈ (s.peers i).rotator.rotations then
      some (setRotator s i ((s.peers i).rotator.generated oldKey newKey))
    else none
  | .exported i oldKey newKey =>
    if .exporting oldKey newKey ∈ (s.peers i).rotator.rotations then
      let p := onRotate (s.peers i) oldKey newKey
      some (setPeer s i { p with rotator := p.rotator.exported oldKey newKey })
    else none
  | .encrypted i msg =>
    if msg ∈ (s.peers i).announcing then
      let p := s.peers i
      some (broadcast (setPeer s i { p with announcing := p.announcing.erase msg }) i msg)
    else none
  | .receive i j =>
    match s.channel j i, (s.peers i).handling j with
    | msg :: rest, none =>
      let s' := { s with channel := fun a b => if a = j ∧ b = i then rest else s.channel a b }
      some (setHandling s' i j (some (.decrypting msg (s.peers i).rotator.currentKey)))
    | _, _ => none
  | .decrypted i j =>
    match (s.peers i).handling j with
    | some (.decrypting msg key) =>
      match decrypt key msg, (s.peers i).rotator.previousKey with
      | some _, _ => some (setHandling s i j (some (.importing msg)))
      | none, some previousKey => some (setHandling s i j (some (.retrying msg previousKey)))
      | none, none => some (setHandling s i j none)
    | _ => none
  | .retried i j =>
    match (s.peers i).handling j with
    | some (.retrying msg key) =>
      match decrypt (some key) msg with
      | some _ => some (setHandling s i j (some (.importing msg)))
      | none => some (setHandling s i j none)
    | _ => none
  | .accept i j =>
    match (s.peers i).handling j with
    | some (.importing msg) =>
      let s' := setHandling s i j none
      some (setPeer s' i (install (s'.peers i) msg.content))
    | _ => none
  | .graceExpired i =>
    if (s.peers i).rotator.graceTimer = true then
      some (setRotator s i (s.peers i).rotator.graceExpired)
    else none

/-- No rotation is running and no announcement is under way. -/
structure Idle (s : Room ι Key) : Prop where
  rotations : ∀ i, (s.peers i).rotator.rotations = 0
  announcing : ∀ i, (s.peers i).announcing = 0
  channel : ∀ i j, s.channel i j = []
  handling : ∀ i j, (s.peers i).handling j = none

end KeyRotation

end TrapChat.Client
