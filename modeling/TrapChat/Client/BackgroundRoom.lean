import TrapChat.Client.RoomPage
import TrapChat.Library.Overlap

/-!
The chat and the key rotations of a background room. The listener of `message` is
asynchronous and the emitter does not await it, so that the handlers of several
frames can be suspended at the same time, each with the key that it has read.

Decryption and `importKey` are the browser's; they are `none` where they throw. Of a
frame its type and its payload are kept, of a message its text and its kind.
-/

namespace TrapChat.Client

open Transition Overlap

/-- The browser's part: text under a key, and keys in their exported form. -/
structure RoomCipher where
  Key : Type
  decrypt : Key → String → Option JSString
  importKey : JSString → Option Key

/-- What the handlers of a background room read of the active one. -/
structure Foreground (Key : Type) where
  rotator : Option (KeyRotator Key)
  activeKeyRef : Option Key

structure TextMessage where
  text : JSString
  error : Bool := false
  system : Bool := false
  deriving DecidableEq

structure BackgroundRoom (Key : Type) where
  /-- The room's entry of `keyRefs`. -/
  roomKey : Option Key
  /-- The messages that the room shows. -/
  messages : List TextMessage
  /-- All the messages that have been appended to it. Nothing reads it. -/
  appended : List TextMessage
  deriving DecidableEq

inductive RoomFrameType
  | chat
  | key_rotation
  deriving DecidableEq

structure RoomFrame where
  type : RoomFrameType
  payload : String
  deriving DecidableEq

/-- The listener at one of its awaits: at the decryption of a chat message, the last
attempt or not; at that of a rotated key; at its import. -/
inductive Suspended (Key : Type)
  | decrypting (payload : String) (key : Option Key) (last : Bool)
  | opening (payload : String) (roomKey : Key)
  | importing (exportedNewKey : JSString)
  deriving DecidableEq

namespace BackgroundRoom

def MAX_TEXT_LENGTH : ℕ := 50000

def jsString (s : String) : JSString := codeUnits s.toList

def limitText (text : JSString) : JSString :=
  if MAX_TEXT_LENGTH < text.length then text.take MAX_TEXT_LENGTH ++ jsString "... [truncated]"
  else text

def keyMismatch : JSString := jsString "[encrypted message — key mismatch]"

/-- The message of `decryptAndAppendChat`, `none` if it could not decrypt. -/
def chatMessage (decrypted : Option JSString) : TextMessage :=
  let text := (decrypted.map limitText).getD keyMismatch
  { text, error := text = keyMismatch }

def keyRotatedByPeer : TextMessage :=
  { text := jsString "[key rotated by peer — encryption key updated]", system := true }

def keyRotationFailed : TextMessage :=
  { text := jsString "[key rotation failed — could not decrypt new key]", error := true }

section
variable {Key : Type}

/-- The last `MAX_MESSAGES`. -/
def limitMessages (messages : List TextMessage) : List TextMessage :=
  messages.drop (messages.length - MAX_MESSAGES)

def appendMessageToRoom (msg : TextMessage) (s : BackgroundRoom Key) : BackgroundRoom Key where
  roomKey := s.roomKey
  messages := limitMessages (s.messages ++ [msg])
  appended := s.appended ++ [msg]

def setKey (key : Key) (s : BackgroundRoom Key) : BackgroundRoom Key :=
  { s with roomKey := some key }

@[simp] theorem appendMessageToRoom_roomKey (msg : TextMessage) (s : BackgroundRoom Key) :
    (s.appendMessageToRoom msg).roomKey = s.roomKey := by
  rw [appendMessageToRoom]

@[simp] theorem appendMessageToRoom_appended (msg : TextMessage) (s : BackgroundRoom Key) :
    (s.appendMessageToRoom msg).appended = s.appended ++ [msg] := by
  rw [appendMessageToRoom]

@[simp] theorem setKey_roomKey (key : Key) (s : BackgroundRoom Key) :
    (s.setKey key).roomKey = some key := rfl

@[simp] theorem setKey_appended (key : Key) (s : BackgroundRoom Key) :
    (s.setKey key).appended = s.appended := rfl

end

section
variable (W : RoomCipher) (fg : Foreground W.Key)

def decryptWithRotation (payload : String) : Suspended W.Key :=
  match fg.rotator with
  | some r => .decrypting payload r.currentKey false
  | none => .decrypting payload fg.activeKeyRef true

def decryptAndAppendChat (roomKey : Option W.Key) (payload : String) : Suspended W.Key :=
  match roomKey with
  | some key => .decrypting payload (some key) true
  | none => decryptWithRotation W fg payload

/-- The listener up to its first await. Without a key there is none for a rotation. -/
def onMessage (s : BackgroundRoom W.Key) (data : RoomFrame) : Option (Suspended W.Key) :=
  match data.type with
  | .chat => some (decryptAndAppendChat W fg s.roomKey data.payload)
  | .key_rotation => s.roomKey.map (.opening data.payload)

/-- The end of an attempt to decrypt a chat message. -/
def attempted (payload : String) (decrypted : Option JSString) (last : Bool) :
    Suspended W.Key ⊕ (BackgroundRoom W.Key → BackgroundRoom W.Key) :=
  match decrypted, last, fg.rotator.bind KeyRotator.previousKey with
  | none, false, some previous => .inl (.decrypting payload (some previous) true)
  | decrypted, _, _ => .inr (appendMessageToRoom (chatMessage decrypted))

/-- A continuation of the listener. -/
def resume : Suspended W.Key → Suspended W.Key ⊕ (BackgroundRoom W.Key → BackgroundRoom W.Key)
  | .decrypting payload key last => attempted W fg payload (key.bind (W.decrypt · payload)) last
  | .opening payload roomKey =>
      match W.decrypt roomKey payload with
      | some exportedNewKey => .inl (.importing exportedNewKey)
      | none => .inr (appendMessageToRoom keyRotationFailed)
  | .importing exportedNewKey =>
      match W.importKey exportedNewKey with
      | some newKey => .inr fun s => (s.setKey newKey).appendMessageToRoom keyRotatedByPeer
      | none => .inr (appendMessageToRoom keyRotationFailed)

/-- The awaits that may follow the one the listener is at. -/
def awaits : Suspended W.Key → ℕ
  | .decrypting _ _ last => if last then 0 else 1
  | .opening _ _ => 1
  | .importing _ => 0

def listener : Handlers (BackgroundRoom W.Key) RoomFrame (Suspended W.Key) where
  start := onMessage W fg
  resume := resume W fg
  rank := awaits W
  rank_lt := by
    intro h h' hr
    cases h with
    | decrypting payload key last =>
        rw [resume] at hr
        unfold attempted at hr
        split at hr
        · cases hr
          simp [awaits]
        · cases hr
    | opening payload roomKey =>
        rw [resume] at hr
        split at hr
        · cases hr
          simp [awaits]
        · cases hr
    | importing exportedNewKey =>
        rw [resume] at hr
        split at hr
        · cases hr
        · cases hr

end

/-! ### What a handler does to the room -/

section
variable {W : RoomCipher} {fg : Foreground W.Key}

/-- The key that the handler will give to the room. -/
def newKey : Suspended W.Key → Option W.Key
  | .decrypting _ _ _ => none
  | .opening payload roomKey => (W.decrypt roomKey payload).bind W.importKey
  | .importing exportedNewKey => W.importKey exportedNewKey

/-- A handler that ends appends a message, and sets the key that it has brought. -/
theorem resume_ends {h : Suspended W.Key} {f : BackgroundRoom W.Key → BackgroundRoom W.Key}
    (hr : resume W fg h = .inr f) (s : BackgroundRoom W.Key) :
    (f s).roomKey = (newKey h).or s.roomKey ∧ ∃ msg, (f s).appended = s.appended ++ [msg] := by
  cases h with
  | decrypting payload key last =>
      rw [resume] at hr
      unfold attempted at hr
      split at hr
      · cases hr
      · cases hr
        exact ⟨by simp [newKey], _, appendMessageToRoom_appended _ _⟩
  | opening payload roomKey =>
      rw [resume] at hr
      split at hr
      · cases hr
      · next hfail =>
          cases hr
          exact ⟨by simp [newKey, hfail], _, appendMessageToRoom_appended _ _⟩
  | importing exportedNewKey =>
      rw [resume] at hr
      split at hr
      · next key hkey =>
          cases hr
          exact ⟨by simp [newKey, hkey], _, appendMessageToRoom_appended _ _⟩
      · next hfail =>
          cases hr
          exact ⟨by simp [newKey, hfail], _, appendMessageToRoom_appended _ _⟩

/-- A handler that is suspended again brings the same key. -/
theorem newKey_of_suspends {h h' : Suspended W.Key} (hr : resume W fg h = .inl h') :
    newKey h = newKey h' := by
  cases h with
  | decrypting payload key last =>
      rw [resume] at hr
      unfold attempted at hr
      split at hr
      · cases hr
        rfl
      · cases hr
  | opening payload roomKey =>
      rw [resume] at hr
      split at hr
      · next exportedNewKey hopen =>
          cases hr
          simp [newKey, hopen]
      · cases hr
  | importing exportedNewKey =>
      rw [resume] at hr
      split at hr
      · cases hr
      · cases hr

theorem finish_listener (h : Suspended W.Key) (s : BackgroundRoom W.Key) :
    ((listener W fg).finish h s).roomKey = (newKey h).or s.roomKey ∧
      ∃ msg, ((listener W fg).finish h s).appended = s.appended ++ [msg] := by
  revert s
  apply (listener W fg).finish_induction
    (P := fun h f => ∀ s, (f s).roomKey = (newKey h).or s.roomKey ∧
      ∃ msg, (f s).appended = s.appended ++ [msg])
  · intro h f hr s
    exact resume_ends hr s
  · intro h h' f hr hf s
    rw [newKey_of_suspends hr]
    exact hf s

/-! ### Frames in turn -/

abbrev Listening (W : RoomCipher) := State (BackgroundRoom W.Key) RoomFrame (Suspended W.Key)

/-- The key that the room will have once the suspended handlers have ended in their order. -/
def keyToBe (s : Listening W) : Option W.Key :=
  s.suspended.foldl (fun key h => (newKey h).or key) s.shared.roomKey

/-- A frame is taken when the suspended handlers will leave the room the key it has, and a
handler that ends is the oldest. -/
def InTurn (W : RoomCipher) (fg : Foreground W.Key) (s : Listening W) : Action RoomFrame → Prop
  | .take _ => keyToBe s = s.shared.roomKey
  | .resume n => n = 0 ∨ ∀ h ∈ s.suspended[n]?, (resume W fg h).isLeft = true

instance [DecidableEq W.Key] (s : Listening W) (a : Action RoomFrame) :
    Decidable (InTurn W fg s a) :=
  match a with
  | .take _ => inferInstanceAs (Decidable (_ = _))
  | .resume _ => inferInstanceAs (Decidable (_ ∨ _))

/-- `keyToBe` is the key of the settled room, and what a room shows only grows. -/
theorem settled_listener (s : Listening W) :
    (s.settled (listener W fg)).roomKey = keyToBe s ∧
      s.shared.appended <+: (s.settled (listener W fg)).appended := by
  obtain ⟨x, handlers, taken⟩ := s
  simp only [State.settled, keyToBe]
  induction handlers generalizing x with
  | nil => exact ⟨rfl, List.prefix_rfl⟩
  | cons h handlers ih =>
      obtain ⟨hkey, msg, happended⟩ := @finish_listener W fg h x
      obtain ⟨hfold, hprefix⟩ := ih ((listener W fg).finish h x)
      rw [List.foldl_cons, List.foldl_cons, hfold, hkey]
      refine ⟨rfl, List.IsPrefix.trans ?_ hprefix⟩
      rw [happended]
      exact List.prefix_append _ _

/-- The listener reads nothing of the room but its key. -/
theorem onMessage_congr {x y : BackgroundRoom W.Key} (h : x.roomKey = y.roomKey)
    (data : RoomFrame) : onMessage W fg x data = onMessage W fg y data := by
  unfold onMessage
  rw [h]

theorem inOrder_of_inTurn {s : Listening W} {a : Action RoomFrame} (h : InTurn W fg s a) :
    InOrder (listener W fg) s a := by
  cases a with
  | take data => exact onMessage_congr (h.symm.trans (settled_listener s).1.symm) data
  | resume n => exact h

/-- The room is as if each of the frames taken had been handled to its end before the next:
the messages so far are the first of that order, and all of them once no handler is
suspended, and each handler started with the key of that order. -/
structure AsSequential (W : RoomCipher) (fg : Foreground W.Key) (x : BackgroundRoom W.Key)
    (s : Listening W) : Prop where
  appended : s.shared.appended <+: ((listener W fg).sequential x s.events).appended
  complete : s.suspended = [] → s.shared = (listener W fg).sequential x s.events
  started : s.taken = (listener W fg).starts x s.events

/-- **Asynchronous handling refines sequential handling.** In every run in which no frame is
taken while a suspended handler is to change the room's key, and no handler ends before an
older one. -/
theorem asSequential_of_reachable (fg : Foreground W.Key) {x : BackgroundRoom W.Key}
    {s : Listening W}
    (hs : ReachableVia (step (listener W fg)) (InTurn W fg) (State.new x) s) :
    AsSequential W fg x s := by
  have hrefines : Refines (listener W fg) x s :=
    refines_of_reachable (hs.mono fun _ _ => inOrder_of_inTurn)
  constructor
  · rw [← hrefines.settled]
    exact (settled_listener s).2
  · intro hnone
    rw [← hrefines.settled, settled_of_suspended_nil hnone]
  · exact hrefines.taken

/-- With a key in the room, a handler tells which key it has been started with. -/
theorem onMessage_injective {x y : BackgroundRoom W.Key} {data : RoomFrame}
    (hx : x.roomKey.isSome = true) (hy : y.roomKey.isSome = true)
    (h : onMessage W fg x data = onMessage W fg y data) : x.roomKey = y.roomKey := by
  obtain ⟨key, hkey⟩ := Option.isSome_iff_exists.mp hx
  obtain ⟨key', hkey'⟩ := Option.isSome_iff_exists.mp hy
  obtain ⟨type, payload⟩ := data
  rw [hkey, hkey']
  cases type with
  | chat =>
      simp only [onMessage, hkey, hkey', decryptAndAppendChat] at h
      cases h
      rfl
  | key_rotation =>
      simp only [onMessage, hkey, hkey', Option.map_some] at h
      cases h
      rfl

theorem keyToBe_isSome {s : Listening W} (h : s.shared.roomKey.isSome = true) :
    (keyToBe s).isSome = true := by
  obtain ⟨x, handlers, taken⟩ := s
  simp only [keyToBe] at h ⊢
  generalize x.roomKey = key at h ⊢
  induction handlers generalizing key with
  | nil => exact h
  | cons handler handlers ih =>
      apply ih
      rw [Option.isSome_or, h, Bool.or_true]

/-- The condition on a frame is exact: the handler starts as in the sequential order if and
only if the suspended handlers will leave the room the key it has. -/
theorem starts_asSequential_iff {x : BackgroundRoom W.Key} {s : Listening W}
    (hkey : s.shared.roomKey.isSome = true) (hs : Refines (listener W fg) x s)
    (data : RoomFrame) :
    (s.take (listener W fg) data).taken =
        (listener W fg).starts x (s.take (listener W fg) data).events ↔
      keyToBe s = s.shared.roomKey := by
  have hevents : (s.take (listener W fg) data).events = s.events ++ [data] := by
    simp [State.events, State.take]
  rw [hevents, Handlers.starts_concat, ← hs.settled, ← hs.taken]
  simp only [State.take, List.append_cancel_left_eq, List.cons.injEq, Prod.mk.injEq, true_and,
    and_true]
  constructor
  · intro h
    rw [← (@settled_listener W fg s).1]
    refine (onMessage_injective hkey ?_ h).symm
    rw [(settled_listener s).1]
    exact keyToBe_isSome hkey
  · intro h
    exact onMessage_congr (h.symm.trans (settled_listener s).1.symm) data

end

/-! ### A cipher of one character -/

/-- The first code unit of a ciphertext is the key, and so is an exported key. -/
def oneCharacter : RoomCipher where
  Key := UInt16
  decrypt key payload :=
    match jsString payload with
    | [] => none
    | unit :: text => if unit = key then some text else none
  importKey
    | [unit] => some unit
    | _ => none

instance : DecidableEq oneCharacter.Key := inferInstanceAs (DecidableEq UInt16)

def noForeground : Foreground oneCharacter.Key := ⟨none, none⟩

def roomUnderA : BackgroundRoom oneCharacter.Key := ⟨some (97 : UInt16), [], []⟩

/-- The key `b` under the key `a`, and a chat message under `b`. -/
def rotationThenChat : List (Action RoomFrame) :=
  [.take ⟨.key_rotation, "ab"⟩, .take ⟨.chat, "bhi"⟩, .resume 0, .resume 0, .resume 0]

def chatsSwapped : List (Action RoomFrame) :=
  [.take ⟨.chat, "ahi"⟩, .take ⟨.chat, "aho"⟩, .resume 1, .resume 0]

/-- **A chat message overtakes the rotation that came before it.** It is decrypted with the
key that the rotation replaces, and two chat messages are appended in the order in which
their decryptions end. -/
theorem chat_overtakes_rotation :
    (∃ s : Listening oneCharacter,
      Reachable (step (listener oneCharacter noForeground)) (State.new roomUnderA) s ∧
        s.suspended = [] ∧ s.shared.appended = [keyRotatedByPeer, chatMessage none] ∧
        s.shared.appended ≠
          ((listener oneCharacter noForeground).sequential roomUnderA s.events).appended) ∧
    ∃ s : Listening oneCharacter,
      Reachable (step (listener oneCharacter noForeground)) (State.new roomUnderA) s ∧
        s.suspended = [] ∧
        s.shared.appended ≠
          ((listener oneCharacter noForeground).sequential roomUnderA s.events).appended := by
  constructor
  · exact ⟨(exec _ _ rotationThenChat).get (by decide +kernel), reachable_get _, by decide +kernel⟩
  · exact ⟨(exec _ _ chatsSwapped).get (by decide +kernel), reachable_get _, by decide +kernel⟩

/-- Two chat messages at the same time, then a rotation, then a chat message under the new
key. -/
def chatsThenRotation : List (Action RoomFrame) :=
  [.take ⟨.chat, "ahi"⟩, .take ⟨.chat, "aho"⟩, .resume 0, .take ⟨.key_rotation, "ab"⟩, .resume 1,
    .resume 0, .resume 0, .take ⟨.chat, "bhi"⟩, .resume 0]

theorem asSequential_chatsThenRotation :
    ∃ s : Listening oneCharacter, s.events.length = 4 ∧ s.suspended = [] ∧
      AsSequential oneCharacter noForeground roomUnderA s :=
  ⟨(execVia (step (listener oneCharacter noForeground)) (InTurn oneCharacter noForeground)
      (State.new roomUnderA) chatsThenRotation).get (by decide +kernel),
    by decide +kernel, by decide +kernel, asSequential_of_reachable noForeground (reachableVia_get _)⟩

end BackgroundRoom

end TrapChat.Client
