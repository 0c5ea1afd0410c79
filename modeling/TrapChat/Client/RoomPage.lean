import TrapChat.Client.KeyRotator
import TrapChat.Client.Media
import TrapChat.Storage.Store

/-!
The rooms of the page and the places that hold a room's key: the map `keyRefs`,
the reference `activeKeyRef` and the `KeyRotator`.

React renders after a change of `rooms` or `activeRoom`, and its effects copy
values into references then: a render is a step of its own. What a handler closes
over is fixed when the handlers are installed, which is with the first join. The
stretches of a handler between its awaits are steps, and `tasks` are the handlers
that are suspended. Rooms are joined and not left here.

Of a message only its text and its kind are kept. A key that a link brought is not
distinguished from its text.
-/

namespace TrapChat.Client

open Storage

structure MediaContent where
  url : ℕ
  mimeType : String
  fileName : Option JSString
  fileSize : Option ℤ
  deriving DecidableEq

structure RoomMessage where
  text : String := ""
  error : Bool := false
  system : Bool := false
  media : Option MediaContent := none
  deriving DecidableEq

structure RoomState where
  messages : List RoomMessage
  unreadCount : ℕ
  deriving DecidableEq

def defaultRoomState : RoomState := ⟨[], 0⟩

/-- A handler at one of its awaits. `decrypting` is at an attempt of the rotator's
`decrypt`, its last one or not; `opening` and `replacing` are for a background
room. -/
inductive RoomTask (Key : Type)
  | keying (room : RoomName) (first : Bool)
  | connecting (room : RoomName) (first : Bool)
  | generating (oldKey : Option Key)
  | exporting (oldKey : Option Key) (newKey : Key)
  | broadcasting (oldKey : Option Key) (newKey : Key)
  | decrypting (room : RoomName) (payload : Sealed Key) (key : Option Key) (last : Bool)
  | importing (room : RoomName) (newKey : Key)
  | opening (room : RoomName) (payload : Sealed Key) (roomKey : Key)
  | replacing (room : RoomName) (newKey : Key)
  deriving DecidableEq

structure RoomPage (Key : Type) where
  rooms : Finmap fun _ : RoomName => RoomState
  activeRoom : RoomName
  /-- `rooms` or `activeRoom` has changed since the last render. -/
  dirty : Bool
  /-- The rooms of the last render. -/
  renderedRooms : Finset RoomName
  activeRoomRef : RoomName
  keyRefs : RoomName → Option Key
  activeKeyRef : Option Key
  rotator : Option (KeyRotator Key)
  /-- The active room that the installed handlers close over. -/
  installed : Option RoomName
  tasks : List (RoomTask Key)
  /-- The key rotations that have been sent. -/
  sent : List (RoomName × Sealed Key)
  /-- The rooms whose key the rotator has changed. Nothing reads it. -/
  rotated : Finset RoomName

def MAX_MESSAGES : ℕ := 500
def MAX_ROOM_NAME_LEN : ℕ := 64
def MAX_JOINED : ℕ := 5

/-- A rotator that is started, with no key if there is none yet. -/
def KeyRotator.startWith {Key : Type} : Option Key → KeyRotator Key
  | some key => KeyRotator.new.start key
  | none => { KeyRotator.new.stop with timer := true }

namespace RoomPage

variable {Key : Type}

def new : RoomPage Key where
  rooms := ∅
  activeRoom := ""
  dirty := false
  renderedRooms := ∅
  activeRoomRef := ""
  keyRefs := fun _ => none
  activeKeyRef := none
  rotator := none
  installed := none
  tasks := []
  sent := []
  rotated := ∅

/-- The list holds the last `MAX_MESSAGES`. -/
def appendMessage (s : RoomState) (msg : RoomMessage) (active : Bool) : RoomState where
  messages := (s.messages ++ [msg]).drop (s.messages.length + 1 - MAX_MESSAGES)
  unreadCount := if active then s.unreadCount else s.unreadCount + 1

def appendMessageToRoom (room : RoomName) (msg : RoomMessage) (s : RoomPage Key) : RoomPage Key :=
  match s.rooms.lookup room with
  | none => s
  | some current =>
      { s with
        rooms := s.rooms.insert room (appendMessage current msg (room = s.activeRoomRef))
        dirty := true }

def updateRoomState (room : RoomName) (f : RoomState → RoomState) (s : RoomPage Key) :
    RoomPage Key :=
  { s with
    rooms := s.rooms.insert room (f ((s.rooms.lookup room).getD defaultRoomState))
    dirty := true }

def setActiveRoom (room : RoomName) (s : RoomPage Key) : RoomPage Key :=
  { s with activeRoom := room, dirty := true }

/-- A message of a handler that closes over the active room. -/
def appendClosed (msg : RoomMessage) (s : RoomPage Key) : RoomPage Key :=
  match s.installed with
  | none => s
  | some room => s.appendMessageToRoom room msg

/-- The effects that depend on `activeRoom` and `rooms`. -/
def render (s : RoomPage Key) : RoomPage Key :=
  { s with
    dirty := false
    renderedRooms := s.rooms.keys
    activeRoomRef := s.activeRoom
    activeKeyRef := s.keyRefs s.activeRoom }

def setKey (room : RoomName) (key : Key) (s : RoomPage Key) : RoomPage Key :=
  { s with keyRefs := Function.update s.keyRefs room (some key) }

def switchRoom (room : RoomName) (s : RoomPage Key) : RoomPage Key :=
  let s := (s.setActiveRoom room).updateRoomState room fun r => { r with unreadCount := 0 }
  { s with activeKeyRef := s.keyRefs room }

/-- The latest version of the handlers is the one of the last render. -/
def setupGlobalHandlers (s : RoomPage Key) : RoomPage Key :=
  { s with
    installed := some s.activeRoomRef
    rotator := some (.startWith s.activeKeyRef) }

/-- The checks of `handleJoinRoom`. -/
def refusesJoin (room : RoomName) (s : RoomPage Key) : Prop :=
  room = "" ∨ MAX_ROOM_NAME_LEN < (codeUnits room.toList).length ∨
    MAX_JOINED ≤ s.renderedRooms.card ∧ room ∉ s.renderedRooms

instance (room : RoomName) (s : RoomPage Key) : Decidable (s.refusesJoin room) := by
  unfold refusesJoin
  infer_instance

/-- `handleJoinRoom` up to the await of `setupRoomKey`. -/
def submit (room : RoomName) (s : RoomPage Key) : RoomPage Key :=
  if s.refusesJoin room then s
  else { s with tasks := s.tasks ++ [.keying room (s.renderedRooms = ∅)] }

/-- The end of `handleJoinRoom`, once the socket is open. -/
def joined (room : RoomName) (first : Bool) (s : RoomPage Key) : RoomPage Key :=
  let s := s.updateRoomState room id
  let s := if first = true ∧ s.installed = none then s.setupGlobalHandlers else s
  s.setActiveRoom room

/-- A presence message has brought another salt, and the key is derived again. -/
def rederived (room : RoomName) (key : Key) (s : RoomPage Key) : RoomPage Key :=
  { s.setKey room key with
    activeKeyRef := if room = s.activeRoomRef then some key else s.activeKeyRef
    dirty := s.dirty || (s.rooms.lookup room).isSome }

def withRotator (f : KeyRotator Key → KeyRotator Key) (s : RoomPage Key) : RoomPage Key :=
  { s with rotator := s.rotator.map f }

/-- The key that the rotator encrypts with. -/
def rotatorKey (s : RoomPage Key) : Option Key := s.rotator.bind KeyRotator.currentKey

/-- The callback of the rotation interval, up to the generation of a key. -/
def rotate (r : KeyRotator Key) (s : RoomPage Key) : RoomPage Key :=
  { s with
    rotator := some { r with previousKey := r.currentKey }
    tasks := s.tasks ++ [.generating r.currentKey] }

/-- `onRotate` up to its await, and the rest of the rotation. -/
def onRotate (s : RoomPage Key) : RoomPage Key :=
  let s := { s with activeKeyRef := s.rotatorKey, rotated := insert s.activeRoomRef s.rotated }
  s.withRotator fun r => { r with graceTimer := true }

def keyRotated : RoomMessage := { text := "[key rotated — encryption key updated]", system := true }

def keyRotatedByPeer : RoomMessage :=
  { text := "[key rotated by peer — encryption key updated]", system := true }

def keyRotationFailed : RoomMessage :=
  { text := "[key rotation failed — could not decrypt new key]", error := true }

/-- The end of `onRotate`. Nothing is encrypted, and nothing sent, under no key. -/
def broadcast (oldKey : Option Key) (newKey : Key) (s : RoomPage Key) : RoomPage Key :=
  let s : RoomPage Key :=
    match oldKey, s.installed with
    | some key, some room =>
        { s with sent := s.sent ++ [(room, ⟨key, newKey⟩)] }
    | _, _ => s
  s.appendClosed keyRotated

/-- A `key_rotation` message, up to the first await of its handler. -/
def keyRotation (room : RoomName) (payload : Sealed Key) (s : RoomPage Key) : RoomPage Key :=
  if room = s.activeRoomRef then
    match s.rotator with
    | some r => { s with tasks := s.tasks ++ [.decrypting room payload r.currentKey false] }
    | none => { s with tasks := s.tasks ++ [.decrypting room payload s.activeKeyRef true] }
  else
    match s.keyRefs room with
    | some roomKey => { s with tasks := s.tasks ++ [.opening room payload roomKey] }
    | none => s

/-- The end of `handleKeyRotationMessage`. -/
def accepted (room : RoomName) (newKey : Key) (s : RoomPage Key) : RoomPage Key :=
  let s := { s with activeKeyRef := some newKey, rotated := insert room s.rotated }
  (s.withRotator fun r => r.acceptKey newKey).appendClosed keyRotatedByPeer

/-- The same for a background room. -/
def replaced (room : RoomName) (newKey : Key) (s : RoomPage Key) : RoomPage Key :=
  (s.setKey room newKey).appendMessageToRoom room keyRotatedByPeer

variable [DecidableEq Key]

/-- A decryption is done. -/
def decrypted (s : RoomPage Key) : RoomTask Key → Option (RoomPage Key)
  | .decrypting room payload key last =>
      match decrypt key payload, last, s.rotator.bind KeyRotator.previousKey with
      | some newKey, _, _ => some { s with tasks := s.tasks ++ [.importing room newKey] }
      | none, false, some previous =>
          some { s with tasks := s.tasks ++ [.decrypting room payload (some previous) true] }
      | none, _, _ => some (s.appendClosed keyRotationFailed)
  | .opening room payload roomKey =>
      match decrypt (some roomKey) payload with
      | some newKey => some { s with tasks := s.tasks ++ [.replacing room newKey] }
      | none => some (s.appendMessageToRoom room keyRotationFailed)
  | _ => none

end RoomPage

/-- A step of a suspended handler names it by its place in `tasks`. -/
inductive RoomAction (Key : Type)
  | submit (room : RoomName)
  | keyed (task : ℕ) (key : Option Key)
  | connected (task : ℕ)
  | failed (task : ℕ)
  | switchRoom (room : RoomName)
  | rederived (room : RoomName) (key : Key)
  | rotationTimer
  | generated (task : ℕ) (key : Key)
  | exported (task : ℕ)
  | broadcast (task : ℕ)
  | graceExpired
  | keyRotation (room : RoomName) (payload : Sealed Key)
  | decrypted (task : ℕ)
  | imported (task : ℕ)
  | append (room : RoomName) (msg : RoomMessage)
  | render

namespace RoomPage

variable {Key : Type} [DecidableEq Key]

def dropTask (n : ℕ) (s : RoomPage Key) : RoomPage Key := { s with tasks := s.tasks.eraseIdx n }

def addTask (task : RoomTask Key) (s : RoomPage Key) : RoomPage Key :=
  { s with tasks := s.tasks ++ [task] }

/-- The end of `setupRoomKey`, with the key that it has made or imported. -/
def keyed (room : RoomName) (first : Bool) (key : Option Key) (s : RoomPage Key) :
    Option (RoomPage Key) :=
  match key with
  | some key => some ((s.setKey room key).addTask (.connecting room first))
  | none =>
      if (s.keyRefs room).isSome then some (s.addTask (.connecting room first)) else none

/-- What the suspended handler does next. -/
def resume (s : RoomPage Key) : RoomAction Key → RoomTask Key → Option (RoomPage Key)
  | .keyed _ key, .keying room first => s.keyed room first key
  | .connected _, .connecting room first => some (s.joined room first)
  | .failed _, .keying _ _ => some s
  | .failed _, .connecting _ _ => some s
  | .generated _ key, .generating oldKey =>
      some ((s.withRotator fun r => { r with currentKey := some key }).addTask
        (.exporting oldKey key))
  | .exported _, .exporting oldKey newKey => some (s.onRotate.addTask (.broadcasting oldKey newKey))
  | .broadcast _, .broadcasting oldKey newKey => some (s.broadcast oldKey newKey)
  | .decrypted _, task => s.decrypted task
  | .imported _, .importing room newKey => some (s.accepted room newKey)
  | .imported _, .replacing room newKey => some (s.replaced room newKey)
  | _, _ => none

def resumeAt (s : RoomPage Key) (a : RoomAction Key) (n : ℕ) : Option (RoomPage Key) :=
  s.tasks[n]?.bind ((s.dropTask n).resume a)

def step (s : RoomPage Key) : RoomAction Key → Option (RoomPage Key)
  | .submit room => some (s.submit room)
  | .switchRoom room => if room ∈ s.renderedRooms then some (s.switchRoom room) else none
  | .rederived room key => if room = "" then none else some (s.rederived room key)
  | .rotationTimer =>
      match s.rotator with
      | some r => if r.timer = true then some (s.rotate r) else none
      | none => none
  | .graceExpired =>
      match s.rotator with
      | some r => if r.graceTimer = true then some (s.withRotator KeyRotator.graceExpired) else none
      | none => none
  | .keyRotation room payload =>
      if s.installed = none ∨ room = "" then none else some (s.keyRotation room payload)
  | .append room msg => some (s.appendMessageToRoom room msg)
  | .render => if s.dirty = true then some s.render else none
  | .keyed n key => s.resumeAt (.keyed n key) n
  | .connected n => s.resumeAt (.connected n) n
  | .failed n => s.resumeAt (.failed n) n
  | .generated n key => s.resumeAt (.generated n key) n
  | .exported n => s.resumeAt (.exported n) n
  | .broadcast n => s.resumeAt (.broadcast n) n
  | .decrypted n => s.resumeAt (.decrypted n) n
  | .imported n => s.resumeAt (.imported n) n

end RoomPage

end TrapChat.Client
