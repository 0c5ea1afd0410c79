import TrapChat.Client.ShareLink
import TrapChat.Gateway.Handler

/-!
The keys of a client's rooms: the maps `keyRefs`, `saltRefs` and
`passphraseRefs`, what joining, leaving and a presence message do to them, and
the joins that the socket client remembers for a reconnect.

A key is computed asynchronously. `tasks` are the computations that have been
started and not finished, oldest first; what follows the `await` happens when the
task is completed. A derived key is known by what it is derived from.
-/

namespace TrapChat.Client

open Storage Protocol

inductive RoomKey
  | derived (room : RoomName) (passphrase : String) (salt : List UInt8)
  | raw (key : AesKey)
  deriving DecidableEq

/-- What `keyRefs` holds for a room: the text of a link's key until it is imported. -/
inductive KeyEntry
  | fragment (text : String)
  | key (key : RoomKey)
  deriving DecidableEq

/-- What the join form is submitted with, the passphrase apart. -/
structure JoinForm where
  room : RoomName
  nickname : String
  ttlSeconds : ℤ
  deriving DecidableEq

inductive KeyTask
  | importLink (form : JoinForm) (text : String)
  | derive (form : JoinForm) (passphrase : String) (salt : List UInt8)
  | generate (form : JoinForm) (key : AesKey)
  | rederive (room : RoomName) (passphrase : String) (salt : List UInt8)
  deriving DecidableEq

def KeyTask.room : KeyTask → RoomName
  | .importLink form _ | .derive form _ _ | .generate form _ => form.room
  | .rederive room _ _ => room

/-- The task of a join, which is sent after it. -/
def KeyTask.joins : KeyTask → Bool
  | .rederive _ _ _ => false
  | _ => true

/-- The key that a task computes. Deriving needs a salt of 32 bytes and importing
the text of a key; else the promise is rejected. -/
def KeyTask.key : KeyTask → Option RoomKey
  | .importLink _ text => (importKey text).map .raw
  | .derive form passphrase salt =>
    if salt.length = 32 then some (.derived form.room passphrase salt) else none
  | .generate _ key => some (.raw key)
  | .rederive room passphrase salt =>
    if salt.length = 32 then some (.derived room passphrase salt) else none

/-- A client's message about its membership, its payload read. -/
inductive Frame
  | join (room : RoomName) (jp : JoinPayload)
  | leave (room : RoomName)
  deriving DecidableEq

structure App where
  keyRefs : RoomName → Option KeyEntry
  saltRefs : RoomName → Option (List UInt8)
  passphraseRefs : RoomName → Option String
  rooms : Finset RoomName
  tasks : List KeyTask
  /-- Joins whose key is there and which have not been sent. -/
  ready : List JoinForm
  /-- The socket client's joins, in the order of its map. -/
  joinedRooms : List (RoomName × JoinPayload)
  /-- The open connection. -/
  conn : Option PeerID
  /-- The passphrase a room was last entered with. Nothing reads it. -/
  entered : RoomName → Option String

/-- The app of a page that was opened, with the entry of its link if there is one. -/
def App.open (fragment : Option (RoomName × String)) : App where
  keyRefs := fun room => (fragment.filter (·.1 = room)).map fun f => .fragment f.2
  saltRefs := fun _ => none
  passphraseRefs := fun _ => none
  rooms := ∅
  tasks := []
  ready := []
  joinedRooms := []
  conn := none
  entered := fun _ => none

def maxJoinedRooms : ℕ := 5

/-- The white space of `String.prototype.trim`. -/
def isWhite (c : Char) : Bool := (Gateway.isSpace c && c.toNat ≠ 0x85) || c.toNat = 0xFEFF

/-- `!passphrase.trim()` -/
def blank (passphrase : String) : Bool := passphrase.toList.all isWhite

namespace App

/-- `setupRoomKey`, up to its `await`. `salt` are its 32 random bytes and
`generated` the key that it generates when it needs neither. -/
def setupRoomKey (a : App) (form : JoinForm) (passphrase : String) (salt : List UInt8)
    (generated : AesKey) : App :=
  match a.keyRefs form.room with
  | some (.fragment text) =>
    { a with
      tasks := a.tasks ++ [.importLink form text]
      entered := Function.update a.entered form.room none }
  | entry =>
    if blank passphrase = false then
      { a with
        saltRefs := Function.update a.saltRefs form.room (some salt)
        passphraseRefs := Function.update a.passphraseRefs form.room (some passphrase)
        tasks := a.tasks ++ [.derive form passphrase salt]
        entered := Function.update a.entered form.room (some passphrase) }
    else if entry = none then
      { a with
        tasks := a.tasks ++ [.generate form generated]
        entered := Function.update a.entered form.room none }
    else { a with ready := a.ready ++ [form] }

def setKey (a : App) (room : RoomName) (key : RoomKey) : App :=
  { a with keyRefs := Function.update a.keyRefs room (some (.key key)) }

/-- What follows the `await` of a task, with the key it has computed. -/
def settle (a : App) (key : RoomKey) : KeyTask → App
  | .importLink form _ | .derive form _ _ | .generate form _ =>
    { a.setKey form.room key with ready := a.ready ++ [form] }
  | .rederive room _ _ =>
    { a.setKey room key with passphraseRefs := Function.update a.passphraseRefs room none }

/-- A task is completed. -/
def complete (a : App) (i : ℕ) : Option App :=
  a.tasks[i]?.map fun task =>
    let a := { a with tasks := a.tasks.eraseIdx i }
    match task.key with
    | none => a
    | some key => a.settle key task

/-- The key handling of a presence message. A salt that is not the room's cached
one makes the client derive the key again, if it still has the passphrase. -/
def presence (a : App) (room : RoomName) (salt : String) : App :=
  if salt = "" then a
  else
    match Base64.decodeForgiving salt with
    | none => a
    | some serverSalt =>
      if a.saltRefs room = some serverSalt then a
      else
        match a.passphraseRefs room with
        | none => a
        | some passphrase =>
          { a with
            saltRefs := Function.update a.saltRefs room (some serverSalt)
            tasks := a.tasks ++ [.rederive room passphrase serverSalt] }

def joinPayload (a : App) (form : JoinForm) : JoinPayload where
  nickname := form.nickname
  ttlSeconds := form.ttlSeconds
  salt := ((a.saltRefs form.room).map Base64.encode).getD ""

/-- `Map.prototype.set`: a key that is there keeps its place. -/
def setJoined (joined : List (RoomName × JoinPayload)) (room : RoomName) (jp : JoinPayload) :
    List (RoomName × JoinPayload) :=
  if room ∈ joined.map Prod.fst then joined.map fun e => if e.1 = room then (room, jp) else e
  else joined ++ [(room, jp)]

/-- The end of `handleJoinRoom`, with the message for the gateway. The socket
client refuses a sixth room. -/
def sendJoin (a : App) (i : ℕ) : Option (App × List Frame) :=
  a.ready[i]?.map fun form =>
    let jp := a.joinPayload form
    let a := { a with ready := a.ready.eraseIdx i, rooms := insert form.room a.rooms }
    if form.room ∉ a.joinedRooms.map Prod.fst ∧ maxJoinedRooms ≤ a.joinedRooms.length then (a, [])
    else ({ a with joinedRooms := setJoined a.joinedRooms form.room jp }, [.join form.room jp])

/-- A join of the room has been submitted and not been sent. -/
def joining (a : App) (room : RoomName) : Bool :=
  a.tasks.any (fun task => task.joins && task.room = room) || a.ready.any (·.room = room)

/-- `leaveRoom` with `removeRoom`. Leaving the last room disconnects. A join that
is under way goes on. -/
def leave (a : App) (room : RoomName) : App :=
  let rooms := a.rooms.erase room
  { a with
    keyRefs := Function.update a.keyRefs room none
    saltRefs := Function.update a.saltRefs room none
    passphraseRefs := Function.update a.passphraseRefs room none
    rooms := rooms
    joinedRooms := if rooms = ∅ then [] else a.joinedRooms.filter (·.1 ≠ room)
    conn := if rooms = ∅ then none else a.conn
    entered := if a.joining room = true then a.entered else Function.update a.entered room none }

/-- The joins that are sent when a connection opens. -/
def rejoins (a : App) : List Frame := a.joinedRooms.map fun e => .join e.1 e.2

end App

end TrapChat.Client
