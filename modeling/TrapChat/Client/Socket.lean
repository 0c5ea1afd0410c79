import TrapChat.Library.Transition
import TrapChat.Protocol.Envelope

/-!
The WebSocket client of a page, `TrapChatClient`, with the part of the browser
it talks to: the sockets it has created and the timers it has set. Every socket
keeps the handlers it was created with, also after the client has dropped it, so
the handlers take the socket they belong to as an argument, while `send` always
goes to the socket that `#ws` names.

A socket fires `open` and `error` at most once and `close` once; after a call of
`close()` the close event may come at any later step. Reconnect delays are left
out: a timer that is set may fire at any later step. A fresh UUID is a fresh
number.
-/

namespace TrapChat.Client

open Storage Protocol

abbrev SocketId := ℕ
abbrev TimerId := ℕ
abbrev UUID := ℕ

/-- `WebSocket.readyState`. -/
inductive ReadyState
  | connecting | opened | closing | closed
  deriving DecidableEq, Repr

/-- What `send` serialises. -/
structure Message where
  id : UUID
  msgId : UUID
  type : MessageType
  room : RoomName
  payload : Option String
  timestamp : ℕ
  deriving DecidableEq, Repr

/-- The fields of a message of the server that the client itself reads. -/
structure ServerData where
  type : String
  id : Option PeerID
  deriving DecidableEq, Repr

/-- One message that the server sends to its peers, by its number. The data is
`none` where `JSON.parse` throws. -/
structure ServerMessage where
  number : ℕ
  data : Option ServerData
  deriving DecidableEq, Repr

/-- The calls of `#emit`. -/
inductive Event
  | opened | error | closed
  | queued (type : MessageType) (room : RoomName)
  | reconnecting (attempt : ℕ)
  | reconnectFailed (attempts : ℕ)
  | maxRooms
  | message (m : ServerMessage)
  | typed (type : String) (m : ServerMessage)
  deriving DecidableEq, Repr

/-- A socket, with the variable `settled` of the handlers it was created with.
`sent` is what the client has sent on it, `inbound` what the server has sent and
the page has not received. -/
structure WebSocket where
  readyState : ReadyState
  settled : Bool
  closeFired : Bool
  sent : List Message
  inbound : List ServerMessage
  deriving DecidableEq, Repr

namespace WebSocket

/-- `new WebSocket(url)`. -/
def new : WebSocket where
  readyState := .connecting
  settled := false
  closeFired := false
  sent := []
  inbound := []

def close (w : WebSocket) : WebSocket :=
  match w.readyState with
  | .connecting | .opened => { w with readyState := .closing }
  | .closing | .closed => w

@[simp] theorem inbound_close (w : WebSocket) : w.close.inbound = w.inbound := by
  rw [close]
  split <;> rfl

theorem sent_close (w : WebSocket) : w.close.sent = w.sent := by
  rw [close]
  split <;> rfl

theorem readyState_close (w : WebSocket) : w.close.readyState ≠ .connecting := by
  cases hw : w.readyState <;> simp [close, hw]

def send (msg : Message) (w : WebSocket) : WebSocket := { w with sent := w.sent ++ [msg] }

def settle (w : WebSocket) : WebSocket := { w with settled := true }

end WebSocket

/-- The client's private fields. -/
structure TrapChatClient where
  ws : Option SocketId
  reconnecting : Bool
  reconnectAttempts : ℕ
  reconnectTimer : Option TimerId
  /-- room -> join payload (for rejoin on reconnect) -/
  joinedRooms : List (RoomName × Option String)
  /-- tagged with room -/
  pendingQueue : List (RoomName × Message)
  peerId : Option PeerID

/-- A page: the client and what the browser keeps for it. `timers` are those set
and neither fired nor cleared. -/
structure Page extends TrapChatClient where
  sockets : SocketId → Option WebSocket
  created : ℕ
  timers : List TimerId
  timersSet : ℕ
  emitted : List Event
  uuids : ℕ
  now : ℕ
  /-- How many messages the server has sent to its peers. -/
  served : ℕ

def MAX_RECONNECT_ATTEMPTS : ℕ := 20
def MAX_ROOMS : ℕ := 5
def MAX_PENDING : ℕ := 200

/-- `Map.set`, which keeps the place of a key that is there. -/
def setRoom (rooms : List (RoomName × Option String)) (room : RoomName)
    (payload : Option String) : List (RoomName × Option String) :=
  if room ∈ rooms.map Prod.fst then
    rooms.map fun entry => if entry.1 = room then (room, payload) else entry
  else rooms ++ [(room, payload)]

namespace Page

/-- A page on which the client has just been constructed. -/
def new : Page where
  ws := none
  reconnecting := false
  reconnectAttempts := 0
  reconnectTimer := none
  joinedRooms := []
  pendingQueue := []
  peerId := none
  sockets := fun _ => none
  created := 0
  timers := []
  timersSet := 0
  emitted := []
  uuids := 0
  now := 0
  served := 0

def readyState (s : Page) (i : SocketId) : Option ReadyState :=
  (s.sockets i).map WebSocket.readyState

/-- What has been sent on a socket. -/
def sentOn (s : Page) (i : SocketId) : List Message :=
  ((s.sockets i).map WebSocket.sent).getD []

/-- `this.#ws?.readyState`. -/
def wsReadyState (s : Page) : Option ReadyState := s.ws.bind s.readyState

def connected (s : Page) : Prop := s.wsReadyState = some .opened

instance (s : Page) : Decidable s.connected := inferInstanceAs (Decidable (_ = _))

def modify (i : SocketId) (f : WebSocket → WebSocket) (s : Page) : Page :=
  { s with sockets := Function.update s.sockets i ((s.sockets i).map f) }

@[simp] theorem sockets_modify (i j : SocketId) (f : WebSocket → WebSocket) (s : Page) :
    (s.modify i f).sockets j = if j = i then (s.sockets i).map f else s.sockets j :=
  Function.update_apply ..

def emit (e : Event) (s : Page) : Page := { s with emitted := s.emitted ++ [e] }

/-- `connect()`, up to the events of the socket. -/
def connect (s : Page) : Page :=
  { s with
    ws := some s.created
    sockets := Function.update s.sockets s.created (some .new)
    created := s.created + 1 }

def clearReconnect (s : Page) : Page :=
  { s with
    reconnecting := false
    reconnectAttempts := 0
    reconnectTimer := none
    timers :=
      match s.reconnectTimer with
      | none => s.timers
      | some t => s.timers.filter (· ≠ t) }

def disconnect (s : Page) : Page :=
  let s := { s.clearReconnect with joinedRooms := [], pendingQueue := [] }
  match s.ws with
  | none => s
  | some i => { s.modify i .close with ws := none }

/-- `this.#ws.send(msg)`. -/
def transmit (msg : Message) (s : Page) : Page :=
  match s.ws with
  | none => s
  | some i => s.modify i (.send msg)

/-- What `send` does to `#joinedRooms`. -/
def register (type : MessageType) (room : RoomName) (payload : Option String) (s : Page) : Page :=
  match type with
  | .join => { s with joinedRooms := setRoom s.joinedRooms room payload }
  | .leave => { s with joinedRooms := s.joinedRooms.filter (·.1 ≠ room) }
  | _ => s

/-- The message that `send` serialises, and the UUIDs it draws. -/
def message (type : MessageType) (room : RoomName) (payload : Option String)
    (msgId : Option UUID) (s : Page) : Message × Page :=
  match msgId with
  | some m => (⟨s.uuids, m, type, room, payload, s.now⟩, { s with uuids := s.uuids + 1 })
  | none => (⟨s.uuids, s.uuids + 1, type, room, payload, s.now⟩, { s with uuids := s.uuids + 2 })

/-- Queue chat/media messages for delivery after reconnect. -/
def enqueue (msg : Message) (s : Page) : Page :=
  if msg.type = .chat ∨ msg.type = .media then
    let s :=
      if s.pendingQueue.length < MAX_PENDING then
        { s with pendingQueue := s.pendingQueue ++ [(msg.room, msg)] }
      else s
    s.emit (.queued msg.type msg.room)
  else s

/-- `send`, with its result: whether the message was sent at once. -/
def send (type : MessageType) (room : RoomName) (payload : Option String)
    (msgId : Option UUID) (s : Page) : Page × Bool :=
  if type = .join ∧ room ∉ s.joinedRooms.map Prod.fst ∧ MAX_ROOMS ≤ s.joinedRooms.length then
    (s.emit .maxRooms, false)
  else
    let (msg, s) := (s.register type room payload).message type room payload msgId
    if s.connected then (s.transmit msg, true) else (s.enqueue msg, false)

/-- The loop of `#flushQueue`: a message that cannot be sent is dropped. -/
def flush : List (RoomName × Message) → Page → Page
  | [], s => s
  | (_, msg) :: queue, s => flush queue (if s.connected then s.transmit msg else s)

def flushQueue (s : Page) : Page := flush s.pendingQueue { s with pendingQueue := [] }

/-- The loop of `rejoinRooms`. -/
def rejoin : List (RoomName × Option String) → Page → Page
  | [], s => s
  | (room, payload) :: rooms, s => rejoin rooms (s.send .join room payload none).1

/-- Rejoin all rooms after reconnect. -/
def rejoinRooms (s : Page) : Page :=
  if s.reconnecting ∧ s.joinedRooms ≠ [] then
    { rejoin s.joinedRooms s with reconnecting := false }
  else s

/-- The delays of the attempts are left out. -/
def attemptReconnect (s : Page) : Page :=
  if s.joinedRooms = [] then s
  else if MAX_RECONNECT_ATTEMPTS ≤ s.reconnectAttempts then
    { s.emit (.reconnectFailed s.reconnectAttempts) with reconnecting := false }
  else
    { s.emit (.reconnecting (s.reconnectAttempts + 1)) with
      reconnecting := true
      reconnectAttempts := s.reconnectAttempts + 1
      reconnectTimer := some s.timersSet
      timers := s.timers ++ [s.timersSet]
      timersSet := s.timersSet + 1 }

/-- `onopen` up to the rejoin. -/
def opening (i : SocketId) (s : Page) : Page :=
  { s.modify i .settle with reconnectAttempts := 0 }.emit .opened

def onopen (i : SocketId) (s : Page) : Page := (s.opening i).rejoinRooms.flushQueue

def onerror (i : SocketId) (s : Page) : Page := (s.emit .error).modify i .settle

def onclose (i : SocketId) (s : Page) : Page :=
  let s := s.emit .closed
  if ((s.sockets i).map WebSocket.settled).getD false then s.attemptReconnect else s

/-- The id of the welcome, an empty one counts as absent. -/
def welcome (data : ServerData) (s : Page) : Page :=
  match data.id with
  | some id => if data.type = "welcome" ∧ id ≠ "" then { s with peerId := some id } else s
  | none => s

def onmessage (m : ServerMessage) (s : Page) : Page :=
  match m.data with
  | none => s.emit (.message m)
  | some data =>
      let s := (s.welcome data).emit (.message m)
      if data.type ≠ "" then s.emit (.typed data.type m) else s

end Page

/-! ### Runs -/

/-- The calls of the application, the events of the sockets, the timers, and the
server, which sends a message to a set of its peers. -/
inductive SocketAction
  | connect
  | disconnect
  | send (type : MessageType) (room : RoomName) (payload : Option String) (msgId : Option UUID)
  | opened (i : SocketId)
  | error (i : SocketId)
  /-- The server starts the closing handshake. -/
  | closing (i : SocketId)
  | closed (i : SocketId)
  | timer (t : TimerId)
  | serve (peers : Finset SocketId) (data : Option ServerData)
  | message (i : SocketId)
  | tick
  deriving DecidableEq

namespace Page

def setReady (i : SocketId) (r : ReadyState) (s : Page) : Page :=
  s.modify i fun w => { w with readyState := r }

/-- The server puts a message on the way to its peers. -/
def serve (peers : Finset SocketId) (data : Option ServerData) (s : Page) : Page :=
  { s with
    sockets := fun i =>
      if i ∈ peers then
        (s.sockets i).map fun w => { w with inbound := w.inbound ++ [⟨s.served, data⟩] }
      else s.sockets i
    served := s.served + 1 }

def step (s : Page) : SocketAction → Option Page
  | .connect => some s.connect
  | .disconnect => some s.disconnect
  | .send type room payload msgId => some (s.send type room payload msgId).1
  | .opened i =>
      if s.readyState i = some .connecting then some ((s.setReady i .opened).onopen i) else none
  | .error i =>
      if (s.sockets i).isSome ∧ s.readyState i ≠ some .closed then
        some ((s.setReady i .closed).onerror i)
      else none
  | .closing i =>
      if s.readyState i = some .opened then some (s.setReady i .closing) else none
  | .closed i =>
      if (s.sockets i).map WebSocket.closeFired = some false then
        some (((s.setReady i .closed).modify i fun w => { w with closeFired := true }).onclose i)
      else none
  | .timer t =>
      if t ∈ s.timers then some { s with timers := s.timers.filter (· ≠ t) }.connect else none
  | .serve peers data => some (s.serve peers data)
  | .message i =>
      match s.sockets i with
      | none => none
      | some w =>
          match w.readyState, w.inbound with
          | .opened, m :: rest => some ((s.modify i fun w => { w with inbound := rest }).onmessage m)
          | _, _ => none
  | .tick => some { s with now := s.now + 1 }

/-! ### What can be seen of a page -/

/-- Connecting or open; a socket that has been told to close is neither. -/
def Live (s : Page) (i : SocketId) : Prop :=
  s.readyState i = some .connecting ∨ s.readyState i = some .opened

/-- The numbers of the messages of the server that the client has emitted. -/
def received (s : Page) : List ℕ :=
  s.emitted.filterMap fun
    | .message m => some m.number
    | _ => none

/-- The numbers of the messages on their way on a socket. -/
def underWay (s : Page) (i : SocketId) : List ℕ :=
  ((s.sockets i).map fun w => w.inbound.map ServerMessage.number).getD []

/-! ### Talking

Most of what a client does is talk on the socket it has: the sockets, their
states and what is under way on them stay as they are. -/

/-- Nothing but talk lies between the two pages. -/
structure Talks (s s' : Page) : Prop where
  ws : s'.ws = s.ws
  created : s'.created = s.created
  timers : s'.timers = s.timers
  served : s'.served = s.served
  readyState : s'.readyState = s.readyState
  underWay : s'.underWay = s.underWay
  received : s'.received = s.received

theorem Talks.refl (s : Page) : Talks s s := ⟨rfl, rfl, rfl, rfl, rfl, rfl, rfl⟩

theorem Talks.trans {s s' s'' : Page} (h : Talks s s') (h' : Talks s' s'') : Talks s s'' where
  ws := h'.ws.trans h.ws
  created := h'.created.trans h.created
  timers := h'.timers.trans h.timers
  served := h'.served.trans h.served
  readyState := h'.readyState.trans h.readyState
  underWay := h'.underWay.trans h.underWay
  received := h'.received.trans h.received

theorem Talks.live {s s' : Page} (h : Talks s s') (i : SocketId) : s'.Live i ↔ s.Live i := by
  rw [Live, Live, h.readyState]

@[simp] theorem readyState_modify (s : Page) (i j : SocketId) (f : WebSocket → WebSocket) :
    (s.modify i f).readyState j =
      if j = i then (s.sockets i).map fun w => (f w).readyState else s.readyState j := by
  rw [readyState, sockets_modify]
  split
  · rw [Option.map_map]
    rfl
  · rfl

@[simp] theorem underWay_modify (s : Page) (i j : SocketId) (f : WebSocket → WebSocket) :
    (s.modify i f).underWay j =
      if j = i then ((s.sockets i).map fun w => (f w).inbound.map ServerMessage.number).getD []
      else s.underWay j := by
  rw [underWay, sockets_modify]
  split
  · rw [Option.map_map]
    rfl
  · rfl

theorem talks_modify (s : Page) (i : SocketId) {f : WebSocket → WebSocket}
    (hready : ∀ w, (f w).readyState = w.readyState) (hinbound : ∀ w, (f w).inbound = w.inbound) :
    Talks s (s.modify i f) := by
  refine ⟨rfl, rfl, rfl, rfl, ?_, ?_, rfl⟩
  · ext1 j
    rw [readyState_modify]
    split
    · next hj =>
      simp only [hready, hj]
      rfl
    · rfl
  · ext1 j
    rw [underWay_modify]
    split
    · next hj =>
      simp only [hinbound, hj]
      rfl
    · rfl

theorem talks_emit (s : Page) {e : Event} (he : ∀ m, e ≠ .message m) : Talks s (s.emit e) := by
  refine ⟨rfl, rfl, rfl, rfl, rfl, rfl, ?_⟩
  cases e with
  | message m => exact absurd rfl (he m)
  | _ => simp [received, emit]

theorem talks_transmit (s : Page) (msg : Message) : Talks s (s.transmit msg) := by
  rw [transmit]
  split
  · exact .refl s
  · exact talks_modify s _ (fun _ => rfl) (fun _ => rfl)

theorem talks_register (s : Page) (type : MessageType) (room : RoomName)
    (payload : Option String) : Talks s (s.register type room payload) := by
  cases type <;> exact ⟨rfl, rfl, rfl, rfl, rfl, rfl, rfl⟩

theorem talks_message (s : Page) (type : MessageType) (room : RoomName)
    (payload : Option String) (msgId : Option UUID) :
    Talks s (s.message type room payload msgId).2 := by
  cases msgId <;> exact ⟨rfl, rfl, rfl, rfl, rfl, rfl, rfl⟩

theorem talks_enqueue (s : Page) (msg : Message) : Talks s (s.enqueue msg) := by
  rw [enqueue]
  split
  · split
    · have hqueue : Talks s { s with pendingQueue := s.pendingQueue ++ [(msg.room, msg)] } :=
        ⟨rfl, rfl, rfl, rfl, rfl, rfl, rfl⟩
      exact hqueue.trans (talks_emit _ (by simp))
    · exact talks_emit s (by simp)
  · exact .refl s

theorem talks_send (s : Page) (type : MessageType) (room : RoomName) (payload : Option String)
    (msgId : Option UUID) : Talks s (s.send type room payload msgId).1 := by
  rw [send]
  split
  · exact talks_emit s (by simp)
  · have hmessage := (talks_register s type room payload).trans
      (talks_message _ type room payload msgId)
    dsimp only
    split
    · exact hmessage.trans (talks_transmit _ _)
    · exact hmessage.trans (talks_enqueue _ _)

theorem talks_rejoin (rooms : List (RoomName × Option String)) (s : Page) :
    Talks s (rejoin rooms s) := by
  induction rooms generalizing s with
  | nil => exact .refl s
  | cons entry rooms ih => exact (talks_send s _ _ _ _).trans (ih _)

theorem talks_flush (queue : List (RoomName × Message)) (s : Page) : Talks s (flush queue s) := by
  induction queue generalizing s with
  | nil => exact .refl s
  | cons entry queue ih =>
      rw [flush]
      split
      · exact (talks_transmit s _).trans (ih _)
      · exact ih s

theorem talks_flushQueue (s : Page) : Talks s s.flushQueue := by
  have hempty : Talks s { s with pendingQueue := [] } := ⟨rfl, rfl, rfl, rfl, rfl, rfl, rfl⟩
  exact hempty.trans (talks_flush _ _)

theorem talks_rejoinRooms (s : Page) : Talks s s.rejoinRooms := by
  rw [rejoinRooms]
  split
  · exact (talks_rejoin s.joinedRooms s).trans ⟨rfl, rfl, rfl, rfl, rfl, rfl, rfl⟩
  · exact .refl s

theorem talks_opening (s : Page) (i : SocketId) : Talks s (s.opening i) := by
  have hsettle := talks_modify s i (f := .settle) (fun _ => rfl) (fun _ => rfl)
  have hattempts : Talks s { s.modify i .settle with reconnectAttempts := 0 } :=
    hsettle.trans ⟨rfl, rfl, rfl, rfl, rfl, rfl, rfl⟩
  exact hattempts.trans (talks_emit _ (e := .opened) (by simp))

theorem talks_onopen (s : Page) (i : SocketId) : Talks s (s.onopen i) :=
  ((talks_opening s i).trans (talks_rejoinRooms _)).trans (talks_flushQueue _)

theorem talks_onerror (s : Page) (i : SocketId) : Talks s (s.onerror i) :=
  (talks_emit s (by simp)).trans (talks_modify _ i (fun _ => rfl) (fun _ => rfl))

/-- A reconnect adds a timer and is talk otherwise. -/
theorem talks_attemptReconnect (s : Page) :
    Talks s { s.attemptReconnect with timers := s.timers } := by
  rw [attemptReconnect]
  split
  · exact .refl s
  · split
    · exact (talks_emit s (e := .reconnectFailed _) (by simp)).trans
        ⟨rfl, rfl, rfl, rfl, rfl, rfl, rfl⟩
    · exact (talks_emit s (e := .reconnecting _) (by simp)).trans
        ⟨rfl, rfl, rfl, rfl, rfl, rfl, rfl⟩

theorem talks_onclose (s : Page) (i : SocketId) :
    Talks s { s.onclose i with timers := s.timers } := by
  have hemit := talks_emit s (e := .closed) (by simp)
  rw [onclose]
  split
  · exact hemit.trans (talks_attemptReconnect _)
  · exact hemit.trans ⟨rfl, rfl, rfl, rfl, rfl, rfl, rfl⟩

theorem talks_welcome (s : Page) (data : ServerData) : Talks s (s.welcome data) := by
  rw [welcome]
  split
  · split
    · exact ⟨rfl, rfl, rfl, rfl, rfl, rfl, rfl⟩
    · exact .refl s
  · exact .refl s

/-- A message of the server is emitted, which is talk otherwise. -/
theorem talks_onmessage (s : Page) (m : ServerMessage) :
    ∃ s₀, Talks s s₀ ∧ Talks (s₀.emit (.message m)) (s.onmessage m) := by
  rw [onmessage]
  split
  · exact ⟨s, .refl s, .refl _⟩
  · next data hdata =>
    refine ⟨s.welcome data, talks_welcome s data, ?_⟩
    dsimp only
    split
    · exact talks_emit _ (by simp)
    · exact .refl _

theorem received_emit_message (s : Page) (m : ServerMessage) :
    (s.emit (.message m)).received = s.received ++ [m.number] := by
  simp [received, emit]

theorem readyState_take (s : Page) (i : SocketId) (rest : List ServerMessage) :
    (s.modify i fun w => { w with inbound := rest }).readyState = s.readyState := by
  ext1 j
  rw [readyState_modify]
  split
  · next hj =>
    rw [hj]
    rfl
  · rfl

theorem readyState_serve (s : Page) (peers : Finset SocketId) (data : Option ServerData) :
    (s.serve peers data).readyState = s.readyState := by
  ext1 i
  simp only [readyState, serve]
  split
  · rw [Option.map_map]
    rfl
  · rfl

theorem timer_step {s s' : Page} {t : TimerId} (hstep : s.step (.timer t) = some s') :
    t ∈ s.timers ∧ s' = { s with timers := s.timers.filter (· ≠ t) }.connect := by
  rw [step, Option.ite_none_right_eq_some, Option.some_inj] at hstep
  exact ⟨hstep.1, hstep.2.symm⟩

theorem message_step {s s' : Page} {i : SocketId} (hstep : s.step (.message i) = some s') :
    ∃ w m rest, s.sockets i = some w ∧ w.readyState = .opened ∧ w.inbound = m :: rest ∧
      s' = (s.modify i fun w => { w with inbound := rest }).onmessage m := by
  rw [step] at hstep
  split at hstep
  · cases hstep
  · next w hw =>
    split at hstep
    · next m rest hopen hm => exact ⟨w, m, rest, hw, hopen, hm, (Option.some.inj hstep).symm⟩
    · cases hstep

end Page

end TrapChat.Client
