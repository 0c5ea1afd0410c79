import Mathlib.Data.List.Sublists
import TrapChat.Library.Channel
import TrapChat.Library.Potential

/-!
The write queue of a connection: `enqueue` from any goroutine, the goroutine
`writePump` that drains the queue, the pings that go past the queue under the write
mutex, and `closeSend` of the goroutines that end the connection.

A step is one operation on a channel, on the mutex, on the counter or on the socket;
whether a write succeeds is part of the action. What has been offered to the queue and
what the socket has taken is kept beside the object's own fields. A panic ends a
goroutine and leaves the object as it is.
-/

namespace TrapChat.Gateway

open Transition

def peerSendBufSize : ℕ := 64

/-- Where `writePump` is. -/
inductive Pump (β : Type*)
  | receives
  | locks (msg : β)
  | writes (msg : β)
  | returned

/-- The message that `writePump` has in hand. -/
def Pump.inHand {β : Type*} : Pump β → List β
  | .locks msg | .writes msg => [msg]
  | .receives | .returned => []

/-- The steps to the next receive, and that. -/
def Pump.toGo {β : Type*} : Pump β → ℕ
  | .receives => 1
  | .writes _ => 2
  | .locks _ => 3
  | .returned => 0

/-- Where the goroutine of the pings is. -/
inductive Pinger
  | selects | locks | writes | returned
  deriving DecidableEq

/-- The two goroutines that write to the socket. -/
inductive Writer
  | pump | pinger
  deriving DecidableEq

inductive Frame (β : Type*)
  | text (msg : β)
  | ping

def Frame.msg {β : Type*} : Frame β → Option β
  | .text msg => some msg
  | .ping => none

structure Peer (β : Type*) where
  sendCh : Channel β peerSendBufSize
  done : Bool
  dropped : ℕ
  wmu : Option Writer
  pump : Pump β
  pinger : Pinger
  /-- The goroutines that have found the queue full and have not counted it. -/
  counting : ℕ
  /-- The goroutines in `closeSend` at `<-p.done`, and those past it. -/
  closing : ℕ
  closed : ℕ
  /-- The gateway has closed the socket. -/
  connClosed : Bool
  /-- What the socket has taken, and the message whose write failed. -/
  wire : List (Frame β)
  failed : Option β
  /-- The messages of all calls of `enqueue`, and those that the queue took. -/
  offered : List β
  accepted : List β
  /-- The calls of `enqueue` that panicked. -/
  panics : ℕ

inductive PeerAction (β : Type*)
  | enqueue (msg : β)
  | count
  | pumpReceive
  | pumpLock
  | pumpWrite (ok : Bool)
  | pingTick
  | pingLock
  | pingWrite (ok : Bool)
  | stopPing
  | closeSend
  | awaitDone
  | connClose

namespace Peer

variable {β : Type*}

def newPeer : Peer β where
  sendCh := .make
  done := false
  dropped := 0
  wmu := none
  pump := .receives
  pinger := .selects
  counting := 0
  closing := 0
  closed := 0
  connClosed := false
  wire := []
  failed := none
  offered := []
  accepted := []
  panics := 0

def enqueue (s : Peer β) (msg : β) : Peer β :=
  let s := { s with offered := s.offered ++ [msg] }
  match s.sendCh.trySend msg with
  | .accepted c => { s with sendCh := c, accepted := s.accepted ++ [msg] }
  | .full => { s with counting := s.counting + 1 }
  | .panic => { s with panics := s.panics + 1 }

/-- `range p.sendCh` asks for the next message. The loop ends at a closed channel that is
empty; `done` is closed as the goroutine returns. -/
def pumpReceive (s : Peer β) : Option (Peer β) :=
  match s.sendCh.receive with
  | .value msg c => some { s with sendCh := c, pump := .locks msg }
  | .closed => some { s with pump := .returned, done := true }
  | .waits => none

/-- `WriteMessage` has come back and the mutex is unlocked. -/
def pumpWrite (s : Peer β) (msg : β) (ok : Bool) : Peer β :=
  if ok = true then
    { s with wmu := none, pump := .receives, wire := s.wire ++ [.text msg] }
  else { s with wmu := none, pump := .returned, done := true, failed := some msg }

def pingWrite (s : Peer β) (ok : Bool) : Peer β :=
  if ok = true then { s with wmu := none, pinger := .selects, wire := s.wire ++ [.ping] }
  else { s with wmu := none, pinger := .returned }

/-- A write on a socket that the gateway has closed does not succeed. -/
def Writable (s : Peer β) (ok : Bool) : Prop := ok = true → s.connClosed = false

instance (s : Peer β) (ok : Bool) : Decidable (s.Writable ok) :=
  inferInstanceAs (Decidable (_ → _))

def step (s : Peer β) : PeerAction β → Option (Peer β)
  | .enqueue msg => some (s.enqueue msg)
  | .count =>
    if 0 < s.counting then some { s with counting := s.counting - 1, dropped := s.dropped + 1 }
    else none
  | .pumpReceive =>
    match s.pump with
    | .receives => s.pumpReceive
    | _ => none
  | .pumpLock =>
    match s.pump with
    | .locks msg =>
      if s.wmu = none then some { s with wmu := some .pump, pump := .writes msg } else none
    | _ => none
  | .pumpWrite ok =>
    match s.pump with
    | .writes msg => if s.Writable ok then some (s.pumpWrite msg ok) else none
    | _ => none
  | .pingTick => if s.pinger = .selects then some { s with pinger := .locks } else none
  | .pingLock =>
    if s.pinger = .locks ∧ s.wmu = none then
      some { s with wmu := some .pinger, pinger := .writes }
    else none
  | .pingWrite ok =>
    if s.pinger = .writes ∧ s.Writable ok then some (s.pingWrite ok) else none
  | .stopPing => if s.pinger = .selects then some { s with pinger := .returned } else none
  | .closeSend =>
    match s.sendCh.close with
    | some c => some { s with sendCh := c, closing := s.closing + 1 }
    | none => some s
  | .awaitDone =>
    if s.done = true ∧ 0 < s.closing then
      some { s with closing := s.closing - 1, closed := s.closed + 1 }
    else none
  | .connClose => if 0 < s.closed then some { s with connClosed := true } else none

/-! ### What a step can do -/

/-- The outcomes of the steps. -/
inductive Moves (s : Peer β) : PeerAction β → Peer β → Prop
  | accepted {msg : β} {c : Channel β peerSendBufSize}
      (hsend : s.sendCh.trySend msg = .accepted c) :
      Moves s (.enqueue msg)
        { s with sendCh := c, offered := s.offered ++ [msg], accepted := s.accepted ++ [msg] }
  | full {msg : β} (hsend : s.sendCh.trySend msg = .full) :
      Moves s (.enqueue msg)
        { s with offered := s.offered ++ [msg], counting := s.counting + 1 }
  | panicked {msg : β} (hsend : s.sendCh.trySend msg = .panic) :
      Moves s (.enqueue msg) { s with offered := s.offered ++ [msg], panics := s.panics + 1 }
  | counted (hcounting : 0 < s.counting) :
      Moves s .count { s with counting := s.counting - 1, dropped := s.dropped + 1 }
  | received {msg : β} {c : Channel β peerSendBufSize} (hpump : s.pump = .receives)
      (hrecv : s.sendCh.receive = .value msg c) :
      Moves s .pumpReceive { s with sendCh := c, pump := .locks msg }
  | drained (hpump : s.pump = .receives) (hrecv : s.sendCh.receive = .closed) :
      Moves s .pumpReceive { s with pump := .returned, done := true }
  | pumpLocked {msg : β} (hpump : s.pump = .locks msg) (hwmu : s.wmu = none) :
      Moves s .pumpLock { s with wmu := some .pump, pump := .writes msg }
  | wrote {msg : β} (hpump : s.pump = .writes msg) (hconn : s.connClosed = false) :
      Moves s (.pumpWrite true)
        { s with wmu := none, pump := .receives, wire := s.wire ++ [.text msg] }
  | writeFailed {msg : β} (hpump : s.pump = .writes msg) :
      Moves s (.pumpWrite false)
        { s with wmu := none, pump := .returned, done := true, failed := some msg }
  | ticked (hpinger : s.pinger = .selects) : Moves s .pingTick { s with pinger := .locks }
  | pingLocked (hpinger : s.pinger = .locks) (hwmu : s.wmu = none) :
      Moves s .pingLock { s with wmu := some .pinger, pinger := .writes }
  | pinged (hpinger : s.pinger = .writes) (hconn : s.connClosed = false) :
      Moves s (.pingWrite true)
        { s with wmu := none, pinger := .selects, wire := s.wire ++ [.ping] }
  | pingFailed (hpinger : s.pinger = .writes) :
      Moves s (.pingWrite false) { s with wmu := none, pinger := .returned }
  | stopped (hpinger : s.pinger = .selects) : Moves s .stopPing { s with pinger := .returned }
  | closes {c : Channel β peerSendBufSize} (hclose : s.sendCh.close = some c) :
      Moves s .closeSend { s with sendCh := c, closing := s.closing + 1 }
  | closePanicked (hclose : s.sendCh.close = none) : Moves s .closeSend s
  | awaited (hdone : s.done = true) (hclosing : 0 < s.closing) :
      Moves s .awaitDone { s with closing := s.closing - 1, closed := s.closed + 1 }
  | connClosed (hclosed : 0 < s.closed) : Moves s .connClose { s with connClosed := true }

variable {s s' : Peer β} {a : PeerAction β}

theorem moves_enqueue (msg : β) : s.Moves (.enqueue msg) (s.enqueue msg) := by
  rw [enqueue]
  dsimp only
  cases hsend : s.sendCh.trySend msg with
  | accepted c => exact .accepted hsend
  | full => exact .full hsend
  | panic => exact .panicked hsend

theorem moves_pumpReceive (hpump : s.pump = .receives) (h : s.pumpReceive = some s') :
    s.Moves .pumpReceive s' := by
  rw [pumpReceive] at h
  cases hrecv : s.sendCh.receive with
  | value msg c =>
      rw [hrecv] at h
      cases h
      exact .received hpump hrecv
  | closed =>
      rw [hrecv] at h
      cases h
      exact .drained hpump hrecv
  | waits =>
      rw [hrecv] at h
      cases h

theorem moves_pumpWrite {msg : β} {ok : Bool} (hpump : s.pump = .writes msg)
    (hok : s.Writable ok) : s.Moves (.pumpWrite ok) (s.pumpWrite msg ok) := by
  cases ok with
  | true => exact .wrote hpump (hok rfl)
  | false => exact .writeFailed hpump

theorem moves_pingWrite {ok : Bool} (hpinger : s.pinger = .writes) (hok : s.Writable ok) :
    s.Moves (.pingWrite ok) (s.pingWrite ok) := by
  cases ok with
  | true => exact .pinged hpinger (hok rfl)
  | false => exact .pingFailed hpinger

theorem moves_closeSend (h : s.step .closeSend = some s') : s.Moves .closeSend s' := by
  rw [step] at h
  cases hclose : s.sendCh.close with
  | some c =>
      rw [hclose] at h
      cases h
      exact .closes hclose
  | none =>
      rw [hclose] at h
      cases h
      exact .closePanicked hclose

/-- What a step under a guard gives. -/
theorem of_ite_some {p : Prop} [Decidable p] {x : Peer β}
    (h : (if p then some x else none) = some s') : p ∧ s' = x := by
  split at h
  · cases h
    exact ⟨‹p›, rfl⟩
  · cases h

theorem moves_of_step (h : s.step a = some s') : s.Moves a s' := by
  cases a with
  | enqueue msg =>
      cases h
      exact moves_enqueue msg
  | count =>
      obtain ⟨hcounting, rfl⟩ := of_ite_some h
      exact .counted hcounting
  | pumpReceive =>
      rw [step] at h
      split at h
      · exact moves_pumpReceive ‹_› h
      · cases h
  | pumpLock =>
      rw [step] at h
      split at h
      · obtain ⟨hwmu, rfl⟩ := of_ite_some h
        exact .pumpLocked ‹_› hwmu
      · cases h
  | pumpWrite ok =>
      rw [step] at h
      split at h
      · obtain ⟨hok, rfl⟩ := of_ite_some h
        exact moves_pumpWrite ‹_› hok
      · cases h
  | pingTick =>
      obtain ⟨hpinger, rfl⟩ := of_ite_some h
      exact .ticked hpinger
  | pingLock =>
      obtain ⟨⟨hpinger, hwmu⟩, rfl⟩ := of_ite_some h
      exact .pingLocked hpinger hwmu
  | pingWrite ok =>
      obtain ⟨⟨hpinger, hok⟩, rfl⟩ := of_ite_some h
      exact moves_pingWrite hpinger hok
  | stopPing =>
      obtain ⟨hpinger, rfl⟩ := of_ite_some h
      exact .stopped hpinger
  | closeSend => exact moves_closeSend h
  | awaitDone =>
      obtain ⟨⟨hdone, hclosing⟩, rfl⟩ := of_ite_some h
      exact .awaited hdone hclosing
  | connClose =>
      obtain ⟨hclosed, rfl⟩ := of_ite_some h
      exact .connClosed hclosed

/-! ### What is on its way -/

/-- The messages that the socket has taken. -/
def written (s : Peer β) : List β := s.wire.filterMap Frame.msg

/-- What the queue has given out. -/
def taken (s : Peer β) : List β := s.written ++ s.failed.toList ++ s.pump.inHand

/-- The messages are all somewhere, in their order. -/
structure Accounted (s : Peer β) : Prop where
  carries : s.sendCh.Carries s.accepted s.taken
  failed : s.failed ≠ none → s.pump = .returned
  sublist : s.accepted.Sublist s.offered
  counted : s.offered.length = s.accepted.length + s.dropped + s.counting + s.panics

theorem accounted_newPeer : (newPeer : Peer β).Accounted where
  carries := Channel.Carries.make
  failed := fun h => absurd rfl h
  sublist := .slnil
  counted := rfl

theorem Accounted.failed_none (hs : s.Accounted) (hpump : s.pump ≠ .returned) :
    s.failed = none := by
  by_contra hfailed
  exact hpump (hs.failed hfailed)

/-- A step of anyone else leaves what has been taken as it is. -/
theorem Accounted.of_eq (hs : s.Accounted) (hch : s'.sendCh = s.sendCh)
    (hwritten : s'.written = s.written) (hfailed : s'.failed = s.failed)
    (hpump : s'.pump = s.pump) (haccepted : s'.accepted = s.accepted)
    (hoffered : s'.offered = s.offered)
    (hcount : s'.dropped + s'.counting + s'.panics = s.dropped + s.counting + s.panics) :
    s'.Accounted where
  carries := by
    rw [taken, hwritten, hfailed, hpump, haccepted, hch]
    exact hs.carries
  failed := by
    rw [hfailed, hpump]
    exact hs.failed
  sublist := by
    rw [haccepted, hoffered]
    exact hs.sublist
  counted := by
    have hcounted := hs.counted
    rw [hoffered, haccepted]
    omega

@[simp] theorem filterMap_msg_text (wire : List (Frame β)) (msg : β) :
    (wire ++ [Frame.text msg]).filterMap Frame.msg = wire.filterMap Frame.msg ++ [msg] := by
  simp [Frame.msg]

@[simp] theorem filterMap_msg_ping (wire : List (Frame β)) :
    (wire ++ [Frame.ping]).filterMap Frame.msg = wire.filterMap Frame.msg := by
  simp [Frame.msg]

theorem Accounted.moves (hs : s.Accounted) (h : s.Moves a s') : s'.Accounted := by
  cases h with
  | @accepted msg c hsend =>
      refine ⟨hs.carries.trySend hsend, hs.failed, hs.sublist.append (.refl _), ?_⟩
      have hcounted := hs.counted
      simp only [List.length_append, List.length_singleton]
      omega
  | @full msg hsend =>
      refine ⟨hs.carries, hs.failed, hs.sublist.trans (List.sublist_append_left _ _), ?_⟩
      have hcounted := hs.counted
      simp only [List.length_append, List.length_singleton]
      omega
  | @panicked msg hsend =>
      refine ⟨hs.carries, hs.failed, hs.sublist.trans (List.sublist_append_left _ _), ?_⟩
      have hcounted := hs.counted
      simp only [List.length_append, List.length_singleton]
      omega
  | counted hcounting =>
      refine hs.of_eq rfl rfl rfl rfl rfl rfl ?_
      show s.dropped + 1 + (s.counting - 1) + s.panics = _
      omega
  | @received msg c hpump hrecv =>
      have hcarries := hs.carries.receive hrecv
      have hfailed := hs.failed_none (by simp [hpump])
      refine ⟨?_, fun h => absurd hfailed h, hs.sublist, hs.counted⟩
      rw [taken, hpump] at hcarries
      rw [taken]
      exact (List.append_nil _ ▸ hcarries :)
  | drained hpump hrecv =>
      have hcarries := hs.carries
      refine ⟨?_, fun _ => rfl, hs.sublist, hs.counted⟩
      rw [taken, hpump] at hcarries
      exact hcarries
  | @pumpLocked msg hpump hwmu =>
      have hcarries := hs.carries
      have hfailed := hs.failed_none (by simp [hpump])
      refine ⟨?_, fun h => absurd hfailed h, hs.sublist, hs.counted⟩
      rw [taken, hpump] at hcarries
      exact hcarries
  | @wrote msg hpump hconn =>
      have hcarries := hs.carries
      have hfailed := hs.failed_none (by simp [hpump])
      refine ⟨?_, fun h => absurd hfailed h, hs.sublist, hs.counted⟩
      rw [taken, hpump, hfailed] at hcarries
      rw [taken, written, filterMap_msg_text]
      show s.sendCh.Carries s.accepted (s.written ++ [msg] ++ s.failed.toList ++ [])
      rw [hfailed]
      simpa [Pump.inHand] using hcarries
  | @writeFailed msg hpump =>
      have hcarries := hs.carries
      have hfailed := hs.failed_none (by simp [hpump])
      refine ⟨?_, fun _ => rfl, hs.sublist, hs.counted⟩
      rw [taken, hpump, hfailed] at hcarries
      show s.sendCh.Carries s.accepted (s.written ++ [msg] ++ [])
      simpa [Pump.inHand] using hcarries
  | pinged hpinger hconn =>
      exact hs.of_eq rfl (filterMap_msg_ping s.wire) rfl rfl rfl rfl rfl
  | @closes c hclose =>
      exact ⟨hs.carries.close hclose, hs.failed, hs.sublist, hs.counted⟩
  | ticked | pingLocked | pingFailed | stopped | closePanicked | awaited | connClosed =>
      exact hs.of_eq rfl rfl rfl rfl rfl rfl rfl

theorem accounted_of_reachable (hs : Reachable step newPeer s) : s.Accounted :=
  hs.invariant accounted_newPeer fun _ _ _ hI _ hstep => hI.moves (moves_of_step hstep)

/-! ### Who may write -/

/-- The mutex is held by the goroutine that writes, and the queue is closed before
`writePump` returns, unless a write has failed. -/
structure Guarded (s : Peer β) : Prop where
  pump : s.wmu = some .pump ↔ ∃ msg, s.pump = .writes msg
  pinger : s.wmu = some .pinger ↔ s.pinger = .writes
  done : s.done = true ↔ s.pump = .returned
  closing : 0 < s.closing + s.closed → s.sendCh.closed = true
  closed : 0 < s.closed → s.done = true
  conn : s.connClosed = true → s.done = true
  drained : s.pump = .returned → s.failed = none →
    s.sendCh.closed = true ∧ s.sendCh.buffer = []

theorem guarded_newPeer : (newPeer : Peer β).Guarded := by
  constructor <;> simp [newPeer]

/-- Closing the queue, or sending on it, is not up to `writePump`. -/
theorem Guarded.of_sendCh (hs : s.Guarded) (hpump : s'.pump = s.pump) (hwmu : s'.wmu = s.wmu)
    (hpinger : s'.pinger = s.pinger) (hdone : s'.done = s.done) (hclosed : s'.closed = s.closed)
    (hconn : s'.connClosed = s.connClosed) (hfailed : s'.failed = s.failed)
    (hclosing : 0 < s'.closing + s'.closed → s'.sendCh.closed = true)
    (hch : s.sendCh.closed = true → s.sendCh.buffer = [] →
      s'.sendCh.closed = true ∧ s'.sendCh.buffer = []) : s'.Guarded where
  pump := by
    rw [hwmu, hpump]
    exact hs.pump
  pinger := by
    rw [hwmu, hpinger]
    exact hs.pinger
  done := by
    rw [hdone, hpump]
    exact hs.done
  closing := hclosing
  closed := by
    rw [hclosed, hdone]
    exact hs.closed
  conn := by
    rw [hconn, hdone]
    exact hs.conn
  drained := by
    rw [hpump, hfailed]
    exact fun hreturned hnone =>
      hch (hs.drained hreturned hnone).1 (hs.drained hreturned hnone).2

theorem Guarded.not_returned (hs : s.Guarded) (hpump : s.pump ≠ .returned) : s.done = false :=
  Bool.eq_false_iff.mpr fun hdone => hpump (hs.done.mp hdone)

theorem Guarded.moves (hs : s.Guarded) (h : s.Moves a s') : s'.Guarded := by
  cases h with
  | @accepted msg c hsend =>
      have hopen := Channel.trySend_accepted hsend
      refine hs.of_sendCh rfl rfl rfl rfl rfl rfl rfl (fun hpos => ?_) fun hclosed => ?_
      · exact absurd (hs.closing hpos) (by simp [hopen.1])
      · exact absurd hclosed (by simp [hopen.1])
  | full | panicked | counted =>
      exact hs.of_sendCh rfl rfl rfl rfl rfl rfl rfl hs.closing fun hclosed hempty =>
        ⟨hclosed, hempty⟩
  | @received msg c hpump hrecv =>
      obtain ⟨hclosed, hbuffer⟩ := Channel.receive_value hrecv
      have hdone := hs.not_returned (by simp [hpump])
      have hwmu := hs.pump
      refine ⟨?_, hs.pinger, ?_, ?_, hs.closed, hs.conn, ?_⟩
      · simpa [hpump] using hwmu
      · simp [hdone]
      · simpa [hclosed] using hs.closing
      · simp
  | drained hpump hrecv =>
      have hwmu := hs.pump
      refine ⟨?_, hs.pinger, by simp, hs.closing, fun _ => rfl, fun _ => rfl, fun _ _ => ?_⟩
      · simpa [hpump] using hwmu
      · exact Channel.receive_closed hrecv
  | @pumpLocked msg hpump hwmu =>
      have hdone := hs.not_returned (by simp [hpump])
      have hpinger := hs.pinger
      refine ⟨by simp, ?_, by simp [hdone], hs.closing, hs.closed, hs.conn, by simp⟩
      simpa [hwmu] using hpinger
  | @wrote msg hpump hconn =>
      have hdone := hs.not_returned (by simp [hpump])
      have hwmu := hs.pump.mpr ⟨msg, hpump⟩
      have hpinger := hs.pinger
      refine ⟨by simp, ?_, by simp [hdone], hs.closing, hs.closed, hs.conn, by simp⟩
      simpa [hwmu] using hpinger
  | @writeFailed msg hpump =>
      have hwmu := hs.pump.mpr ⟨msg, hpump⟩
      have hpinger := hs.pinger
      refine ⟨by simp, ?_, by simp, hs.closing, fun _ => rfl, fun _ => rfl, by simp⟩
      simpa [hwmu] using hpinger
  | ticked hpinger =>
      have hwmu := hs.pinger
      refine ⟨hs.pump, ?_, hs.done, hs.closing, hs.closed, hs.conn, hs.drained⟩
      simpa [hpinger] using hwmu
  | pingLocked hpinger hwmu =>
      have hpump := hs.pump
      refine ⟨?_, by simp, hs.done, hs.closing, hs.closed, hs.conn, hs.drained⟩
      simpa [hwmu] using hpump
  | pinged hpinger hconn =>
      have hwmu := hs.pinger.mpr hpinger
      have hpump := hs.pump
      refine ⟨?_, by simp, hs.done, hs.closing, hs.closed, hs.conn, hs.drained⟩
      simpa [hwmu] using hpump
  | pingFailed hpinger =>
      have hwmu := hs.pinger.mpr hpinger
      have hpump := hs.pump
      refine ⟨?_, by simp, hs.done, hs.closing, hs.closed, hs.conn, hs.drained⟩
      simpa [hwmu] using hpump
  | stopped hpinger =>
      have hwmu := hs.pinger
      refine ⟨hs.pump, ?_, hs.done, hs.closing, hs.closed, hs.conn, hs.drained⟩
      simpa [hpinger] using hwmu
  | @closes c hclose =>
      obtain ⟨-, hclosed, hbuffer⟩ := Channel.close_some hclose
      exact hs.of_sendCh rfl rfl rfl rfl rfl rfl rfl (fun _ => hclosed) fun _ hempty =>
        ⟨hclosed, hbuffer.trans hempty⟩
  | closePanicked => exact hs
  | awaited hdone hclosing =>
      exact ⟨hs.pump, hs.pinger, hs.done, fun _ => hs.closing (by omega), fun _ => hdone, hs.conn,
        hs.drained⟩
  | connClosed hclosed =>
      exact ⟨hs.pump, hs.pinger, hs.done, hs.closing, hs.closed, fun _ => hs.closed hclosed,
        hs.drained⟩

theorem guarded_of_reachable (hs : Reachable step newPeer s) : s.Guarded :=
  hs.invariant guarded_newPeer fun _ _ _ hI _ hstep => hI.moves (moves_of_step hstep)

/-! ### In order, and all but the last -/

theorem length_inHand_le (pump : Pump β) : pump.inHand.length ≤ 1 := by
  cases pump <;> simp [Pump.inHand]

/-- Beside what is written, at most one message has left the queue. -/
theorem Accounted.length_taken_le (hs : s.Accounted) : s.taken.length ≤ s.written.length + 1 := by
  rw [taken, List.length_append, List.length_append]
  cases hfailed : s.failed with
  | none =>
      have hhand := length_inHand_le s.pump
      simp only [Option.toList_none, List.length_nil]
      omega
  | some msg =>
      have hreturned := hs.failed (by simp [hfailed])
      simp [hreturned, Pump.inHand]

/-- A message is refused only where the queue is full. -/
theorem behind_of_refused {msg : β} (hs : s.Accounted)
    (h : (s.enqueue msg).counting = s.counting + 1) :
    s.accepted.length = s.taken.length + peerSendBufSize := by
  rw [enqueue] at h
  dsimp only at h
  cases hsend : s.sendCh.trySend msg with
  | accepted c => simp [hsend] at h
  | full =>
      have hcarries : s.accepted = s.taken ++ s.sendCh.buffer := hs.carries
      rw [hcarries, List.length_append, (Channel.trySend_full hsend).2]
  | panic => simp [hsend] at h

/-- **A slow peer gets what was accepted, in order.** What the socket has taken
is the beginning of what the queue accepted, short of at most 65 messages; what the queue
accepted is in the order of the calls, and the calls it did not accept are the counted ones
and the panics. A call is refused only to a peer that is 64 messages behind. -/
theorem written_in_order {s : Peer β} (hs : Reachable step newPeer s) :
    (∃ unwritten, s.accepted = s.written ++ unwritten ∧
      unwritten.length ≤ peerSendBufSize + 1) ∧
    s.accepted.Sublist s.offered ∧
    s.offered.length = s.accepted.length + s.dropped + s.counting + s.panics ∧
    ∀ msg, (s.enqueue msg).counting = s.counting + 1 →
      s.written.length + peerSendBufSize ≤ s.accepted.length := by
  have hacc := accounted_of_reachable hs
  have hcarries : s.accepted = s.taken ++ s.sendCh.buffer := hacc.carries
  refine ⟨⟨s.failed.toList ++ s.pump.inHand ++ s.sendCh.buffer, ?_, ?_⟩, hacc.sublist, hacc.counted,
    fun msg hrefused => ?_⟩
  · rw [hcarries, taken]
    simp only [List.append_assoc]
  · have htaken := hacc.length_taken_le
    have hwithin := s.sendCh.within
    rw [taken] at htaken
    simp only [List.length_append] at htaken ⊢
    omega
  · have hbehind := behind_of_refused hacc hrefused
    rw [taken] at hbehind
    simp only [List.length_append] at hbehind
    omega

/-- Two messages, of which the first has been written. -/
def twoOffered : List (PeerAction ℕ) :=
  [.enqueue 1, .enqueue 2, .pumpReceive, .pumpLock, .pumpWrite true]

theorem written_in_order_two :
    ((exec step newPeer twoOffered).get rfl).written = [1] ∧
    ∃ unwritten, ((exec step newPeer twoOffered).get rfl).accepted = [1] ++ unwritten ∧
      unwritten.length ≤ peerSendBufSize + 1 :=
  have hrun : (exec step newPeer twoOffered).isSome = true := rfl
  ⟨rfl, (written_in_order (reachable_get hrun)).1⟩

/-! ### Closing the queue -/

/-- The steps of `writePump`. -/
def ofPump : PeerAction β → Bool
  | .pumpReceive | .pumpLock | .pumpWrite _ => true
  | _ => false

/-- The steps that `writePump` can still make at a closed queue: three for each message that
waits, those for the message in hand, and the last receive. -/
def toGo (s : Peer β) : ℕ := 3 * s.sendCh.buffer.length + s.pump.toGo

theorem toGo_le (s : Peer β) : s.toGo ≤ 3 * peerSendBufSize + 3 := by
  have hwithin := s.sendCh.within
  have hpump : s.pump.toGo ≤ 3 := by cases s.pump <;> simp [Pump.toGo]
  rw [toGo]
  omega

theorem closed_of_moves (hclosed : s.sendCh.closed = true) (h : s.Moves a s') :
    s'.sendCh.closed = true := by
  cases h with
  | accepted hsend => exact absurd hclosed (by simp [(Channel.trySend_accepted hsend).1])
  | received hpump hrecv => exact (Channel.receive_value hrecv).1.trans hclosed
  | closes hclose => exact (Channel.close_some hclose).2.1
  | full | panicked | counted | drained | pumpLocked | wrote | writeFailed | ticked | pingLocked
  | pinged | pingFailed | stopped | closePanicked | awaited | connClosed => exact hclosed

/-- Nothing is accepted by a closed queue. -/
theorem accepted_of_moves (hclosed : s.sendCh.closed = true) (h : s.Moves a s') :
    s'.accepted = s.accepted := by
  cases h with
  | accepted hsend => exact absurd hclosed (by simp [(Channel.trySend_accepted hsend).1])
  | received | closes | full | panicked | counted | drained | pumpLocked | wrote | writeFailed
  | ticked | pingLocked | pinged | pingFailed | stopped | closePanicked | awaited
  | connClosed => rfl

/-- A step of `writePump` is one less to go. -/
theorem toGo_of_pump (h : s.Moves a s') (ha : ofPump a = true) : s'.toGo + 1 ≤ s.toGo := by
  cases h with
  | @received msg c hpump hrecv =>
      have hlength := congrArg List.length (Channel.receive_value hrecv).2
      rw [List.length_cons] at hlength
      show 3 * c.buffer.length + 3 + 1 ≤ 3 * s.sendCh.buffer.length + s.pump.toGo
      rw [hpump, Pump.toGo]
      omega
  | drained hpump =>
      show 3 * s.sendCh.buffer.length + 0 + 1 ≤ 3 * s.sendCh.buffer.length + s.pump.toGo
      rw [hpump, Pump.toGo]
  | pumpLocked hpump | wrote hpump =>
      rw [toGo, toGo, hpump]
      exact Nat.le_refl _
  | writeFailed hpump =>
      rw [toGo, toGo, hpump]
      show 3 * s.sendCh.buffer.length + 0 + 1 ≤ 3 * s.sendCh.buffer.length + 2
      omega
  | accepted | closes | full | panicked | counted | ticked | pingLocked | pinged | pingFailed
  | stopped | closePanicked | awaited | connClosed => cases ha

theorem toGo_of_other (hclosed : s.sendCh.closed = true) (h : s.Moves a s')
    (ha : ofPump a = false) : s'.toGo ≤ s.toGo := by
  cases h with
  | accepted hsend => exact absurd hclosed (by simp [(Channel.trySend_accepted hsend).1])
  | @closes c hclose =>
      rw [toGo, toGo, (Channel.close_some hclose).2.2]
  | received | drained | pumpLocked | wrote | writeFailed => cases ha
  | full | panicked | counted | ticked | pingLocked | pinged | pingFailed | stopped
  | closePanicked | awaited | connClosed => exact Nat.le_refl _

/-- At a closed queue `writePump` has a step to make, or waits for the write of a ping. -/
theorem exists_step (hs : s.Guarded) (hclosed : s.sendCh.closed = true)
    (hdone : s.done = false) :
    ∃ a s', s.step a = some s' ∧ (ofPump a = true ∨ a = .pingWrite false) := by
  cases hpump : s.pump with
  | receives =>
      have hsome : (s.step .pumpReceive).isSome = true := by
        rw [step]
        simp only [hpump, pumpReceive]
        cases hrecv : s.sendCh.receive with
        | value msg c => rfl
        | closed => rfl
        | waits => exact absurd hclosed (by simp [(Channel.receive_waits hrecv).1])
      obtain ⟨s', hstep⟩ := Option.isSome_iff_exists.mp hsome
      exact ⟨_, s', hstep, .inl rfl⟩
  | locks msg =>
      cases hwmu : s.wmu with
      | none => exact ⟨.pumpLock, _, by simp [step, hpump, hwmu]; rfl, .inl rfl⟩
      | some writer =>
          cases writer with
          | pump =>
              obtain ⟨msg', hwrites⟩ := hs.pump.mp hwmu
              rw [hpump] at hwrites
              cases hwrites
          | pinger =>
              have hpinger := hs.pinger.mp hwmu
              exact ⟨.pingWrite false, s.pingWrite false, by simp [step, hpinger, Writable],
                .inr rfl⟩
  | writes msg =>
      exact ⟨.pumpWrite false, s.pumpWrite msg false, by simp [step, hpump, Writable], .inl rfl⟩
  | returned => exact absurd (hs.done.mpr hpump) (by simp [hdone])

/-- **`closeSend` drains the queue.** From the close on nothing more is accepted and
`writePump` makes a bounded number of steps, of which one is possible, or waits for the write
of a ping, until it has returned; then, unless a write has failed, the socket has taken every
message. No `closeSend` comes back, and the socket is not closed, before that. -/
theorem closeSend_drains {s t : Peer β} {as : List (PeerAction β)}
    (hs : Reachable step newPeer s) (hclosed : s.sendCh.closed = true)
    (hrun : exec step s as = some t) :
    t.accepted = s.accepted ∧ as.countP ofPump ≤ 3 * peerSendBufSize + 3 ∧
    (t.done = false →
      ∃ a t', t.step a = some t' ∧ (ofPump a = true ∨ a = .pingWrite false)) ∧
    (t.done = true → t.failed = none → t.written = s.accepted) ∧
    (0 < t.closed ∨ t.connClosed = true → t.done = true) := by
  have ht := reachable_of_exec hs hrun
  have hguarded := guarded_of_reachable ht
  have hclosed' : t.sendCh.closed = true :=
    exec_invariant (I := fun s => s.sendCh.closed = true)
      (fun _ _ _ hI hstep => closed_of_moves hI (moves_of_step hstep)) hclosed hrun
  have haccepted : t.accepted = s.accepted :=
    (exec_invariant (I := fun t => t.sendCh.closed = true ∧ t.accepted = s.accepted)
      (fun _ _ _ hI hstep => ⟨closed_of_moves hI.1 (moves_of_step hstep),
        (accepted_of_moves hI.1 (moves_of_step hstep)).trans hI.2⟩) ⟨hclosed, rfl⟩ hrun).2
  have hsteps : as.countP ofPump + t.toGo ≤ s.toGo :=
    countP_add_potential_le (I := fun s => s.sendCh.closed = true)
      (fun _ _ _ hI hstep => closed_of_moves hI (moves_of_step hstep))
      (fun _ _ _ _ hstep ha => toGo_of_pump (moves_of_step hstep) ha)
      (fun _ _ _ hI hstep ha => toGo_of_other hI (moves_of_step hstep) ha) hclosed hrun
  refine ⟨haccepted, ?_, fun hdone => exists_step hguarded hclosed' hdone, fun hdone hfailed => ?_,
    fun h => h.elim hguarded.closed hguarded.conn⟩
  · have hbound := s.toGo_le
    omega
  · have hpump := hguarded.done.mp hdone
    have hcarries : t.accepted = t.taken ++ t.sendCh.buffer := (accounted_of_reachable ht).carries
    rw [taken, hpump, hfailed, (hguarded.drained hpump hfailed).2] at hcarries
    rw [← haccepted, hcarries]
    simp [Pump.inHand]

/-- A queue that is closed with one message in it, and the rest of the run. -/
def closedWithOne : List (PeerAction ℕ) := [.enqueue 1, .closeSend]

def drainingOne : List (PeerAction ℕ) :=
  [.pumpReceive, .pumpLock, .pumpWrite true, .pumpReceive, .awaitDone]

theorem closeSend_drains_one :
    ∃ t, exec step ((exec step newPeer closedWithOne).get rfl) drainingOne = some t ∧
      t.closed = 1 ∧ t.written = [1] := by
  have hstart : (exec step newPeer closedWithOne).isSome = true := rfl
  have hrun : exec step ((exec step newPeer closedWithOne).get hstart) drainingOne =
    some ((exec step newPeer (closedWithOne ++ drainingOne)).get rfl) := rfl
  exact ⟨_, hrun, rfl, (closeSend_drains (reachable_get hstart) rfl hrun).2.2.2.1 rfl rfl⟩

end Peer

end TrapChat.Gateway
