import TrapChat.Library.Transition
import TrapChat.Storage.Store

/-!
Calls in the client: `useCallManager`, with the handlers that `App` gives it. The functions of a
render see the state of that render, and so do the refs, which an effect updates after it; a
step of the transition system is a call of one of them, the end of a `getUserMedia` request, or
a render.

A call is over when its stream is stopped and nothing refers to it. A request that is granted
while another stream is held, or the end of a call that the last render does not show, breaks
this, and nothing later repairs it.
-/

namespace TrapChat.Client

open Storage Transition

/-- A `MediaStream` of the own devices, and one of a peer. -/
abbrev StreamId := ℕ
abbrev RemoteStreamId := ℕ

/-- A call of `requestMediaPermissions` at its await. -/
inductive MediaRequest
  | start (type : String) (room : RoomName)
  | answer (type : String) (room : RoomName)
  deriving DecidableEq

def MediaRequest.type : MediaRequest → String
  | .start type _ | .answer type _ => type

/-- What the functions of a render see. -/
structure CallView where
  callActive : Bool
  localStream : Option StreamId
  activeRoom : RoomName
  remoteStreams : List (PeerID × RemoteStreamId)
  deriving DecidableEq

structure CallFrame where
  type : String
  room : RoomName
  callType : Option String
  deriving DecidableEq

structure CallManager where
  /-- The state, and what the last render has of it. -/
  current : CallView
  shown : CallView
  callType : Option String
  callMuted : Bool
  callVideoOff : Bool
  pending : List MediaRequest
  /-- The streams that requests have given, and those whose tracks have been stopped. -/
  acquired : List StreamId
  stopped : StreamId → Bool
  remoteStopped : RemoteStreamId → Bool
  /-- Whether a stream's audio track is enabled, and its video track if it has one. -/
  audio : StreamId → Bool
  video : StreamId → Option Bool
  sent : List CallFrame
  alerts : List String

/-- The error of a refused request. -/
def mediaError (type name message : String) : String :=
  if name = "NotAllowedError" ∨ name = "PermissionDeniedError" then
    if type = "video" then
      "Camera and microphone access was denied. Click the lock icon in your address bar to " ++
        "allow access, then try again."
    else
      "Microphone access was denied. Click the lock icon in your address bar to allow access, " ++
        "then try again."
  else if name = "NotFoundError" ∨ name = "DevicesNotFoundError" then
    if type = "video" then
      "No camera or microphone found. Please connect a device and try again."
    else "No microphone found. Please connect one and try again."
  else if name = "NotReadableError" ∨ name = "TrackStartError" then
    "Your media device is already in use by another application."
  else message

inductive CallAction
  | startCall (type : String)
  | callOffer (room : RoomName) (callType : Option String)
  /-- A request gives a stream. `failure` is the error of sending it to the room's mesh. -/
  | granted (i : ℕ) (stream : StreamId) (failure : Option String) (connected : Bool)
  | denied (i : ℕ) (name message : String)
  | endCall (connected : Bool)
  | toggleMute
  | toggleVideo
  | track (pid : PeerID) (stream : RemoteStreamId)
  | setActiveRoom (room : RoomName)
  | render

namespace CallManager

def noCall : CallView := ⟨false, none, "", []⟩

def new : CallManager where
  current := noCall
  shown := noCall
  callType := none
  callMuted := false
  callVideoOff := false
  pending := []
  acquired := []
  stopped := fun _ => false
  remoteStopped := fun _ => false
  audio := fun _ => true
  video := fun _ => none
  sent := []
  alerts := []

def startCall (type : String) (s : CallManager) : CallManager :=
  if s.shown.callActive = true ∨ s.shown.activeRoom = "" then s
  else { s with pending := s.pending ++ [.start type s.shown.activeRoom] }

/-- The `call_offer` handler and `handleIncomingCall`. -/
def handleIncomingCall (room : RoomName) (callType : Option String) (s : CallManager) :
    CallManager :=
  if s.shown.callActive = true ∨ room = "" then s
  else { s with pending := s.pending ++ [.answer ((callType.filter (· ≠ "")).getD "audio") room] }

def send (connected : Bool) (frame : CallFrame) (s : CallManager) : CallManager :=
  if connected = true then { s with sent := s.sent ++ [frame] } else s

/-- A request has its stream, whose tracks are enabled. -/
def hold (type : String) (stream : StreamId) (s : CallManager) : CallManager :=
  { s with
    current := { s.current with localStream := some stream, callActive := true }
    callType := some type
    acquired := stream :: s.acquired
    audio := Function.update s.audio stream true
    video := Function.update s.video stream (if type = "video" then some true else none) }

/-- The alert of a request that fails. -/
def alert (request : MediaRequest) (message : String) (s : CallManager) : CallManager :=
  { s with
    alerts := s.alerts ++ [if message ≠ "" then message
      else match request with
        | .start _ _ => "Failed to start call"
        | .answer _ _ => "Failed to answer call — check your device permissions"] }

/-- What follows the await of a request. The offer goes out before the stream, the answer after
it. -/
def accept (stream : StreamId) (failure : Option String) (connected : Bool) (s : CallManager) :
    MediaRequest → CallManager
  | .start type room =>
    let s := (s.hold type stream).send connected ⟨"call_offer", room, some type⟩
    failure.elim s fun message => s.alert (.start type room) message
  | .answer type room =>
    let s := s.hold type stream
    failure.elim (s.send connected ⟨"call_answer", room, some type⟩) fun message =>
      s.alert (.answer type room) message

def endCall (connected : Bool) (s : CallManager) : CallManager :=
  let s := match s.shown.localStream with
    | some stream => { s with
        stopped := Function.update s.stopped stream true
        current := { s.current with localStream := none } }
    | none => s
  let s := s.send (connected && s.shown.activeRoom != "") ⟨"call_end", s.shown.activeRoom, none⟩
  { s with
    remoteStopped := fun r => s.remoteStopped r || s.shown.remoteStreams.any fun e => e.2 = r
    current := { s.current with callActive := false, remoteStreams := [] }
    callType := none
    callMuted := false
    callVideoOff := false }

def toggleMute (s : CallManager) : CallManager :=
  match s.shown.localStream with
  | some stream => { s with
      audio := Function.update s.audio stream (!s.audio stream)
      callMuted := s.audio stream }
  | none => s

def toggleVideo (s : CallManager) : CallManager :=
  match s.shown.localStream with
  | some stream =>
    match s.video stream with
    | some enabled => { s with
        video := Function.update s.video stream (some !enabled)
        callVideoOff := enabled }
    | none => s
  | none => s

/-- `new Map(prev).set(pid, stream)`. -/
def setRemote (pid : PeerID) (stream : RemoteStreamId) (s : CallManager) : CallManager :=
  { s with
    current := { s.current with
      remoteStreams :=
        if s.current.remoteStreams.any fun e => e.1 = pid then
          s.current.remoteStreams.map fun e => if e.1 = pid then (pid, stream) else e
        else s.current.remoteStreams ++ [(pid, stream)] } }

def step (s : CallManager) : CallAction → Option CallManager
  | .startCall type => some (s.startCall type)
  | .callOffer room callType => some (s.handleIncomingCall room callType)
  | .granted i stream failure connected =>
    match s.pending[i]? with
    | some request =>
      if stream ∈ s.acquired then none
      else some ({ s with pending := s.pending.eraseIdx i }.accept stream failure connected request)
    | none => none
  | .denied i name message =>
    match s.pending[i]? with
    | some request =>
      some ({ s with pending := s.pending.eraseIdx i }.alert request
        (mediaError request.type name message))
    | none => none
  | .endCall connected => some (s.endCall connected)
  | .toggleMute => some s.toggleMute
  | .toggleVideo => some s.toggleVideo
  | .track pid stream => some (s.setRemote pid stream)
  | .setActiveRoom room => some { s with current := { s.current with activeRoom := room } }
  | .render => some { s with shown := s.current }

/-! ### What the steps do to the streams -/

variable {s s' : CallManager} {a : CallAction}

/-- Two states that differ in nothing that a stream or a call is about. -/
structure SameCall (s s' : CallManager) : Prop where
  callActive : s'.current.callActive = s.current.callActive
  localStream : s'.current.localStream = s.current.localStream
  callMuted : s'.callMuted = s.callMuted
  callVideoOff : s'.callVideoOff = s.callVideoOff
  acquired : s'.acquired = s.acquired
  stopped : s'.stopped = s.stopped
  audio : s'.audio = s.audio
  video : s'.video = s.video
  shown : s'.shown.localStream = s.shown.localStream

theorem SameCall.refl (s : CallManager) : SameCall s s := by constructor <;> rfl

/-- A granted stream is held, whatever becomes of its messages. -/
theorem sameCall_accept (stream : StreamId) (failure : Option String) (connected : Bool)
    (s : CallManager) (request : MediaRequest) :
    SameCall (s.hold request.type stream) (s.accept stream failure connected request) := by
  cases request <;> cases failure <;> cases connected <;> constructor <;> rfl

/-- The steps, as far as the streams are concerned. -/
inductive StreamMoves (s : CallManager) : CallAction → CallManager → Prop
  | other {a : CallAction} {s' : CallManager} (hsame : SameCall s s')
      (ha : ∀ i stream failure connected, a ≠ .granted i stream failure connected)
      (hend : ∀ connected, a ≠ .endCall connected) : StreamMoves s a s'
  | holds {i : ℕ} {stream : StreamId} {failure : Option String} {connected : Bool}
      {t s' : CallManager} {type : String} (hfresh : stream ∉ s.acquired) (hsame : SameCall s t)
      (hheld : SameCall (t.hold type stream) s') :
      StreamMoves s (.granted i stream failure connected) s'
  | ends (connected : Bool) : StreamMoves s (.endCall connected) (s.endCall connected)
  | mutes : StreamMoves s .toggleMute s.toggleMute
  | hides : StreamMoves s .toggleVideo s.toggleVideo
  | renders : StreamMoves s .render { s with shown := s.current }

theorem streamMoves_of_step (h : s.step a = some s') : s.StreamMoves a s' := by
  cases a with
  | startCall type =>
      cases h
      refine .other ?_ (by simp) (by simp)
      rw [startCall]
      split <;> constructor <;> rfl
  | callOffer room callType =>
      cases h
      refine .other ?_ (by simp) (by simp)
      rw [handleIncomingCall]
      split <;> constructor <;> rfl
  | granted i stream failure connected =>
      rw [step] at h
      split at h
      · rename_i request hrequest
        split at h
        · cases h
        · cases h
          exact .holds ‹_› (by constructor <;> rfl) (sameCall_accept ..)
      · cases h
  | denied i name message =>
      rw [step] at h
      split at h
      · cases h
        exact .other (by constructor <;> rfl) (by simp) (by simp)
      · cases h
  | endCall connected =>
      cases h
      exact .ends connected
  | toggleMute =>
      cases h
      exact .mutes
  | toggleVideo =>
      cases h
      exact .hides
  | render =>
      cases h
      exact .renders
  | track | setActiveRoom =>
      cases h
      exact .other (by constructor <;> rfl) (by simp) (by simp)

/-- The end of a call, where the last render shows none. -/
theorem endCall_of_none (hshown : s.shown.localStream = none) (connected : Bool) :
    (s.endCall connected).current.localStream = s.current.localStream ∧
      (s.endCall connected).stopped = s.stopped := by
  rw [endCall, hshown]
  dsimp only
  rw [send]
  split <;> exact ⟨rfl, rfl⟩

/-- The end of the call that the last render shows. -/
theorem endCall_of_some {x : StreamId} (hshown : s.shown.localStream = some x)
    (connected : Bool) : (s.endCall connected).current.localStream = none ∧
      (s.endCall connected).stopped = Function.update s.stopped x true := by
  rw [endCall, hshown]
  dsimp only
  rw [send]
  split <;> exact ⟨rfl, rfl⟩

/-- What the end of a call leaves in any case. -/
theorem endCall_spec (s : CallManager) (connected : Bool) :
    (s.endCall connected).current.callActive = false ∧
      (s.endCall connected).callMuted = false ∧ (s.endCall connected).callVideoOff = false ∧
      (s.endCall connected).acquired = s.acquired ∧ (s.endCall connected).audio = s.audio ∧
      (s.endCall connected).video = s.video ∧ (s.endCall connected).shown = s.shown := by
  cases hshown : s.shown.localStream with
  | none =>
      rw [endCall, hshown]
      dsimp only
      rw [send]
      split <;> exact ⟨rfl, rfl, rfl, rfl, rfl, rfl, rfl⟩
  | some x =>
      rw [endCall, hshown]
      dsimp only
      rw [send]
      split <;> exact ⟨rfl, rfl, rfl, rfl, rfl, rfl, rfl⟩

/-- Muting changes tracks, not streams. -/
theorem toggle_streams (s : CallManager) :
    (s.toggleMute.current = s.current ∧ s.toggleMute.shown = s.shown ∧
      s.toggleMute.acquired = s.acquired ∧ s.toggleMute.stopped = s.stopped) ∧
    s.toggleVideo.current = s.current ∧ s.toggleVideo.shown = s.shown ∧
      s.toggleVideo.acquired = s.acquired ∧ s.toggleVideo.stopped = s.stopped := by
  constructor
  · rw [toggleMute]
    split <;> exact ⟨rfl, rfl, rfl, rfl⟩
  · rw [toggleVideo]
    split
    · split <;> exact ⟨rfl, rfl, rfl, rfl⟩
    · exact ⟨rfl, rfl, rfl, rfl⟩

/-! ### No stream is lost -/

/-- The streams that the state names are those that requests have given, and the one it holds
is live. -/
structure Given (s : CallManager) : Prop where
  live : ∀ x, s.current.localStream = some x → x ∈ s.acquired ∧ s.stopped x = false
  shown : ∀ x, s.shown.localStream = some x → x ∈ s.acquired
  stopped : ∀ x, s.stopped x = true → x ∈ s.acquired

/-- A stream that has been given and not been stopped is that of the call. -/
structure Coherent (s : CallManager) : Prop where
  held : ∀ x ∈ s.acquired, s.stopped x = false → s.current.localStream = some x
  callActive : s.current.callActive = s.current.localStream.isSome

/-- The state before a step that keeps the streams and the call together: a request is granted
where no stream is held, and a call is ended that is over already or that the last render
shows. -/
def Orderly (s : CallManager) : CallAction → Prop
  | .granted .. => s.current.localStream = none
  | .endCall _ => s.current.localStream = none ∨ s.shown.localStream = s.current.localStream
  | _ => True

instance (s : CallManager) : (a : CallAction) → Decidable (s.Orderly a)
  | .granted .. => inferInstanceAs (Decidable (_ = _))
  | .endCall _ => inferInstanceAs (Decidable (_ ∨ _))
  | .startCall _ | .callOffer .. | .denied .. | .toggleMute | .toggleVideo | .track ..
  | .setActiveRoom _ | .render => inferInstanceAs (Decidable True)

theorem given_new : new.Given := by
  constructor <;> simp [new, noCall]

theorem coherent_new : new.Coherent := by
  constructor <;> simp [new, noCall]

/-- Where the fields of the streams are as before, so are the facts about them. -/
theorem Given.of_eq (hs : s.Given) (hlocal : s'.current.localStream = s.current.localStream)
    (hshown : s'.shown.localStream = s.shown.localStream) (hacquired : s'.acquired = s.acquired)
    (hstopped : s'.stopped = s.stopped) : s'.Given where
  live := by
    rw [hlocal, hacquired, hstopped]
    exact hs.live
  shown := by
    rw [hshown, hacquired]
    exact hs.shown
  stopped := by
    rw [hstopped, hacquired]
    exact hs.stopped

theorem Given.hold (hs : s.Given) {stream : StreamId} (hfresh : stream ∉ s.acquired)
    (type : String) : (s.hold type stream).Given where
  live := by
    intro x hx
    cases hx
    refine ⟨List.mem_cons_self, Bool.eq_false_iff.mpr fun hstopped => ?_⟩
    exact hfresh (hs.stopped stream hstopped)
  shown := fun x hx => List.mem_cons_of_mem _ (hs.shown x hx)
  stopped := fun x hx => List.mem_cons_of_mem _ (hs.stopped x hx)

theorem Given.endCall (hs : s.Given) (connected : Bool) : (s.endCall connected).Given := by
  obtain ⟨-, -, -, hacquired, -, -, hshown⟩ := s.endCall_spec connected
  cases hseen : s.shown.localStream with
  | none =>
      obtain ⟨hlocal, hstopped⟩ := endCall_of_none hseen connected
      exact hs.of_eq hlocal (congrArg CallView.localStream hshown) hacquired hstopped
  | some y =>
      obtain ⟨hlocal, hstopped⟩ := endCall_of_some hseen connected
      refine ⟨fun x hx => ?_, fun x hx => ?_, fun x hx => ?_⟩
      · rw [hlocal] at hx
        cases hx
      · rw [hacquired]
        rw [hshown] at hx
        exact hs.shown x hx
      · rw [hacquired]
        rw [hstopped] at hx
        by_cases hxy : x = y
        · rw [hxy]
          exact hs.shown y hseen
        · rw [Function.update_of_ne hxy] at hx
          exact hs.stopped x hx

theorem Given.moves (hs : s.Given) (h : s.StreamMoves a s') : s'.Given := by
  cases h with
  | other hsame =>
      exact hs.of_eq hsame.localStream hsame.shown hsame.acquired hsame.stopped
  | @holds i stream failure connected t _ type hfresh hsame hheld =>
      have ht := hs.of_eq hsame.localStream hsame.shown hsame.acquired hsame.stopped
      have hhold := ht.hold (hsame.acquired ▸ hfresh) type
      exact hhold.of_eq hheld.localStream hheld.shown hheld.acquired hheld.stopped
  | ends connected => exact hs.endCall connected
  | mutes =>
      obtain ⟨hcurrent, hshown, hacquired, hstopped⟩ := s.toggle_streams.1
      exact hs.of_eq (congrArg CallView.localStream hcurrent)
        (congrArg CallView.localStream hshown) hacquired hstopped
  | hides =>
      obtain ⟨hcurrent, hshown, hacquired, hstopped⟩ := s.toggle_streams.2
      exact hs.of_eq (congrArg CallView.localStream hcurrent)
        (congrArg CallView.localStream hshown) hacquired hstopped
  | renders => exact ⟨hs.live, fun x hx => (hs.live x hx).1, hs.stopped⟩

theorem coherent_iff_of_eq (hlocal : s'.current.localStream = s.current.localStream)
    (hactive : s'.current.callActive = s.current.callActive) (hacquired : s'.acquired = s.acquired)
    (hstopped : s'.stopped = s.stopped) : s'.Coherent ↔ s.Coherent := by
  constructor
  · rintro ⟨hheld, hcall⟩
    rw [hacquired, hstopped, hlocal] at hheld
    rw [hactive, hlocal] at hcall
    exact ⟨hheld, hcall⟩
  · rintro ⟨hheld, hcall⟩
    refine ⟨?_, ?_⟩
    · rw [hacquired, hstopped, hlocal]
      exact hheld
    · rw [hactive, hlocal]
      exact hcall

/-- A stream that is granted replaces the one that is held. -/
theorem coherent_hold (hgiven : s.Given) (hs : s.Coherent) {stream : StreamId}
    (hfresh : stream ∉ s.acquired) (type : String) :
    (s.hold type stream).Coherent ↔ s.current.localStream = none := by
  constructor
  · intro h
    cases hlocal : s.current.localStream with
    | none => rfl
    | some x =>
        obtain ⟨hmem, hlive⟩ := hgiven.live x hlocal
        have hx : some stream = some x := h.held x (List.mem_cons_of_mem _ hmem) hlive
        rw [Option.some.inj hx] at hfresh
        exact absurd hmem hfresh
  · intro hnone
    refine ⟨fun x hx hlive => ?_, rfl⟩
    rcases List.mem_cons.mp hx with rfl | hold
    · rfl
    · have hheld := hs.held x hold hlive
      rw [hnone] at hheld
      cases hheld

/-- A call that is ended leaves nothing behind if the last render shows it. -/
theorem coherent_endCall (hgiven : s.Given) (hs : s.Coherent) (connected : Bool) :
    (s.endCall connected).Coherent ↔
      s.current.localStream = none ∨ s.shown.localStream = s.current.localStream := by
  obtain ⟨hactive, -, -, hacquired, -⟩ := s.endCall_spec connected
  cases hseen : s.shown.localStream with
  | none =>
      obtain ⟨hlocal, hstopped⟩ := endCall_of_none hseen connected
      constructor
      · intro h
        have hcall := h.callActive
        rw [hactive, hlocal] at hcall
        exact .inl (Option.isSome_eq_false_iff.mp hcall.symm |> Option.isNone_iff_eq_none.mp)
      · intro h
        have hnone : s.current.localStream = none := h.elim id Eq.symm
        refine ⟨?_, ?_⟩
        · rw [hacquired, hstopped, hlocal]
          exact hs.held
        · rw [hactive, hlocal, hnone]
          rfl
  | some y =>
      obtain ⟨hlocal, hstopped⟩ := endCall_of_some hseen connected
      constructor
      · intro h
        cases hcurrent : s.current.localStream with
        | none => exact .inl rfl
        | some x =>
            by_cases hxy : x = y
            · rw [hxy]
              exact .inr rfl
            · obtain ⟨hmem, hlive⟩ := hgiven.live x hcurrent
              have hheld := h.held x (by rw [hacquired]; exact hmem)
                (by rw [hstopped, Function.update_of_ne hxy]; exact hlive)
              rw [hlocal] at hheld
              cases hheld
      · intro h
        refine ⟨fun x hx hlive => ?_, ?_⟩
        · rw [hacquired] at hx
          rw [hstopped] at hlive
          by_cases hxy : x = y
          · rw [hxy, Function.update_self] at hlive
            cases hlive
          · rw [Function.update_of_ne hxy] at hlive
            have hheld := hs.held x hx hlive
            rcases h with hnone | hsame
            · rw [hnone] at hheld
              cases hheld
            · rw [← hsame] at hheld
              exact absurd (Option.some.inj hheld).symm hxy
        · rw [hactive, hlocal]
          rfl

theorem coherent_moves_iff (hgiven : s.Given) (hs : s.Coherent) (h : s.StreamMoves a s') :
    s'.Coherent ↔ s.Orderly a := by
  cases h with
  | other hsame ha hend =>
      have hcoherent : s'.Coherent := (coherent_iff_of_eq hsame.localStream hsame.callActive
        hsame.acquired hsame.stopped).mpr hs
      refine iff_of_true hcoherent ?_
      cases a with
      | granted i stream failure connected => exact absurd rfl (ha i stream failure connected)
      | endCall connected => exact absurd rfl (hend connected)
      | _ => trivial
  | @holds i stream failure connected t _ type hfresh hsame hheld =>
      have ht := hgiven.of_eq hsame.localStream hsame.shown hsame.acquired hsame.stopped
      have htc := (coherent_iff_of_eq hsame.localStream hsame.callActive hsame.acquired
        hsame.stopped).mpr hs
      rw [coherent_iff_of_eq hheld.localStream hheld.callActive hheld.acquired hheld.stopped,
        coherent_hold ht htc (hsame.acquired ▸ hfresh), hsame.localStream]
      exact Iff.rfl
  | ends connected => exact coherent_endCall hgiven hs connected
  | mutes =>
      obtain ⟨hcurrent, hshown, hacquired, hstopped⟩ := s.toggle_streams.1
      refine iff_of_true ?_ trivial
      exact (coherent_iff_of_eq (congrArg CallView.localStream hcurrent)
        (congrArg CallView.callActive hcurrent) hacquired hstopped).mpr hs
  | hides =>
      obtain ⟨hcurrent, hshown, hacquired, hstopped⟩ := s.toggle_streams.2
      refine iff_of_true ?_ trivial
      exact (coherent_iff_of_eq (congrArg CallView.localStream hcurrent)
        (congrArg CallView.callActive hcurrent) hacquired hstopped).mpr hs
  | renders => exact iff_of_true ⟨hs.held, hs.callActive⟩ trivial

/-- A live stream that neither the state nor the last render has. -/
structure Lost (x : StreamId) (s : CallManager) : Prop where
  acquired : x ∈ s.acquired
  live : s.stopped x = false
  current : s.current.localStream ≠ some x
  shown : s.shown.localStream ≠ some x

theorem Lost.of_eq {x : StreamId} (hs : Lost x s)
    (hlocal : s'.current.localStream = s.current.localStream)
    (hshown : s'.shown.localStream = s.shown.localStream) (hacquired : s'.acquired = s.acquired)
    (hstopped : s'.stopped = s.stopped) : Lost x s' where
  acquired := by
    rw [hacquired]
    exact hs.acquired
  live := by
    rw [hstopped]
    exact hs.live
  current := by
    rw [hlocal]
    exact hs.current
  shown := by
    rw [hshown]
    exact hs.shown

/-- No step finds a stream that is lost. -/
theorem Lost.moves {x : StreamId} (hs : Lost x s) (h : s.StreamMoves a s') : Lost x s' := by
  cases h with
  | other hsame => exact hs.of_eq hsame.localStream hsame.shown hsame.acquired hsame.stopped
  | @holds i stream failure connected t _ type hfresh hsame hheld =>
      have ht := hs.of_eq hsame.localStream hsame.shown hsame.acquired hsame.stopped
      have hne : stream ≠ x := fun heq => hfresh (heq ▸ hs.acquired)
      have hhold : Lost x (t.hold type stream) :=
        ⟨List.mem_cons_of_mem _ ht.acquired, ht.live, fun hx => hne (Option.some.inj hx), ht.shown⟩
      exact hhold.of_eq hheld.localStream hheld.shown hheld.acquired hheld.stopped
  | ends connected =>
      obtain ⟨-, -, -, hacquired, -, -, hshown⟩ := s.endCall_spec connected
      cases hseen : s.shown.localStream with
      | none =>
          obtain ⟨hlocal, hstopped⟩ := endCall_of_none hseen connected
          exact hs.of_eq hlocal (congrArg CallView.localStream hshown) hacquired hstopped
      | some y =>
          obtain ⟨hlocal, hstopped⟩ := endCall_of_some hseen connected
          have hne : x ≠ y := fun heq => hs.shown (heq ▸ hseen)
          refine ⟨hacquired ▸ hs.acquired, ?_, by simp [hlocal], ?_⟩
          · rw [hstopped, Function.update_of_ne hne]
            exact hs.live
          · rw [hshown]
            exact hs.shown
  | mutes =>
      obtain ⟨hcurrent, hshown, hacquired, hstopped⟩ := s.toggle_streams.1
      exact hs.of_eq (congrArg CallView.localStream hcurrent)
        (congrArg CallView.localStream hshown) hacquired hstopped
  | hides =>
      obtain ⟨hcurrent, hshown, hacquired, hstopped⟩ := s.toggle_streams.2
      exact hs.of_eq (congrArg CallView.localStream hcurrent)
        (congrArg CallView.localStream hshown) hacquired hstopped
  | renders => exact ⟨hs.acquired, hs.live, hs.current, hs.current⟩

/-- **Exactly the orderly runs keep track of the microphone and the camera.** At every moment of
a run each live stream is that of the call, and there is one only during a call, if and only if
each request is granted where no stream is held and each call is ended that is over already or
that the last render shows. What a run has lost is live for ever. -/
theorem streams_kept_iff (as : List CallAction) :
    ((∀ before after t, as = before ++ after → exec step new before = some t → t.Coherent) ↔
      Along step (fun s a _ => s.Orderly a) new as) ∧
    ∀ s t x, Lost x s → exec step s as = some t → Lost x t := by
  constructor
  · rw [← along_states_iff coherent_new]
    refine along_congr (I := fun s => s.Given ∧ s.Coherent) ?_ ?_ ⟨given_new, coherent_new⟩
    · intro s a s' hI hQ hstep
      have hmoves := streamMoves_of_step hstep
      exact ⟨hI.1.moves hmoves, (coherent_moves_iff hI.1 hI.2 hmoves).mpr hQ⟩
    · intro s a s' hI hstep
      exact coherent_moves_iff hI.1 hI.2 (streamMoves_of_step hstep)
  · intro s t x hs hrun
    induction as generalizing s with
    | nil =>
        cases hrun
        exact hs
    | cons a as ih =>
        obtain ⟨s', hstep, hrest⟩ := Option.bind_eq_some_iff.mp hrun
        exact ih s' (hs.moves (streamMoves_of_step hstep)) hrest

/-- A call is started while an incoming one is being answered. -/
def twoRequests : List CallAction :=
  [.setActiveRoom "r", .render, .startCall "audio", .callOffer "r" none,
    .granted 0 1 none true, .granted 0 2 none true, .render]

theorem streams_kept_iff_two : ∃ s t, exec step new twoRequests = some s ∧ s.stopped 1 = false ∧
    exec step s [.endCall true, .render] = some t ∧ t.current.callActive = false ∧ Lost 1 t := by
  have hstart : (exec step new twoRequests).isSome = true := by decide
  have hlost : Lost 1 ((exec step new twoRequests).get hstart) :=
    ⟨show 1 ∈ [2, 1] by decide, rfl, show some 2 ≠ some 1 by decide,
      show some 2 ≠ some 1 by decide⟩
  have hrun : exec step ((exec step new twoRequests).get hstart) [.endCall true, .render] =
    some ((exec step new (twoRequests ++ [.endCall true, .render])).get (by decide)) := rfl
  exact ⟨_, _, (Option.some_get hstart).symm, rfl, hrun, rfl,
    (streams_kept_iff [.endCall true, .render]).2 _ _ 1 hlost hrun⟩

/-! ### The mute buttons -/

/-- The buttons say what the tracks do, and nothing outside a call. -/
structure Truthful (s : CallManager) : Prop where
  muted : ∀ x, s.current.localStream = some x → s.callMuted = !s.audio x
  videoOff : ∀ x, s.current.localStream = some x →
    s.callVideoOff = decide (s.video x = some false)
  idle : s.current.localStream = none → s.callMuted = false ∧ s.callVideoOff = false

/-- Beside the orderly steps: a button is pressed that the last render shows for the stream
that is held. -/
def Synced (s : CallManager) : CallAction → Prop
  | .toggleMute | .toggleVideo =>
    s.shown.localStream = none ∨ s.shown.localStream = s.current.localStream
  | a => s.Orderly a

instance (s : CallManager) : (a : CallAction) → Decidable (s.Synced a)
  | .toggleMute | .toggleVideo => inferInstanceAs (Decidable (_ ∨ _))
  | .granted .. => inferInstanceAs (Decidable (_ = _))
  | .endCall _ => inferInstanceAs (Decidable (_ ∨ _))
  | .startCall _ | .callOffer .. | .denied .. | .track .. | .setActiveRoom _ | .render =>
    inferInstanceAs (Decidable True)

theorem truthful_new : new.Truthful := by
  constructor <;> simp [new, noCall]

theorem Truthful.of_eq (hs : s.Truthful) (hsame : SameCall s s') : s'.Truthful where
  muted := by
    rw [hsame.localStream, hsame.callMuted, hsame.audio]
    exact hs.muted
  videoOff := by
    rw [hsame.localStream, hsame.callVideoOff, hsame.video]
    exact hs.videoOff
  idle := by
    rw [hsame.localStream, hsame.callMuted, hsame.callVideoOff]
    exact hs.idle

/-- The tracks of a new stream are enabled, as the buttons have been reset. -/
theorem Truthful.hold (hs : s.Truthful) (hnone : s.current.localStream = none)
    (type : String) (stream : StreamId) : (s.hold type stream).Truthful where
  muted := by
    intro x hx
    cases hx
    show s.callMuted = !Function.update s.audio stream true stream
    rw [Function.update_self, (hs.idle hnone).1]
    rfl
  videoOff := by
    intro x hx
    cases hx
    show s.callVideoOff = decide (Function.update s.video stream _ stream = some false)
    rw [Function.update_self, (hs.idle hnone).2]
    split <;> rfl
  idle := fun h => absurd h (Option.some_ne_none stream)

theorem truthful_endCall (connected : Bool)
    (hend : s.current.localStream = none ∨ s.shown.localStream = s.current.localStream) :
    (s.endCall connected).Truthful := by
  obtain ⟨-, hmuted, hvideoOff, -⟩ := s.endCall_spec connected
  have hlocal : (s.endCall connected).current.localStream = none := by
    cases hseen : s.shown.localStream with
    | none =>
        rw [(endCall_of_none hseen connected).1]
        exact hend.elim id fun h => h.symm.trans hseen
    | some y => exact (endCall_of_some hseen connected).1
  refine ⟨fun x hx => ?_, fun x hx => ?_, fun _ => ⟨hmuted, hvideoOff⟩⟩
  · rw [hlocal] at hx
    cases hx
  · rw [hlocal] at hx
    cases hx

theorem Truthful.toggleMute (hs : s.Truthful)
    (hshown : s.shown.localStream = none ∨ s.shown.localStream = s.current.localStream) :
    s.toggleMute.Truthful := by
  rw [CallManager.toggleMute]
  split
  · rename_i y hy
    have hlocal : s.current.localStream = some y := by
      rcases hshown with hnone | hsame
      · rw [hnone] at hy
        cases hy
      · exact hsame.symm.trans hy
    refine ⟨fun x hx => ?_, hs.videoOff, fun hnone => ?_⟩
    · obtain rfl := Option.some.inj (hlocal.symm.trans hx)
      show s.audio y = !Function.update s.audio y (!s.audio y) y
      rw [Function.update_self, Bool.not_not]
    · rw [hlocal] at hnone
      cases hnone
  · exact hs

theorem Truthful.toggleVideo (hs : s.Truthful)
    (hshown : s.shown.localStream = none ∨ s.shown.localStream = s.current.localStream) :
    s.toggleVideo.Truthful := by
  rw [CallManager.toggleVideo]
  split
  · rename_i y hy
    have hlocal : s.current.localStream = some y := by
      rcases hshown with hnone | hsame
      · rw [hnone] at hy
        cases hy
      · exact hsame.symm.trans hy
    split
    · rename_i enabled henabled
      refine ⟨hs.muted, fun x hx => ?_, fun hnone => ?_⟩
      · obtain rfl := Option.some.inj (hlocal.symm.trans hx)
        show enabled = decide (Function.update s.video y (some !enabled) y = some false)
        rw [Function.update_self]
        cases enabled <;> rfl
      · rw [hlocal] at hnone
        cases hnone
    · exact hs
  · exact hs

theorem Truthful.moves (hs : s.Truthful) (hsynced : s.Synced a) (h : s.StreamMoves a s') :
    s'.Truthful := by
  cases h with
  | other hsame => exact hs.of_eq hsame
  | @holds i stream failure connected t _ type hfresh hsame hheld =>
      have ht := hs.of_eq hsame
      exact (ht.hold (hsame.localStream.trans hsynced) type stream).of_eq hheld
  | ends connected => exact truthful_endCall connected hsynced
  | mutes => exact hs.toggleMute hsynced
  | hides => exact hs.toggleVideo hsynced
  | renders => exact ⟨hs.muted, hs.videoOff, hs.idle⟩

/-- **Muted is muted.** In every run whose requests are granted where no stream is held, and
whose buttons are pressed on a render that shows the stream that is held, `callMuted` and
`callVideoOff` say at every moment whether the tracks of the call are disabled, and neither is
set outside a call. -/
theorem buttons_truthful {s : CallManager} (hs : ReachableVia step Synced new s) : s.Truthful :=
  hs.invariant truthful_new fun _ _ _ hI hsynced hstep =>
    hI.moves hsynced (streamMoves_of_step hstep)

/-- A call that is muted. -/
def mutedCall : List CallAction :=
  [.setActiveRoom "r", .render, .startCall "video", .granted 0 1 none true, .render, .toggleMute]

theorem buttons_truthful_muted :
    ∃ s, exec step new mutedCall = some s ∧ s.audio 1 = false ∧ s.callMuted = !s.audio 1 := by
  have hrun : (execVia step Synced new mutedCall).isSome = true := by decide
  exact ⟨(execVia step Synced new mutedCall).get hrun, rfl, rfl,
    (buttons_truthful (reachableVia_get hrun)).muted 1 rfl⟩

end CallManager

end TrapChat.Client
