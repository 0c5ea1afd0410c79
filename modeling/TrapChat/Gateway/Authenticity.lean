import TrapChat.Gateway.Handler
import TrapChat.Library.Transition

/-!
What other peers receive of a client's message. Two ways lead to another peer:
`broadcast`, which signs every envelope after its spoofable fields have been
overwritten, and the direct send of a signal to its target. Two properties are
stated about one message: each envelope is the server's account of it, and none
depends on the fields that the server owns.
-/

namespace TrapChat.Gateway

open Storage Protocol Transition

/-- The envelope that an output enqueues to a peer. -/
def Output.envelopeFor (q : PeerID) : Output → Option Envelope
  | .send targets env | .presence targets env _ => if q ∈ targets then some env else none
  | .forward _ | .close _ => none

/-- The envelopes that a handler enqueues to a peer. -/
def received (q : PeerID) (res : Server × List Output) : List Envelope :=
  res.2.filterMap (Output.envelopeFor q)

/-- The envelope names its sender, or is a presence message of the server's own;
its timestamp is the server's, and its signature is that of the envelope. -/
structure Authentic (rt : GoRuntime) (p : PeerID) (now : Time) (env : Envelope) : Prop where
  sender : env.id = p ∨ env.type = .presence
  timestamp : env.timestamp = unixMilli now
  signature : env.sig =
    rt.signHMAC [env.id, env.type.wire, env.room, env.payload, toString env.timestamp]

/-- A client's envelope with other values in the fields that the server owns. -/
def spoof (env : Envelope) (id : String) (timestamp : ℤ) (sig : String) : Envelope :=
  { env with id := id, timestamp := timestamp, sig := sig }

/-- What the other peers receive is authentic, and the same whatever the client
puts in the fields that the server owns. -/
structure SenderAuthentic (rt : GoRuntime) (s : Server) (p : PeerID) (env : Envelope)
    (now : Time) : Prop where
  authentic : ∀ q, q ≠ p → ∀ e ∈ received q (handleFrame rt s p (some env) now),
    Authentic rt p now e
  independent : ∀ id timestamp sig q, q ≠ p →
    received q (handleFrame rt s p (some (spoof env id timestamp sig)) now) =
      received q (handleFrame rt s p (some env) now)

/-- The message types with a target. -/
def MessageType.signals : MessageType → Bool
  | .signal | .callOffer | .callAnswer | .callEnd => true
  | _ => false

/-- The target of a signal, when it is another peer of this gateway that is in
the room. -/
def Server.hasTarget (s : Server) (p : PeerID) (env : Envelope) : Prop :=
  env.toPeer ≠ "" ∧ env.toPeer ≠ p ∧ env.toPeer ∈ s.conns ∧ s.inRoom env.toPeer env.room = true

/-- A signal that is accepted and has a target here. -/
def Signalled (s : Server) (p : PeerID) (env : Envelope) (now : Time) : Prop :=
  s.inRoom p env.room = true ∧ (env.type = .signal → (s.signalRL.allow p now).2 = true) ∧
    s.hasTarget p env

/-- The message is a signal that is sent to its target directly. -/
def SentDirectly (rt : GoRuntime) (s : Server) (p : PeerID) (env : Envelope) (now : Time) : Prop :=
  MessageType.signals env.type = true ∧ validateRoomName rt env.room = "" ∧ Signalled s p env now

instance (s : Server) (p : PeerID) (env : Envelope) : Decidable (s.hasTarget p env) :=
  inferInstanceAs (Decidable (_ ∧ _))

instance (s : Server) (p : PeerID) (env : Envelope) (now : Time) :
    Decidable (Signalled s p env now) := inferInstanceAs (Decidable (_ ∧ _))

instance (rt : GoRuntime) (s : Server) (p : PeerID) (env : Envelope) (now : Time) :
    Decidable (SentDirectly rt s p env now) := inferInstanceAs (Decidable (_ ∧ _))

/-! ### What a list of outputs tells the other peers -/

/-- All that some outputs enqueue to other peers is authentic. -/
def Vouched (rt : GoRuntime) (p : PeerID) (now : Time) (os : List Output) : Prop :=
  ∀ o ∈ os, ∀ q, q ≠ p → ∀ e ∈ o.envelopeFor q, Authentic rt p now e

variable {rt : GoRuntime} {s : Server} {p : PeerID} {env : Envelope} {now : Time}

theorem envelopeFor_send {targets : Finset PeerID} {e e' : Envelope} {q : PeerID}
    (h : e' ∈ (Output.send targets e).envelopeFor q) : q ∈ targets ∧ e' = e := by
  by_cases hq : q ∈ targets
  · exact ⟨hq, by simpa [Output.envelopeFor, hq, eq_comm] using h⟩
  · simp [Output.envelopeFor, hq] at h

theorem envelopeFor_presence {targets : Finset PeerID} {e e' : Envelope} {pp : PresencePayload}
    {q : PeerID} (h : e' ∈ (Output.presence targets e pp).envelopeFor q) :
    q ∈ targets ∧ e' = e := by
  by_cases hq : q ∈ targets
  · exact ⟨hq, by simpa [Output.envelopeFor, hq, eq_comm] using h⟩
  · simp [Output.envelopeFor, hq] at h

theorem Vouched.received {res : Server × List Output} (h : Vouched rt p now res.2) {q : PeerID}
    (hq : q ≠ p) : ∀ e ∈ received q res, Authentic rt p now e := by
  intro e he
  obtain ⟨o, ho, heq⟩ := List.mem_filterMap.mp he
  exact h o ho q hq e heq

theorem vouched_nil : Vouched rt p now [] := fun _ ho => nomatch ho

theorem Vouched.cons {o : Output} {os : List Output}
    (ho : ∀ q, q ≠ p → ∀ e ∈ o.envelopeFor q, Authentic rt p now e) (hos : Vouched rt p now os) :
    Vouched rt p now (o :: os) := by
  intro o' ho'
  obtain rfl | hmem := List.mem_cons.mp ho'
  · exact ho
  · exact hos o' hmem

/-- What is sent to the peer itself tells the others nothing. -/
theorem Vouched.own (e : Envelope) {os : List Output} (hos : Vouched rt p now os) :
    Vouched rt p now (.send {p} e :: os) := by
  refine hos.cons fun q hq e' he => ?_
  exact absurd (Finset.mem_singleton.mp (envelopeFor_send he).1) hq

theorem Vouched.forward (e : Envelope) {os : List Output} (hos : Vouched rt p now os) :
    Vouched rt p now (.forward e :: os) :=
  hos.cons fun _ _ _ he => by cases he

theorem vouched_error (msg : String) : Vouched rt p now [sendError p msg now] :=
  vouched_nil.own _

/-- A broadcast signs what the server has stamped. -/
theorem Vouched.broadcast (t : Server) (room : RoomName) {os : List Output}
    (hos : Vouched rt p now os) :
    Vouched rt p now (broadcast rt t room (stamp env p now) p :: os) := by
  refine hos.cons fun q _ e he => ?_
  obtain ⟨-, rfl⟩ := envelopeFor_send he
  exact ⟨.inl rfl, rfl, rfl⟩

theorem Vouched.presence (t : Server) (room : RoomName) {os : List Output}
    (hos : Vouched rt p now os) : Vouched rt p now (broadcastPresence rt t room now :: os) := by
  refine hos.cons fun q _ e he => ?_
  obtain ⟨-, rfl⟩ := envelopeFor_presence he
  exact ⟨.inr rfl, rfl, rfl⟩

/-! ### The handlers -/

theorem vouched_join : Vouched rt p now (handleJoin rt s p env now).2 := by
  unfold handleJoin joinRoom
  split
  · exact vouched_error _
  · split
    · exact vouched_error _
    · dsimp only
      split
      · exact vouched_error _
      · exact ((vouched_nil.forward _).own _).presence _ _

theorem vouched_leave : Vouched rt p now (handleLeave rt s p env now).2 :=
  ((vouched_nil.forward _).own _).presence _ _

theorem vouched_forwarded (refusal : String) :
    Vouched rt p now (handleForwarded refusal rt s p env now).2 := by
  unfold handleForwarded
  dsimp only
  split
  · exact vouched_error _
  · split
    · exact vouched_error _
    · exact (vouched_nil.forward _).broadcast _ _

theorem vouched_typing : Vouched rt p now (handleTyping rt s p env now).2 := by
  unfold handleTyping
  split
  · exact vouched_error _
  · dsimp only
    split
    · exact vouched_nil
    · exact vouched_nil.broadcast _ _

theorem vouched_receipt : Vouched rt p now (handleReceipt rt s p env now).2 := by
  unfold handleReceipt
  split
  · exact vouched_error _
  · exact vouched_nil.broadcast _ _

/-- Only a signal with a target here is sent as it is. -/
theorem vouched_routeSignal (h : ¬s.hasTarget p env) :
    Vouched rt p now (routeSignal rt s p (stamp env p now)) := by
  unfold routeSignal
  split
  · rename_i hto
    split
    · rename_i htarget
      have hself : env.toPeer = p := by
        by_contra hne
        exact h ⟨hto, hne, htarget⟩
      show Vouched rt p now [.send {env.toPeer} _]
      rw [hself]
      exact vouched_nil.own _
    · exact vouched_nil.forward _
  · exact (vouched_nil.forward _).broadcast _ _

theorem vouched_signal (h : ¬Signalled s p env now) :
    Vouched rt p now (handleSignal rt s p env now).2 := by
  unfold handleSignal
  split
  · exact vouched_error _
  · rename_i hroom
    have hin : s.inRoom p env.room = true := by simpa using hroom
    split
    · dsimp only
      split
      · exact vouched_nil
      · rename_i hallow
        split
        · exact vouched_error _
        · exact vouched_routeSignal fun ht => h ⟨hin, fun _ => by simpa using hallow, ht⟩
    · rename_i htype
      exact vouched_routeSignal fun ht => h ⟨hin, fun heq => absurd heq htype, ht⟩

theorem vouched_type (h : MessageType.signals env.type = true → ¬Signalled s p env now) :
    Vouched rt p now (handleType rt s p env now).2 := by
  unfold handleType
  split
  case h_1 => exact vouched_join
  case h_2 => exact vouched_leave
  case h_3 => exact vouched_forwarded _
  case h_4 => exact vouched_forwarded _
  case h_5 => exact vouched_typing
  case h_6 => exact vouched_receipt
  case h_7 => exact vouched_forwarded _
  case h_12 => exact vouched_nil
  case h_13 => exact vouched_error _
  all_goals
    rename_i htype
    exact vouched_signal (h (by rw [htype]; rfl))

theorem needsRoom_of_signals {type : MessageType} (h : MessageType.signals type = true) :
    MessageType.needsRoom type = true := by
  cases type <;> first | rfl | cases h

theorem vouched_frame (h : ¬SentDirectly rt s p env now) :
    Vouched rt p now (handleFrame rt s p (some env) now).2 := by
  unfold handleFrame
  dsimp only
  split
  · exact vouched_error _
  · rename_i hname
    refine vouched_type fun htype hsignalled => h ⟨htype, ?_, hsignalled⟩
    by_contra hne
    exact hname ⟨needsRoom_of_signals htype, hne⟩

/-! ### Independence of the fields that the server owns -/

section
variable (id : String) (timestamp : ℤ) (sig : String)

theorem received_forwarded (refusal : String) (q : PeerID) :
    received q (handleForwarded refusal rt s p (spoof env id timestamp sig) now) =
      received q (handleForwarded refusal rt s p env now) := by
  unfold handleForwarded spoof
  dsimp only
  split
  · rfl
  · split <;> rfl

theorem received_typing (q : PeerID) :
    received q (handleTyping rt s p (spoof env id timestamp sig) now) =
      received q (handleTyping rt s p env now) := by
  unfold handleTyping spoof
  dsimp only
  split
  · rfl
  · split <;> rfl

theorem received_receipt (q : PeerID) :
    received q (handleReceipt rt s p (spoof env id timestamp sig) now) =
      received q (handleReceipt rt s p env now) := by
  unfold handleReceipt spoof
  dsimp only
  split <;> rfl

theorem received_routeSignal (h : ¬s.hasTarget p env) {q : PeerID} (hq : q ≠ p) {t t' : Server} :
    received q (t, routeSignal rt s p (stamp (spoof env id timestamp sig) p now)) =
      received q (t', routeSignal rt s p (stamp env p now)) := by
  unfold routeSignal spoof stamp
  dsimp only
  split
  · rename_i hto
    split
    · rename_i htarget
      have hself : env.toPeer = p := by
        by_contra hne
        exact h ⟨hto, hne, htarget⟩
      simp [received, Output.envelopeFor, hself, hq]
    · rfl
  · rfl

theorem received_signal (h : ¬Signalled s p env now) {q : PeerID} (hq : q ≠ p) :
    received q (handleSignal rt s p (spoof env id timestamp sig) now) =
      received q (handleSignal rt s p env now) := by
  unfold handleSignal
  show received q (if s.inRoom p env.room = false then _ else if env.type = .signal then _ else _) = _
  split
  · rfl
  · rename_i hroom
    have hin : s.inRoom p env.room = true := by simpa using hroom
    split
    · dsimp only
      split
      · rfl
      · rename_i hallow
        show received q (if env.toPeer = "" then _ else _) = _
        split
        · rfl
        · exact received_routeSignal id timestamp sig
            (fun ht => h ⟨hin, fun _ => by simpa using hallow, ht⟩) hq
    · rename_i htype
      exact received_routeSignal id timestamp sig
        (fun ht => h ⟨hin, fun heq => absurd heq htype, ht⟩) hq

theorem received_type (h : MessageType.signals env.type = true → ¬Signalled s p env now)
    {q : PeerID} (hq : q ≠ p) :
    received q (handleType rt s p (spoof env id timestamp sig) now) =
      received q (handleType rt s p env now) := by
  obtain ⟨i, m, type, room, payload, t, g, toPeer⟩ := env
  cases type with
  | chat | media | keyRotation => exact received_forwarded id timestamp sig _ q
  | typing => exact received_typing id timestamp sig q
  | receipt => exact received_receipt id timestamp sig q
  | signal | callOffer | callAnswer | callEnd => exact received_signal id timestamp sig (h rfl) hq
  | _ => rfl

theorem received_frame (h : ¬SentDirectly rt s p env now) {q : PeerID} (hq : q ≠ p) :
    received q (handleFrame rt s p (some (spoof env id timestamp sig)) now) =
      received q (handleFrame rt s p (some env) now) := by
  by_cases hname : MessageType.needsRoom env.type = true ∧ validateRoomName rt env.room ≠ ""
  · have hrefuse : ∀ e : Envelope, e.type = env.type → e.room = env.room →
        handleFrame rt s p (some e) now =
          (s, [sendError p (validateRoomName rt env.room) now]) := by
      intro e htype hroom
      rw [handleFrame, htype, hroom, if_pos hname]
    rw [hrefuse (spoof env id timestamp sig) rfl rfl, hrefuse env rfl rfl]
  · have haccept : ∀ e : Envelope, e.type = env.type → e.room = env.room →
        handleFrame rt s p (some e) now = handleType rt s p e now := by
      intro e htype hroom
      rw [handleFrame, htype, hroom, if_neg hname]
    rw [haccept (spoof env id timestamp sig) rfl rfl, haccept env rfl rfl]
    refine received_type id timestamp sig (fun htype hsignalled => h ⟨htype, ?_, hsignalled⟩) hq
    by_contra hne
    exact hname ⟨needsRoom_of_signals htype, hne⟩

end

/-! ### A direct send -/

/-- The target receives the client's envelope with its signature field. -/
theorem received_direct (h : SentDirectly rt s p env now) :
    received env.toPeer (handleFrame rt s p (some env) now) = [stamp env p now] := by
  obtain ⟨htype, hname, hroom, hallow, hto, -, hconn, hin⟩ := h
  have hframe : handleFrame rt s p (some env) now = handleType rt s p env now := by
    rw [handleFrame, if_neg fun hn => hn.2 hname]
  have hroute : ∀ t : Server, t.conns = s.conns → t.peerRooms = s.peerRooms →
      routeSignal rt t p (stamp env p now) = [.send {env.toPeer} (stamp env p now)] := by
    intro t hconns hrooms
    have hin' : t.inRoom env.toPeer env.room = true := by
      rw [Server.inRoom, Server.roomsOf, hrooms]
      exact hin
    rw [routeSignal, if_pos (show (stamp env p now).toPeer ≠ "" from hto), if_pos]
    · rfl
    · exact ⟨by rw [hconns]; exact hconn, hin'⟩
  have hsignal : ∃ t, handleSignal rt s p env now = (t, [.send {env.toPeer} (stamp env p now)]) := by
    have hmember : ¬s.inRoom p env.room = false := by simp [hroom]
    unfold handleSignal
    rw [if_neg hmember]
    split
    · rename_i hsig
      have hallowed : ¬(s.signalRL.allow p now).2 = false := by simp [hallow hsig]
      dsimp only
      rw [if_neg hallowed]
      exact ⟨_, Prod.ext rfl (hroute _ rfl rfl)⟩
    · exact ⟨_, Prod.ext rfl (hroute _ rfl rfl)⟩
  obtain ⟨t, hsignal⟩ := hsignal
  have hhandle : handleType rt s p env now = handleSignal rt s p env now := by
    obtain ⟨i, m, type, room, payload, t, g, toPeer⟩ := env
    cases type <;> first | rfl | cases htype
  rw [hframe, hhandle, hsignal]
  simp [received, Output.envelopeFor]

/-- **What other peers receive is authentic and independent of the fields that the
server owns, exactly when the message is not sent to its target directly.** -/
theorem senderAuthentic_iff (rt : GoRuntime) (s : Server) (p : PeerID) (env : Envelope)
    (now : Time) : SenderAuthentic rt s p env now ↔ ¬SentDirectly rt s p env now := by
  constructor
  · intro ha hdirect
    have hspoof : SentDirectly rt s p (spoof env env.id env.timestamp (env.sig ++ "0")) now := hdirect
    have hsame := ha.independent env.id env.timestamp (env.sig ++ "0") env.toPeer hdirect.2.2.2.2.2.1
    rw [received_direct hdirect] at hsame
    have hstamp : stamp (spoof env env.id env.timestamp (env.sig ++ "0")) p now = stamp env p now :=
      List.singleton_inj.mp ((received_direct hspoof).symm.trans hsame)
    have hsig : env.sig ++ "0" = env.sig := congrArg Envelope.sig hstamp
    have hlength := congrArg String.length hsig
    simp [String.length_append] at hlength
  · intro h
    exact ⟨fun q hq => (vouched_frame h).received hq,
      fun id timestamp sig q hq => received_frame id timestamp sig h hq⟩

/-- Two peers join a room. -/
def twoPeers : List Event :=
  [.connect "a" 0, .connect "b" 0, .frame "a" (some { type := .join, room := "r" }) 0,
    .frame "b" (some { type := .join, room := "r" }) 0]

theorem twoPeers_run :
    (exec (step (asciiRuntime "" {})) newServer twoPeers).isSome = true := by
  decide

/-- **A signature of the client's own reaches the target of a signal.** -/
theorem signal_keeps_sig : ¬∀ s, Reachable (step (asciiRuntime "" {})) newServer s →
    ∀ p ∈ s.conns, ∀ env now, SenderAuthentic (asciiRuntime "" {}) s p env now := by
  intro h
  have ha := h _ (reachable_get twoPeers_run) "a" (by decide)
    { type := .signal, room := "r", sig := "forged", toPeer := "b" } 0
  have hsig := (ha.authentic "b" (by decide)
    { id := "a", type := .signal, room := "r", sig := "forged", toPeer := "b" } (by decide)).signature
  exact absurd hsig (by decide)

end TrapChat.Gateway
