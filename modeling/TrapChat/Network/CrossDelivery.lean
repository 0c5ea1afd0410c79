import TrapChat.Network.Fleet

/-!
A chat and the peers of other gateways. A relay has one current room for a connection,
over which a gateway sends the messages of all its rooms: a join takes the connection out
of the room it was in, and a leave takes it out of its room whoever else is there. So a
chat reaches every other gateway that has a member of its room as long as no gateway
writes a join or a leave over a connection to a relay that has been told of members for
whom it is wrong.

`Line` is the part of this that one connection is about: the members that the relay has
been told of and the current room. That the first are members of the second is an
invariant of every prefix of what is on its way.
-/

namespace TrapChat.Network

open Storage Protocol Gateway Transition

/-! ### What a relay makes of a message -/

/-- The current room of a connection after a message. -/
def turn (room : Option RoomName) (env : Envelope) : Option RoomName :=
  match env.type with
  | .join => some env.room
  | .leave => none
  | _ => room

/-- A connection is in its current room. -/
def Seated (rs : Relay.State) : Prop :=
  ∀ c room, rs.current c = some room → c ∈ rs.members room

/-- What a gateway writes to a relay is a message it forwards, at a time that its clock's
type holds, and a chat has a payload. -/
structure Written (rt : GoRuntime) (env : Envelope) : Prop where
  forwarded : ∃ p now, Forwarded rt p now env ∧ unixMilli now < 2 ^ 63
  payload : env.type = .chat → env.payload ≠ ""

theorem turn_of_type {room : Option RoomName} {env : Envelope} (hjoin : env.type ≠ .join)
    (hleave : env.type ≠ .leave) : turn room env = room := by
  unfold turn
  split <;> first | rfl | contradiction

section
variable {rust : Relay.RustRuntime} {rs : Relay.State} {c : Relay.ConnId} {env : Envelope}
  {fresh : String} {now : ℕ}

theorem unmoved_of_effect {m : Relay.Message} {res : Relay.State × List Relay.Output}
    (h : Relay.MessageEffect rs c m ∅ res) (hjoin : m.msgType ≠ .join)
    (hleave : m.msgType ≠ .leave) :
    (∀ room, res.1.members room = rs.members room) ∧ res.1.current = rs.current := by
  cases h with
  | none hmem hcur => exact ⟨hmem, hcur⟩
  | unjoined htype => exact absurd htype hjoin
  | joined htype => exact absurd htype hjoin
  | fanned _ room _ hmem hcur =>
      refine ⟨fun q => ?_, hcur⟩
      ext x
      rw [hmem]
      simp
  | left htype => exact absurd htype hleave

/-- A frame that is neither a join nor a leave moves no connection. -/
theorem handleMessage_unmoved {frame : Option Relay.Message}
    (h : ∀ m ∈ frame, m.msgType ≠ .join ∧ m.msgType ≠ .leave) :
    (∀ room, (Relay.handleMessage rust rs c frame ∅ now).1.members room = rs.members room) ∧
      (Relay.handleMessage rust rs c frame ∅ now).1.current = rs.current := by
  cases frame with
  | none => exact ⟨fun _ => rfl, rfl⟩
  | some m =>
      obtain ⟨hjoin, hleave⟩ := h m rfl
      rw [Relay.handleMessage]
      split
      · exact ⟨fun _ => rfl, rfl⟩
      · exact unmoved_of_effect (Relay.dispatch_effect now) hjoin hleave

theorem Seated.enter {m : Relay.Message} (h : Seated rs) (hjoin : ¬Relay.JoinRefused rs c m.room) :
    Seated (Relay.handleJoin rs c m).1 := by
  rw [Relay.handleJoin_of_not_refused hjoin]
  intro x q hx
  rw [Relay.current_joined] at hx
  rw [Relay.mem_members_joined]
  by_cases hxc : x = c
  · rw [hxc, Function.update_self] at hx
    exact .inl ⟨(Option.some.inj hx).symm, hxc⟩
  · rw [Function.update_of_ne hxc] at hx
    exact .inr ⟨fun h' => hxc h'.2, h x q hx⟩

theorem Seated.leave (h : Seated rs) : Seated (Relay.handleLeave rs c).1 := by
  unfold Relay.handleLeave
  split
  · exact h
  · next room hroom =>
      intro x q hx
      have hcur : ((rs.leaveRoom room c).setCurrent c none).current =
          Function.update rs.current c none := by
        rw [Relay.State.setCurrent, Relay.State.current_leaveRoom]
      rw [hcur] at hx
      obtain ⟨hxc, hx⟩ := of_update_none hx
      rw [Relay.State.members_setCurrent, Relay.State.mem_members_leaveRoom]
      exact ⟨fun h' => hxc h'.2, h x q hx⟩

theorem current_handleLeave :
    (Relay.handleLeave rs c).1.current = Function.update rs.current c none := by
  unfold Relay.handleLeave
  split
  · next hnone => rw [← hnone, Function.update_eq_self]
  · next room hroom =>
      show Function.update (rs.leaveRoom room c).current c none = _
      rw [Relay.State.current_leaveRoom]

section
variable {rt : GoRuntime} (hw : Written rt env)
  (hunicode : ∀ ch, rt.isLetter ch || rt.isNumber ch → rust.isAlphanumeric ch = true)
  (hnow : now < 2 ^ 63) (hsize : env.marshal.utf8ByteSize ≤ Relay.maxMessageBytes)
include hw hnow hsize

/-- The message that a relay reads. -/
theorem deserialize_written : Relay.Message.deserialize fresh env.marshal =
    (Relay.MessageType.ofWire env.type.wire).map (relayed env) := by
  obtain ⟨p, sent, hforwarded, hclock⟩ := hw.forwarded
  exact deserialize_marshal hforwarded ⟨hclock, hnow⟩ fresh hsize

include hunicode

/-- A message that needs no payload, or has one, is dispatched. -/
theorem handleMessage_written {t : Relay.MessageType}
    (ht : Relay.MessageType.ofWire env.type.wire = some t)
    (hneeds : t.needsPayload = true → env.payload ≠ "")
    (hlimit : env.payload.utf8ByteSize ≤ Relay.maxPayloadBytes) :
    Relay.handleMessage rust rs c (Relay.Message.deserialize fresh env.marshal) ∅ now =
      Relay.dispatch rs c { relayed env t with timestamp := now } ∅ := by
  obtain ⟨p, sent, hforwarded, -⟩ := hw.forwarded
  obtain ⟨hroom, hname⟩ := validateRoomName_relay hunicode hforwarded.room
  have haccepted : Relay.refusal rust c (relayed env t) = none :=
    (refusal_relayed c hroom hname).mpr ⟨hneeds, hlimit⟩
  rw [deserialize_written hw hnow hsize, ht, Option.map_some, Relay.handleMessage, haccepted]

/-- **What a relay makes of a message**: the current room turns as the message says, and
every connection stays in its current room. -/
theorem turn_of_written (hlimit : env.payload.utf8ByteSize ≤ Relay.maxPayloadBytes)
    (hjoin : env.type = .join → ¬Relay.JoinRefused rs c env.room) (hseated : Seated rs) :
    (Relay.handleMessage rust rs c (Relay.Message.deserialize fresh env.marshal) ∅ now).1.current =
        Function.update rs.current c (turn (rs.current c) env) ∧
      Seated (Relay.handleMessage rust rs c
        (Relay.Message.deserialize fresh env.marshal) ∅ now).1 := by
  obtain ⟨p, sent, hforwarded, -⟩ := hw.forwarded
  -- a join and a leave turn the current room, the other types only read it
  by_cases htype : env.type = .join ∨ env.type = .leave
  · obtain htype | htype := htype
    · have ht : Relay.MessageType.ofWire env.type.wire = some .join := by rw [htype]; rfl
      rw [handleMessage_written hw hunicode hnow hsize ht (by simp [Relay.MessageType.needsPayload])
        hlimit, turn, htype]
      have hnot : ¬Relay.JoinRefused rs c { relayed env .join with timestamp := now }.room :=
        hjoin htype
      refine ⟨?_, hseated.enter hnot⟩
      show (Relay.handleJoin rs c _).1.current = _
      rw [Relay.handleJoin_of_not_refused hnot, Relay.current_joined]
      rfl
    · have ht : Relay.MessageType.ofWire env.type.wire = some .leave := by rw [htype]; rfl
      rw [handleMessage_written hw hunicode hnow hsize ht (by simp [Relay.MessageType.needsPayload])
        hlimit, turn, htype]
      exact ⟨current_handleLeave, hseated.leave⟩
  · obtain ⟨hnotJoin, hnotLeave⟩ := not_or.mp htype
    have hframe : ∀ m ∈ Relay.Message.deserialize fresh env.marshal,
        m.msgType ≠ .join ∧ m.msgType ≠ .leave := by
      intro m hm
      rw [deserialize_written hw hnow hsize] at hm
      obtain ⟨t, ht, rfl⟩ := Option.map_eq_some_iff.mp hm
      obtain h | h | h | h | h | h | h | h | h := hforwarded.type
      · exact absurd h.1 hnotJoin
      · exact absurd h.1 hnotLeave
      all_goals
        show t ≠ .join ∧ t ≠ .leave
        rw [h] at ht
        revert ht
        cases t <;> decide
    obtain ⟨hmembers, hcurrent⟩ := @handleMessage_unmoved rust rs c now _ hframe
    rw [turn_of_type hnotJoin hnotLeave, Function.update_eq_self]
    refine ⟨hcurrent, fun x room hx => ?_⟩
    rw [hcurrent] at hx
    rw [hmembers]
    exact hseated x room hx

/-- A chat is fanned out to the current room of its connection. -/
theorem fanned_of_written (htype : env.type = .chat) {room : RoomName}
    (hlimit : env.payload.utf8ByteSize ≤ Relay.maxPayloadBytes) (hroom : rs.current c = some room)
    (hin : c ∈ rs.members room) :
    (Relay.handleMessage rust rs c (Relay.Message.deserialize fresh env.marshal) ∅ now).2 =
      [.fanOut ((rs.members room).erase c) { relayed env .chat with timestamp := now }] := by
  have ht : Relay.MessageType.ofWire env.type.wire = some .chat := by rw [htype]; rfl
  rw [handleMessage_written hw hunicode hnow hsize ht (fun _ => hw.payload htype) hlimit]
  show (Relay.fanOut rs c _ ∅).2 = _
  cases hlookup : rs.rooms.lookup room with
  | none =>
      rw [Relay.State.members, hlookup] at hin
      exact absurd hin (Finset.notMem_empty c)
  | some r =>
      have hmembers : rs.members room = r := by rw [Relay.State.members, hlookup, Option.getD_some]
      simp [Relay.fanOut, hroom, hlookup, hmembers]

end

end

/-! ### What a handler writes to the relays -/

/-- The messages to relays among what a handler puts out. -/
def writes (outs : List Gateway.Output) : List Envelope :=
  outs.filterMap fun
    | .forward env => some env
    | _ => none

theorem mem_writes {outs : List Gateway.Output} {env : Envelope} :
    env ∈ writes outs ↔ .forward env ∈ outs := by
  rw [writes, List.mem_filterMap]
  constructor
  · rintro ⟨o, ho, henv⟩
    cases o <;> simp_all
  · exact fun h => ⟨_, h, rfl⟩

/-- What a client's message does to the members of the rooms, and what its handler
writes of that to the relays. -/
inductive Tells (s : Server) (p : PeerID) (now : Time) : Server × List Gateway.Output → Prop
  | quiet {res : Server × List Gateway.Output} (hstore : res.1.store = s.store)
      (hwrites : ∀ env ∈ writes res.2, env.type ≠ .join ∧ env.type ≠ .leave) : Tells s p now res
  | joined {res : Server × List Gateway.Output} (room : RoomName)
      (hpeers : ∀ r q, q ∈ res.1.store.peers r ↔ (r = room ∧ q = p) ∨ q ∈ s.store.peers r)
      (hwrites : writes res.2 = [memberEnvelope .join room p now]) : Tells s p now res
  | left {res : Server × List Gateway.Output} (room : RoomName)
      (hpeers : ∀ r q, q ∈ res.1.store.peers r ↔ ¬(r = room ∧ q = p) ∧ q ∈ s.store.peers r)
      (hwrites : writes res.2 = [memberEnvelope .leave room p now]) : Tells s p now res

section
variable {rt : GoRuntime} {s : Server} {p : PeerID} {env : Envelope} {now : Time}

/-- No other peer's membership changes. -/
theorem Tells.other {res : Server × List Gateway.Output} (h : Tells s p now res) {q : PeerID}
    (hq : q ≠ p) (r : RoomName) : q ∈ res.1.store.peers r ↔ q ∈ s.store.peers r := by
  cases h with
  | quiet hstore => rw [hstore]
  | joined room hpeers => rw [hpeers, or_iff_right fun h => hq h.2]
  | left room hpeers => rw [hpeers, and_iff_right fun h => hq h.2]

/-- A peer that is written to have left a room is no member of it. -/
theorem Tells.leaving {res : Server × List Gateway.Output} (h : Tells s p now res)
    {env : Envelope} (henv : env ∈ writes res.2) (htype : env.type = .leave) :
    p ∉ res.1.store.peers env.room := by
  cases h with
  | quiet _ hwrites => exact absurd htype (hwrites env henv).2
  | joined room _ hwrites =>
      rw [hwrites] at henv
      rw [List.mem_singleton.mp henv] at htype
      cases htype
  | left room hpeers hwrites =>
      rw [hwrites] at henv
      rw [List.mem_singleton.mp henv, hpeers]
      exact fun h => h.1 ⟨rfl, rfl⟩

theorem tells_nothing {res : Server × List Gateway.Output} (hstore : res.1.store = s.store)
    (hwrites : writes res.2 = []) : Tells s p now res :=
  .quiet hstore (by simp [hwrites])

theorem tells_stamped {res : Server × List Gateway.Output} (hstore : res.1.store = s.store)
    (hstamp : ∀ out, .forward out ∈ res.2 → out = stamp env p now)
    (hjoin : env.type ≠ .join) (hleave : env.type ≠ .leave) : Tells s p now res := by
  refine .quiet hstore fun out hout => ?_
  rw [hstamp out (mem_writes.mp hout)]
  exact ⟨hjoin, hleave⟩

theorem tells_join : Tells s p now (handleJoin rt s p env now) := by
  unfold handleJoin joinRoom
  split
  · exact tells_nothing rfl rfl
  split
  · exact tells_nothing rfl rfl
  dsimp only
  split
  · exact tells_nothing rfl rfl
  · generalize sanitizeNickname (joinPayload rt env.payload).nickname = nick
    exact .joined env.room (fun _ _ => mem_peers_joined) rfl

theorem tells_leave : Tells s p now (handleLeave rt s p env now) :=
  .left env.room (fun _ _ => mem_peers_left) rfl

theorem tells_type : Tells s p now (handleType rt s p env now) := by
  unfold handleType
  split
  case h_1 => exact tells_join
  case h_2 => exact tells_leave
  case h_3 htype =>
    exact tells_stamped (handleForwarded_same _).store (fun _ => forward_handleForwarded)
      (by simp [htype]) (by simp [htype])
  case h_4 htype =>
    exact tells_stamped (handleForwarded_same _).store (fun _ => forward_handleForwarded)
      (by simp [htype]) (by simp [htype])
  case h_5 =>
    exact .quiet handleTyping_same.store fun out hout =>
      absurd (mem_writes.mp hout) not_forward_handleTyping
  case h_6 =>
    exact .quiet handleReceipt_same.store fun out hout =>
      absurd (mem_writes.mp hout) not_forward_handleReceipt
  case h_7 htype =>
    exact tells_stamped (handleForwarded_same _).store (fun _ => forward_handleForwarded)
      (by simp [htype]) (by simp [htype])
  case h_8 htype =>
    exact tells_stamped handleSignal_same.store (fun _ => forward_handleSignal)
      (by simp [htype]) (by simp [htype])
  case h_9 htype =>
    exact tells_stamped handleSignal_same.store (fun _ => forward_handleSignal)
      (by simp [htype]) (by simp [htype])
  case h_10 htype =>
    exact tells_stamped handleSignal_same.store (fun _ => forward_handleSignal)
      (by simp [htype]) (by simp [htype])
  case h_11 htype =>
    exact tells_stamped handleSignal_same.store (fun _ => forward_handleSignal)
      (by simp [htype]) (by simp [htype])
  all_goals exact tells_nothing rfl rfl

/-- **What a client's message tells the relays** is what it does to the members. -/
theorem tells_frame (frame : Option Envelope) :
    Tells s p now (handleFrame rt s p frame now) := by
  cases frame with
  | none => exact tells_nothing rfl rfl
  | some env =>
      unfold handleFrame
      dsimp only
      split
      · exact tells_nothing rfl rfl
      · exact tells_type

end

/-! ### What a relay is told -/

section
variable {told told' : Finset (PeerID × RoomName)} {env : Envelope} {x : PeerID × RoomName}

theorem tell_of_type (hjoin : env.type ≠ .join) (hleave : env.type ≠ .leave) :
    tell told env = told := by
  unfold tell
  split <;> first | rfl | contradiction

/-- A message says nothing of other members. -/
theorem mem_tell_of_ne (hx : x ≠ (env.id, env.room)) : x ∈ tell told env ↔ x ∈ told := by
  unfold tell
  split
  · exact Finset.mem_insert.trans (or_iff_right hx)
  · exact Finset.mem_erase.trans (and_iff_right hx)
  · exact Iff.rfl

theorem mem_tell_congr (h : x ∈ told ↔ x ∈ told') : x ∈ tell told env ↔ x ∈ tell told' env := by
  unfold tell
  split
  · rw [Finset.mem_insert, Finset.mem_insert, h]
  · rw [Finset.mem_erase, Finset.mem_erase, h]
  · exact h

theorem mem_foldl_tell_congr (envs : List Envelope) (h : x ∈ told ↔ x ∈ told') :
    x ∈ envs.foldl tell told ↔ x ∈ envs.foldl tell told' := by
  induction envs generalizing told told' with
  | nil => exact h
  | cons env envs ih => exact ih (mem_tell_congr h)

theorem foldl_tell_of_type (envs : List Envelope)
    (h : ∀ env ∈ envs, env.type ≠ .join ∧ env.type ≠ .leave) : envs.foldl tell told = told := by
  induction envs with
  | nil => rfl
  | cons env envs ih =>
      obtain ⟨hjoin, hleave⟩ := h env List.mem_cons_self
      rw [List.foldl_cons, tell_of_type hjoin hleave]
      exact ih fun env' henv' => h env' (List.mem_cons_of_mem _ henv')

end

/-- A connection to a relay: the members that the relay has been told of over it, and its
current room. -/
structure Line where
  told : Finset (PeerID × RoomName)
  room : Option RoomName

def Line.take (l : Line) (env : Envelope) : Line := ⟨tell l.told env, turn l.room env⟩

/-- The current room is that of every member. -/
def Line.Agrees (l : Line) : Prop := ∀ x ∈ l.told, l.room = some x.2

/-- The current room is that of every member, now and after each of the messages that are
on their way, and it is that of every chat among them. -/
def Tuned : Line → List (Parcel Envelope) → Prop
  | l, [] => l.Agrees
  | l, parcel :: rest =>
    l.Agrees ∧ (parcel.body.type = .chat → ∃ x ∈ l.told, x.2 = parcel.body.room) ∧
      Tuned (l.take parcel.body) rest

section
variable {l : Line} {env : Envelope} {queue : List (Parcel Envelope)}

theorem Fits.chat {told : Finset (PeerID × RoomName)} (h : Fits told env)
    (htype : env.type = .chat) : env.payload ≠ "" ∧ ∃ x ∈ told, x.2 = env.room := by
  unfold Fits at h
  rw [htype] at h
  exact h

theorem Line.Agrees.take (h : l.Agrees) (hfits : Fits l.told env) : (l.take env).Agrees := by
  intro x hx
  by_cases htype : env.type = .join ∨ env.type = .leave
  · obtain htype | htype := htype
    · simp only [Line.take, tell, turn, Fits, htype, Finset.mem_insert] at hx hfits ⊢
      obtain rfl | hx := hx
      · rfl
      · rw [hfits x hx]
    · simp only [Line.take, tell, Fits, htype, Finset.mem_erase] at hx hfits
      exact absurd (hfits x hx.2) hx.1
  · obtain ⟨hjoin, hleave⟩ := not_or.mp htype
    rw [Line.take, tell_of_type hjoin hleave] at hx
    rw [Line.take, turn_of_type hjoin hleave]
    exact h x hx

theorem Tuned.agrees (h : Tuned l queue) : l.Agrees := by
  cases queue with
  | nil => exact h
  | cons parcel rest => exact h.1

/-- A message that fits what has been written before it goes to the end of the queue. -/
theorem Tuned.append (h : Tuned l queue) {k : Option ℕ}
    (hfits : Fits (queue.foldl (fun told parcel => tell told parcel.body) l.told) env) :
    Tuned l (queue ++ [⟨env, k⟩]) := by
  induction queue generalizing l with
  | nil =>
      exact ⟨h, fun htype => (hfits.chat htype).2, h.take hfits⟩
  | cons parcel rest ih => exact ⟨h.1, h.2.1, ih h.2.2 hfits⟩

end

/-! ### The gateways -/

section
variable {γ : Type} [DecidableEq γ] {d : Deployment γ} {s t : Fleet γ} {a : FleetAction γ}

/-- Members are connected and have the IDs of their own gateways, and so has a peer whose
handler is at work. -/
structure Housed (s : Fleet γ) : Prop where
  homed : ∀ g, Homed (s.net.gateways g)
  fresh : ∀ g, Gateway.Fresh (s.net.gateways g)
  distinct : ∀ g g' p, p ∈ (s.net.gateways g).issued → p ∈ (s.net.gateways g').issued → g = g'
  busy : ∀ g p, s.pending (g, p) ≠ [] → p ∈ (s.net.gateways g).issued

theorem Housed.handled (hs : Housed s) {g : γ} {p : PeerID} {res : Server × List Gateway.Output}
    (hhomed : Homed res.1) (hfresh : Gateway.Fresh res.1) (hp : p ∈ res.1.issued)
    (hissued : ∀ q ∈ res.1.issued, q ∈ (s.net.gateways g).issued ∨
      ∀ g', q ∉ (s.net.gateways g').issued)
    (hkept : (s.net.gateways g).issued ⊆ res.1.issued) : Housed (s.handled g p res) := by
  have hother : ∀ g' ≠ g, (s.handled g p res).net.gateways g' = s.net.gateways g' :=
    fun g' hg => Function.update_of_ne hg _ _
  have hself : (s.handled g p res).net.gateways g = res.1 := Function.update_self _ _ _
  -- an ID of this gateway is of no other one
  have hone : ∀ g' ≠ g, ∀ q ∈ res.1.issued, q ∉ (s.net.gateways g').issued := by
    intro g' hg q hq hq'
    obtain hold | hnew := hissued q hq
    · exact hg (hs.distinct g' g q hq' hold)
    · exact hnew g' hq'
  refine ⟨fun g' => ?_, fun g' => ?_, fun g' g'' q hq hq' => ?_, fun g' q hbusy => ?_⟩
  · by_cases hg : g' = g
    · rwa [hg, hself]
    · rw [hother g' hg]
      exact hs.homed g'
  · by_cases hg : g' = g
    · rwa [hg, hself]
    · rw [hother g' hg]
      exact hs.fresh g'
  · by_cases hg : g' = g <;> by_cases hg' : g'' = g
    · rw [hg, hg']
    · rw [hg, hself] at hq
      rw [hother g'' hg'] at hq'
      exact absurd hq' (hone g'' hg' q hq)
    · rw [hg', hself] at hq'
      rw [hother g' hg] at hq
      exact absurd hq (hone g' hg q hq')
    · rw [hother g' hg] at hq
      rw [hother g'' hg'] at hq'
      exact hs.distinct g' g'' q hq hq'
  · by_cases hgq : (g', q) = (g, p)
    · obtain ⟨rfl, rfl⟩ := Prod.mk.inj hgq
      rwa [hself]
    · change Function.update s.pending (g, p) res.2 (g', q) ≠ [] at hbusy
      rw [Function.update_of_ne hgq] at hbusy
      have hq := hs.busy g' q hbusy
      by_cases hg : g' = g
      · subst hg
        rw [hself]
        exact hkept hq
      · rwa [hother g' hg]

omit [DecidableEq γ] in
theorem Housed.same (hs : Housed s) (hgateways : t.net.gateways = s.net.gateways)
    (hpending : ∀ x, t.pending x ≠ [] → s.pending x ≠ []) : Housed t where
  homed := fun g => by
    rw [hgateways]
    exact hs.homed g
  fresh := fun g => by
    rw [hgateways]
    exact hs.fresh g
  distinct := fun g g' p hp hp' => by
    rw [hgateways] at hp hp'
    exact hs.distinct g g' p hp hp'
  busy := fun g p hp => by
    rw [hgateways]
    exact hs.busy g p (hpending _ hp)

theorem Housed.act (hs : Housed s) (hids : FreshIds s a) (h : FleetStep d s a t) : Housed t := by
  cases h with
  | @connected g p now hpending =>
      have hnew : p ∉ (s.net.gateways g).issued := hids g
      have hstep : step d.go (s.net.gateways g) (.connect p now) =
          some ((s.net.gateways g).register p) := by
        rw [step, handle, if_neg hnew]
        rfl
      refine hs.handled (homed_step (hs.homed g) hstep) (fresh_register (hs.fresh g))
        (Finset.mem_insert_self _ _) (fun q hq => ?_) (Finset.subset_insert _ _)
      obtain rfl | hold := Finset.mem_insert.mp hq
      · exact .inr hids
      · exact .inl hold
  | @framed g p frame now hpending hconn =>
      have hissued : (handleFrame d.go (s.net.gateways g) p frame now).1.issued =
          (s.net.gateways g).issued := (handleFrame_effect frame).conns.2
      refine hs.handled (homed_handleFrame (hs.homed g) hconn) (fresh_handleFrame (hs.fresh g) hconn)
        ?_ (fun q hq => .inl (hissued ▸ hq)) hissued.symm.subset
      rw [hissued]
      exact (hs.fresh g).issued_of_conn hconn
  | @emitted g p o rest hpending =>
      refine hs.same Fleet.gateways_emit fun x hx => ?_
      change Function.update s.pending (g, p) rest x ≠ [] at hx
      by_cases hxgp : x = (g, p)
      · rw [hxgp, hpending]
        simp
      · rwa [Function.update_of_ne hxgp] at hx
  | taken hlink => exact hs.same Fleet.gateways_taken fun _ => id
  | dropped hlink hread => exact hs.same rfl fun _ => id
  | delivered hlink hread => exact hs.same Fleet.gateways_passOn fun _ => id

/-! ### Members and what the relays will have been told of them -/

/-- Once a handler has put out all it has to, the relay of a room will have been told of its
peer exactly if the peer is a member. -/
def Informed (d : Deployment γ) (s : Fleet γ) : Prop :=
  ∀ g p room, (p, room) ∈ (writes (s.pending (g, p))).foldl tell
      (s.announced (g, relayForRoom d.relays room)) ↔
    p ∈ (s.net.gateways g).store.peers room

/-- What a handler has to write to the relays, and what is on its way to them. -/
structure Penned (d : Deployment γ) (s : Fleet γ) : Prop where
  pending : ∀ g p, ∀ env ∈ writes (s.pending (g, p)),
    ∃ now, Forwarded d.go p now env ∧ unixMilli now < 2 ^ 63
  leaving : ∀ g p, ∀ env ∈ writes (s.pending (g, p)), env.type = .leave →
    p ∉ (s.net.gateways g).store.peers env.room
  link : ∀ link, ∀ parcel ∈ s.net.toRelay link,
    Written d.go parcel.body ∧ relayForRoom d.relays parcel.body.room = link.2

section
variable {g : γ} {p : PeerID} {now : Time} {res : Server × List Gateway.Output}
  {o : Gateway.Output} {rest : List Gateway.Output}

/-- The members of the rooms at a gateway, for every peer but the one that is handled. -/
theorem peers_handled (htells : Tells (s.net.gateways g) p now res) {g' : γ} {q : PeerID}
    (hgq : (g', q) ≠ (g, p)) (room : RoomName) :
    q ∈ ((s.handled g p res).net.gateways g').store.peers room ↔
      q ∈ (s.net.gateways g').store.peers room := by
  show q ∈ (Function.update s.net.gateways g res.1 g').store.peers room ↔ _
  by_cases hg : g' = g
  · subst hg
    rw [Function.update_self]
    exact htells.other (fun h => hgq (by rw [h])) room
  · rw [Function.update_of_ne hg]

theorem Informed.handled (hs : Informed d s) (hpending : s.pending (g, p) = [])
    (htells : Tells (s.net.gateways g) p now res) : Informed d (s.handled g p res) := by
  intro g' q room
  by_cases hgq : (g', q) = (g, p)
  · obtain ⟨rfl, rfl⟩ := Prod.mk.inj hgq
    -- the peer had written everything, so what it has told so far is where it was
    have hold := hs g' q room
    rw [hpending] at hold
    change (q, room) ∈ s.announced _ ↔ _ at hold
    show (q, room) ∈ (writes (Function.update s.pending (g', q) res.2 (g', q))).foldl tell
      (s.announced (g', relayForRoom d.relays room)) ↔
        q ∈ (Function.update s.net.gateways g' res.1 g').store.peers room
    rw [Function.update_self, Function.update_self]
    cases htells with
    | quiet hstore hwrites => rw [foldl_tell_of_type _ hwrites, hstore, hold]
    | joined r hpeers hwrites =>
        rw [hwrites, hpeers, ← hold]
        show (q, room) ∈ insert (q, r) _ ↔ _
        simp
    | left r hpeers hwrites =>
        rw [hwrites, hpeers, ← hold]
        show (q, room) ∈ Finset.erase _ (q, r) ↔ _
        simp
  · rw [peers_handled htells hgq]
    show (q, room) ∈ (writes (Function.update s.pending (g, p) res.2 (g', q))).foldl tell
      (s.announced (g', relayForRoom d.relays room)) ↔ _
    rw [Function.update_of_ne hgq]
    exact hs g' q room

theorem Penned.handled (hs : Penned d s) (htells : Tells (s.net.gateways g) p now res)
    (hforwarded : ∀ env ∈ writes res.2, ∃ now, Forwarded d.go p now env ∧ unixMilli now < 2 ^ 63) :
    Penned d (s.handled g p res) := by
  have hpending : ∀ x, (s.handled g p res).pending x =
      Function.update s.pending (g, p) res.2 x := fun _ => rfl
  refine ⟨fun g' q env henv => ?_, fun g' q env henv htype => ?_, hs.link⟩
  · rw [hpending] at henv
    by_cases hgq : (g', q) = (g, p)
    · rw [hgq, Function.update_self] at henv
      rw [(Prod.mk.inj hgq).2]
      exact hforwarded env henv
    · rw [Function.update_of_ne hgq] at henv
      exact hs.pending g' q env henv
  · rw [hpending] at henv
    by_cases hgq : (g', q) = (g, p)
    · obtain ⟨rfl, rfl⟩ := Prod.mk.inj hgq
      rw [Function.update_self] at henv
      show q ∉ (Function.update s.net.gateways g' res.1 g').store.peers env.room
      rw [Function.update_self]
      exact htells.leaving henv htype
    · rw [Function.update_of_ne hgq] at henv
      rw [peers_handled htells hgq]
      exact hs.leaving g' q env henv htype

/-- What a handler has still to write once it has put something out. -/
theorem pending_emit (g' : γ) (q : PeerID) : (s.emit d g p o rest).pending (g', q) =
    if (g', q) = (g, p) then rest else s.pending (g', q) := by
  show Function.update s.pending (g, p) rest (g', q) = _
  by_cases hgq : (g', q) = (g, p)
  · rw [hgq, Function.update_self, if_pos rfl]
  · rw [Function.update_of_ne hgq, if_neg hgq]

theorem writes_emit_sub (hpending : s.pending (g, p) = o :: rest) {g' : γ} {q : PeerID}
    {env : Envelope} (henv : env ∈ writes ((s.emit d g p o rest).pending (g', q))) :
    env ∈ writes (s.pending (g', q)) := by
  rw [pending_emit] at henv
  split at henv
  · next hgq =>
      rw [hgq, hpending, mem_writes]
      exact List.mem_cons_of_mem _ (mem_writes.mp henv)
  · exact henv

theorem Informed.emit (hs : Informed d s) (hpenned : Penned d s) (hrelays : 0 < d.relays)
    (hpending : s.pending (g, p) = o :: rest) : Informed d (s.emit d g p o rest) := by
  intro g' q room
  rw [Fleet.gateways_emit, ← hs g' q room, pending_emit]
  by_cases ho : ∃ env, o = .forward env
  · obtain ⟨env, rfl⟩ := ho
    obtain ⟨now, hforwarded, -⟩ := hpenned.pending g p env (by
      rw [hpending, mem_writes]
      exact List.mem_cons_self)
    rw [Fleet.announced_forward hrelays]
    by_cases hgq : (g', q) = (g, p)
    · obtain ⟨rfl, rfl⟩ := Prod.mk.inj hgq
      rw [if_pos rfl, hpending]
      show _ ↔ (q, room) ∈ (writes rest).foldl tell (tell (s.announced _) env)
      split
      · exact Iff.rfl
      · next hlink =>
          -- a message to another relay is about another room
          refine mem_foldl_tell_congr _ (mem_tell_of_ne fun heq => hlink ?_).symm
          rw [(Prod.mk.inj heq).2]
    · rw [if_neg hgq]
      refine mem_foldl_tell_congr _ ?_
      split
      · next hlink =>
          refine mem_tell_of_ne fun heq => hgq ?_
          rw [(Prod.mk.inj hlink).1, (Prod.mk.inj heq).1, hforwarded.id]
      · exact Iff.rfl
  · have hother : ∀ env, o ≠ .forward env := fun env h => ho ⟨env, h⟩
    rw [Fleet.announced_other hother]
    by_cases hgq : (g', q) = (g, p)
    · obtain ⟨rfl, rfl⟩ := Prod.mk.inj hgq
      have hwrites : writes (s.pending (g', q)) = writes rest := by
        rw [hpending]
        cases o with
        | forward env => exact absurd rfl (hother env)
        | _ => rfl
      rw [if_pos rfl, hwrites]
    · rw [if_neg hgq]

omit [DecidableEq γ] in
theorem fits_of_oneRoom {env : Envelope} (hroom : OneRoom d s (.emit g p))
    (hpending : s.pending (g, p) = .forward env :: rest) :
    Fits (s.announced (g, relayForRoom d.relays env.room)) env := by
  rw [OneRoom, hpending] at hroom
  exact hroom

theorem Penned.emit (hs : Penned d s) (hrelays : 0 < d.relays)
    (hpending : s.pending (g, p) = o :: rest) (hroom : OneRoom d s (.emit g p)) :
    Penned d (s.emit d g p o rest) := by
  refine ⟨fun g' q env henv => hs.pending g' q env (writes_emit_sub hpending henv),
    fun g' q env henv htype => ?_, fun link parcel hparcel => ?_⟩
  · rw [Fleet.gateways_emit]
    exact hs.leaving g' q env (writes_emit_sub hpending henv) htype
  · by_cases ho : ∃ env, o = .forward env
    · obtain ⟨env, rfl⟩ := ho
      rw [Fleet.toRelay_emit hrelays] at hparcel
      by_cases hlink : link = (g, relayForRoom d.relays env.room)
      · rw [hlink, Function.update_self] at hparcel
        obtain hold | hnew := List.mem_append.mp hparcel
        · exact hs.link link parcel (hlink ▸ hold)
        · rw [List.mem_singleton.mp hnew, hlink]
          refine ⟨⟨⟨p, hs.pending g p env ?_⟩, fun htype => ?_⟩, rfl⟩
          · rw [hpending, mem_writes]
            exact List.mem_cons_self
          · exact ((fits_of_oneRoom hroom hpending).chat htype).1
      · rw [Function.update_of_ne hlink] at hparcel
        exact hs.link link parcel hparcel
    · rw [(Fleet.emit_other fun env h => ho ⟨env, h⟩).1] at hparcel
      exact hs.link link parcel hparcel

end

omit [DecidableEq γ] in
/-- What a client's message makes a handler write is forwarded at the time it is read. -/
theorem forwarded_of_frame {g : γ} {p : PeerID} {frame : Option Envelope} {now : Time}
    (hclock : unixMilli now < 2 ^ 63) :
    ∀ env ∈ writes (handleFrame d.go (s.net.gateways g) p frame now).2,
      ∃ now, Forwarded d.go p now env ∧ unixMilli now < 2 ^ 63 :=
  fun _ henv => ⟨now, forwarded_of_mem (mem_writes.mp henv), hclock⟩

theorem Informed.act (hs : Informed d s) (hpenned : Penned d s) (hrelays : 0 < d.relays)
    (h : FleetStep d s a t) : Informed d t := by
  cases h with
  | @connected g p now hpending =>
      have htells : Tells (s.net.gateways g) p now ((s.net.gateways g).register p,
          [.send {p} (welcomeEnvelope p now)]) := tells_nothing rfl rfl
      exact hs.handled hpending htells
  | framed hpending hconn => exact hs.handled hpending (tells_frame _)
  | emitted hpending => exact hs.emit hpenned hrelays hpending
  | taken hlink =>
      intro g p room
      rw [Fleet.announced_taken hlink, Fleet.gateways_taken]
      exact hs g p room
  | dropped hlink hread => exact hs
  | delivered hlink hread =>
      intro g p room
      rw [Fleet.gateways_passOn]
      exact hs g p room

theorem Penned.act (hs : Penned d s) (hrelays : 0 < d.relays) (hlimit : Unlimited d s a)
    (hroom : OneRoom d s a) (h : FleetStep d s a t) : Penned d t := by
  cases h with
  | @connected g p now hpending =>
      have htells : Tells (s.net.gateways g) p now ((s.net.gateways g).register p,
          [.send {p} (welcomeEnvelope p now)]) := tells_nothing rfl rfl
      exact hs.handled htells (by simp [writes])
  | framed hpending hconn => exact hs.handled (tells_frame _) (forwarded_of_frame hlimit)
  | emitted hpending => exact hs.emit hrelays hpending hroom
  | taken hlink =>
      refine ⟨hs.pending, fun g p env henv htype => ?_, fun link' parcel' hmem => ?_⟩
      · rw [Fleet.gateways_taken]
        exact hs.leaving g p env henv htype
      · rw [Fleet.toRelay_taken] at hmem
        exact hs.link link' parcel' (mem_of_mem_update_tail hlink hmem)
  | dropped hlink hread => exact ⟨hs.pending, hs.leaving, hs.link⟩
  | delivered hlink hread =>
      refine ⟨hs.pending, fun g p env henv htype => ?_, hs.link⟩
      rw [Fleet.gateways_passOn]
      exact hs.leaving g p env henv htype

/-! ### The connections to the relays -/

def Fleet.line (d : Deployment γ) (s : Fleet γ) (link : Link γ) : Line :=
  ⟨s.told link, (s.net.relays link.2).current (d.conn link.1)⟩

/-- Every connection is in its current room, and that is the room of the members that the
relay has been told of over it. -/
structure Aligned (d : Deployment γ) (s : Fleet γ) : Prop where
  seated : ∀ i, Seated (s.net.relays i)
  tuned : ∀ link, Tuned (s.line d link) (s.net.toRelay link)

omit [DecidableEq γ] in
/-- What an action that is under no limit has a relay take. -/
theorem limits_of_unlimited {link : Link γ} {fresh id : String} {now : ℕ}
    {parcel : Parcel Envelope} {rest : List (Parcel Envelope)}
    (h : Unlimited d s (.relay link fresh id now)) (hlink : s.net.toRelay link = parcel :: rest) :
    now < 2 ^ 63 ∧ parcel.body.marshal.utf8ByteSize ≤ Relay.maxMessageBytes ∧
      parcel.body.payload.utf8ByteSize ≤ Relay.maxPayloadBytes ∧
        (parcel.body.type = .join →
          ¬Relay.JoinRefused (s.net.relays link.2) (d.conn link.1) parcel.body.room) :=
  ⟨h.1, h.2 parcel (by rw [hlink]; rfl)⟩

theorem Aligned.emit (hs : Aligned d s) (hrelays : 0 < d.relays) {g : γ} {p : PeerID}
    {o : Gateway.Output} {rest : List Gateway.Output} (hpending : s.pending (g, p) = o :: rest)
    (hroom : OneRoom d s (.emit g p)) : Aligned d (s.emit d g p o rest) := by
  have hline : ∀ link, (s.emit d g p o rest).line d link = s.line d link := fun link => by
    rw [Fleet.line, Fleet.told_emit, Fleet.relays_emit, Fleet.line]
  refine ⟨fun i => ?_, fun link => ?_⟩
  · rw [Fleet.relays_emit]
    exact hs.seated i
  · rw [hline]
    by_cases ho : ∃ env, o = .forward env
    · obtain ⟨env, rfl⟩ := ho
      rw [Fleet.toRelay_emit hrelays]
      by_cases hlink : link = (g, relayForRoom d.relays env.room)
      · rw [hlink, Function.update_self]
        exact (hs.tuned _).append (fits_of_oneRoom hroom hpending)
      · rw [Function.update_of_ne hlink]
        exact hs.tuned link
    · rw [(Fleet.emit_other fun env h => ho ⟨env, h⟩).1]
      exact hs.tuned link

theorem Aligned.take (hs : Aligned d s) (hpenned : Penned d s)
    (hunicode : ∀ ch, d.go.isLetter ch || d.go.isNumber ch → d.rust.isAlphanumeric ch = true)
    {link : Link γ} {fresh id : String} {now : ℕ} {parcel : Parcel Envelope}
    {rest : List (Parcel Envelope)} (hlink : s.net.toRelay link = parcel :: rest)
    (hlimit : Unlimited d s (.relay link fresh id now)) :
    Aligned d (s.taken d link fresh id now parcel rest) := by
  obtain ⟨hnow, hsize, hpayload, hjoin⟩ := limits_of_unlimited hlimit hlink
  have hwritten := (hpenned.link link parcel (hlink ▸ List.mem_cons_self)).1
  have hturn : (takeMessage d s.net link fresh now parcel.body).1.current =
        Function.update (s.net.relays link.2).current (d.conn link.1)
          (turn ((s.net.relays link.2).current (d.conn link.1)) parcel.body) ∧
      Seated (takeMessage d s.net link fresh now parcel.body).1 :=
    turn_of_written hwritten hunicode hnow hsize hpayload hjoin (hs.seated link.2)
  constructor
  · intro i
    rw [Fleet.relays_taken]
    by_cases hi : i = link.2
    · rw [hi, Function.update_self]
      exact hturn.2
    · rw [Function.update_of_ne hi]
      exact hs.seated i
  · intro link'
    rw [Fleet.toRelay_taken]
    by_cases hlink' : link' = link
    · have hline : (s.taken d link fresh id now parcel rest).line d link =
          (s.line d link).take parcel.body := by
        rw [Fleet.line, Fleet.relays_taken, Function.update_self, hturn.1, Function.update_self]
        show Line.mk (Function.update s.told link (tell (s.told link) parcel.body) link) _ = _
        rw [Function.update_self]
        rfl
      rw [hlink', hline, Function.update_self]
      -- what is left of the connection fits the room the message has turned it to
      have htuned := hs.tuned link
      rw [hlink] at htuned
      exact htuned.2.2
    · -- the relay does not touch the current room of another connection
      have hline : (s.taken d link fresh id now parcel rest).line d link' = s.line d link' := by
        rw [Fleet.line, Fleet.relays_taken, Fleet.line]
        show Line.mk (Function.update s.told link (tell (s.told link) parcel.body) link') _ = _
        rw [Function.update_of_ne hlink']
        congr 1
        by_cases hi : link'.2 = link.2
        · have hconn : d.conn link'.1 ≠ d.conn link.1 :=
            fun hc => hlink' (Prod.ext (d.conn_injective hc) hi)
          rw [hi, Function.update_self, hturn.1, Function.update_of_ne hconn]
        · rw [Function.update_of_ne hi]
      rw [hline, Function.update_of_ne hlink']
      exact hs.tuned link'

theorem Aligned.act (hs : Aligned d s) (hpenned : Penned d s) (hrelays : 0 < d.relays)
    (hunicode : ∀ ch, d.go.isLetter ch || d.go.isNumber ch → d.rust.isAlphanumeric ch = true)
    (hlimit : Unlimited d s a) (hroom : OneRoom d s a) (h : FleetStep d s a t) : Aligned d t := by
  cases h with
  | connected hpending => exact ⟨hs.seated, hs.tuned⟩
  | framed hpending hconn => exact ⟨hs.seated, hs.tuned⟩
  | emitted hpending => exact hs.emit hrelays hpending hroom
  | taken hlink => exact hs.take hpenned hunicode hlink hlimit
  | dropped hlink hread => exact ⟨hs.seated, hs.tuned⟩
  | delivered hlink hread =>
      refine ⟨fun i => ?_, fun link => ?_⟩
      · rw [Fleet.relays_passOn]
        exact hs.seated i
      · rw [Fleet.toRelay_passOn]
        exact hs.tuned link

/-! ### Where the copies of a message are -/

/-- How often a message is on its way to a relay over a connection. -/
def Federation.transit (s : Federation γ) (k : ℕ) (link : Link γ) : ℕ :=
  (s.toRelay link).countP fun parcel => parcel.serial = some k

/-- How often a message is on its way back over a connection. -/
def Federation.copies (s : Federation γ) (k : ℕ) (link : Link γ) : ℕ :=
  (s.toGateway link).countP fun parcel => parcel.serial = some k

section
variable {k : ℕ} {link link' : Link γ} {g : γ} {p : PeerID} {env : Envelope}
  {outs : List Gateway.Output} {fresh id : String} {now : ℕ} {parcel : Parcel Envelope}
  {rest : List (Parcel Envelope)} {message : Parcel Relay.Message}
  {messages : List (Parcel Relay.Message)}

theorem transit_forward (hrelays : 0 < d.relays) :
    (s.emit d g p (.forward env) outs).net.transit k link = s.net.transit k link +
      if link = (g, relayForRoom d.relays env.room) ∧ k = s.net.serial then 1 else 0 := by
  rw [Federation.transit, Fleet.toRelay_emit hrelays, Federation.transit]
  by_cases hlink : link = (g, relayForRoom d.relays env.room)
  · rw [hlink, Function.update_self, List.countP_append]
    simp [List.countP_cons, eq_comm]
  · rw [Function.update_of_ne hlink, if_neg fun h => hlink h.1, Nat.add_zero]

theorem transit_taken (d : Deployment γ) (fresh id : String) (now k : ℕ) (link' : Link γ)
    (hlink : s.net.toRelay link = parcel :: rest) : s.net.transit k link' =
      (s.taken d link fresh id now parcel rest).net.transit k link' +
        if link' = link ∧ parcel.serial = some k then 1 else 0 := by
  rw [Federation.transit, Federation.transit, Fleet.toRelay_taken]
  simpa using countP_update_tail hlink fun parcel => decide (parcel.serial = some k)

theorem copies_taken : (s.taken d link fresh id now parcel rest).net.copies k link' =
    s.net.copies k link' + ((takeMessage d s.net link fresh now parcel.body).2.filterMap
      (Federation.parcelFor d link.2 parcel.serial id now link')).countP
        fun parcel => parcel.serial = some k := by
  rw [Federation.copies, Fleet.toGateway_taken, List.countP_append, Federation.copies]

omit [DecidableEq γ] in
/-- What a relay makes of a message has its serial, or none. -/
theorem serial_of_parcelFor {i : ℕ} {serial : Option ℕ} {o : Relay.Output}
    {x : Parcel Relay.Message} (h : Federation.parcelFor d i serial id now link o = some x) :
    x.serial = none ∨ x.serial = serial ∧ ∃ targets m, o = .fanOut targets m ∧ x.body = m := by
  obtain ⟨-, h⟩ := Option.ite_none_right_eq_some.mp h
  obtain rfl := Option.some.inj h
  cases o with
  | error c room text => exact .inl rfl
  | fanOut targets m => exact .inr ⟨rfl, targets, m, rfl, rfl⟩
  | presence targets room count => exact .inl rfl

theorem copies_taken_of_ne (h : parcel.serial ≠ some k) :
    (s.taken d link fresh id now parcel rest).net.copies k link' = s.net.copies k link' := by
  rw [copies_taken, List.countP_eq_zero.mpr, Nat.add_zero]
  intro x hx
  obtain ⟨o, -, hparcel⟩ := List.mem_filterMap.mp hx
  obtain hnone | ⟨hserial, -⟩ := serial_of_parcelFor hparcel
  · simp [hnone]
  · simpa [hserial] using h

theorem copies_read (k : ℕ) (link' : Link γ)
    (hlink : s.net.toGateway link = message :: messages) : s.net.copies k link' =
      (s.read link messages).net.copies k link' +
        if link' = link ∧ message.serial = some k then 1 else 0 := by
  rw [Federation.copies, Federation.copies]
  show _ = (Function.update s.net.toGateway link messages link').countP _ + _
  simpa using countP_update_tail hlink fun parcel => decide (parcel.serial = some k)

end

/-- A serial that is still to come is nowhere. -/
structure Serialled (s : Fleet γ) : Prop where
  transit : ∀ k ≥ s.net.serial, ∀ link, s.net.transit k link = 0
  copies : ∀ k ≥ s.net.serial, ∀ link, s.net.copies k link = 0
  deliveries : ∀ k ≥ s.net.serial, ∀ g q, s.net.deliveries k g q = 0
  chats : ∀ k ≥ s.net.serial, s.chats k = none

omit [DecidableEq γ] in
theorem serialled_newFleet : Serialled (newFleet γ) :=
  ⟨fun _ _ _ => rfl, fun _ _ _ => rfl, fun _ _ _ _ => rfl, fun _ _ => rfl⟩

theorem Serialled.emit (hs : Serialled s) (hrelays : 0 < d.relays) {g : γ} {p : PeerID}
    {o : Gateway.Output} {rest : List Gateway.Output} : Serialled (s.emit d g p o rest) := by
  have hcopies : ∀ k link, (s.emit d g p o rest).net.copies k link = s.net.copies k link :=
    fun k link => by rw [Federation.copies, Fleet.toGateway_emit, Federation.copies]
  by_cases ho : ∃ env, o = .forward env
  · obtain ⟨env, rfl⟩ := ho
    -- the message takes the serial that was next, so one still to come is another
    have hle : ∀ k ≥ (s.emit d g p (.forward env) rest).net.serial,
        s.net.serial ≤ k ∧ k ≠ s.net.serial := by
      intro k hk
      rw [Fleet.serial_emit hrelays] at hk
      omega
    refine ⟨fun k hk link => ?_, fun k hk link => ?_, fun k hk g' q => ?_, fun k hk => ?_⟩
    · rw [transit_forward hrelays, if_neg fun h => (hle k hk).2 h.2]
      exact hs.transit k (hle k hk).1 link
    · rw [hcopies]
      exact hs.copies k (hle k hk).1 link
    · rw [Fleet.deliveries_emit]
      exact hs.deliveries k (hle k hk).1 g' q
    · show (if env.type = .chat then s.record d ⟨g, p, env.room⟩ else s).chats k = none
      split
      · exact (Function.update_of_ne (hle k hk).2 _ _).trans (hs.chats k (hle k hk).1)
      · exact hs.chats k (hle k hk).1
  · obtain ⟨htoRelay, hserial, hchats, -⟩ :=
      @Fleet.emit_other γ _ d s g p o rest fun env h => ho ⟨env, h⟩
    refine ⟨fun k hk link => ?_, fun k hk link => ?_, fun k hk g' q => ?_, fun k hk => ?_⟩
    all_goals rw [hserial] at hk
    · rw [Federation.transit, htoRelay]
      exact hs.transit k hk link
    · rw [hcopies]
      exact hs.copies k hk link
    · rw [Fleet.deliveries_emit]
      exact hs.deliveries k hk g' q
    · rw [hchats]
      exact hs.chats k hk

omit [DecidableEq γ] in
/-- A message on a connection has a serial that there has been. -/
theorem Serialled.ne_of_mem (hs : Serialled s) {link : Link γ} {parcel : Parcel Envelope}
    (hmem : parcel ∈ s.net.toRelay link) {k : ℕ} (hk : s.net.serial ≤ k) :
    parcel.serial ≠ some k := by
  intro hserial
  have hnone := List.countP_eq_zero.mp (hs.transit k hk link) parcel hmem
  exact hnone (by simpa using hserial)

omit [DecidableEq γ] in
theorem Serialled.ne_of_mem_back (hs : Serialled s) {link : Link γ}
    {message : Parcel Relay.Message} (hmem : message ∈ s.net.toGateway link) {k : ℕ}
    (hk : s.net.serial ≤ k) : message.serial ≠ some k := by
  intro hserial
  have hnone := List.countP_eq_zero.mp (hs.copies k hk link) message hmem
  exact hnone (by simpa using hserial)

theorem Serialled.read (hs : Serialled s) {link : Link γ} {message : Parcel Relay.Message}
    {rest : List (Parcel Relay.Message)} (hlink : s.net.toGateway link = message :: rest) :
    Serialled (s.read link rest) := by
  refine ⟨hs.transit, fun k hk link' => ?_, hs.deliveries, hs.chats⟩
  have hcount := copies_read k link' hlink
  rw [hs.copies k hk link'] at hcount
  omega

theorem Serialled.act (hs : Serialled s) (hrelays : 0 < d.relays) (h : FleetStep d s a t) :
    Serialled t := by
  cases h with
  | connected hpending => exact ⟨hs.transit, hs.copies, hs.deliveries, hs.chats⟩
  | framed hpending hconn => exact ⟨hs.transit, hs.copies, hs.deliveries, hs.chats⟩
  | emitted hpending => exact hs.emit hrelays
  | @taken link fresh id now parcel rest hlink =>
      have hmem : parcel ∈ s.net.toRelay link := hlink ▸ List.mem_cons_self
      refine ⟨fun k hk link' => ?_, fun k hk link' => ?_, fun k hk g q => ?_, fun k hk => ?_⟩
      all_goals rw [Fleet.serial_taken] at hk
      · have hcount := transit_taken d fresh id now k link' hlink
        rw [hs.transit k hk link'] at hcount
        omega
      · rw [copies_taken_of_ne (hs.ne_of_mem hmem hk)]
        exact hs.copies k hk link'
      · rw [Fleet.deliveries_taken]
        exact hs.deliveries k hk g q
      · exact hs.chats k hk
  | dropped hlink hread => exact hs.read hlink
  | @delivered link message rest env hlink hread =>
      have hmem : message ∈ s.net.toGateway link := hlink ▸ List.mem_cons_self
      have hreadOn := hs.read hlink
      refine ⟨hreadOn.transit, hreadOn.copies, fun k hk g q => ?_, hs.chats⟩
      rw [Fleet.deliveries_passOn, if_neg fun h => hs.ne_of_mem_back hmem hk h.2.2]
      exact hs.deliveries k hk g q

/-- The connection over which a chat goes to the relay of its room. -/
def Chat.link (d : Deployment γ) (c : Chat γ) : Link γ :=
  (c.gateway, relayForRoom d.relays c.room)

/-- A chat is on its way from its gateway to the relay of its room, and from there to other
gateways, which can read it. -/
structure Directed (d : Deployment γ) (s : Fleet γ) : Prop where
  toRelay : ∀ link, ∀ parcel ∈ s.net.toRelay link, ∀ k c, parcel.serial = some k →
    s.chats k = some c → link = c.link d ∧ parcel.body.type = .chat ∧
      parcel.body.room = c.room ∧ parcel.body.id = c.sender
  toGateway : ∀ link, ∀ message ∈ s.net.toGateway link, ∀ k c, message.serial = some k →
    s.chats k = some c → link.2 = relayForRoom d.relays c.room ∧
      ∃ env, Envelope.unmarshal message.body.serialize = some env ∧ env.room = c.room ∧
        env.id = c.sender
  sender : ∀ k c, s.chats k = some c → c.sender ∈ (s.net.gateways c.gateway).issued

/-- The chat that a write to a relay is. -/
theorem chats_forward {g : γ} {p : PeerID} {env : Envelope} {rest : List Gateway.Output} (k : ℕ) :
    (s.emit d g p (.forward env) rest).chats k =
      if k = s.net.serial ∧ env.type = .chat then some ⟨g, p, env.room⟩ else s.chats k := by
  show (if env.type = .chat then s.record d ⟨g, p, env.room⟩ else s).chats k = _
  by_cases htype : env.type = .chat
  · rw [if_pos htype]
    show Function.update s.chats s.net.serial (some ⟨g, p, env.room⟩) k = _
    by_cases hk : k = s.net.serial
    · rw [hk, Function.update_self, if_pos ⟨rfl, htype⟩]
    · rw [Function.update_of_ne hk, if_neg fun h => hk h.1]
  · rw [if_neg htype, if_neg fun h => htype h.2]

theorem Directed.forward (hs : Directed d s) (hhoused : Housed s) (hpenned : Penned d s)
    (hserialled : Serialled s) (hrelays : 0 < d.relays) {g : γ} {p : PeerID} {env : Envelope}
    {rest : List Gateway.Output} (hpending : s.pending (g, p) = .forward env :: rest) :
    Directed d (s.emit d g p (.forward env) rest) := by
  obtain ⟨now, hforwarded, -⟩ := hpenned.pending g p env (by
    rw [hpending, mem_writes]
    exact List.mem_cons_self)
  refine ⟨fun link parcel hmem k c hk hc => ?_, fun link message hmem k c hk hc => ?_,
    fun k c hc => ?_⟩
  · rw [Fleet.toRelay_emit hrelays] at hmem
    rw [chats_forward] at hc
    -- what was on a connection before has another serial
    have hold : parcel ∈ s.net.toRelay link → link = c.link d ∧ parcel.body.type = .chat ∧
        parcel.body.room = c.room ∧ parcel.body.id = c.sender := by
      intro hmem
      rw [if_neg fun h => hserialled.ne_of_mem hmem h.1.ge hk] at hc
      exact hs.toRelay link parcel hmem k c hk hc
    by_cases hlink : link = (g, relayForRoom d.relays env.room)
    · rw [hlink, Function.update_self] at hmem
      obtain hmem | hnew := List.mem_append.mp hmem
      · exact hold (hlink ▸ hmem)
      · obtain rfl := List.mem_singleton.mp hnew
        obtain rfl : s.net.serial = k := Option.some.inj hk
        by_cases htype : env.type = .chat
        · rw [if_pos ⟨rfl, htype⟩] at hc
          obtain rfl := Option.some.inj hc
          exact ⟨hlink, htype, rfl, hforwarded.id⟩
        · rw [if_neg fun h => htype h.2, hserialled.chats _ le_rfl] at hc
          cases hc
    · rw [Function.update_of_ne hlink] at hmem
      exact hold hmem
  · rw [Fleet.toGateway_emit] at hmem
    rw [chats_forward, if_neg fun h => hserialled.ne_of_mem_back hmem h.1.ge hk] at hc
    exact hs.toGateway link message hmem k c hk hc
  · rw [Fleet.gateways_emit]
    rw [chats_forward] at hc
    split at hc
    · obtain rfl := Option.some.inj hc
      exact hhoused.busy g p (by rw [hpending]; simp)
    · exact hs.sender k c hc

/-- What a relay makes of a chat says what the chat says. -/
theorem Directed.take (hs : Directed d s) (hpenned : Penned d s) {link : Link γ} {fresh id : String}
    {now : ℕ} {parcel : Parcel Envelope} {rest : List (Parcel Envelope)}
    (hlink : s.net.toRelay link = parcel :: rest)
    (hlimit : Unlimited d s (.relay link fresh id now)) :
    Directed d (s.taken d link fresh id now parcel rest) := by
  obtain ⟨hnow, hsize, -⟩ := limits_of_unlimited hlimit hlink
  have hmem : parcel ∈ s.net.toRelay link := hlink ▸ List.mem_cons_self
  refine ⟨fun link' parcel' hmem' k c hk hc => ?_, fun link' message hmessage k c hk hc => ?_,
    fun k c hc => ?_⟩
  · rw [Fleet.toRelay_taken] at hmem'
    exact hs.toRelay link' parcel' (mem_of_mem_update_tail hlink hmem') k c hk hc
  · rw [Fleet.toGateway_taken] at hmessage
    obtain hold | hnew := List.mem_append.mp hmessage
    · exact hs.toGateway link' message hold k c hk hc
    · obtain ⟨o, ho, hparcel⟩ := List.mem_filterMap.mp hnew
      have hlink' : link'.2 = link.2 := (Option.ite_none_right_eq_some.mp hparcel).1.1
      -- an answer carries no serial: only what is fanned out keeps that of the message
      obtain hnone | ⟨hserial, targets, m, rfl, hbody⟩ := serial_of_parcelFor hparcel
      · rw [hnone] at hk
        cases hk
      · obtain ⟨hroute, htype, hroom, hid⟩ := hs.toRelay link parcel hmem k c (hserial ▸ hk) hc
        refine ⟨by rw [hlink', hroute]; rfl, ?_⟩
        change Relay.Output.fanOut targets m ∈ (Relay.handleMessage d.rust _ _
          (Relay.Message.deserialize fresh parcel.body.marshal) ∅ now).2 at ho
        rw [deserialize_written (hpenned.link link parcel hmem).1 hnow hsize] at ho
        cases hwire : Relay.MessageType.ofWire parcel.body.type.wire with
        | none =>
            rw [hwire] at ho
            cases ho
        | some t =>
            rw [hwire] at ho
            obtain ⟨-, rfl⟩ := fansOut_of_mem ho
            rw [hbody]
            exact ⟨_, unmarshal_serialize _ hnow, hroom, hid⟩
  · rw [Fleet.gateways_taken]
    exact hs.sender k c hc

omit [DecidableEq γ] in
theorem Directed.same (hs : Directed d s) (htoRelay : t.net.toRelay = s.net.toRelay)
    (htoGateway : ∀ link, ∀ message ∈ t.net.toGateway link, message ∈ s.net.toGateway link)
    (hchats : t.chats = s.chats)
    (hissued : ∀ g, (s.net.gateways g).issued ⊆ (t.net.gateways g).issued) : Directed d t := by
  refine ⟨fun link parcel hmem k c hk hc => ?_, fun link message hmem k c hk hc => ?_,
    fun k c hc => ?_⟩
  · rw [htoRelay] at hmem
    exact hs.toRelay link parcel hmem k c hk (hchats ▸ hc)
  · exact hs.toGateway link message (htoGateway link message hmem) k c hk (hchats ▸ hc)
  · exact hissued _ (hs.sender k c (hchats ▸ hc))

theorem issued_handled {g : γ} {p : PeerID} {res : Server × List Gateway.Output}
    (h : (s.net.gateways g).issued ⊆ res.1.issued) (g' : γ) :
    (s.net.gateways g').issued ⊆ ((s.handled g p res).net.gateways g').issued := by
  show _ ⊆ (Function.update s.net.gateways g res.1 g').issued
  by_cases hg : g' = g
  · rwa [hg, Function.update_self]
  · rw [Function.update_of_ne hg]

theorem Directed.act (hs : Directed d s) (hhoused : Housed s) (hpenned : Penned d s)
    (hserialled : Serialled s) (hrelays : 0 < d.relays) (hlimit : Unlimited d s a)
    (h : FleetStep d s a t) : Directed d t := by
  cases h with
  | connected hpending =>
      exact hs.same rfl (fun _ _ => id) rfl (issued_handled (Finset.subset_insert _ _))
  | @framed g p frame now hpending hconn =>
      have hissued : (handleFrame d.go (s.net.gateways g) p frame now).1.issued =
          (s.net.gateways g).issued := (handleFrame_effect frame).conns.2
      exact hs.same rfl (fun _ _ => id) rfl (issued_handled hissued.symm.subset)
  | @emitted g p o rest hpending =>
      by_cases ho : ∃ env, o = .forward env
      · obtain ⟨env, rfl⟩ := ho
        exact hs.forward hhoused hpenned hserialled hrelays hpending
      · obtain ⟨htoRelay, -, hchats, -⟩ :=
          @Fleet.emit_other γ _ d s g p o rest fun env h => ho ⟨env, h⟩
        refine hs.same htoRelay (fun link message hmem => ?_) hchats fun g' => ?_
        · rwa [Fleet.toGateway_emit] at hmem
        · rw [Fleet.gateways_emit]
  | taken hlink => exact hs.take hpenned hlink hlimit
  | dropped hlink hread =>
      exact hs.same rfl (fun _ _ => mem_of_mem_update_tail hlink) rfl fun _ => subset_rfl
  | delivered hlink hread =>
      refine hs.same rfl (fun _ _ => mem_of_mem_update_tail hlink) rfl fun g => ?_
      rw [Fleet.gateways_passOn]
      exact subset_rfl

/-! ### The peers that are to get a chat -/

/-- A chat that a peer is to get is in one place: on its way to its relay, on its way back
to the peer's gateway, or on the peer's queue. Until it is there the peer is a member, and
until the relay has taken it the relay knows of the peer. -/
structure Due (d : Deployment γ) (s : Fleet γ) (k : ℕ) (c : Chat γ) (g : γ) (q : PeerID) : Prop where
  other : g ≠ c.gateway
  once : s.net.transit k (c.link d) + s.net.copies k (g, relayForRoom d.relays c.room) +
    s.net.deliveries k g q = 1
  arrived : s.net.transit k (c.link d) ≠ 0 → s.Arrived d g q c.room

/-- Every chat that a peer is to get is due to it. -/
structure Owing (d : Deployment γ) (s : Fleet γ) : Prop where
  due : ∀ k g q, s.owed k g q = true → ∃ c, s.chats k = some c ∧ Due d s k c g q
  member : ∀ k g q, s.owed k g q = true → ∀ c, s.chats k = some c →
    s.net.deliveries k g q = 0 → q ∈ (s.net.gateways g).store.peers c.room

theorem mem_tell_of_not_leave {told : Finset (PeerID × RoomName)} {env : Envelope} {q : PeerID}
    {room : RoomName} (h : (q, room) ∈ told)
    (hnot : ¬(env.type = .leave ∧ env.id = q ∧ env.room = room)) : (q, room) ∈ tell told env := by
  unfold tell
  split
  · exact Finset.mem_insert_of_mem h
  · next htype =>
      refine Finset.mem_erase.mpr ⟨fun heq => hnot ⟨htype, ?_⟩, h⟩
      exact ⟨(Prod.mk.inj heq).1.symm, (Prod.mk.inj heq).2.symm⟩
  · exact h

section
variable {k : ℕ} {c : Chat γ} {g : γ} {q : PeerID}

omit [DecidableEq γ] in
/-- Nothing on the connections or the queues has changed. -/
theorem Due.same (h : Due d s k c g q) (htoRelay : t.net.toRelay = s.net.toRelay)
    (htoGateway : t.net.toGateway = s.net.toGateway) (htold : t.told = s.told)
    (hdeliveries : t.net.deliveries k g q = s.net.deliveries k g q) : Due d t k c g q where
  other := h.other
  once := by
    rw [Federation.transit, Federation.copies, htoRelay, htoGateway, hdeliveries]
    exact h.once
  arrived := by
    rw [Federation.transit, Fleet.Arrived, htoRelay, htold]
    exact h.arrived

/-- Another message is written to a relay; it is no leave of a member. -/
theorem Due.forward (h : Due d s k c g q) (hpenned : Penned d s) (hserialled : Serialled s)
    (hc : s.chats k = some c) (hrelays : 0 < d.relays)
    (hmember : s.net.deliveries k g q = 0 → q ∈ (s.net.gateways g).store.peers c.room)
    {g' : γ} {p : PeerID} {env : Envelope} {rest : List Gateway.Output}
    (hpending : s.pending (g', p) = .forward env :: rest) :
    Due d (s.emit d g' p (.forward env) rest) k c g q := by
  have hk : k ≠ s.net.serial := by
    rintro rfl
    rw [hserialled.chats _ le_rfl] at hc
    cases hc
  have htransit : (s.emit d g' p (.forward env) rest).net.transit k (c.link d) =
      s.net.transit k (c.link d) := by
    rw [transit_forward hrelays, if_neg fun h => hk h.2, Nat.add_zero]
  have henv : env ∈ writes (s.pending (g', p)) := by
    rw [hpending, mem_writes]
    exact List.mem_cons_self
  obtain ⟨now, hforwarded, -⟩ := hpenned.pending g' p env henv
  refine ⟨h.other, ?_, fun hin => ?_⟩
  · rw [htransit, Federation.copies, Fleet.toGateway_emit, Fleet.deliveries_emit]
    exact h.once
  · rw [htransit] at hin
    obtain ⟨htold, hnone⟩ := h.arrived hin
    refine ⟨by rwa [Fleet.told_emit], fun parcel hmem hleave => ?_⟩
    rw [Fleet.toRelay_emit hrelays] at hmem
    by_cases hlink : (g, relayForRoom d.relays c.room) = (g', relayForRoom d.relays env.room)
    · rw [hlink, Function.update_self] at hmem
      obtain hold | hnew := List.mem_append.mp hmem
      · exact hnone parcel (hlink ▸ hold) hleave
      · rw [List.mem_singleton.mp hnew] at hleave
        obtain ⟨htype, hid, hroom⟩ := hleave
        -- the peer is a member, so its handler has no leave of the room to write
        refine hpenned.leaving g' p env henv htype ?_
        rw [← (Prod.mk.inj hlink).1, ← hforwarded.id, hid, hroom]
        refine hmember ?_
        have honce := h.once
        omega
    · rw [Function.update_of_ne hlink] at hmem
      exact hnone parcel hmem hleave

/-- A chat that is just being written to its relay. -/
theorem due_of_expects (hserialled : Serialled s) (hrelays : 0 < d.relays) {g' : γ} {p : PeerID}
    {env : Envelope} {rest : List Gateway.Output}
    (hexpects : s.Expects d ⟨g', p, env.room⟩ g q) :
    Due d (s.emit d g' p (.forward env) rest) s.net.serial ⟨g', p, env.room⟩ g q := by
  obtain ⟨hother, -, htold, hnone⟩ := hexpects
  refine ⟨hother, ?_, fun _ => ⟨by rwa [Fleet.told_emit], fun parcel hmem hleave => ?_⟩⟩
  · rw [transit_forward hrelays, if_pos ⟨rfl, rfl⟩, Federation.copies, Fleet.toGateway_emit,
      Fleet.deliveries_emit, hserialled.transit _ le_rfl, hserialled.deliveries _ le_rfl]
    have hcopies := hserialled.copies _ le_rfl (g, relayForRoom d.relays env.room)
    rw [Federation.copies] at hcopies
    show 0 + 1 + List.countP _ (s.net.toGateway (g, relayForRoom d.relays env.room)) + 0 = 1
    rw [hcopies]
  · rw [Fleet.toRelay_emit hrelays, Function.update_of_ne fun h => hother (Prod.mk.inj h).1] at hmem
    exact hnone parcel hmem hleave

/-- What a relay puts on the connection of a gateway for a chat. -/
theorem copies_of_chat (haligned : Aligned d s) (hpenned : Penned d s) (hdirected : Directed d s)
    (hunicode : ∀ ch, d.go.isLetter ch || d.go.isNumber ch → d.rust.isAlphanumeric ch = true)
    {fresh id : String} {now : ℕ} {parcel : Parcel Envelope} {rest : List (Parcel Envelope)}
    {link : Link γ} (hlink : s.net.toRelay link = parcel :: rest)
    (hlimit : Unlimited d s (.relay link fresh id now)) (hserial : parcel.serial = some k)
    (hc : s.chats k = some c) (hother : g ≠ c.gateway) (harrived : s.Arrived d g q c.room) :
    (s.taken d link fresh id now parcel rest).net.copies k (g, relayForRoom d.relays c.room) =
      s.net.copies k (g, relayForRoom d.relays c.room) + 1 := by
  obtain ⟨hnow, hsize, hpayload, -⟩ := limits_of_unlimited hlimit hlink
  have hmem : parcel ∈ s.net.toRelay link := hlink ▸ List.mem_cons_self
  obtain ⟨rfl, htype, hroom, -⟩ := hdirected.toRelay link parcel hmem k c hserial hc
  -- both gateways are in the room at the relay
  have hsender : (s.net.relays (c.link d).2).current (d.conn c.gateway) = some c.room := by
    have htuned := haligned.tuned (c.link d)
    rw [hlink] at htuned
    obtain ⟨x, hx, hxroom⟩ := htuned.2.1 htype
    rw [← hroom, ← hxroom]
    exact htuned.1 x hx
  have hreceiver : (s.net.relays (c.link d).2).current (d.conn g) = some c.room :=
    (haligned.tuned (g, relayForRoom d.relays c.room)).agrees (q, c.room) harrived.1
  have houts : (takeMessage d s.net (c.link d) fresh now parcel.body).2 =
      [.fanOut (((s.net.relays (c.link d).2).members c.room).erase (d.conn c.gateway))
        { relayed parcel.body .chat with timestamp := now }] :=
    fanned_of_written (hpenned.link _ parcel hmem).1 hunicode hnow hsize htype hpayload hsender
      (haligned.seated _ _ _ hsender)
  have htarget : d.conn g ∈
      ((s.net.relays (c.link d).2).members c.room).erase (d.conn c.gateway) :=
    Finset.mem_erase.mpr
      ⟨fun heq => hother (d.conn_injective heq), haligned.seated _ _ _ hreceiver⟩
  rw [copies_taken, houts, hserial, List.filterMap_cons, Federation.parcelFor,
    if_pos ⟨rfl, htarget⟩]
  simp [relayParcel]

/-- A relay takes a message. -/
theorem Due.take (h : Due d s k c g q) (haligned : Aligned d s) (hpenned : Penned d s)
    (hdirected : Directed d s)
    (hunicode : ∀ ch, d.go.isLetter ch || d.go.isNumber ch → d.rust.isAlphanumeric ch = true)
    (hc : s.chats k = some c) {link : Link γ} {fresh id : String} {now : ℕ}
    {parcel : Parcel Envelope} {rest : List (Parcel Envelope)}
    (hlink : s.net.toRelay link = parcel :: rest)
    (hlimit : Unlimited d s (.relay link fresh id now)) :
    Due d (s.taken d link fresh id now parcel rest) k c g q := by
  have hmem : parcel ∈ s.net.toRelay link := hlink ▸ List.mem_cons_self
  have htransit := transit_taken d fresh id now k (c.link d) hlink
  have honce := h.once
  by_cases hserial : parcel.serial = some k
  · -- the chat itself: it was on its way, and goes to the peer's gateway
    obtain ⟨rfl, -⟩ := hdirected.toRelay link parcel hmem k c hserial hc
    rw [if_pos ⟨rfl, hserial⟩] at htransit
    have hcopies := copies_of_chat haligned hpenned hdirected hunicode hlink hlimit hserial hc
      h.other (h.arrived (by omega))
    refine ⟨h.other, ?_, fun hin => absurd ?_ hin⟩
    · rw [hcopies, Fleet.deliveries_taken]
      omega
    · omega
  · rw [if_neg fun h => hserial h.2, Nat.add_zero] at htransit
    refine ⟨h.other, ?_, fun hin => ?_⟩
    · rw [← htransit, copies_taken_of_ne hserial, Fleet.deliveries_taken]
      exact honce
    · rw [← htransit] at hin
      obtain ⟨htold, hnone⟩ := h.arrived hin
      refine ⟨?_, fun parcel' hmem' => ?_⟩
      · show (q, c.room) ∈ Function.update s.told link (tell (s.told link) parcel.body) _
        by_cases hback : (g, relayForRoom d.relays c.room) = link
        · rw [hback, Function.update_self]
          rw [hback] at htold hnone
          exact mem_tell_of_not_leave htold (hnone parcel hmem)
        · rwa [Function.update_of_ne hback]
      · rw [Fleet.toRelay_taken] at hmem'
        exact hnone parcel' (mem_of_mem_update_tail hlink hmem')

/-- A gateway reads a message that is not the chat. -/
theorem Due.read (h : Due d s k c g q) {link : Link γ} {message : Parcel Relay.Message}
    {rest : List (Parcel Relay.Message)} (hlink : s.net.toGateway link = message :: rest)
    (hserial : message.serial ≠ some k) : Due d (s.read link rest) k c g q := by
  have hcopies := copies_read k (g, relayForRoom d.relays c.room) hlink
  rw [if_neg fun h => hserial h.2, Nat.add_zero] at hcopies
  refine ⟨h.other, ?_, h.arrived⟩
  rw [← hcopies]
  exact h.once

/-- A gateway passes a message on. -/
theorem Due.deliver (h : Due d s k c g q) (hhoused : Housed s) (hdirected : Directed d s)
    (hc : s.chats k = some c)
    (hmember : s.net.deliveries k g q = 0 → q ∈ (s.net.gateways g).store.peers c.room)
    {link : Link γ} {message : Parcel Relay.Message} {rest : List (Parcel Relay.Message)}
    {env : Envelope} (hlink : s.net.toGateway link = message :: rest)
    (hread : Envelope.unmarshal message.body.serialize = some env) :
    Due d ((s.read link rest).passOn d link.1 message.serial env) k c g q := by
  have hcopies := copies_read k (g, relayForRoom d.relays c.room) hlink
  have honce := h.once
  refine ⟨h.other, ?_, h.arrived⟩
  show s.net.transit k (c.link d) +
    (s.read link rest).net.copies k (g, relayForRoom d.relays c.room) + _ = 1
  rw [Fleet.deliveries_passOn]
  show _ + _ + (s.net.deliveries k g q + if g = link.1 ∧
    q ∈ (s.net.gateways link.1).targets env.room env.id ∧ message.serial = some k then 1 else 0) = 1
  by_cases hserial : message.serial = some k
  · have hmem : message ∈ s.net.toGateway link := hlink ▸ List.mem_cons_self
    obtain ⟨hroute, env', henv', hroom, hid⟩ := hdirected.toGateway link message hmem k c hserial hc
    obtain rfl := Option.some.inj (hread.symm.trans henv')
    by_cases hg : g = link.1
    · -- the copy for this gateway: the peer is a member here, and not the sender
      have hback : (g, relayForRoom d.relays c.room) = link := Prod.ext hg hroute.symm
      rw [if_pos ⟨hback, hserial⟩] at hcopies
      have hq := hmember (by omega)
      have hne : q ≠ c.sender := by
        rintro rfl
        have hissued := (hhoused.fresh g).issued_of_conn (hhoused.homed g c.sender c.room hq).1
        exact h.other (hhoused.distinct g c.gateway c.sender hissued (hdirected.sender k c hc))
      have htarget : q ∈ (s.net.gateways link.1).targets env.room env.id := by
        rw [← hg, hroom, hid]
        exact Finset.mem_inter.mpr
          ⟨Finset.mem_erase.mpr ⟨hne, hq⟩, (hhoused.homed g q c.room hq).1⟩
      rw [if_pos ⟨hg, htarget, hserial⟩]
      omega
    · -- the copy for another gateway says nothing about the peers of this one
      rw [if_neg fun h => hg (congrArg Prod.fst h.1)] at hcopies
      rw [if_neg fun h => hg h.1]
      omega
  · rw [if_neg fun h => hserial h.2] at hcopies
    rw [if_neg fun h => hserial h.2.2]
    omega

end

/-- Who is to get a chat that is just being written to its relay. -/
theorem owed_forward {g : γ} {p : PeerID} {env : Envelope} {rest : List Gateway.Output} {k : ℕ}
    {g' : γ} {q : PeerID} (h : (s.emit d g p (.forward env) rest).owed k g' q = true) :
    (k = s.net.serial ∧ env.type = .chat ∧ s.Expects d ⟨g, p, env.room⟩ g' q) ∨
      (k = s.net.serial → env.type ≠ .chat) ∧ s.owed k g' q = true := by
  change (if env.type = .chat then s.record d ⟨g, p, env.room⟩ else s).owed k g' q = true at h
  by_cases htype : env.type = .chat
  · rw [if_pos htype] at h
    change Function.update s.owed s.net.serial
      (fun g' q => decide (s.Expects d ⟨g, p, env.room⟩ g' q)) k g' q = true at h
    by_cases hk : k = s.net.serial
    · rw [hk, Function.update_self] at h
      exact .inl ⟨hk, htype, of_decide_eq_true h⟩
    · rw [Function.update_of_ne hk] at h
      exact .inr ⟨fun hk' => absurd hk' hk, h⟩
  · rw [if_neg htype] at h
    exact .inr ⟨fun _ => htype, h⟩

/-- Whom a chat is due to after an action. -/
theorem Owing.due_act (hs : Owing d s) (hhoused : Housed s) (hpenned : Penned d s)
    (haligned : Aligned d s) (hserialled : Serialled s) (hdirected : Directed d s)
    (hrelays : 0 < d.relays)
    (hunicode : ∀ ch, d.go.isLetter ch || d.go.isNumber ch → d.rust.isAlphanumeric ch = true)
    (hlimit : Unlimited d s a) (h : FleetStep d s a t) {k : ℕ} {g : γ} {q : PeerID}
    (howed : t.owed k g q = true) : ∃ c, t.chats k = some c ∧ Due d t k c g q := by
  cases h with
  | connected hpending =>
      obtain ⟨c, hc, hdue⟩ := hs.due k g q howed
      exact ⟨c, hc, hdue.same rfl rfl rfl rfl⟩
  | framed hpending hconn =>
      obtain ⟨c, hc, hdue⟩ := hs.due k g q howed
      exact ⟨c, hc, hdue.same rfl rfl rfl rfl⟩
  | @emitted g' p o rest hpending =>
      by_cases ho : ∃ env, o = .forward env
      · obtain ⟨env, rfl⟩ := ho
        rw [chats_forward]
        obtain ⟨rfl, htype, hexpects⟩ | ⟨hnot, hold⟩ := owed_forward howed
        · exact ⟨_, if_pos ⟨rfl, htype⟩, due_of_expects hserialled hrelays hexpects⟩
        · obtain ⟨c, hc, hdue⟩ := hs.due k g q hold
          rw [if_neg fun h => hnot h.1 h.2]
          exact ⟨c, hc, hdue.forward hpenned hserialled hc hrelays (hs.member k g q hold c hc)
            hpending⟩
      · obtain ⟨htoRelay, -, hchats, howed'⟩ :=
          @Fleet.emit_other γ _ d s g' p o rest fun env h => ho ⟨env, h⟩
        rw [howed'] at howed
        obtain ⟨c, hc, hdue⟩ := hs.due k g q howed
        exact ⟨c, hchats ▸ hc, hdue.same htoRelay Fleet.toGateway_emit Fleet.told_emit
          (Fleet.deliveries_emit k)⟩
  | taken hlink =>
      obtain ⟨c, hc, hdue⟩ := hs.due k g q howed
      exact ⟨c, hc, hdue.take haligned hpenned hdirected hunicode hc hlink hlimit⟩
  | @dropped link message rest hlink hread =>
      obtain ⟨c, hc, hdue⟩ := hs.due k g q howed
      refine ⟨c, hc, hdue.read hlink fun hserial => ?_⟩
      -- a copy of a chat can be read
      have hmem : message ∈ s.net.toGateway link := hlink ▸ List.mem_cons_self
      obtain ⟨-, env, henv, -⟩ := hdirected.toGateway link message hmem k c hserial hc
      rw [hread] at henv
      cases henv
  | delivered hlink hread =>
      obtain ⟨c, hc, hdue⟩ := hs.due k g q howed
      exact ⟨c, hc, hdue.deliver hhoused hdirected hc (hs.member k g q howed c hc) hlink hread⟩

/-! ### Every run -/

/-- The invariants of a run that meets the conditions. -/
structure FleetSound (d : Deployment γ) (s : Fleet γ) : Prop where
  housed : Housed s
  informed : Informed d s
  penned : Penned d s
  aligned : Aligned d s
  serialled : Serialled s
  directed : Directed d s
  owing : Owing d s

theorem FleetSound.step (hs : FleetSound d s) {s' : Fleet γ} (hrelays : 0 < d.relays)
    (hunicode : ∀ ch, d.go.isLetter ch || d.go.isNumber ch → d.rust.isAlphanumeric ch = true)
    (hids : FreshIds s a) (hlimit : Unlimited d s a) (hroom : OneRoom d s a)
    (h : fleetStep d s a = some s') : FleetSound d s' := by
  obtain ⟨t, ht, rfl⟩ := fleetStep_cases h
  have hhoused := hs.housed.act hids ht
  have hinformed : Informed d t := hs.informed.act hs.penned hrelays ht
  have hpenned := hs.penned.act hrelays hlimit hroom ht
  have haligned := hs.aligned.act hs.penned hrelays hunicode hlimit hroom ht
  have hserialled := hs.serialled.act hrelays ht
  have hdirected := hs.directed.act hs.housed hs.penned hs.serialled hrelays hlimit ht
  refine ⟨⟨hhoused.homed, hhoused.fresh, hhoused.distinct, hhoused.busy⟩,
    hinformed, ⟨hpenned.pending, hpenned.leaving, hpenned.link⟩,
    ⟨haligned.seated, haligned.tuned⟩,
    ⟨hserialled.transit, hserialled.copies, hserialled.deliveries, hserialled.chats⟩,
    ⟨hdirected.toRelay, hdirected.toGateway, hdirected.sender⟩, ?_, ?_⟩
  · intro k g q howed
    obtain ⟨howed, -⟩ := Bool.and_eq_true_iff.mp howed
    obtain ⟨c, hc, hdue⟩ := hs.owing.due_act hs.housed hs.penned hs.aligned hs.serialled
      hs.directed hrelays hunicode hlimit ht howed
    exact ⟨c, hc, hdue.same rfl rfl rfl rfl⟩
  · intro k g q howed c hc hnone
    obtain ⟨-, hany⟩ := Bool.and_eq_true_iff.mp howed
    change t.chats k = some c at hc
    rw [hc] at hany
    have hstill := of_decide_eq_true hany
    exact hstill.resolve_right fun hpos => hpos.ne' hnone

end

/-! ### Two gateways and one relay -/

def twin : Deployment Bool where
  go := asciiRuntime "" {}
  rust := Relay.asciiRelay
  conn := fun g => if g then "x" else "y"
  conn_injective := by decide
  relays := 1

/-- A new peer joins a room, and the relay takes the join. -/
def comesIn (g : Bool) (p : PeerID) (room : RoomName) : List (FleetAction Bool) :=
  [.connect g p 0, .emit g p, .frame g p (some { type := .join, room := room }) 0, .emit g p,
    .emit g p, .emit g p, .relay (g, 0) "f" "i" 0]

instance {γ : Type} [Fintype γ] (s : Fleet γ) (a : FleetAction γ) : Decidable (FreshIds s a) := by
  induction a using FleetAction.casesOn <;> unfold FreshIds <;> infer_instance

instance {γ : Type} (d : Deployment γ) (s : Fleet γ) (a : FleetAction γ) :
    Decidable (Unlimited d s a) := by
  induction a using FleetAction.casesOn <;> unfold Unlimited <;> infer_instance

instance (told : Finset (PeerID × RoomName)) (env : Envelope) : Decidable (Fits told env) := by
  unfold Fits
  generalize env.type = type
  induction type using MessageType.casesOn <;> infer_instance

instance {γ : Type} [DecidableEq γ] (d : Deployment γ) (s : Fleet γ) (a : FleetAction γ) :
    Decidable (OneRoom d s a) := by
  induction a using FleetAction.casesOn <;> unfold OneRoom <;> try infer_instance
  case emit g p =>
    dsimp only
    generalize (s.pending (g, p)).head? = o
    induction o using Option.casesOn with
    | none => infer_instance
    | some o => induction o using Gateway.Output.casesOn <;> infer_instance

end TrapChat.Network
