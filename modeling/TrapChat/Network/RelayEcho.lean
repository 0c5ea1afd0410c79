import TrapChat.Gateway.Shapes
import TrapChat.Network.Federation
import TrapChat.Relay.Addressing

/-!
One gateway, its relay instances, and what comes back from them. A room belongs to the
instance that its name is hashed to; several instances may lead to one relay. A
connection to a relay may end on either side at any time, and the other side may be
late to notice: the relay goes on with what it has read, for a connection that the
gateway has already replaced.

The gateway runs at the granularity of its goroutines. A relay takes one message after
another, and any queue of its may be full. Every accepted chat, media or key rotation
has a serial, which its copies keep, and a record of whom it has been offered to;
nothing in the code depends on either.
-/

namespace TrapChat.Network

open Storage Protocol Gateway Transition

/-- What is fixed: the runtimes, the number of relay instances, and the relay that the
URL of an instance leads to. -/
structure Wiring where
  go : GoRuntime
  rust : Relay.RustRuntime
  instances : ℕ
  server : ℕ → ℕ

/-- The record of an accepted message: its sender, the goroutine that broadcasts it, the
members of the room and those of them with a connection when the broadcast has read
them, and how often it has been put on each queue. -/
structure Accepted where
  sender : PeerID
  task : Task
  members : Finset PeerID
  audience : Finset PeerID
  offers : PeerID → ℕ

structure Hub where
  process : Process
  relays : ℕ → Relay.State
  /-- `ri.conn` of every instance. -/
  conn : ℕ → Option Relay.ConnId
  /-- The instance of every connection that there has been. -/
  owner : Relay.ConnId → Option ℕ
  toRelay : Relay.ConnId → List (Parcel Envelope)
  toGateway : Relay.ConnId → List (Parcel Relay.Message)
  /-- The message that a goroutine is broadcasting. -/
  working : Task → Option ℕ
  log : ℕ → Accepted
  /-- The next serial. -/
  serial : ℕ

/-- The types that go to the other peers of the room and to the relay. -/
def isShared : MessageType → Bool
  | .chat | .media | .keyRotation => true
  | _ => false

namespace Hub

/-! ### What an operation means for the messages -/

/-- A message is accepted. -/
def accept (s : Hub) (t : Task) (p : PeerID) : Hub :=
  { s with
    log := Function.update s.log s.serial ⟨p, t, ∅, ∅, fun _ => 0⟩
    working := Function.update s.working t (some s.serial)
    serial := s.serial + 1 }

def amend (s : Hub) (k : ℕ) (f : Accepted → Accepted) : Hub :=
  { s with log := Function.update s.log k (f (s.log k)) }

/-- The goroutine that broadcasts a message has read its receivers. -/
def observe (s : Hub) (t : Task) (f : Accepted → Accepted) : Hub :=
  match s.working t with
  | some k => if (s.log k).task = t then s.amend k f else s
  | none => s

/-- A goroutine puts its message on a queue. -/
def offer (s : Hub) (t : Task) (p : PeerID) : Hub :=
  match s.working t with
  | some k => s.amend k fun m =>
      { m with offers := Function.update m.offers p (m.offers p + 1) }
  | none => s

def finish (s : Hub) (t : Task) : Hub := { s with working := Function.update s.working t none }

/-- `forwardToRelay`: to the instance of the room, if that is connected. -/
def forward (d : Wiring) (s : Hub) (t : Task) (env : Envelope) : Hub :=
  if d.instances = 0 then s
  else
    match s.conn (relayForRoom d.instances env.room) with
    | none => s
    | some c =>
      { s with toRelay := Function.update s.toRelay c (s.toRelay c ++ [⟨env, s.working t⟩]) }

/-- What a goroutine's next operation does beside the process. A panic ends the
broadcast. -/
def note (d : Wiring) (s : Hub) (t : Task) : Op → Hub
  | .member p env =>
    if s.process.server.inRoom p env.room = true ∧ isShared env.type = true then s.accept t p else s
  | .broadcastPeers room _ _ =>
    s.observe t fun m => { m with members := s.process.server.store.peers room }
  | .broadcastConns _ _ =>
    s.observe t fun m => { m with audience := m.members.erase m.sender ∩ s.process.server.conns }
  | .enqueue p _ => if s.process.closes p = 0 then s.offer t p else s.finish t
  | .forward env => (s.forward d t env).finish t
  | _ => s

/-! ### The relays -/

/-- What an output of a relay puts on a connection. -/
def parcelTo (serial : Option ℕ) (id : String) (now : ℕ) (c : Relay.ConnId) (o : Relay.Output) :
    Option (Parcel Relay.Message) :=
  let sent := relayParcel serial id now o
  if c ∈ sent.1 then some sent.2 else none

/-- An event at a relay. -/
def relayEvent (d : Wiring) (s : Hub) (j : ℕ) (serial : Option ℕ) (id : String) (now : ℕ)
    (e : Relay.Event) : Option Hub :=
  (Relay.handle d.rust (s.relays j) e).map fun res =>
    { s with
      relays := Function.update s.relays j res.1
      toGateway := fun c => s.toGateway c ++ res.2.filterMap (parcelTo serial id now c) }

/-- The relay that a connection is at. -/
def server (d : Wiring) (s : Hub) (c : Relay.ConnId) : ℕ := d.server ((s.owner c).getD 0)

end Hub

inductive HubAction
  /-- A step of the gateway. What its relay readers start with is a `deliver`. -/
  | gateway (a : Gateway.Action)
  /-- An instance that has no connection gets one. -/
  | dial (i : ℕ) (c : Relay.ConnId)
  /-- The gateway's read from a relay fails. -/
  | lose (i : ℕ)
  /-- A relay takes the next message of a connection. -/
  | relay (c : Relay.ConnId) (fresh id : String) (refuse : Finset Relay.ConnId) (now : ℕ)
  /-- A relay's read from a connection fails. -/
  | hangUp (c : Relay.ConnId) (id : String) (now : ℕ)
  /-- The reader of an instance takes the next message of its connection. -/
  | deliver (i : ℕ)

def hubStep (d : Wiring) (s : Hub) : HubAction → Option Hub
  | .gateway (.relayed _ _) => none
  | .gateway (.run t order now) =>
    match s.process.code t with
    | [] => none
    | op :: _ => (processStep d.go s.process (.run t order now)).map fun process =>
        { s.note d t op with process := process }
  | .gateway a => (processStep d.go s.process a).map fun process => { s with process := process }
  | .dial i c =>
    if i < d.instances ∧ s.conn i = none ∧ s.owner c = none ∧
        s.process.code (.relayReader i) = [] then
      Hub.relayEvent d { s with
        conn := Function.update s.conn i (some c)
        owner := Function.update s.owner c (some i) } (d.server i) none "" 0 (.connect c)
    else none
  | .lose i =>
    if s.process.code (.relayReader i) = [] then
      some { s with conn := Function.update s.conn i none }
    else none
  | .relay c fresh id refuse now =>
    match s.toRelay c with
    | [] => none
    | parcel :: rest =>
      Hub.relayEvent d { s with toRelay := Function.update s.toRelay c rest } (s.server d c)
        parcel.serial id now
        (.message c (Relay.Message.deserialize fresh parcel.body.marshal) refuse now)
  | .hangUp c id now => s.relayEvent d (s.server d c) none id now (.disconnect c)
  | .deliver i =>
    match s.conn i with
    | none => none
    | some c =>
      match s.toGateway c with
      | [] => none
      | parcel :: rest =>
        let s := { s with toGateway := Function.update s.toGateway c rest }
        match Envelope.unmarshal parcel.body.serialize with
        | none => some s
        | some env => (processStep d.go s.process (.relayed i env)).map fun process =>
            { s with
              process := process
              working := Function.update s.working (.relayReader i) parcel.serial }

/-- No goroutine broadcasts a message to a peer whose queue is closed, and no relay takes
an accepted message off a connection while one that has replaced it is in its room. -/
def Unechoed (d : Wiring) (s : Hub) : HubAction → Prop
  | .gateway (.run t _ _) =>
    match (s.process.code t).head? with
    | some (.enqueue p _) => s.working t ≠ none → s.process.closes p = 0
    | _ => True
  | .relay c _ _ _ _ => ∀ parcel ∈ (s.toRelay c).head?, parcel.serial ≠ none →
      ∀ room ∈ (s.relays (s.server d c)).current c, ∀ c' ∈ s.conn (relayForRoom d.instances room),
        c' ≠ c → c' ∉ (s.relays (s.server d c)).members room
  | _ => True

instance (d : Wiring) (s : Hub) (a : HubAction) : Decidable (Unechoed d s a) :=
  match a with
  | .gateway (.run t _ _) => by
    unfold Unechoed
    dsimp only
    split <;> infer_instance
  | .relay c _ _ _ _ => by
    unfold Unechoed
    infer_instance
  | .gateway (.connect ..) | .gateway (.frame ..) | .gateway (.readError _)
  | .gateway (.cleanupRequest ..) | .gateway (.broadcastRequest ..) | .gateway .tick
  | .gateway (.relayed ..) | .dial .. | .lose _ | .hangUp .. | .deliver _ => .isTrue trivial

variable {d : Wiring} {s s' : Hub} {t : Task} {op : Op} {c : Relay.ConnId}

/-! ### What a step can do -/

/-- A message that its relay has not yet taken. -/
def Hub.taken (s : Hub) (c : Relay.ConnId) (rest : List (Parcel Envelope)) : Hub :=
  { s with toRelay := Function.update s.toRelay c rest }

/-- A message that its reader has not yet taken. -/
def Hub.received (s : Hub) (c : Relay.ConnId) (rest : List (Parcel Relay.Message)) : Hub :=
  { s with toGateway := Function.update s.toGateway c rest }

/-- The connection of an instance that had none. -/
def Hub.dialled (s : Hub) (i : ℕ) (c : Relay.ConnId) : Hub :=
  { s with
    conn := Function.update s.conn i (some c)
    owner := Function.update s.owner c (some i) }

inductive HubStep (d : Wiring) (s : Hub) : HubAction → Hub → Prop
  | started {a : Gateway.Action} {process : Process} (ha : ∀ t order now, a ≠ .run t order now)
      (h : processStep d.go s.process a = some process) :
      HubStep d s (.gateway a) { s with process := process }
  | ran {t : Task} {order : List String} {now : Time} {op : Op} {rest : List Op}
      {process : Process} (hcode : s.process.code t = op :: rest)
      (h : processStep d.go s.process (.run t order now) = some process) :
      HubStep d s (.gateway (.run t order now)) { s.note d t op with process := process }
  | dialled {i : ℕ} {c : Relay.ConnId} {s' : Hub} (hconn : s.conn i = none)
      (hfresh : s.owner c = none)
      (h : (s.dialled i c).relayEvent d (d.server i) none "" 0 (.connect c) = some s') :
      HubStep d s (.dial i c) s'
  | lost {i : ℕ} : HubStep d s (.lose i) { s with conn := Function.update s.conn i none }
  | taken {c : Relay.ConnId} {fresh id : String} {refuse : Finset Relay.ConnId} {now : ℕ}
      {parcel : Parcel Envelope} {rest : List (Parcel Envelope)} {s' : Hub}
      (hparcels : s.toRelay c = parcel :: rest)
      (h : (s.taken c rest).relayEvent d (s.server d c) parcel.serial id now
        (.message c (Relay.Message.deserialize fresh parcel.body.marshal) refuse now) = some s') :
      HubStep d s (.relay c fresh id refuse now) s'
  | hungUp {c : Relay.ConnId} {id : String} {now : ℕ} {s' : Hub}
      (h : s.relayEvent d (s.server d c) none id now (.disconnect c) = some s') :
      HubStep d s (.hangUp c id now) s'
  | dropped {i : ℕ} {c : Relay.ConnId} {parcel : Parcel Relay.Message}
      {rest : List (Parcel Relay.Message)} (hconn : s.conn i = some c)
      (hparcels : s.toGateway c = parcel :: rest) : HubStep d s (.deliver i) (s.received c rest)
  | delivered {i : ℕ} {c : Relay.ConnId} {parcel : Parcel Relay.Message}
      {rest : List (Parcel Relay.Message)} {env : Envelope} {process : Process}
      (hconn : s.conn i = some c) (hparcels : s.toGateway c = parcel :: rest)
      (h : processStep d.go s.process (.relayed i env) = some process) :
      HubStep d s (.deliver i) { s.received c rest with
        process := process
        working := Function.update s.working (.relayReader i) parcel.serial }

theorem hubStep_cases {a : HubAction} (h : hubStep d s a = some s') : HubStep d s a s' := by
  cases a with
  | gateway a =>
      cases a with
      | relayed i env => cases h
      | run t order now =>
          rw [hubStep] at h
          split at h
          · cases h
          · next op rest hcode =>
              obtain ⟨process, hprocess, rfl⟩ := Option.map_eq_some_iff.mp h
              exact .ran hcode hprocess
      | _ =>
          obtain ⟨process, hprocess, rfl⟩ := Option.map_eq_some_iff.mp h
          exact .started (by simp) hprocess
  | dial i c =>
      obtain ⟨⟨-, hconn, hfresh, -⟩, h⟩ := Option.ite_none_right_eq_some.mp h
      exact .dialled hconn hfresh h
  | lose i =>
      obtain ⟨-, h⟩ := Option.ite_none_right_eq_some.mp h
      obtain rfl := Option.some.inj h
      exact .lost
  | relay c fresh id refuse now =>
      rw [hubStep] at h
      split at h
      · cases h
      · next parcel rest hparcels => exact .taken hparcels h
  | hangUp c id now => exact .hungUp h
  | deliver i =>
      rw [hubStep] at h
      split at h
      · cases h
      · next c hconn =>
          split at h
          · cases h
          · next parcel rest hparcels =>
              dsimp only at h
              split at h
              · obtain rfl := Option.some.inj h
                exact .dropped hconn hparcels
              · obtain ⟨process, hprocess, rfl⟩ := Option.map_eq_some_iff.mp h
                exact .delivered hconn hparcels hprocess

/-! ### What the notes leave alone -/

namespace Hub

/-- The connections, the relays and what these have sent. -/
structure SameWires (s s' : Hub) : Prop where
  relays : s'.relays = s.relays
  conn : s'.conn = s.conn
  owner : s'.owner = s.owner
  toGateway : s'.toGateway = s.toGateway

theorem sameWires_observe (f : Accepted → Accepted) : s.SameWires (s.observe t f) := by
  unfold observe
  split
  · split
    · exact ⟨rfl, rfl, rfl, rfl⟩
    · exact ⟨rfl, rfl, rfl, rfl⟩
  · exact ⟨rfl, rfl, rfl, rfl⟩

theorem sameWires_offer (p : PeerID) : s.SameWires (s.offer t p) := by
  unfold offer
  split
  · exact ⟨rfl, rfl, rfl, rfl⟩
  · exact ⟨rfl, rfl, rfl, rfl⟩

theorem sameWires_forward (env : Envelope) : s.SameWires (s.forward d t env) := by
  unfold forward
  split
  · exact ⟨rfl, rfl, rfl, rfl⟩
  · split
    · exact ⟨rfl, rfl, rfl, rfl⟩
    · exact ⟨rfl, rfl, rfl, rfl⟩

theorem sameWires_note : s.SameWires (s.note d t op) := by
  cases op with
  | member p env =>
      rw [note]
      split
      · exact ⟨rfl, rfl, rfl, rfl⟩
      · exact ⟨rfl, rfl, rfl, rfl⟩
  | broadcastPeers room env exclude => exact sameWires_observe _
  | broadcastConns peers env => exact sameWires_observe _
  | enqueue p env =>
      rw [note]
      split
      · exact sameWires_offer p
      · exact ⟨rfl, rfl, rfl, rfl⟩
  | forward env =>
      obtain ⟨hrelays, hconn, howner, htoGateway⟩ :=
        sameWires_forward (d := d) (s := s) (t := t) env
      exact ⟨hrelays, hconn, howner, htoGateway⟩
  | _ => exact ⟨rfl, rfl, rfl, rfl⟩

theorem toRelay_observe (f : Accepted → Accepted) : (s.observe t f).toRelay = s.toRelay := by
  unfold observe
  split
  · split <;> rfl
  · rfl

theorem toRelay_offer (p : PeerID) : (s.offer t p).toRelay = s.toRelay := by
  unfold offer
  split <;> rfl

/-- What is new on a connection is for a room of its instance. -/
theorem mem_toRelay_note {parcel : Parcel Envelope} (h : parcel ∈ (s.note d t op).toRelay c) :
    parcel ∈ s.toRelay c ∨ s.conn (relayForRoom d.instances parcel.body.room) = some c := by
  cases op with
  | member p env =>
      rw [note] at h
      split at h
      · exact .inl h
      · exact .inl h
  | broadcastPeers room env exclude => exact .inl (toRelay_observe (s := s) _ ▸ h)
  | broadcastConns peers env => exact .inl (toRelay_observe (s := s) _ ▸ h)
  | enqueue p env =>
      rw [note] at h
      split at h
      · exact .inl (toRelay_offer (s := s) p ▸ h)
      · exact .inl h
  | forward env =>
      change parcel ∈ (s.forward d t env).toRelay c at h
      unfold Hub.forward at h
      split at h
      · exact .inl h
      · split at h
        · exact .inl h
        · next c' hc' =>
          change parcel ∈ Function.update s.toRelay c' _ c at h
          by_cases hc : c = c'
          · rw [hc, Function.update_self] at h
            obtain hold | hnew := List.mem_append.mp h
            · exact .inl (hc ▸ hold)
            · rw [List.mem_singleton.mp hnew, hc]
              exact .inr hc'
          · rw [Function.update_of_ne hc] at h
            exact .inl h
  | _ => exact .inl h

end Hub

/-! ### Connections and rooms by instance -/

/-- A connection carries the messages of its instance's rooms, and is in no other room at
its relay. -/
structure Routed (d : Wiring) (s : Hub) : Prop where
  conn : ∀ i c, s.conn i = some c → s.owner c = some i
  toRelay : ∀ c, ∀ parcel ∈ s.toRelay c,
    s.owner c = some (relayForRoom d.instances parcel.body.room)
  within : ∀ j, Relay.Within (fun c room => s.owner c = some (relayForRoom d.instances room))
    (s.relays j)

theorem Routed.note (hs : Routed d s) (process : Process) :
    Routed d { s.note d t op with process := process } := by
  obtain ⟨hrelays, hconn, howner, -⟩ : s.SameWires (s.note d t op) := Hub.sameWires_note
  constructor
  · intro i c hc
    rw [howner]
    exact hs.conn i c (hconn ▸ hc)
  · intro c parcel hparcel
    rw [howner]
    obtain hold | hnew := Hub.mem_toRelay_note hparcel
    · exact hs.toRelay c parcel hold
    · exact hs.conn _ c hnew
  · intro j
    rw [howner, hrelays]
    exact hs.within j

/-- An event at a relay whose message names a room of its connection's instance. -/
theorem Routed.relayEvent (hs : Routed d s) {j : ℕ} {serial : Option ℕ} {id : String} {now : ℕ}
    {e : Relay.Event} (hnames : ∀ c m refuse now, e = .message c (some m) refuse now →
      s.owner c = some (relayForRoom d.instances m.room))
    (h : s.relayEvent d j serial id now e = some s') : Routed d s' := by
  obtain ⟨res, hres, rfl⟩ := Option.map_eq_some_iff.mp h
  refine ⟨hs.conn, hs.toRelay, fun j' => ?_⟩
  show Relay.Within _ (Function.update s.relays j res.1 j')
  by_cases hj : j' = j
  · rw [hj, Function.update_self]
    exact (hs.within j).handle hnames hres
  · rw [Function.update_of_ne hj]
    exact hs.within j'

theorem Routed.taken (hs : Routed d s) {parcel : Parcel Envelope} {rest : List (Parcel Envelope)}
    (h : s.toRelay c = parcel :: rest) : Routed d (s.taken c rest) := by
  refine ⟨hs.conn, fun c' parcel' hmem => ?_, hs.within⟩
  exact hs.toRelay c' parcel' (mem_of_mem_update_tail h hmem)

/-- What a connection is the instance of, it stays. -/
theorem Routed.dialled (hs : Routed d s) {i : ℕ} (hfresh : s.owner c = none) :
    Routed d (s.dialled i c) := by
  have hkeep : ∀ c' i', s.owner c' = some i' →
      Function.update s.owner c (some i) c' = some i' := by
    intro c' i' hc'
    have hne : c' ≠ c := by
      rintro rfl
      rw [hfresh] at hc'
      cases hc'
    rw [Function.update_of_ne hne]
    exact hc'
  constructor
  · intro i' c' hc'
    change Function.update s.conn i (some c) i' = some c' at hc'
    by_cases hi : i' = i
    · rw [hi, Function.update_self] at hc'
      obtain rfl := Option.some.inj hc'
      rw [hi]
      exact Function.update_self _ _ _
    · rw [Function.update_of_ne hi] at hc'
      exact hkeep c' i' (hs.conn i' c' hc')
  · exact fun c' parcel hparcel => hkeep c' _ (hs.toRelay c' parcel hparcel)
  · exact fun j => ⟨fun q x hx => hkeep x _ ((hs.within j).members q x hx),
      fun x q hq => hkeep x _ ((hs.within j).current x q hq)⟩

theorem Routed.step {a : HubAction} (hs : Routed d s) (h : hubStep d s a = some s') :
    Routed d s' := by
  cases hubStep_cases h with
  | started ha hprocess => exact ⟨hs.conn, hs.toRelay, hs.within⟩
  | ran hcode hprocess => exact hs.note _
  | dialled hconn hfresh hevent =>
      refine (hs.dialled hfresh).relayEvent ?_ hevent
      rintro _ _ _ _ ⟨⟩
  | @lost i =>
      refine ⟨fun i' c hc => ?_, hs.toRelay, hs.within⟩
      exact hs.conn i' c (of_update_none hc).2
  | @taken c _ _ _ _ parcel _ _ hparcels hevent =>
      refine (hs.taken hparcels).relayEvent (fun c' m refuse' now' he => ?_) hevent
      obtain ⟨rfl, hm, -⟩ := Relay.Event.message.inj he
      rw [room_of_deserialize hm]
      exact hs.toRelay c parcel (hparcels ▸ List.mem_cons_self)
  | hungUp hevent =>
      refine hs.relayEvent ?_ hevent
      rintro _ _ _ _ ⟨⟩
  | dropped hconn hparcels => exact ⟨hs.conn, hs.toRelay, hs.within⟩
  | delivered hconn hparcels hprocess => exact ⟨hs.conn, hs.toRelay, hs.within⟩

/-! ### What comes back -/

/-- No copy of an accepted message is on a connection that the gateway reads, or with a
relay reader. -/
structure Echoless (s : Hub) : Prop where
  toGateway : ∀ c, ∀ parcel ∈ s.toGateway c, parcel.serial ≠ none →
    s.owner c ≠ none ∧ ∀ i, s.conn i ≠ some c
  reader : ∀ i, s.working (.relayReader i) = none

/-- A parcel with a serial comes of a fan-out. -/
theorem mem_deliveries_of_parcelTo {serial : Option ℕ} {id : String} {now : ℕ}
    {outs : List Relay.Output} {parcel : Parcel Relay.Message}
    (h : parcel ∈ outs.filterMap (Hub.parcelTo serial id now c)) (hserial : parcel.serial ≠ none) :
    c ∈ Relay.deliveries outs ∧ serial ≠ none := by
  induction outs with
  | nil => cases h
  | cons o outs ih =>
      rw [List.filterMap_cons] at h
      have hrest : parcel ∈ outs.filterMap (Hub.parcelTo serial id now c) →
          c ∈ Relay.deliveries (o :: outs) ∧ serial ≠ none := by
        intro h
        obtain ⟨hmem, hne⟩ := ih h
        refine ⟨?_, hne⟩
        cases o with
        | fanOut targets m => exact Finset.mem_union_right _ hmem
        | error c' room text => exact hmem
        | presence targets room count => exact hmem
      split at h
      · exact hrest h
      · next parcel' ho =>
        obtain rfl | h := List.mem_cons.mp h
        · rw [Hub.parcelTo] at ho
          obtain ⟨htarget, ho⟩ := Option.ite_none_right_eq_some.mp ho
          obtain rfl := Option.some.inj ho
          cases o with
          | fanOut targets m => exact ⟨Finset.mem_union_left _ htarget, hserial⟩
          | error c' room text => exact absurd rfl hserial
          | presence targets room count => exact absurd rfl hserial
        · exact hrest h

/-- The events of a relay that send no accepted message to a connection in use. -/
theorem Echoless.relayEvent (hs : Echoless s) (hrouted : Routed d s) {j : ℕ} {serial : Option ℕ}
    {id : String} {now : ℕ} {e : Relay.Event}
    (hquiet : serial ≠ none → ∀ c frame refuse now', e = .message c frame refuse now' →
      ∀ room ∈ (s.relays j).current c, ∀ c' ∈ s.conn (relayForRoom d.instances room), c' ≠ c →
        c' ∉ (s.relays j).members room)
    (h : s.relayEvent d j serial id now e = some s') : Echoless s' := by
  obtain ⟨res, hres, rfl⟩ := Option.map_eq_some_iff.mp h
  refine ⟨fun c parcel hparcel hserial => ?_, hs.reader⟩
  obtain hold | hnew := List.mem_append.mp hparcel
  · exact hs.toGateway c parcel hold hserial
  · obtain ⟨hreached, hne⟩ := mem_deliveries_of_parcelTo hnew hserial
    obtain ⟨c', frame, refuse, now', room, rfl, hroom, hmember, hother⟩ :=
      Relay.reached_of_handle hres hreached
    have howner : s.owner c = some (relayForRoom d.instances room) :=
      (hrouted.within j).members room c hmember
    constructor
    · show s.owner c ≠ none
      rw [howner]
      exact Option.some_ne_none _
    · intro i hi
      obtain rfl : relayForRoom d.instances room = i :=
        Option.some.inj (howner.symm.trans (hrouted.conn i c hi))
      exact hquiet hne c' frame refuse now' rfl room hroom c hi hother hmember

/-- A goroutine that is not a relay reader takes a message up, or drops it. -/
theorem reader_note (hreader : ∀ i, s.working (.relayReader i) = none)
    (hop : ∀ p env, op = .member p env → ∀ i, t ≠ .relayReader i) (i : ℕ) :
    (s.note d t op).working (.relayReader i) = none := by
  have hfinish : ∀ s' : Hub, s'.working = s.working →
      (s'.finish t).working (.relayReader i) = none := by
    intro s' hworking
    show Function.update s'.working t none (.relayReader i) = none
    by_cases ht : .relayReader i = t
    · rw [ht, Function.update_self]
    · rw [Function.update_of_ne ht, hworking]
      exact hreader i
  have hobserve : ∀ f, (s.observe t f).working = s.working := by
    intro f
    unfold Hub.observe
    split
    · split <;> rfl
    · rfl
  cases op with
  | member p env =>
      rw [Hub.note]
      split
      · show Function.update s.working t _ (.relayReader i) = none
        rw [Function.update_of_ne (hop p env rfl i).symm]
        exact hreader i
      · exact hreader i
  | broadcastPeers room env exclude =>
      show (s.observe t _).working _ = none
      rw [hobserve]
      exact hreader i
  | broadcastConns peers env =>
      show (s.observe t _).working _ = none
      rw [hobserve]
      exact hreader i
  | enqueue p env =>
      rw [Hub.note]
      split
      · unfold Hub.offer
        split
        · exact hreader i
        · exact hreader i
      · exact hfinish s rfl
  | forward env =>
      refine hfinish _ ?_
      unfold Hub.forward
      split
      · rfl
      · split <;> rfl
  | _ => exact hreader i

theorem Echoless.received (hs : Echoless s) {parcel : Parcel Relay.Message}
    {rest : List (Parcel Relay.Message)} (hparcels : s.toGateway c = parcel :: rest) :
    Echoless (s.received c rest) := by
  refine ⟨fun c' parcel' hmem => ?_, hs.reader⟩
  exact hs.toGateway c' parcel' (mem_of_mem_update_tail hparcels hmem)

/-- Nothing is on a connection that there has not been. -/
theorem Echoless.dialled (hs : Echoless s) {i : ℕ} (hfresh : s.owner c = none) :
    Echoless (s.dialled i c) := by
  refine ⟨fun c' parcel hparcel hserial => ?_, hs.reader⟩
  obtain ⟨howner, hconn⟩ := hs.toGateway c' parcel hparcel hserial
  have hne : c' ≠ c := by
    rintro rfl
    exact howner hfresh
  constructor
  · show Function.update s.owner c (some i) c' ≠ none
    rw [Function.update_of_ne hne]
    exact howner
  · intro i' hi'
    change Function.update s.conn i (some c) i' = some c' at hi'
    by_cases hi : i' = i
    · rw [hi, Function.update_self] at hi'
      exact hne (Option.some.inj hi').symm
    · rw [Function.update_of_ne hi] at hi'
      exact hconn i' hi'

theorem Echoless.step {a : HubAction} (hs : Echoless s) (hrouted : Routed d s)
    (hformed : Formed s.process) (hquiet : Unechoed d s a) (h : hubStep d s a = some s') :
    Echoless s' := by
  cases hubStep_cases h with
  | started ha hprocess => exact ⟨hs.toGateway, hs.reader⟩
  | @ran t _ _ op _ _ hcode hprocess =>
      obtain ⟨-, hconn, howner, htoGateway⟩ : s.SameWires (s.note d t op) := Hub.sameWires_note
      constructor
      · intro c parcel hparcel hserial
        rw [hconn, howner]
        exact hs.toGateway c parcel (htoGateway ▸ hparcel) hserial
      · refine reader_note hs.reader fun p env hop i ht => ?_
        have hmem : op ∈ s.process.code t := hcode ▸ List.mem_cons_self
        obtain ⟨hhandler, -⟩ := hformed.owner hmem (q := p) (by rw [hop]; rfl)
        rw [ht] at hhandler
        cases hhandler
  | dialled hconn hfresh hevent =>
      exact (hs.dialled hfresh).relayEvent (hrouted.dialled hfresh)
        (fun hserial => absurd rfl hserial) hevent
  | @lost i =>
      refine ⟨fun c parcel hparcel hserial => ?_, hs.reader⟩
      obtain ⟨howner, hconn⟩ := hs.toGateway c parcel hparcel hserial
      exact ⟨howner, fun i' hi' => hconn i' (of_update_none hi').2⟩
  | @taken c _ _ _ _ parcel rest _ hparcels hevent =>
      have htaken : Echoless (s.taken c rest) := ⟨hs.toGateway, hs.reader⟩
      refine htaken.relayEvent (hrouted.taken hparcels)
        (fun hserial c' frame refuse' now' he => ?_) hevent
      injection he with hc
      subst hc
      exact hquiet parcel (by rw [hparcels]; rfl) hserial
  | hungUp hevent => exact hs.relayEvent hrouted (fun hserial => absurd rfl hserial) hevent
  | dropped hconn hparcels => exact hs.received hparcels
  | @delivered i c parcel _ _ _ hconn hparcels hprocess =>
      have hserial : parcel.serial = none := by
        by_contra hne
        have hmem : parcel ∈ s.toGateway c := hparcels ▸ List.mem_cons_self
        exact (hs.toGateway c parcel hmem hne).2 i hconn
      refine ⟨(hs.received hparcels).toGateway, fun i' => ?_⟩
      show Function.update s.working (.relayReader i) parcel.serial (.relayReader i') = none
      rw [hserial]
      by_cases hi : Task.relayReader i' = .relayReader i
      · rw [hi, Function.update_self]
      · rw [Function.update_of_ne hi]
        exact hs.reader i'

/-! ### One broadcast -/

/-- A message whose broadcast is over. -/
structure Settled (m : Accepted) : Prop where
  sender : m.sender ∉ m.audience
  offers : ∀ q, m.offers q = if q ∈ m.audience then 1 else 0

/-- What a goroutine that broadcasts a message has still to do for it. -/
inductive Broadcasting (m : Accepted) : List Op → Prop
  | peers {room : RoomName} {env fwd : Envelope} {rest : List Op}
      (hoffers : ∀ q, m.offers q = 0) :
      Broadcasting m (.broadcastPeers room env m.sender :: .forward fwd :: rest)
  | conns {env fwd : Envelope} {rest : List Op} (hoffers : ∀ q, m.offers q = 0) :
      Broadcasting m (.broadcastConns (m.members.erase m.sender) env :: .forward fwd :: rest)
  | offering {order : List PeerID} {env fwd : Envelope} {rest : List Op} (hnodup : order.Nodup)
      (hsender : m.sender ∉ m.audience)
      (hoffers : ∀ q, m.offers q + (if q ∈ order then 1 else 0) = if q ∈ m.audience then 1 else 0) :
      Broadcasting m (order.map (.enqueue · env) ++ .forward fwd :: rest)

/-- Every message is being broadcast by its own goroutine, or settled. -/
structure Delivery (s : Hub) : Prop where
  working : ∀ t k, s.working t = some k →
    k < s.serial ∧ (s.log k).task = t ∧ Broadcasting (s.log k) (s.process.code t)
  settled : ∀ k < s.serial, s.working (s.log k).task ≠ some k → Settled (s.log k)

section
variable {k : ℕ} {m : Accepted}

/-- Goroutines that broadcast nothing may do anything. -/
theorem Delivery.others (hs : Delivery s) (hserial : s'.serial = s.serial) (hlog : s'.log = s.log)
    (hworking : s'.working = s.working)
    (hcode : ∀ t, s.working t ≠ none → s'.process.code t = s.process.code t) : Delivery s' := by
  constructor
  · intro t k ht
    rw [hworking] at ht
    rw [hserial, hlog, hcode t (by rw [ht]; exact Option.some_ne_none k)]
    exact hs.working t k ht
  · intro k hk
    rw [hserial] at hk
    rw [hlog, hworking]
    exact hs.settled k hk

/-- A broadcast goes on. -/
theorem Delivery.advance (hs : Delivery s) (hk : s.working t = some k)
    (hserial : s'.serial = s.serial) (hlog : s'.log = Function.update s.log k m)
    (hworking : s'.working = s.working)
    (hcode : ∀ t' ≠ t, s'.process.code t' = s.process.code t') (htask : m.task = t)
    (hnext : Broadcasting m (s'.process.code t)) : Delivery s' := by
  obtain ⟨hlt, -, -⟩ := hs.working t k hk
  constructor
  · intro t' k' ht'
    rw [hworking] at ht'
    rw [hserial, hlog]
    by_cases hk' : k' = k
    · subst hk'
      obtain ⟨-, htask', -⟩ := hs.working t' k' ht'
      obtain rfl : t = t' := (hs.working t k' hk).2.1.symm.trans htask'
      rw [Function.update_self]
      exact ⟨hlt, htask, hnext⟩
    · have ht : t' ≠ t := by
        rintro rfl
        exact hk' (Option.some.inj (ht'.symm.trans hk))
      rw [Function.update_of_ne hk', hcode t' ht]
      exact hs.working t' k' ht'
  · intro k' hk' hnot
    rw [hserial] at hk'
    rw [hlog, hworking] at hnot
    rw [hlog]
    by_cases heq : k' = k
    · subst heq
      rw [Function.update_self, htask] at hnot
      exact absurd hk hnot
    · rw [Function.update_of_ne heq] at hnot ⊢
      exact hs.settled k' hk' hnot

/-- A broadcast is over. -/
theorem Delivery.finish (hs : Delivery s) (hk : s.working t = some k)
    (hserial : s'.serial = s.serial) (hlog : s'.log = s.log)
    (hworking : s'.working = Function.update s.working t none)
    (hcode : ∀ t' ≠ t, s'.process.code t' = s.process.code t') (hsettled : Settled (s.log k)) :
    Delivery s' := by
  constructor
  · intro t' k' ht'
    rw [hworking] at ht'
    obtain ⟨ht, ht'⟩ := of_update_none ht'
    rw [hserial, hlog, hcode t' ht]
    exact hs.working t' k' ht'
  · intro k' hk' hnot
    rw [hserial] at hk'
    rw [hlog] at hnot ⊢
    by_cases heq : k' = k
    · rw [heq]
      exact hsettled
    · apply hs.settled k' hk'
      intro ht'
      rw [hworking] at hnot
      by_cases ht : (s.log k').task = t
      · rw [ht, hk] at ht'
        exact heq (Option.some.inj ht').symm
      · rw [Function.update_of_ne ht] at hnot
        exact hnot ht'

/-- A message is accepted, and its broadcast begins. -/
theorem Delivery.accept (hs : Delivery s) (hnone : s.working t = none)
    (hserial : s'.serial = s.serial + 1) (hlog : s'.log = Function.update s.log s.serial m)
    (hworking : s'.working = Function.update s.working t (some s.serial))
    (hcode : ∀ t' ≠ t, s'.process.code t' = s.process.code t') (htask : m.task = t)
    (hnext : Broadcasting m (s'.process.code t)) : Delivery s' := by
  constructor
  · intro t' k ht'
    rw [hworking] at ht'
    by_cases ht : t' = t
    · rw [ht, Function.update_self] at ht'
      obtain rfl := Option.some.inj ht'
      rw [hserial, hlog, Function.update_self, ht]
      exact ⟨Nat.lt_succ_self _, htask, hnext⟩
    · rw [Function.update_of_ne ht] at ht'
      obtain ⟨hlt, htask', hbroadcast⟩ := hs.working t' k ht'
      rw [hserial, hlog, Function.update_of_ne hlt.ne, hcode t' ht]
      exact ⟨Nat.lt_succ_of_lt hlt, htask', hbroadcast⟩
  · intro k hk hnot
    rw [hserial] at hk
    rw [hlog] at hnot ⊢
    obtain hlt | rfl := Nat.lt_succ_iff_lt_or_eq.mp hk
    · rw [Function.update_of_ne hlt.ne] at hnot ⊢
      apply hs.settled k hlt
      intro ht'
      rw [hworking] at hnot
      by_cases ht : (s.log k).task = t
      · rw [ht, hnone] at ht'
        cases ht'
      · rw [Function.update_of_ne ht] at hnot
        exact hnot ht'
    · rw [Function.update_self, htask, hworking, Function.update_self] at hnot
      exact absurd rfl hnot

theorem log_forward (env : Envelope) : (s.forward d t env).log = s.log ∧
    (s.forward d t env).working = s.working ∧ (s.forward d t env).serial = s.serial := by
  unfold Hub.forward
  split
  · exact ⟨rfl, rfl, rfl⟩
  · split
    · exact ⟨rfl, rfl, rfl⟩
    · exact ⟨rfl, rfl, rfl⟩

/-- A goroutine without a message leaves the records alone, unless it accepts one. -/
theorem note_idle (hnone : s.working t = none)
    (hop : ∀ p env, op = .member p env →
      ¬(s.process.server.inRoom p env.room = true ∧ isShared env.type = true)) :
    (s.note d t op).log = s.log ∧ (s.note d t op).working = s.working ∧
      (s.note d t op).serial = s.serial := by
  have hfinish : Function.update s.working t none = s.working := by
    rw [← hnone]
    exact Function.update_eq_self t s.working
  have hobserve : ∀ f, s.observe t f = s := by
    intro f
    rw [Hub.observe, hnone]
  cases op with
  | member p env =>
      rw [Hub.note, if_neg (hop p env rfl)]
      exact ⟨rfl, rfl, rfl⟩
  | broadcastPeers room env exclude =>
      rw [Hub.note, hobserve]
      exact ⟨rfl, rfl, rfl⟩
  | broadcastConns peers env =>
      rw [Hub.note, hobserve]
      exact ⟨rfl, rfl, rfl⟩
  | enqueue p env =>
      rw [Hub.note]
      split
      · rw [Hub.offer, hnone]
        exact ⟨rfl, rfl, rfl⟩
      · exact ⟨rfl, hfinish, rfl⟩
  | forward env =>
      obtain ⟨hlog, hworking, hserial⟩ := log_forward (d := d) (s := s) (t := t) env
      refine ⟨hlog, ?_, hserial⟩
      show Function.update (s.forward d t env).working t none = _
      rw [hworking, hfinish]
  | _ => exact ⟨rfl, rfl, rfl⟩

variable {rest : List Op} {order : List String} {now : Time} {process : Process}

theorem acceptCode_shared {p : PeerID} {env : Envelope} (h : isShared env.type = true) :
    acceptCode p env now =
      [.broadcastPeers env.room (stamp env p now) p, .forward (stamp env p now)] := by
  unfold acceptCode
  generalize env.type = type at h ⊢
  cases type <;> first | rfl | cases h

/-- The operation that accepts a message. -/
theorem Delivery.runMember (hs : Delivery s) {p : PeerID} {env : Envelope}
    (hnone : s.working t = none)
    (haccept : s.process.server.inRoom p env.room = true ∧ isShared env.type = true)
    (hothers : ∀ t' ≠ t, process.code t' = s.process.code t')
    (h : runOp d.go s.process t rest order now (.member p env) = some process) :
    Delivery { s.note d t (.member p env) with process := process } := by
  have hnote : s.note d t (.member p env) = s.accept t p := by
    rw [Hub.note, if_pos haccept]
  have hprocess : process.code t = .broadcastPeers env.room (stamp env p now) p ::
      .forward (stamp env p now) :: rest := by
    simp only [runOp, Option.map_eq_some_iff] at h
    obtain ⟨res, hexec, rfl⟩ := h
    obtain rfl := Option.some.inj hexec
    rw [code_setCode_self]
    show (if s.process.server.inRoom p env.room = true then acceptCode p env now else _) ++ rest = _
    rw [if_pos haccept.1, acceptCode_shared haccept.2]
    rfl
  rw [hnote]
  refine hs.accept (m := ⟨p, t, ∅, ∅, fun _ => 0⟩) hnone rfl rfl rfl hothers rfl ?_
  show Broadcasting _ (process.code t)
  rw [hprocess]
  exact .peers fun _ => rfl

/-- An operation of a goroutine that broadcasts a message. -/
theorem Delivery.runBroadcast (hs : Delivery s) (hcode : s.process.code t = op :: rest)
    (hk : s.working t = some k)
    (hclosed : ∀ p env, op = .enqueue p env → s.process.closes p = 0)
    (hothers : ∀ t' ≠ t, process.code t' = s.process.code t')
    (h : runOp d.go s.process t rest order now op = some process) :
    Delivery { s.note d t op with process := process } := by
  obtain ⟨hlt, htask, hbroadcast⟩ := hs.working t k hk
  have hobserve : ∀ f, s.observe t f = s.amend k f := by
    intro f
    rw [Hub.observe, hk]
    exact if_pos htask
  generalize hcode' : s.process.code t = code at hbroadcast
  rw [hcode] at hcode'
  cases hbroadcast with
  | peers hoffers =>
      obtain ⟨rfl, rfl⟩ := List.cons.inj hcode'
      simp only [runOp, Option.map_eq_some_iff] at h
      obtain ⟨res, hexec, rfl⟩ := h
      obtain rfl := Option.some.inj hexec
      rw [Hub.note, hobserve]
      refine hs.advance hk rfl rfl rfl hothers htask ?_
      show Broadcasting _ (Process.code (Process.setCode _ _ _) t)
      rw [code_setCode_self]
      exact .conns hoffers
  | conns hoffers =>
      obtain ⟨rfl, rfl⟩ := List.cons.inj hcode'
      simp only [runOp, Option.map_eq_some_iff] at h
      obtain ⟨res, hexec, rfl⟩ := h
      obtain ⟨henum, hexec⟩ := Option.ite_none_right_eq_some.mp hexec
      obtain rfl := Option.some.inj hexec
      rw [Hub.note, hobserve]
      refine hs.advance hk rfl rfl rfl hothers htask ?_
      show Broadcasting _ (Process.code (Process.setCode _ _ _) t)
      rw [code_setCode_self]
      refine .offering henum.1 ?_ fun q => ?_
      · show (s.log k).sender ∉ (s.log k).members.erase (s.log k).sender ∩ s.process.server.conns
        simp
      · show (s.log k).offers q + _ = _
        rw [hoffers q, Nat.zero_add]
        exact if_congr henum.mem_iff rfl rfl
  | @offering order' env fwd rest' hnodup hsender hoffers =>
      cases order' with
      | nil =>
          obtain ⟨rfl, rfl⟩ := List.cons.inj hcode'
          obtain ⟨hlog, hworking, hserial⟩ := log_forward (d := d) (s := s) (t := t) fwd
          refine hs.finish hk hserial hlog ?_ hothers ⟨hsender, fun q => ?_⟩
          · show Function.update (s.forward d t fwd).working t none = _
            rw [hworking]
          · have hq := hoffers q
            rw [if_neg List.not_mem_nil, Nat.add_zero] at hq
            exact hq
      | cons p order' =>
          obtain ⟨rfl, rfl⟩ := List.cons.inj hcode'
          have hopen := hclosed p env rfl
          obtain ⟨hp, hnodup⟩ := List.nodup_cons.mp hnodup
          rw [runOp, if_pos hopen] at h
          obtain rfl := Option.some.inj h
          rw [Hub.note, if_pos hopen, Hub.offer, hk]
          refine hs.advance hk rfl rfl rfl hothers htask ?_
          show Broadcasting _ (Process.code (Process.setCode _ _ _) t)
          rw [code_setCode_self]
          refine .offering hnodup hsender fun q => ?_
          have hq := hoffers q
          show Function.update (s.log k).offers p ((s.log k).offers p + 1) q + _ = _
          by_cases hqp : q = p
          · subst hqp
            rw [Function.update_self, if_neg hp]
            rw [if_pos List.mem_cons_self] at hq
            exact hq
          · rw [Function.update_of_ne hqp, ← hq]
            congr 1
            simp [hqp]

theorem Delivery.run (hs : Delivery s) (hcode : s.process.code t = op :: rest)
    (hclosed : ∀ p env, op = .enqueue p env → s.working t ≠ none → s.process.closes p = 0)
    (h : act d.go s.process (.run t order now) = some process) :
    Delivery { s.note d t op with process := process } := by
  have hothers : ∀ t' ≠ t, process.code t' = s.process.code t' := fun t' ht => code_of_run ht h
  simp only [act, hcode] at h
  cases hk : s.working t with
  | some k =>
      refine hs.runBroadcast hcode hk (fun p env hop => hclosed p env hop ?_) hothers h
      rw [hk]
      exact Option.some_ne_none k
  | none =>
      by_cases haccept : ∃ p env, op = .member p env ∧
          s.process.server.inRoom p env.room = true ∧ isShared env.type = true
      · obtain ⟨p, env, rfl, haccept⟩ := haccept
        exact hs.runMember hk haccept hothers h
      · obtain ⟨hlog, hworking, hserial⟩ := @note_idle d s t op hk
          fun p env hop haccepted => haccept ⟨p, env, hop, haccepted⟩
        refine hs.others hserial hlog hworking fun t' ht' => hothers t' ?_
        rintro rfl
        exact ht' hk

end

theorem Delivery.step {a : HubAction} (hs : Delivery s) (hformed : Formed s.process)
    (hecholess : Echoless s) (hecholess' : Echoless s') (hquiet : Unechoed d s a) (h : hubStep d s a = some s') :
    Delivery s' := by
  have hsame : ∀ {s'' : Hub}, s''.serial = s.serial → s''.log = s.log → s''.working = s.working →
      s''.process = s.process → Delivery s'' := by
    intro s'' hserial hlog hworking hprocess
    exact hs.others hserial hlog hworking fun t _ => by rw [hprocess]
  have hevent : ∀ {s'' : Hub} {j serial id now e},
      Hub.relayEvent d s'' j serial id now e = some s' → s''.serial = s.serial →
      s''.log = s.log → s''.working = s.working → s''.process = s.process → Delivery s' := by
    intro s'' j serial id now e h hserial hlog hworking hprocess
    obtain ⟨res, -, rfl⟩ := Option.map_eq_some_iff.mp h
    exact hsame hserial hlog hworking hprocess
  have hstart : ∀ {s'' : Hub} {a process}, (∀ t order now, a ≠ .run t order now) →
      processStep d.go s.process a = some process → s''.process = process →
      s''.serial = s.serial → s''.log = s.log → s''.working = s.working → Delivery s'' := by
    intro s'' a process ha hprocess hs'' hserial hlog hworking
    have hidle := hformed.idle ha (Option.ite_none_left_eq_some.mp hprocess).2
    refine hs.others hserial hlog hworking fun t ht => ?_
    rw [hs'']
    apply (hidle t).resolve_right
    intro hnil
    obtain ⟨k, hk⟩ := Option.ne_none_iff_exists'.mp ht
    obtain ⟨-, -, hbroadcast⟩ := hs.working t k hk
    rw [hnil] at hbroadcast
    generalize hcode : ([] : List Op) = code at hbroadcast
    cases hbroadcast with
    | peers | conns => cases hcode
    | offering => exact absurd hcode.symm (by simp)
  cases hubStep_cases h with
  | started ha hprocess => exact hstart ha hprocess rfl rfl rfl rfl
  | ran hcode hprocess =>
      refine hs.run hcode (fun p env hop hne => ?_) (Option.ite_none_left_eq_some.mp hprocess).2
      rw [Unechoed, hcode, hop] at hquiet
      exact hquiet hne
  | dialled hconn hfresh hevent' => exact hevent hevent' rfl rfl rfl rfl
  | lost => exact hsame rfl rfl rfl rfl
  | taken hparcels hevent' => exact hevent hevent' rfl rfl rfl rfl
  | hungUp hevent' => exact hevent hevent' rfl rfl rfl rfl
  | dropped hconn hparcels => exact hsame rfl rfl rfl rfl
  | @delivered i c parcel rest env _ hconn hparcels hprocess =>
      refine hstart (a := .relayed i env) (by simp) hprocess rfl rfl rfl ?_
      have hnone := hecholess'.reader i
      change Function.update s.working (.relayReader i) _ (.relayReader i) = none at hnone
      rw [Function.update_self] at hnone
      show Function.update s.working (.relayReader i) _ = s.working
      rw [hnone, ← hecholess.reader i]
      exact Function.update_eq_self _ _

/-! ### Every run -/

/-- What every run keeps. -/
structure HubSound (d : Wiring) (s : Hub) : Prop where
  formed : Formed s.process
  routed : Routed d s
  echoless : Echoless s
  delivery : Delivery s

theorem formed_step {a : HubAction} (hs : Formed s.process) (h : hubStep d s a = some s') :
    Formed s'.process := by
  have hprocess : ∀ {a process}, processStep d.go s.process a = some process → Formed process :=
    fun h => hs.act (Option.ite_none_left_eq_some.mp h).2
  have hevent : ∀ {s'' : Hub} {j serial id now e},
      Hub.relayEvent d s'' j serial id now e = some s' → s''.process = s.process →
      Formed s'.process := by
    intro s'' j serial id now e h hsame
    obtain ⟨res, -, rfl⟩ := Option.map_eq_some_iff.mp h
    exact hsame ▸ hs
  cases hubStep_cases h with
  | started ha hstep => exact hprocess hstep
  | ran hcode hstep => exact hprocess hstep
  | dialled hconn hfresh hevent' => exact hevent hevent' rfl
  | lost => exact hs
  | taken hparcels hevent' => exact hevent hevent' rfl
  | hungUp hevent' => exact hevent hevent' rfl
  | dropped hconn hparcels => exact hs
  | delivered hconn hparcels hstep => exact hprocess hstep

theorem HubSound.step {a : HubAction} (hs : HubSound d s) (hquiet : Unechoed d s a)
    (h : hubStep d s a = some s') : HubSound d s' := by
  have hecholess : Echoless s' := hs.echoless.step hs.routed hs.formed hquiet h
  exact ⟨formed_step hs.formed h, hs.routed.step h, hecholess,
    hs.delivery.step hs.formed hs.echoless hecholess hquiet h⟩

end TrapChat.Network
