import Mathlib.Data.Fintype.Basic
import TrapChat.Gateway.Membership
import TrapChat.Network.Federation
import TrapChat.Relay.Consistency

/-!
Gateways that handle the messages of their peers at the same time, and the relays they
share. What a client's message changes at its gateway it changes at once. What its handler
puts out then goes out one by one, between what the handlers of other peers put out and
what comes from the relays; so two handlers may write to a relay in another order than
that of their changes. A peer's next message waits for its handler.

A relay learns of the members of a room by the joins and leaves on a connection. Beside
the gateways and relays there is a record of what each relay has been told so far, and
for every chat of the peers that are to get it from another gateway; nothing in the code
depends on either.
-/

namespace TrapChat.Network

open Storage Protocol Gateway Transition

/-- A chat that a gateway has written to the relay of its room. -/
structure Chat (γ : Type) where
  gateway : γ
  sender : PeerID
  room : RoomName

structure Fleet (γ : Type) where
  net : Federation γ
  /-- What the handler of a peer has still to put out. -/
  pending : γ × PeerID → List Gateway.Output
  /-- The members that a relay has been told of over a connection. -/
  told : Link γ → Finset (PeerID × RoomName)
  /-- The chats, by serial. -/
  chats : ℕ → Option (Chat γ)
  /-- The peers of other gateways that are to get a chat. -/
  owed : ℕ → γ → PeerID → Bool

def newFleet (γ : Type) : Fleet γ where
  net := started γ
  pending := fun _ => []
  told := fun _ => ∅
  chats := fun _ => none
  owed := fun _ _ _ => false

/-- What a message to a relay says of the members of its room. -/
def tell (told : Finset (PeerID × RoomName)) (env : Envelope) : Finset (PeerID × RoomName) :=
  match env.type with
  | .join => insert (env.id, env.room) told
  | .leave => told.erase (env.id, env.room)
  | _ => told

inductive FleetAction (γ : Type)
  | connect (g : γ) (p : PeerID) (now : Time)
  /-- A message of a peer is read. -/
  | frame (g : γ) (p : PeerID) (frame : Option Envelope) (now : Time)
  /-- The handler of a peer puts out what comes next. -/
  | emit (g : γ) (p : PeerID)
  /-- A relay takes the next message of a connection. -/
  | relay (link : Link γ) (fresh id : String) (now : ℕ)
  /-- A gateway takes the next message of a relay. -/
  | deliver (link : Link γ)

/-- How often a peer has been sent what has a serial. -/
def Federation.deliveries {γ : Type} (s : Federation γ) (k : ℕ) (g : γ) (p : PeerID) : ℕ :=
  (s.queues g p).countP fun parcel => parcel.serial = some k

section
variable {γ : Type} [DecidableEq γ]

namespace Fleet

/-- A handler has made its changes. -/
def handled (s : Fleet γ) (g : γ) (p : PeerID) (res : Server × List Gateway.Output) : Fleet γ :=
  { s with
    net := { s.net with gateways := Function.update s.net.gateways g res.1 }
    pending := Function.update s.pending (g, p) res.2 }

/-- The relay of a room has taken a join of the peer, and no leave of it is on the way. -/
def Arrived (d : Deployment γ) (s : Fleet γ) (g : γ) (q : PeerID) (room : RoomName) : Prop :=
  (q, room) ∈ s.told (g, relayForRoom d.relays room) ∧
    ∀ parcel ∈ s.net.toRelay (g, relayForRoom d.relays room),
      ¬(parcel.body.type = .leave ∧ parcel.body.id = q ∧ parcel.body.room = room)

instance (d : Deployment γ) (s : Fleet γ) (g : γ) (q : PeerID) (room : RoomName) :
    Decidable (s.Arrived d g q room) :=
  inferInstanceAs (Decidable (_ ∧ ∀ _ ∈ _, _))

/-- The peers that are to get a chat: the members of its room at other gateways, of whom
the relay knows. -/
def Expects (d : Deployment γ) (s : Fleet γ) (c : Chat γ) (g : γ) (q : PeerID) : Prop :=
  g ≠ c.gateway ∧ q ∈ (s.net.gateways g).store.peers c.room ∧ s.Arrived d g q c.room

instance (d : Deployment γ) (s : Fleet γ) (c : Chat γ) (g : γ) (q : PeerID) :
    Decidable (s.Expects d c g q) :=
  inferInstanceAs (Decidable (_ ∧ _ ∧ _))

/-- A chat gets a serial with the write to its relay. -/
def record (d : Deployment γ) (s : Fleet γ) (c : Chat γ) : Fleet γ :=
  { s with
    chats := Function.update s.chats s.net.serial (some c)
    owed := Function.update s.owed s.net.serial fun g q => decide (s.Expects d c g q) }

def note (d : Deployment γ) (s : Fleet γ) (g : γ) (p : PeerID) : Gateway.Output → Fleet γ
  | .forward env => if env.type = .chat then s.record d ⟨g, p, env.room⟩ else s
  | _ => s

/-- One output of the handler of a peer. -/
def emit (d : Deployment γ) (s : Fleet γ) (g : γ) (p : PeerID) (o : Gateway.Output)
    (rest : List Gateway.Output) : Fleet γ :=
  { s.note d g p o with
    net := s.net.postOne d g none o
    pending := Function.update s.pending (g, p) rest }

/-- What a relay has been told once it has taken the next message of a connection. -/
def toldNext (s : Fleet γ) (link : Link γ) : Finset (PeerID × RoomName) :=
  match s.net.toRelay link with
  | [] => s.told link
  | parcel :: _ => tell (s.told link) parcel.body

/-- A peer that has not got a chat and is no member of the room any more is not to get it
any more. -/
def keep (s : Fleet γ) : Fleet γ :=
  { s with
    owed := fun k g q => s.owed k g q && (s.chats k).any fun c =>
      decide (q ∈ (s.net.gateways g).store.peers c.room ∨ 0 < s.net.deliveries k g q) }

end Fleet

def fleetAct (d : Deployment γ) (s : Fleet γ) : FleetAction γ → Option (Fleet γ)
  | .connect g p now =>
    if s.pending (g, p) = [] then
      (handle d.go (s.net.gateways g) (.connect p now)).map (s.handled g p)
    else none
  | .frame g p frame now =>
    if s.pending (g, p) = [] then
      (handle d.go (s.net.gateways g) (.frame p frame now)).map (s.handled g p)
    else none
  | .emit g p =>
    match s.pending (g, p) with
    | [] => none
    | o :: rest => some (s.emit d g p o rest)
  | .relay link fresh id now =>
    (federationStep d s.net (.relay link fresh id now)).map fun net =>
      { s with net := net, told := Function.update s.told link (s.toldNext link) }
  | .deliver link =>
    (federationStep d s.net (.deliver link)).map fun net => { s with net := net }

def fleetStep (d : Deployment γ) (s : Fleet γ) (a : FleetAction γ) : Option (Fleet γ) :=
  (fleetAct d s a).map Fleet.keep

/-! ### Delivery -/

/-- Nothing is on the connections that there are. -/
def Fleet.Quiet (d : Deployment γ) (s : Fleet γ) : Prop :=
  ∀ g, ∀ i < d.relays, s.net.toRelay (g, i) = [] ∧ s.net.toGateway (g, i) = []

/-- No limit of a relay is hit, and the clocks are within their types. -/
def Unlimited (d : Deployment γ) (s : Fleet γ) : FleetAction γ → Prop
  | .frame _ _ _ now => unixMilli now < 2 ^ 63
  | .relay link _ _ now => now < 2 ^ 63 ∧ ∀ parcel ∈ (s.net.toRelay link).head?,
      parcel.body.marshal.utf8ByteSize ≤ Relay.maxMessageBytes ∧
        parcel.body.payload.utf8ByteSize ≤ Relay.maxPayloadBytes ∧
          (parcel.body.type = .join →
            ¬Relay.JoinRefused (s.net.relays link.2) (d.conn link.1) parcel.body.room)
  | _ => True

/-- A new peer's ID is that of no other peer of any gateway. -/
def FreshIds (s : Fleet γ) : FleetAction γ → Prop
  | .connect _ p _ => ∀ g, p ∉ (s.net.gateways g).issued
  | _ => True

/-- The members that a relay has been told of once it has taken all that is on a
connection. -/
def Fleet.announced (s : Fleet γ) (link : Link γ) : Finset (PeerID × RoomName) :=
  (s.net.toRelay link).foldl (fun told parcel => tell told parcel.body) (s.told link)

/-- A message to a relay fits the members that it has been told of over the connection: a
join is into the room of the others, a leave is that of the last one, and a chat is into
their room and has a payload. -/
def Fits (told : Finset (PeerID × RoomName)) (env : Envelope) : Prop :=
  match env.type with
  | .join => ∀ x ∈ told, x.2 = env.room
  | .leave => ∀ x ∈ told, x = (env.id, env.room)
  | .chat => env.payload ≠ "" ∧ ∃ x ∈ told, x.2 = env.room
  | _ => True

/-- What a handler writes to a relay fits what it has written before. -/
def OneRoom (d : Deployment γ) (s : Fleet γ) : FleetAction γ → Prop
  | .emit g p =>
    match (s.pending (g, p)).head? with
    | some (.forward env) => Fits (s.announced (g, relayForRoom d.relays env.room)) env
    | _ => True
  | _ => True

/-! ### What a step can do -/

namespace Fleet

/-- A relay has taken a message. -/
def taken (d : Deployment γ) (s : Fleet γ) (link : Link γ) (fresh id : String) (now : ℕ)
    (parcel : Parcel Envelope) (rest : List (Parcel Envelope)) : Fleet γ :=
  { s with
    net := Federation.send d link.2 parcel.serial id now
      { s.net with toRelay := Function.update s.net.toRelay link rest }
      (takeMessage d s.net link fresh now parcel.body)
    told := Function.update s.told link (tell (s.told link) parcel.body) }

/-- A gateway has read a message of a relay. -/
def read (s : Fleet γ) (link : Link γ) (rest : List (Parcel Relay.Message)) : Fleet γ :=
  { s with net := { s.net with toGateway := Function.update s.net.toGateway link rest } }

/-- A gateway passes a message of a relay on. -/
def passOn (d : Deployment γ) (s : Fleet γ) (g : γ) (serial : Option ℕ) (env : Envelope) :
    Fleet γ :=
  { s with net := s.net.post d g serial (handleRelayMessage d.go (s.net.gateways g) env) }

end Fleet

/-- The outcome of an action, the peers that are to get a chat apart. -/
inductive FleetStep (d : Deployment γ) (s : Fleet γ) : FleetAction γ → Fleet γ → Prop
  | connected {g : γ} {p : PeerID} {now : Time} (hpending : s.pending (g, p) = []) :
      FleetStep d s (.connect g p now) (s.handled g p
        ((s.net.gateways g).register p, [.send {p} (welcomeEnvelope p now)]))
  | framed {g : γ} {p : PeerID} {frame : Option Envelope} {now : Time}
      (hpending : s.pending (g, p) = []) (hconn : p ∈ (s.net.gateways g).conns) :
      FleetStep d s (.frame g p frame now)
        (s.handled g p (handleFrame d.go (s.net.gateways g) p frame now))
  | emitted {g : γ} {p : PeerID} {o : Gateway.Output} {rest : List Gateway.Output}
      (hpending : s.pending (g, p) = o :: rest) :
      FleetStep d s (.emit g p) (s.emit d g p o rest)
  | taken {link : Link γ} {fresh id : String} {now : ℕ} {parcel : Parcel Envelope}
      {rest : List (Parcel Envelope)} (hlink : s.net.toRelay link = parcel :: rest) :
      FleetStep d s (.relay link fresh id now) (s.taken d link fresh id now parcel rest)
  | dropped {link : Link γ} {parcel : Parcel Relay.Message} {rest : List (Parcel Relay.Message)}
      (hlink : s.net.toGateway link = parcel :: rest)
      (hread : Envelope.unmarshal parcel.body.serialize = none) :
      FleetStep d s (.deliver link) (s.read link rest)
  | delivered {link : Link γ} {parcel : Parcel Relay.Message}
      {rest : List (Parcel Relay.Message)} {env : Envelope}
      (hlink : s.net.toGateway link = parcel :: rest)
      (hread : Envelope.unmarshal parcel.body.serialize = some env) :
      FleetStep d s (.deliver link) ((s.read link rest).passOn d link.1 parcel.serial env)

variable {d : Deployment γ} {s s' : Fleet γ}

theorem fleetAct_cases {a : FleetAction γ} (h : fleetAct d s a = some s') : FleetStep d s a s' := by
  cases a with
  | connect g p now =>
      obtain ⟨hpending, h⟩ := Option.ite_none_right_eq_some.mp h
      obtain ⟨res, hres, rfl⟩ := Option.map_eq_some_iff.mp h
      obtain ⟨-, hres⟩ := Option.ite_none_left_eq_some.mp hres
      obtain rfl := Option.some.inj hres
      exact .connected hpending
  | frame g p frame now =>
      obtain ⟨hpending, h⟩ := Option.ite_none_right_eq_some.mp h
      obtain ⟨res, hres, rfl⟩ := Option.map_eq_some_iff.mp h
      obtain ⟨hconn, hres⟩ := Option.ite_none_right_eq_some.mp hres
      obtain rfl := Option.some.inj hres
      exact .framed hpending hconn
  | emit g p =>
      rw [fleetAct] at h
      split at h
      · cases h
      · next o rest hpending =>
          obtain rfl := Option.some.inj h
          exact .emitted hpending
  | relay link fresh id now =>
      obtain ⟨net, hnet, rfl⟩ := Option.map_eq_some_iff.mp h
      rw [federationStep] at hnet
      split at hnet
      · cases hnet
      · next parcel rest hlink =>
          obtain rfl := Option.some.inj hnet
          have htold : s.toldNext link = tell (s.told link) parcel.body := by
            rw [Fleet.toldNext, hlink]
          rw [htold]
          exact .taken hlink
  | deliver link =>
      obtain ⟨net, hnet, rfl⟩ := Option.map_eq_some_iff.mp h
      rw [federationStep] at hnet
      split at hnet
      · cases hnet
      · next parcel rest hlink =>
          dsimp only at hnet
          split at hnet
          · next hread =>
              obtain rfl := Option.some.inj hnet
              exact .dropped hlink hread
          · next env hread =>
              obtain rfl := Option.some.inj hnet
              exact .delivered hlink hread

/-- A step is an action, and then some peers are not to get a chat any more. -/
theorem fleetStep_cases {a : FleetAction γ} (h : fleetStep d s a = some s') :
    ∃ t, FleetStep d s a t ∧ s' = t.keep := by
  obtain ⟨t, ht, rfl⟩ := Option.map_eq_some_iff.mp h
  exact ⟨t, fleetAct_cases ht, rfl⟩

namespace Fleet

variable {g g' : γ} {p q : PeerID} {o : Gateway.Output} {rest : List Gateway.Output}

/-! ### What an output changes -/

theorem net_emit : (s.emit d g p o rest).net = s.net.postOne d g none o := rfl

@[simp] theorem gateways_emit : (s.emit d g p o rest).net.gateways = s.net.gateways :=
  (Federation.postOne_keeps o).1

@[simp] theorem relays_emit : (s.emit d g p o rest).net.relays = s.net.relays :=
  (Federation.postOne_keeps o).2.1

@[simp] theorem toGateway_emit : (s.emit d g p o rest).net.toGateway = s.net.toGateway :=
  (Federation.postOne_keeps o).2.2

@[simp] theorem told_emit : (s.emit d g p o rest).told = s.told := by
  cases o with
  | forward env =>
      show (if env.type = .chat then s.record d ⟨g, p, env.room⟩ else s).told = s.told
      split <;> rfl
  | _ => rfl

/-- What a handler puts out has no serial. -/
@[simp] theorem deliveries_emit (k : ℕ) :
    (s.emit d g p o rest).net.deliveries k g' q = s.net.deliveries k g' q := by
  rw [net_emit, Federation.deliveries, Federation.queues_postOne, List.countP_append,
    Federation.deliveries]
  split
  · cases o.envelopeFor q <;> simp
  · simp

/-- What is not for a relay. -/
theorem emit_other (h : ∀ env, o ≠ .forward env) :
    (s.emit d g p o rest).net.toRelay = s.net.toRelay ∧
      (s.emit d g p o rest).net.serial = s.net.serial ∧
        (s.emit d g p o rest).chats = s.chats ∧ (s.emit d g p o rest).owed = s.owed := by
  cases o with
  | forward env => exact absurd rfl (h env)
  | _ => exact ⟨rfl, rfl, rfl, rfl⟩

/-- What is for a relay. -/
theorem toRelay_emit (hrelays : 0 < d.relays) (env : Envelope) :
    (s.emit d g p (.forward env) rest).net.toRelay =
      Function.update s.net.toRelay (g, relayForRoom d.relays env.room)
        (s.net.toRelay (g, relayForRoom d.relays env.room) ++ [⟨env, some s.net.serial⟩]) := by
  show (s.net.forward d g env).toRelay = _
  rw [Federation.forward, if_neg hrelays.ne']

theorem serial_emit (hrelays : 0 < d.relays) (env : Envelope) :
    (s.emit d g p (.forward env) rest).net.serial = s.net.serial + 1 := by
  show (s.net.forward d g env).serial = _
  rw [Federation.forward, if_neg hrelays.ne']

/-! ### What the relays and their messages change -/

variable {link link' : Link γ} {fresh id : String} {now : ℕ} {parcel : Parcel Envelope}
  {queue : List (Parcel Envelope)} {messages : List (Parcel Relay.Message)} {serial : Option ℕ}
  {env : Envelope}

@[simp] theorem gateways_taken :
    (s.taken d link fresh id now parcel queue).net.gateways = s.net.gateways :=
  Federation.gateways_send _

@[simp] theorem toRelay_taken : (s.taken d link fresh id now parcel queue).net.toRelay =
    Function.update s.net.toRelay link queue := Federation.toRelay_send _

@[simp] theorem deliveries_taken (k : ℕ) :
    (s.taken d link fresh id now parcel queue).net.deliveries k g q = s.net.deliveries k g q := by
  rw [Federation.deliveries, taken, Federation.queues_send]
  rfl

theorem toGateway_taken : (s.taken d link fresh id now parcel queue).net.toGateway link' =
    s.net.toGateway link' ++ (takeMessage d s.net link fresh now parcel.body).2.filterMap
      (Federation.parcelFor d link.2 parcel.serial id now link') := Federation.toGateway_send _

theorem relays_taken : (s.taken d link fresh id now parcel queue).net.relays =
    Function.update s.net.relays link.2 (takeMessage d s.net link fresh now parcel.body).1 := by
  have hfold : ∀ (sent : List Relay.Output) (t : Federation γ),
      (sent.foldl (Federation.sendOne d link.2 parcel.serial id now) t).relays = t.relays := by
    intro sent
    induction sent with
    | nil => exact fun t => rfl
    | cons o sent ih => exact fun t => ih _
  exact hfold _ _

@[simp] theorem serial_taken :
    (s.taken d link fresh id now parcel queue).net.serial = s.net.serial := by
  have hfold : ∀ (sent : List Relay.Output) (t : Federation γ),
      (sent.foldl (Federation.sendOne d link.2 parcel.serial id now) t).serial = t.serial := by
    intro sent
    induction sent with
    | nil => exact fun t => rfl
    | cons o sent ih => exact fun t => ih _
  exact hfold _ _

@[simp] theorem gateways_passOn :
    (s.passOn d g serial env).net.gateways = s.net.gateways :=
  Federation.gateways_post.trans (Function.update_eq_self g s.net.gateways)

@[simp] theorem relays_passOn : (s.passOn d g serial env).net.relays = s.net.relays := rfl

@[simp] theorem toRelay_passOn : (s.passOn d g serial env).net.toRelay = s.net.toRelay := rfl

@[simp] theorem toGateway_passOn : (s.passOn d g serial env).net.toGateway = s.net.toGateway := rfl

@[simp] theorem serial_passOn : (s.passOn d g serial env).net.serial = s.net.serial := rfl

/-- Whom a message of a relay is passed on to. -/
theorem deliveries_passOn (k : ℕ) : (s.passOn d g serial env).net.deliveries k g' q =
    s.net.deliveries k g' q +
      if g' = g ∧ q ∈ (s.net.gateways g).targets env.room env.id ∧ serial = some k then 1 else 0 := by
  have hqueue : (s.passOn d g serial env).net.queues g' q = s.net.queues g' q ++
      if g' = g ∧ q ∈ (s.net.gateways g).targets env.room env.id then
        [⟨signEnvelope d.go env, serial⟩] else [] := Federation.queues_enqueue _ _
  rw [Federation.deliveries, hqueue, List.countP_append, Federation.deliveries]
  congr 1
  by_cases htarget : g' = g ∧ q ∈ (s.net.gateways g).targets env.room env.id
  · rw [if_pos htarget]
    by_cases hserial : serial = some k
    · simp [htarget, hserial]
    · simp [hserial]
  · rw [if_neg htarget, if_neg fun h => htarget ⟨h.1, h.2.1⟩]
    rfl

/-! ### What a relay will have been told -/

/-- It does not depend on what the relay has already taken. -/
@[simp] theorem announced_taken (hlink : s.net.toRelay link = parcel :: queue) :
    (s.taken d link fresh id now parcel queue).announced link' = s.announced link' := by
  rw [announced, toRelay_taken, announced]
  show (Function.update s.net.toRelay link queue link').foldl _
    (Function.update s.told link (tell (s.told link) parcel.body) link') = _
  by_cases hlink' : link' = link
  · rw [hlink', Function.update_self, Function.update_self, hlink, List.foldl_cons]
  · rw [Function.update_of_ne hlink', Function.update_of_ne hlink']

theorem announced_forward (hrelays : 0 < d.relays) :
    (s.emit d g p (.forward env) rest).announced link' =
      if link' = (g, relayForRoom d.relays env.room) then tell (s.announced link') env
      else s.announced link' := by
  rw [announced, toRelay_emit hrelays, told_emit, announced]
  by_cases hlink' : link' = (g, relayForRoom d.relays env.room)
  · rw [hlink', Function.update_self, List.foldl_append, if_pos rfl]
    rfl
  · rw [Function.update_of_ne hlink', if_neg hlink']

theorem announced_other (h : ∀ env, o ≠ .forward env) :
    (s.emit d g p o rest).announced link' = s.announced link' := by
  rw [announced, (emit_other h).1, told_emit, announced]

end Fleet

end

end TrapChat.Network
