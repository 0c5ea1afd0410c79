import TrapChat.Gateway.Authenticity
import TrapChat.Network.WireAgreement

/-!
Gateways and the relays they share. Every gateway holds one connection to every
relay, over which the messages of all its peers in all their rooms go; a room
belongs to the relay its name is hashed to. Messages on a connection arrive in the
order in which they were sent. Handlers run one at a time, at the gateways and at
the relays, and connections stay up. No queue is ever full.

Every message that a gateway forwards gets a serial, and what the relays and the
other gateways make of it keeps that; nothing in the code depends on serials.
-/

namespace TrapChat.Network

open Storage Protocol Gateway

/-- A message on its way, with the serial of the forwarded one that it is. -/
structure Parcel (α : Type) where
  body : α
  serial : Option ℕ

/-- What is fixed: the runtimes, the name of a gateway's connection at the relays,
and the number of relays. -/
structure Deployment (γ : Type) where
  go : GoRuntime
  rust : Relay.RustRuntime
  conn : γ → Relay.ConnId
  conn_injective : Function.Injective conn
  relays : ℕ

/-- The connection of a gateway to a relay. -/
abbrev Link (γ : Type) := γ × ℕ

structure Federation (γ : Type) where
  gateways : γ → Server
  relays : ℕ → Relay.State
  toRelay : Link γ → List (Parcel Envelope)
  toGateway : Link γ → List (Parcel Relay.Message)
  /-- What every peer of a gateway has been sent. -/
  queues : γ → PeerID → List (Parcel Envelope)
  /-- The next serial. -/
  serial : ℕ

def started (γ : Type) : Federation γ where
  gateways := fun _ => newServer
  relays := fun _ => Relay.newState
  toRelay := fun _ => []
  toGateway := fun _ => []
  queues := fun _ _ => []
  serial := 0

/-- `relayForRoom`: the FNV-1a hash of a name, by the number of relays. -/
def relayForRoom (relays : ℕ) (room : RoomName) : ℕ :=
  (room.toUTF8.toList.foldl (fun (h : UInt32) b => (h ^^^ b.toUInt32) * 16777619)
    2166136261).toNat % relays

/-- The payload of a relay's presence; its keys are sorted. -/
def relayPresence (room : RoomName) (count : ℕ) : String :=
  JsonRecord.render false [("count", .int count), ("room", .str room)]

/-- Who is sent what by an output of a relay. What a relay makes itself has a fresh
ID and the time, and it is not the message the relay has taken. -/
def relayParcel (serial : Option ℕ) (id : String) (now : ℕ) :
    Relay.Output → Finset Relay.ConnId × Parcel Relay.Message
  | .error c room text => ({c}, ⟨⟨id, .error, room, some text, now⟩, none⟩)
  | .fanOut targets m => (targets, ⟨m, serial⟩)
  | .presence targets room count =>
    (targets, ⟨⟨id, .presence, room, some (relayPresence room count), now⟩, none⟩)

section
variable {γ : Type} [DecidableEq γ]

namespace Federation

/-- `forwardToRelay`. Without relays there is nowhere to forward to. -/
def forward (d : Deployment γ) (g : γ) (s : Federation γ) (env : Envelope) : Federation γ :=
  if d.relays = 0 then s
  else
    let link := (g, relayForRoom d.relays env.room)
    { s with
      toRelay := Function.update s.toRelay link (s.toRelay link ++ [⟨env, some s.serial⟩])
      serial := s.serial + 1 }

/-- An envelope is put on the queues of some peers. -/
def enqueue (g : γ) (s : Federation γ) (targets : Finset PeerID) (parcel : Parcel Envelope) :
    Federation γ :=
  { s with
    queues := Function.update s.queues g fun p =>
      if p ∈ targets then s.queues g p ++ [parcel] else s.queues g p }

/-- One output of a gateway's handler. -/
def postOne (d : Deployment γ) (g : γ) (serial : Option ℕ) (s : Federation γ) :
    Gateway.Output → Federation γ
  | .send targets env | .presence targets env _ => s.enqueue g targets ⟨env, serial⟩
  | .forward env => s.forward d g env
  | .close _ => s

/-- The result of a gateway's handler, with the serial of the message it is for. -/
def post (d : Deployment γ) (g : γ) (serial : Option ℕ) (s : Federation γ)
    (res : Server × List Gateway.Output) : Federation γ :=
  res.2.foldl (postOne d g serial) { s with gateways := Function.update s.gateways g res.1 }

/-- One output of a relay's handler. -/
def sendOne (d : Deployment γ) (i : ℕ) (serial : Option ℕ) (id : String) (now : ℕ)
    (s : Federation γ) (o : Relay.Output) : Federation γ :=
  let sent := relayParcel serial id now o
  { s with
    toGateway := fun link =>
      if link.2 = i ∧ d.conn link.1 ∈ sent.1 then s.toGateway link ++ [sent.2]
      else s.toGateway link }

/-- The result of a relay's handler. -/
def send (d : Deployment γ) (i : ℕ) (serial : Option ℕ) (id : String) (now : ℕ)
    (s : Federation γ) (res : Relay.State × List Relay.Output) : Federation γ :=
  res.2.foldl (sendOne d i serial id now) { s with relays := Function.update s.relays i res.1 }

end Federation

inductive FederationAction (γ : Type)
  /-- An event at one gateway. -/
  | event (g : γ) (e : Event)
  /-- A relay takes the next message of a connection. -/
  | relay (link : Link γ) (fresh id : String) (now : ℕ)
  /-- A gateway takes the next message of a relay. -/
  | deliver (link : Link γ)

/-- What comes from a relay comes over a connection. -/
def ofRelay : Event → Bool
  | .relayed _ => true
  | _ => false

/-- What a relay's handler makes of a message on a connection. -/
def takeMessage (d : Deployment γ) (s : Federation γ) (link : Link γ) (fresh : String) (now : ℕ)
    (env : Envelope) : Relay.State × List Relay.Output :=
  Relay.handleMessage d.rust (s.relays link.2) (d.conn link.1)
    (Relay.Message.deserialize fresh env.marshal) ∅ now

def federationStep (d : Deployment γ) (s : Federation γ) :
    FederationAction γ → Option (Federation γ)
  | .event g e =>
    if ofRelay e = true then none
    else (handle d.go (s.gateways g) e).map fun res => s.post d g none res
  | .relay link fresh id now =>
    match s.toRelay link with
    | [] => none
    | parcel :: rest =>
      some ({ s with toRelay := Function.update s.toRelay link rest }.send d link.2 parcel.serial
        id now (takeMessage d s link fresh now parcel.body))
  | .deliver link =>
    match s.toGateway link with
    | [] => none
    | parcel :: rest =>
      let s := { s with toGateway := Function.update s.toGateway link rest }
      match Envelope.unmarshal parcel.body.serialize with
      | none => some s
      | some env =>
        some (s.post d link.1 parcel.serial (handleRelayMessage d.go (s.gateways link.1) env))

/-- Nothing is on its way. -/
def Federation.Quiet (s : Federation γ) : Prop :=
  ∀ link, s.toRelay link = [] ∧ s.toGateway link = []

/-! ### What posting and sending change -/

namespace Federation

variable {d : Deployment γ} {g g' : γ} {serial : Option ℕ} {s : Federation γ} {p : PeerID}
  {link : Link γ}

@[simp] theorem gateways_forward (env : Envelope) : (s.forward d g env).gateways = s.gateways := by
  unfold forward
  split <;> rfl

@[simp] theorem relays_forward (env : Envelope) : (s.forward d g env).relays = s.relays := by
  unfold forward
  split <;> rfl

@[simp] theorem toGateway_forward (env : Envelope) :
    (s.forward d g env).toGateway = s.toGateway := by
  unfold forward
  split <;> rfl

@[simp] theorem queues_forward (env : Envelope) : (s.forward d g env).queues = s.queues := by
  unfold forward
  split <;> rfl

theorem postOne_keeps (o : Gateway.Output) :
    (postOne d g serial s o).gateways = s.gateways ∧ (postOne d g serial s o).relays = s.relays ∧
      (postOne d g serial s o).toGateway = s.toGateway := by
  cases o with
  | send targets env => exact ⟨rfl, rfl, rfl⟩
  | presence targets env pp => exact ⟨rfl, rfl, rfl⟩
  | forward env => exact ⟨gateways_forward env, relays_forward env, toGateway_forward env⟩
  | close p => exact ⟨rfl, rfl, rfl⟩

theorem queues_enqueue (targets : Finset PeerID) (parcel : Parcel Envelope) :
    (s.enqueue g targets parcel).queues g' p =
      s.queues g' p ++ if g' = g ∧ p ∈ targets then [parcel] else [] := by
  show Function.update s.queues g _ g' p = _
  by_cases hg : g' = g
  · subst hg
    rw [Function.update_self]
    split <;> simp_all
  · rw [Function.update_of_ne hg, if_neg (fun h => hg h.1), List.append_nil]

theorem queues_postOne (o : Gateway.Output) :
    (postOne d g serial s o).queues g' p = s.queues g' p ++
      if g' = g then ((o.envelopeFor p).map fun env => (⟨env, serial⟩ : Parcel Envelope)).toList
      else [] := by
  have henqueue : ∀ targets env, (s.enqueue g targets ⟨env, serial⟩).queues g' p =
      s.queues g' p ++ if g' = g then ((if p ∈ targets then some env else none).map
        fun env => (⟨env, serial⟩ : Parcel Envelope)).toList else [] := by
    intro targets env
    rw [queues_enqueue]
    congr 1
    by_cases hg : g' = g
    · by_cases hp : p ∈ targets <;> simp [hg, hp]
    · simp [hg]
  cases o with
  | send targets env => exact henqueue targets env
  | presence targets env pp => exact henqueue targets env
  | forward env =>
      show (s.forward d g env).queues g' p = s.queues g' p ++ if g' = g then [] else []
      rw [queues_forward, ite_self, List.append_nil]
  | close q =>
      show s.queues g' p = s.queues g' p ++ if g' = g then [] else []
      rw [ite_self, List.append_nil]

variable {server : Server} {outs : List Gateway.Output}

theorem foldl_postOne_keeps : (outs.foldl (postOne d g serial) s).gateways = s.gateways ∧
    (outs.foldl (postOne d g serial) s).relays = s.relays ∧
      (outs.foldl (postOne d g serial) s).toGateway = s.toGateway := by
  induction outs generalizing s with
  | nil => exact ⟨rfl, rfl, rfl⟩
  | cons o outs ih =>
      obtain ⟨hgateways, hrelays, htoGateway⟩ := postOne_keeps (d := d) (g := g) (s := s) o
      exact ⟨ih.1.trans hgateways, ih.2.1.trans hrelays, ih.2.2.trans htoGateway⟩

theorem foldl_postOne_queues : (outs.foldl (postOne d g serial) s).queues g' p = s.queues g' p ++
    if g' = g then (outs.filterMap (Output.envelopeFor p)).map fun env => ⟨env, serial⟩
    else [] := by
  induction outs generalizing s with
  | nil => simp
  | cons o outs ih =>
      rw [List.foldl_cons, ih, queues_postOne, List.append_assoc]
      congr 1
      by_cases hg : g' = g
      · cases henv : o.envelopeFor p <;> simp [hg, henv]
      · simp [hg]

variable {res : Server × List Gateway.Output}

theorem gateways_post :
    (s.post d g serial res).gateways = Function.update s.gateways g res.1 :=
  foldl_postOne_keeps.1

theorem toGateway_post : (s.post d g serial res).toGateway = s.toGateway :=
  foldl_postOne_keeps.2.2

/-- What a handler sends reaches the queues of its own gateway's peers. -/
theorem queues_post : (s.post d g serial res).queues g' p = s.queues g' p ++
    if g' = g then (Gateway.received p res).map fun env => ⟨env, serial⟩ else [] :=
  foldl_postOne_queues

variable {i : ℕ} {id : String} {now : ℕ} {sent : List Relay.Output} {relay : Relay.State}

omit [DecidableEq γ] in
theorem foldl_sendOne_keeps : (sent.foldl (sendOne d i serial id now) s).gateways = s.gateways ∧
    (sent.foldl (sendOne d i serial id now) s).queues = s.queues := by
  induction sent generalizing s with
  | nil => exact ⟨rfl, rfl⟩
  | cons o sent ih => exact ⟨ih.1, ih.2⟩

/-- What an output puts on a connection to a gateway. -/
def parcelFor (d : Deployment γ) (i : ℕ) (serial : Option ℕ) (id : String) (now : ℕ)
    (link : Link γ) (o : Relay.Output) : Option (Parcel Relay.Message) :=
  if link.2 = i ∧ d.conn link.1 ∈ (relayParcel serial id now o).1 then
    some (relayParcel serial id now o).2
  else none

omit [DecidableEq γ] in
theorem foldl_sendOne_toGateway : (sent.foldl (sendOne d i serial id now) s).toGateway link =
    s.toGateway link ++ sent.filterMap (parcelFor d i serial id now link) := by
  induction sent generalizing s with
  | nil => simp
  | cons o sent ih =>
      rw [List.foldl_cons, ih]
      show (if link.2 = i ∧ d.conn link.1 ∈ (relayParcel serial id now o).1 then
        s.toGateway link ++ [(relayParcel serial id now o).2] else s.toGateway link) ++ _ = _
      by_cases hlink : link.2 = i ∧ d.conn link.1 ∈ (relayParcel serial id now o).1
      · have hparcel : parcelFor d i serial id now link o = some (relayParcel serial id now o).2 :=
          if_pos hlink
        rw [if_pos hlink, List.filterMap_cons, hparcel, List.append_assoc]
        rfl
      · have hparcel : parcelFor d i serial id now link o = none := if_neg hlink
        rw [if_neg hlink, List.filterMap_cons, hparcel]

omit [DecidableEq γ] in
theorem gateways_send (res : Relay.State × List Relay.Output) :
    (s.send d i serial id now res).gateways = s.gateways := foldl_sendOne_keeps.1

omit [DecidableEq γ] in
theorem queues_send (res : Relay.State × List Relay.Output) :
    (s.send d i serial id now res).queues = s.queues := foldl_sendOne_keeps.2

omit [DecidableEq γ] in
theorem toGateway_send (res : Relay.State × List Relay.Output) :
    (s.send d i serial id now res).toGateway link =
      s.toGateway link ++ res.2.filterMap (parcelFor d i serial id now link) :=
  foldl_sendOne_toGateway

/-! ### Connections that there are not -/

theorem relayForRoom_lt {relays : ℕ} (h : relays ≠ 0) (room : RoomName) :
    relayForRoom relays room < relays :=
  Nat.mod_lt _ (Nat.pos_of_ne_zero h)

theorem toRelay_forward_of_le (hlink : d.relays ≤ link.2) (env : Envelope) :
    (s.forward d g env).toRelay link = s.toRelay link := by
  unfold forward
  split
  · rfl
  · next hrelays =>
    refine Function.update_of_ne ?_ _ _
    rintro rfl
    exact absurd (relayForRoom_lt hrelays env.room) (Nat.not_lt.mpr hlink)

theorem toRelay_postOne_of_le (hlink : d.relays ≤ link.2) (o : Gateway.Output) :
    (postOne d g serial s o).toRelay link = s.toRelay link := by
  cases o with
  | send targets env => rfl
  | presence targets env pp => rfl
  | forward env => exact toRelay_forward_of_le hlink env
  | close p => rfl

theorem toRelay_post_of_le (hlink : d.relays ≤ link.2) :
    (s.post d g serial res).toRelay link = s.toRelay link := by
  have hfold : ∀ (outs : List Gateway.Output) (t : Federation γ),
      (outs.foldl (postOne d g serial) t).toRelay link = t.toRelay link := by
    intro outs
    induction outs with
    | nil => exact fun t => rfl
    | cons o outs ih => exact fun t => (ih _).trans (toRelay_postOne_of_le hlink o)
  exact hfold res.2 _

omit [DecidableEq γ] in
theorem toRelay_send (res : Relay.State × List Relay.Output) :
    (s.send d i serial id now res).toRelay = s.toRelay := by
  have hfold : ∀ (sent : List Relay.Output) (t : Federation γ),
      (sent.foldl (sendOne d i serial id now) t).toRelay = t.toRelay := by
    intro sent
    induction sent with
    | nil => exact fun t => rfl
    | cons o sent ih => exact fun t => ih _
  exact hfold res.2 _

/-- Nothing is on a connection to a relay that there is not. -/
def Idle (d : Deployment γ) (s : Federation γ) : Prop :=
  ∀ link : Link γ, d.relays ≤ link.2 → s.toRelay link = [] ∧ s.toGateway link = []

theorem Idle.step (hs : s.Idle d) {a : FederationAction γ} {s' : Federation γ}
    (h : federationStep d s a = some s') : s'.Idle d := by
  intro link hlink
  obtain ⟨htoRelay, htoGateway⟩ := hs link hlink
  cases a with
  | event g e =>
      rw [federationStep] at h
      obtain ⟨-, h⟩ := Option.ite_none_left_eq_some.mp h
      obtain ⟨res, -, rfl⟩ := Option.map_eq_some_iff.mp h
      rw [toRelay_post_of_le hlink, toGateway_post]
      exact ⟨htoRelay, htoGateway⟩
  | relay link' fresh id now =>
      rw [federationStep] at h
      split at h
      · cases h
      · next parcel rest hlink' =>
        obtain rfl := Option.some.inj h
        have hne : link.2 ≠ link'.2 := by
          intro heq
          have hempty := (hs link' (heq ▸ hlink)).1
          rw [hlink'] at hempty
          cases hempty
        rw [toRelay_send, toGateway_send]
        constructor
        · exact (Function.update_of_ne (fun heq => hne (congrArg Prod.snd heq)) _ _).trans htoRelay
        · refine List.append_eq_nil_iff.mpr ⟨htoGateway, List.filterMap_eq_nil_iff.mpr fun o _ => ?_⟩
          exact if_neg fun h => hne h.1
  | deliver link' =>
      rw [federationStep] at h
      split at h
      · cases h
      · next parcel rest hlink' =>
        have hne : link ≠ link' := by
          rintro rfl
          rw [hlink'] at htoGateway
          cases htoGateway
        have hrest : Function.update s.toGateway link' rest link = [] :=
          (Function.update_of_ne hne _ _).trans htoGateway
        dsimp only at h
        split at h
        · obtain rfl := Option.some.inj h
          exact ⟨htoRelay, hrest⟩
        · obtain rfl := Option.some.inj h
          rw [toRelay_post_of_le hlink, toGateway_post]
          exact ⟨htoRelay, hrest⟩

end Federation

end

end TrapChat.Network
