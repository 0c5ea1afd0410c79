import TrapChat.Network.CrossDelivery

/-!
The order in which messages cross the relays. A gateway writes to a relay what the
handlers of its peers forward, one write after the other; the relay takes the messages of
a connection in their order, and so does a gateway what comes from a relay. Messages may
be lost on the way, where a relay refuses one or has nobody to pass it on to. None
overtakes another one of the same gateway and relay.

The log is what the gateways have written, by serial; nothing in the code depends on it.
-/

namespace TrapChat.Network

open Storage Protocol Gateway Transition

/-- A message that the handler of a peer has written to the relay of its room. -/
structure Dispatch (γ : Type) where
  gateway : γ
  sender : PeerID
  env : Envelope

/-- The connection that it went over. -/
def Dispatch.link {γ : Type} (d : Deployment γ) (x : Dispatch γ) : Link γ :=
  (x.gateway, relayForRoom d.relays x.env.room)

structure Ledger (γ : Type) where
  fleet : Fleet γ
  log : List (Dispatch γ)
  /-- What the messages of a peer are to be forwarded as, in the order in which they were
  read. -/
  made : γ × PeerID → List Envelope

/-- The logged message that one on its way is, if it has a serial. -/
def entry {γ α : Type} (log : List (Dispatch γ)) (parcel : Parcel α) : Option (Dispatch γ) :=
  parcel.serial.bind (log[·]?)

def trace {γ α : Type} (log : List (Dispatch γ)) (queue : List (Parcel α)) :
    List (Dispatch γ) :=
  queue.filterMap (entry log)

section
variable {γ : Type} [DecidableEq γ]

namespace Ledger

def new (γ : Type) : Ledger γ where
  fleet := newFleet γ
  log := []
  made := fun _ => []

/-- What an action writes to a relay. -/
def writing (s : Fleet γ) : FleetAction γ → List (Dispatch γ)
  | .emit g p => (writes ((s.pending (g, p)).take 1)).map fun env => ⟨g, p, env⟩
  | _ => []

/-- What is to be forwarded, after an action that has led to the fleet `s'`. -/
def making (s' : Fleet γ) (made : γ × PeerID → List Envelope) :
    FleetAction γ → γ × PeerID → List Envelope
  | .frame g p _ _ => Function.update made (g, p) (made (g, p) ++ writes (s'.pending (g, p)))
  | _ => made

/-- What an action leaves that has led to the fleet `s'`. -/
def after (s : Ledger γ) (a : FleetAction γ) (s' : Fleet γ) : Ledger γ :=
  ⟨s', s.log ++ writing s.fleet a, making s' s.made a⟩

def step (d : Deployment γ) (s : Ledger γ) (a : FleetAction γ) : Option (Ledger γ) :=
  (fleetStep d s.fleet a).map (s.after a)

/-- The messages of other gateways that a peer has been sent. -/
def delivered (s : Ledger γ) (g : γ) (q : PeerID) : List (Dispatch γ) :=
  trace s.log (s.fleet.net.queues g q)

end Ledger

end

/-! ### What a message says -/

/-- The same message, its addressing and its time apart. -/
structure SaysSame (env env' : Envelope) : Prop where
  id : env'.id = env.id
  type : env'.type.wire = env.type.wire
  room : env'.room = env.room
  payload : env'.payload = env.payload

/-- A relay's message is one that the envelope is read as. -/
def ReadFrom (env : Envelope) (m : Relay.Message) : Prop :=
  ∃ t now, t.wire = env.type.wire ∧ m = { relayed env t with timestamp := now }

theorem wire_of_ofWire {name : String} {t : Relay.MessageType}
    (h : Relay.MessageType.ofWire name = some t) : t.wire = name := by
  unfold Relay.MessageType.ofWire at h
  iterate 11
    split at h
    · next hname =>
        obtain rfl := Option.some.inj h
        exact hname.symm
  cases h

theorem wire_ite {p : Prop} [Decidable p] {t t' : MessageType} {name : String}
    (h : p → t.wire = name) (h' : t'.wire = name) : (if p then t else t').wire = name := by
  split
  · next hp => exact h hp
  · exact h'

theorem wire_ofWire (name : String) : (MessageType.ofWire name).wire = name := by
  unfold MessageType.ofWire
  iterate 15 refine wire_ite (fun h => h.symm) ?_
  rfl

theorem readFrom_of_deserialize {fresh : String} {env : Envelope} {m : Relay.Message}
    (h : Relay.Message.deserialize fresh env.marshal = some m) : ReadFrom env m := by
  rw [Relay.Message.deserialize] at h
  obtain ⟨-, h⟩ := Option.ite_none_left_eq_some.mp h
  rw [Envelope.marshal, JsonRecord.parse_render, Option.bind_some, ofRecord_record] at h
  obtain ⟨t, ht, h⟩ := Option.bind_eq_some_iff.mp h
  obtain ⟨-, h⟩ := Option.ite_none_right_eq_some.mp h
  obtain rfl := Option.some.inj h
  exact ⟨t, _, wire_of_ofWire ht, rfl⟩

/-- What a gateway reads of a relay's message is what another one has written. -/
theorem ReadFrom.saysSame {env env' : Envelope} {m : Relay.Message} (h : ReadFrom env m)
    (hread : Envelope.unmarshal m.serialize = some env') : SaysSame env env' := by
  obtain ⟨t, now, htype, rfl⟩ := h
  obtain rfl := unmarshal_serialize_some hread
  refine ⟨rfl, (wire_ofWire _).trans htype, rfl, ?_⟩
  by_cases hp : env.payload = "" <;> simp [relayed, hp]

section
variable {rust : Relay.RustRuntime} {rs : Relay.State} {c : Relay.ConnId}
  {m m' : Relay.Message} {now : ℕ} {targets : Finset Relay.ConnId}

theorem dispatch_of_fansOut (h : m.msgType.fansOut = true) :
    Relay.dispatch rs c m ∅ = Relay.fanOut rs c m ∅ := by
  unfold Relay.dispatch
  split <;> simp_all [Relay.MessageType.fansOut]

/-- A message that is passed on leads to nothing else. -/
theorem fanOut_alone {frame : Option Relay.Message}
    (h : Relay.Output.fanOut targets m' ∈ (Relay.handleMessage rust rs c frame ∅ now).2) :
    (Relay.handleMessage rust rs c frame ∅ now).2 = [.fanOut targets m'] := by
  cases frame with
  | none => cases h
  | some m =>
      have htype := (fansOut_of_mem h).1
      rw [Relay.handleMessage] at h ⊢
      cases href : Relay.refusal rust c m with
      | some reply =>
          rw [href] at h
          exact absurd (href.trans (congrArg some (List.mem_singleton.mp h).symm))
            not_fanOut_of_refusal
      | none =>
          rw [href] at h
          dsimp only at h ⊢
          rw [dispatch_of_fansOut (m := { m with timestamp := now }) htype, Relay.fanOut] at h ⊢
          split at h
          · cases h
          · split at h
            · cases h
            · rw [List.mem_singleton.mp h]

end

/-! ### The log -/

section
variable {γ α : Type} {log more : List (Dispatch γ)} {queue queue' : List (Parcel α)}
  {parcel : Parcel α}

theorem trace_append : trace log (queue ++ queue') = trace log queue ++ trace log queue' :=
  List.filterMap_append

theorem trace_cons : trace log (parcel :: queue) = trace log [parcel] ++ trace log queue := by
  rw [← trace_append, List.singleton_append]

theorem mem_trace {x : Dispatch γ} :
    x ∈ trace log queue ↔ ∃ parcel ∈ queue, entry log parcel = some x :=
  List.mem_filterMap

theorem entry_of_serial {parcel' : Parcel Envelope} (h : parcel'.serial = parcel.serial) :
    entry log parcel' = entry log parcel := by
  rw [entry, entry, h]

theorem trace_eq_nil (h : ∀ parcel ∈ queue, parcel.serial = none) : trace log queue = [] := by
  refine List.filterMap_eq_nil_iff.mpr fun parcel hmem => ?_
  rw [entry, h parcel hmem, Option.bind_none]

theorem entry_grown (h : ∀ k ≥ log.length, parcel.serial ≠ some k) :
    entry (log ++ more) parcel = entry log parcel := by
  rw [entry, entry]
  cases hserial : parcel.serial with
  | none => rfl
  | some k =>
      have hk : k < log.length := Nat.lt_of_not_le fun hle => h k hle hserial
      rw [Option.bind_some, Option.bind_some, List.getElem?_append_left hk]

theorem trace_grown (h : ∀ parcel ∈ queue, ∀ k ≥ log.length, parcel.serial ≠ some k) :
    trace (log ++ more) queue = trace log queue :=
  List.filterMap_congr fun parcel hmem => entry_grown (h parcel hmem)

end

section
variable {γ : Type} [DecidableEq γ] {d : Deployment γ} {s : Ledger γ} {t : Fleet γ}
  {a : FleetAction γ}

/-- The messages of a gateway and a relay that a peer has been sent, that are on the way
to its gateway, and that are on the way to the relay. -/
def Ledger.way (s : Ledger γ) (link : Link γ) (g : γ) (q : PeerID) : List (Dispatch γ) :=
  s.delivered g q ++ trace s.log (s.fleet.net.toGateway (g, link.2)) ++
    trace s.log (s.fleet.net.toRelay link)

/-- What is on the way to somebody is what has been logged, in the same order. -/
structure Tracked (d : Deployment γ) (s : Ledger γ) : Prop where
  length : s.log.length = s.fleet.net.serial
  serialled : Serialled s.fleet
  toRelay : ∀ link, ∀ parcel ∈ s.fleet.net.toRelay link, ∀ x, entry s.log parcel = some x →
    x.link d = link ∧ x.env = parcel.body
  toGateway : ∀ link, ∀ message ∈ s.fleet.net.toGateway link, ∀ x,
    entry s.log message = some x → (x.link d).2 = link.2 ∧ ReadFrom x.env message.body
  queues : ∀ g q, ∀ parcel ∈ s.fleet.net.queues g q, ∀ x, entry s.log parcel = some x →
    SaysSame x.env parcel.body
  order : ∀ link g q, ((s.way link g q).filter fun x => x.link d = link).Sublist
    (s.log.filter fun x => x.link d = link)
  made : ∀ g p, (s.log.filter fun x => x.gateway = g ∧ x.sender = p).map Dispatch.env ++
    writes (s.fleet.pending (g, p)) = s.made (g, p)

theorem tracked_new : Tracked d (Ledger.new γ) where
  length := rfl
  serialled := serialled_newFleet
  toRelay := fun _ _ h => by cases h
  toGateway := fun _ _ h => by cases h
  queues := fun _ _ _ h => by cases h
  order := fun _ _ _ => List.Sublist.refl _
  made := fun _ _ => rfl

omit [DecidableEq γ] in
theorem Serialled.ne_of_mem_queue (hs : Serialled t) {g : γ} {q : PeerID}
    {parcel : Parcel Envelope} (hmem : parcel ∈ t.net.queues g q) {k : ℕ} (hk : t.net.serial ≤ k) :
    parcel.serial ≠ some k := by
  intro hserial
  have hnone := List.countP_eq_zero.mp (hs.deliveries k hk g q) parcel hmem
  exact hnone (by simpa using hserial)

section
variable {g : γ} {p : PeerID} {env : Envelope} {o : Gateway.Output} {rest : List Gateway.Output}

theorem way_forward (hs : Tracked d s) (hrelays : 0 < d.relays) (link : Link γ) (g' : γ)
    (q : PeerID) :
    Ledger.way ⟨s.fleet.emit d g p (.forward env) rest, s.log ++ [⟨g, p, env⟩], s.made⟩ link g' q =
      s.way link g' q ++
        if link = (g, relayForRoom d.relays env.room) then [⟨g, p, env⟩] else [] := by
  have hqueue : ∀ parcel ∈ s.fleet.net.queues g' q, ∀ k ≥ s.log.length, parcel.serial ≠ some k :=
    fun _ hmem k hk => hs.serialled.ne_of_mem_queue hmem (hs.length ▸ hk)
  have hback : ∀ parcel ∈ s.fleet.net.toGateway (g', link.2), ∀ k ≥ s.log.length,
      parcel.serial ≠ some k :=
    fun _ hmem k hk => hs.serialled.ne_of_mem_back hmem (hs.length ▸ hk)
  have hthere : ∀ parcel ∈ s.fleet.net.toRelay link, ∀ k ≥ s.log.length,
      parcel.serial ≠ some k :=
    fun _ hmem k hk => hs.serialled.ne_of_mem hmem (hs.length ▸ hk)
  have hqueues : (s.fleet.emit d g p (.forward env) rest).net.queues = s.fleet.net.queues :=
    Federation.queues_forward env
  rw [Ledger.way, Ledger.delivered, hqueues, Fleet.toGateway_emit, Fleet.toRelay_emit hrelays,
    trace_grown hqueue, trace_grown hback]
  by_cases hlink : link = (g, relayForRoom d.relays env.room)
  · have hnew : trace (s.log ++ [⟨g, p, env⟩]) [⟨env, some s.fleet.net.serial⟩] =
        [(⟨g, p, env⟩ : Dispatch γ)] := by
      simp [trace, entry, ← hs.length]
    rw [if_pos hlink, ← hlink, Function.update_self, trace_append, trace_grown hthere, hnew,
      ← List.append_assoc]
    rfl
  · rw [if_neg hlink, Function.update_of_ne hlink, trace_grown hthere, List.append_nil]
    rfl

theorem Tracked.forward (hs : Tracked d s) (hrelays : 0 < d.relays)
    (hpending : s.fleet.pending (g, p) = .forward env :: rest) :
    Tracked d ⟨s.fleet.emit d g p (.forward env) rest, s.log ++ [⟨g, p, env⟩], s.made⟩ where
  length := by rw [Fleet.serial_emit hrelays, List.length_append, hs.length, List.length_singleton]
  serialled := hs.serialled.emit hrelays
  toRelay := by
    intro link parcel hmem x hx
    rw [Fleet.toRelay_emit hrelays] at hmem
    have hold : parcel ∈ s.fleet.net.toRelay link → x.link d = link ∧ x.env = parcel.body := by
      intro hmem
      rw [entry_grown fun k hk => hs.serialled.ne_of_mem hmem (hs.length ▸ hk)] at hx
      exact hs.toRelay link parcel hmem x hx
    by_cases hlink : link = (g, relayForRoom d.relays env.room)
    · rw [hlink, Function.update_self, ← hlink] at hmem
      obtain hmem | hnew := List.mem_append.mp hmem
      · exact hold hmem
      · obtain rfl := List.mem_singleton.mp hnew
        obtain rfl : (⟨g, p, env⟩ : Dispatch γ) = x := by simpa [entry, ← hs.length] using hx
        exact ⟨hlink.symm, rfl⟩
    · rw [Function.update_of_ne hlink] at hmem
      exact hold hmem
  toGateway := by
    intro link message hmem x hx
    rw [Fleet.toGateway_emit] at hmem
    rw [entry_grown fun k hk => hs.serialled.ne_of_mem_back hmem (hs.length ▸ hk)] at hx
    exact hs.toGateway link message hmem x hx
  queues := by
    intro g' q parcel hmem x hx
    change parcel ∈ (s.fleet.net.forward d g env).queues g' q at hmem
    rw [Federation.queues_forward] at hmem
    rw [entry_grown fun k hk => hs.serialled.ne_of_mem_queue hmem (hs.length ▸ hk)] at hx
    exact hs.queues g' q parcel hmem x hx
  order := by
    intro link g' q
    rw [way_forward hs hrelays, List.filter_append, List.filter_append]
    refine (hs.order link g' q).append ?_
    split
    · exact List.Sublist.refl _
    · exact List.nil_sublist _
  made := by
    intro g' p'
    rw [← hs.made g' p', pending_emit, List.filter_append, List.map_append, List.append_assoc]
    congr 1
    by_cases hgp : (g', p') = (g, p)
    · obtain ⟨rfl, rfl⟩ := Prod.mk.inj hgp
      rw [if_pos rfl, hpending, List.filter_cons_of_pos (by simp)]
      rfl
    · rw [if_neg hgp, List.filter_cons_of_neg fun h => hgp ?_]
      · rfl
      · obtain ⟨rfl, rfl⟩ := of_decide_eq_true h
        rfl

theorem Tracked.emit_other (hs : Tracked d s) (hrelays : 0 < d.relays)
    (ho : ∀ env, o ≠ .forward env) (hpending : s.fleet.pending (g, p) = o :: rest) :
    Tracked d ⟨s.fleet.emit d g p o rest, s.log, s.made⟩ := by
  obtain ⟨htoRelay, hserial, -⟩ := @Fleet.emit_other γ _ d s.fleet g p o rest ho
  -- what stays at the gateway has no serial
  have hqueue : ∀ g' q, ∃ more : List (Parcel Envelope), (∀ parcel ∈ more, parcel.serial = none) ∧
      (s.fleet.emit d g p o rest).net.queues g' q = s.fleet.net.queues g' q ++ more := by
    intro g' q
    refine ⟨_, ?_, Federation.queues_postOne o⟩
    intro parcel hmem
    split at hmem
    · obtain ⟨env, -, rfl⟩ := Option.map_eq_some_iff.mp (Option.mem_toList.mp hmem)
      rfl
    · cases hmem
  refine ⟨hs.length.trans hserial.symm, hs.serialled.emit hrelays, fun link parcel hmem => ?_,
    fun link message hmem => ?_, fun g' q parcel hmem x hx => ?_, fun link g' q => ?_,
    fun g' p' => ?_⟩
  · rw [htoRelay] at hmem
    exact hs.toRelay link parcel hmem
  · rw [Fleet.toGateway_emit] at hmem
    exact hs.toGateway link message hmem
  · obtain ⟨more, hmore, heq⟩ := hqueue g' q
    rw [heq] at hmem
    obtain hold | hnew := List.mem_append.mp hmem
    · exact hs.queues g' q parcel hold x hx
    · rw [entry, hmore parcel hnew] at hx
      cases hx
  · obtain ⟨more, hmore, heq⟩ := hqueue g' q
    rw [Ledger.way, Ledger.delivered, heq, htoRelay, Fleet.toGateway_emit, trace_append,
      trace_eq_nil hmore, List.append_nil]
    exact hs.order link g' q
  · rw [← hs.made g' p', pending_emit]
    congr 1
    split
    · next hgp =>
        rw [hgp, hpending]
        cases o with
        | forward env => exact absurd rfl (ho env)
        | _ => rfl
    · rfl

/-- A handler has made its changes. -/
theorem Tracked.handled (hs : Tracked d s) {res : Server × List Gateway.Output}
    (hpending : s.fleet.pending (g, p) = []) :
    Tracked d ⟨s.fleet.handled g p res, s.log,
      Function.update s.made (g, p) (s.made (g, p) ++ writes res.2)⟩ := by
  refine ⟨hs.length, ⟨hs.serialled.transit, hs.serialled.copies, hs.serialled.deliveries,
    hs.serialled.chats⟩, hs.toRelay, hs.toGateway, hs.queues, hs.order, fun g' p' => ?_⟩
  show _ ++ writes (Function.update s.fleet.pending (g, p) res.2 (g', p')) =
    Function.update s.made (g, p) _ (g', p')
  by_cases hgp : (g', p') = (g, p)
  · obtain ⟨rfl, rfl⟩ := Prod.mk.inj hgp
    rw [Function.update_self, Function.update_self, ← hs.made g' p', hpending]
    simp [writes]
  · rw [Function.update_of_ne hgp, Function.update_of_ne hgp]
    exact hs.made g' p'

end

section
variable {link : Link γ} {fresh id : String} {now : ℕ} {parcel : Parcel Envelope}
  {rest : List (Parcel Envelope)}

omit [DecidableEq γ] in
/-- A relay makes at most one message for a connection of one that it takes. -/
theorem trace_taken (link' : Link γ) : (trace s.log
    ((takeMessage d s.fleet.net link fresh now parcel.body).2.filterMap
      (Federation.parcelFor d link.2 parcel.serial id now link'))).Sublist
    (trace s.log [parcel]) := by
  by_cases hfan : ∃ targets m,
      .fanOut targets m ∈ (takeMessage d s.fleet.net link fresh now parcel.body).2
  · obtain ⟨targets, m, hmem⟩ := hfan
    rw [takeMessage] at hmem ⊢
    rw [fanOut_alone hmem]
    cases hparcel : Federation.parcelFor d link.2 parcel.serial id now link'
        (.fanOut targets m) with
    | none =>
        rw [List.filterMap_cons_none hparcel]
        exact List.nil_sublist _
    | some message =>
        obtain ⟨-, hmessage⟩ := Option.ite_none_right_eq_some.mp hparcel
        obtain rfl := Option.some.inj hmessage
        rw [List.filterMap_cons_some hparcel]
        exact List.Sublist.refl _
  · rw [trace_eq_nil]
    · exact List.nil_sublist _
    · intro message hmem
      obtain ⟨o, ho, hparcel⟩ := List.mem_filterMap.mp hmem
      obtain hnone | ⟨-, targets, m, rfl, -⟩ := serial_of_parcelFor hparcel
      · exact hnone
      · exact absurd ⟨targets, m, ho⟩ hfan

theorem Tracked.taken (hs : Tracked d s) (hrelays : 0 < d.relays)
    (hlink : s.fleet.net.toRelay link = parcel :: rest) :
    Tracked d ⟨s.fleet.taken d link fresh id now parcel rest, s.log, s.made⟩ := by
  have hmem : parcel ∈ s.fleet.net.toRelay link := hlink ▸ List.mem_cons_self
  have hqueues : (s.fleet.taken d link fresh id now parcel rest).net.queues =
      s.fleet.net.queues := Federation.queues_send _
  refine ⟨hs.length.trans Fleet.serial_taken.symm, hs.serialled.act hrelays (.taken hlink),
    fun link' parcel' hmem' => ?_, fun link' message hmessage x hx => ?_, fun g q => ?_,
    fun link' g q => ?_, hs.made⟩
  · rw [Fleet.toRelay_taken] at hmem'
    exact hs.toRelay link' parcel' (mem_of_mem_update_tail hlink hmem')
  · rw [Fleet.toGateway_taken] at hmessage
    obtain hold | hnew := List.mem_append.mp hmessage
    · exact hs.toGateway link' message hold x hx
    · obtain ⟨o, ho, hparcel⟩ := List.mem_filterMap.mp hnew
      have hlink' : link'.2 = link.2 := (Option.ite_none_right_eq_some.mp hparcel).1.1
      obtain hnone | ⟨hserial, targets, m, rfl, hbody⟩ := serial_of_parcelFor hparcel
      · rw [entry, hnone] at hx
        cases hx
      · obtain ⟨hroute, henv⟩ := hs.toRelay link parcel hmem x
          ((entry_of_serial hserial.symm).trans hx)
        refine ⟨by rw [hroute, hlink'], ?_⟩
        rw [takeMessage] at ho
        cases hread : Relay.Message.deserialize fresh parcel.body.marshal with
        | none =>
            rw [hread] at ho
            cases ho
        | some m' =>
            rw [hread] at ho
            obtain ⟨t, now', htype, rfl⟩ := readFrom_of_deserialize hread
            rw [henv, hbody, (fansOut_of_mem ho).2]
            exact ⟨t, now, htype, rfl⟩
  · rw [hqueues]
    exact hs.queues g q
  · refine List.Sublist.trans ?_ (hs.order link' g q)
    rw [Ledger.way, Ledger.delivered, hqueues, Fleet.toGateway_taken, Fleet.toRelay_taken,
      trace_append, Ledger.way, Ledger.delivered]
    by_cases hlink' : link' = link
    · rw [hlink', Function.update_self, hlink, trace_cons]
      refine List.Sublist.filter _ ?_
      simp only [List.append_assoc]
      exact (List.Sublist.refl _).append ((List.Sublist.refl _).append
        ((trace_taken _).append (List.Sublist.refl _)))
    · -- what comes of a message of another connection is not of this one
      have hforeign : (trace s.log
          ((takeMessage d s.fleet.net link fresh now parcel.body).2.filterMap
            (Federation.parcelFor d link.2 parcel.serial id now (g, link'.2)))).filter
          (fun x => x.link d = link') = [] := by
        refine List.filter_eq_nil_iff.mpr fun x hx => ?_
        obtain ⟨parcel', hmem', hentry⟩ := mem_trace.mp ((trace_taken _).subset hx)
        obtain rfl := List.mem_singleton.mp hmem'
        rw [(hs.toRelay link parcel' hmem x hentry).1]
        simpa using fun h => hlink' h.symm
      simp only [Function.update_of_ne hlink', List.filter_append, hforeign, List.append_nil]
      exact List.Sublist.refl _

end

section
variable {link : Link γ} {message : Parcel Relay.Message} {rest : List (Parcel Relay.Message)}

/-- A gateway takes a message of a relay, and at most passes it on. -/
theorem Tracked.received (hs : Tracked d s) (hrelays : 0 < d.relays)
    (hlink : s.fleet.net.toGateway link = message :: rest) (hact : FleetStep d s.fleet a t)
    (htoRelay : t.net.toRelay = s.fleet.net.toRelay)
    (htoGateway : t.net.toGateway = Function.update s.fleet.net.toGateway link rest)
    (hserial : t.net.serial = s.fleet.net.serial) (hpending : t.pending = s.fleet.pending)
    (hqueues : ∀ g q, ∃ more, t.net.queues g q = s.fleet.net.queues g q ++ more ∧
      (more = [] ∨ g = link.1 ∧ ∃ env, more = [⟨env, message.serial⟩] ∧
        ∀ sent, ReadFrom sent message.body → SaysSame sent env)) :
    Tracked d ⟨t, s.log, s.made⟩ := by
  have hmem : message ∈ s.fleet.net.toGateway link := hlink ▸ List.mem_cons_self
  refine ⟨hs.length.trans hserial.symm, hs.serialled.act hrelays hact, fun link' parcel hmem' => ?_,
    fun link' message' hmem' => ?_, fun g q parcel hmem' x hx => ?_, fun link' g q => ?_,
    fun g p => ?_⟩
  · rw [htoRelay] at hmem'
    exact hs.toRelay link' parcel hmem'
  · rw [htoGateway] at hmem'
    exact hs.toGateway link' message' (mem_of_mem_update_tail hlink hmem')
  · obtain ⟨more, heq, hmore⟩ := hqueues g q
    rw [heq] at hmem'
    obtain hold | hnew := List.mem_append.mp hmem'
    · exact hs.queues g q parcel hold x hx
    · obtain rfl | ⟨-, env, rfl, hsays⟩ := hmore
      · cases hnew
      · obtain rfl := List.mem_singleton.mp hnew
        exact hsays _ (hs.toGateway link message hmem x ((entry_of_serial rfl).symm.trans hx)).2
  · refine List.Sublist.trans ?_ (hs.order link' g q)
    obtain ⟨more, heq, hmore⟩ := hqueues g q
    have htrace : (trace s.log more).Sublist (trace s.log [message]) := by
      obtain rfl | ⟨-, env, rfl, -⟩ := hmore
      · exact List.nil_sublist _
      · exact List.Sublist.refl _
    rw [Ledger.way, Ledger.delivered, heq, htoRelay, htoGateway, trace_append, Ledger.way,
      Ledger.delivered]
    by_cases hlink' : (g, link'.2) = link
    · rw [hlink', Function.update_self, hlink, trace_cons]
      refine List.Sublist.filter _ ?_
      simp only [List.append_assoc]
      exact (List.Sublist.refl _).append (htrace.append (List.Sublist.refl _))
    · -- a message of another relay is not for this connection
      have hforeign : (trace s.log more).filter (fun x => x.link d = link') = [] := by
        refine List.filter_eq_nil_iff.mpr fun x hx => ?_
        obtain rfl | ⟨rfl, -⟩ := hmore
        · cases hx
        · obtain ⟨message', hmem', hentry⟩ := mem_trace.mp (htrace.subset hx)
          obtain rfl := List.mem_singleton.mp hmem'
          have hroute := (hs.toGateway link message' hmem x hentry).1
          simp only [decide_eq_true_eq]
          rintro rfl
          exact hlink' (Prod.ext rfl hroute)
      simp only [Function.update_of_ne hlink', List.filter_append, hforeign, List.append_nil]
      exact List.Sublist.refl _
  · rw [hpending]
    exact hs.made g p

end

/-! ### Every run -/

theorem Ledger.after_quiet (h : Ledger.writing s.fleet a = []) :
    s.after a t = ⟨t, s.log, Ledger.making t s.made a⟩ := by
  rw [Ledger.after, h, List.append_nil]

theorem Tracked.act (hs : Tracked d s) (hrelays : 0 < d.relays) (h : FleetStep d s.fleet a t) :
    Tracked d (s.after a t) := by
  cases h with
  | @connected g p now hpending =>
      have hmade : Function.update s.made (g, p) (s.made (g, p) ++ []) = s.made := by
        rw [List.append_nil, Function.update_eq_self]
      rw [Ledger.after_quiet rfl]
      show Tracked d ⟨_, s.log, s.made⟩
      rw [← hmade]
      exact hs.handled hpending
  | @framed g p frame now hpending hconn =>
      have hpending' : (s.fleet.handled g p
          (handleFrame d.go (s.fleet.net.gateways g) p frame now)).pending (g, p) =
            (handleFrame d.go (s.fleet.net.gateways g) p frame now).2 := Function.update_self ..
      rw [Ledger.after_quiet rfl, Ledger.making, hpending']
      exact hs.handled hpending
  | @emitted g p o rest hpending =>
      have hwriting : Ledger.writing s.fleet (.emit g p) =
          (writes [o]).map fun env => ⟨g, p, env⟩ := by
        show (writes ((s.fleet.pending (g, p)).take 1)).map _ = _
        rw [hpending]
        rfl
      by_cases ho : ∃ env, o = .forward env
      · obtain ⟨env, rfl⟩ := ho
        rw [Ledger.after, hwriting]
        exact hs.forward hrelays hpending
      · have hother : ∀ env, o ≠ .forward env := fun env h => ho ⟨env, h⟩
        have hwrites : writes [o] = [] := by
          cases o with
          | forward env => exact absurd rfl (hother env)
          | _ => rfl
        rw [hwrites] at hwriting
        rw [Ledger.after_quiet hwriting]
        exact hs.emit_other hrelays hother hpending
  | taken hlink =>
      rw [Ledger.after_quiet rfl]
      exact hs.taken hrelays hlink
  | dropped hlink hread =>
      rw [Ledger.after_quiet rfl]
      exact hs.received hrelays hlink (.dropped hlink hread) rfl rfl rfl rfl
        fun g q => ⟨[], (List.append_nil _).symm, .inl rfl⟩
  | @delivered link message rest env hlink hread =>
      rw [Ledger.after_quiet rfl]
      refine hs.received hrelays hlink (.delivered hlink hread) rfl rfl rfl rfl fun g q => ?_
      refine ⟨_, Federation.queues_enqueue _ _, ?_⟩
      split
      · next htarget =>
          refine .inr ⟨htarget.1, _, rfl, fun sent hsent => ?_⟩
          obtain ⟨hid, htype, hroom, hpayload⟩ := hsent.saysSame hread
          exact ⟨hid, htype, hroom, hpayload⟩
      · exact .inl rfl

theorem Tracked.step (hs : Tracked d s) (hrelays : 0 < d.relays) {s' : Ledger γ}
    (h : s.step d a = some s') : Tracked d s' := by
  obtain ⟨t, hstep, rfl⟩ := Option.map_eq_some_iff.mp h
  obtain ⟨u, hact, rfl⟩ := fleetStep_cases hstep
  obtain ⟨hlength, hserialled, htoRelay, htoGateway, hqueues, horder, hmade⟩ := hs.act hrelays hact
  have hmaking : Ledger.making u.keep s.made a = Ledger.making u s.made a := by cases a <;> rfl
  rw [Ledger.after, hmaking]
  refine ⟨hlength, ⟨hserialled.transit, hserialled.copies, hserialled.deliveries,
    hserialled.chats⟩, htoRelay, htoGateway, hqueues, horder, hmade⟩

/-- What a peer has been sent from other gateways, as far as it came over one relay: of one
gateway's messages in the order in which they were written to the relay, of one peer's in
the order in which its gateway read them, and everything as it was written. -/
structure DeliversInOrder (d : Deployment γ) (s : Ledger γ) : Prop where
  gateway : ∀ link g q, ((s.delivered g q).filter fun x => x.link d = link).Sublist
    (s.log.filter fun x => x.link d = link)
  sender : ∀ g p i g' q, (((s.delivered g' q).filter
      fun x => x.sender = p ∧ x.link d = (g, i)).map Dispatch.env).Sublist
    ((s.made (g, p)).filter fun env => relayForRoom d.relays env.room = i)
  content : ∀ g q, ∀ parcel ∈ s.fleet.net.queues g q, ∀ k, parcel.serial = some k →
    ∃ x, s.log[k]? = some x ∧ SaysSame x.env parcel.body

theorem Tracked.delivers (hs : Tracked d s) : DeliversInOrder d s := by
  have hgateway : ∀ link g q, ((s.delivered g q).filter fun x => x.link d = link).Sublist
      (s.log.filter fun x => x.link d = link) := by
    intro link g q
    refine List.Sublist.trans (List.Sublist.filter _ ?_) (hs.order link g q)
    rw [Ledger.way, List.append_assoc]
    exact List.sublist_append_left _ _
  refine ⟨hgateway, fun g p i g' q => ?_, fun g q parcel hmem k hk => ?_⟩
  · have hlog : (s.log.filter fun x => x.sender = p ∧ x.link d = (g, i)).map Dispatch.env =
        ((s.log.filter fun x => x.gateway = g ∧ x.sender = p).map Dispatch.env).filter
          fun env => relayForRoom d.relays env.room = i := by
      rw [List.filter_map, List.filter_filter]
      congr 1
      refine List.filter_congr fun x _ => ?_
      simp only [Dispatch.link, Prod.mk.injEq, Function.comp_apply, Bool.decide_and]
      cases decide (x.sender = p) <;> cases decide (x.gateway = g) <;> simp
    have hmade : ((s.log.filter fun x => x.gateway = g ∧ x.sender = p).map Dispatch.env).Sublist
        (s.made (g, p)) := by
      rw [← hs.made g p]
      exact List.sublist_append_left _ _
    have hsender : ((s.delivered g' q).filter fun x => x.sender = p ∧ x.link d = (g, i)).Sublist
        (s.log.filter fun x => x.sender = p ∧ x.link d = (g, i)) := by
      simpa only [List.filter_filter, Bool.decide_and] using
        (hgateway (g, i) g' q).filter fun x => decide (x.sender = p)
    have hkept := hmade.filter fun env => decide (relayForRoom d.relays env.room = i)
    rw [← hlog] at hkept
    exact (hsender.map _).trans hkept
  · have hlt : k < s.log.length := by
      rw [hs.length]
      exact Nat.lt_of_not_le fun hle => hs.serialled.ne_of_mem_queue hmem hle hk
    refine ⟨s.log[k], List.getElem?_eq_getElem hlt, hs.queues g q parcel hmem _ ?_⟩
    rw [entry, hk, Option.bind_some, List.getElem?_eq_getElem hlt]

/-- **Messages keep their order across the relays**, in every run. -/
theorem delivers_in_order (d : Deployment γ) (hrelays : 0 < d.relays) {s : Ledger γ}
    (hs : Reachable (Ledger.step d) (Ledger.new γ) s) : DeliversInOrder d s :=
  (hs.invariant (I := Tracked d) tracked_new
    fun _ _ _ htracked _ hstep => htracked.step hrelays hstep).delivers

end

/-- A peer of one gateway sends two chats to a room, in which a peer of the other one is. -/
def twoChats : List (FleetAction Bool) :=
  comesIn true "p" "r" ++ comesIn false "q" "r" ++
    [.frame true "p" (some { type := .chat, room := "r", payload := "one" }) 0, .emit true "p",
      .emit true "p", .frame true "p" (some { type := .chat, room := "r", payload := "two" }) 0,
      .emit true "p", .emit true "p", .relay (true, 0) "f" "i" 0, .relay (true, 0) "f" "i" 0] ++
    [.deliver (false, 0), .deliver (false, 0), .deliver (false, 0)]

theorem twoChats_runs : (exec (Ledger.step twin) (Ledger.new Bool) twoChats).any (fun s =>
    decide (((s.delivered false "q").map fun x => x.env.payload) = ["one", "two"])) = true := by
  decide +kernel

theorem delivers_in_order_twoChats : ∃ s, exec (Ledger.step twin) (Ledger.new Bool) twoChats =
    some s ∧ DeliversInOrder twin s ∧
      ((s.delivered false "q").map fun x => x.env.payload) = ["one", "two"] := by
  obtain ⟨s, hexec, hpayloads⟩ := (Option.any_eq_true _ _).mp twoChats_runs
  exact ⟨s, hexec, delivers_in_order twin (by decide) (reachable_of_exec .start hexec),
    of_decide_eq_true hpayloads⟩

end TrapChat.Network
