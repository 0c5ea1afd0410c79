import TrapChat.Gateway.Membership
import TrapChat.Gateway.Presence
import TrapChat.Gateway.Salts
import TrapChat.Network.Federation

/-!
The count that the members of a room are shown when there is a relay. A gateway
counts the members of a room, a relay the gateways that are in it, and what a relay
says is passed on to the members like everything else. The gateway's count is right
when it is sent, and members that have left since make it too large at worst. A
relay's count is at least one.
-/

namespace TrapChat.Network

open Storage Protocol Gateway Transition

/-- What a client reads as the count of a presence payload, of the gateway's and of
a relay's. -/
structure CountReader (rt : GoRuntime) where
  count : String → Option ℕ
  gateway : ∀ pp, count (rt.marshalPresence pp) = some pp.count
  relay : ∀ room n, count (relayPresence room n) = some n

/-- The last presence on a queue counts at least the members of the room. -/
def Counted {rt : GoRuntime} (reader : CountReader rt) (store : Store) (room : RoomName)
    (queue : List Envelope) : Prop :=
  ∃ env n, lastPresence queue room = some env ∧ reader.count env.payload = some n ∧
    (store.peers room).card ≤ n

/-! ### What the gateway's handlers say -/

/-- What a handler sends is no presence, or it is the presence of a room: to all its
members, with at least their number. -/
def Sound (rt : GoRuntime) (s : Server) : Output → Prop
  | .send _ env => env.type ≠ .presence
  | .presence targets env pp =>
    env.type = .presence ∧ env.room = pp.room ∧ env.payload = rt.marshalPresence pp ∧
      (∀ p ∈ s.store.peers pp.room, p ∈ s.conns → p ≠ "" → p ∈ targets) ∧
      (s.store.peers pp.room).card ≤ pp.count
  | _ => True

section
variable {rt : GoRuntime} {s s' : Server} {p q : PeerID} {room : RoomName} {now : Time}
  {env : Envelope} {outs : List Output}

theorem Sound.shrinks {o : Output} (h : Sound rt s o) (hs : Shrinks s s') : Sound rt s' o := by
  cases o with
  | send targets env => exact h
  | presence targets env pp =>
      obtain ⟨htype, hroom, hpayload, hmembers, hcard⟩ := h
      refine ⟨htype, hroom, hpayload, fun p hp hconn => ?_, ?_⟩
      · exact hmembers p (hs.peers _ hp) (hs.conns hconn)
      · exact (Finset.card_le_card (hs.peers _)).trans hcard
  | forward env => trivial
  | close p => trivial

theorem sound_error (msg : String) : Sound rt s (sendError p msg now) := by
  rintro ⟨⟩

theorem sound_roomList : Sound rt s (sendRoomList rt s' p now) := by
  rintro ⟨⟩

theorem presenceOf_count (store : Store) (room : RoomName) :
    (presenceOf store room).count = (store.peers room).card := by
  rw [Store.peers_eq_keys]
  exact (lists_presenceOf store room).counted

theorem sound_presence (s : Server) (room : RoomName) :
    Sound rt s (broadcastPresence rt s room now) := by
  refine ⟨rfl, rfl, rfl, fun p hp hconn hne => ?_, ?_⟩
  · rw [presenceOf_room] at hp
    exact Finset.mem_inter.mpr ⟨Finset.mem_erase.mpr ⟨hne, hp⟩, hconn⟩
  · rw [presenceOf_count, presenceOf_room]

theorem Counted.append {reader : CountReader rt} {store : Store} {queue : List Envelope}
    (h : Counted reader store room queue) (hother : isPresence room env = false) :
    Counted reader store room (queue ++ [env]) := by
  obtain ⟨env', n, hlast, hcount⟩ := h
  exact ⟨env', n, (lastPresence_append_other queue hother).trans hlast, hcount⟩

theorem isPresence_of_type (h : env.type ≠ .presence) : isPresence room env = false := by
  rw [Bool.eq_false_iff]
  exact fun hpresence => h (isPresence_iff.mp hpresence).1

/-- A member that has been told enough of its room still has after an output, and
one that has not is told by the presence of the room. -/
theorem counted_append {reader : CountReader rt} {o : Output} (hp : p ∈ s.store.peers room)
    (hconn : p ∈ s.conns) (hname : p ≠ "") (ho : Sound rt s o) {queue : List Envelope}
    (h : Counted reader s.store room queue ∨
      ∃ targets env pp, o = .presence targets env pp ∧ pp.room = room) :
    Counted reader s.store room (queue ++ (o.envelopeFor p).toList) := by
  have hnothing : Counted reader s.store room queue →
      Counted reader s.store room (queue ++ (none : Option Envelope).toList) := by
    rw [Option.toList_none, List.append_nil]
    exact fun hcounted => hcounted
  cases o with
  | send targets env =>
      have hcounted := h.resolve_right (by simp)
      rw [Output.envelopeFor]
      split
      · exact hcounted.append (isPresence_of_type ho)
      · exact hnothing hcounted
  | presence targets env pp =>
      obtain ⟨htype, hroom, hpayload, hmembers, hcard⟩ := ho
      by_cases hpp : pp.room = room
      · subst hpp
        rw [Output.envelopeFor, if_pos (hmembers p hp hconn hname)]
        refine ⟨env, pp.count, lastPresence_append _ (isPresence_iff.mpr ⟨htype, hroom⟩), ?_, hcard⟩
        rw [hpayload, reader.gateway]
      · have hcounted : Counted reader s.store room queue := by
          refine h.resolve_right ?_
          rintro ⟨_, _, _, heq, hroom'⟩
          cases heq
          exact hpp hroom'
        rw [Output.envelopeFor]
        split
        · refine hcounted.append (Bool.eq_false_iff.mpr fun hpresence => hpp ?_)
          rw [← hroom]
          exact (isPresence_iff.mp hpresence).2
        · exact hnothing hcounted
  | forward env => exact hnothing (h.resolve_right (by simp))
  | close q => exact hnothing (h.resolve_right (by simp))

theorem counted_append_all {reader : CountReader rt} (hp : p ∈ s.store.peers room)
    (hconn : p ∈ s.conns) (hname : p ≠ "") (hsound : ∀ o ∈ outs, Sound rt s o)
    {queue : List Envelope}
    (h : Counted reader s.store room queue ∨
      ∃ targets env pp, .presence targets env pp ∈ outs ∧ pp.room = room) :
    Counted reader s.store room (queue ++ outs.filterMap (Output.envelopeFor p)) := by
  induction outs generalizing queue with
  | nil =>
      rw [List.filterMap_nil, List.append_nil]
      exact h.resolve_right (by simp)
  | cons o outs ih =>
      have hsplit : queue ++ (o :: outs).filterMap (Output.envelopeFor p) =
          queue ++ (o.envelopeFor p).toList ++ outs.filterMap (Output.envelopeFor p) := by
        cases henv : o.envelopeFor p <;> simp [henv]
      rw [hsplit]
      apply ih fun o' ho' => hsound o' (List.mem_cons_of_mem _ ho')
      have ho := hsound o List.mem_cons_self
      obtain hcounted | ⟨targets, env, pp, hmem, hroom⟩ := h
      · exact .inl (counted_append hp hconn hname ho (.inl hcounted))
      · obtain rfl | hrest := List.mem_cons.mp hmem
        · exact .inl (counted_append hp hconn hname ho (.inr ⟨targets, env, pp, rfl, hroom⟩))
        · exact .inr ⟨targets, env, pp, hrest, hroom⟩

/-! ### Every handler of the gateway -/

/-- What a handler leaves: everything it has said is sound, and it has said it of
every room that has more members than before. -/
structure Says (rt : GoRuntime) (s : Server) (res : Server × List Output) : Prop where
  sound : ∀ o ∈ res.2, Sound rt res.1 o
  said : ∀ room, res.1.store.peers room ⊆ s.store.peers room ∨
    ∃ targets env pp, .presence targets env pp ∈ res.2 ∧ pp.room = room

theorem Says.quiet {res : Server × List Output} (hstore : res.1.store = s.store)
    (hsound : ∀ o ∈ res.2, Sound rt res.1 o) : Says rt s res :=
  ⟨hsound, fun room => .inl (by rw [hstore])⟩

theorem says_error (msg : String) : Says rt s (s, [sendError p msg now]) :=
  .quiet rfl fun o ho => by
    rw [List.mem_singleton.mp ho]
    exact sound_error msg

theorem says_join (jp : JoinPayload) : Says rt s (joinRoom rt s p room jp now) := by
  unfold joinRoom
  split
  · exact says_error _
  split
  · exact says_error _
  dsimp only
  split
  · refine .quiet rfl fun o ho => ?_
    rw [List.mem_singleton.mp ho]
    exact sound_error _
  · next salt _ =>
    have hjoined : ∀ r q, q ∈ (((s.addRoom p room).joinStore room p (ttlForJoin jp) salt
        now).nickStore room p (sanitizeNickname jp.nickname)).store.peers r →
          r = room ∧ q = p ∨ q ∈ s.store.peers r := fun _ _ => mem_peers_joined.mp
    generalize (((s.addRoom p room).joinStore room p (ttlForJoin jp) salt now).nickStore room p
      (sanitizeNickname jp.nickname)) = t at hjoined ⊢
    refine ⟨fun o ho => ?_, fun r => ?_⟩
    · simp only [List.mem_cons, List.not_mem_nil, or_false] at ho
      obtain rfl | rfl | rfl := ho
      · exact sound_presence t room
      · exact sound_roomList
      · trivial
    · by_cases hr : r = room
      · exact .inr ⟨_, _, _, List.mem_cons_self, hr ▸ presenceOf_room t.store room⟩
      · refine .inl fun q hq => ?_
        obtain ⟨rfl, -⟩ | hold := hjoined r q hq
        · exact absurd rfl hr
        · exact hold

theorem says_leave : Says rt s (leaveRoom rt s p room now) := by
  refine ⟨fun o ho => ?_, fun r => .inl fun q hq => (mem_peers_left.mp hq).2⟩
  simp only [leaveRoom, List.mem_cons, List.not_mem_nil, or_false] at ho
  obtain rfl | rfl | rfl := ho
  · exact sound_presence _ _
  · exact sound_roomList
  · trivial

theorem says_forwarded (refusal : String) (h : env.type ≠ .presence) :
    Says rt s (handleForwarded refusal rt s p env now) := by
  unfold handleForwarded
  dsimp only
  split
  · refine .quiet rfl fun o ho => ?_
    rw [List.mem_singleton.mp ho]
    exact sound_error _
  split
  · refine .quiet rfl fun o ho => ?_
    rw [List.mem_singleton.mp ho]
    exact sound_error _
  · refine .quiet rfl fun o ho => ?_
    simp only [List.mem_cons, List.not_mem_nil, or_false] at ho
    obtain rfl | rfl := ho
    · exact h
    · trivial

theorem says_typing (h : env.type ≠ .presence) : Says rt s (handleTyping rt s p env now) := by
  unfold handleTyping
  split
  · exact says_error _
  · dsimp only
    split
    · exact .quiet rfl (by simp)
    · refine .quiet rfl fun o ho => ?_
      rw [List.mem_singleton.mp ho]
      exact h

theorem says_receipt (h : env.type ≠ .presence) : Says rt s (handleReceipt rt s p env now) := by
  unfold handleReceipt
  split
  · exact says_error _
  · refine .quiet rfl fun o ho => ?_
    rw [List.mem_singleton.mp ho]
    exact h

theorem sound_routeSignal {t : Server} {o : Output} (h : env.type ≠ .presence)
    (ho : o ∈ routeSignal rt t p env) : Sound rt s o := by
  unfold routeSignal at ho
  split at ho
  · split at ho <;> rw [List.mem_singleton.mp ho]
    · exact h
    · trivial
  · simp only [List.mem_cons, List.not_mem_nil, or_false] at ho
    obtain rfl | rfl := ho
    · exact h
    · trivial

theorem says_signal (h : env.type ≠ .presence) : Says rt s (handleSignal rt s p env now) := by
  have hstamp : (stamp env p now).type ≠ .presence := h
  unfold handleSignal
  split
  · exact says_error _
  split
  · dsimp only
    split
    · exact .quiet rfl (by simp)
    split
    · refine .quiet rfl fun o ho => ?_
      rw [List.mem_singleton.mp ho]
      exact sound_error _
    · exact .quiet rfl fun o ho => sound_routeSignal hstamp ho
  · exact .quiet rfl fun o ho => sound_routeSignal hstamp ho

theorem says_type : Says rt s (handleType rt s p env now) := by
  unfold handleType
  split
  case h_1 => exact says_join _
  case h_2 => exact says_leave
  case h_3 htype => exact says_forwarded _ (by simp [htype])
  case h_4 htype => exact says_forwarded _ (by simp [htype])
  case h_5 htype => exact says_typing (by simp [htype])
  case h_6 htype => exact says_receipt (by simp [htype])
  case h_7 htype => exact says_forwarded _ (by simp [htype])
  case h_8 htype => exact says_signal (by simp [htype])
  case h_9 htype => exact says_signal (by simp [htype])
  case h_10 htype => exact says_signal (by simp [htype])
  case h_11 htype => exact says_signal (by simp [htype])
  case h_12 => exact .quiet rfl (by simp)
  all_goals exact says_error _

theorem says_frame (frame : Option Envelope) : Says rt s (handleFrame rt s p frame now) := by
  cases frame with
  | none => exact says_error _
  | some env =>
      unfold handleFrame
      dsimp only
      split
      · exact says_error _
      · exact says_type

theorem says_leaveRooms (order : List RoomName) : Shrinks s (leaveRooms rt p now order s).1 ∧
    ∀ o ∈ (leaveRooms rt p now order s).2, Sound rt (leaveRooms rt p now order s).1 o := by
  induction order generalizing s with
  | nil => exact ⟨.refl s, by simp [leaveRooms]⟩
  | cons room rest ih =>
      have hleave := shrinks_leaveStore s room p now
      obtain ⟨hshrinks, hsound⟩ := ih (s := s.leaveStore room p now)
      refine ⟨hleave.trans hshrinks, fun o ho => ?_⟩
      simp only [leaveRooms, List.mem_cons] at ho
      obtain rfl | rfl | hrest := ho
      · exact (sound_presence _ room).shrinks hshrinks
      · trivial
      · exact hsound o hrest

theorem says_disconnect (order : List RoomName) :
    Says rt s (handleDisconnect rt s p order now) := by
  have hdrop : Shrinks s (Server.dropPeer { s with
      rl := s.rl.remove p, typingRL := s.typingRL.remove p, signalRL := s.signalRL.remove p } p) :=
    .of_store rfl (Finset.erase_subset p s.conns) rfl
  obtain ⟨hshrinks, hsound⟩ := @says_leaveRooms rt (Server.dropPeer
    { s with rl := s.rl.remove p, typingRL := s.typingRL.remove p, signalRL := s.signalRL.remove p }
      p) p now order
  refine ⟨fun o ho => ?_, fun room => .inl ((hdrop.trans hshrinks).peers room)⟩
  obtain ho | ho := List.mem_append.mp ho
  · exact hsound o ho
  · rw [List.mem_singleton.mp ho]
    trivial

/-- What `disconnectAllPeers` puts out is closes. -/
theorem disconnectPeers_closes {o : Output} (order : List PeerID)
    (ho : o ∈ (disconnectPeers room now order s).2) : ∃ q, o = .close q := by
  induction order generalizing s with
  | nil => cases ho
  | cons q rest ih =>
      obtain ho | ho := List.mem_append.mp ho
      · split at ho
        · exact ⟨q, List.mem_singleton.mp ho⟩
        · cases ho
      · exact ih ho

theorem says_cleanup (dummy : PeerID) (order : List PeerID) :
    Says rt s (cleanupRoom s room dummy order now) := by
  refine ⟨fun o ho => ?_, fun r => .inl ((cleanupRoom_announces s room dummy order now).1.peers r)⟩
  obtain ⟨q, rfl⟩ := disconnectPeers_closes order ho
  trivial

theorem says_expire (order : List PeerID) : Says rt s (expireRoom rt s room order now) := by
  have hcleanup : Says rt s (cleanupRoom s room "__ttl_cleanup__" order now) := says_cleanup _ order
  refine ⟨fun o ho => ?_, fun r => (hcleanup.said r).imp_right ?_⟩
  · obtain rfl | ho := List.mem_cons.mp ho
    · rintro ⟨⟩
    · exact hcleanup.sound o ho
  · rintro ⟨targets, env, pp, hmem, hroom⟩
    exact ⟨targets, env, pp, List.mem_cons_of_mem _ hmem, hroom⟩

/-- **What the gateway says is sound**, relays apart. -/
theorem says_handle {e : Event} {res : Server × List Output} (he : ofRelay e = false)
    (h : handle rt s e = some res) : Says rt s res := by
  cases e <;> simp only [handle, Option.ite_none_left_eq_some, Option.ite_none_right_eq_some,
    Option.some.injEq] at h
  case connect p now =>
    obtain ⟨-, rfl⟩ := h
    refine .quiet rfl fun o ho => ?_
    rw [List.mem_singleton.mp ho]
    rintro ⟨⟩
  case frame p frame now =>
    obtain ⟨-, rfl⟩ := h
    exact says_frame frame
  case disconnect p order now =>
    obtain ⟨-, rfl⟩ := h
    exact says_disconnect order
  case cleanup room order now =>
    obtain ⟨-, rfl⟩ := h
    exact says_cleanup _ order
  case expire room order now =>
    obtain ⟨-, rfl⟩ := h
    exact says_expire order
  case relayed env => cases he

end

/-! ### What a relay says -/

section
variable {rust : Relay.RustRuntime} {rs : Relay.State} {c : Relay.ConnId}
  {targets refuse : Finset Relay.ConnId} {room : RoomName} {now n : ℕ}

theorem count_of_broadcastPresence {room' : RoomName}
    (h : .presence targets room n ∈ Relay.broadcastPresence rs room') : n = targets.card := by
  unfold Relay.broadcastPresence at h
  split at h
  · cases h
  · cases List.mem_singleton.mp h
    rfl

theorem not_presence_of_refusal {m : Relay.Message} :
    Relay.refusal rust c m ≠ some (.presence targets room n) := by
  unfold Relay.refusal
  split
  · simp
  · split
    · simp
    · split <;> simp

/-- A relay counts those it tells. -/
theorem count_of_handleMessage {frame : Option Relay.Message}
    (h : .presence targets room n ∈ (Relay.handleMessage rust rs c frame refuse now).2) :
    n = targets.card := by
  cases frame with
  | none => cases h
  | some m =>
      rw [Relay.handleMessage] at h
      split at h
      · next reply hreply =>
        exact absurd (List.mem_singleton.mp h ▸ hreply) not_presence_of_refusal
      have hfan : ∀ m', .presence targets room n ∉ (Relay.fanOut rs c m' refuse).2 := by
        intro m' h
        unfold Relay.fanOut at h
        split at h
        · cases h
        · split at h <;> simp at h
      unfold Relay.dispatch at h
      split at h
      · unfold Relay.handleJoin at h
        dsimp only at h
        split at h
        · simp at h
        split at h
        · simp at h
        · exact count_of_broadcastPresence h
      · exact absurd h (hfan _)
      · exact absurd h (hfan _)
      · exact absurd h (hfan _)
      · exact absurd h (hfan _)
      · exact absurd h (hfan _)
      · unfold Relay.handleLeave at h
        split at h
        · cases h
        · exact count_of_broadcastPresence h
      · simp at h
      · simp at h
      · simp at h
      · cases h

end

/-- Presence from a relay is the relay's own, and it counts the gateway it is for. -/
def OwnPresence (m : Relay.Message) : Prop :=
  m.msgType = .presence → ∃ n, 1 ≤ n ∧ m.payload = some (relayPresence m.room n)

theorem ownPresence_of_parcelFor {γ : Type} [DecidableEq γ] {d : Deployment γ} {i : ℕ}
    {serial : Option ℕ} {id : String} {now relayNow : ℕ} {link : Link γ} {rs : Relay.State}
    {c : Relay.ConnId} {frame : Option Relay.Message} {refuse : Finset Relay.ConnId}
    {parcel : Parcel Relay.Message}
    (h : parcel ∈ (Relay.handleMessage d.rust rs c frame refuse now).2.filterMap
      (Federation.parcelFor d i serial id relayNow link)) : OwnPresence parcel.body := by
  obtain ⟨o, ho, hparcel⟩ := List.mem_filterMap.mp h
  rw [Federation.parcelFor] at hparcel
  obtain ⟨⟨-, hconn⟩, heq⟩ := Option.ite_none_right_eq_some.mp hparcel
  obtain rfl := Option.some.inj heq
  cases o with
  | error c room text => rintro ⟨⟩
  | fanOut targets m =>
      intro htype
      cases frame with
      | none => cases ho
      | some m' =>
          obtain ⟨hfans, rfl⟩ := fansOut_of_mem ho
          have htype' : m'.msgType = .presence := htype
          rw [htype'] at hfans
          cases hfans
  | presence targets room n =>
      intro _
      refine ⟨n, ?_, rfl⟩
      rw [count_of_handleMessage ho]
      exact Finset.card_pos.mpr ⟨_, hconn⟩

/-! ### The invariant -/

section
variable {γ : Type} [DecidableEq γ]

/-- The peers of a gateway have IDs. -/
def Named : FederationAction γ → Prop
  | .event _ (.connect p _) => p ≠ ""
  | _ => True

/-- A relay's presence is passed on only to a room with at most one member. -/
def Solitary (s : Federation γ) : FederationAction γ → Prop
  | .deliver link =>
    ∀ parcel ∈ (s.toGateway link).head?, parcel.body.msgType = .presence →
      (s.gateways link.1).store.count parcel.body.room ≤ 1
  | _ => True

/-- The envelopes that a peer has been sent. -/
def Federation.envelopes (s : Federation γ) (g : γ) (p : PeerID) : List Envelope :=
  (s.queues g p).map Parcel.body

/-- Every member of a room at every gateway has been shown at least the number of
members that the room has there. -/
def Adequate (d : Deployment γ) (reader : CountReader d.go) (s : Federation γ) : Prop :=
  ∀ g room, ∀ p ∈ (s.gateways g).store.peers room,
    Counted reader (s.gateways g).store room (s.envelopes g p)

structure Counts (d : Deployment γ) (reader : CountReader d.go) (s : Federation γ) : Prop where
  homed : ∀ g, Homed (s.gateways g)
  named : ∀ g, ∀ p ∈ (s.gateways g).conns, p ≠ ""
  own : ∀ link, ∀ parcel ∈ s.toGateway link, OwnPresence parcel.body
  adequate : Adequate d reader s

variable {d : Deployment γ} {reader : CountReader d.go} {s s' : Federation γ}

omit [DecidableEq γ] in
theorem counts_started : Counts d reader (started γ) where
  homed := fun _ => homed_newServer
  named := fun _ p hp => absurd hp (Finset.notMem_empty p)
  own := fun _ _ h => by cases h
  adequate := fun _ room p hp => absurd hp (Finset.notMem_empty p)

theorem conns_of_handle {rt : GoRuntime} {server : Server} {e : Event}
    {res : Server × List Output} (h : handle rt server e = some res) {p : PeerID}
    (hp : p ∈ res.1.conns) : p ∈ server.conns ∨ ∃ now, e = .connect p now := by
  cases e <;> simp only [handle, Option.ite_none_left_eq_some, Option.ite_none_right_eq_some,
    Option.some.injEq] at h
  case connect q now =>
    obtain ⟨-, rfl⟩ := h
    obtain rfl | hold := Finset.mem_insert.mp hp
    · exact .inr ⟨now, rfl⟩
    · exact .inl hold
  case frame q frame now =>
    obtain ⟨-, rfl⟩ := h
    have heff : FrameEffect rt server q now frame (handleFrame rt server q frame now) :=
      handleFrame_effect frame
    exact .inl (heff.conns.1 ▸ hp)
  case disconnect q order now =>
    obtain ⟨-, rfl⟩ := h
    have hconns := (leaveRooms_spec rt q now order (Server.dropPeer { server with
      rl := server.rl.remove q, typingRL := server.typingRL.remove q,
      signalRL := server.signalRL.remove q } q)).1
    change p ∈ (leaveRooms rt q now order _).1.conns at hp
    rw [hconns] at hp
    exact .inl (Finset.mem_of_mem_erase hp)
  case cleanup room order now =>
    obtain ⟨-, rfl⟩ := h
    exact .inl ((disconnectPeers_spec room now order server).1 p hp)
  case expire room order now =>
    obtain ⟨-, rfl⟩ := h
    exact .inl ((disconnectPeers_spec room now order server).1 p hp)
  case relayed env =>
    subst h
    exact .inl hp

theorem envelopes_post {g g' : γ} {serial : Option ℕ} {res : Server × List Output} {p : PeerID} :
    (s.post d g serial res).envelopes g' p =
      s.envelopes g' p ++ if g' = g then received p res else [] := by
  rw [Federation.envelopes, Federation.queues_post, List.map_append, Federation.envelopes]
  congr 1
  split
  · rw [List.map_map]
    exact List.map_id _
  · rfl

omit [DecidableEq γ] in
theorem Counted.mono {store store' : Store} {room : RoomName} {queue : List Envelope}
    (h : Counted reader store room queue) (hcard : store'.peers room ⊆ store.peers room) :
    Counted reader store' room queue := by
  obtain ⟨env, n, hlast, hcount, hle⟩ := h
  exact ⟨env, n, hlast, hcount, (Finset.card_le_card hcard).trans hle⟩

/-- The handler of a gateway. -/
theorem Counts.event (hs : Counts d reader s) {g : γ} {e : Event} {res : Server × List Output}
    (he : ofRelay e = false) (hname : Named (.event g e))
    (h : handle d.go (s.gateways g) e = some res) : Counts d reader (s.post d g none res) := by
  have hhomed : Homed res.1 := homed_step (hs.homed g) (by rw [step, h, Option.map_some])
  have hnamed : ∀ p ∈ res.1.conns, p ≠ "" := by
    intro p hp
    obtain hold | ⟨now, rfl⟩ := conns_of_handle h hp
    · exact hs.named g p hold
    · exact hname
  have hsaid : Says d.go (s.gateways g) res := says_handle he h
  refine ⟨fun g' => ?_, fun g' => ?_, fun link => ?_, fun g' room p hp => ?_⟩
  · rw [Federation.gateways_post]
    by_cases hg : g' = g
    · rwa [hg, Function.update_self]
    · rw [Function.update_of_ne hg]
      exact hs.homed g'
  · rw [Federation.gateways_post]
    by_cases hg : g' = g
    · rwa [hg, Function.update_self]
    · rw [Function.update_of_ne hg]
      exact hs.named g'
  · rw [Federation.toGateway_post]
    exact hs.own link
  · rw [Federation.gateways_post] at hp ⊢
    rw [envelopes_post]
    by_cases hg : g' = g
    · subst hg
      rw [Function.update_self] at hp ⊢
      rw [if_pos rfl]
      have hconn := (hhomed p room hp).1
      refine counted_append_all hp hconn (hnamed p hconn) hsaid.sound ?_
      refine (hsaid.said room).imp_left fun hsub => ?_
      exact (hs.adequate g' room p (hsub hp)).mono hsub
    · rw [Function.update_of_ne hg] at hp ⊢
      rw [if_neg hg, List.append_nil]
      exact hs.adequate g' room p hp

omit [DecidableEq γ] in
/-- A message of a relay, on the queue of a member. -/
theorem Counted.relayed {store : Store} {room : RoomName} {queue : List Envelope}
    (h : Counted reader store room queue) {m : Relay.Message} {env : Envelope}
    (hm : OwnPresence m) (henv : Envelope.unmarshal m.serialize = some env)
    (hcount : m.msgType = .presence → store.count m.room ≤ 1) :
    Counted reader store room (queue ++ [signEnvelope d.go env]) := by
  obtain rfl := unmarshal_serialize_some henv
  cases hpresence : isPresence room (signEnvelope d.go _) with
  | false => exact h.append hpresence
  | true =>
      obtain ⟨htype, rfl⟩ := isPresence_iff.mp hpresence
      have htype' : m.msgType = .presence := by
        have hwire : MessageType.ofWire m.msgType.wire = .presence := htype
        cases ht : m.msgType <;> rw [ht] at hwire <;> first | rfl | (revert hwire; decide)
      obtain ⟨n, hn, hpayload⟩ := hm htype'
      refine ⟨_, n, lastPresence_append _ hpresence, ?_, ?_⟩
      · show reader.count (m.payload.getD "") = some n
        rw [hpayload, Option.getD_some, reader.relay]
      · rw [← Store.count_eq_card]
        exact (hcount htype').trans hn

theorem Counts.deliver (hs : Counts d reader s) {link : Link γ} (hsolitary : Solitary s (.deliver link))
    (h : federationStep d s (.deliver link) = some s') : Counts d reader s' := by
  rw [federationStep] at h
  split at h
  · cases h
  · next parcel rest hlink =>
    have hown : ∀ link' parcel', parcel' ∈ Function.update s.toGateway link rest link' →
        OwnPresence parcel'.body := by
      intro link' parcel' hmem
      exact hs.own link' parcel' (mem_of_mem_update_tail hlink hmem)
    dsimp only at h
    split at h
    · obtain rfl := Option.some.inj h
      exact ⟨hs.homed, hs.named, hown, hs.adequate⟩
    · next env henv =>
      obtain rfl := Option.some.inj h
      have hgateways : (Federation.post d link.1 parcel.serial
          { s with toGateway := Function.update s.toGateway link rest }
          (handleRelayMessage d.go (s.gateways link.1) env)).gateways = s.gateways :=
        Federation.gateways_post.trans (Function.update_eq_self link.1 s.gateways)
      refine ⟨?_, ?_, fun link' => ?_, fun g room p hp => ?_⟩
      · rw [hgateways]
        exact hs.homed
      · rw [hgateways]
        exact hs.named
      · rw [Federation.toGateway_post]
        exact hown link'
      · rw [hgateways] at hp ⊢
        rw [envelopes_post]
        have hcounted := hs.adequate g room p hp
        show Counted reader (s.gateways g).store room (s.envelopes g p ++ _)
        by_cases hg : g = link.1
        · subst hg
          rw [if_pos rfl]
          by_cases htarget : p ∈ (s.gateways link.1).targets env.room env.id
          · have hreceived : received p (handleRelayMessage d.go (s.gateways link.1) env) =
                [signEnvelope d.go env] := by
              simp [received, handleRelayMessage, broadcast, Output.envelopeFor, htarget]
            rw [hreceived]
            have hmem : parcel ∈ s.toGateway link := hlink ▸ List.mem_cons_self
            refine hcounted.relayed (hs.own link parcel hmem) henv (hsolitary parcel ?_)
            rw [hlink]
            rfl
          · have hreceived : received p (handleRelayMessage d.go (s.gateways link.1) env) = [] := by
              simp [received, handleRelayMessage, broadcast, Output.envelopeFor, htarget]
            rw [hreceived, List.append_nil]
            exact hcounted
        · rw [if_neg hg, List.append_nil]
          exact hcounted

theorem Counts.relay (hs : Counts d reader s) {link : Link γ} {fresh id : String} {now : ℕ}
    (h : federationStep d s (.relay link fresh id now) = some s') : Counts d reader s' := by
  rw [federationStep] at h
  split at h
  · cases h
  · next parcel rest hlink =>
    obtain rfl := Option.some.inj h
    refine ⟨fun g => ?_, fun g => ?_, fun link' parcel' hmem => ?_, fun g room p hp => ?_⟩
    · rw [Federation.gateways_send]
      exact hs.homed g
    · rw [Federation.gateways_send]
      exact hs.named g
    · rw [Federation.toGateway_send] at hmem
      obtain hold | hnew := List.mem_append.mp hmem
      · exact hs.own link' parcel' hold
      · exact ownPresence_of_parcelFor hnew
    · rw [Federation.gateways_send] at hp ⊢
      rw [Federation.envelopes, Federation.queues_send]
      exact hs.adequate g room p hp

theorem Counts.step (hs : Counts d reader s) {a : FederationAction γ} (hname : Named a)
    (hsolitary : Solitary s a) (h : federationStep d s a = some s') : Counts d reader s' := by
  cases a with
  | event g e =>
      rw [federationStep] at h
      obtain ⟨he, h⟩ := Option.ite_none_left_eq_some.mp h
      obtain ⟨res, hres, rfl⟩ := Option.map_eq_some_iff.mp h
      exact hs.event (by simpa using he) hname hres
  | relay link fresh id now => exact hs.relay h
  | deliver link => exact hs.deliver hsolitary h

/-- **The count that members are shown.** In every run in which what a relay counts
is passed on only to rooms with at most one member, the last presence that every
member of a room has been sent counts at least the members that the room has at its
gateway. -/
theorem relayPresence_adequate
    (hs : ReachableVia (federationStep d) (fun s a => Named a ∧ Solitary s a) (started γ) s) :
    Adequate d reader s :=
  have hcounts : Counts d reader s := hs.invariant counts_started
    fun _ _ _ hs hC hstep => hs.step hC.1 hC.2 hstep
  hcounts.adequate

end

/-! ### One gateway and one relay -/

def readCount (text : String) : Option ℕ :=
  (JsonRecord.parse text).bind fun r =>
    match r.values "count" with
    | [.int n] => some n.toNat
    | _ => none

theorem readCount_relayPresence (room : RoomName) (n : ℕ) :
    readCount (relayPresence room n) = some n := by
  simp [readCount, relayPresence, JsonRecord.parse_render, JsonRecord.values_cons]

/-- One gateway and one relay. The presence texts of the gateway are those of the
relay. -/
def solo : Deployment Unit where
  go := { asciiRuntime "" {} with marshalPresence := fun pp => relayPresence pp.room pp.count }
  rust := Relay.asciiRelay
  conn := fun _ => "g"
  conn_injective := fun _ _ _ => rfl
  relays := 1

def soloReader : CountReader solo.go where
  count := readCount
  gateway := fun pp => readCount_relayPresence pp.room pp.count
  relay := readCount_relayPresence

def joinR (p : PeerID) : FederationAction Unit :=
  .event () (.frame p (some { type := .join, room := "r" }) 0)

/-- A peer joins a room, and the relay's presence comes back. -/
def oneJoin : List (FederationAction Unit) :=
  [.event () (.connect "a" 0), joinR "a", .relay ((), 0) "f" "i" 0, .deliver ((), 0)]

/-- Two peers join a room, and then the relay's presence comes back, which counts the
gateway. -/
def bothJoin : List (FederationAction Unit) :=
  [.event () (.connect "a" 0), .event () (.connect "b" 0), joinR "a", joinR "b",
    .relay ((), 0) "f" "i" 0, .relay ((), 0) "f" "i" 0, .deliver ((), 0), .deliver ((), 0)]

instance {γ : Type} (a : FederationAction γ) : Decidable (Named a) :=
  match a with
  | .event _ (.connect p _) => inferInstanceAs (Decidable (p ≠ ""))
  | .event _ (.frame ..) | .event _ (.disconnect ..) | .event _ (.cleanup ..)
  | .event _ (.expire ..) | .event _ (.relayed _) | .relay .. | .deliver _ => .isTrue trivial

instance {γ : Type} (s : Federation γ) (a : FederationAction γ) : Decidable (Solitary s a) :=
  match a with
  | .deliver link =>
    inferInstanceAs (Decidable (∀ parcel ∈ (s.toGateway link).head?,
      parcel.body.msgType = .presence → (s.gateways link.1).store.count parcel.body.room ≤ 1))
  | .event .. | .relay .. => .isTrue trivial

theorem oneJoin_runs : (execVia (federationStep solo) (fun s a => Named a ∧ Solitary s a)
    (started Unit) oneJoin).isSome = true := by
  decide +kernel

theorem relayPresence_adequate_oneJoin : Adequate solo soloReader
    ((execVia (federationStep solo) (fun s a => Named a ∧ Solitary s a) (started Unit)
      oneJoin).get oneJoin_runs) :=
  relayPresence_adequate (reachableVia_get oneJoin_runs)

/-- What the run of the two joins ends with. -/
def afterBothJoin (s : Federation Unit) : Bool :=
  decide (s.toRelay ((), 0) = [] ∧ s.toGateway ((), 0) = [] ∧
    (s.gateways ()).store.peers "r" = {"a", "b"} ∧
    (lastPresence (s.envelopes () "a") "r").bind (fun env => readCount env.payload) = some 1)

theorem bothJoin_runs : ((execVia (federationStep solo) (fun _ a => Named a) (started Unit)
    bothJoin).any afterBothJoin) = true := by
  decide +kernel

/-- Nothing is on its way, and the members of a room of two are shown one. -/
theorem bothJoin_undercounted :
    ¬∀ s, ReachableVia (federationStep solo) (fun _ a => Named a) (started Unit) s → s.Quiet →
      Adequate solo soloReader s := by
  intro hclaim
  obtain ⟨s, hexec, hafter⟩ := (Option.any_eq_true _ _).mp bothJoin_runs
  obtain ⟨htoRelay, htoGateway, hpeers, hlast⟩ := of_decide_eq_true hafter
  have hreach := reachableVia_of_execVia .start hexec
  have hidle : s.Idle solo := hreach.invariant (fun _ _ => ⟨rfl, rfl⟩)
    fun _ _ _ hs _ hstep => hs.step hstep
  have hquiet : s.Quiet := by
    intro link
    obtain hlink | hlink := Nat.lt_or_ge link.2 1
    · obtain rfl : link = ((), 0) := Prod.ext rfl (Nat.lt_one_iff.mp hlink)
      exact ⟨htoRelay, htoGateway⟩
    · exact hidle link hlink
  obtain ⟨env, n, henv, hcount, hle⟩ := hclaim s hreach hquiet () "r" "a" (by simp [hpeers])
  rw [henv] at hlast
  have hone : some n = some 1 := hcount.symm.trans hlast
  rw [hpeers] at hle
  obtain rfl := Option.some.inj hone
  exact absurd hle (by decide)

end TrapChat.Network
