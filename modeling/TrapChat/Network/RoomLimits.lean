import TrapChat.Client.RoomRequests
import TrapChat.Gateway.Membership

/-!
The two limits on the rooms of a client. The page counts the rooms that it has asked for
and refuses to ask for a sixth one; the gateway counts the rooms that it has let the peer
of a connection into, and would refuse it. The gateway is behind: it reads the messages of
a connection one by one, while the page goes on, and a page that reconnects is a new peer.
So it never comes to a refusal: what the gateway has let in is part of what the messages
that it has read ask for.
-/

namespace TrapChat.Network

open Storage Protocol Gateway Client Transition

/-- A page and its gateway. -/
structure Attached where
  page : Page
  server : Server
  /-- The sockets of the page that are connections, and the peers that these are. -/
  connections : List (SocketId × PeerID)
  /-- How many messages of a socket the gateway has read. -/
  taken : SocketId → ℕ

/-- The envelope that a gateway reads of a message. -/
def envelope (uuid : UUID → String) (m : Message) : Envelope where
  id := uuid m.id
  msgId := uuid m.msgId
  type := m.type
  room := m.room
  payload := m.payload.getD ""
  timestamp := m.timestamp

inductive AttachedAction
  | page (a : SocketAction)
  /-- The gateway takes the connection of a socket. -/
  | accept (i : SocketId) (p : PeerID) (now : Time)
  /-- It reads the next message of a connection. -/
  | read (i : SocketId) (p : PeerID) (now : Time)
  /-- Anything else at the gateway. -/
  | gateway (e : Gateway.Event)

namespace Attached

def new : Attached where
  page := .new
  server := newServer
  connections := []
  taken := fun _ => 0

/-- The event is a message of one of the page's connections. -/
def reads (s : Attached) : Gateway.Event → Bool
  | .frame p _ _ => decide (p ∈ s.connections.map Prod.snd)
  | _ => false

def step (rt : GoRuntime) (uuid : UUID → String) (s : Attached) :
    AttachedAction → Option Attached
  | .page a => (s.page.step a).map fun page => { s with page := page }
  | .accept i p now =>
      if (s.page.readyState i).isSome ∧ i ∉ s.connections.map Prod.fst then
        (Gateway.step rt s.server (.connect p now)).map fun server =>
          { s with server := server, connections := s.connections ++ [(i, p)] }
      else none
  | .read i p now =>
      match (s.page.sentOn i)[s.taken i]? with
      | none => none
      | some m =>
          if (i, p) ∈ s.connections then
            (Gateway.step rt s.server (.frame p (some (envelope uuid m)) now)).map fun server =>
              { s with server := server, taken := Function.update s.taken i (s.taken i + 1) }
          else none
  | .gateway e =>
      if s.reads e = true then none
      else (Gateway.step rt s.server e).map fun server => { s with server := server }

/-- The rooms that the gateway has been asked for on a connection. -/
def requested (s : Attached) (i : SocketId) : Finset RoomName :=
  roomsAfter ((s.page.sentOn i).take (s.taken i))

end Attached

/-! ### The rooms of a peer at its gateway -/

section
variable {rt : GoRuntime} {s s' : Server} {p q : PeerID} {env : Envelope} {now : Time}
  {room r : RoomName} {e : Gateway.Event}

/-- What a message lets its peer into: the room of a join, whose name is valid. -/
structure LetIn (rt : GoRuntime) (env : Envelope) (r : RoomName) : Prop where
  type : env.type = .join
  room : r = env.room
  name : validateRoomName rt env.room = ""

/-- A message that is to take its peer out of a room. -/
structure TakenOut (rt : GoRuntime) (env : Envelope) (r : RoomName) : Prop where
  type : env.type = .leave
  room : r = env.room
  name : validateRoomName rt env.room = ""

theorem not_takenOut (htype : env.type ≠ .leave) : ¬TakenOut rt env r := fun h => htype h.type

theorem stays_of_same (htype : env.type ≠ .leave) (hsame : SameMembers s s')
    (h : r ∈ s'.roomsOf p) : LetIn rt env r ∨ r ∈ s.roomsOf p ∧ ¬TakenOut rt env r :=
  .inr ⟨hsame.roomsOf p ▸ h, not_takenOut htype⟩

/-- **The rooms of a peer after its message.** -/
theorem roomsOf_handleFrame (h : r ∈ (handleFrame rt s p (some env) now).1.roomsOf p) :
    LetIn rt env r ∨ r ∈ s.roomsOf p ∧ ¬TakenOut rt env r := by
  rw [handleFrame] at h
  split at h
  · next hrefused => exact .inr ⟨h, fun hout => hrefused.2 hout.name⟩
  next hname =>
  have hvalid : MessageType.needsRoom env.type = true → validateRoomName rt env.room = "" :=
    fun hneeds => by_contra fun hne => hname ⟨hneeds, hne⟩
  rw [handleType] at h
  split at h
  case h_1 htype =>
    have heffect : FrameEffect rt s p now (some env) (handleJoin rt s p env now) :=
      handleJoin_effect htype (hvalid (by rw [htype]; rfl))
    generalize handleJoin rt s p env now = res at h heffect
    cases heffect with
    | none hsame => exact stays_of_same (by simp [htype]) hsame h
    | joined =>
        obtain ⟨-, hroom⟩ | hold := mem_roomsOf_joined.mp h
        · exact .inl ⟨htype, hroom, hvalid (by rw [htype]; rfl)⟩
        · exact .inr ⟨hold, not_takenOut (by simp [htype])⟩
    | half =>
        obtain ⟨-, hroom⟩ | hold := Server.mem_roomsOf_addRoom.mp h
        · exact .inl ⟨htype, hroom, hvalid (by rw [htype]; rfl)⟩
        · exact .inr ⟨hold, not_takenOut (by simp [htype])⟩
    | left hleave =>
        rw [htype] at hleave
        cases hleave
  case h_2 htype =>
    obtain ⟨hne, hold⟩ := mem_roomsOf_left.mp h
    exact .inr ⟨hold, fun hout => hne ⟨rfl, hout.room⟩⟩
  case h_3 htype => exact stays_of_same (by simp [htype]) (handleForwarded_same _) h
  case h_4 htype => exact stays_of_same (by simp [htype]) (handleForwarded_same _) h
  case h_5 htype => exact stays_of_same (by simp [htype]) handleTyping_same h
  case h_6 htype => exact stays_of_same (by simp [htype]) handleReceipt_same h
  case h_7 htype => exact stays_of_same (by simp [htype]) (handleForwarded_same _) h
  case h_8 htype => exact stays_of_same (by simp [htype]) handleSignal_same h
  case h_9 htype => exact stays_of_same (by simp [htype]) handleSignal_same h
  case h_10 htype => exact stays_of_same (by simp [htype]) handleSignal_same h
  case h_11 htype => exact stays_of_same (by simp [htype]) handleSignal_same h
  case h_12 htype => exact stays_of_same (by simp [htype]) (SameMembers.refl s) h
  case h_13 => exact stays_of_same ‹_› (SameMembers.refl s) h

/-- **A step of the gateway.** It takes no ID back, and nothing but a message of a peer lets
the peer into a room. -/
theorem rooms_step (hstep : Gateway.step rt s e = some s') : s.issued ⊆ s'.issued ∧
    ∀ p, (∀ frame now, e ≠ .frame p frame now) → s'.roomsOf p ⊆ s.roomsOf p := by
  have hcleanup : ∀ room dummy order now, s.issued ⊆ (cleanupRoom s room dummy order now).1.issued ∧
      ∀ p, (cleanupRoom s room dummy order now).1.roomsOf p ⊆ s.roomsOf p := by
    intro room dummy order now
    obtain ⟨-, hissued, hrooms, -⟩ := disconnectPeers_spec room now order s
    exact ⟨hissued.ge, hrooms⟩
  rw [Gateway.step, Option.map_eq_some_iff] at hstep
  obtain ⟨⟨s', outs⟩, hstep, rfl⟩ := hstep
  cases e with
  | connect q now =>
      rw [handle, Option.ite_none_left_eq_some] at hstep
      obtain ⟨-, heq⟩ := hstep
      cases heq
      exact ⟨Finset.subset_insert .., fun _ _ => subset_rfl⟩
  | frame q frame now =>
      rw [handle, Option.ite_none_right_eq_some] at hstep
      obtain ⟨-, heq⟩ := hstep
      have heffect : FrameEffect rt s q now frame (handleFrame rt s q frame now) :=
        handleFrame_effect frame
      rw [Option.some_inj.mp heq] at heffect
      refine ⟨heffect.conns.2.ge, fun p hframe r hr => ?_⟩
      have hne : p ≠ q := by
        rintro rfl
        exact hframe frame now rfl
      exact (heffect.other hne r).1.mp hr
  | disconnect q order now =>
      rw [handle, Option.ite_none_right_eq_some] at hstep
      obtain ⟨-, heq⟩ := hstep
      obtain ⟨-, hissued, hrooms, -⟩ := leaveRooms_spec rt q now order
        (Server.dropPeer { s with
          rl := s.rl.remove q, typingRL := s.typingRL.remove q, signalRL := s.signalRL.remove q } q)
      have hafter : s' = (handleDisconnect rt s q order now).1 :=
        congrArg Prod.fst (Option.some_inj.mp heq).symm
      rw [hafter]
      exact ⟨hissued.ge, fun p _ r hr => (Server.mem_roomsOf_dropPeer.mp (hrooms p ▸ hr)).2⟩
  | cleanup room order now =>
      rw [handle, Option.ite_none_right_eq_some] at hstep
      obtain ⟨hissued, hrooms⟩ := hcleanup room "__cleanup__" order now
      rw [Option.some_inj.mp hstep.2] at hissued hrooms
      exact ⟨hissued, fun p _ => hrooms p⟩
  | expire room order now =>
      rw [handle, Option.ite_none_right_eq_some] at hstep
      obtain ⟨hissued, hrooms⟩ := hcleanup room "__ttl_cleanup__" order now
      have hafter : (cleanupRoom s room "__ttl_cleanup__" order now).1 = s' :=
        congrArg Prod.fst (Option.some_inj.mp hstep.2)
      rw [hafter] at hissued hrooms
      exact ⟨hissued, fun p _ => hrooms p⟩
  | relayed env =>
      cases hstep
      exact ⟨subset_rfl, fun _ _ => subset_rfl⟩

/-- The names of the rooms of the peers stay valid. -/
theorem names_step (hstep : Gateway.step rt s e = some s')
    (hs : ∀ p, ∀ r ∈ s.roomsOf p, validateRoomName rt r = "") :
    ∀ p, ∀ r ∈ s'.roomsOf p, validateRoomName rt r = "" := by
  intro p r hr
  by_cases hframe : ∃ env now, e = .frame p (some env) now
  · obtain ⟨env, now, rfl⟩ := hframe
    obtain ⟨-, rfl⟩ := step_frame hstep
    obtain hin | ⟨hold, -⟩ := roomsOf_handleFrame hr
    · rw [hin.room]
      exact hin.name
    · exact hs p r hold
  · by_cases hgarbled : ∃ now, e = .frame p none now
    · obtain ⟨now, rfl⟩ := hgarbled
      obtain ⟨-, rfl⟩ := step_frame hstep
      exact hs p r hr
    · refine hs p r ((rooms_step hstep).2 p (fun frame now heq => ?_) hr)
      cases frame with
      | none => exact hgarbled ⟨now, heq⟩
      | some env => exact hframe ⟨env, now, heq⟩

end

/-! ### What the gateway has let in has been asked for -/

namespace Attached

/-- Every peer of the page is in rooms only that its connection has asked for, and these
have valid names. -/
structure Within (rt : GoRuntime) (s : Attached) : Prop where
  page : Reachable Page.step Page.new s.page
  fresh : Fresh s.server
  issued : ∀ c ∈ s.connections, c.2 ∈ s.server.issued
  sockets : (s.connections.map Prod.fst).Nodup
  peers : (s.connections.map Prod.snd).Nodup
  rooms : ∀ c ∈ s.connections, s.server.roomsOf c.2 ⊆ s.requested c.1
  names : ∀ p, ∀ r ∈ s.server.roomsOf p, validateRoomName rt r = ""
  taken : ∀ i, s.taken i ≤ (s.page.sentOn i).length

variable {rt : GoRuntime} {uuid : UUID → String} {s s' : Attached} {i : SocketId} {p : PeerID}

theorem within_new : Within rt new where
  page := .start
  fresh := fresh_newServer
  issued := fun _ h => by cases h
  sockets := .nil
  peers := .nil
  rooms := fun _ h => by cases h
  names := fun p r hr => absurd hr (Finset.notMem_empty r)
  taken := fun _ => Nat.zero_le _

/-- The connection of a peer of the page. -/
theorem Within.eq_of_peer (hs : Within rt s) {c d : SocketId × PeerID} (hc : c ∈ s.connections)
    (hd : d ∈ s.connections) (h : c.2 = d.2) : c = d :=
  List.inj_on_of_nodup_map hs.peers hc hd h

theorem Within.eq_of_socket (hs : Within rt s) {c d : SocketId × PeerID}
    (hc : c ∈ s.connections) (hd : d ∈ s.connections) (h : c.1 = d.1) : c = d :=
  List.inj_on_of_nodup_map hs.sockets hc hd h

/-- More that is sent does not change what has been read. -/
theorem Within.requested_page (hs : Within rt s) {page : Page}
    (hsent : s.page.sentOn i <+: page.sentOn i) :
    requested { s with page := page } i = s.requested i := by
  obtain ⟨more, hmore⟩ := hsent
  show roomsAfter ((page.sentOn i).take (s.taken i)) = _
  rw [← hmore, List.take_append_of_le_length (hs.taken i)]
  rfl

theorem Within.pageStep (hs : Within rt s) {a : SocketAction} {page : Page}
    (hstep : s.page.step a = some page) : Within rt { s with page := page } := by
  have hsent := (Page.proceeds_of_reachable hs.page hstep).sent
  refine { hs with
    page := hs.page.next trivial hstep
    rooms := fun c hc => ?_
    taken := fun i => ?_ }
  · rw [hs.requested_page (hsent c.1)]
    exact hs.rooms c hc
  · exact (hs.taken i).trans (hsent i).length_le

/-- What happens at the gateway apart from the messages of the page. -/
theorem Within.gatewayStep (hs : Within rt s) {e : Gateway.Event} {server : Server}
    (hreads : s.reads e = false) (hstep : Gateway.step rt s.server e = some server) :
    Within rt { s with server := server } := by
  obtain ⟨hissued, hrooms⟩ := rooms_step hstep
  refine { hs with
    fresh := fresh_step hs.fresh hstep
    names := names_step hstep hs.names
    issued := fun c hc => ?_
    rooms := fun c hc r hr => ?_ }
  · exact hissued (hs.issued c hc)
  · refine hs.rooms c hc (hrooms c.2 ?_ hr)
    rintro frame now rfl
    exact of_decide_eq_false hreads (List.mem_map_of_mem hc)

/-- The gateway takes a connection. -/
theorem Within.accept (hs : Within rt s) {now : Time} {server : Server}
    (hi : i ∉ s.connections.map Prod.fst)
    (hstep : Gateway.step rt s.server (.connect p now) = some server) :
    Within rt { s with server := server, connections := s.connections ++ [(i, p)] } := by
  have hgateway := hs.gatewayStep (e := .connect p now) rfl hstep
  rw [Gateway.step, handle] at hstep
  split at hstep
  · cases hstep
  next hp =>
  obtain rfl := Option.some_inj.mp hstep
  have hnew : p ∉ s.connections.map Prod.snd := by
    intro hin
    obtain ⟨c, hc, rfl⟩ := List.mem_map.mp hin
    exact hp (hs.issued c hc)
  have hall : ∀ {P : SocketId × PeerID → Prop}, (∀ c ∈ s.connections, P c) → P (i, p) →
      ∀ c ∈ s.connections ++ [(i, p)], P c := by
    intro P hold hlast c hc
    obtain hc | hc := List.mem_append.mp hc
    · exact hold c hc
    · exact List.mem_singleton.mp hc ▸ hlast
  refine { hgateway with
    issued := hall hgateway.issued (Finset.mem_insert_self ..)
    sockets := ?_
    peers := ?_
    rooms := hall hgateway.rooms fun r hr => ?_ }
  · rw [List.map_append]
    exact hs.sockets.append (List.nodup_singleton _) (List.disjoint_singleton.mpr hi)
  · rw [List.map_append]
    exact hs.peers.append (List.nodup_singleton _) (List.disjoint_singleton.mpr hnew)
  · -- an ID that was not handed out is in no room
    exact absurd hr (hs.fresh.rooms p hp r)

theorem getElem?_sent {msgs : List Message} {k : ℕ} {m : Message} (h : msgs[k]? = some m) :
    msgs.take (k + 1) = msgs.take k ++ [m] := by
  rw [List.take_add_one, h, Option.toList_some]

/-- The gateway reads a message. -/
theorem Within.readStep (hs : Within rt s) {now : Time} {m : Message} {server : Server}
    (hm : (s.page.sentOn i)[s.taken i]? = some m) (hc : (i, p) ∈ s.connections)
    (hstep : Gateway.step rt s.server (.frame p (some (envelope uuid m)) now) = some server) :
    Within rt { s with server := server, taken := Function.update s.taken i (s.taken i + 1) } := by
  obtain ⟨hissued, hrooms⟩ := rooms_step hstep
  refine { hs with
    fresh := fresh_step hs.fresh hstep
    names := names_step hstep hs.names
    issued := fun c hc => hissued (hs.issued c hc)
    rooms := fun c hc' r hr => ?_
    taken := fun j => ?_ }
  · by_cases hcp : c.2 = p
    · obtain rfl := hs.eq_of_peer hc' hc hcp
      show r ∈ roomsAfter ((s.page.sentOn i).take (Function.update s.taken i (s.taken i + 1) i))
      rw [Function.update_self, getElem?_sent hm, roomsAfter_concat, asked]
      obtain ⟨-, rfl⟩ := step_frame hstep
      obtain hin | ⟨hold, hout⟩ := roomsOf_handleFrame hr
      · have htype : m.type = .join := hin.type
        rw [htype, hin.room]
        exact Finset.mem_insert_self ..
      · have hbefore : r ∈ roomsAfter ((s.page.sentOn i).take (s.taken i)) := hs.rooms _ hc hold
        split
        · exact Finset.mem_insert_of_mem hbefore
        · next htype =>
          refine Finset.mem_erase.mpr ⟨?_, hbefore⟩
          rintro rfl
          exact hout ⟨htype, rfl, hs.names p _ hold⟩
        · exact hbefore
    · have hci : c.1 ≠ i := fun heq => hcp (by rw [hs.eq_of_socket hc' hc heq])
      show r ∈ roomsAfter ((s.page.sentOn c.1).take
        (Function.update s.taken i (s.taken i + 1) c.1))
      rw [Function.update_of_ne hci]
      exact hs.rooms c hc' (hrooms c.2 (fun frame now heq => hcp (Event.frame.inj heq).1.symm) hr)
  · obtain ⟨hlt, -⟩ := List.getElem?_eq_some_iff.mp hm
    show Function.update s.taken i (s.taken i + 1) j ≤ (s.page.sentOn j).length
    by_cases hji : j = i
    · rw [hji, Function.update_self]
      exact hlt
    · rw [Function.update_of_ne hji]
      exact hs.taken j

theorem within_step {a : AttachedAction} (hs : Within rt s) (hstep : s.step rt uuid a = some s') :
    Within rt s' := by
  cases a with
  | page a =>
      obtain ⟨page, hpage, rfl⟩ := Option.map_eq_some_iff.mp hstep
      exact hs.pageStep hpage
  | accept i p now =>
      rw [step, Option.ite_none_right_eq_some] at hstep
      obtain ⟨⟨-, hi⟩, hstep⟩ := hstep
      obtain ⟨server, hserver, rfl⟩ := Option.map_eq_some_iff.mp hstep
      exact hs.accept hi hserver
  | read i p now =>
      rw [step] at hstep
      split at hstep
      · cases hstep
      · next m hm =>
        rw [Option.ite_none_right_eq_some] at hstep
        obtain ⟨server, hserver, rfl⟩ := Option.map_eq_some_iff.mp hstep.2
        exact hs.readStep hm hstep.1 hserver
  | gateway e =>
      rw [step, Option.ite_none_left_eq_some] at hstep
      obtain ⟨server, hserver, rfl⟩ := Option.map_eq_some_iff.mp hstep.2
      exact hs.gatewayStep (Bool.eq_false_of_not_eq_true hstep.1) hserver

theorem within_of_reachable (hs : Reachable (step rt uuid) new s) : Within rt s :=
  hs.invariant within_new fun _ _ _ hs _ => within_step hs

end Attached

/-- **The limit of the page is the stricter one.** A peer of the page is in rooms only that
its connection has asked for, the gateway refuses no join of the page for its number of
rooms, and once everything is read on the open connection the peer is in no room that the
page has not joined. -/
theorem rooms_within_limits {rt : GoRuntime} {uuid : UUID → String} {s : Attached}
    {i : SocketId} {p : PeerID} (hs : Reachable (Attached.step rt uuid) Attached.new s)
    (hc : (i, p) ∈ s.connections) :
    s.server.roomsOf p ⊆ s.requested i ∧
      (∀ m, (s.page.sentOn i)[s.taken i]? = some m → m.type = .join →
        ¬s.server.peerLimit p m.room) ∧
      (s.page.ws = some i → s.page.readyState i = some .opened →
        s.taken i = (s.page.sentOn i).length → s.server.roomsOf p ⊆ s.page.roomNames) := by
  have hwithin := Attached.within_of_reachable hs
  have hmodest := Page.modest_of_reachable hwithin.page
  have hrooms : s.server.roomsOf p ⊆ s.requested i := hwithin.rooms _ hc
  refine ⟨hrooms, fun m hm htype hlimit => ?_, fun hws hopen hall => ?_⟩
  · -- with this join, six rooms would have been asked for
    have hcard := hmodest.sent i (s.taken i + 1)
    rw [Attached.getElem?_sent hm, roomsAfter_concat, asked, htype] at hcard
    have hsub : insert m.room (s.server.roomsOf p) ⊆ insert m.room (s.requested i) :=
      Finset.insert_subset_insert _ hrooms
    have hle := (Finset.card_le_card hsub).trans hcard
    rw [Finset.card_insert_of_notMem hlimit.1] at hle
    exact Nat.not_succ_le_self _ (hle.trans hlimit.2)
  · refine hrooms.trans ?_
    rw [Attached.requested, hall, List.take_length]
    exact hmodest.current i hws hopen

/-- A page asks for two rooms, and the gateway has read of one. -/
def joinAhead : List AttachedAction :=
  [.page .connect, .page (.opened 0), .accept 0 "a" 0, .page (.send .join "r" none none),
    .page (.send .join "q" none none), .read 0 "a" 0]

theorem joinAhead_run : (exec (Attached.step (asciiRuntime "" {}) fun _ => "") Attached.new
    joinAhead).isSome = true := by
  decide +kernel

theorem rooms_within_limits_joinAhead :
    ¬((exec (Attached.step (asciiRuntime "" {}) fun _ => "") Attached.new joinAhead).get
      joinAhead_run).server.peerLimit "a" "q" := by
  have hlimits := rooms_within_limits (i := 0) (p := "a") (reachable_get joinAhead_run)
    (by decide +kernel)
  exact hlimits.2.1 _ rfl rfl

end TrapChat.Network
