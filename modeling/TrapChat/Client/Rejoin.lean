import TrapChat.Client.Socket

/-!
What a client sends on a socket that opens: first the joins of its rooms, then
what was queued while it was disconnected. The joins are sent on the socket that
`#ws` names and only while `#reconnecting` is set, and `#flushQueue` looks at no
room, so the law holds exactly in the runs in which a socket opens as part of a
reconnect and nothing is queued for a room the client has left or never joined.
-/

namespace TrapChat.Client

open Storage Protocol Transition

/-- A join of the room with the payload. -/
structure Message.Joins (entry : RoomName × Option String) (m : Message) : Prop where
  type : m.type = .join
  room : m.room = entry.1
  payload : m.payload = entry.2

namespace Page

/-- The rooms are joined on the socket that opens, and what is then flushed
belongs to rooms joined on its socket before it. -/
structure Rejoins (s : Page) (i : SocketId) (s' : Page) : Prop where
  joins : ∀ entry ∈ s.joinedRooms, ∃ m ∈ s'.sentOn i, m.Joins entry
  flushed : ∀ entry ∈ s.pendingQueue, ∀ j before after,
    s'.sentOn j = s.sentOn j ++ before ++ entry.2 :: after →
      ∃ m ∈ s.sentOn j ++ before, m.type = .join ∧ m.room = entry.2.room

/-- The law of a step. -/
def RejoinsFirst (s : Page) (a : SocketAction) (s' : Page) : Prop :=
  ∀ i, a = .opened i → Rejoins s i s'

/-- The socket that opens is the client's own, it is opened by a reconnect, and
the queue holds messages of joined rooms only. -/
def Covered (s : Page) : SocketAction → Prop
  | .opened i =>
      (s.joinedRooms ≠ [] → s.ws = some i ∧ s.reconnecting = true) ∧
        (s.ws = some i → ∀ entry ∈ s.pendingQueue, entry.1 ∈ s.joinedRooms.map Prod.fst)
  | _ => True

/-! ### What is sent -/

@[simp] theorem sentOn_modify (s : Page) (i j : SocketId) (f : WebSocket → WebSocket) :
    (s.modify i f).sentOn j =
      if j = i then ((s.sockets i).map fun w => (f w).sent).getD [] else s.sentOn j := by
  rw [sentOn, sockets_modify]
  split
  · rw [Option.map_map]
    rfl
  · rfl

theorem sentOn_modify_same (s : Page) (i : SocketId) {f : WebSocket → WebSocket}
    (hf : ∀ w, (f w).sent = w.sent) : (s.modify i f).sentOn = s.sentOn := by
  ext1 j
  rw [sentOn_modify]
  split
  · next hj =>
    simp only [hf, hj]
    rfl
  · rfl

theorem Talks.connected {s s' : Page} (h : Talks s s') : s'.connected ↔ s.connected := by
  rw [Page.connected, Page.connected, wsReadyState, wsReadyState, h.ws, h.readyState]

/-- The socket on which a connected client sends. -/
theorem connected_iff {s : Page} :
    s.connected ↔ ∃ i, s.ws = some i ∧ s.readyState i = some .opened :=
  Option.bind_eq_some_iff

/-- The page has sent the messages on the socket that `#ws` named. -/
def Sends (ws : Option SocketId) (msgs : List Message) (s s' : Page) : Prop :=
  ∀ j, s'.sentOn j = if ws = some j then s.sentOn j ++ msgs else s.sentOn j

theorem sends_of_same {ws : Option SocketId} {s s' : Page} (h : s'.sentOn = s.sentOn) :
    Sends ws [] s s' := by
  intro j
  rw [h, List.append_nil, ite_self]

theorem Sends.trans {ws : Option SocketId} {msgs msgs' : List Message} {s s' s'' : Page}
    (h : Sends ws msgs s s') (h' : Sends ws msgs' s' s'') : Sends ws (msgs ++ msgs') s s'' := by
  intro j
  rw [h' j, h j]
  split
  · rw [List.append_assoc]
  · rfl

theorem sends_transmit {s : Page} (hc : s.connected) (msg : Message) :
    Sends s.ws [msg] s (s.transmit msg) := by
  intro j
  obtain ⟨i, hws, hopen⟩ := connected_iff.mp hc
  obtain ⟨w, hw, -⟩ := Option.map_eq_some_iff.mp hopen
  simp only [transmit, hws, sentOn_modify, Option.some_inj, eq_comm (a := i)]
  split
  · next h => simp [sentOn, h, hw, WebSocket.send]
  · rfl

/-- The message of `send`, and the page once it is there. -/
def drawn (type : MessageType) (room : RoomName) (payload : Option String)
    (msgId : Option UUID) (s : Page) : Message × Page :=
  (s.register type room payload).message type room payload msgId

section
variable {s : Page} {type : MessageType} {room : RoomName}

theorem talks_drawn (s : Page) (type : MessageType) (room : RoomName) (payload : Option String)
    (msgId : Option UUID) : Talks s (s.drawn type room payload msgId).2 :=
  (talks_register s type room payload).trans (talks_message _ type room payload msgId)

/-- The message is the one that was asked for, and nothing has been sent or queued
yet. -/
theorem drawn_spec (s : Page) (type : MessageType) (room : RoomName) (payload : Option String)
    (msgId : Option UUID) :
    (s.drawn type room payload msgId).1.type = type ∧
      (s.drawn type room payload msgId).1.room = room ∧
      (s.drawn type room payload msgId).2.sentOn = s.sentOn ∧
      (s.drawn type room payload msgId).2.pendingQueue = s.pendingQueue := by
  cases type <;> cases msgId <;> exact ⟨rfl, rfl, rfl, rfl⟩

theorem send_connected (hc : s.connected)
    (hroom : ¬(type = .join ∧ room ∉ s.joinedRooms.map Prod.fst ∧
      MAX_ROOMS ≤ s.joinedRooms.length)) (payload : Option String) (msgId : Option UUID) :
    (s.send type room payload msgId).1 =
      (s.drawn type room payload msgId).2.transmit (s.drawn type room payload msgId).1 := by
  have hdrawn := (talks_drawn s type room payload msgId).connected.mpr hc
  rw [send, if_neg hroom]
  exact congrArg Prod.fst (if_pos hdrawn)

theorem send_offline (hc : ¬s.connected)
    (hroom : ¬(type = .join ∧ room ∉ s.joinedRooms.map Prod.fst ∧
      MAX_ROOMS ≤ s.joinedRooms.length)) (payload : Option String) (msgId : Option UUID) :
    (s.send type room payload msgId).1 =
      (s.drawn type room payload msgId).2.enqueue (s.drawn type room payload msgId).1 := by
  have hdrawn := mt (talks_drawn s type room payload msgId).connected.mp hc
  rw [send, if_neg hroom]
  exact congrArg Prod.fst (if_neg hdrawn)

end

theorem keys_setRoom {rooms : List (RoomName × Option String)} {room : RoomName}
    (hroom : room ∈ rooms.map Prod.fst) (payload : Option String) :
    (setRoom rooms room payload).map Prod.fst = rooms.map Prod.fst := by
  rw [setRoom, if_pos hroom, List.map_map]
  apply List.map_congr_left
  intro entry _
  dsimp only [Function.comp_apply]
  split
  · next h => exact h.symm
  · rfl

@[simp] theorem sentOn_emit (s : Page) (e : Event) : (s.emit e).sentOn = s.sentOn := rfl

@[simp] theorem pendingQueue_transmit (s : Page) (msg : Message) :
    (s.transmit msg).pendingQueue = s.pendingQueue := by
  rw [transmit]
  split <;> rfl

@[simp] theorem joinedRooms_transmit (s : Page) (msg : Message) :
    (s.transmit msg).joinedRooms = s.joinedRooms := by
  rw [transmit]
  split <;> rfl

/-- Joining a room again sends a join if the client is connected, and nothing else
comes of it. -/
theorem send_join {s : Page} {entry : RoomName × Option String}
    (hroom : entry.1 ∈ s.joinedRooms.map Prod.fst) :
    ∃ msgs, List.Forall₂ Message.Joins (if s.connected then [entry] else []) msgs ∧
      Sends s.ws msgs s (s.send .join entry.1 entry.2 none).1 ∧
      (s.send .join entry.1 entry.2 none).1.pendingQueue = s.pendingQueue ∧
      (s.send .join entry.1 entry.2 none).1.joinedRooms.map Prod.fst =
        s.joinedRooms.map Prod.fst := by
  have hkeys : (s.drawn .join entry.1 entry.2 none).2.joinedRooms.map Prod.fst =
      s.joinedRooms.map Prod.fst := keys_setRoom hroom entry.2
  have hdrawn : Sends s.ws [] s (s.drawn .join entry.1 entry.2 none).2 := sends_of_same rfl
  by_cases hc : s.connected
  · rw [send_connected hc (fun h => h.2.1 hroom), if_pos hc]
    refine ⟨[(s.drawn .join entry.1 entry.2 none).1], .cons ⟨rfl, rfl, rfl⟩ .nil, ?_, ?_, ?_⟩
    · exact hdrawn.trans (sends_transmit (s := (s.drawn .join entry.1 entry.2 none).2) hc _)
    · rw [pendingQueue_transmit]
      rfl
    · rw [joinedRooms_transmit]
      exact hkeys
  · have henqueue : (s.drawn .join entry.1 entry.2 none).2.enqueue
        (s.drawn .join entry.1 entry.2 none).1 = (s.drawn .join entry.1 entry.2 none).2 := by
      rw [enqueue, if_neg]
      simp [drawn, message]
    rw [send_offline hc (fun h => h.2.1 hroom), if_neg hc, henqueue]
    exact ⟨[], .nil, hdrawn, rfl, hkeys⟩

/-- The loop sends a join for each of the rooms. -/
theorem rejoin_sends {rooms : List (RoomName × Option String)} {s : Page}
    (hrooms : ∀ entry ∈ rooms, entry.1 ∈ s.joinedRooms.map Prod.fst) :
    ∃ msgs, List.Forall₂ Message.Joins (if s.connected then rooms else []) msgs ∧
      Sends s.ws msgs s (rejoin rooms s) ∧ (rejoin rooms s).pendingQueue = s.pendingQueue := by
  induction rooms generalizing s with
  | nil => exact ⟨[], by simp, sends_of_same rfl, rfl⟩
  | cons entry rooms ih =>
      obtain ⟨first, hfirst, hsends, hqueue, hkeys⟩ := send_join (hrooms entry (by simp))
      have htalks := talks_send s .join entry.1 entry.2 none
      obtain ⟨rest, hrest, hsends', hqueue'⟩ := ih (s := (s.send .join entry.1 entry.2 none).1)
        (fun e he => hkeys ▸ hrooms e (List.mem_cons_of_mem _ he))
      rw [htalks.ws] at hsends'
      refine ⟨first ++ rest, ?_, hsends.trans hsends', hqueue'.trans hqueue⟩
      by_cases hc : s.connected
      · rw [if_pos (htalks.connected.mpr hc)] at hrest
        rw [if_pos hc] at hfirst ⊢
        exact List.rel_append hfirst hrest
      · rw [if_neg fun h => hc (htalks.connected.mp h)] at hrest
        rw [if_neg hc] at hfirst ⊢
        exact List.rel_append hfirst hrest

/-- The joins that a socket's opening sends. -/
theorem rejoinRooms_sends (s : Page) :
    ∃ msgs, List.Forall₂ Message.Joins
        (if s.connected ∧ s.reconnecting = true then s.joinedRooms else []) msgs ∧
      Sends s.ws msgs s s.rejoinRooms ∧ s.rejoinRooms.pendingQueue = s.pendingQueue := by
  by_cases h : s.reconnecting = true ∧ s.joinedRooms ≠ []
  · have heq : s.rejoinRooms = { rejoin s.joinedRooms s with reconnecting := false } := if_pos h
    obtain ⟨msgs, hjoins, hsends, hqueue⟩ := rejoin_sends (fun e he => List.mem_map_of_mem he)
    rw [heq]
    refine ⟨msgs, ?_, hsends, hqueue⟩
    simpa only [h.1, and_true] using hjoins
  · have heq : s.rejoinRooms = s := if_neg h
    have hnil : (if s.connected ∧ s.reconnecting = true then s.joinedRooms else []) = [] := by
      split
      · next hc =>
        by_contra hne
        exact h ⟨hc.2, hne⟩
      · rfl
    rw [heq, hnil]
    exact ⟨[], .nil, sends_of_same rfl, rfl⟩

theorem flush_sends (queue : List (RoomName × Message)) (s : Page) :
    Sends s.ws (if s.connected then queue.map Prod.snd else []) s (flush queue s) := by
  induction queue generalizing s with
  | nil =>
      rw [List.map_nil, ite_self]
      exact sends_of_same rfl
  | cons entry queue ih =>
      rw [flush]
      by_cases hc : s.connected
      · have htalks := talks_transmit s entry.2
        have hrest := ih (s.transmit entry.2)
        rw [if_pos (htalks.connected.mpr hc), htalks.ws] at hrest
        rw [if_pos hc, if_pos hc]
        exact (sends_transmit hc entry.2).trans hrest
      · have hrest := ih s
        rw [if_neg hc] at hrest ⊢
        rw [if_neg hc]
        exact hrest

theorem flush_pendingQueue (queue : List (RoomName × Message)) (s : Page) :
    (flush queue s).pendingQueue = s.pendingQueue := by
  induction queue generalizing s with
  | nil => rfl
  | cons entry queue ih =>
      rw [flush, ih]
      split
      · exact pendingQueue_transmit s entry.2
      · rfl

theorem flushQueue_sends (s : Page) :
    Sends s.ws (if s.connected then s.pendingQueue.map Prod.snd else []) s s.flushQueue :=
  flush_sends s.pendingQueue { s with pendingQueue := [] }

theorem pendingQueue_onopen (s : Page) (i : SocketId) : (s.onopen i).pendingQueue = [] :=
  flush_pendingQueue _ _

/-- **What the opening of a socket sends**, on the socket of `#ws`: the joins, then
the queue. -/
theorem onopen_sends (s : Page) (i : SocketId) :
    ∃ msgs, List.Forall₂ Message.Joins
        (if s.connected ∧ s.reconnecting = true then s.joinedRooms else []) msgs ∧
      Sends s.ws (msgs ++ if s.connected then s.pendingQueue.map Prod.snd else []) s
        (s.onopen i) := by
  have htalks := talks_opening s i
  have hsame : Sends s.ws [] s (s.opening i) := sends_of_same (sentOn_modify_same s i fun _ => rfl)
  have htalks' := htalks.trans (talks_rejoinRooms (s.opening i))
  obtain ⟨msgs, hjoins, hsends, hqueue⟩ := rejoinRooms_sends (s.opening i)
  have hflush := flushQueue_sends (s.opening i).rejoinRooms
  have hreconnecting : (s.opening i).reconnecting = s.reconnecting := rfl
  have hrooms : (s.opening i).joinedRooms = s.joinedRooms := rfl
  have hpending : (s.opening i).pendingQueue = s.pendingQueue := rfl
  rw [hreconnecting, hrooms] at hjoins
  rw [htalks.ws] at hsends
  simp only [htalks'.connected, hqueue, hpending, htalks'.ws] at hflush
  refine ⟨msgs, ?_, ?_⟩
  · simpa only [htalks.connected] using hjoins
  · exact (hsame.trans hsends).trans hflush

/-! ### What the runs keep -/

/-- Nothing is sent on a socket before it opens, and a connected client has
nothing queued. -/
structure Queues (s : Page) : Prop where
  unsent : ∀ i, s.readyState i = some .connecting → s.sentOn i = []
  empty : s.connected → s.pendingQueue = []
  tags : ∀ entry ∈ s.pendingQueue, entry.1 = entry.2.room ∧ entry.2.type ≠ .join

theorem queues_new : Queues .new := by
  refine ⟨?_, ?_, ?_⟩ <;> simp [new, readyState]

/-- What leaves the queue and the sent messages alone keeps the invariant, unless
it connects. -/
theorem Queues.quiet {s s' : Page} (hs : Queues s) (hsent : s'.sentOn = s.sentOn)
    (hqueue : s'.pendingQueue = s.pendingQueue)
    (hready : ∀ i, s'.readyState i = some .connecting → s.readyState i = some .connecting)
    (hconnected : s'.connected → s.connected) : Queues s' where
  unsent i hi := hsent ▸ hs.unsent i (hready i hi)
  empty hc := hqueue ▸ hs.empty (hconnected hc)
  tags := hqueue ▸ hs.tags

theorem Queues.talks {s s' : Page} (hs : Queues s) (h : Talks s s') (hsent : s'.sentOn = s.sentOn)
    (hqueue : s'.pendingQueue = s.pendingQueue) : Queues s' :=
  hs.quiet hsent hqueue (fun _ hi => h.readyState ▸ hi) h.connected.mp

theorem Queues.setReady {s : Page} (hs : Queues s) (i : SocketId) {r : ReadyState}
    (hr : r ≠ .connecting ∧ r ≠ .opened) : Queues (s.setReady i r) := by
  have hready : ∀ j r', r' ≠ r → (s.setReady i r).readyState j = some r' →
      s.readyState j = some r' := by
    intro j r' hne hj
    rw [Page.setReady, readyState_modify] at hj
    split at hj
    · obtain ⟨w, -, hw⟩ := Option.map_eq_some_iff.mp hj
      exact absurd hw.symm hne
    · exact hj
  refine hs.quiet (sentOn_modify_same s i fun _ => rfl) rfl
    (fun j hj => hready j _ hr.1.symm hj) fun hc => ?_
  obtain ⟨j, hws, hj⟩ := connected_iff.mp hc
  exact connected_iff.mpr ⟨j, hws, hready j _ hr.2.symm hj⟩

theorem queues_connect {s : Page} (hs : Queues s) : Queues s.connect := by
  have hready : s.connect.readyState s.created = some .connecting := by
    simp [readyState, connect, WebSocket.new]
  refine ⟨fun i hi => ?_, fun hc => ?_, hs.tags⟩
  · by_cases h : i = s.created
    · subst h
      simp [sentOn, connect, WebSocket.new]
    · have hsocket : s.connect.sockets i = s.sockets i := Function.update_of_ne h ..
      rw [readyState, hsocket] at hi
      rw [sentOn, hsocket]
      exact hs.unsent i hi
  · obtain ⟨j, hws, hj⟩ := connected_iff.mp hc
    obtain rfl : s.created = j := Option.some.inj hws
    rw [hready] at hj
    cases hj

theorem queues_disconnect {s : Page} (hs : Queues s) : Queues s.disconnect := by
  have hws : s.disconnect.ws = none := by
    rw [disconnect]
    split
    · next h => exact h
    · rfl
  have hqueue : s.disconnect.pendingQueue = [] := by
    rw [disconnect]
    split <;> rfl
  have hsent : s.disconnect.sentOn = s.sentOn := by
    rw [disconnect]
    split
    · rfl
    · exact sentOn_modify_same _ _ WebSocket.sent_close
  refine ⟨fun i hi => ?_, fun _ => hqueue, by simp [hqueue]⟩
  rw [hsent]
  refine hs.unsent i ?_
  rw [disconnect] at hi
  split at hi
  · exact hi
  · next j _ =>
    have hclose : (Page.modify j .close { s.clearReconnect with
        joinedRooms := [], pendingQueue := [] }).readyState i = some .connecting := hi
    rw [readyState_modify] at hclose
    split at hclose
    · obtain ⟨w, -, hw⟩ := Option.map_eq_some_iff.mp hclose
      exact absurd hw w.readyState_close
    · exact hclose

/-- What is sent goes to a socket that is open. -/
theorem Queues.transmit {s : Page} (hs : Queues s) (hc : s.connected) (msg : Message) :
    Queues (s.transmit msg) := by
  have htalks := talks_transmit s msg
  refine ⟨fun i hi => ?_, fun _ => ?_, ?_⟩
  · rw [htalks.readyState] at hi
    rw [sends_transmit hc msg i, if_neg, hs.unsent i hi]
    intro hws
    obtain ⟨j, hj, hopen⟩ := connected_iff.mp hc
    obtain rfl : i = j := Option.some.inj (hws.symm.trans hj)
    rw [hi] at hopen
    cases hopen
  · rw [pendingQueue_transmit]
    exact hs.empty hc
  · rw [pendingQueue_transmit]
    exact hs.tags

theorem Queues.enqueue {s : Page} (hs : Queues s) (hc : ¬s.connected) (msg : Message) :
    Queues (s.enqueue msg) := by
  have htalks := talks_enqueue s msg
  refine ⟨fun i hi => ?_, fun h => absurd (htalks.connected.mp h) hc, ?_⟩
  · rw [htalks.readyState] at hi
    have hsent : (s.enqueue msg).sentOn = s.sentOn := by
      rw [Page.enqueue]
      split
      · split <;> rfl
      · rfl
    rw [hsent]
    exact hs.unsent i hi
  · rw [Page.enqueue]
    split
    · next htype =>
      split
      · intro entry hentry
        rcases List.mem_append.mp hentry with hentry | hentry
        · exact hs.tags entry hentry
        · obtain rfl := List.mem_singleton.mp hentry
          refine ⟨rfl, ?_⟩
          rcases htype with h | h <;> simp [h]
      · exact hs.tags
    · exact hs.tags

theorem queues_send {s : Page} (hs : Queues s) (type : MessageType) (room : RoomName)
    (payload : Option String) (msgId : Option UUID) :
    Queues (s.send type room payload msgId).1 := by
  have htalks := talks_send s type room payload msgId
  by_cases hroom : type = .join ∧ room ∉ s.joinedRooms.map Prod.fst ∧
      MAX_ROOMS ≤ s.joinedRooms.length
  · have heq : (s.send type room payload msgId).1 = s.emit .maxRooms := by
      rw [send, if_pos hroom]
    rw [heq]
    exact hs.talks (talks_emit s (by simp)) rfl rfl
  obtain ⟨htype, hroomEq, hsent, hqueue⟩ := drawn_spec s type room payload msgId
  have hdrawn := talks_drawn s type room payload msgId
  have hs₁ := hs.talks hdrawn hsent hqueue
  by_cases hc : s.connected
  · rw [send_connected hc hroom]
    exact hs₁.transmit (hdrawn.connected.mpr hc) _
  · rw [send_offline hc hroom]
    exact hs₁.enqueue (mt hdrawn.connected.mp hc) _

theorem queues_opened {s : Page} (hs : Queues s) (i : SocketId) :
    Queues ((s.setReady i .opened).onopen i) := by
  have htalks := talks_onopen (s.setReady i .opened) i
  have hqueue := pendingQueue_onopen (s.setReady i .opened) i
  obtain ⟨msgs, hjoins, hsends⟩ := onopen_sends (s.setReady i .opened) i
  have hsent : (s.setReady i .opened).sentOn = s.sentOn := sentOn_modify_same s i fun _ => rfl
  refine ⟨fun j hj => ?_, fun _ => hqueue, by simp [hqueue]⟩
  rw [htalks.readyState, Page.setReady, readyState_modify] at hj
  split at hj
  · obtain ⟨w, -, hw⟩ := Option.map_eq_some_iff.mp hj
    cases hw
  · next hne =>
    have hunsent := hs.unsent j hj
    rw [hsends j, hsent, hunsent, List.nil_append]
    split
    · next hws =>
      -- The client's own socket is still connecting, so nothing can be sent.
      have hconnected : ¬(s.setReady i .opened).connected := by
        rw [connected_iff]
        rintro ⟨k, hk, hopen⟩
        obtain rfl : j = k := Option.some.inj (hws.symm.trans hk)
        rw [Page.setReady, readyState_modify, if_neg hne, hj] at hopen
        cases hopen
      simp only [hconnected, false_and, if_false] at hjoins ⊢
      rw [List.forall₂_nil_left_iff.mp hjoins, List.append_nil]
    · rfl

theorem sentOn_serve (s : Page) (peers : Finset SocketId) (data : Option ServerData) :
    (s.serve peers data).sentOn = s.sentOn := by
  ext1 i
  simp only [sentOn, serve]
  split
  · rw [Option.map_map]
    rfl
  · rfl

theorem onclose_keeps (s : Page) (i : SocketId) :
    (s.onclose i).sentOn = s.sentOn ∧ (s.onclose i).pendingQueue = s.pendingQueue := by
  rw [onclose]
  split
  · rw [attemptReconnect]
    split
    · exact ⟨rfl, rfl⟩
    · split <;> exact ⟨rfl, rfl⟩
  · exact ⟨rfl, rfl⟩

theorem welcome_keeps (s : Page) (data : ServerData) :
    (s.welcome data).sockets = s.sockets ∧ (s.welcome data).ws = s.ws ∧
      (s.welcome data).pendingQueue = s.pendingQueue := by
  rw [welcome]
  split
  · split <;> exact ⟨rfl, rfl, rfl⟩
  · exact ⟨rfl, rfl, rfl⟩

theorem onmessage_keeps (s : Page) (m : ServerMessage) :
    (s.onmessage m).sockets = s.sockets ∧ (s.onmessage m).ws = s.ws ∧
      (s.onmessage m).pendingQueue = s.pendingQueue := by
  rw [onmessage]
  split
  · exact ⟨rfl, rfl, rfl⟩
  · dsimp only
    split
    · exact welcome_keeps s _
    · exact welcome_keeps s _

theorem queues_message {s : Page} (hs : Queues s) (i : SocketId) (rest : List ServerMessage)
    (m : ServerMessage) :
    Queues ((s.modify i fun w => { w with inbound := rest }).onmessage m) := by
  have htake : Queues (s.modify i fun w => { w with inbound := rest }) := by
    refine hs.quiet (sentOn_modify_same s i fun _ => rfl) rfl (fun j hj => ?_) fun hc => ?_
    · exact readyState_take s i rest ▸ hj
    · rwa [Page.connected, wsReadyState, readyState_take] at hc
  obtain ⟨hsockets, hws, hqueue⟩ :=
    onmessage_keeps (s.modify i fun w => { w with inbound := rest }) m
  refine htake.quiet ?_ hqueue (fun j hj => ?_) fun hc => ?_
  · ext1 j
    rw [sentOn, hsockets, sentOn]
  · rwa [readyState, hsockets] at hj
  · obtain ⟨j, hj, hopen⟩ := connected_iff.mp hc
    rw [readyState, hsockets] at hopen
    exact connected_iff.mpr ⟨j, hws ▸ hj, hopen⟩

theorem queues_closed {s : Page} (hs : Queues s) (i : SocketId) :
    Queues (((s.setReady i .closed).modify i fun w => { w with closeFired := true }).onclose i) := by
  have hclosed := hs.setReady i (r := .closed) (by simp)
  have hfired : Queues ((s.setReady i .closed).modify i fun w => { w with closeFired := true }) :=
    hclosed.talks (talks_modify _ i (fun _ => rfl) (fun _ => rfl))
      (sentOn_modify_same _ i fun _ => rfl) rfl
  have htalks := talks_onclose
    ((s.setReady i .closed).modify i fun w => { w with closeFired := true }) i
  obtain ⟨hsent, hqueue⟩ := onclose_keeps
    ((s.setReady i .closed).modify i fun w => { w with closeFired := true }) i
  exact hfired.quiet hsent hqueue (fun j hj => htalks.readyState ▸ hj) htalks.connected.mp

theorem queues_step {s s' : Page} {a : SocketAction} (hs : Queues s)
    (hstep : s.step a = some s') : Queues s' := by
  cases a with
  | connect =>
      obtain rfl := Option.some.inj hstep
      exact queues_connect hs
  | disconnect =>
      obtain rfl := Option.some.inj hstep
      exact queues_disconnect hs
  | send type room payload msgId =>
      obtain rfl := Option.some.inj hstep
      exact queues_send hs type room payload msgId
  | opened i =>
      rw [step, Option.ite_none_right_eq_some, Option.some_inj] at hstep
      obtain ⟨-, rfl⟩ := hstep
      exact queues_opened hs i
  | error i =>
      rw [step, Option.ite_none_right_eq_some, Option.some_inj] at hstep
      obtain ⟨-, rfl⟩ := hstep
      exact (hs.setReady i (by simp)).talks (talks_onerror _ i)
        (sentOn_modify_same _ i fun _ => rfl) rfl
  | closing i =>
      rw [step, Option.ite_none_right_eq_some, Option.some_inj] at hstep
      obtain ⟨-, rfl⟩ := hstep
      exact hs.setReady i (by simp)
  | closed i =>
      rw [step, Option.ite_none_right_eq_some, Option.some_inj] at hstep
      obtain ⟨-, rfl⟩ := hstep
      exact queues_closed hs i
  | timer t =>
      obtain ⟨-, rfl⟩ := timer_step hstep
      have htimer : Queues { s with timers := s.timers.filter (· ≠ t) } :=
        hs.quiet rfl rfl (fun _ h => h) (fun h => h)
      exact queues_connect htimer
  | serve peers data =>
      obtain rfl := Option.some.inj hstep
      have hready := readyState_serve s peers data
      refine hs.quiet (sentOn_serve s peers data) rfl (fun j hj => hready ▸ hj) fun hc => ?_
      rwa [Page.connected, wsReadyState, hready] at hc
  | message i =>
      obtain ⟨w, m, rest, -, -, -, rfl⟩ := message_step hstep
      exact queues_message hs i rest m
  | tick =>
      obtain rfl := Option.some.inj hstep
      exact hs.quiet rfl rfl (fun _ h => h) (fun h => h)

/-! ### The law -/

theorem exists_joins {rooms : List (RoomName × Option String)} {msgs : List Message}
    (h : List.Forall₂ Message.Joins rooms msgs) {entry : RoomName × Option String}
    (hentry : entry ∈ rooms) : ∃ m ∈ msgs, m.Joins entry := by
  induction h with
  | nil => cases hentry
  | cons hm _ ih =>
      rcases List.mem_cons.mp hentry with rfl | hentry
      · exact ⟨_, List.mem_cons_self, hm⟩
      · obtain ⟨m, hmem, hjoins⟩ := ih hentry
        exact ⟨m, List.mem_cons_of_mem _ hmem, hjoins⟩

theorem exists_room {rooms : List (RoomName × Option String)} {msgs : List Message}
    (h : List.Forall₂ Message.Joins rooms msgs) {m : Message} (hm : m ∈ msgs) :
    ∃ entry ∈ rooms, m.Joins entry := by
  induction h with
  | nil => cases hm
  | cons hjoins _ ih =>
      rcases List.mem_cons.mp hm with rfl | hm
      · exact ⟨_, List.mem_cons_self, hjoins⟩
      · obtain ⟨entry, hmem, hjoins⟩ := ih hm
        exact ⟨entry, List.mem_cons_of_mem _ hmem, hjoins⟩

/-- A message that is not among the first ones comes after all of them. -/
theorem subset_of_append {first rest before after : List Message} {m : Message} (hm : m ∉ first)
    (h : first ++ rest = before ++ m :: after) : first ⊆ before := by
  rcases List.append_eq_append_iff.mp h with ⟨c, rfl, -⟩ | ⟨c, rfl, hc⟩
  · exact List.subset_append_left _ _
  · cases c with
    | nil => simp
    | cons x c =>
        obtain rfl : m = x := (List.cons.inj hc).1
        exact absurd (by simp) hm

/-- What a step leaves as it was, nothing has been appended to. -/
theorem ne_append_cons {sent before after : List Message} {m : Message} :
    sent ≠ sent ++ before ++ m :: after := by
  intro h
  have hlength := congrArg List.length h
  simp only [List.length_append, List.length_cons] at hlength
  omega

section
variable {s : Page} {i : SocketId}

/-- The client's own socket opens: the joins are sent on it, then the queue. -/
theorem opened_own (hs : Queues s) (hi : s.readyState i = some .connecting)
    (hws : s.ws = some i) :
    ∃ msgs, List.Forall₂ Message.Joins (if s.reconnecting = true then s.joinedRooms else []) msgs ∧
      ((s.setReady i .opened).onopen i).sentOn i = msgs ++ s.pendingQueue.map Prod.snd ∧
      ∀ j, j ≠ i → ((s.setReady i .opened).onopen i).sentOn j = s.sentOn j := by
  have hsent : (s.setReady i .opened).sentOn = s.sentOn := sentOn_modify_same s i fun _ => rfl
  have hconnected : (s.setReady i .opened).connected := by
    obtain ⟨w, hw, -⟩ := Option.map_eq_some_iff.mp hi
    exact connected_iff.mpr ⟨i, hws, by simp [setReady, hw]⟩
  obtain ⟨msgs, hjoins, hsends⟩ := onopen_sends (s.setReady i .opened) i
  simp only [hconnected, true_and, if_true] at hjoins hsends
  refine ⟨msgs, hjoins, ?_, fun j hj => ?_⟩
  · refine ((hsends i).trans (if_pos hws)).trans ?_
    rw [hsent, hs.unsent i hi]
    rfl
  · have hne : s.ws ≠ some j := fun h => hj (Option.some.inj (h.symm.trans hws))
    exact ((hsends j).trans (if_neg hne)).trans (congrFun hsent j)

/-- Another socket opens: nothing is sent on it, and nothing is flushed. -/
theorem opened_other (hs : Queues s) (hi : s.readyState i = some .connecting)
    (hws : s.ws ≠ some i) :
    ((s.setReady i .opened).onopen i).sentOn i = [] ∧
      (s.pendingQueue ≠ [] → ((s.setReady i .opened).onopen i).sentOn = s.sentOn) := by
  have hsent : (s.setReady i .opened).sentOn = s.sentOn := sentOn_modify_same s i fun _ => rfl
  obtain ⟨msgs, hjoins, hsends⟩ := onopen_sends (s.setReady i .opened) i
  constructor
  · refine ((hsends i).trans (if_neg hws)).trans ?_
    rw [hsent, hs.unsent i hi]
  · intro hqueue
    have hconnected : ¬(s.setReady i .opened).connected := by
      intro hc
      obtain ⟨j, hj, hopen⟩ := connected_iff.mp hc
      have hne : j ≠ i := fun h => hws (h ▸ hj)
      rw [setReady, readyState_modify, if_neg hne] at hopen
      exact hqueue (hs.empty (connected_iff.mpr ⟨j, hj, hopen⟩))
    simp only [hconnected, false_and, if_false] at hjoins hsends
    obtain rfl := List.forall₂_nil_left_iff.mp hjoins
    ext1 j
    rw [hsends j, hsent, List.append_nil, List.append_nil, ite_self]

/-- A queued message is no join. -/
theorem Queues.not_joins (hs : Queues s) {m : Message} (hm : m ∈ s.pendingQueue.map Prod.snd) :
    m.type ≠ .join := by
  obtain ⟨entry, hentry, rfl⟩ := List.mem_map.mp hm
  exact (hs.tags entry hentry).2

theorem covered_of_rejoins (hs : Queues s) (hi : s.readyState i = some .connecting)
    (h : Rejoins s i ((s.setReady i .opened).onopen i)) : Covered s (.opened i) := by
  constructor
  · intro hrooms
    obtain ⟨entry, hentry⟩ := List.exists_mem_of_ne_nil _ hrooms
    obtain ⟨m, hm, hjoins⟩ := h.joins entry hentry
    have hws : s.ws = some i := by
      by_contra hws
      rw [(opened_other hs hi hws).1] at hm
      cases hm
    obtain ⟨msgs, hmsgs, hsent, -⟩ := opened_own hs hi hws
    refine ⟨hws, ?_⟩
    rw [hsent, List.mem_append] at hm
    rcases hm with hm | hm
    · by_contra hreconnecting
      rw [if_neg hreconnecting] at hmsgs
      obtain rfl := List.forall₂_nil_left_iff.mp hmsgs
      cases hm
    · exact absurd hjoins.type (hs.not_joins hm)
  · intro hws entry hentry
    obtain ⟨msgs, hmsgs, hsent, -⟩ := opened_own hs hi hws
    obtain ⟨q₁, q₂, hq⟩ := List.append_of_mem hentry
    have hsplit : ((s.setReady i .opened).onopen i).sentOn i =
        s.sentOn i ++ (msgs ++ q₁.map Prod.snd) ++ entry.2 :: q₂.map Prod.snd := by
      rw [hsent, hs.unsent i hi, hq]
      simp
    obtain ⟨m, hm, htype, hroom⟩ := h.flushed entry hentry i _ _ hsplit
    rw [hs.unsent i hi, List.nil_append, List.mem_append] at hm
    rcases hm with hm | hm
    · obtain ⟨joined, hjoined, hjoins⟩ := exists_room hmsgs hm
      have hmem : joined ∈ s.joinedRooms := by
        split at hjoined
        · exact hjoined
        · cases hjoined
      have hname : entry.1 = joined.1 :=
        (hs.tags entry hentry).1.trans (hroom.symm.trans hjoins.room)
      exact hname ▸ List.mem_map_of_mem hmem
    · refine absurd htype (hs.not_joins ?_)
      rw [hq, List.map_append]
      exact List.mem_append_left _ hm

theorem rejoins_of_covered (hs : Queues s) (hi : s.readyState i = some .connecting)
    (h : Covered s (.opened i)) : Rejoins s i ((s.setReady i .opened).onopen i) := by
  constructor
  · intro entry hentry
    obtain ⟨hws, hreconnecting⟩ := h.1 (List.ne_nil_of_mem hentry)
    obtain ⟨msgs, hmsgs, hsent, -⟩ := opened_own hs hi hws
    rw [if_pos hreconnecting] at hmsgs
    obtain ⟨m, hm, hjoins⟩ := exists_joins hmsgs hentry
    rw [hsent]
    exact ⟨m, List.mem_append_left _ hm, hjoins⟩
  · intro entry hentry j before after hsplit
    by_cases hws : s.ws = some i
    · obtain ⟨msgs, hmsgs, hsent, hothers⟩ := opened_own hs hi hws
      by_cases hj : j = i
      · subst hj
        obtain ⟨joined, hjoined, hname⟩ := List.mem_map.mp (h.2 hws entry hentry)
        rw [if_pos (h.1 (List.ne_nil_of_mem hjoined)).2] at hmsgs
        obtain ⟨m, hm, hjoins⟩ := exists_joins hmsgs hjoined
        have hnot : entry.2 ∉ msgs := by
          intro hmem
          obtain ⟨_, -, hentryJoins⟩ := exists_room hmsgs hmem
          exact (hs.tags entry hentry).2 hentryJoins.type
        rw [hs.unsent j hi, List.nil_append] at hsplit ⊢
        rw [hsent] at hsplit
        refine ⟨m, subset_of_append hnot hsplit hm, hjoins.type, ?_⟩
        exact hjoins.room.trans (hname.trans (hs.tags entry hentry).1)
      · exact absurd ((hothers j hj).symm.trans hsplit) ne_append_cons
    · have hsent := (opened_other hs hi hws).2 (List.ne_nil_of_mem hentry)
      exact absurd ((congrFun hsent j).symm.trans hsplit) ne_append_cons

end

theorem rejoinsFirst_iff_covered {s s' : Page} {a : SocketAction} (hs : Queues s)
    (hstep : s.step a = some s') : RejoinsFirst s a s' ↔ Covered s a := by
  cases a with
  | opened i =>
      rw [step, Option.ite_none_right_eq_some, Option.some_inj] at hstep
      obtain ⟨hi, rfl⟩ := hstep
      constructor
      · intro h
        exact covered_of_rejoins hs hi (h i rfl)
      · rintro h j hj
        obtain rfl := SocketAction.opened.inj hj
        exact rejoins_of_covered hs hi h
  | _ => exact ⟨fun _ => trivial, fun _ j hj => by cases hj⟩

/-- **Rejoin before flush.** In every run of a client, whenever a socket opens its
rooms are joined on it and what is then flushed belongs to rooms joined before, if
and only if every socket that opens is the client's own, opened by a reconnect
where a room is joined, with nothing queued for any other room. -/
theorem rejoin_before_flush (as : List SocketAction) :
    Along step RejoinsFirst new as ↔ Along step (fun s a _ => Covered s a) new as :=
  along_congr (P := RejoinsFirst) (Q := fun s a _ => Covered s a) (I := Queues)
    (fun _ _ _ hs _ hstep => queues_step hs hstep)
    (fun _ _ _ hs hstep => rejoinsFirst_iff_covered hs hstep) queues_new

/-- Chat is queued while the client is disconnected, and its room is left before
the reconnect. -/
def leaveAfterQueue : List SocketAction :=
  [.connect, .opened 0, .send .join "r" none none, .closed 0, .send .chat "r" (some "c") none,
    .send .leave "r" none none, .timer 0, .opened 1]

/-- **Chat is sent to a room that was not joined.** -/
theorem leaveAfterQueue_flushes : ¬∀ as, Along step RejoinsFirst new as := by
  intro h
  have hall := h leaveAfterQueue
  have hlast := ((((((((hall _ rfl).2 _ rfl).2 _ rfl).2 _ rfl).2 _ rfl).2 _ rfl).2 _ rfl).2 _ rfl).1
  obtain ⟨m, hm, -⟩ := (hlast 1 rfl).flushed ("r", ⟨2, 3, .chat, "r", some "c", 0⟩)
    (by decide) 1 [] [] rfl
  cases hm

end Page

end TrapChat.Client
