import TrapChat.Client.OfflineQueue

/-!
The rooms that a client asks a gateway for. `send` refuses a join beyond five rooms, and a
socket that opens joins the rooms again that are joined already; so nothing that has been
sent on a socket asks for more than five rooms, however much of it the gateway has read.
-/

namespace TrapChat.Client

open Storage Protocol Transition

/-- The rooms that are asked for, after one more message. -/
def asked (rooms : Finset RoomName) (m : Message) : Finset RoomName :=
  match m.type with
  | .join => insert m.room rooms
  | .leave => rooms.erase m.room
  | _ => rooms

def roomsAfter (msgs : List Message) : Finset RoomName := msgs.foldl asked ∅

theorem roomsAfter_concat (msgs : List Message) (m : Message) :
    roomsAfter (msgs ++ [m]) = asked (roomsAfter msgs) m :=
  List.foldl_concat ..

/-- Messages that ask for rooms of a set only. -/
theorem roomsAfter_append_subset {rooms : Finset RoomName} {msgs more : List Message}
    (h : roomsAfter msgs ⊆ rooms) (hmore : ∀ m ∈ more, m.type = .join → m.room ∈ rooms) :
    roomsAfter (msgs ++ more) ⊆ rooms := by
  induction more generalizing msgs with
  | nil => rwa [List.append_nil]
  | cons m more ih =>
      rw [List.append_cons]
      refine ih ?_ fun m' hm' => hmore m' (List.mem_cons_of_mem _ hm')
      rw [roomsAfter_concat, asked]
      split
      · next htype => exact Finset.insert_subset (hmore m List.mem_cons_self htype) h
      · exact (Finset.erase_subset _ _).trans h
      · exact h

namespace Page

/-- The names of the joined rooms. -/
def roomNames (s : Page) : Finset RoomName := (s.joinedRooms.map Prod.fst).toFinset

/-- At most five rooms are joined, and nothing that has been sent on a socket asks for more;
what has been sent on the one that is open asks for joined rooms only. -/
structure Modest (s : Page) : Prop where
  joined : s.joinedRooms.length ≤ MAX_ROOMS
  sent : ∀ i k, (roomsAfter ((s.sentOn i).take k)).card ≤ MAX_ROOMS
  current : ∀ i, s.ws = some i → s.readyState i = some .opened →
    roomsAfter (s.sentOn i) ⊆ s.roomNames
  unborn : ∀ i, s.created ≤ i → s.readyState i = none

/-- What has been sent stays sent. -/
structure Proceeds (s s' : Page) : Prop where
  modest : Modest s'
  sent : ∀ i, s.sentOn i <+: s'.sentOn i

variable {s s' : Page}

theorem card_roomNames (h : s.joinedRooms.length ≤ MAX_ROOMS) : s.roomNames.card ≤ MAX_ROOMS :=
  (List.toFinset_card_le _).trans (by rwa [List.length_map])

theorem modest_new : Modest new := by
  refine ⟨by simp [new], fun i k => ?_, fun i hi => (by cases hi), fun i _ => rfl⟩
  simp [new, sentOn, roomsAfter]

theorem Proceeds.trans {s'' : Page} (h : Proceeds s s') (h' : Proceeds s' s'') :
    Proceeds s s'' :=
  ⟨h'.modest, fun i => (h.sent i).trans (h'.sent i)⟩

/-- An action that sends nothing and joins nothing. -/
theorem Modest.quiet (hs : Modest s) (hsent : s'.sentOn = s.sentOn)
    (hrooms : s'.joinedRooms = s.joinedRooms) (hcreated : s'.created = s.created)
    (hready : ∀ i, s.readyState i = none → s'.readyState i = none)
    (hcurrent : ∀ i, s'.ws = some i → s'.readyState i = some .opened →
      s.ws = some i ∧ s.readyState i = some .opened) : Proceeds s s' := by
  refine ⟨⟨hrooms ▸ hs.joined, fun i k => hsent ▸ hs.sent i k, fun i hi hopen => ?_,
    fun i hi => hready i (hs.unborn i (hcreated ▸ hi))⟩, fun i => hsent ▸ List.prefix_rfl⟩
  obtain ⟨hws, hopened⟩ := hcurrent i hi hopen
  rw [hsent, roomNames, hrooms]
  exact hs.current i hws hopened

theorem Modest.talks (hs : Modest s) (h : Talks s s') (hsent : s'.sentOn = s.sentOn)
    (hrooms : s'.joinedRooms = s.joinedRooms) : Proceeds s s' :=
  hs.quiet hsent hrooms h.created (fun _ hi => h.readyState ▸ hi)
    fun _ hi hopen => ⟨h.ws ▸ hi, h.readyState ▸ hopen⟩

theorem readyState_setReady_none {i j : SocketId} {r : ReadyState}
    (h : s.readyState j = none) : (s.setReady i r).readyState j = none := by
  rw [setReady, readyState_modify]
  split
  · next hj =>
    rw [hj, readyState, Option.map_eq_none_iff] at h
    rw [h, Option.map_none]
  · exact h

/-- What is sent on the socket of `#ws` asks for joined rooms. -/
theorem Modest.sends (hs : Modest s) {msgs : List Message}
    (hjoined : s'.joinedRooms.length ≤ MAX_ROOMS) (htalks : Talks s s')
    (hsends : Sends s.ws msgs s s')
    (hasks : ∀ i k, s.ws = some i → msgs.take k ≠ [] →
      roomsAfter (s.sentOn i ++ msgs.take k) ⊆ s'.roomNames)
    (hidle : ∀ i, s.ws = some i → s.readyState i = some .opened → msgs = [] →
      roomsAfter (s.sentOn i) ⊆ s'.roomNames) : Proceeds s s' := by
  refine ⟨⟨hjoined, fun i k => ?_, fun i hi hopen => ?_, fun i hi => ?_⟩, fun i => ?_⟩
  · rw [hsends i]
    split
    · next hi =>
      rw [List.take_append]
      by_cases hnone : msgs.take (k - (s.sentOn i).length) = []
      · rw [hnone, List.append_nil]
        exact hs.sent i k
      · have hlt : 0 < k - (s.sentOn i).length := by
          refine Nat.pos_of_ne_zero fun hzero => hnone ?_
          rw [hzero, List.take_zero]
        rw [List.take_of_length_le (by omega)]
        exact (Finset.card_le_card (hasks i _ hi hnone)).trans (card_roomNames hjoined)
    · exact hs.sent i k
  · rw [htalks.ws] at hi
    rw [htalks.readyState] at hopen
    rw [hsends i, if_pos hi]
    by_cases hnone : msgs = []
    · rw [hnone, List.append_nil]
      exact hidle i hi hopen hnone
    · have hall : msgs.take msgs.length = msgs := List.take_length
      have hsub := hasks i msgs.length hi (hall.symm ▸ hnone)
      rwa [hall] at hsub
  · rw [htalks.readyState]
    exact hs.unborn i (htalks.created ▸ hi)
  · rw [hsends i]
    split
    · exact List.prefix_append _ _
    · exact List.prefix_rfl

theorem mem_roomNames {room : RoomName} :
    room ∈ s.roomNames ↔ room ∈ s.joinedRooms.map Prod.fst := List.mem_toFinset

theorem mem_names_setRoom {rooms : List (RoomName × Option String)} {room r : RoomName}
    {payload : Option String} :
    r ∈ (setRoom rooms room payload).map Prod.fst ↔ r = room ∨ r ∈ rooms.map Prod.fst := by
  by_cases hroom : room ∈ rooms.map Prod.fst
  · rw [keys_setRoom hroom]
    exact ⟨.inr, fun h => h.elim (fun h => h ▸ hroom) id⟩
  · rw [setRoom, if_neg hroom, List.map_append, List.mem_append, or_comm]
    simp

theorem length_setRoom {rooms : List (RoomName × Option String)} {room : RoomName}
    (h : ¬(room ∉ rooms.map Prod.fst ∧ MAX_ROOMS ≤ rooms.length)) (hle : rooms.length ≤ MAX_ROOMS)
    (payload : Option String) : (setRoom rooms room payload).length ≤ MAX_ROOMS := by
  rw [setRoom]
  split
  · rwa [List.length_map]
  · next hroom =>
    have hlt : rooms.length < MAX_ROOMS := Nat.lt_of_not_le fun hge => h ⟨hroom, hge⟩
    rw [List.length_append, List.length_singleton]
    exact hlt

/-- The joined rooms once the message of `send` is there. -/
theorem joinedRooms_drawn (s : Page) (type : MessageType) (room : RoomName)
    (payload : Option String) (msgId : Option UUID) :
    (s.drawn type room payload msgId).2.joinedRooms =
      (s.register type room payload).joinedRooms := by
  cases msgId <;> rfl

theorem modest_send (hs : Modest s) (type : MessageType) (room : RoomName)
    (payload : Option String) (msgId : Option UUID) :
    Proceeds s (s.send type room payload msgId).1 := by
  by_cases hroom : type = .join ∧ room ∉ s.joinedRooms.map Prod.fst ∧
      MAX_ROOMS ≤ s.joinedRooms.length
  · have heq : (s.send type room payload msgId).1 = s.emit .maxRooms := by
      rw [send, if_pos hroom]
    rw [heq]
    exact hs.talks (talks_emit s (by simp)) rfl rfl
  obtain ⟨htype, hroomEq, hsent, -⟩ := drawn_spec s type room payload msgId
  have htalks := talks_drawn s type room payload msgId
  have hjoined : (s.register type room payload).joinedRooms.length ≤ MAX_ROOMS := by
    cases type with
    | join => exact length_setRoom (fun h => hroom ⟨rfl, h⟩) hs.joined payload
    | leave => exact (List.length_filter_le ..).trans hs.joined
    | _ => exact hs.joined
  by_cases hc : s.connected
  · rw [send_connected hc hroom]
    have hdrawn := htalks.connected.mpr hc
    have hnames : ((s.drawn type room payload msgId).2.transmit
        (s.drawn type room payload msgId).1).joinedRooms =
          (s.register type room payload).joinedRooms :=
      (joinedRooms_transmit _ _).trans (joinedRooms_drawn s type room payload msgId)
    have hsends : Sends s.ws [(s.drawn type room payload msgId).1] s
        ((s.drawn type room payload msgId).2.transmit (s.drawn type room payload msgId).1) := by
      have htransmit := sends_transmit hdrawn (s.drawn type room payload msgId).1
      rw [htalks.ws] at htransmit
      exact (sends_of_same hsent).trans htransmit
    have hon := htalks.trans (talks_transmit _ (s.drawn type room payload msgId).1)
    refine hs.sends (hnames ▸ hjoined) hon hsends (fun i k hi hk => ?_)
      fun i hi hopen hnone => by cases hnone
    have hopen : s.readyState i = some .opened := by
      obtain ⟨j, hj, hopen⟩ := connected_iff.mp hc
      obtain rfl := Option.some.inj (hi.symm.trans hj)
      exact hopen
    have hone : [(s.drawn type room payload msgId).1].take k =
        [(s.drawn type room payload msgId).1] := by
      cases k with
      | zero => exact absurd rfl hk
      | succ k => simp
    have hnow := hs.current i hi hopen
    rw [hone, roomsAfter_concat, roomNames, hnames, asked, htype, hroomEq]
    cases type with
    | join =>
        intro r hr
        rw [List.mem_toFinset]
        refine mem_names_setRoom.mpr ?_
        obtain rfl | hr := Finset.mem_insert.mp hr
        · exact .inl rfl
        · exact .inr (mem_roomNames.mp (hnow hr))
    | leave =>
        intro r hr
        obtain ⟨hne, hr⟩ := Finset.mem_erase.mp hr
        obtain ⟨entry, hentry, rfl⟩ := List.mem_map.mp (mem_roomNames.mp (hnow hr))
        exact List.mem_toFinset.mpr (List.mem_map_of_mem
          (List.mem_filter.mpr ⟨hentry, decide_eq_true hne⟩))
    | _ => exact hnow
  · rw [send_offline hc hroom]
    have hdrawn := htalks.trans (talks_enqueue _ (s.drawn type room payload msgId).1)
    have henqueue : ∀ (t : Page) (m : Message), (t.enqueue m).sentOn = t.sentOn ∧
        (t.enqueue m).joinedRooms = t.joinedRooms := by
      intro t m
      rw [enqueue]
      split
      · split <;> exact ⟨rfl, rfl⟩
      · exact ⟨rfl, rfl⟩
    obtain ⟨hsame, hnames⟩ := henqueue (s.drawn type room payload msgId).2
      (s.drawn type room payload msgId).1
    rw [joinedRooms_drawn] at hnames
    have hnothing : Sends s.ws [] s ((s.drawn type room payload msgId).2.enqueue
        (s.drawn type room payload msgId).1) := sends_of_same (hsame.trans hsent)
    refine hs.sends (hnames ▸ hjoined) hdrawn hnothing
      (fun i k _ hk => absurd List.take_nil hk) fun i hi hopen _ => ?_
    exact absurd (connected_iff.mpr ⟨i, hi, hopen⟩) hc

/-! ### The opening of a socket -/

theorem keys_rejoin {rooms : List (RoomName × Option String)}
    (hrooms : ∀ entry ∈ rooms, entry.1 ∈ s.joinedRooms.map Prod.fst) :
    (rejoin rooms s).joinedRooms.map Prod.fst = s.joinedRooms.map Prod.fst := by
  induction rooms generalizing s with
  | nil => rfl
  | cons entry rooms ih =>
      obtain ⟨-, -, -, -, hkeys⟩ := send_join (hrooms entry List.mem_cons_self)
      rw [rejoin, ih fun e he => hkeys ▸ hrooms e (List.mem_cons_of_mem _ he), hkeys]

theorem joinedRooms_flush (queue : List (RoomName × Message)) (s : Page) :
    (flush queue s).joinedRooms = s.joinedRooms := by
  induction queue generalizing s with
  | nil => rfl
  | cons entry queue ih =>
      rw [flush, ih]
      split
      · exact joinedRooms_transmit s entry.2
      · rfl

/-- The rooms stay joined, in their order. -/
theorem keys_onopen (s : Page) (i : SocketId) :
    (s.onopen i).joinedRooms.map Prod.fst = s.joinedRooms.map Prod.fst := by
  have hrejoin : (s.opening i).rejoinRooms.joinedRooms.map Prod.fst =
      s.joinedRooms.map Prod.fst := by
    rw [rejoinRooms]
    split
    · exact keys_rejoin fun entry hentry => List.mem_map_of_mem hentry
    · rfl
  rw [onopen, flushQueue, joinedRooms_flush]
  exact hrejoin

theorem modest_opened (hs : Modest s) (hqueues : Queues s) (hqueueable : OnlyQueueable s)
    {i : SocketId} (hi : s.readyState i = some .connecting) :
    Proceeds s ((s.setReady i .opened).onopen i) := by
  have hsent : (s.setReady i .opened).sentOn = s.sentOn := sentOn_modify_same s i fun _ => rfl
  have hproceeds : Proceeds s (s.setReady i .opened) := by
    refine ⟨⟨hs.joined, fun j k => hsent ▸ hs.sent j k, fun j hj hopen => ?_, fun j hj => ?_⟩,
      fun j => hsent ▸ List.prefix_rfl⟩
    · rw [hsent]
      by_cases hji : j = i
      · rw [hji, hqueues.unsent i hi]
        exact Finset.empty_subset _
      · rw [setReady, readyState_modify, if_neg hji] at hopen
        exact hs.current j hj hopen
    · exact readyState_setReady_none (hs.unborn j hj)
  have hopened := hproceeds.modest
  have htalks := talks_onopen (s.setReady i .opened) i
  have hkeys := keys_onopen (s.setReady i .opened) i
  have hnames : ((s.setReady i .opened).onopen i).roomNames = s.roomNames := by
    rw [roomNames, hkeys]
    rfl
  have hlength : ((s.setReady i .opened).onopen i).joinedRooms.length ≤ MAX_ROOMS := by
    have hsame := congrArg List.length hkeys
    rw [List.length_map, List.length_map] at hsame
    rw [hsame]
    exact hs.joined
  obtain ⟨msgs, hjoins, hsends⟩ := onopen_sends (s.setReady i .opened) i
  -- what is sent are joins of joined rooms, chat and media
  have hmsgs : ∀ m ∈ msgs ++ (if (s.setReady i .opened).connected then
      (s.setReady i .opened).pendingQueue.map Prod.snd else []), m.type = .join →
        m.room ∈ s.roomNames := by
    intro m hm htype
    obtain hm | hm := List.mem_append.mp hm
    · obtain ⟨entry, hentry, hmjoins⟩ := exists_room hjoins hm
      split at hentry
      · rw [hmjoins.room]
        exact mem_roomNames.mpr (List.mem_map_of_mem hentry)
      · cases hentry
    · split at hm
      · obtain h | h := hqueueable m hm
        all_goals
          rw [htype] at h
          cases h
      · cases hm
  refine hproceeds.trans (hopened.sends hlength htalks hsends (fun j k hj hk => ?_)
    fun j hj hopen _ => ?_)
  · have hconnected : (s.setReady i .opened).connected := by
      by_contra hc
      refine hk ?_
      rw [if_neg fun h => hc h.1] at hjoins
      rw [List.forall₂_nil_left_iff.mp hjoins, if_neg hc, List.append_nil, List.take_nil]
    obtain ⟨l, hl, hopen⟩ := connected_iff.mp hconnected
    obtain rfl := Option.some.inj (hj.symm.trans hl)
    rw [hnames]
    exact roomsAfter_append_subset (hopened.current j hj hopen) fun m hm =>
      hmsgs m (List.mem_of_mem_take hm)
  · rw [hnames]
    exact hopened.current j hj hopen

/-! ### The other actions -/

theorem modest_connect (hs : Modest s) : Proceeds s s.connect := by
  have hnew : s.connect.sentOn s.created = [] := by simp [sentOn, connect, WebSocket.new]
  have hold : ∀ i, i ≠ s.created → s.connect.sockets i = s.sockets i :=
    fun i h => Function.update_of_ne h ..
  have hsame : s.connect.sentOn = s.sentOn := by
    ext1 i
    by_cases h : i = s.created
    · have hnone := hs.unborn i h.ge
      rw [readyState, Option.map_eq_none_iff] at hnone
      rw [h, hnew, ← h, sentOn, hnone]
      rfl
    · rw [sentOn, hold i h, sentOn]
  refine ⟨⟨hs.joined, fun i k => hsame ▸ hs.sent i k, fun i hi hopen => ?_, fun i hi => ?_⟩,
    fun i => hsame ▸ List.prefix_rfl⟩
  · obtain rfl : s.created = i := Option.some.inj hi
    simp [readyState, connect, WebSocket.new] at hopen
  · have hlt : s.created < i := hi
    rw [readyState, hold i hlt.ne']
    exact hs.unborn i hlt.le

theorem modest_disconnect (hs : Modest s) : Proceeds s s.disconnect := by
  have hsent : s.disconnect.sentOn = s.sentOn := by
    rw [disconnect]
    split
    · rfl
    · exact sentOn_modify_same _ _ WebSocket.sent_close
  have hrooms : s.disconnect.joinedRooms = [] := by
    rw [disconnect]
    split <;> rfl
  have hws : s.disconnect.ws = none := by
    rw [disconnect]
    split
    · next h => exact h
    · rfl
  refine ⟨⟨by simp [hrooms], fun i k => hsent ▸ hs.sent i k, fun i hi => ?_, fun i hi => ?_⟩,
    fun i => hsent ▸ List.prefix_rfl⟩
  · rw [hws] at hi
    cases hi
  · rw [disconnect] at hi ⊢
    split at hi
    · exact hs.unborn i hi
    · next j _ =>
      have hnone : s.sockets i = none := Option.map_eq_none_iff.mp (hs.unborn i hi)
      show Option.map WebSocket.readyState (Function.update s.sockets j _ i) = none
      by_cases hij : i = j
      · rw [hij, Function.update_self]
        show Option.map _ (Option.map _ (s.sockets j)) = none
        rw [← hij, hnone]
        rfl
      · rw [Function.update_of_ne hij, hnone]
        rfl

/-- A socket that leaves the open state, or never was in it. -/
theorem Modest.setReady (hs : Modest s) (i : SocketId) {r : ReadyState} (hr : r ≠ .opened) :
    Proceeds s (s.setReady i r) := by
  refine hs.quiet (sentOn_modify_same s i fun _ => rfl) rfl rfl
    (fun j hj => readyState_setReady_none hj) fun j hj hopen => ⟨hj, ?_⟩
  rw [Page.setReady, readyState_modify] at hopen
  split at hopen
  · obtain ⟨w, -, hw⟩ := Option.map_eq_some_iff.mp hopen
    exact absurd hw hr
  · exact hopen

theorem joinedRooms_onclose (s : Page) (i : SocketId) :
    (s.onclose i).joinedRooms = s.joinedRooms ∧ (s.onclose i).created = s.created := by
  rw [onclose]
  split
  · rw [attemptReconnect]
    split
    · exact ⟨rfl, rfl⟩
    · split <;> exact ⟨rfl, rfl⟩
  · exact ⟨rfl, rfl⟩

theorem joinedRooms_onmessage (s : Page) (m : ServerMessage) :
    (s.onmessage m).joinedRooms = s.joinedRooms ∧ (s.onmessage m).created = s.created := by
  have hwelcome : ∀ data, (s.welcome data).joinedRooms = s.joinedRooms ∧
      (s.welcome data).created = s.created := by
    intro data
    rw [welcome]
    split
    · split <;> exact ⟨rfl, rfl⟩
    · exact ⟨rfl, rfl⟩
  rw [onmessage]
  split
  · exact ⟨rfl, rfl⟩
  · dsimp only
    split
    · exact hwelcome _
    · exact hwelcome _

theorem modest_step {a : SocketAction} (hs : Modest s) (hqueues : Queues s)
    (hqueueable : OnlyQueueable s) (hstep : s.step a = some s') : Proceeds s s' := by
  cases a with
  | connect =>
      obtain rfl := Option.some.inj hstep
      exact modest_connect hs
  | disconnect =>
      obtain rfl := Option.some.inj hstep
      exact modest_disconnect hs
  | send type room payload msgId =>
      obtain rfl := Option.some.inj hstep
      exact modest_send hs type room payload msgId
  | opened i =>
      rw [step, Option.ite_none_right_eq_some, Option.some_inj] at hstep
      obtain ⟨hi, rfl⟩ := hstep
      exact modest_opened hs hqueues hqueueable hi
  | error i =>
      rw [step, Option.ite_none_right_eq_some, Option.some_inj] at hstep
      obtain ⟨-, rfl⟩ := hstep
      have hclosed := hs.setReady i (r := .closed) (by simp)
      exact hclosed.trans (hclosed.modest.talks (talks_onerror _ i)
        (sentOn_modify_same _ i fun _ => rfl) rfl)
  | closing i =>
      rw [step, Option.ite_none_right_eq_some, Option.some_inj] at hstep
      obtain ⟨-, rfl⟩ := hstep
      exact hs.setReady i (by simp)
  | closed i =>
      rw [step, Option.ite_none_right_eq_some, Option.some_inj] at hstep
      obtain ⟨-, rfl⟩ := hstep
      have hclosed := hs.setReady i (r := .closed) (by simp)
      have hfired : Proceeds _ ((s.setReady i .closed).modify i fun w =>
          { w with closeFired := true }) :=
        hclosed.modest.talks (talks_modify _ i (fun _ => rfl) fun _ => rfl)
          (sentOn_modify_same _ i fun _ => rfl) rfl
      have htalks := talks_onclose
        ((s.setReady i .closed).modify i fun w => { w with closeFired := true }) i
      obtain ⟨hrooms, hcreated⟩ := joinedRooms_onclose
        ((s.setReady i .closed).modify i fun w => { w with closeFired := true }) i
      exact (hclosed.trans hfired).trans (hfired.modest.quiet (onclose_keeps _ i).1 hrooms hcreated
        (fun j hj => htalks.readyState ▸ hj)
        fun j hj hopen => ⟨htalks.ws ▸ hj, htalks.readyState ▸ hopen⟩)
  | timer t =>
      obtain ⟨-, rfl⟩ := timer_step hstep
      have htimer : Proceeds s { s with timers := s.timers.filter (· ≠ t) } :=
        hs.quiet rfl rfl rfl (fun _ hi => hi) fun _ hi hopen => ⟨hi, hopen⟩
      exact htimer.trans (modest_connect htimer.modest)
  | serve peers data =>
      obtain rfl := Option.some.inj hstep
      have hready := readyState_serve s peers data
      exact hs.quiet (sentOn_serve s peers data) rfl rfl (fun i hi => hready ▸ hi)
        fun i hi hopen => ⟨hi, hready ▸ hopen⟩
  | message i =>
      obtain ⟨w, m, rest, -, -, -, rfl⟩ := message_step hstep
      obtain ⟨hsockets, hws, -⟩ :=
        onmessage_keeps (s.modify i fun w => { w with inbound := rest }) m
      obtain ⟨hrooms, hcreated⟩ :=
        joinedRooms_onmessage (s.modify i fun w => { w with inbound := rest }) m
      have htaken : (s.modify i fun w => { w with inbound := rest }).sentOn = s.sentOn :=
        sentOn_modify_same s i fun _ => rfl
      have hready : ((s.modify i fun w => { w with inbound := rest }).onmessage m).readyState =
          s.readyState := by
        rw [← readyState_take s i rest]
        ext1 j
        rw [readyState, hsockets, readyState]
      refine hs.quiet ?_ hrooms hcreated (fun j hj => hready ▸ hj)
        fun j hj hopen => ⟨hws ▸ hj, hready ▸ hopen⟩
      rw [← htaken]
      ext1 j
      rw [sentOn, hsockets, sentOn]
  | tick =>
      obtain rfl := Option.some.inj hstep
      exact hs.quiet rfl rfl rfl (fun _ hi => hi) fun _ hi hopen => ⟨hi, hopen⟩

theorem modest_of_reachable (hs : Reachable step new s) : Modest s :=
  hs.invariant_of (J := Modest) (fun _ hs => And.intro (queues_of_reachable hs)
    (onlyQueueable_of_reachable hs)) modest_new
    fun _ _ _ hqueue hmodest _ hstep => (modest_step hmodest hqueue.1 hqueue.2 hstep).modest

/-- **What has been sent is only added to.** -/
theorem proceeds_of_reachable {a : SocketAction} (hs : Reachable step new s)
    (hstep : s.step a = some s') : Proceeds s s' :=
  modest_step (modest_of_reachable hs) (queues_of_reachable hs) (onlyQueueable_of_reachable hs)
    hstep

end Page

end TrapChat.Client
