import TrapChat.Client.Rejoin

/-!
What becomes of the chat and media messages that are sent while no socket is open.
`send` announces each of them as queued, also where the queue is full and takes it no
more; and the queue is written to the socket that `#ws` names, whichever socket it is
that opens.

So what was announced is what is written exactly where the queue had room for all of it
and the client's own socket opens.
-/

namespace TrapChat.Client

open Storage Protocol Transition

/-- The types that are queued. -/
def Queueable (type : MessageType) : Prop := type = .chat ∨ type = .media

instance (type : MessageType) : Decidable (Queueable type) := inferInstanceAs (Decidable (_ ∨ _))

/-- The messages that are queued, among those that are sent. -/
def chatAndMedia (msgs : List Message) : List Message := msgs.filter fun m => Queueable m.type

/-- How many chat and media messages the application sends. -/
def queueableSends (as : List SocketAction) : ℕ :=
  as.countP fun
    | .send type .. => Queueable type
    | _ => false

/-- The client stays without an open socket, and does not disconnect. -/
def KeepsOffline : SocketAction → Prop
  | .disconnect | .opened _ => False
  | _ => True

instance : (a : SocketAction) → Decidable (KeepsOffline a)
  | .disconnect | .opened _ => inferInstanceAs (Decidable False)
  | .connect | .send .. | .error _ | .closing _ | .closed _ | .timer _ | .serve .. | .message _
  | .tick => inferInstanceAs (Decidable True)

/-- An action that touches neither the queue nor an open socket. -/
def Quiet : SocketAction → Prop
  | .disconnect | .opened _ | .send .. => False
  | _ => True

namespace Page

/-- The message of an action for which it emits 'queued'. -/
def announced (s : Page) : SocketAction → List Message
  | .send type room payload msgId =>
      if (s.send type room payload msgId).1.emitted = s.emitted ++ [.queued type room] then
        [(s.drawn type room payload msgId).1]
      else []
  | _ => []

/-- The messages that a run announces as queued. -/
def announcedIn : Page → List SocketAction → List Message
  | _, [] => []
  | s, a :: as =>
      s.announced a ++
        match s.step a with
        | none => []
        | some s' => announcedIn s' as

/-- What was queued before and what the run announces is all of the chat and media that is
written to the socket, in the order in which it was sent. -/
def QueueExact (s : Page) (as : List SocketAction) (i : SocketId) (s' : Page) : Prop :=
  chatAndMedia (s'.sentOn i) = s.pendingQueue.map Prod.snd ++ s.announcedIn as

instance (s : Page) (as : List SocketAction) (i : SocketId) (s' : Page) :
    Decidable (QueueExact s as i s') := inferInstanceAs (Decidable (_ = _))

/-! ### One action without a socket -/

section
variable {s s' : Page} {a : SocketAction}

/-- Without an open socket, the queue takes what is announced as far as it has room. -/
structure Gathers (s : Page) (a : SocketAction) (s' : Page) : Prop where
  offline : ¬s'.connected
  queue : s'.pendingQueue.map Prod.snd = s.pendingQueue.map Prod.snd ++
    (s.announced a).take (MAX_PENDING - s.pendingQueue.length)
  count : (s.announced a).length = queueableSends [a]
  types : ∀ m ∈ s.announced a, Queueable m.type

/-- What neither sends nor opens. -/
theorem gathers_of_same (hoffline : ¬s'.connected) (hqueue : s'.pendingQueue = s.pendingQueue)
    (hnone : s.announced a = []) (hcount : queueableSends [a] = 0) : Gathers s a s' where
  offline := hoffline
  queue := by rw [hnone, hqueue, List.take_nil, List.append_nil]
  count := by rw [hnone, hcount, List.length_nil]
  types := by simp [hnone]

/-- A chat or media message is announced, and taken if there is room. -/
theorem enqueue_of_queueable {msg : Message} (h : Queueable msg.type) :
    (s.enqueue msg).emitted = s.emitted ++ [.queued msg.type msg.room] ∧
      (s.enqueue msg).pendingQueue.map Prod.snd = s.pendingQueue.map Prod.snd ++
        [msg].take (MAX_PENDING - s.pendingQueue.length) := by
  have hqueueable : msg.type = .chat ∨ msg.type = .media := h
  rw [enqueue, if_pos hqueueable]
  by_cases hroom : s.pendingQueue.length < MAX_PENDING
  · rw [if_pos hroom, List.take_of_length_le (by rw [List.length_singleton]; omega)]
    exact ⟨rfl, List.map_append ..⟩
  · rw [if_neg hroom, Nat.sub_eq_zero_of_le (Nat.le_of_not_lt hroom), List.take_zero,
      List.append_nil]
    exact ⟨rfl, rfl⟩

theorem enqueue_of_not_queueable {msg : Message} (h : ¬Queueable msg.type) : s.enqueue msg = s :=
  if_neg h

theorem emitted_drawn (s : Page) (type : MessageType) (room : RoomName) (payload : Option String)
    (msgId : Option UUID) : (s.drawn type room payload msgId).2.emitted = s.emitted := by
  cases type <;> cases msgId <;> rfl

/-- **A message sent without an open socket.** -/
theorem gathers_send (hc : ¬s.connected) (type : MessageType) (room : RoomName)
    (payload : Option String) (msgId : Option UUID) :
    Gathers s (.send type room payload msgId) (s.send type room payload msgId).1 := by
  have hoffline := mt (talks_send s type room payload msgId).connected.mp hc
  obtain ⟨htype, hroomEq, -, hpending⟩ := drawn_spec s type room payload msgId
  have hemitted := emitted_drawn s type room payload msgId
  by_cases hjoin : type = .join ∧ room ∉ s.joinedRooms.map Prod.fst ∧
      MAX_ROOMS ≤ s.joinedRooms.length
  · have hsend : (s.send type room payload msgId).1 = s.emit .maxRooms := by
      rw [send, if_pos hjoin]
    have hnone : s.announced (.send type room payload msgId) = [] := by
      rw [announced, hsend]
      exact if_neg (by simp [emit])
    rw [hsend] at hoffline ⊢
    refine gathers_of_same hoffline rfl hnone ?_
    simp [queueableSends, Queueable, hjoin.1]
  have hsend := send_offline hc hjoin payload msgId
  by_cases hqueue : Queueable type
  · have hdrawn : Queueable (s.drawn type room payload msgId).1.type := by rwa [htype]
    obtain ⟨hannounce, htaken⟩ :=
      enqueue_of_queueable (s := (s.drawn type room payload msgId).2) hdrawn
    rw [htype, hroomEq, hemitted] at hannounce
    have hone : s.announced (.send type room payload msgId) =
        [(s.drawn type room payload msgId).1] := by
      rw [announced, hsend, hannounce]
      exact if_pos rfl
    refine ⟨hoffline, ?_, ?_, ?_⟩
    · rw [hone, hsend, htaken, hpending]
    · rw [hone]
      simp [queueableSends, hqueue]
    · rw [hone]
      intro m hm
      rw [List.mem_singleton.mp hm, htype]
      exact hqueue
  · have hdrawn : ¬Queueable (s.drawn type room payload msgId).1.type := by rwa [htype]
    have hsame : (s.send type room payload msgId).1 = (s.drawn type room payload msgId).2 :=
      hsend.trans (enqueue_of_not_queueable hdrawn)
    have hnone : s.announced (.send type room payload msgId) = [] := by
      rw [announced, hsame, hemitted]
      exact if_neg (by simp)
    refine gathers_of_same hoffline (by rw [hsame, hpending]) hnone ?_
    simp [queueableSends, hqueue]

theorem not_connected_connect (s : Page) : ¬s.connect.connected := by
  intro hc
  obtain ⟨j, hws, hj⟩ := connected_iff.mp hc
  obtain rfl : s.created = j := Option.some.inj hws
  simp [readyState, connect, WebSocket.new] at hj

/-- A socket that leaves the open state, or never was in it, does not connect the client. -/
theorem not_connected_setReady (hc : ¬s.connected) (i : SocketId) {r : ReadyState}
    (hr : r ≠ .opened) : ¬(s.setReady i r).connected := by
  intro hc'
  obtain ⟨j, hws, hj⟩ := connected_iff.mp hc'
  rw [setReady, readyState_modify] at hj
  split at hj
  · obtain ⟨w, -, hw⟩ := Option.map_eq_some_iff.mp hj
    exact hr hw
  · exact hc (connected_iff.mpr ⟨j, hws, hj⟩)

/-- An action that neither sends nor opens leaves the queue alone, and connects nothing. -/
theorem quiet_step (hstep : s.step a = some s') (ha : Quiet a) :
    s'.pendingQueue = s.pendingQueue ∧ (¬s.connected → ¬s'.connected) := by
  cases a with
  | disconnect => exact ha.elim
  | opened i => exact ha.elim
  | send type room payload msgId => exact ha.elim
  | connect =>
      obtain rfl := Option.some.inj hstep
      exact ⟨rfl, fun _ => not_connected_connect s⟩
  | error i =>
      rw [step, Option.ite_none_right_eq_some, Option.some_inj] at hstep
      obtain ⟨-, rfl⟩ := hstep
      refine ⟨rfl, fun hc => ?_⟩
      have hclosed := not_connected_setReady hc i (r := .closed) (by simp)
      exact mt (talks_onerror _ i).connected.mp hclosed
  | closing i =>
      rw [step, Option.ite_none_right_eq_some, Option.some_inj] at hstep
      obtain ⟨-, rfl⟩ := hstep
      exact ⟨rfl, fun hc => not_connected_setReady hc i (by simp)⟩
  | closed i =>
      rw [step, Option.ite_none_right_eq_some, Option.some_inj] at hstep
      obtain ⟨-, rfl⟩ := hstep
      refine ⟨(onclose_keeps _ i).2, fun hc h => ?_⟩
      have hclosed := not_connected_setReady hc i (r := .closed) (by simp)
      have htalks := talks_modify (s.setReady i .closed) i
        (f := fun w => { w with closeFired := true }) (fun _ => rfl) (fun _ => rfl)
      exact hclosed (htalks.connected.mp ((talks_onclose _ i).connected.mp h))
  | timer t =>
      obtain ⟨-, rfl⟩ := timer_step hstep
      exact ⟨rfl, fun _ => not_connected_connect _⟩
  | serve peers data =>
      obtain rfl := Option.some.inj hstep
      refine ⟨rfl, fun hc h => hc ?_⟩
      rwa [connected, wsReadyState, readyState_serve] at h
  | message i =>
      obtain ⟨w, m, rest, -, -, -, rfl⟩ := message_step hstep
      obtain ⟨hsockets, hws, hqueue⟩ :=
        onmessage_keeps (s.modify i fun w => { w with inbound := rest }) m
      refine ⟨hqueue, fun hc h => hc ?_⟩
      obtain ⟨j, hj, hopen⟩ := connected_iff.mp h
      rw [readyState, hsockets] at hopen
      refine connected_iff.mpr ⟨j, hws ▸ hj, ?_⟩
      rw [← readyState_take s i rest]
      exact hopen
  | tick =>
      obtain rfl := Option.some.inj hstep
      exact ⟨rfl, id⟩

/-- **One action without an open socket.** -/
theorem gathers_step (hc : ¬s.connected) (hstep : s.step a = some s') (ha : KeepsOffline a) :
    Gathers s a s' := by
  cases a with
  | disconnect => exact ha.elim
  | opened i => exact ha.elim
  | send type room payload msgId =>
      obtain rfl := Option.some.inj hstep
      exact gathers_send hc type room payload msgId
  | _ =>
      obtain ⟨hqueue, hoffline⟩ := quiet_step hstep trivial
      exact gathers_of_same (hoffline hc) hqueue rfl rfl

end

/-! ### Runs without a socket -/

section
variable {s s' : Page} {as : List SocketAction} {i : SocketId}

theorem queueableSends_cons (a : SocketAction) (as : List SocketAction) :
    queueableSends (a :: as) = queueableSends [a] + queueableSends as := by
  rw [queueableSends, List.countP_cons, Nat.add_comm, queueableSends, List.countP_singleton]
  rfl

theorem announcedIn_cons {a : SocketAction} (h : s.step a = some s') :
    s.announcedIn (a :: as) = s.announced a ++ s'.announcedIn as := by
  rw [announcedIn, h]

/-- A queue that takes messages up to its limit, twice. -/
theorem take_concat {α : Type*} (limit : ℕ) (queue first rest : List α) :
    queue ++ first.take (limit - queue.length) ++
        rest.take (limit - (queue ++ first.take (limit - queue.length)).length) =
      queue ++ (first ++ rest).take (limit - queue.length) := by
  rw [List.take_append, List.append_assoc, List.length_append, List.length_take]
  congr 3
  omega

/-- **A run without an open socket.** The queue takes what is announced, up to its limit. -/
theorem gathers_run (hc : ¬s.connected) (has : ∀ a ∈ as, KeepsOffline a)
    (hrun : exec step s as = some s') :
    ¬s'.connected ∧
      s'.pendingQueue.map Prod.snd = s.pendingQueue.map Prod.snd ++
        (s.announcedIn as).take (MAX_PENDING - s.pendingQueue.length) ∧
      (s.announcedIn as).length = queueableSends as ∧
      ∀ m ∈ s.announcedIn as, Queueable m.type := by
  induction as generalizing s with
  | nil =>
      cases hrun
      exact ⟨hc, by simp [announcedIn], rfl, by simp [announcedIn]⟩
  | cons a as ih =>
      obtain ⟨s₁, hstep, hrest⟩ := Option.bind_eq_some_iff.mp hrun
      obtain ⟨ha, has'⟩ := List.forall_mem_cons.mp has
      have h := gathers_step hc hstep ha
      obtain ⟨hoffline, hqueue, hcount, htypes⟩ := ih h.offline has' hrest
      rw [announcedIn_cons hstep]
      refine ⟨hoffline, ?_, ?_, ?_⟩
      · have hlength : s₁.pendingQueue.length = (s₁.pendingQueue.map Prod.snd).length :=
          (List.length_map _).symm
        have hlength' : s.pendingQueue.length = (s.pendingQueue.map Prod.snd).length :=
          (List.length_map _).symm
        rw [hqueue, hlength, h.queue, hlength']
        exact take_concat MAX_PENDING _ _ _
      · rw [List.length_append, h.count, hcount, queueableSends_cons a as]
      · intro m hm
        obtain hfirst | hlater := List.mem_append.mp hm
        · exact h.types m hfirst
        · exact htypes m hlater

/-! ### What the queue holds -/

/-- Nothing but chat and media is queued. -/
def OnlyQueueable (s : Page) : Prop := ∀ m ∈ s.pendingQueue.map Prod.snd, Queueable m.type

theorem onlyQueueable_step {a : SocketAction} (hs : OnlyQueueable s) (hstep : s.step a = some s') :
    OnlyQueueable s' := by
  cases a with
  | disconnect =>
      obtain rfl := Option.some.inj hstep
      have hqueue : s.disconnect.pendingQueue = [] := by
        rw [disconnect]
        split <;> rfl
      simp [OnlyQueueable, hqueue]
  | opened i =>
      rw [step, Option.ite_none_right_eq_some, Option.some_inj] at hstep
      obtain ⟨-, rfl⟩ := hstep
      simp [OnlyQueueable, pendingQueue_onopen]
  | send type room payload msgId =>
      by_cases hc : s.connected
      · obtain rfl := Option.some.inj hstep
        have hqueue : (s.send type room payload msgId).1.pendingQueue = s.pendingQueue := by
          by_cases hjoin : type = .join ∧ room ∉ s.joinedRooms.map Prod.fst ∧
              MAX_ROOMS ≤ s.joinedRooms.length
          · rw [send, if_pos hjoin]
            rfl
          · rw [send_connected hc hjoin, pendingQueue_transmit]
            exact (drawn_spec s type room payload msgId).2.2.2
        rw [OnlyQueueable, hqueue]
        exact hs
      · have h := gathers_step hc hstep trivial
        intro m hm
        rw [h.queue] at hm
        obtain hold | hnew := List.mem_append.mp hm
        · exact hs m hold
        · exact h.types m (List.mem_of_mem_take hnew)
  | _ =>
      rw [OnlyQueueable, (quiet_step hstep trivial).1]
      exact hs

theorem onlyQueueable_of_reachable (hs : Reachable step new s) : OnlyQueueable s :=
  hs.invariant (by simp [OnlyQueueable, new]) fun _ _ _ h _ hstep => onlyQueueable_step h hstep

theorem queues_of_reachable (hs : Reachable step new s) : Queues s :=
  hs.invariant queues_new fun _ _ _ h _ hstep => queues_step h hstep

/-! ### The opening -/

theorem chatAndMedia_joins {rooms : List (RoomName × Option String)} {msgs : List Message}
    (h : List.Forall₂ Message.Joins rooms msgs) : chatAndMedia msgs = [] := by
  refine List.filter_eq_nil_iff.mpr fun m hm => ?_
  obtain ⟨entry, -, hjoins⟩ := exists_room h hm
  simp [Queueable, hjoins.type]

/-- Of chat and media, a socket is sent what was queued if it is the client's own, and nothing
otherwise. -/
theorem chatAndMedia_opened (hs : Queues s) (hqueueable : OnlyQueueable s)
    (hstep : s.step (.opened i) = some s') :
    chatAndMedia (s'.sentOn i) = if s.ws = some i then s.pendingQueue.map Prod.snd else [] := by
  rw [step, Option.ite_none_right_eq_some, Option.some_inj] at hstep
  obtain ⟨hi, rfl⟩ := hstep
  by_cases hws : s.ws = some i
  · obtain ⟨msgs, hjoins, hsent, -⟩ := opened_own hs hi hws
    have hall : chatAndMedia (s.pendingQueue.map Prod.snd) = s.pendingQueue.map Prod.snd :=
      List.filter_eq_self.mpr fun m hm => decide_eq_true (hqueueable m hm)
    rw [if_pos hws, hsent, chatAndMedia, List.filter_append]
    exact (congrArg₂ _ (chatAndMedia_joins hjoins) hall).trans (List.nil_append _)
  · rw [if_neg hws, (opened_other hs hi hws).1]
    rfl

theorem append_take_eq_iff {α : Type*} {queue announced : List α} {room : ℕ} :
    queue ++ announced.take room = queue ++ announced ↔ announced.length ≤ room := by
  rw [List.append_cancel_left_eq, List.take_eq_self_iff]

/-- A run without an open socket and an opening after it: what is written of chat and media,
and how much has been announced. -/
theorem written_of_run {s₁ : Page} (hs : Reachable step new s) (hc : ¬s.connected)
    (has : ∀ a ∈ as, KeepsOffline a) (hrun : exec step s as = some s₁)
    (hopen : s₁.step (.opened i) = some s') :
    chatAndMedia (s'.sentOn i) =
        (if s₁.ws = some i then s.pendingQueue.map Prod.snd ++
          (s.announcedIn as).take (MAX_PENDING - s.pendingQueue.length) else []) ∧
      (s.announcedIn as).length = queueableSends as := by
  have hs₁ : Reachable step new s₁ := reachable_of_exec hs hrun
  obtain ⟨-, hqueue, hcount, -⟩ := gathers_run hc has hrun
  have hwritten := chatAndMedia_opened (queues_of_reachable hs₁) (onlyQueueable_of_reachable hs₁)
    hopen
  rw [hqueue] at hwritten
  exact ⟨hwritten, hcount⟩

/-- **What was announced as queued is what is written to the socket that opens, exactly where
the queue has room for the chat and media of the period, and the socket is the client's own
or nothing was queued.** -/
theorem queueExact_iff {s₁ : Page} (hs : Reachable step new s) (hc : ¬s.connected)
    (has : ∀ a ∈ as, KeepsOffline a) (hrun : exec step s as = some s₁)
    (hopen : s₁.step (.opened i) = some s') :
    QueueExact s as i s' ↔
      queueableSends as ≤ MAX_PENDING - s.pendingQueue.length ∧
        (s₁.ws = some i ∨ s.pendingQueue = [] ∧ queueableSends as = 0) := by
  obtain ⟨hwritten, hcount⟩ := written_of_run hs hc has hrun hopen
  rw [QueueExact, hwritten, ← hcount]
  by_cases hws : s₁.ws = some i
  · rw [if_pos hws, append_take_eq_iff]
    simp [hws]
  · rw [if_neg hws, eq_comm, List.append_eq_nil_iff, List.map_eq_nil_iff, List.length_eq_zero_iff]
    constructor
    · rintro ⟨hempty, hnone⟩
      exact ⟨by simp [hnone], .inr ⟨hempty, hnone⟩⟩
    · rintro ⟨-, hown | hnone⟩
      · exact absurd hown hws
      · exact hnone

end

/-- A chat message is sent without a socket, and the client connects. -/
def offlineChat : List SocketAction := [.send .chat "r" (some "c") none, .connect]

theorem queueExact_offlineChat :
    QueueExact new offlineChat 0
      ((((exec step new offlineChat).get (by decide)).step (.opened 0)).get (by decide)) :=
  (queueExact_iff .start (by decide) (by decide) (Option.some_get _).symm
    (Option.some_get _).symm).mpr (by decide)

/-- A client without a socket sends a chat message 201 times and then connects. -/
def offlineChats : List SocketAction :=
  List.replicate 201 (.send .chat "r" (some "c") none) ++ [.connect]

theorem offlineChats_runs : (exec step new offlineChats).isSome = true := by decide +kernel

/-- All the messages are announced, and the queue takes 200 of them. -/
theorem offlineChats_dropped : ¬∀ (s s₁ s' : Page) (as : List SocketAction) (i : SocketId),
    Reachable step new s → ¬s.connected → (∀ a ∈ as, KeepsOffline a) → exec step s as = some s₁ →
      s₁.step (.opened i) = some s' → QueueExact s as i s' := by
  intro h
  have hoffline : ¬new.connected := by decide
  have hkeeps : ∀ a ∈ offlineChats, KeepsOffline a := by decide +kernel
  let s₁ := (exec step new offlineChats).get offlineChats_runs
  have hrun : exec step new offlineChats = some s₁ := (Option.some_get _).symm
  obtain ⟨s', hopen⟩ : ∃ s', s₁.step (.opened 0) = some s' :=
    Option.isSome_iff_exists.mp (by decide +kernel)
  have hexact := h new s₁ s' offlineChats 0 .start hoffline hkeeps hrun hopen
  obtain ⟨hwritten, hcount⟩ := written_of_run .start hoffline hkeeps hrun hopen
  have hsends : queueableSends offlineChats = 201 := by decide +kernel
  have hlength := congrArg List.length (hwritten.symm.trans hexact)
  split at hlength
  · rw [List.length_append, List.length_append, List.length_take, hcount, hsends] at hlength
    cases hlength
  · rw [List.length_append, hcount, hsends] at hlength
    cases hlength

end Page

end TrapChat.Client
