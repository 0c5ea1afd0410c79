import TrapChat.Client.Socket

/-!
How many live sockets a client has. `connect()` looks neither at the socket that
`#ws` names nor at the reconnect timers that are set, and `disconnect()` clears
the last timer only, so a client has one live socket exactly in the runs in
which whatever calls `connect()` finds the last socket closing or closed.

The application calls `connect()` only while `connected` is false, and the run
remembers whether it has called `disconnect()` since.
-/

namespace TrapChat.Client

open Storage Protocol Transition

namespace Page

/-! ### What a step does to the sockets -/

/-- No socket is created, and none comes to life. -/
structure Declines (s s' : Page) : Prop where
  created : s'.created = s.created
  served : s'.served = s.served
  live : ∀ i, s'.Live i → s.Live i
  underWay : s'.underWay = s.underWay
  received : s'.received = s.received

theorem Talks.declines {s s' : Page} (h : Talks s s') : Declines s s' :=
  ⟨h.created, h.served, fun i => (h.live i).mp, h.underWay, h.received⟩

theorem Declines.trans {s s' s'' : Page} (h : Declines s s') (h' : Declines s' s'') :
    Declines s s'' where
  created := h'.created.trans h.created
  served := h'.served.trans h.served
  live i hi := h.live i (h'.live i hi)
  underWay := h'.underWay.trans h.underWay
  received := h'.received.trans h.received

theorem live_setReady (s : Page) (i j : SocketId) (r : ReadyState) :
    (s.setReady i r).Live j ↔
      if j = i then (s.sockets i).isSome ∧ (r = .connecting ∨ r = .opened) else s.Live j := by
  simp only [Live, setReady, readyState_modify]
  split
  · cases s.sockets i <;> simp
  · rfl

theorem declines_setReady {s : Page} {i : SocketId} {r : ReadyState}
    (h : r = .connecting ∨ r = .opened → s.Live i) : Declines s (s.setReady i r) := by
  refine ⟨rfl, rfl, ?_, ?_, rfl⟩
  · intro j hj
    rw [live_setReady] at hj
    split at hj
    · next e => exact e ▸ h hj.2
    · exact hj
  · ext1 j
    rw [setReady, underWay_modify]
    split
    · next e =>
      subst e
      rfl
    · rfl

theorem live_close (s : Page) (i j : SocketId) :
    (s.modify i .close).Live j ↔ j ≠ i ∧ s.Live j := by
  simp only [Live, readyState_modify]
  split
  · next h =>
    subst h
    cases hw : s.sockets j with
    | none => simp
    | some w => cases hr : w.readyState <;> simp [WebSocket.close, hr]
  · next h => simp [h]

theorem declines_close (s : Page) (i : SocketId) : Declines s (s.modify i .close) := by
  refine ⟨rfl, rfl, fun j hj => ((live_close s i j).mp hj).2, ?_, rfl⟩
  ext1 j
  rw [underWay_modify]
  split
  · next h =>
    subst h
    simp only [WebSocket.inbound_close]
    rfl
  · rfl

theorem declines_disconnect (s : Page) : Declines s s.disconnect := by
  rw [disconnect]
  split
  · exact ⟨rfl, rfl, fun _ h => h, rfl, rfl⟩
  · next i hi =>
    have hclear : Declines s { s.clearReconnect with joinedRooms := [], pendingQueue := [] } :=
      ⟨rfl, rfl, fun _ h => h, rfl, rfl⟩
    have hclose := hclear.trans (declines_close _ i)
    exact ⟨hclose.created, hclose.served, hclose.live, hclose.underWay, hclose.received⟩

theorem live_disconnect {s : Page} {i : SocketId} (h : s.disconnect.Live i) :
    s.Live i ∧ s.ws ≠ some i := by
  refine ⟨(declines_disconnect s).live i h, fun hi => ?_⟩
  rw [disconnect] at h
  split at h
  · next hnone => exact absurd (hi.symm.trans hnone) (by simp)
  · next j hj =>
    obtain rfl : i = j := Option.some.inj (hi.symm.trans hj)
    exact absurd rfl ((live_close _ _ _).mp h).1

theorem live_connect (s : Page) (i : SocketId) :
    s.connect.Live i ↔ i = s.created ∨ s.Live i := by
  simp only [Live, readyState, connect, Function.update_apply]
  split
  · next h => simp [h, WebSocket.new]
  · next h => simp [h]

theorem underWay_connect (s : Page) (i : SocketId) :
    s.connect.underWay i = if i = s.created then [] else s.underWay i := by
  simp only [underWay, connect, Function.update_apply]
  split
  · rfl
  · rfl

theorem underWay_serve (s : Page) (peers : Finset SocketId) (data : Option ServerData)
    (i : SocketId) :
    (s.serve peers data).underWay i =
      if i ∈ peers ∧ (s.sockets i).isSome then s.underWay i ++ [s.served] else s.underWay i := by
  simp only [underWay, serve]
  cases s.sockets i with
  | none => simp
  | some w => by_cases hi : i ∈ peers <;> simp [hi]

end Page

/-! ### Runs -/

/-- A page, and whether the application has called `disconnect()` and not
`connect()` since. -/
structure SocketRun where
  page : Page
  left : Bool

namespace SocketRun

open Page

def start : SocketRun := ⟨.new, false⟩

def leaves (left : Bool) : SocketAction → Bool
  | .connect => false
  | .disconnect => true
  | _ => left

/-- The application calls `connect()` only while `connected` is false. -/
def step (r : SocketRun) (a : SocketAction) : Option SocketRun :=
  if a = .connect ∧ r.page.connected then none
  else (r.page.step a).map fun page => ⟨page, leaves r.left a⟩

/-- At most one socket is live, no message of the server has been emitted twice,
and after a `disconnect()` no socket is created but by a `connect()`. -/
structure OneSocket (r : SocketRun) (a : SocketAction) (r' : SocketRun) : Prop where
  live : ∀ i j, r'.page.Live i → r'.page.Live j → i = j
  once : r'.page.received.Nodup
  left : r.left = true → a ≠ .connect → r'.page.created = r.page.created

/-- The socket of `#ws` is neither connecting nor open. -/
def Vacant (s : Page) : Prop :=
  s.wsReadyState ≠ some .connecting ∧ s.wsReadyState ≠ some .opened

instance (s : Page) : Decidable (Vacant s) := inferInstanceAs (Decidable (_ ∧ _))

/-- Whatever calls `connect()` finds the last socket closing or closed, and a
timer finds one at all. -/
def Clear (r : SocketRun) : SocketAction → Prop
  | .connect => Vacant r.page
  | .timer _ => r.page.ws ≠ none ∧ Vacant r.page
  | _ => True

instance (r : SocketRun) : (a : SocketAction) → Decidable (Clear r a)
  | .connect => inferInstanceAs (Decidable (Vacant _))
  | .timer _ => inferInstanceAs (Decidable (_ ∧ _))
  | .disconnect | .send .. | .opened _ | .error _ | .closing _ | .closed _ | .serve .. | .message _
  | .tick => inferInstanceAs (Decidable True)

/-! ### What the runs keep -/

/-- Only the socket of `#ws` is live, and without one there is nothing left that
could call `connect()`. -/
structure Current (r : SocketRun) : Prop where
  live : ∀ i, r.page.Live i → r.page.ws = some i
  ws_lt : ∀ i, r.page.ws = some i → i < r.page.created
  left : r.left = true → r.page.ws = none
  idle : r.page.ws = none → r.left = true ∨ r.page.timers = [] ∧ ∀ i, r.page.readyState i = none

/-- No message of the server reaches the client twice. -/
structure Delivers (s : Page) : Prop where
  underWay_lt : ∀ i, ∀ n ∈ s.underWay i, n < s.served
  received_lt : ∀ n ∈ s.received, n < s.served
  underWay : ∀ i, (s.underWay i).Nodup
  fresh : ∀ i, s.Live i → ∀ n ∈ s.underWay i, n ∉ s.received
  received : s.received.Nodup

theorem current_start : Current start :=
  ⟨by simp [start, Page.new, Page.Live, Page.readyState], by simp [start, Page.new],
    by simp [start], by simp [start, Page.new, Page.readyState]⟩

theorem delivers_new : Delivers .new := by
  refine ⟨?_, ?_, ?_, ?_, ?_⟩ <;> simp [Page.new, Page.underWay, Page.received]

theorem Delivers.declines {s s' : Page} (hs : Delivers s) (h : s.Declines s') : Delivers s' := by
  refine ⟨?_, ?_, ?_, ?_, ?_⟩
  · rw [h.underWay, h.served]
    exact hs.underWay_lt
  · rw [h.received, h.served]
    exact hs.received_lt
  · rw [h.underWay]
    exact hs.underWay
  · intro i hi
    rw [h.underWay, h.received]
    exact hs.fresh i (h.live i hi)
  · rw [h.received]
    exact hs.received

/-! ### Messages of the server -/

theorem Delivers.connect {s : Page} (hs : Delivers s) : Delivers s.connect where
  underWay_lt i n hn := by
    rw [underWay_connect] at hn
    split at hn
    · cases hn
    · exact hs.underWay_lt i n hn
  received_lt := hs.received_lt
  underWay i := by
    rw [underWay_connect]
    split
    · exact .nil
    · exact hs.underWay i
  fresh i hi n hn := by
    rw [underWay_connect] at hn
    split at hn
    · cases hn
    · next hne => exact hs.fresh i (((live_connect s i).mp hi).resolve_left hne) n hn
  received := hs.received

theorem Delivers.serve {s : Page} (hs : Delivers s) (peers : Finset SocketId)
    (data : Option ServerData) : Delivers (s.serve peers data) := by
  have hmem : ∀ i, ∀ n ∈ (s.serve peers data).underWay i, n ∈ s.underWay i ∨ n = s.served := by
    intro i n hn
    rw [underWay_serve] at hn
    split at hn
    · simpa using hn
    · exact .inl hn
  refine ⟨fun i n hn => ?_, fun n hn => ?_, fun i => ?_, fun i hi n hn => ?_, hs.received⟩
  · rcases hmem i n hn with h | rfl
    · exact (hs.underWay_lt i n h).trans (Nat.lt_succ_self _)
    · exact Nat.lt_succ_self _
  · exact (hs.received_lt n hn).trans (Nat.lt_succ_self _)
  · rw [underWay_serve]
    split
    · refine (hs.underWay i).append (List.nodup_singleton _) ?_
      simpa using fun h => (hs.underWay_lt i _ h).ne rfl
    · exact hs.underWay i
  · rcases hmem i n hn with h | rfl
    · rw [Live, readyState_serve] at hi
      exact hs.fresh i hi n h
    · exact fun h => (hs.received_lt _ h).ne rfl

theorem Delivers.emit {s : Page} (hs : Delivers s) {m : ServerMessage}
    (hlt : m.number < s.served) (hnew : m.number ∉ s.received)
    (hgone : ∀ i, s.Live i → m.number ∉ s.underWay i) : Delivers (s.emit (.message m)) := by
  refine ⟨hs.underWay_lt, ?_, hs.underWay, ?_, ?_⟩
  · intro n hn
    rw [received_emit_message, List.mem_append, List.mem_singleton] at hn
    rcases hn with hn | rfl
    · exact hs.received_lt n hn
    · exact hlt
  · intro i hi n hn hmem
    rw [received_emit_message, List.mem_append, List.mem_singleton] at hmem
    rcases hmem with hmem | rfl
    · exact hs.fresh i hi n hn hmem
    · exact hgone i hi hn
  · rw [received_emit_message]
    refine hs.received.append (List.nodup_singleton _) ?_
    simpa using hnew

/-- Taking the next message off a socket. -/
theorem Delivers.take {s : Page} (hs : Delivers s) {i : SocketId} {w : WebSocket}
    {m : ServerMessage} {rest : List ServerMessage} (hw : s.sockets i = some w)
    (hm : w.inbound = m :: rest) : Delivers (s.modify i fun w => { w with inbound := rest }) := by
  have hunder : s.underWay i = m.number :: rest.map ServerMessage.number := by
    simp [Page.underWay, hw, hm]
  have hunder' : ∀ j, ((s.modify i fun w => { w with inbound := rest }).underWay j).Sublist
      (s.underWay j) := by
    intro j
    rw [underWay_modify]
    split
    · next hj =>
      rw [hj, hunder, hw]
      exact List.sublist_cons_self ..
    · exact .refl _
  have hlive : ∀ j, (s.modify i fun w => { w with inbound := rest }).Live j → s.Live j := by
    intro j hj
    rw [Live, readyState_modify] at hj
    split at hj
    · next e => exact e ▸ hj
    · exact hj
  exact ⟨fun j n hn => hs.underWay_lt j n ((hunder' j).subset hn), hs.received_lt,
    fun j => (hs.underWay j).sublist (hunder' j),
    fun j hj n hn => hs.fresh j (hlive j hj) n ((hunder' j).subset hn), hs.received⟩

/-- **A message is received once**: it is received on a live socket, and there is
no other on which it could be. -/
theorem Delivers.message {s : Page} (hs : Delivers s)
    (hone : ∀ i j, s.Live i → s.Live j → i = j) {i : SocketId} {w : WebSocket} {m : ServerMessage}
    {rest : List ServerMessage} (hw : s.sockets i = some w) (hopen : w.readyState = .opened)
    (hm : w.inbound = m :: rest) :
    Delivers ((s.modify i fun w => { w with inbound := rest }).onmessage m) := by
  have hlive : s.Live i := .inr (by simp [Page.readyState, hw, hopen])
  have hunder : s.underWay i = m.number :: rest.map ServerMessage.number := by
    simp [Page.underWay, hw, hm]
  have hmem : m.number ∈ s.underWay i := by simp [hunder]
  obtain ⟨s₀, hbefore, hafter⟩ :=
    talks_onmessage (s.modify i fun w => { w with inbound := rest }) m
  have hs₀ : Delivers s₀ := (hs.take hw hm).declines hbefore.declines
  refine (hs₀.emit ?_ ?_ ?_).declines hafter.declines
  · rw [hbefore.served]
    exact hs.underWay_lt i _ hmem
  · rw [hbefore.received]
    exact hs.fresh i hlive _ hmem
  · intro j hj
    rw [hbefore.live, Live, readyState_modify] at hj
    rw [hbefore.underWay, underWay_modify]
    split
    · have hnodup := hs.underWay i
      rw [hunder] at hnodup
      rw [hw]
      exact (List.nodup_cons.mp hnodup).1
    · next hne =>
      rw [if_neg hne] at hj
      exact absurd (hone j i hj hlive) hne

/-! ### The step -/

/-- A socket is created when no other one is live. -/
theorem current_connect {s : Page} (hlive : ∀ i, s.Live i → s.ws = some i) (hs : Vacant s) :
    Current ⟨s.connect, false⟩ where
  live i hi := by
    rcases (live_connect s i).mp hi with rfl | hi
    · rfl
    · have hws : s.wsReadyState = s.readyState i := by simp [wsReadyState, hlive i hi]
      rw [Vacant, hws] at hs
      exact absurd hi (not_or.mpr hs)
  ws_lt i hi := by
    obtain rfl := Option.some.inj hi
    exact Nat.lt_succ_self _
  left := by simp
  idle := by simp [connect]

theorem current_disconnect {s : Page} (hlive : ∀ i, s.Live i → s.ws = some i) :
    Current ⟨s.disconnect, true⟩ := by
  have hws : s.disconnect.ws = none := by
    rw [disconnect]
    split
    · next h => exact h
    · rfl
  refine ⟨fun i hi => ?_, fun i hi => ?_, fun _ => hws, fun _ => .inl rfl⟩
  · obtain ⟨hlive', hne⟩ := live_disconnect hi
    exact absurd (hlive i hlive') hne
  · rw [hws] at hi
    cases hi

/-- The client goes on with the socket it has. -/
structure Continues (s s' : Page) : Prop where
  created : s'.created = s.created
  ws : s'.ws = s.ws
  live : ∀ i, s'.Live i → s.Live i
  absent : ∀ i, s.readyState i = none → s'.readyState i = none
  timers : (∀ i, s.readyState i = none) → s'.timers = s.timers

theorem continues_of_talks {s s' : Page} (h : Talks s s') : Continues s s' where
  created := h.created
  ws := h.ws
  live i := (h.live i).mp
  absent i hi := by rw [h.readyState, hi]
  timers _ := h.timers

theorem Continues.trans {s s' s'' : Page} (h : Continues s s') (h' : Continues s' s'') :
    Continues s s'' where
  created := h'.created.trans h.created
  ws := h'.ws.trans h.ws
  live i hi := h.live i (h'.live i hi)
  absent i hi := h'.absent i (h.absent i hi)
  timers hnone := (h'.timers fun i => h.absent i (hnone i)).trans (h.timers hnone)

theorem continues_setReady {s : Page} {i : SocketId} {r : ReadyState}
    (h : r = .connecting ∨ r = .opened → s.Live i) : Continues s (s.setReady i r) where
  created := rfl
  ws := rfl
  live := (declines_setReady h).live
  absent j hj := by
    rw [setReady, readyState_modify]
    split
    · next e =>
      subst e
      simpa [readyState] using hj
    · exact hj
  timers _ := rfl

theorem continues_of_readyState {s s' : Page} (hcreated : s'.created = s.created)
    (hws : s'.ws = s.ws) (hready : s'.readyState = s.readyState) (htimers : s'.timers = s.timers) :
    Continues s s' := by
  refine ⟨hcreated, hws, fun i hi => ?_, fun i hi => ?_, fun _ => htimers⟩
  · rwa [Live, hready] at hi
  · rw [hready, hi]

theorem continues_message (s : Page) (i : SocketId) (rest : List ServerMessage)
    (m : ServerMessage) :
    Continues s ((s.modify i fun w => { w with inbound := rest }).onmessage m) := by
  obtain ⟨s₀, hbefore, hafter⟩ :=
    talks_onmessage (s.modify i fun w => { w with inbound := rest }) m
  have htake : Continues s (s.modify i fun w => { w with inbound := rest }) :=
    continues_of_readyState rfl rfl (readyState_take s i rest) rfl
  have hemit : Continues s₀ (s₀.emit (.message m)) := continues_of_readyState rfl rfl rfl rfl
  exact ((htake.trans (continues_of_talks hbefore)).trans hemit).trans (continues_of_talks hafter)

theorem current_continues {s s' : Page} {left : Bool} (hc : Current ⟨s, left⟩)
    (h : Continues s s') : Current ⟨s', left⟩ where
  live i hi := h.ws.trans (hc.live i (h.live i hi))
  ws_lt i hi := h.created ▸ hc.ws_lt i (h.ws.symm.trans hi)
  left hleft := h.ws.trans (hc.left hleft)
  idle hws := by
    rcases hc.idle (h.ws.symm.trans hws) with hleft | ⟨htimers, hnone⟩
    · exact .inl hleft
    · exact .inr ⟨(h.timers hnone).trans htimers, fun i => h.absent i (hnone i)⟩

/-- A close event sets a timer at most, and there is a socket then. -/
theorem closed_step {s : Page} {i : SocketId}
    (hi : (s.sockets i).map WebSocket.closeFired = some false) :
    Continues s
        (((s.setReady i .closed).modify i fun w => { w with closeFired := true }).onclose i) ∧
      Declines s
        (((s.setReady i .closed).modify i fun w => { w with closeFired := true }).onclose i) := by
  have hfired := talks_modify (s.setReady i .closed) i
    (f := fun w => { w with closeFired := true }) (fun _ => rfl) (fun _ => rfl)
  have htalks := hfired.trans
    (talks_onclose ((s.setReady i .closed).modify i fun w => { w with closeFired := true }) i)
  have hcont := (continues_setReady (s := s) (i := i) (r := .closed) (by simp)).trans
    (continues_of_talks htalks)
  have hdeclines := (declines_setReady (s := s) (i := i) (r := .closed) (by simp)).trans
    htalks.declines
  have hsocket : s.readyState i ≠ none := by
    rw [readyState, ne_eq, Option.map_eq_none_iff]
    intro hnone
    simp [hnone] at hi
  exact ⟨⟨hcont.created, hcont.ws, hcont.live, hcont.absent, fun hnone => absurd (hnone i) hsocket⟩,
    ⟨hdeclines.created, hdeclines.served, hdeclines.live, hdeclines.underWay,
      hdeclines.received⟩⟩

/-- The steps with which the client goes on and no message moves. -/
def Plain : SocketAction → Prop
  | .send .. | .opened _ | .error _ | .closing _ | .closed _ | .tick => True
  | .connect | .disconnect | .timer _ | .serve .. | .message _ => False

theorem plain_step {s s' : Page} {a : SocketAction} (ha : Plain a) (hstep : s.step a = some s') :
    Continues s s' ∧ Declines s s' := by
  have htalks : ∀ {t : Page}, Talks s t → Continues s t ∧ Declines s t :=
    fun h => ⟨continues_of_talks h, h.declines⟩
  have hafter : ∀ {t t' : Page}, Continues s t ∧ Declines s t → Talks t t' →
      Continues s t' ∧ Declines s t' :=
    fun h h' => ⟨h.1.trans (continues_of_talks h'), h.2.trans h'.declines⟩
  have hready : ∀ i r, (r = .connecting ∨ r = .opened → s.Live i) →
      Continues s (s.setReady i r) ∧ Declines s (s.setReady i r) :=
    fun _ _ h => ⟨continues_setReady h, declines_setReady h⟩
  cases a with
  | send type room payload msgId =>
      obtain rfl := Option.some.inj hstep
      exact htalks (talks_send s type room payload msgId)
  | opened i =>
      rw [Page.step, Option.ite_none_right_eq_some, Option.some_inj] at hstep
      obtain ⟨hi, rfl⟩ := hstep
      exact hafter (hready i .opened fun _ => .inl hi) (talks_onopen _ i)
  | error i =>
      rw [Page.step, Option.ite_none_right_eq_some, Option.some_inj] at hstep
      obtain ⟨-, rfl⟩ := hstep
      exact hafter (hready i .closed (by simp)) (talks_onerror _ i)
  | closing i =>
      rw [Page.step, Option.ite_none_right_eq_some, Option.some_inj] at hstep
      obtain ⟨-, rfl⟩ := hstep
      exact hready i .closing (by simp)
  | closed i =>
      rw [Page.step, Option.ite_none_right_eq_some, Option.some_inj] at hstep
      obtain ⟨hi, rfl⟩ := hstep
      exact closed_step hi
  | tick =>
      obtain rfl := Option.some.inj hstep
      exact htalks ⟨rfl, rfl, rfl, rfl, rfl, rfl, rfl⟩
  | _ => exact ha.elim

/-- What every run whose steps are clear keeps. -/
structure Sound (r : SocketRun) : Prop where
  current : Current r
  delivers : Delivers r.page

theorem sound_start : Sound start := ⟨current_start, delivers_new⟩

theorem Sound.one {r : SocketRun} (hr : Sound r) :
    ∀ i j, r.page.Live i → r.page.Live j → i = j := fun i j hi hj =>
  Option.some.inj ((hr.current.live i hi).symm.trans (hr.current.live j hj))

/-- A run's step is one of its page, and `connect()` is called by a client that
is not connected. -/
theorem step_page {r r' : SocketRun} {a : SocketAction} (hstep : r.step a = some r') :
    ¬(a = .connect ∧ r.page.connected) ∧ r.page.step a = some r'.page ∧
      r'.left = leaves r.left a := by
  rw [step] at hstep
  split at hstep
  · cases hstep
  · next h =>
    obtain ⟨s', hs', rfl⟩ := Option.map_eq_some_iff.mp hstep
    exact ⟨h, hs', rfl⟩

theorem sound_step {r r' : SocketRun} {a : SocketAction} (hr : Sound r) (ha : Clear r a)
    (hstep : r.step a = some r') : Sound r' := by
  obtain ⟨-, hpage, hleft⟩ := step_page hstep
  obtain ⟨s, left⟩ := r
  obtain ⟨s', left'⟩ := r'
  dsimp only at hpage hleft
  subst hleft
  have hplain : Plain a → leaves left a = left → Sound ⟨s', leaves left a⟩ := by
    intro ha hsame
    obtain ⟨hcont, hdeclines⟩ := plain_step ha hpage
    rw [hsame]
    exact ⟨current_continues hr.current hcont, hr.delivers.declines hdeclines⟩
  cases a with
  | connect =>
      obtain rfl := Option.some.inj hpage
      exact ⟨current_connect hr.current.live ha, hr.delivers.connect⟩
  | disconnect =>
      obtain rfl := Option.some.inj hpage
      exact ⟨current_disconnect hr.current.live, hr.delivers.declines (declines_disconnect s)⟩
  | timer t =>
      obtain ⟨-, rfl⟩ := timer_step hpage
      have hstays : left = false := by
        cases left with
        | false => rfl
        | true => exact absurd (hr.current.left rfl) ha.1
      subst hstays
      have htimer : s.Declines { s with timers := s.timers.filter (· ≠ t) } :=
        ⟨rfl, rfl, fun _ h => h, rfl, rfl⟩
      exact ⟨current_connect (s := { s with timers := s.timers.filter (· ≠ t) })
        hr.current.live ha.2, (hr.delivers.declines htimer).connect⟩
  | serve peers data =>
      obtain rfl := Option.some.inj hpage
      have hcont : Continues s (s.serve peers data) :=
        continues_of_readyState rfl rfl (readyState_serve s peers data) rfl
      exact ⟨current_continues hr.current hcont, hr.delivers.serve peers data⟩
  | message i =>
      obtain ⟨w, m, rest, hw, hopen, hm, rfl⟩ := message_step hpage
      exact ⟨current_continues hr.current (continues_message s i rest m),
        hr.delivers.message hr.one hw hopen hm⟩
  | send | opened | error | closing | closed | tick => exact hplain trivial rfl

theorem live_of_wsReadyState {s : Page} {r : ReadyState} (hr : r = .connecting ∨ r = .opened)
    (h : s.wsReadyState = some r) : ∃ i, s.ws = some i ∧ s.Live i := by
  obtain ⟨i, hi, hri⟩ := Option.bind_eq_some_iff.mp h
  refine ⟨i, hi, ?_⟩
  rcases hr with rfl | rfl
  · exact .inl hri
  · exact .inr hri

/-- A socket that is created beside a live one makes two. -/
theorem vacant_of_connect {s : Page} (hws : ∀ i, s.ws = some i → i < s.created)
    (hone : ∀ i j, s.connect.Live i → s.connect.Live j → i = j) : Vacant s := by
  have hno : ∀ r, r = .connecting ∨ r = .opened → s.wsReadyState ≠ some r := by
    intro r hr h
    obtain ⟨i, hi, hlive⟩ := live_of_wsReadyState hr h
    have heq := hone i s.created ((live_connect s i).mpr (.inr hlive))
      ((live_connect s _).mpr (.inl rfl))
    exact (hws i hi).ne heq
  exact ⟨hno _ (.inl rfl), hno _ (.inr rfl)⟩

/-- In a sound run a step leaves one live socket exactly if it is clear. -/
theorem oneSocket_iff_clear {r r' : SocketRun} {a : SocketAction} (hr : Sound r)
    (hstep : r.step a = some r') : OneSocket r a r' ↔ Clear r a := by
  obtain ⟨-, hpage, -⟩ := step_page hstep
  constructor
  · intro hone
    cases a with
    | connect =>
        have hs' := Option.some.inj hpage
        exact vacant_of_connect hr.current.ws_lt (hs' ▸ hone.live)
    | timer t =>
        obtain ⟨ht, hs'⟩ := timer_step hpage
        have hvacant : Vacant { r.page with timers := r.page.timers.filter (· ≠ t) } :=
          vacant_of_connect hr.current.ws_lt (hs' ▸ hone.live)
        refine ⟨fun hws => ?_, hvacant⟩
        rcases hr.current.idle hws with hleft | ⟨htimers, -⟩
        · have hcreated := hone.left hleft (by simp)
          rw [hs'] at hcreated
          exact absurd hcreated (Nat.succ_ne_self _)
        · rw [htimers] at ht
          cases ht
    | _ => trivial
  · intro ha
    have hr' := sound_step hr ha hstep
    have hplain : Plain a → r'.page.created = r.page.created :=
      fun h => (plain_step h hpage).1.created
    refine ⟨hr'.one, hr'.delivers.received, fun hleft hconnect => ?_⟩
    cases a with
    | connect => exact absurd rfl hconnect
    | timer t => exact absurd (hr.current.left hleft) ha.1
    | disconnect =>
        rw [← Option.some.inj hpage]
        exact (declines_disconnect _).created
    | serve peers data =>
        rw [← Option.some.inj hpage]
        rfl
    | message i =>
        obtain ⟨w, m, rest, -, -, -, hs'⟩ := message_step hpage
        rw [hs']
        exact (continues_message _ _ _ _).created
    | send | opened | error | closing | closed | tick => exact hplain trivial

/-- **One live socket.** In every run of a client, at most one socket is live at a
time, no message of the server is emitted twice and no socket is created after a
disconnect, if and only if every call of `connect()` and every timer finds the
last socket closing or closed. -/
theorem oneSocket_iff (as : List SocketAction) :
    Along step OneSocket start as ↔ Along step (fun r a _ => Clear r a) start as :=
  along_congr (P := OneSocket) (Q := fun r a _ => Clear r a) (I := Sound)
    (fun _ _ _ hr ha hstep => sound_step hr ha hstep)
    (fun _ _ _ hr hstep => oneSocket_iff_clear hr hstep) sound_start

/-- A client in a room loses its connection, and a room is joined by hand before
the reconnect timer fires. -/
def joinWhileReconnecting : List SocketAction :=
  [.connect, .opened 0, .send .join "r" none none, .closed 0, .connect, .timer 0]

/-- **A reconnect timer opens a second socket.** `connect()` leaves the timer set. -/
theorem joinWhileReconnecting_two : ¬∀ as, Along step OneSocket start as := by
  intro h
  have hall := h joinWhileReconnecting
  have hlast := ((((((hall _ rfl).2 _ rfl).2 _ rfl).2 _ rfl).2 _ rfl).2 _ rfl).1
  have hone := hlast.live 1 2 (.inl rfl) (.inl rfl)
  exact absurd hone (by decide)

end SocketRun

end TrapChat.Client
