import TrapChat.Gateway.Shapes

/-!
Sends on, and closes of, the peers' queues. A queue has two closers: the cleanup
of its connection and a `disconnectAllPeers` call that takes the peer out of its
last room. The second always meets the first, and either may overtake a broadcast
that has the peer among its targets and has not come to it.
-/

namespace TrapChat.Gateway

open Storage Protocol Transition

/-- The peer an operation sends to. -/
def Op.receiver : Op → Option PeerID
  | .enqueue p _ => some p
  | _ => none

/-- No `disconnectAllPeers` call takes a connected peer out of its last room, and
a cleanup closes the queue when no send to the peer is outstanding. -/
def Uncontested (s : Process) : Action → Prop
  | .run t _ _ =>
    match (s.code t).head? with
    | some (.detach room p) => ¬s.server.lastRoom room p
    | some (.closeSend p) => ∀ t' ∈ s.tasks, ∀ op ∈ s.code t', op.receiver ≠ some p
    | _ => True
  | _ => True

instance (s : Process) (a : Action) : Decidable (Uncontested s a) := by
  induction a using Action.casesOn <;> unfold Uncontested <;> try infer_instance
  case run t _ _ =>
    dsimp only
    generalize (s.code t).head? = o
    induction o using Option.casesOn with
    | none => infer_instance
    | some op => induction op using Op.casesOn <;> infer_instance

/-- Nothing has been sent on a closed queue, no queue has been closed twice, and
so nothing has brought the process down. -/
structure QueuesSound (s : Process) : Prop where
  unsent : s.sentClosed = false
  once : ∀ p, s.closes p ≤ 1
  alive : s.crashed = false

/-! ### The invariant -/

/-- The handler of a connection has closed the queue. -/
def Closed (phase : Phase) (p : PeerID) (code : List Op) : Prop :=
  phase = .returned ∨ phase = .cleanup ∧ code = [.handlerReturn p]

structure Queues (s : Process) : Prop where
  unsent : s.sentClosed = false
  alive : s.crashed = false
  closer : ∀ t p, .closeSend p ∈ s.code t → t = .handler p
  once : ∀ p, s.closes p ≤ 1
  closed : ∀ p, s.closes p ≠ 0 → Closed (s.phase p) p (s.code (.handler p))
  unsendable : ∀ p, s.closes p ≠ 0 → ∀ t env, .enqueue p env ∉ s.code t

variable {rt : GoRuntime} {s s' : Process} {t : Task} {order : List String} {now : Time} {op : Op}
  {rest : List Op} {p : PeerID}

theorem queues_newProcess : Queues newProcess where
  unsent := rfl
  alive := rfl
  closer := by simp [newProcess]
  once := by simp [newProcess]
  closed := by simp [newProcess]
  unsendable := by simp [newProcess]

theorem Queues.open_of_phase (hs : Queues s) (hphase : s.phase p ≠ .returned)
    (hcleanup : s.phase p ≠ .cleanup) : s.closes p = 0 := by
  by_contra h
  obtain hret | ⟨hclean, -⟩ := hs.closed p h
  · exact hphase hret
  · exact hcleanup hclean

/-- The frame rule: one goroutine is given something to do, whose closes are its
own and whose sends go to open queues. -/
theorem Queues.assign (hs : Queues s) {server : Server} {phase : PeerID → Phase}
    {code : List Op} (hphase : ∀ p, .handler p ≠ t → phase p = s.phase p)
    (hclose : ∀ p, .closeSend p ∈ code → t = .handler p)
    (hsend : ∀ p env, .enqueue p env ∈ code → s.closes p = 0)
    (hopen : ∀ p, t = .handler p → s.closes p ≠ 0 → Closed (phase p) p code) :
    Queues ({ s with server := server, phase := phase }.setCode t code) where
  unsent := hs.unsent
  alive := hs.alive
  closer := by
    intro t' p hp
    by_cases ht : t' = t
    · rw [ht] at hp ⊢
      exact hclose p (by simpa [Process.setCode] using hp)
    · exact hs.closer t' p (by simpa [Process.setCode, ht] using hp)
  once := hs.once
  closed := by
    intro p hp
    show Closed (phase p) p (Function.update s.code t code (.handler p))
    by_cases ht : t = .handler p
    · rw [ht, Function.update_self]
      exact hopen p ht hp
    · rw [Function.update_of_ne (Ne.symm ht), hphase p (Ne.symm ht)]
      exact hs.closed p hp
  unsendable := by
    intro p hp t' env hmem
    by_cases ht : t' = t
    · rw [ht] at hmem
      exact hp (hsend p env (by simpa [Process.setCode] using hmem))
    · exact hs.unsendable p hp t' env (by simpa [Process.setCode, ht] using hmem)

/-- A goroutine that has nothing of a handler is given something to do. -/
theorem Queues.start (hs : Queues s) {code : List Op} (ht : ∀ p, t ≠ .handler p)
    (hclose : ∀ p, .closeSend p ∉ code) (hsend : ∀ p env, .enqueue p env ∉ code) :
    Queues (s.setCode t code) :=
  hs.assign (fun _ _ => rfl) (fun p hp => absurd hp (hclose p))
    (fun p env hp => absurd hp (hsend p env)) fun p hp => absurd hp (ht p)

/-- A handler that has not closed its queue is given something to do. -/
theorem Queues.startHandler (hs : Queues s) {phase : PeerID → Phase} {code : List Op}
    (hopen : s.closes p = 0) (hphase : ∀ q, q ≠ p → phase q = s.phase q)
    (hclose : ∀ q, .closeSend q ∈ code → q = p)
    (hsend : ∀ q env, .enqueue q env ∈ code → q = p) :
    Queues ({ s with phase := phase }.setCode (.handler p) code) := by
  apply hs.assign
  · exact fun q hq => hphase q fun h => hq (by rw [h])
  · exact fun q hq => by rw [hclose q hq]
  · exact fun q env hq => hsend q env hq ▸ hopen
  · intro q hq hclosed
    obtain rfl := Task.handler.inj hq
    exact absurd hopen hclosed

/-- An operation is made by a goroutine that has not closed a queue of its own. -/
theorem Queues.open_of_code (hs : Queues s) (hformed : Formed s)
    (hcode : s.code (.handler p) = op :: rest) (hop : op ≠ .handlerReturn p) :
    s.closes p = 0 := by
  by_contra h
  obtain hret | ⟨-, hlast⟩ := hs.closed p h
  · have hshape : HandlerShape s.server p (s.phase p) (op :: rest) :=
      hcode ▸ hformed.shape (.handler p)
    rw [hret] at hshape
    cases hshape
  · rw [hcode] at hlast
    exact hop (List.cons.inj hlast).1

/-- The cleanup closes the queue, with no send to it outstanding. -/
theorem Queues.close (hs : Queues s) (hopen : s.closes p = 0) (hphase : s.phase p = .cleanup)
    (hnone : ∀ t env, .enqueue p env ∉ s.code t) :
    Queues ((s.close p).setCode (.handler p) [.handlerReturn p]) where
  unsent := hs.unsent
  alive := hs.alive
  closer := by
    intro t q hq
    by_cases ht : t = .handler p
    · simp [Process.setCode, ht] at hq
    · exact hs.closer t q (by simpa [Process.setCode, Process.close, ht] using hq)
  once := by
    intro q
    show Function.update s.closes p (s.closes p + 1) q ≤ 1
    by_cases hq : q = p
    · rw [hq, Function.update_self, hopen]
    · rw [Function.update_of_ne hq]
      exact hs.once q
  closed := by
    intro q hq
    show Closed (s.phase q) q (Function.update s.code (.handler p) [.handlerReturn p] (.handler q))
    by_cases hqp : q = p
    · rw [hqp, Function.update_self]
      exact .inr ⟨hphase, rfl⟩
    · rw [Function.update_of_ne (by simpa using hqp)]
      exact hs.closed q (by simpa [Process.setCode, Process.close, hqp] using hq)
  unsendable := by
    intro q hq t env hmem
    have hold : .enqueue q env ∈ s.code t := by
      by_cases ht : t = .handler p
      · simp [Process.setCode, ht] at hmem
      · simpa [Process.setCode, Process.close, ht] using hmem
    by_cases hqp : q = p
    · exact hnone t env (hqp ▸ hold)
    · exact hs.unsendable q (by simpa [Process.setCode, Process.close, hqp] using hq) t env hold

/-- An operation on the gateway's state leads to no send to a closed queue. -/
theorem Queues.serve {server : Server} {ops : List Op} (hs : Queues s) (hformed : Formed s)
    (hcode : s.code t = op :: rest)
    (hexec : execute rt s.server order now op = some (server, ops))
    (hdetach : ∀ room p, op = .detach room p → ¬s.server.lastRoom room p) :
    Queues ({ s with server := server }.setCode t (ops ++ rest)) := by
  have hmem : ∀ o ∈ op :: rest, o ∈ s.code t := fun o ho => hcode ▸ ho
  have hop : op ∈ s.code t := hmem op List.mem_cons_self
  apply hs.assign (fun _ _ => rfl)
  · intro p hp
    rcases List.mem_append.mp hp with hp | hp
    · obtain ⟨room, heq, hlast⟩ := closeSend_of_execute hexec hp
      exact absurd hlast (hdetach room p heq)
    · exact hs.closer t p (hmem _ (List.mem_cons_of_mem _ hp))
  · intro p env hp
    by_contra hclosed
    rcases List.mem_append.mp hp with hp | hp
    · -- the peer is out of the maps, and its handler is past its own operations
      have hclosure := hs.closed p hclosed
      obtain hconn | howner := enqueue_of_execute hexec hp
      · exact (HandlerShape.gone (hformed.shape (.handler p)) hclosure).1 hconn
      · obtain ⟨-, hrun | ⟨hstart, -⟩⟩ := hformed.owner hop howner
        · simp [Closed, hrun] at hclosure
        · simp [Closed, hstart] at hclosure
    · exact hs.unsendable p hclosed t env (hmem _ (List.mem_cons_of_mem _ hp))
  · rintro p rfl hclosed
    refine absurd (hs.open_of_code hformed hcode ?_) hclosed
    rintro rfl
    cases hexec

theorem Queues.runOp (hs : Queues s) (hformed : Formed s)
    (hcode : s.code t = op :: rest) (hcond : Uncontested s (.run t order now))
    (h : runOp rt s t rest order now op = some s') : Queues s' := by
  have hmem : ∀ o ∈ op :: rest, o ∈ s.code t := fun o ho => hcode ▸ ho
  have hop : op ∈ s.code t := hmem op List.mem_cons_self
  have hshape : Shape s.server s.phase (op :: rest) t := hcode ▸ hformed.shape t
  simp only [Uncontested, hcode, List.head?_cons] at hcond
  cases op with
  | enqueue q env =>
      have hq : s.closes q = 0 := by
        by_contra hne
        exact hs.unsendable q hne t env hop
      simp only [Gateway.runOp, hq, if_true, Option.some.injEq] at h
      subst h
      apply hs.assign (fun _ _ => rfl)
      · exact fun p hp => hs.closer t p (hmem _ (List.mem_cons_of_mem _ hp))
      · intro p env hp
        by_contra hne
        exact hs.unsendable p hne t env (hmem _ (List.mem_cons_of_mem _ hp))
      · rintro p rfl hclosed
        exact absurd (hs.open_of_code hformed hcode (by simp)) hclosed
  | closeSend q =>
      obtain rfl := hs.closer t q hop
      have hq : s.closes q = 0 := hs.open_of_code hformed hcode (by simp)
      obtain ⟨-, hphase, rfl, -⟩ := HandlerShape.of_closeSend hshape
      simp only [Gateway.runOp, hq, if_true, Option.some.injEq] at h
      subst h
      refine hs.close hq hphase fun t env hmem => ?_
      exact hcond t (hformed.mem_tasks hmem) _ hmem rfl
  | deferCleanup q =>
      simp only [Gateway.runOp, Option.some.injEq] at h
      subst h
      obtain ⟨rfl, -⟩ := hformed.owner hop (q := q) rfl
      obtain ⟨-, rfl⟩ := HandlerShape.of_deferCleanup hshape
      refine hs.startHandler (hs.open_of_code hformed hcode (by simp)) ?_ (by simp) (by simp)
      exact fun p hp => Function.update_of_ne hp _ _
  | handlerReturn q =>
      simp only [Gateway.runOp, Option.some.injEq] at h
      subst h
      cases t with
      | handler p =>
          obtain ⟨rfl, -, rfl, -⟩ := HandlerShape.of_handlerReturn hshape
          refine hs.assign (fun p hp => Function.update_of_ne (by simpa using hp) _ _) (by simp)
            (by simp) fun p hp _ => ?_
          obtain rfl := Task.handler.inj hp
          exact .inl (Function.update_self _ _ _)
      | _ => cases hshape.1 _ List.mem_cons_self
  | _ =>
      simp only [Gateway.runOp, Option.map_eq_some_iff] at h
      obtain ⟨⟨server, ops⟩, hexec, rfl⟩ := h
      exact hs.serve hformed hcode hexec (by rintro _ _ ⟨⟩ <;> exact hcond)

theorem Queues.act {a : Action} (hs : Queues s) (hformed : Formed s) (hcond : Uncontested s a)
    (h : act rt s a = some s') : Queues s' := by
  cases a with
  | connect p now =>
      simp only [Gateway.act, Option.ite_none_right_eq_some, Option.some.injEq] at h
      obtain ⟨hphase, rfl⟩ := h
      refine hs.startHandler (hs.open_of_phase (by simp [hphase]) (by simp [hphase]))
        (fun q hq => Function.update_of_ne hq _ _) (by simp) (fun q env hq => ?_)
      simp only [List.mem_cons, reduceCtorEq, Op.enqueue.injEq, List.not_mem_nil, or_false,
        false_or] at hq
      exact hq.1
  | frame p frame now =>
      simp only [Gateway.act, Option.ite_none_right_eq_some, Option.some.injEq] at h
      obtain ⟨⟨hphase, -⟩, rfl⟩ := h
      have hmessages : Messages p (frameCode rt p frame now) := messages_frameCode frame
      refine hs.startHandler (hs.open_of_phase (by simp [hphase]) (by simp [hphase]))
        (fun _ _ => rfl) (fun q hq => ?_) fun q env hq => enqueue_frameCode hq
      cases hmessages.1 _ hq
  | readError p =>
      simp only [Gateway.act, Option.ite_none_right_eq_some, Option.some.injEq] at h
      obtain ⟨⟨hphase, -⟩, rfl⟩ := h
      refine hs.startHandler (hs.open_of_phase (by simp [hphase]) (by simp [hphase]))
        (fun q hq => Function.update_of_ne hq _ _) (fun q hq => ?_) (by simp [cleanupCode])
      simpa [cleanupCode] using hq
  | cleanupRequest n room =>
      simp only [Gateway.act, Option.ite_none_right_eq_some, Option.some.injEq] at h
      obtain ⟨-, rfl⟩ := h
      exact hs.start (by simp) (by simp) (by simp)
  | broadcastRequest n room type payload now =>
      simp only [Gateway.act, Option.ite_none_right_eq_some, Option.some.injEq] at h
      obtain ⟨-, rfl⟩ := h
      exact hs.start (by simp) (by simp) (by simp)
  | tick =>
      simp only [Gateway.act, Option.ite_none_right_eq_some, Option.some.injEq] at h
      obtain ⟨-, rfl⟩ := h
      exact hs.start (by simp) (by simp) (by simp)
  | relayed i env =>
      simp only [Gateway.act, Option.ite_none_right_eq_some, Option.some.injEq] at h
      obtain ⟨-, rfl⟩ := h
      exact hs.start (by simp) (by simp) (by simp)
  | run t order now =>
      cases hcode : s.code t with
      | nil => simp [Gateway.act, hcode] at h
      | cons op rest =>
          simp only [Gateway.act, hcode] at h
          exact hs.runOp hformed hcode hcond h

theorem queues_of_reachable (hs : ReachableVia (processStep rt) Uncontested newProcess s) :
    Queues s := by
  refine hs.invariant_of (I := Formed) (J := Queues) (fun _ => formed_of_reachable)
    queues_newProcess fun _ _ _ hformed hqueues hcond hstep => ?_
  exact hqueues.act hformed hcond (Option.ite_none_left_eq_some.mp hstep).2

/-- **Closed queues are left alone.** In every run in which no peer is taken out
of its last room by `disconnectAllPeers` and no cleanup overtakes a send,
nothing is sent on a closed queue and no queue is closed twice. -/
theorem queues_sound (hs : ReachableVia (processStep rt) Uncontested newProcess s) :
    QueuesSound s :=
  have hqueues := queues_of_reachable hs
  ⟨hqueues.unsent, hqueues.once, hqueues.alive⟩

theorem joinAndDisconnect_run : (execVia (processStep (asciiRuntime "" {})) Uncontested newProcess
    joinAndDisconnect).isSome = true := by
  decide

theorem queues_sound_joinAndDisconnect :
    QueuesSound ((execVia (processStep (asciiRuntime "" {})) Uncontested newProcess
      joinAndDisconnect).get joinAndDisconnect_run) :=
  queues_sound (reachableVia_get joinAndDisconnect_run)

/-- A peer's only room is cleaned up, and then its connection ends. -/
def cleanupAndDisconnect : List Action :=
  connectAndJoin "a" "r" ++ .cleanupRequest 0 "r" :: runs (.http 0) [["a"], [], [], [], []] ++
    .readError "a" :: runs (.handler "a") [[], [], [], [], []]

theorem cleanupAndDisconnect_run : (exec (processStep (asciiRuntime "" {})) newProcess
    cleanupAndDisconnect).isSome = true := by
  decide

/-- **The queue is closed twice**, by the request and by the peer's own cleanup. -/
theorem cleanupAndDisconnect_closes_twice :
    ¬∀ s, Reachable (processStep (asciiRuntime "" {})) newProcess s → QueuesSound s := by
  intro h
  have honce := (h _ (reachable_get cleanupAndDisconnect_run)).once "a"
  have htwice : ((exec (processStep (asciiRuntime "" {})) newProcess cleanupAndDisconnect).get
      cleanupAndDisconnect_run).closes "a" = 2 := by decide
  rw [htwice] at honce
  exact absurd honce (by decide)

end TrapChat.Gateway
