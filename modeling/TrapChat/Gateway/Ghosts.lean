import TrapChat.Gateway.Shapes

/-!
Peers that outlive their connection in the store. A join enters its room in the
peer's set and the peer in the store in two critical sections, a
`disconnectAllPeers` call takes both out again in two others, and the cleanup of
the connection walks the rooms of the set only. Whatever the store has and the
set has not is a ghost unless somebody is still about to take it out.
-/

namespace TrapChat.Gateway

open Storage Protocol Transition

/-- The peer whose handler returns with the next operation of a goroutine. It may
return by a panic of its cleanup. -/
def Process.returning (s : Process) : Task → Option PeerID
  | .handler p =>
    match (s.code (.handler p)).head? with
    | some (.handlerReturn _) => some p
    | some (.enqueue q _) | some (.closeSend q) =>
      if s.closes q ≠ 0 ∧ s.phase p ≠ .running then some p else none
    | _ => none
  | _ => none

/-- An operation is not the `Leave` of a peer from a room that it is still in. -/
def Op.spares (store : Store) (p : PeerID) : Op → Prop
  | .leaveStore room q => q = p → p ∉ store.peers room
  | _ => True

instance (store : Store) (p : PeerID) (op : Op) : Decidable (op.spares store p) := by
  cases op <;> unfold Op.spares <;> infer_instance

/-- A join enters the store only while the room is in the peer's set or a `Leave`
for it is outstanding, and a handler returns only when no `Leave` is outstanding
for a room that its peer is in. -/
def Accounted (s : Process) : Action → Prop
  | .run t _ _ =>
    (match (s.code t).head? with
      | some (.storeJoin p room _ _) =>
        room ∈ s.server.roomsOf p ∨ ∃ t' ∈ s.tasks, .leaveStore room p ∈ s.code t'
      | _ => True) ∧
    ∀ p ∈ s.returning t, ∀ t' ∈ s.tasks, ∀ op ∈ s.code t', op.spares s.server.store p
  | _ => True

instance (s : Process) (a : Action) : Decidable (Accounted s a) := by
  cases a <;> unfold Accounted <;> first
    | infer_instance
    | (refine @instDecidableAnd _ _ ?_ inferInstance; split <;> infer_instance)

/-- Nothing is left of a peer whose handler has returned, and so nothing of a room
that had only such peers. -/
structure GhostFree (s : Process) : Prop where
  gone : ∀ p, s.phase p = .returned →
    p ∉ s.server.conns ∧ s.server.peerRooms p = none ∧ ∀ room, p ∉ s.server.store.peers room
  deleted : ∀ room, (∀ p ∈ s.server.store.peers room, s.phase p = .returned) →
    s.server.store.rooms.lookup room = none ∧ s.server.store.roomSalt room = []

/-! ### The invariant -/

structure Ghosts (s : Process) : Prop where
  recorded : ∀ p room, p ∈ s.server.store.peers room →
    room ∈ s.server.roomsOf p ∨ ∃ t, .leaveStore room p ∈ s.code t
  removing : ∀ t p room, .removeRoom p room ∈ s.code t → p ∉ s.server.store.peers room
  returned : ∀ p, s.phase p = .returned → ∀ room, p ∉ s.server.store.peers room

variable {rt : GoRuntime} {s s' : Process} {t : Task} {order : List String} {now : Time} {op : Op}
  {rest : List Op} {p : PeerID} {room : RoomName}

theorem ghosts_newProcess : Ghosts newProcess where
  recorded := fun p room h => by cases h
  removing := fun t p room h => by cases h
  returned := fun p h => by cases h

/-- The frame rule: one goroutine is given something to do and forgets no `Leave`. -/
theorem Ghosts.assign (hs : Ghosts s) {phase : PeerID → Phase} {code : List Op}
    (hleave : ∀ p room, .leaveStore room p ∈ s.code t → p ∈ s.server.store.peers room →
      .leaveStore room p ∈ code)
    (hremove : ∀ p room, .removeRoom p room ∈ code → p ∉ s.server.store.peers room)
    (hreturn : ∀ p, phase p = .returned → ∀ room, p ∉ s.server.store.peers room) :
    Ghosts ({ s with phase := phase }.setCode t code) where
  recorded := by
    intro p room hp
    obtain hroom | ⟨t', ht'⟩ := hs.recorded p room hp
    · exact .inl hroom
    · refine .inr ⟨t', ?_⟩
      by_cases ht : t' = t
      · rw [ht] at ht' ⊢
        simpa [Process.setCode] using hleave p room ht' hp
      · simpa [Process.setCode, ht] using ht'
  removing := by
    intro t' p room hp
    by_cases ht : t' = t
    · exact hremove p room (by simpa [Process.setCode, ht] using hp)
    · exact hs.removing t' p room (by simpa [Process.setCode, ht] using hp)
  returned := hreturn

/-- A goroutine that has nothing to do is given something. -/
theorem Ghosts.start (hs : Ghosts s) {phase : PeerID → Phase} {code : List Op}
    (hidle : s.code t = []) (hremove : ∀ p room, .removeRoom p room ∉ code)
    (hphase : ∀ p, phase p = .returned → s.phase p = .returned) :
    Ghosts ({ s with phase := phase }.setCode t code) := by
  apply hs.assign
  · intro p room hp
    rw [hidle] at hp
    cases hp
  · exact fun p room hp => absurd hp (hremove p room)
  · exact fun p hp => hs.returned p (hphase p hp)

/-- What a handler that returns has accounted for. -/
theorem Ghosts.account (hs : Ghosts s) (hformed : Formed s) (hgone : s.server.Gone p)
    (hspare : ∀ t ∈ s.tasks, ∀ op ∈ s.code t, op.spares s.server.store p) (room : RoomName) :
    p ∉ s.server.store.peers room := by
  intro hp
  obtain hroom | ⟨t, ht⟩ := hs.recorded p room hp
  · simp [Server.roomsOf, hgone.2] at hroom
  · exact hspare t (hformed.mem_tasks ht) _ ht rfl hp

/-- Only the leave handler comes to take a room out of a set, after it has left
the room in the store. -/
theorem removeRoom_of_execute {server server' : Server} {ops : List Op}
    (h : execute rt server order now op = some (server', ops))
    (hp : .removeRoom p room ∈ ops) : op = .leaveRoom p room := by
  obtain hsend | hleads := leads_of_execute h hp
  · cases hsend
  · cases hleads
    rfl

/-- An operation on the gateway's state. -/
theorem Ghosts.serve {server : Server} {ops : List Op} (hs : Ghosts s) (hformed : Formed s)
    (hcode : s.code t = op :: rest)
    (hexec : execute rt s.server order now op = some (server, ops))
    (hjoin : ∀ p room jp salt, op = .storeJoin p room jp salt →
      room ∈ s.server.roomsOf p ∨ ∃ t', .leaveStore room p ∈ s.code t') :
    Ghosts ({ s with server := server }.setCode t (ops ++ rest)) := by
  have hop : op ∈ s.code t := by
    rw [hcode]
    exact List.mem_cons_self
  have hkept : ∀ t' o, o ∈ s.code t' → o ≠ op →
      o ∈ Function.update s.code t (ops ++ rest) t' := by
    intro t' o ho hne
    by_cases ht : t' = t
    · rw [ht, hcode] at ho
      rw [ht, Function.update_self]
      obtain rfl | ho := List.mem_cons.mp ho
      · exact absurd rfl hne
      · exact List.mem_append_right _ ho
    · rwa [Function.update_of_ne ht]
  refine ⟨?_, ?_, ?_⟩
  · intro p room hp
    show room ∈ server.roomsOf p ∨ ∃ t', .leaveStore room p ∈ Function.update s.code t _ t'
    have hmem : p ∈ server.store.peers room := hp
    have hrecord : room ∈ s.server.roomsOf p ∨ ∃ t', .leaveStore room p ∈ s.code t' := by
      obtain hold | ⟨jp, salt, rfl⟩ := peers_of_execute hexec hmem
      · exact hs.recorded p room hold
      · exact hjoin p room jp salt rfl
    obtain hroom | ⟨t', ht'⟩ := hrecord
    · obtain hkeep | rfl | rfl | rfl := roomsOf_of_execute hexec hroom
      · exact .inl hkeep
      · -- the leave handler has left the room in the store before
        obtain hold | ⟨jp, salt, heq⟩ := peers_of_execute hexec hmem
        · exact absurd hold (hs.removing t p room hop)
        · cases heq
      · cases hexec
        refine .inr ⟨t, ?_⟩
        rw [Function.update_self]
        split <;> simp
      · obtain ⟨henum, hexec⟩ := Option.ite_none_right_eq_some.mp hexec
        cases hexec
        refine .inr ⟨t, ?_⟩
        rw [Function.update_self]
        refine List.mem_append_left _ (List.mem_flatMap.mpr ⟨room, henum.mem_iff.mpr hroom, ?_⟩)
        exact List.mem_cons_self
    · by_cases heq : .leaveStore room p = op
      · subst heq
        cases hexec
        exact absurd ⟨rfl, rfl⟩ (Store.mem_peers_leave.mp hmem).1
      · exact .inr ⟨t', hkept t' _ ht' heq⟩
  · intro t' p room hp hmem
    have hin : .removeRoom p room ∈ ops ∨ .removeRoom p room ∈ s.code t' := by
      by_cases ht : t' = t
      · have hp' : .removeRoom p room ∈ ops ++ rest := by simpa [Process.setCode, ht] using hp
        rw [ht, hcode]
        exact (List.mem_append.mp hp').imp_right (List.mem_cons_of_mem _)
      · exact .inr (by simpa [Process.setCode, ht] using hp)
    obtain hops | hold := hin
    · obtain rfl := removeRoom_of_execute hexec hops
      cases hexec
      exact absurd ⟨rfl, rfl⟩ (Store.mem_peers_leave.mp hmem).1
    · obtain hmem | ⟨jp, salt, rfl⟩ := peers_of_execute hexec hmem
      · exact hs.removing t' p room hold hmem
      · -- one handler does not join and leave at the same time
        obtain ⟨rfl, hrun⟩ := hformed.owner hop rfl
        obtain ⟨rfl, -⟩ := hformed.owner hold rfl
        have hshape : HandlerShape s.server p (s.phase p) (s.code (.handler p)) :=
          hformed.shape (.handler p)
        have hrunning : s.phase p = .running := hrun.resolve_right (by simp [Op.message, Op.owner])
        rw [hrunning, hcode] at hshape
        rw [hcode] at hold
        obtain hne | hrest := List.mem_cons.mp hold
        · cases hne
        · cases hshape.messages.2 _ hrest
  · intro p hp room hmem
    obtain hmem | ⟨jp, salt, rfl⟩ := peers_of_execute hexec hmem
    · exact hs.returned p hp room hmem
    · have hphase : s.phase p = .returned := hp
      obtain ⟨-, hrun | ⟨hstart, -⟩⟩ := hformed.owner hop (q := p) rfl
      · rw [hphase] at hrun
        cases hrun
      · rw [hphase] at hstart
        cases hstart

/-- A goroutine goes on after an operation that is not a `Leave`. -/
theorem Ghosts.proceed (hs : Ghosts s) {phase : PeerID → Phase} (hcode : s.code t = op :: rest)
    (hop : op.leaves = false)
    (hreturn : ∀ p, phase p = .returned → ∀ room, p ∉ s.server.store.peers room) :
    Ghosts ({ s with phase := phase }.setCode t rest) := by
  apply hs.assign
  · intro p room hp _
    rw [hcode] at hp
    obtain rfl | hp := List.mem_cons.mp hp
    · cases hop
    · exact hp
  · intro p room hp
    refine hs.removing t p room ?_
    rw [hcode]
    exact List.mem_cons_of_mem _ hp
  · exact hreturn

/-- A goroutine panics on a queue. -/
theorem Ghosts.panics (hs : Ghosts s) (hformed : Formed s) (hcode : s.code t = op :: rest)
    (hop : op.leaves = false)
    (hreturn : ∀ p, t = .handler p → s.phase p ≠ .running → s.server.Gone p ∧
      ∀ t ∈ s.tasks, ∀ op ∈ s.code t, op.spares s.server.store p) : Ghosts (s.panics t) := by
  have hshape := hformed.shape t
  cases t with
  | handler p =>
      show Ghosts (if s.phase p = .running then _ else _)
      split
      · rename_i hrunning
        apply hs.assign
        · intro q room hq _
          have hphase := (HandlerShape.of_leaveStore hshape hq).2
          rw [hrunning] at hphase
          cases hphase
        · simp [cleanupCode]
        · intro q hq
          by_cases hqp : q = p
          · rw [hqp, Function.update_self] at hq
            cases hq
          · rw [Function.update_of_ne hqp] at hq
            exact hs.returned q hq
      · rename_i hrunning
        obtain ⟨hgone, hspare⟩ := hreturn p rfl hrunning
        have haccount := hs.account hformed hgone hspare
        apply hs.assign
        · intro q room hq hmem
          obtain ⟨rfl, -⟩ := HandlerShape.of_leaveStore hshape hq
          exact absurd hmem (haccount room)
        · simp
        · intro q hq
          by_cases hqp : q = p
          · exact hqp ▸ haccount
          · rw [Function.update_of_ne hqp] at hq
            exact hs.returned q hq
  | http n =>
      apply hs.assign
      · intro q room hq _
        rw [hcode] at hq hshape
        obtain rfl | hq := List.mem_cons.mp hq
        · cases hop
        · cases hshape.2 _ hq
      · simp
      · exact hs.returned
  | relayReader i => exact ⟨hs.recorded, hs.removing, hs.returned⟩
  | ttlLoop => exact ⟨hs.recorded, hs.removing, hs.returned⟩

theorem Ghosts.runOp (hs : Ghosts s) (hformed : Formed s) (hcode : s.code t = op :: rest)
    (hcond : Accounted s (.run t order now)) (h : runOp rt s t rest order now op = some s') :
    Ghosts s' := by
  have hop : op ∈ s.code t := by
    rw [hcode]
    exact List.mem_cons_self
  have hshape : Shape s.server s.phase (op :: rest) t := hcode ▸ hformed.shape t
  obtain ⟨hjoin, hspare⟩ := hcond
  simp only [hcode, List.head?_cons] at hjoin
  cases op with
  | enqueue q env =>
      simp only [Gateway.runOp] at h
      split at h
      · obtain rfl := Option.some.inj h
        exact hs.proceed hcode rfl hs.returned
      · rename_i hclosed
        obtain rfl := Option.some.inj h
        have hs' : Ghosts { s with sentClosed := true } := ⟨hs.recorded, hs.removing, hs.returned⟩
        have hformed' : Formed { s with sentClosed := true } :=
          ⟨hformed.shape, hformed.quiet, hformed.early⟩
        refine hs'.panics hformed' hcode rfl ?_
        rintro p rfl hphase
        refine ⟨?_, hspare p ?_⟩
        · obtain hrun | ⟨hstart, rfl⟩ | hgone := (HandlerShape.of_enqueue hshape).2
          · exact absurd hrun hphase
          · exact absurd (hformed.early q (by rw [hstart]; rfl)).2.1 hclosed
          · exact hgone
        · have hphase' : s.phase p ≠ .running := hphase
          simp [Process.returning, hcode, hclosed, hphase']
  | closeSend q =>
      simp only [Gateway.runOp] at h
      have hs' : Ghosts (s.close q) := ⟨hs.recorded, hs.removing, hs.returned⟩
      split at h
      · obtain rfl := Option.some.inj h
        exact hs'.proceed hcode rfl hs.returned
      · rename_i hclosed
        obtain rfl := Option.some.inj h
        refine hs'.panics (hformed.close hop) hcode rfl ?_
        rintro p rfl hphase
        refine ⟨(HandlerShape.of_closeSend hshape).2.2.2, hspare p ?_⟩
        have hphase' : s.phase p ≠ .running := hphase
        simp [Process.returning, hcode, hclosed, hphase']
  | deferCleanup q =>
      simp only [Gateway.runOp, Option.some.injEq] at h
      subst h
      refine hs.proceed hcode rfl fun p hp => ?_
      by_cases hpq : p = q
      · rw [hpq, Function.update_self] at hp
        cases hp
      · rw [Function.update_of_ne hpq] at hp
        exact hs.returned p hp
  | handlerReturn q =>
      simp only [Gateway.runOp, Option.some.injEq] at h
      subst h
      cases t with
      | handler r =>
          obtain ⟨rfl, -, -, hgone⟩ := HandlerShape.of_handlerReturn hshape
          have hspared := hspare q (by simp [Process.returning, hcode])
          refine hs.proceed hcode rfl fun p hp => ?_
          by_cases hpq : p = q
          · exact hpq ▸ hs.account hformed hgone hspared
          · rw [Function.update_of_ne hpq] at hp
            exact hs.returned p hp
      | _ => cases hshape.1 _ List.mem_cons_self
  | storeJoin q room jp salt =>
      simp only [Gateway.runOp, Option.map_eq_some_iff] at h
      obtain ⟨⟨server, ops⟩, hexec, rfl⟩ := h
      refine hs.serve hformed hcode hexec ?_
      rintro _ _ _ _ ⟨⟩
      obtain hroom | ⟨t', _, ht'⟩ := hjoin
      · exact .inl hroom
      · exact .inr ⟨t', ht'⟩
  | _ =>
      simp only [Gateway.runOp, Option.map_eq_some_iff] at h
      obtain ⟨⟨server, ops⟩, hexec, rfl⟩ := h
      exact hs.serve hformed hcode hexec (by rintro _ _ _ _ ⟨⟩)

theorem removeRoom_frameCode {frame : Option Envelope} {q : PeerID} :
    .removeRoom p room ∉ frameCode rt q frame now := by
  intro h
  cases opening_of_mem_frameCode h

theorem Ghosts.act {a : Action} (hs : Ghosts s) (hformed : Formed s) (hcond : Accounted s a)
    (h : act rt s a = some s') : Ghosts s' := by
  have hupdate : ∀ {q : PeerID} {phase : Phase}, phase ≠ .returned → ∀ p,
      Function.update s.phase q phase p = .returned → s.phase p = .returned := by
    intro q phase hphase p hp
    by_cases hpq : p = q
    · rw [hpq, Function.update_self] at hp
      exact absurd hp hphase
    · rwa [Function.update_of_ne hpq] at hp
  cases a with
  | connect p now =>
      simp only [Gateway.act, Option.ite_none_right_eq_some, Option.some.injEq] at h
      obtain ⟨hphase, rfl⟩ := h
      have hidle : s.code (.handler p) = [] := by
        have hshape : HandlerShape s.server p (s.phase p) (s.code (.handler p)) :=
          hformed.shape (.handler p)
        rw [hphase] at hshape
        generalize s.code (.handler p) = code at hshape
        cases hshape
        rfl
      exact hs.start hidle (by simp) (hupdate (by simp))
  | frame p frame now =>
      simp only [Gateway.act, Option.ite_none_right_eq_some, Option.some.injEq] at h
      obtain ⟨⟨-, hidle⟩, rfl⟩ := h
      exact hs.start hidle (fun _ _ => removeRoom_frameCode) fun _ => id
  | readError p =>
      simp only [Gateway.act, Option.ite_none_right_eq_some, Option.some.injEq] at h
      obtain ⟨⟨-, hidle⟩, rfl⟩ := h
      exact hs.start hidle (by simp [cleanupCode]) (hupdate (by simp))
  | cleanupRequest n room =>
      simp only [Gateway.act, Option.ite_none_right_eq_some, Option.some.injEq] at h
      obtain ⟨hidle, rfl⟩ := h
      exact hs.start hidle (by simp) fun _ => id
  | broadcastRequest n room type payload now =>
      simp only [Gateway.act, Option.ite_none_right_eq_some, Option.some.injEq] at h
      obtain ⟨⟨hidle, -⟩, rfl⟩ := h
      exact hs.start hidle (by simp) fun _ => id
  | tick =>
      simp only [Gateway.act, Option.ite_none_right_eq_some, Option.some.injEq] at h
      obtain ⟨hidle, rfl⟩ := h
      exact hs.start hidle (by simp) fun _ => id
  | relayed i env =>
      simp only [Gateway.act, Option.ite_none_right_eq_some, Option.some.injEq] at h
      obtain ⟨hidle, rfl⟩ := h
      exact hs.start hidle (by simp) fun _ => id
  | run t order now =>
      cases hcode : s.code t with
      | nil => simp [Gateway.act, hcode] at h
      | cons op rest =>
          simp only [Gateway.act, hcode] at h
          exact hs.runOp hformed hcode hcond h

theorem ghosts_of_reachable (hs : ReachableVia (processStep rt) Accounted newProcess s) :
    Ghosts s := by
  refine hs.invariant_of (I := Formed) (J := Ghosts) (fun _ => formed_of_reachable)
    ghosts_newProcess fun _ _ _ hformed hghosts hcond hstep => ?_
  exact hghosts.act hformed hcond (Option.ite_none_left_eq_some.mp hstep).2

/-- **No ghost peers.** In every run in which joins find their room still in the
peer's set and handlers return with no `Leave` outstanding, a peer whose handler
has returned is in none of the gateway's records, and a room whose peers are all
such is gone with its salt. -/
theorem ghost_free (hs : ReachableVia (processStep rt) Accounted newProcess s) :
    GhostFree s := by
  have hghosts := ghosts_of_reachable hs
  refine ⟨fun p hp => ?_, fun room hroom => ?_⟩
  · obtain ⟨hconn, hrooms⟩ :=
      HandlerShape.gone ((formed_of_reachable hs).shape (.handler p)) (.inl hp)
    exact ⟨hconn, hrooms, hghosts.returned p hp⟩
  · have hnone : s.server.store.rooms.lookup room = none := by
      rw [Option.eq_none_iff_forall_ne_some]
      intro r hr
      obtain ⟨p, hp⟩ := Store.exists_iff_peers_nonempty.mp ⟨r, hr⟩
      exact hghosts.returned p (hroom p hp) room hp
    exact ⟨hnone, by rw [Store.roomSalt, hnone]⟩

theorem joinAndDisconnect_accounted : (execVia (processStep (asciiRuntime "" {})) Accounted
    newProcess joinAndDisconnect).isSome = true := by
  decide

theorem ghost_free_joinAndDisconnect :
    GhostFree ((execVia (processStep (asciiRuntime "" {})) Accounted newProcess
      joinAndDisconnect).get joinAndDisconnect_accounted) :=
  ghost_free (reachableVia_get joinAndDisconnect_accounted)

/-- A peer in rooms `r` and `q` joins `r` again. Between the two sections of its
join, `r` is cleaned up. Then its connection ends. -/
def joinAcrossCleanup : List Action :=
  connectAndJoin "a" "r" ++ joinEmpty "a" "q" ++
    .frame "a" (some (joinEnvelope "r")) 0 :: runs (.handler "a") [[], [], []] ++
    .cleanupRequest 0 "r" :: runs (.http 0) [["a"], [], [], []] ++
    runs (.handler "a") [[], [], [], [], [], ["a"], [], [], [], []] ++
    .readError "a" :: runs (.handler "a")
      [[], [], [], ["q"], [], [], [], [], [], [], [], [], []]

theorem joinAcrossCleanup_run : (exec (processStep (asciiRuntime "" {})) newProcess
    joinAcrossCleanup).isSome = true := by
  decide

/-- **A ghost.** The handler has returned, and its peer is in `r` for good. -/
theorem joinAcrossCleanup_leaves_ghost :
    ¬∀ s, Reachable (processStep (asciiRuntime "" {})) newProcess s → GhostFree s := by
  intro h
  have hgone := (h _ (reachable_get joinAcrossCleanup_run)).gone "a" (by decide)
  exact hgone.2.2 "r" (by decide)

end TrapChat.Gateway
