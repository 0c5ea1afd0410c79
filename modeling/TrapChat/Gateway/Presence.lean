import TrapChat.Gateway.Ghosts

/-!
What the members of a room are told about it by a gateway without a relay.
`broadcastPresence` reads the store, and what it has read is enqueued to the
members one by one; between the two the other handlers go on. A member is up to
date when the last presence envelope of the room on its queue lists the room as
the store has it. It will be up to date as long as somebody is on the way to tell
it: a handler that has not read the store yet, or one with an envelope that is
still right.
-/

namespace TrapChat.Gateway

open Storage Protocol Transition

/-- A process and what has been put on the queue of every peer. No queue is ever
full. -/
structure Queued where
  process : Process
  queue : PeerID → List Envelope

def newQueued : Queued where
  process := newProcess
  queue := fun _ => []

/-- The envelope an action enqueues. -/
def Process.puts (s : Process) : Action → Option (PeerID × Envelope)
  | .run t _ _ =>
    match (s.code t).head? with
    | some (.enqueue p env) => if s.closes p = 0 then some (p, env) else none
    | _ => none
  | _ => none

def put (queue : PeerID → List Envelope) : Option (PeerID × Envelope) → PeerID → List Envelope
  | none => queue
  | some (p, env) => Function.update queue p (queue p ++ [env])

def queuedStep (rt : GoRuntime) (s : Queued) (a : Action) : Option Queued :=
  (processStep rt s.process a).map fun process => ⟨process, put s.queue (s.process.puts a)⟩

/-! ### What presence says of a room -/

/-- The data has the members of a room, their nicknames and their number. -/
structure Lists (store : Store) (room : RoomName) (pp : PresencePayload) : Prop where
  named : pp.room = room
  listed : pp.peers = store.peersWithNicknames room
  counted : pp.count = (store.peersWithNicknames room).keys.card

/-- The envelope is presence of a room as the store has it. -/
structure Current (rt : GoRuntime) (store : Store) (room : RoomName) (env : Envelope) : Prop where
  presence : env.type = .presence
  named : env.room = room
  payload : ∃ pp, Lists store room pp ∧ env.payload = rt.marshalPresence pp

def isPresence (room : RoomName) (env : Envelope) : Bool :=
  decide (env.type = .presence) && decide (env.room = room)

def lastPresence (queue : List Envelope) (room : RoomName) : Option Envelope :=
  (queue.filter (isPresence room)).getLast?

/-- Every member of a room has been told of it as it is. -/
def Accurate (rt : GoRuntime) (s : Queued) : Prop :=
  ∀ room, ∀ p ∈ s.process.server.store.peers room,
    ∃ env, lastPresence (s.queue p) room = some env ∧ Current rt s.process.server.store room env

/-- No goroutine has anything to do. -/
def Process.Idle (s : Process) : Prop := ∀ t, s.code t = []

/-- An operation is on the way to tell a member of a room about it as it is. -/
def Op.Tells (rt : GoRuntime) (store : Store) (room : RoomName) (p : PeerID) : Op → Prop
  | .presencePeers r | .removeRoom _ r => r = room
  | .presenceTTL pp | .presenceSalt pp => Lists store room pp
  | .broadcastPeers r env exclude => r = room ∧ exclude ≠ p ∧ Current rt store room env
  | .broadcastConns peers env => p ∈ peers ∧ Current rt store room env
  | .enqueue q env => q = p ∧ Current rt store room env
  | _ => False

/-! ### The runs -/

/-- What concerns the handlers of connections. A peer's ID is not empty. -/
def OfHandlers : Action → Prop
  | .connect p _ => p ≠ ""
  | .frame _ _ _ | .readError _ | .run _ _ _ => True
  | _ => False

instance : DecidablePred OfHandlers := fun a => by
  induction a using Action.casesOn <;> unfold OfHandlers <;> infer_instance

/-- Nothing is put on a closed queue, and presence that is out of date is put on a
member's queue only while some other operation is on the way to tell the member
about the room as it is. -/
def Timely (rt : GoRuntime) (s : Queued) : Action → Prop
  | .run t _ _ =>
    match s.process.code t with
    | .enqueue p env :: rest =>
      s.process.closes p = 0 ∧
        (env.type = .presence → p ∈ s.process.server.store.peers env.room →
          Current rt s.process.server.store env.room env ∨
            ∃ t', ∃ op ∈ Function.update s.process.code t rest t',
              op.Tells rt s.process.server.store env.room p)
    | _ => True
  | _ => True

/-! ### Presence follows every change -/

/-- Operations that `broadcastPresence` has still to follow. -/
def Op.trailed : Op → Option RoomName
  | .setNickname _ room _ | .leaveStore room _ => some room
  | _ => none

/-- Every such operation is followed by the presence of its room. -/
def Announced : List Op → Prop
  | [] => True
  | op :: rest => (∀ room ∈ op.trailed, .presencePeers room ∈ rest) ∧ Announced rest

variable {rt : GoRuntime} {order : List String} {now : Time} {op : Op} {ops rest : List Op}
  {p q : PeerID} {room : RoomName}

theorem announced_of_none {code : List Op} (h : ∀ o ∈ code, o.trailed = none) : Announced code := by
  induction code with
  | nil => trivial
  | cons o code ih =>
      refine ⟨fun room hroom => ?_, ih fun o ho => h o (List.mem_cons_of_mem _ ho)⟩
      rw [h o List.mem_cons_self] at hroom
      cases hroom

theorem Announced.append {code : List Op} (h : Announced code) (hrest : Announced rest) :
    Announced (code ++ rest) := by
  induction code with
  | nil => exact hrest
  | cons o code ih =>
      exact ⟨fun room hroom => List.mem_append_left _ (h.1 room hroom), ih h.2⟩

theorem Announced.tail {code : List Op} (h : Announced code) (hop : op ∈ code)
    (hroom : op.trailed = some room) : .presencePeers room ∈ code.tail := by
  induction code with
  | nil => cases hop
  | cons o code ih =>
      obtain rfl | hrest := List.mem_cons.mp hop
      · exact h.1 room hroom
      · exact List.mem_of_mem_tail (ih h.2 hrest)

theorem trailed_of_sends (h : op.sends = true) : op.trailed = none := by
  cases op <;> first | rfl | exact absurd h (by simp [Op.sends])

theorem announced_announce (type : MessageType) : Announced (announce type room p now) :=
  announced_of_none (by simp [announce, Op.trailed])

theorem announced_frameCode (frame : Option Envelope) : Announced (frameCode rt p frame now) := by
  refine announced_of_none fun o ho => ?_
  cases opening_of_mem_frameCode ho <;> rfl

/-- The walk of a cleanup announces every room it leaves. -/
theorem announced_walk (rooms : List RoomName) : Announced (rooms.flatMap (leaveCode p now)) := by
  induction rooms with
  | nil => trivial
  | cons room rooms ih =>
      refine @Announced.append _ (leaveCode p now room) ?_ ih
      exact ⟨by simp [Op.trailed], announced_of_none (by simp [Op.trailed])⟩

/-- What an operation of a handler leads to announces its changes. -/
theorem announced_of_execute {s s' : Server} (h : execute rt s order now op = some (s', ops))
    (hdetach : ∀ room p, op ≠ .detach room p) : Announced ops := by
  cases op with
  | storeJoin q r jp salt =>
      cases h
      generalize sanitizeNickname jp.nickname = nick
      split
      · exact announced_announce _
      · refine ⟨?_, announced_announce _⟩
        simp [Op.trailed, announce]
  | dropPeer q =>
      obtain ⟨-, h⟩ := Option.ite_none_right_eq_some.mp h
      cases h
      exact announced_walk order
  | detach r q => exact absurd rfl (hdetach r q)
  | _ =>
      apply announced_of_none
      intro o ho
      obtain hsend | hleads := leads_of_execute h ho
      · exact trailed_of_sends hsend
      · cases hleads <;> rfl

/-! ### What changes the peers of a connection -/

theorem conns_kept_of_execute {s s' : Server} (h : execute rt s order now op = some (s', ops))
    (hq : q ∈ s.conns) : q ∈ s'.conns ∨ op = .dropPeer q ∨ ∃ room, op = .detach room q := by
  cases hop : op.records with
  | false => exact .inl ((sameRecords_of_execute h hop).conns ▸ hq)
  | true =>
      cases op with
      | register p => cases h; exact .inl (Finset.mem_insert_of_mem hq)
      | dropPeer p =>
          obtain ⟨-, h⟩ := Option.ite_none_right_eq_some.mp h
          cases h
          by_cases hp : q = p
          · exact .inr (.inl (by rw [hp]))
          · exact .inl (Finset.mem_erase.mpr ⟨hp, hq⟩)
      | detach room p =>
          cases h
          by_cases hp : q = p
          · exact .inr (.inr ⟨room, by rw [hp]⟩)
          · exact .inl (Server.mem_conns_detach.mpr ⟨hq, fun hall => hp hall.1⟩)
      | removeRoom p room => cases h; exact .inl (by simpa using hq)
      | addRoom p env => cases h; exact .inl hq
      | storeJoin p room jp salt => cases h; exact .inl hq
      | leaveRoom p room => cases h; exact .inl hq
      | leaveStore room p => cases h; exact .inl hq
      | sweep room dummy => cases h; exact .inl hq
      | _ => cases hop

/-- Only a join puts a room into a peer's set. -/
theorem entered_of_execute {s s' : Server} (h : execute rt s order now op = some (s', ops))
    (hq : room ∈ s'.roomsOf q) :
    op ≠ .dropPeer q ∧ (room ∈ s.roomsOf q ∨ ∃ env, op = .addRoom q env) := by
  have hsame : s'.peerRooms = s.peerRooms → room ∈ s.roomsOf q := by
    intro heq
    rwa [Server.roomsOf, heq] at hq
  cases hop : op.records with
  | false =>
      refine ⟨?_, .inl (hsame (sameRecords_of_execute h hop).peerRooms)⟩
      rintro rfl
      cases hop
  | true =>
      cases op with
      | addRoom p env =>
          cases h
          obtain ⟨rfl, -⟩ | hold := Server.mem_roomsOf_addRoom.mp hq
          · exact ⟨by simp, .inr ⟨env, rfl⟩⟩
          · exact ⟨by simp, .inl hold⟩
      | removeRoom p r => cases h; exact ⟨by simp, .inl (Server.mem_roomsOf_removeRoom.mp hq).2⟩
      | detach r p => cases h; exact ⟨by simp, .inl (Server.mem_roomsOf_detach.mp hq).2⟩
      | dropPeer p =>
          obtain ⟨-, h⟩ := Option.ite_none_right_eq_some.mp h
          cases h
          obtain ⟨hne, hold⟩ := Server.mem_roomsOf_dropPeer.mp hq
          exact ⟨fun heq => hne (Op.dropPeer.inj heq).symm, .inl hold⟩
      | register p => cases h; exact ⟨by simp, .inl hq⟩
      | storeJoin p r jp salt => cases h; exact ⟨by simp, .inl hq⟩
      | leaveRoom p r => cases h; exact ⟨by simp, .inl hq⟩
      | leaveStore r p => cases h; exact ⟨by simp, .inl hq⟩
      | sweep r dummy => cases h; exact ⟨by simp, .inl hq⟩
      | _ => cases hop

/-- Only the section of the join handler that has entered the room in the peer's
set comes to enter the peer in the store. -/
theorem storeJoin_of_execute {s s' : Server} {jp : JoinPayload} {salt : List UInt8}
    (h : execute rt s order now op = some (s', ops)) (hp : .storeJoin p room jp salt ∈ ops) :
    room ∈ s'.roomsOf p := by
  obtain hsend | hleads := leads_of_execute h hp
  · cases hsend
  · cases hleads
    cases h
    exact Server.mem_roomsOf_addRoom.mpr (.inl ⟨rfl, rfl⟩)

/-! ### What handlers alone keep -/

/-- Handlers are all there is. A peer is registered while its handler reads
messages and while it has rooms, a join of the store finds the room in the
peer's set, and every change of a room is announced. -/
structure Attended (s : Process) : Prop where
  handlers : ∀ t, s.code t ≠ [] → ∃ p, p ≠ "" ∧ t = .handler p
  present : ∀ p, s.phase p = .starting ∨ s.phase p = .running →
    p ∈ s.server.conns ∨ .register p ∈ s.code (.handler p)
  named : ∀ p ∈ s.server.conns, p ≠ ""
  connected : ∀ p room, room ∈ s.server.roomsOf p → p ∈ s.server.conns
  joining : ∀ t p room jp salt, .storeJoin p room jp salt ∈ s.code t → room ∈ s.server.roomsOf p
  announced : ∀ t, Announced (s.code t)

section
variable {s s' : Process} {t : Task}

theorem attended_newProcess : Attended newProcess where
  handlers := fun t h => absurd rfl h
  present := fun p h => by cases h <;> contradiction
  named := fun p h => by cases h
  connected := fun p room h => by cases h
  joining := fun t p room jp salt h => by cases h
  announced := fun t => trivial

/-- The frame rule: a handler is given something to do. -/
theorem Attended.assign (hs : Attended s) {phase : PeerID → Phase} {code : List Op} (hp : p ≠ "")
    (hphase : ∀ q ≠ p, phase q = s.phase q)
    (hpresent : phase p = .starting ∨ phase p = .running →
      p ∈ s.server.conns ∨ .register p ∈ code)
    (hjoin : ∀ q room jp salt, .storeJoin q room jp salt ∈ code → room ∈ s.server.roomsOf q)
    (hannounced : Announced code) :
    Attended ({ s with phase := phase }.setCode (.handler p) code) where
  handlers := by
    intro t ht
    by_cases heq : t = .handler p
    · exact ⟨p, hp, heq⟩
    · exact hs.handlers t (by simpa [Process.setCode, heq] using ht)
  present := by
    intro q hq
    show q ∈ s.server.conns ∨ .register q ∈ Function.update s.code (.handler p) code (.handler q)
    by_cases hqp : q = p
    · subst hqp
      rw [Function.update_self]
      exact hpresent hq
    · rw [Function.update_of_ne (by simpa using hqp)]
      exact hs.present q (hphase q hqp ▸ hq)
  named := hs.named
  connected := hs.connected
  joining := by
    intro t q room jp salt hq
    by_cases heq : t = .handler p
    · exact hjoin q room jp salt (by simpa [Process.setCode, heq] using hq)
    · exact hs.joining t q room jp salt (by simpa [Process.setCode, heq] using hq)
  announced := by
    intro t
    show Announced (Function.update s.code (.handler p) code t)
    by_cases heq : t = .handler p
    · rwa [heq, Function.update_self]
    · rw [Function.update_of_ne heq]
      exact hs.announced t

/-- A handler goes on after an operation. -/
theorem Attended.proceed (hs : Attended s) (hcode : s.code (.handler p) = op :: rest)
    {phase : PeerID → Phase} (hphase : ∀ q ≠ p, phase q = s.phase q)
    (hpresent : phase p = .starting ∨ phase p = .running →
      p ∈ s.server.conns ∨ .register p ∈ rest) :
    Attended ({ s with phase := phase }.setCode (.handler p) rest) := by
  have hp : p ≠ "" := by
    obtain ⟨q, hq, heq⟩ := hs.handlers (.handler p) (by simp [hcode])
    rwa [Task.handler.inj heq]
  apply hs.assign hp hphase hpresent
  · intro q room jp salt hq
    exact hs.joining (.handler p) q room jp salt (by rw [hcode]; exact List.mem_cons_of_mem _ hq)
  · have hannounced := hs.announced (.handler p)
    rw [hcode] at hannounced
    exact hannounced.2

/-- What takes a peer out of the maps is its own cleanup. -/
theorem HandlerShape.of_dropPeer {server : Server} {phase : Phase} {code : List Op}
    (h : HandlerShape server p phase code) (hop : .dropPeer q ∈ code) :
    q = p ∧ phase = .cleanup := by
  obtain hsend | howner | ⟨hphase, hmem | ⟨room, heq⟩⟩ := h.mem hop
  · cases hsend
  · cases howner
  · exact ⟨by simpa [prologue, epilogue] using hmem, hphase⟩
  · cases heq

theorem HandlerShape.no_detach {server : Server} {phase : Phase} {code : List Op}
    (h : HandlerShape server p phase code) : .detach room q ∉ code := by
  intro hop
  obtain hsend | howner | ⟨-, hmem | ⟨r, heq⟩⟩ := h.mem hop
  · cases hsend
  · cases howner
  · simp [prologue, epilogue] at hmem
  · cases heq

/-- A join of the store is the first thing its handler has to do. -/
theorem HandlerShape.no_storeJoin {server : Server} {phase : Phase} {jp : JoinPayload}
    {salt : List UInt8} (h : HandlerShape server p phase (op :: rest)) :
    .storeJoin q room jp salt ∉ rest := by
  intro hop
  obtain ⟨-, hrun | ⟨-, hmessage⟩⟩ := h.owner (List.mem_cons_of_mem _ hop) (q := q) rfl
  · rw [hrun] at h
    cases h.messages.2 _ hop
  · obtain ⟨rfl, -⟩ := h.owner (List.mem_cons_of_mem _ hop) (q := q) rfl
    simp [Op.message, Op.owner] at hmessage

theorem Attended.serve {server : Server} (hs : Attended s) (hformed : Formed s)
    (hcode : s.code (.handler p) = op :: rest)
    (hexec : execute rt s.server order now op = some (server, ops)) :
    Attended ({ s with server := server }.setCode (.handler p) (ops ++ rest)) := by
  have hshape : HandlerShape s.server p (s.phase p) (op :: rest) :=
    hcode ▸ hformed.shape (.handler p)
  have hop : op ∈ op :: rest := List.mem_cons_self
  have hkept : ∀ q, op ≠ .dropPeer q → q ∈ s.server.conns → q ∈ server.conns := by
    intro q hne hq
    obtain hq | heq | ⟨room, rfl⟩ := conns_kept_of_execute hexec hq
    · exact hq
    · exact absurd heq hne
    · exact absurd hop hshape.no_detach
  refine ⟨?_, ?_, ?_, ?_, ?_, ?_⟩
  · intro t ht
    by_cases heq : t = .handler p
    · exact heq ▸ hs.handlers (.handler p) (by simp [hcode])
    · exact hs.handlers t (by simpa [Process.setCode, heq] using ht)
  · intro q hq
    show q ∈ server.conns ∨ .register q ∈ Function.update s.code (.handler p) (ops ++ rest) _
    have hne : op ≠ .dropPeer q := by
      rintro rfl
      obtain ⟨rfl, hphase⟩ := hshape.of_dropPeer hop
      have hq' : s.phase q = .starting ∨ s.phase q = .running := hq
      rw [hphase] at hq'
      simp at hq'
    obtain hconn | hregister := hs.present q hq
    · exact .inl (hkept q hne hconn)
    · by_cases hqp : q = p
      · subst hqp
        rw [hcode] at hregister
        obtain rfl | hrest := List.mem_cons.mp hregister
        · cases hexec
          exact .inl (Finset.mem_insert_self _ _)
        · rw [Function.update_self]
          exact .inr (List.mem_append_right _ hrest)
      · rw [Function.update_of_ne (by simpa using hqp)]
        exact .inr hregister
  · intro q hq
    obtain hold | rfl := conns_of_execute hexec hq
    · exact hs.named q hold
    · obtain ⟨r, hr, heq⟩ := hs.handlers (.handler p) (by simp [hcode])
      rwa [(hshape.owner hop (q := q) rfl).1, Task.handler.inj heq]
  · intro q room hq
    show q ∈ server.conns
    obtain ⟨hne, hold | ⟨env, rfl⟩⟩ := entered_of_execute hexec hq
    · exact hkept q hne (hs.connected q room hold)
    · -- the handler of a joining peer reads messages
      obtain ⟨rfl, hrun⟩ := hshape.owner hop (q := q) rfl
      have hrunning : s.phase q = .running := hrun.resolve_right (by simp [Op.message, Op.owner])
      refine hkept q hne ((hs.present q (.inr hrunning)).resolve_right fun hregister => ?_)
      rw [hcode] at hregister
      rw [hrunning] at hshape
      cases hshape.messages.1 _ hregister
  · intro t q room jp salt hq
    show room ∈ server.roomsOf q
    by_cases ht : t = .handler p
    · have hq' : .storeJoin q room jp salt ∈ ops ++ rest := by simpa [Process.setCode, ht] using hq
      obtain hops | hrest := List.mem_append.mp hq'
      · exact storeJoin_of_execute hexec hops
      · exact absurd hrest hshape.no_storeJoin
    · have hold : .storeJoin q room jp salt ∈ s.code t := by simpa [Process.setCode, ht] using hq
      obtain ⟨rfl, -⟩ := hformed.owner hold (q := q) rfl
      have hqp : q ≠ p := fun heq => ht (by rw [heq])
      obtain hkeep | rfl | rfl | rfl := roomsOf_of_execute hexec (hs.joining _ q room jp salt hold)
      · exact hkeep
      · exact absurd (hshape.owner hop (q := q) rfl).1 hqp
      · exact absurd hop hshape.no_detach
      · exact absurd (hshape.of_dropPeer hop).1 hqp
  · intro t
    show Announced (Function.update s.code (.handler p) (ops ++ rest) t)
    have hannounced := hs.announced (.handler p)
    rw [hcode] at hannounced
    by_cases ht : t = .handler p
    · rw [ht, Function.update_self]
      refine (announced_of_execute hexec ?_).append hannounced.2
      rintro r q rfl
      exact hshape.no_detach hop
    · rw [Function.update_of_ne ht]
      exact hs.announced t

/-- A handler with no `Leave` outstanding has none anywhere. -/
theorem Attended.spares (hs : Attended s) (hformed : Formed s)
    (hnone : ∀ room, .leaveStore room p ∉ s.code (.handler p)) :
    ∀ t ∈ s.tasks, ∀ op ∈ s.code t, op.spares s.server.store p := by
  intro t _ op hop
  cases op with
  | leaveStore room q =>
      rintro rfl
      obtain ⟨r, -, rfl⟩ := hs.handlers t fun h => by simp [h] at hop
      have hshape : HandlerShape s.server r (s.phase r) (s.code (.handler r)) :=
        hformed.shape (.handler r)
      obtain ⟨rfl, -⟩ := hshape.of_leaveStore hop
      exact absurd hop (hnone room)
  | _ => trivial

/-- Handlers that put nothing on closed queues leave no ghosts. -/
theorem Attended.accounted (hs : Attended s) (hformed : Formed s)
    (hopen : ∀ p env rest, s.code t = .enqueue p env :: rest → s.closes p = 0) :
    Accounted s (.run t order now) := by
  cases hcode : s.code t with
  | nil =>
      refine ⟨by simp [hcode], fun p hp => ?_⟩
      have hreturning : s.returning t = none := by
        cases t <;> simp [Process.returning, hcode]
      rw [hreturning] at hp
      cases hp
  | cons op rest =>
      obtain ⟨p, -, rfl⟩ := hs.handlers t (by simp [hcode])
      have hshape : HandlerShape s.server p (s.phase p) (op :: rest) :=
        hcode ▸ hformed.shape (.handler p)
      refine ⟨?_, fun q hq => ?_⟩
      · rw [hcode, List.head?_cons]
        split
        · next q room jp salt heq =>
          refine .inl (hs.joining (.handler p) q room jp salt ?_)
          rw [hcode, Option.some.inj heq]
          exact List.mem_cons_self
        · trivial
      · rw [Process.returning, hcode, List.head?_cons] at hq
        cases op with
        | handlerReturn r =>
            cases hq
            obtain ⟨-, -, rfl, -⟩ := HandlerShape.of_handlerReturn hshape
            exact hs.spares hformed (by simp [hcode])
        | closeSend r =>
            obtain ⟨rfl, -, rfl, -⟩ := HandlerShape.of_closeSend hshape
            dsimp only at hq
            split at hq
            · cases hq
              exact hs.spares hformed (by simp [hcode])
            · cases hq
        | enqueue r env => simp [hopen r env rest hcode] at hq
        | _ => cases hq

theorem Attended.close (hs : Attended s) : Attended (s.close p) :=
  ⟨hs.handlers, hs.present, hs.named, hs.connected, hs.joining, hs.announced⟩

theorem update_of_ne_phase {phase : Phase} :
    ∀ q ≠ p, Function.update s.phase p phase q = s.phase q :=
  fun _ hq => Function.update_of_ne hq _ _

theorem Attended.runOp (hs : Attended s) (hformed : Formed s)
    (hcode : s.code (.handler p) = op :: rest)
    (hopen : ∀ q env rest, s.code (.handler p) = .enqueue q env :: rest → s.closes q = 0)
    (h : runOp rt s (.handler p) rest order now op = some s') : Attended s' := by
  have hshape : HandlerShape s.server p (s.phase p) (op :: rest) :=
    hcode ▸ hformed.shape (.handler p)
  have hpresent : (∀ q, op ≠ .register q) → s.phase p = .starting ∨ s.phase p = .running →
      p ∈ s.server.conns ∨ .register p ∈ rest := by
    intro hne hphase
    have hold := hs.present p hphase
    rw [hcode] at hold
    exact hold.imp_right fun hmem => (List.mem_cons.mp hmem).resolve_left (Ne.symm (hne p))
  cases op with
  | enqueue q env =>
      rw [Gateway.runOp, if_pos (hopen q env rest hcode)] at h
      obtain rfl := Option.some.inj h
      exact hs.proceed hcode (fun _ _ => rfl) (hpresent (by simp))
  | closeSend q =>
      obtain ⟨rfl, hphase, rfl, -⟩ := HandlerShape.of_closeSend hshape
      have hover : ∀ phase : Phase, phase = .cleanup ∨ phase = .returned →
          ¬(phase = .starting ∨ phase = .running) := by
        rintro _ (rfl | rfl) <;> simp
      rw [Gateway.runOp] at h
      split at h
      · obtain rfl := Option.some.inj h
        exact hs.close.proceed hcode (fun _ _ => rfl) fun hp =>
          absurd hp (hover _ (.inl hphase))
      · obtain rfl := Option.some.inj h
        have hcode' : (s.close q).code (.handler q) = [.closeSend q, .handlerReturn q] := hcode
        have hphase' : (s.close q).phase q ≠ .running := by
          show s.phase q ≠ .running
          simp [hphase]
        rw [Process.panics, if_neg hphase']
        refine hs.close.assign ?_ update_of_ne_phase (fun hp => ?_) (by simp) trivial
        · obtain ⟨r, hr, heq⟩ := hs.handlers (.handler q) (by simp [hcode])
          rwa [Task.handler.inj heq]
        · rw [Function.update_self] at hp
          simp at hp
  | deferCleanup q =>
      obtain ⟨rfl, -⟩ := hshape.owner List.mem_cons_self (q := q) rfl
      obtain rfl := Option.some.inj h
      refine hs.proceed hcode update_of_ne_phase fun _ => ?_
      obtain ⟨-, hrun | ⟨hstart, -⟩⟩ := hshape.owner List.mem_cons_self (q := q) rfl
      · exact hpresent (by simp) (.inr hrun)
      · exact hpresent (by simp) (.inl hstart)
  | handlerReturn q =>
      obtain ⟨rfl, -⟩ := HandlerShape.of_handlerReturn hshape
      obtain rfl := Option.some.inj h
      refine hs.proceed hcode update_of_ne_phase fun hp => ?_
      rw [Function.update_self] at hp
      simp at hp
  | _ =>
      simp only [Gateway.runOp, Option.map_eq_some_iff] at h
      obtain ⟨⟨server, ops⟩, hexec, rfl⟩ := h
      exact hs.serve hformed hcode hexec

theorem storeJoin_frameCode {frame : Option Envelope} {jp : JoinPayload} {salt : List UInt8} :
    .storeJoin q room jp salt ∉ frameCode rt p frame now := by
  intro h
  cases opening_of_mem_frameCode h

end

section
variable {s : Queued} {s' : Process} {a : Action} {t : Task}

theorem Timely.opened {env : Envelope} (h : Timely rt s (.run t order now))
    (hcode : s.process.code t = .enqueue p env :: rest) : s.process.closes p = 0 := by
  simp only [Timely, hcode] at h
  exact h.1

theorem Attended.act (hs : Attended s.process) (hformed : Formed s.process) (ha : OfHandlers a)
    (htimely : Timely rt s a) (h : act rt s.process a = some s') : Attended s' := by
  have hname : ∀ p, s.process.phase p = .running → s.process.code (.handler p) = [] → p ≠ "" := by
    intro p hphase hidle
    refine hs.named p ((hs.present p (.inr hphase)).resolve_right ?_)
    simp [hidle]
  cases a with
  | connect p now =>
      simp only [Gateway.act, Option.ite_none_right_eq_some, Option.some.injEq] at h
      obtain ⟨-, rfl⟩ := h
      refine hs.assign ha update_of_ne_phase (fun _ => .inr List.mem_cons_self) (by simp) ?_
      exact announced_of_none (by simp [Op.trailed])
  | frame p frame now =>
      simp only [Gateway.act, Option.ite_none_right_eq_some, Option.some.injEq] at h
      obtain ⟨⟨hphase, hidle⟩, rfl⟩ := h
      refine hs.assign (hname p hphase hidle) (fun _ _ => rfl) (fun hp => ?_)
        (fun q room jp salt hq => absurd hq storeJoin_frameCode) (announced_frameCode frame)
      have hpresent := hs.present p hp
      rw [hidle] at hpresent
      exact .inl (hpresent.resolve_right List.not_mem_nil)
  | readError p =>
      simp only [Gateway.act, Option.ite_none_right_eq_some, Option.some.injEq] at h
      obtain ⟨⟨hphase, hidle⟩, rfl⟩ := h
      refine hs.assign (hname p hphase hidle) update_of_ne_phase (fun hp => ?_)
        (by simp [cleanupCode]) (announced_of_none (by simp [cleanupCode, Op.trailed]))
      rw [Function.update_self] at hp
      simp at hp
  | run t order now =>
      cases hcode : s.process.code t with
      | nil => simp [Gateway.act, hcode] at h
      | cons op rest =>
          simp only [Gateway.act, hcode] at h
          obtain ⟨p, -, rfl⟩ := hs.handlers t (by simp [hcode])
          exact hs.runOp hformed hcode (fun _ _ _ => htimely.opened) h
  | _ => cases ha

end

/-! ### Who is on the way -/

theorem lastPresence_append {env : Envelope} (queue : List Envelope)
    (h : isPresence room env = true) : lastPresence (queue ++ [env]) room = some env := by
  simp [lastPresence, h]

theorem lastPresence_append_other {env : Envelope} (queue : List Envelope)
    (h : isPresence room env = false) :
    lastPresence (queue ++ [env]) room = lastPresence queue room := by
  simp [lastPresence, h]

theorem isPresence_iff {env : Envelope} :
    isPresence room env = true ↔ env.type = .presence ∧ env.room = room := by
  simp [isPresence]

section
variable {store store' : Store} {env : Envelope}
  (hsame : store'.peersWithNicknames room = store.peersWithNicknames room)

include hsame

/-- What a room is known by does not change while its members and their nicknames
do not. -/
theorem Lists.congr {pp : PresencePayload} (h : Lists store room pp) : Lists store' room pp :=
  ⟨h.named, hsame ▸ h.listed, hsame ▸ h.counted⟩

theorem Current.congr (h : Current rt store room env) : Current rt store' room env := by
  obtain ⟨pp, hpp, hpayload⟩ := h.payload
  exact ⟨h.presence, h.named, pp, hpp.congr hsame, hpayload⟩

theorem Op.Tells.congr (h : op.Tells rt store room p) : op.Tells rt store' room p := by
  cases op with
  | presenceTTL pp => exact Lists.congr hsame h
  | presenceSalt pp => exact Lists.congr hsame h
  | broadcastPeers r env exclude => exact ⟨h.1, h.2.1, h.2.2.congr hsame⟩
  | broadcastConns peers env => exact ⟨h.1, h.2.congr hsame⟩
  | enqueue q env => exact ⟨h.1, h.2.congr hsame⟩
  | _ => exact h

end

theorem Lists.presenceTTL {store : Store} {pp : PresencePayload} (h : Lists store room pp)
    (ttl : ℤ × Time × Bool) : Lists store room (presenceTTL pp ttl) := by
  rw [Gateway.presenceTTL]
  split
  · exact ⟨h.named, h.listed, h.counted⟩
  · exact h

theorem Lists.presenceSalt {store : Store} {pp : PresencePayload} (h : Lists store room pp)
    (salt : List UInt8) : Lists store room (presenceSalt pp salt) := by
  rw [Gateway.presenceSalt]
  split
  · exact h
  · exact ⟨h.named, h.listed, h.counted⟩

theorem Lists.current {store : Store} {pp : PresencePayload} (h : Lists store room pp) :
    Current rt store room (presenceEnvelope rt pp now) :=
  ⟨rfl, h.named, pp, h, rfl⟩

theorem Current.sign {store : Store} {env : Envelope} (h : Current rt store room env) :
    Current rt store room (signEnvelope rt env) :=
  ⟨h.presence, h.named, h.payload⟩

/-- **The way goes on.** What is on the way to tell a member of a room that stays
as it is leads to something that is. -/
theorem tells_of_execute {s s' : Server} (h : execute rt s order now op = some (s', ops))
    (hop : op.Tells rt s.store room p) (hp : p ∈ s.store.peers room) (hconn : p ∈ s.conns)
    (hname : p ≠ "") : ∃ o ∈ ops, o.Tells rt s'.store room p := by
  cases op with
  | presencePeers r =>
      cases h
      obtain rfl : r = room := hop
      exact ⟨_, List.mem_cons_self, rfl, rfl, rfl⟩
  | removeRoom q r =>
      cases h
      exact ⟨_, List.mem_cons_self, hop⟩
  | presenceTTL pp =>
      cases h
      exact ⟨_, List.mem_cons_self, Lists.presenceTTL hop _⟩
  | presenceSalt pp =>
      cases h
      have hlists : Lists s.store room pp := hop
      exact ⟨_, List.mem_cons_self, hlists.named, hname.symm, (hlists.presenceSalt _).current⟩
  | broadcastPeers r env exclude =>
      cases h
      obtain ⟨rfl, hexclude, hcurrent⟩ := hop
      exact ⟨_, List.mem_cons_self, Finset.mem_erase.mpr ⟨hexclude.symm, hp⟩, hcurrent⟩
  | broadcastConns peers env =>
      obtain ⟨henum, h⟩ := Option.ite_none_right_eq_some.mp h
      cases h
      have hmem : p ∈ order := henum.mem_iff.mpr (Finset.mem_inter.mpr ⟨hop.1, hconn⟩)
      exact ⟨_, List.mem_map_of_mem hmem, rfl, hop.2.sign⟩
  | enqueue q env => cases h
  | _ => cases hop

/-- Operations that change the members of a room or their nicknames. -/
def Op.Changes (room : RoomName) : Op → Prop
  | .storeJoin _ r _ _ | .setNickname _ r _ | .leaveRoom _ r | .leaveStore r _ | .sweep r _ =>
    r = room
  | _ => False

theorem peersWithNicknames_of_execute {s s' : Server}
    (h : execute rt s order now op = some (s', ops)) :
    s'.store.peersWithNicknames room = s.store.peersWithNicknames room ∨ op.Changes room := by
  by_cases hop : op.Changes room
  · exact .inr hop
  left
  cases op with
  | storeJoin q r jp salt =>
      cases h
      exact Store.peersWithNicknames_congr (Store.lookup_joinWithTTL_ne _ q _ _ _ (Ne.symm hop))
  | setNickname q r nick =>
      cases h
      exact Store.peersWithNicknames_congr (Store.lookup_setNickname_ne _ q _ (Ne.symm hop))
  | leaveRoom q r =>
      cases h
      exact Store.peersWithNicknames_congr (Store.lookup_leave_ne _ q _ (Ne.symm hop))
  | leaveStore r q =>
      cases h
      exact Store.peersWithNicknames_congr (Store.lookup_leave_ne _ q _ (Ne.symm hop))
  | sweep r dummy =>
      cases h
      exact Store.peersWithNicknames_congr (Store.lookup_leave_ne _ dummy _ (Ne.symm hop))
  | allow q env =>
      obtain rfl : (allowCode s q env now).1 = s' := congrArg Prod.fst (Option.some.inj h)
      unfold allowCode
      split <;> rfl
  | forget limiter q =>
      cases h
      cases limiter <;> rfl
  | removeRoom q r => cases h; rw [Server.store_removeRoom]
  | detach r q => cases h; rw [Server.store_detach]
  | dropPeer q =>
      obtain ⟨-, h⟩ := Option.ite_none_right_eq_some.mp h
      cases h
      rfl
  | roomPeers r =>
      obtain ⟨-, h⟩ := Option.ite_none_right_eq_some.mp h
      cases h
      rfl
  | expiredRooms =>
      obtain ⟨-, h⟩ := Option.ite_none_right_eq_some.mp h
      cases h
      rfl
  | broadcastConns peers env =>
      obtain ⟨-, h⟩ := Option.ite_none_right_eq_some.mp h
      cases h
      rfl
  | enqueue q env => cases h
  | closeSend q => cases h
  | deferCleanup q => cases h
  | handlerReturn q => cases h
  | _ => cases h; rfl

/-- A handler that changes a room has its presence still to send. -/
theorem pledged {server server' : Server} {phase : Phase}
    (hshape : HandlerShape server q phase (op :: rest)) (hannounced : Announced (op :: rest))
    (h : execute rt server order now op = some (server', ops)) (hop : op.Changes room) :
    ∃ o ∈ ops ++ rest, o.Tells rt server'.store room p := by
  cases op with
  | storeJoin r room' jp salt =>
      cases h
      refine ⟨.presencePeers room', List.mem_append_left _ ?_, hop⟩
      split <;> simp [announce]
  | leaveRoom r room' =>
      cases h
      exact ⟨_, List.mem_cons_self, hop⟩
  | setNickname r room' nick =>
      exact ⟨.presencePeers room', List.mem_append_right _ (hannounced.1 room' rfl), hop⟩
  | leaveStore room' r =>
      exact ⟨.presencePeers room', List.mem_append_right _ (hannounced.1 room' rfl), hop⟩
  | sweep room' dummy =>
      obtain hsend | howner | ⟨-, hmem | ⟨r, heq⟩⟩ := hshape.mem List.mem_cons_self
      · cases hsend
      · cases howner
      · simp [prologue, epilogue] at hmem
      · cases heq
  | _ => cases hop

/-! ### The invariant -/

/-- Some operation is on the way to tell a peer about a room as it is. -/
def Telling (rt : GoRuntime) (store : Store) (code : Task → List Op) (room : RoomName)
    (p : PeerID) : Prop :=
  ∃ t, ∃ op ∈ code t, op.Tells rt store room p

/-- A peer has been told of a room as it is, or is about to be. -/
def Told (rt : GoRuntime) (s : Queued) (room : RoomName) (p : PeerID) : Prop :=
  (∃ env, lastPresence (s.queue p) room = some env ∧
      Current rt s.process.server.store room env) ∨
    Telling rt s.process.server.store s.process.code room p

structure Informed (rt : GoRuntime) (s : Queued) : Prop where
  formed : Formed s.process
  ghosts : Ghosts s.process
  attended : Attended s.process
  told : ∀ room, ∀ p ∈ s.process.server.store.peers room, Told rt s room p

theorem informed_newQueued : Informed rt newQueued where
  formed := formed_newProcess
  ghosts := ghosts_newProcess
  attended := attended_newProcess
  told := fun room p hp => by cases hp

section
variable {s : Queued} {s' : Process} {t : Task} {a : Action}

/-- Nothing new is enqueued, and whoever was on the way still is. -/
theorem Told.keep (h : Told rt s room p)
    (hstore : s'.server.store.peersWithNicknames room =
      s.process.server.store.peersWithNicknames room)
    (hkept : Telling rt s.process.server.store s.process.code room p →
      Telling rt s'.server.store s'.code room p) :
    Told rt ⟨s', s.queue⟩ room p := by
  obtain ⟨env, hlast, hcurrent⟩ | htelling := h
  · exact .inl ⟨env, hlast, hcurrent.congr hstore⟩
  · exact .inr (hkept htelling)

/-- One goroutine is given something to do, and what it leaves tells nobody. -/
theorem Telling.assign {store : Store} {code : Task → List Op} (h : Telling rt store code room p)
    {todo : List Op} (hkept : ∀ o ∈ code t, o.Tells rt store room p → o ∈ todo) :
    Telling rt store (Function.update code t todo) room p := by
  obtain ⟨t', o, ho, htells⟩ := h
  refine ⟨t', o, ?_, htells⟩
  by_cases ht : t' = t
  · rw [ht] at ho ⊢
    rw [Function.update_self]
    exact hkept o ho htells
  · rwa [Function.update_of_ne ht]

/-- An operation on the gateway's state. -/
theorem Informed.told_serve {server : Server} (hs : Informed rt s)
    (hcode : s.process.code (.handler q) = op :: rest)
    (hexec : execute rt s.process.server order now op = some (server, ops))
    (hp : p ∈ server.store.peers room) :
    Told rt ⟨{ s.process with server := server }.setCode (.handler q) (ops ++ rest), s.queue⟩
      room p := by
  have hshape : HandlerShape s.process.server q (s.process.phase q) (op :: rest) :=
    hcode ▸ hs.formed.shape (.handler q)
  have hannounced : Announced (op :: rest) := hcode ▸ hs.attended.announced (.handler q)
  obtain hsame | hchange := @peersWithNicknames_of_execute _ _ _ _ _ room _ _ hexec
  · have hmem : p ∈ s.process.server.store.peers room := by
      rwa [Store.peers_eq_keys, ← hsame, ← Store.peers_eq_keys]
    refine (hs.told room p hmem).keep hsame fun ⟨t, o, ho, htells⟩ => ?_
    have hkept : ∀ t' o', o' ∈ s.process.code t' → (t' = .handler q → o' ∈ rest) →
        o'.Tells rt server.store room p →
        Telling rt server.store (Function.update s.process.code (.handler q) (ops ++ rest))
          room p := by
      intro t' o' ho' hrest htells'
      refine ⟨t', o', ?_, htells'⟩
      by_cases ht : t' = .handler q
      · rw [ht, Function.update_self]
        exact List.mem_append_right _ (hrest ht)
      · rwa [Function.update_of_ne ht]
    show Telling rt server.store (Function.update s.process.code _ _) room p
    by_cases ho' : o = op
    · subst ho'
      obtain hroom | ⟨t', hleave⟩ := hs.ghosts.recorded p room hmem
      · have hconn := hs.attended.connected p room hroom
        obtain ⟨o', hops, htells'⟩ :=
          tells_of_execute hexec htells hmem hconn (hs.attended.named p hconn)
        refine ⟨.handler q, o', ?_, htells'⟩
        rw [Function.update_self]
        exact List.mem_append_left _ hops
      · -- a member that has left the maps is about to be announced gone
        have hmem' := (hs.attended.announced t').tail hleave rfl
        refine hkept t' (.presencePeers room) (List.mem_of_mem_tail hmem') ?_ rfl
        rintro rfl
        rwa [hcode] at hmem'
    · refine hkept t o ho ?_ (htells.congr hsame)
      rintro rfl
      rw [hcode] at ho
      exact (List.mem_cons.mp ho).resolve_left ho'
  · obtain ⟨o, ho, htells⟩ := pledged (p := p) hshape hannounced hexec hchange
    refine .inr ⟨.handler q, o, ?_, htells⟩
    show o ∈ Function.update s.process.code (.handler q) (ops ++ rest) (.handler q)
    rwa [Function.update_self]

/-- An envelope is put on a queue. -/
theorem Informed.told_enqueue {env : Envelope} (hs : Informed rt s)
    (hcode : s.process.code t = .enqueue q env :: rest)
    (htimely : Timely rt s (.run t order now)) (hp : p ∈ s.process.server.store.peers room) :
    Told rt ⟨s.process.setCode t rest, put s.queue (some (q, env))⟩ room p := by
  simp only [Timely, hcode] at htimely
  show (∃ e, lastPresence (Function.update s.queue q (s.queue q ++ [env]) p) room = some e ∧ _) ∨
    Telling rt s.process.server.store (Function.update s.process.code t rest) room p
  by_cases hown : q = p ∧ isPresence room env = true
  · obtain ⟨rfl, hpresence⟩ := hown
    obtain ⟨htype, rfl⟩ := isPresence_iff.mp hpresence
    refine (htimely.2 htype hp).imp_left fun hcurrent => ⟨env, ?_, hcurrent⟩
    rw [Function.update_self]
    exact lastPresence_append _ hpresence
  · have hlast : lastPresence (Function.update s.queue q (s.queue q ++ [env]) p) room =
        lastPresence (s.queue p) room := by
      by_cases hqp : p = q
      · rw [hqp, Function.update_self]
        exact lastPresence_append_other _ (by simpa [hqp] using hown)
      · rw [Function.update_of_ne hqp]
    rw [hlast]
    refine (hs.told room p hp).imp_right fun htelling => htelling.assign fun o ho htells => ?_
    rw [hcode] at ho
    refine (List.mem_cons.mp ho).resolve_left ?_
    rintro rfl
    exact hown ⟨htells.1, isPresence_iff.mpr ⟨htells.2.presence, htells.2.named⟩⟩

theorem Informed.told_run (hs : Informed rt s) (hcode : s.process.code t = op :: rest)
    (htimely : Timely rt s (.run t order now))
    (h : runOp rt s.process t rest order now op = some s') (hp : p ∈ s'.server.store.peers room) :
    Told rt ⟨s', put s.queue (s.process.puts (.run t order now))⟩ room p := by
  obtain ⟨q, -, rfl⟩ := hs.attended.handlers t (by simp [hcode])
  have hshape : HandlerShape s.process.server q (s.process.phase q) (op :: rest) :=
    hcode ▸ hs.formed.shape (.handler q)
  have hputs : (∀ r env, op ≠ .enqueue r env) →
      put s.queue (s.process.puts (.run (.handler q) order now)) = s.queue := by
    intro hne
    rw [Process.puts, hcode, List.head?_cons]
    split
    · next heq => exact absurd (Option.some.inj heq) (hne _ _)
    · rfl
  -- the rest of the code has whatever tells
  have hproceed : (∀ store, ¬op.Tells rt store room p) →
      Telling rt s.process.server.store s.process.code room p →
      Telling rt s.process.server.store (Function.update s.process.code (.handler q) rest)
        room p := by
    intro hop htelling
    refine htelling.assign fun o ho htells => ?_
    rw [hcode] at ho
    refine (List.mem_cons.mp ho).resolve_left ?_
    rintro rfl
    exact hop _ htells
  cases op with
  | enqueue r env =>
      have hopen := htimely.opened hcode
      rw [Gateway.runOp, if_pos hopen] at h
      obtain rfl := Option.some.inj h
      have hput : s.process.puts (.run (.handler q) order now) = some (r, env) := by
        simp [Process.puts, hcode, hopen]
      rw [hput]
      exact hs.told_enqueue hcode htimely hp
  | closeSend r =>
      rw [hputs (by simp)]
      obtain ⟨rfl, hphase, rfl, -⟩ := HandlerShape.of_closeSend hshape
      have hphase' : (s.process.close r).phase r ≠ .running := by
        show s.process.phase r ≠ .running
        simp [hphase]
      rw [Gateway.runOp, Process.panics, if_neg hphase'] at h
      split at h
      · obtain rfl := Option.some.inj h
        exact (hs.told room p hp).keep rfl (hproceed fun _ h => h)
      · obtain rfl := Option.some.inj h
        refine (hs.told room p hp).keep rfl fun htelling => htelling.assign fun o ho htells => ?_
        rw [hcode] at ho
        simp only [List.mem_cons, List.not_mem_nil, or_false] at ho
        obtain rfl | rfl := ho <;> cases htells
  | deferCleanup r =>
      rw [hputs (by simp)]
      obtain rfl := Option.some.inj h
      exact (hs.told room p hp).keep rfl (hproceed fun _ h => h)
  | handlerReturn r =>
      rw [hputs (by simp)]
      obtain rfl := Option.some.inj h
      exact (hs.told room p hp).keep rfl (hproceed fun _ h => h)
  | _ =>
      rw [hputs (by simp)]
      simp only [Gateway.runOp, Option.map_eq_some_iff] at h
      obtain ⟨⟨server, ops⟩, hexec, rfl⟩ := h
      exact hs.told_serve hcode hexec hp

/-- A goroutine that has nothing to do is given something. -/
theorem Informed.told_start (hs : Informed rt s) {phase : PeerID → Phase} {code : List Op}
    (hidle : s.process.code t = []) (hp : p ∈ s.process.server.store.peers room) :
    Told rt ⟨{ s.process with phase := phase }.setCode t code, s.queue⟩ room p :=
  (hs.told room p hp).keep rfl fun htelling => htelling.assign fun o ho => by
    rw [hidle] at ho
    cases ho

theorem Informed.told_act (hs : Informed rt s) (ha : OfHandlers a) (htimely : Timely rt s a)
    (h : act rt s.process a = some s') (hp : p ∈ s'.server.store.peers room) :
    Told rt ⟨s', put s.queue (s.process.puts a)⟩ room p := by
  cases a with
  | connect q now =>
      simp only [Gateway.act, Option.ite_none_right_eq_some, Option.some.injEq] at h
      obtain ⟨hphase, rfl⟩ := h
      refine hs.told_start ?_ hp
      have hshape : HandlerShape s.process.server q (s.process.phase q)
          (s.process.code (.handler q)) := hs.formed.shape (.handler q)
      rw [hphase] at hshape
      generalize s.process.code (.handler q) = code at hshape
      cases hshape
      rfl
  | frame q frame now =>
      simp only [Gateway.act, Option.ite_none_right_eq_some, Option.some.injEq] at h
      obtain ⟨⟨-, hidle⟩, rfl⟩ := h
      exact hs.told_start hidle hp
  | readError q =>
      simp only [Gateway.act, Option.ite_none_right_eq_some, Option.some.injEq] at h
      obtain ⟨⟨-, hidle⟩, rfl⟩ := h
      exact hs.told_start hidle hp
  | run t order now =>
      cases hcode : s.process.code t with
      | nil => simp [Gateway.act, hcode] at h
      | cons op rest =>
          simp only [Gateway.act, hcode] at h
          exact hs.told_run hcode htimely h hp
  | _ => cases ha

/-- **Every timely step of handlers keeps the members informed.** -/
theorem Informed.step {t : Queued} (hs : Informed rt s) (ha : OfHandlers a)
    (htimely : Timely rt s a) (h : queuedStep rt s a = some t) : Informed rt t := by
  rw [queuedStep, Option.map_eq_some_iff] at h
  obtain ⟨process, hstep, rfl⟩ := h
  have hact := (Option.ite_none_left_eq_some.mp hstep).2
  have haccounted : Accounted s.process a := by
    cases a with
    | run t order now => exact hs.attended.accounted hs.formed fun _ _ _ => htimely.opened
    | _ => trivial
  exact ⟨hs.formed.act hact, hs.ghosts.act hs.formed haccounted hact,
    hs.attended.act hs.formed ha htimely hact, fun _ _ hp => hs.told_act ha htimely hact hp⟩

end

/-- **Presence is accurate at quiescence.** In every run of handlers in which no
presence that is out of date is the last on its way to a member, once all of them
are idle the last presence on the queue of every member of a room is of the room
as it is. -/
theorem presence_accurate {s : Queued}
    (hs : ReachableVia (queuedStep rt) (fun s a => OfHandlers a ∧ Timely rt s a) newQueued s)
    (hidle : s.process.Idle) : Accurate rt s := by
  have hinformed : Informed rt s := hs.invariant informed_newQueued
    fun _ _ _ hs hC hstep => hs.step hC.1 hC.2 hstep
  intro room p hp
  refine (hinformed.told room p hp).resolve_right ?_
  rintro ⟨t, op, hop, -⟩
  rw [hidle t] at hop
  cases hop

/-! ### Two joins -/

/-- Presence is enqueued while the store is as it was read. -/
def Prompt (rt : GoRuntime) (s : Queued) : Action → Prop
  | .run t _ _ =>
    match s.process.code t with
    | .enqueue p env :: _ =>
      s.process.closes p = 0 ∧ (env.type = .presence →
        env.payload = rt.marshalPresence (presenceOf s.process.server.store env.room))
    | _ => True
  | _ => True

instance (s : Queued) (a : Action) : Decidable (Prompt rt s a) := by
  induction a using Action.casesOn <;> unfold Prompt <;> try infer_instance
  case run t _ _ =>
    dsimp only
    generalize s.process.code t = code
    induction code using List.casesOn with
    | nil => infer_instance
    | cons op rest => induction op using Op.casesOn <;> infer_instance

theorem lists_presenceOf (store : Store) (room : RoomName) :
    Lists store room (presenceOf store room) :=
  ((show Lists store room (presenceMembers store room) from ⟨rfl, rfl, rfl⟩).presenceTTL
    _).presenceSalt _

theorem Prompt.timely {s : Queued} {a : Action} (h : Prompt rt s a) : Timely rt s a := by
  cases a with
  | run t order now =>
      rw [Timely]
      split
      · next p env rest hcode =>
        simp only [Prompt, hcode] at h
        refine ⟨h.1, fun htype _ => .inl ⟨htype, rfl, _, lists_presenceOf _ _, h.2 htype⟩⟩
      · trivial
  | _ => trivial

/-- A runtime whose presence texts have the number of members only. -/
def countingRuntime : GoRuntime :=
  { asciiRuntime "" {} with marshalPresence := fun pp => toString pp.count }

/-- A peer joins a room that another one is in. -/
def joinOther (p q : PeerID) (room : RoomName) : List Action :=
  .frame q (some (joinEnvelope room)) 0 :: runs (.handler q)
    [[], [], [], [], [], [], [], [], [p, q], [], [], [], [], []]

def connect (p : PeerID) : List Action := .connect p 0 :: runs (.handler p) [[], [], []]

/-- Two peers join a room one after the other. -/
def joinInTurn : List Action :=
  connect "a" ++ connect "b" ++ joinEmpty "a" "r" ++ joinOther "a" "b" "r"

/-- The second one joins while the first one is about to enqueue what it has read. -/
def joinAcross : List Action :=
  connect "a" ++ connect "b" ++ (joinEmpty "a" "r").take 11 ++ joinOther "a" "b" "r" ++
    (joinEmpty "a" "r").drop 11

theorem Process.idle_of_tasks {s : Process} (hs : Formed s) (h : ∀ t ∈ s.tasks, s.code t = []) :
    s.Idle := by
  intro t
  by_cases ht : t ∈ s.tasks
  · exact h t ht
  · exact hs.quiet t ht

theorem joinInTurn_run : (execVia (queuedStep countingRuntime)
    (fun s a => OfHandlers a ∧ Prompt countingRuntime s a) newQueued joinInTurn).isSome = true := by
  decide +kernel

theorem presence_accurate_joinInTurn : Accurate countingRuntime
    ((execVia (queuedStep countingRuntime) (fun s a => OfHandlers a ∧ Prompt countingRuntime s a)
      newQueued joinInTurn).get joinInTurn_run) := by
  have hs := (reachableVia_get joinInTurn_run).mono
    (D := fun s a => OfHandlers a ∧ Timely countingRuntime s a)
    fun s a h => ⟨h.1, h.2.timely⟩
  refine presence_accurate hs (Process.idle_of_tasks ?_ (by decide +kernel))
  exact (hs.invariant informed_newQueued fun _ _ _ hs hC hstep => hs.step hC.1 hC.2 hstep).formed

theorem joinAcross_run : (execVia (queuedStep countingRuntime) (fun _ a => OfHandlers a) newQueued
    joinAcross).isSome = true := by
  decide +kernel

/-- **The older snapshot comes last.** Both peers are in the room, and the first
one has been told last that it is alone. -/
theorem joinAcross_inaccurate :
    ¬∀ s, ReachableVia (queuedStep countingRuntime) (fun _ a => OfHandlers a) newQueued s →
      s.process.Idle → Accurate countingRuntime s := by
  intro h
  have hs := reachableVia_get joinAcross_run
  have hformed : Formed ((execVia (queuedStep countingRuntime) (fun _ a => OfHandlers a) newQueued
      joinAcross).get joinAcross_run).process := by
    refine hs.invariant (I := fun s => Formed s.process) formed_newProcess ?_
    intro s a s' hformed _ hstep
    rw [queuedStep, Option.map_eq_some_iff] at hstep
    obtain ⟨process, hstep, rfl⟩ := hstep
    exact hformed.act (Option.ite_none_left_eq_some.mp hstep).2
  obtain ⟨env, hlast, hcurrent⟩ := h _ hs (Process.idle_of_tasks hformed (by decide +kernel)) "r"
    "a" (by decide +kernel)
  obtain ⟨pp, hpp, hpayload⟩ := hcurrent.payload
  have htext : (some env).map Envelope.payload = some "1" := by
    rw [← hlast]
    decide +kernel
  have hcount : pp.count = 2 := by
    rw [hpp.counted]
    decide +kernel
  rw [Option.map_some, hpayload] at htext
  have hwrong : toString pp.count = "1" := Option.some.inj htext
  rw [hcount] at hwrong
  exact absurd hwrong (by decide)

end TrapChat.Gateway
