import Mathlib.Data.List.DropRight
import TrapChat.Gateway.Expiry
import TrapChat.Gateway.Presence

/-!
Whose nicknames a room shows. A nickname comes to the gateway in the payload of a join, is
cleaned, goes through the store, and is read from there for every presence of the room; other
handlers, the cleanup and the TTL loop go on in between. What is shown of a peer is a nickname
that the peer itself has joined the room with, or none; and only who has joined is shown.
-/

namespace TrapChat.Gateway

open Storage Protocol Transition

/-! ### Clean nicknames -/

/-- At most 32 characters, none of them a control character, and no space at either end. -/
structure CleanNickname (nick : String) : Prop where
  length : nick.length ≤ 32
  printable : ∀ c ∈ nick.toList, 32 ≤ c.toNat ∧ c.toNat ≠ 127
  first : ∀ c, nick.toList.head? = some c → isSpace c = false
  last : ∀ c, nick.toList.getLast? = some c → isSpace c = false

theorem head?_dropWhile {α : Type} {p : α → Bool} {cs : List α} {c : α}
    (h : (cs.dropWhile p).head? = some c) : p c = false := by
  have hnot := List.head?_dropWhile_not p cs
  rw [h] at hnot
  exact hnot

theorem isPrefix_trimSpace (cs : List Char) : trimSpace cs <+: cs.dropWhile isSpace :=
  List.rdropWhile_prefix isSpace (cs.dropWhile isSpace)

theorem trimSpace_sublist (cs : List Char) : (trimSpace cs).Sublist cs :=
  (isPrefix_trimSpace cs).sublist.trans (List.dropWhile_sublist isSpace)

theorem cleanNickname_empty : CleanNickname "" := by
  constructor <;> simp

theorem cleanNickname_sanitize (nick : String) : CleanNickname (sanitizeNickname nick) := by
  generalize hcs : (nick.toList.filter fun c => !(c.toNat < 32 || c.toNat = 127)).take 32 = cs
  have hsub := trimSpace_sublist cs
  rw [sanitizeNickname, hcs]
  constructor
  · rw [String.length_ofList]
    refine hsub.length_le.trans ?_
    rw [← hcs, List.length_take]
    exact Nat.min_le_left ..
  · intro c hc
    rw [String.toList_ofList] at hc
    have hin : c ∈ cs := hsub.subset hc
    rw [← hcs] at hin
    have hkept := (List.mem_filter.mp (List.mem_of_mem_take hin)).2
    simpa using hkept
  · intro c hc
    rw [String.toList_ofList] at hc
    obtain ⟨rest, hrest⟩ := isPrefix_trimSpace cs
    have hhead : (cs.dropWhile isSpace).head? = some c := by
      rw [← hrest, List.head?_append, hc]
      rfl
    exact head?_dropWhile hhead
  · intro c hc
    rw [String.toList_ofList, trimSpace, List.getLast?_reverse] at hc
    exact head?_dropWhile hc

/-! ### What has been heard -/

/-- The nickname that a join asks for. -/
def joinNickname (rt : GoRuntime) (env : Envelope) : String :=
  sanitizeNickname (joinPayload rt env.payload).nickname

/-- What a gateway has heard: the nicknames that peers have joined rooms with, and the
presence of rooms in the words of a relay or of the worker. -/
structure Heard where
  joined : RoomName → PeerID → String → Prop
  presence : RoomName → String → Prop

namespace Heard

/-- A peer that has joined a room, under no nickname or one that it has joined with. -/
structure Listed (k : Heard) (room : RoomName) (p : PeerID) (nick : String) : Prop where
  member : ∃ n, k.joined room p n
  nickname : nick = "" ∨ k.joined room p nick

/-- The store shows such peers only. -/
def Knows (k : Heard) (store : Store) : Prop :=
  ∀ room p nick, store.nickname room p = some nick → k.Listed room p nick

def Truthful (k : Heard) (pp : PresencePayload) : Prop :=
  ∀ p nick, pp.peers.lookup p = some nick → k.Listed pp.room p nick

/-- A presence envelope is the text of truthful data, or it is not the gateway's own. -/
def Backs (rt : GoRuntime) (k : Heard) (env : Envelope) : Prop :=
  env.type = .presence → k.presence env.room env.payload ∨
    ∃ pp : PresencePayload, pp.room = env.room ∧ env.payload = rt.marshalPresence pp ∧
      k.Truthful pp

/-- What is heard with an action. -/
def Hears (rt : GoRuntime) (k : Heard) : Action → Prop
  | .frame p (some env) _ => env.type = .join → validateRoomName rt env.room = "" →
      k.joined env.room p (joinNickname rt env)
  | .relayed _ env => env.type = .presence → k.presence env.room env.payload
  | .broadcastRequest _ room type payload _ => type = .presence → k.presence room payload
  | _ => True

/-- What is heard in the course of a run. -/
def during (rt : GoRuntime) (as : List Action) : Heard where
  joined := fun room p nick => validateRoomName rt room = "" ∧ ∃ env now,
    .frame p (some env) now ∈ as ∧ env.type = .join ∧ env.room = room ∧ joinNickname rt env = nick
  presence := fun room payload =>
    (∃ i env, .relayed i env ∈ as ∧ env.type = .presence ∧ env.room = room ∧
      env.payload = payload) ∨
    ∃ n now, .broadcastRequest n room .presence payload now ∈ as

theorem hears_during {rt : GoRuntime} {as : List Action} {a : Action} (h : a ∈ as) :
    (during rt as).Hears rt a := by
  cases a with
  | frame p frame now =>
      cases frame with
      | none => trivial
      | some env => exact fun htype hname => ⟨hname, env, now, h, htype, rfl, rfl⟩
  | relayed i env => exact fun htype => .inl ⟨i, env, h, htype, rfl, rfl⟩
  | broadcastRequest n room type payload now =>
      rintro rfl
      exact .inr ⟨n, now, h⟩
  | _ => trivial

end Heard

/-- What an operation brings with it has been heard. -/
def Op.Honest (rt : GoRuntime) (k : Heard) : Op → Prop
  | .joinCount p env | .joinRoomCount p env | .joinLimit p env | .addRoom p env =>
    k.joined env.room p (joinNickname rt env)
  | .storeJoin p room jp _ => k.joined room p (sanitizeNickname jp.nickname)
  | .setNickname p room nick => k.joined room p nick
  | .presenceTTL pp | .presenceSalt pp => k.Truthful pp
  | .broadcastPeers _ env _ | .broadcastConns _ env | .enqueue _ env | .signalTarget env =>
    k.Backs rt env
  | .allow _ env | .member _ env => env.type ≠ .presence
  | _ => True

section
variable {rt : GoRuntime} {k : Heard} {env : Envelope} {p : PeerID} {room : RoomName}
  {order : List String} {now : Time} {op : Op} {ops : List Op}

theorem Heard.Backs.of_ne (h : env.type ≠ .presence) : k.Backs rt env := fun htype => absurd htype h

theorem honest_error (msg : String) :
    ∀ o ∈ [Op.enqueue p (errorEnvelope msg now)], o.Honest rt k := by
  intro o ho
  rw [List.mem_singleton.mp ho]
  exact .of_ne (by simp [errorEnvelope])

/-- A message that is not presence is forwarded as what it is. -/
theorem honest_sends (h : env.type ≠ .presence) (exclude : PeerID) :
    ∀ o ∈ [Op.broadcastPeers room env exclude, .forward env], o.Honest rt k := by
  intro o ho
  rw [List.mem_pair] at ho
  obtain rfl | rfl := ho
  · exact .of_ne h
  · trivial

theorem honest_route (h : env.type ≠ .presence) : ∀ o ∈ routeCode p env, o.Honest rt k := by
  rw [routeCode]
  split
  · intro o ho
    rw [List.mem_singleton.mp ho]
    exact .of_ne h
  · exact honest_sends h p

theorem honest_accept (h : env.type ≠ .presence) :
    ∀ o ∈ acceptCode p env now, o.Honest rt k := by
  have hstamp : (stamp env p now).type ≠ .presence := h
  rw [acceptCode]
  split
  · intro o ho
    rw [List.mem_singleton.mp ho]
    exact h
  · intro o ho
    rw [List.mem_singleton.mp ho]
    exact h
  · intro o ho
    rw [List.mem_singleton.mp ho]
    exact .of_ne h
  · exact honest_route hstamp
  · exact honest_route hstamp
  · exact honest_route hstamp
  · exact honest_sends hstamp p

theorem honest_allow {s : Server} (h : env.type ≠ .presence) :
    ∀ o ∈ (allowCode s p env now).2, o.Honest rt k := by
  have hsent : (Op.broadcastPeers env.room (stamp env p now) p).Honest rt k := .of_ne h
  rw [allowCode]
  split
  · intro o ho
    dsimp only at ho
    split at ho
    · rw [List.mem_singleton.mp ho]
      exact hsent
    · cases ho
  · dsimp only
    split
    · split
      · exact honest_error _
      · exact honest_route h
    · intro o ho
      cases ho
  · dsimp only
    split
    · intro o ho
      rw [List.mem_singleton.mp ho]
      exact h
    · exact honest_error _

theorem honest_salt (h : k.joined env.room p (joinNickname rt env)) :
    ∀ o ∈ saltCode rt p env now, o.Honest rt k := by
  rw [saltCode]
  split
  · exact honest_error _
  · intro o ho
    rw [List.mem_singleton.mp ho]
    exact h

theorem honest_announce (type : MessageType) :
    ∀ o ∈ announce type room p now, o.Honest rt k := by
  simp [announce, Op.Honest]

/-- **What a message starts** has been heard with it. -/
theorem honest_frame {frame : Option Envelope} (h : k.Hears rt (.frame p frame now)) :
    ∀ o ∈ frameCode rt p frame now, o.Honest rt k := by
  cases frame with
  | none => exact honest_error _
  | some env =>
      rw [frameCode]
      split
      · exact honest_error _
      next hname =>
      have hsingle : ∀ {o' : Op}, o'.Honest rt k → ∀ o ∈ [o'], o.Honest rt k := by
        intro o' ho' o ho
        rw [List.mem_singleton.mp ho]
        exact ho'
      have hvalid : MessageType.needsRoom env.type = true → validateRoomName rt env.room = "" :=
        fun hneeds => by_contra fun hne => hname ⟨hneeds, hne⟩
      split
      case h_1 htype => exact hsingle (h htype (hvalid (by rw [htype]; rfl)))
      case h_2 => exact hsingle trivial
      case h_12 =>
        intro o ho
        cases ho
      case h_13 => exact honest_error _
      all_goals
        next htype => exact hsingle (show env.type ≠ .presence by simp [htype])

/-! ### The store -/

theorem Heard.Knows.leave {store : Store} (h : k.Knows store) :
    k.Knows (store.leave room p now).1 := by
  intro r q nick hnick
  by_cases hr : r = room
  · rw [hr, Store.nickname_leave] at hnick
    split at hnick
    · cases hnick
    · exact hr ▸ h room q nick hnick
  · rw [Store.nickname_congr q (Store.lookup_leave_ne store p now hr)] at hnick
    exact h r q nick hnick

theorem Heard.Knows.joinWithTTL {store : Store} (h : k.Knows store) {n : String}
    (hjoined : k.joined room p n) (ttl : ℤ) (salt : List UInt8) :
    k.Knows (store.joinWithTTL room p ttl salt now).1 := by
  intro r q nick hnick
  by_cases hr : r = room
  · rw [hr, Store.nickname_joinWithTTL] at hnick
    split at hnick
    · next hq =>
      rw [hr, hq]
      obtain rfl := Option.some.inj hnick
      cases hold : store.nickname room p with
      | none => exact ⟨⟨n, hjoined⟩, .inl rfl⟩
      | some nick => exact h room p nick hold
    · exact hr ▸ h room q nick hnick
  · rw [Store.nickname_congr q (Store.lookup_joinWithTTL_ne store p ttl salt now hr)] at hnick
    exact h r q nick hnick

theorem Heard.Knows.setNickname {store : Store} (h : k.Knows store) {n : String}
    (hjoined : k.joined room p n) : k.Knows (store.setNickname room p n) := by
  intro r q nick hnick
  by_cases hr : r = room
  · rw [hr, Store.nickname_setNickname] at hnick
    split at hnick
    · next hq =>
      obtain rfl := Option.some.inj hnick
      rw [hr, hq.1]
      exact ⟨⟨n, hjoined⟩, .inr hjoined⟩
    · exact hr ▸ h room q nick hnick
  · rw [Store.nickname_congr q (Store.lookup_setNickname_ne store p n hr)] at hnick
    exact h r q nick hnick

theorem Heard.Knows.presence {store : Store} (h : k.Knows store) (room : RoomName) :
    k.Truthful (presenceMembers store room) := fun p nick hnick => h room p nick hnick

/-- The TTL and the salt of a room say nothing of its members. -/
theorem Heard.Truthful.presenceTTL {pp : PresencePayload} (h : k.Truthful pp)
    (ttl : ℤ × Time × Bool) : k.Truthful (presenceTTL pp ttl) := by
  rw [Gateway.presenceTTL]
  split <;> exact h

theorem Heard.Truthful.presenceSalt {pp : PresencePayload} (h : k.Truthful pp)
    (salt : List UInt8) : k.Truthful (presenceSalt pp salt) := by
  rw [Gateway.presenceSalt]
  split <;> exact h

theorem Heard.Knows.of_execute {s s' : Server} (hstore : k.Knows s.store)
    (h : execute rt s order now op = some (s', ops)) (hop : op.Honest rt k) : k.Knows s'.store := by
  rw [store_of_execute h]
  cases op with
  | storeJoin p room jp salt => exact hstore.joinWithTTL hop _ _
  | setNickname p room nick => exact hstore.setNickname hop
  | leaveRoom p room => exact hstore.leave
  | leaveStore room p => exact hstore.leave
  | sweep room dummy => exact hstore.leave
  | _ => exact hstore

/-- **What an operation leads to** has been heard. -/
theorem honest_of_execute {s s' : Server} (h : execute rt s order now op = some (s', ops))
    (hstore : k.Knows s.store) (hop : op.Honest rt k) : ∀ o ∈ ops, o.Honest rt k := by
  have hsingle : ∀ {o' : Op}, o'.Honest rt k → ∀ o ∈ [o'], o.Honest rt k := by
    intro o' ho' o ho
    rw [List.mem_singleton.mp ho]
    exact ho'
  cases op with
  | joinCount p env =>
      cases h
      split
      · exact hsingle hop
      · exact hsingle hop
  | joinRoomCount p env =>
      cases h
      split
      · exact honest_error _
      · exact hsingle hop
  | joinLimit p env =>
      cases h
      split
      · exact honest_error _
      · exact hsingle hop
  | addRoom p env =>
      cases h
      exact honest_salt hop
  | storeJoin p room jp salt =>
      cases h
      split
      · exact honest_announce _
      · exact List.forall_mem_cons.mpr ⟨hop, honest_announce _⟩
  | leaveRoom p room =>
      cases h
      exact hsingle trivial
  | removeRoom p room =>
      cases h
      exact honest_announce _
  | allow p env =>
      obtain rfl : (allowCode s p env now).2 = ops := congrArg Prod.snd (Option.some.inj h)
      exact honest_allow hop
  | member p env =>
      cases h
      split
      · exact honest_accept hop
      · exact honest_error _
  | roomList p =>
      cases h
      exact hsingle (.of_ne (by simp [roomListEnvelope]))
  | dropPeer p =>
      obtain ⟨-, h⟩ := Option.ite_none_right_eq_some.mp h
      cases h
      intro o ho
      obtain ⟨room, -, ho⟩ := List.mem_flatMap.mp ho
      simp only [leaveCode, List.mem_cons, List.not_mem_nil, or_false] at ho
      obtain rfl | rfl | rfl := ho <;> trivial
  | roomPeers room =>
      obtain ⟨-, h⟩ := Option.ite_none_right_eq_some.mp h
      cases h
      intro o ho
      obtain ⟨p, -, rfl⟩ := List.mem_map.mp ho
      trivial
  | detach room p =>
      cases h
      split
      · exact List.forall_mem_cons.mpr ⟨trivial, hsingle trivial⟩
      · exact hsingle trivial
  | expiredRooms =>
      obtain ⟨-, h⟩ := Option.ite_none_right_eq_some.mp h
      cases h
      intro o ho
      obtain ⟨room, -, ho⟩ := List.mem_flatMap.mp ho
      simp only [expireCode, List.mem_cons, List.not_mem_nil, or_false] at ho
      obtain rfl | rfl | rfl := ho
      · exact .of_ne (by simp [expiredEnvelope])
      · trivial
      · trivial
  | presencePeers room =>
      cases h
      exact hsingle (hstore.presence room)
  | presenceTTL pp =>
      cases h
      exact hsingle (hop.presenceTTL _)
  | presenceSalt pp =>
      cases h
      have htrue := Heard.Truthful.presenceSalt hop (s.store.roomSalt pp.room)
      exact hsingle fun _ => .inr ⟨_, rfl, rfl, htrue⟩
  | broadcastPeers room env exclude =>
      cases h
      exact hsingle hop
  | broadcastConns peers env =>
      -- a signature changes neither the room nor the text
      obtain ⟨-, h⟩ := Option.ite_none_right_eq_some.mp h
      cases h
      intro o ho
      obtain ⟨p, -, rfl⟩ := List.mem_map.mp ho
      exact hop
  | signalTarget env =>
      cases h
      split
      · exact hsingle hop
      · exact hsingle trivial
  | register | setNickname | forget | leaveStore | sweep | forward =>
      cases h
      intro o ho
      cases ho
  | enqueue | closeSend | deferCleanup | handlerReturn => cases h

/-! ### A run -/

/-- All that there is of presence and of nicknames has been heard. -/
structure Recorded (rt : GoRuntime) (k : Heard) (s : Queued) : Prop where
  store : k.Knows s.process.server.store
  code : ∀ t, ∀ o ∈ s.process.code t, o.Honest rt k
  queue : ∀ q, ∀ env ∈ s.queue q, k.Backs rt env

theorem recorded_newQueued : Recorded rt k newQueued where
  store := fun room p nick h => by cases h
  code := fun t o ho => by cases ho
  queue := fun q env henv => by cases henv

theorem honest_cleanup : ∀ o ∈ cleanupCode p, o.Honest rt k := by
  simp [cleanupCode, Op.Honest]

section
variable {s s' : Process} {t : Task} {a : Action}

/-- A goroutine is given operations. -/
theorem honest_setCode {code : List Op} (hs : ∀ t, ∀ o ∈ s.code t, o.Honest rt k)
    (hcode : ∀ o ∈ code, o.Honest rt k) :
    ∀ t', ∀ o ∈ (s.setCode t code).code t', o.Honest rt k := by
  intro t' o ho
  obtain hold | ⟨-, hnew⟩ := mem_setCode ho
  · exact hs t' o hold
  · exact hcode o hnew

theorem honest_panics (hs : ∀ t, ∀ o ∈ s.code t, o.Honest rt k) :
    ∀ t', ∀ o ∈ (s.panics t).code t', o.Honest rt k := by
  have hnone : ∀ o ∈ ([] : List Op), o.Honest rt k := fun o ho => by cases ho
  unfold Process.panics
  split
  · split
    · exact honest_setCode hs honest_cleanup
    · exact honest_setCode hs hnone
  · exact honest_setCode hs hnone
  · exact hs

/-- A goroutine makes its next operation. -/
theorem honest_runOp (hstore : k.Knows s.server.store) (hs : ∀ t, ∀ o ∈ s.code t, o.Honest rt k)
    (hcode : s.code t = op :: ops) (h : runOp rt s t ops order now op = some s') :
    k.Knows s'.server.store ∧ ∀ t, ∀ o ∈ s'.code t, o.Honest rt k := by
  have hop : op.Honest rt k := hs t op (hcode ▸ List.mem_cons_self)
  have hrest : ∀ o ∈ ops, o.Honest rt k := fun o ho => hs t o (hcode ▸ List.mem_cons_of_mem _ ho)
  have hexecuted : ∀ {server : Server} {more : List Op},
      execute rt s.server order now op = some (server, more) →
      s' = { s with server := server }.setCode t (more ++ ops) →
      k.Knows s'.server.store ∧ ∀ t, ∀ o ∈ s'.code t, o.Honest rt k := by
    rintro server more hexec rfl
    refine ⟨hstore.of_execute hexec hop, honest_setCode hs fun o ho => ?_⟩
    obtain ho | ho := List.mem_append.mp ho
    · exact honest_of_execute hexec hstore hop o ho
    · exact hrest o ho
  cases op with
  | enqueue q env =>
      rw [runOp] at h
      split at h
      · obtain rfl := Option.some.inj h
        exact ⟨hstore, honest_setCode hs hrest⟩
      · obtain rfl := Option.some.inj h
        rw [server_panics]
        exact ⟨hstore, honest_panics hs⟩
  | closeSend q =>
      rw [runOp] at h
      split at h
      · obtain rfl := Option.some.inj h
        exact ⟨hstore, honest_setCode hs hrest⟩
      · obtain rfl := Option.some.inj h
        rw [server_panics]
        exact ⟨hstore, honest_panics hs⟩
  | deferCleanup q =>
      obtain rfl := Option.some.inj h
      exact ⟨hstore, honest_setCode hs hrest⟩
  | handlerReturn q =>
      obtain rfl := Option.some.inj h
      exact ⟨hstore, honest_setCode hs hrest⟩
  | _ =>
      simp only [Gateway.runOp, Option.map_eq_some_iff] at h
      obtain ⟨⟨server, more⟩, hexec, rfl⟩ := h
      exact hexecuted hexec rfl

/-- **A step of the process.** -/
theorem honest_act (hstore : k.Knows s.server.store) (hs : ∀ t, ∀ o ∈ s.code t, o.Honest rt k)
    (ha : k.Hears rt a) (h : act rt s a = some s') :
    k.Knows s'.server.store ∧ ∀ t, ∀ o ∈ s'.code t, o.Honest rt k := by
  cases a with
  | connect p now =>
      rw [Gateway.act, Option.ite_none_right_eq_some, Option.some_inj] at h
      obtain ⟨-, rfl⟩ := h
      refine ⟨hstore, honest_setCode hs ?_⟩
      simp [Op.Honest, Heard.Backs, welcomeEnvelope]
  | frame p frame now =>
      rw [Gateway.act, Option.ite_none_right_eq_some, Option.some_inj] at h
      obtain ⟨-, rfl⟩ := h
      exact ⟨hstore, honest_setCode hs (honest_frame ha)⟩
  | readError p =>
      rw [Gateway.act, Option.ite_none_right_eq_some, Option.some_inj] at h
      obtain ⟨-, rfl⟩ := h
      exact ⟨hstore, honest_setCode hs honest_cleanup⟩
  | cleanupRequest n room =>
      rw [Gateway.act, Option.ite_none_right_eq_some, Option.some_inj] at h
      obtain ⟨-, rfl⟩ := h
      exact ⟨hstore, honest_setCode hs (by simp [Op.Honest])⟩
  | broadcastRequest n room type payload now =>
      rw [Gateway.act, Option.ite_none_right_eq_some, Option.some_inj] at h
      obtain ⟨-, rfl⟩ := h
      refine ⟨hstore, honest_setCode hs fun o ho => ?_⟩
      rw [List.mem_singleton.mp ho]
      exact fun htype => .inl (ha htype)
  | tick =>
      rw [Gateway.act, Option.ite_none_right_eq_some, Option.some_inj] at h
      obtain ⟨-, rfl⟩ := h
      exact ⟨hstore, honest_setCode hs (by simp [Op.Honest])⟩
  | relayed i env =>
      rw [Gateway.act, Option.ite_none_right_eq_some, Option.some_inj] at h
      obtain ⟨-, rfl⟩ := h
      refine ⟨hstore, honest_setCode hs fun o ho => ?_⟩
      rw [List.mem_singleton.mp ho]
      exact fun htype => .inl (ha htype)
  | run t order now =>
      rw [Gateway.act] at h
      split at h
      · cases h
      · next op rest hcode => exact honest_runOp hstore hs hcode h

end

theorem puts_mem {s : Process} {a : Action} {q : PeerID} {e : Envelope}
    (h : s.puts a = some (q, e)) : ∃ t, .enqueue q e ∈ s.code t := by
  cases a with
  | run t order now =>
      rw [Process.puts] at h
      split at h
      · next p env hhead =>
        obtain ⟨-, heq⟩ := Option.ite_none_right_eq_some.mp h
        cases heq
        exact ⟨t, List.mem_of_mem_head? hhead⟩
      · cases h
  | _ => cases h

/-- **A step.** What is put on a queue was on its way. -/
theorem recorded_step {s s' : Queued} {a : Action} (hs : Recorded rt k s) (ha : k.Hears rt a)
    (h : queuedStep rt s a = some s') : Recorded rt k s' := by
  rw [queuedStep, Option.map_eq_some_iff] at h
  obtain ⟨process, hstep, rfl⟩ := h
  obtain ⟨hstore, hcode⟩ := honest_act hs.store hs.code ha (Option.ite_none_left_eq_some.mp hstep).2
  refine ⟨hstore, hcode, fun q env henv => ?_⟩
  change env ∈ put s.queue (s.process.puts a) q at henv
  cases hputs : s.process.puts a with
  | none =>
      rw [hputs] at henv
      exact hs.queue q env henv
  | some new =>
      obtain ⟨p, e⟩ := new
      rw [hputs, put] at henv
      have hnew : k.Backs rt e := by
        obtain ⟨t, hmem⟩ := puts_mem hputs
        exact hs.code t _ hmem
      by_cases hq : q = p
      · rw [hq, Function.update_self] at henv
        obtain hold | hlast := List.mem_append.mp henv
        · exact hs.queue p env hold
        · exact List.mem_singleton.mp hlast ▸ hnew
      · rw [Function.update_of_ne hq] at henv
        exact hs.queue q env henv

end

/-- **The nicknames of a room are its members' own.** In every run, what the store has of a
peer in a room, and what the gateway tells anybody of it in a presence, is that it joined the
room, under no nickname or one that came with a join of its own; and such nicknames are
clean. -/
theorem nicknames_own (rt : GoRuntime) {as : List Action} {s : Queued}
    (h : exec (queuedStep rt) newQueued as = some s) :
    (Heard.during rt as).Knows s.process.server.store ∧
      (∀ q, ∀ env ∈ s.queue q, (Heard.during rt as).Backs rt env) ∧
      ∀ room p nick, (Heard.during rt as).Listed room p nick → CleanNickname nick := by
  have hrecorded : Recorded rt (.during rt as) s := by
    refine invariant_of_exec (I := Recorded rt (.during rt as)) ?_ recorded_newQueued h
    exact fun s a ha s' hs hstep => recorded_step hs (Heard.hears_during ha) hstep
  refine ⟨hrecorded.store, hrecorded.queue, fun room p nick hlisted => ?_⟩
  obtain rfl | ⟨-, env, now, -, -, -, rfl⟩ := hlisted.nickname
  · exact cleanNickname_empty
  · exact cleanNickname_sanitize _

/-- One join payload, whose nickname is to be cleaned. -/
def nicknameRuntime : GoRuntime := asciiRuntime "t" { nickname := " A\tl " }

/-- A peer joins an empty room under a nickname. -/
def joinUnderNickname : List Action :=
  .connect "a" 0 :: runs (.handler "a") [[], [], []] ++
    .frame "a" (some { type := .join, room := "r", payload := "t" }) 0 ::
      runs (.handler "a") [[], [], [], [], [], [], [], [], [], [], ["a"], [], [], [], []]

theorem joinUnderNickname_run : (exec (queuedStep nicknameRuntime) newQueued
    joinUnderNickname).any (fun s =>
      decide (s.process.server.store.nickname "r" "a" = some "Al")) = true := by
  decide +kernel

theorem nicknames_own_joinUnderNickname :
    (Heard.during nicknameRuntime joinUnderNickname).Listed "r" "a" "Al" ∧
      CleanNickname "Al" := by
  obtain ⟨s, hexec, hnick⟩ := (Option.any_eq_true _ _).mp joinUnderNickname_run
  obtain ⟨hstore, -, hclean⟩ := nicknames_own nicknameRuntime hexec
  have hlisted := hstore "r" "a" "Al" (of_decide_eq_true hnick)
  exact ⟨hlisted, hclean _ _ _ hlisted⟩

end TrapChat.Gateway
