import TrapChat.Gateway.Shapes
import TrapChat.Storage.History

/-!
The TTL loop. It takes the names of the rooms that have expired once, and comes to
each of them in its own time: a name may by then belong to another room, which has
been created since. What the loop does reaches peers in three ways: the message that
the room has expired, the removal of the room from the peer's set, and the removal of
the peer from the store.

The clock is a part of the state here; it does not run backwards.
-/

namespace TrapChat.Gateway

open Storage Protocol Transition

structure Clocked where
  process : Process
  clock : Time

def newClocked : Clocked := ⟨newProcess, 0⟩

/-- The time at which an action is taken, for those that read the clock. -/
def Action.time : Action → Option Time
  | .connect _ now | .frame _ _ now | .broadcastRequest _ _ _ _ now | .run _ _ now => some now
  | .readError _ | .cleanupRequest .. | .tick | .relayed .. => none

/-- A step of the process at a time that is not past. -/
def clockedStep (rt : GoRuntime) (s : Clocked) (a : Action) : Option Clocked :=
  if s.clock ≤ a.time.getD s.clock then
    (processStep rt s.process a).map fun process => ⟨process, a.time.getD s.clock⟩
  else none

/-- An operation tells a peer that a room has expired, or takes the peer out of the
room, or leads to one that does. -/
def Op.Reaches (room : RoomName) (p : PeerID) : Op → Prop
  | .broadcastPeers _ env _ => env.room = room
  | .broadcastConns peers env => env.room = room ∧ p ∈ peers
  | .enqueue q env => env.room = room ∧ q = p
  | .roomPeers room' => room' = room
  | .detach room' q | .leaveStore room' q => room' = room ∧ q = p
  | _ => False

instance (room : RoomName) (p : PeerID) (op : Op) : Decidable (op.Reaches room p) := by
  induction op using Op.casesOn <;> unfold Op.Reaches <;> infer_instance

/-- If a peer is in a room, the room has expired. -/
def Store.ExpiredFor (store : Store) (now : Time) (room : RoomName) (p : PeerID) : Prop :=
  ∀ r, store.rooms.lookup room = some r → p ∈ r.peers → r.expired now = true

/-- What the TTL loop does to a peer, it does to one whose room has expired. -/
def Lawful (s : Process) : Action → Prop
  | .run .ttlLoop _ now =>
    match (s.code .ttlLoop).head? with
    | some (.enqueue p env) => Store.ExpiredFor s.server.store now env.room p
    | some (.detach room p) | some (.leaveStore room p) =>
      Store.ExpiredFor s.server.store now room p
    | _ => True
  | _ => True

/-- A peer does not enter a room that has not expired while the TTL loop has something
left to do that reaches the peer in that room. -/
def Undisturbed (s : Process) : Action → Prop
  | .run t _ now =>
    match (s.code t).head? with
    | some (.storeJoin p room jp salt) =>
      ((s.server.store.rooms.lookup room).getD
        (Room.create room (ttlForJoin jp) salt now)).expired now = true ∨
      ∀ op ∈ s.code .ttlLoop, ¬op.Reaches room p
    | _ => True
  | _ => True

instance (s : Process) (a : Action) : Decidable (Undisturbed s a) := by
  induction a using Action.casesOn <;> unfold Undisturbed <;> try infer_instance
  case run t _ now =>
    dsimp only
    generalize (s.code t).head? = o
    induction o using Option.casesOn with
    | none => infer_instance
    | some op => induction op using Op.casesOn <;> infer_instance

/-! ### What an operation does to the store -/

/-- The call of the store that an operation makes. -/
def Op.call (now : Time) : Op → Option Call
  | .storeJoin p room jp salt => some (.joinWithTTL room p (ttlForJoin jp) salt now)
  | .setNickname p room nick => some (.setNickname room p nick)
  | .leaveRoom p room | .leaveStore room p | .sweep room p => some (.leave room p now)
  | _ => none

section
variable {rt : GoRuntime} {s s' : Server} {order : List String} {now time : Time} {op o : Op}
  {ops : List Op} {p : PeerID} {room : RoomName} {r : Room}

theorem store_of_execute (h : execute rt s order now op = some (s', ops)) :
    s'.store = match op.call now with
      | none => s.store
      | some c => (s.store.apply c).1 := by
  cases op with
  | allow q env =>
      have hstore := congrArg (Server.store ∘ Prod.fst) (Option.some.inj h)
      refine hstore.symm.trans ?_
      show (allowCode s q env now).1.store = s.store
      unfold allowCode
      split <;> rfl
  | forget limiter q =>
      cases h
      cases limiter <;> rfl
  | removeRoom q room =>
      cases h
      exact Server.store_removeRoom s q room
  | detach room q =>
      cases h
      exact Server.store_detach s room q
  | dropPeer | roomPeers | expiredRooms | broadcastConns =>
      obtain ⟨-, h⟩ := Option.ite_none_right_eq_some.mp h
      cases h
      rfl
  | enqueue | closeSend | deferCleanup | handlerReturn => cases h
  | _ =>
      cases h
      rfl

theorem not_setsTTL_of_call {c : Call} (h : op.call now = some c) : ¬c.SetsTTL := by
  cases op <;> cases h <;> exact fun h => h

theorem Room.expired_congr {r r' : Room} (h : r'.origin = r.origin) :
    r'.expired now = r.expired now := by
  obtain ⟨httl, -, hcreated⟩ := Origin.mk.inj h
  rw [Room.expired, Room.expired, httl, hcreated]

theorem Room.expired_mono (h : r.expired now = true) (hle : now ≤ time) :
    r.expired time = true := by
  simp only [Room.expired, Bool.and_eq_true, decide_eq_true_eq] at h ⊢
  exact ⟨h.1, h.2.trans_le hle⟩

/-- A peer in an expired room stays in one, until it enters another. -/
theorem Store.ExpiredFor.of_execute (hp : Store.ExpiredFor s.store now room p)
    (h : execute rt s order now op = some (s', ops))
    (hjoin : ∀ jp salt, op = .storeJoin p room jp salt → ((s.store.rooms.lookup room).getD
      (Room.create room (ttlForJoin jp) salt now)).expired now = true) :
    Store.ExpiredFor s'.store now room p := by
  intro r hr hmem
  have hstore := store_of_execute h
  cases hcall : op.call now with
  | none =>
      rw [hcall] at hstore
      dsimp only at hstore
      exact hp r (hstore ▸ hr) hmem
  | some c =>
      rw [hcall] at hstore
      dsimp only at hstore
      rw [hstore] at hr
      have hpeers : p ∈ (s.store.apply c).1.peers room := Store.mem_peers.mpr ⟨r, hr, hmem⟩
      obtain henter | ⟨-, hold⟩ := Store.mem_peers_apply.mp hpeers
      · -- the peer enters: the record is the one there was, or a new one
        cases op with
        | storeJoin q room' jp salt =>
            obtain rfl := Option.some.inj hcall
            obtain ⟨⟨rfl, rfl⟩, -⟩ := Option.ite_none_right_eq_some.mp henter
            have hlookup : some _ = some r :=
              (s.store.lookup_joinWithTTL_self room' q (ttlForJoin jp) salt now).symm.trans hr
            rw [← Option.some.inj hlookup, Room.expired_congr (Room.origin_enter _ q now)]
            exact hjoin jp salt rfl
        | setNickname q room' nick =>
            obtain rfl := Option.some.inj hcall
            cases henter
        | leaveRoom q room' | leaveStore room' q | sweep room' q =>
            obtain rfl := Option.some.inj hcall
            exact absurd (Option.ite_none_right_eq_some.mp henter).2 (by simp)
        | _ => cases hcall
      · obtain ⟨r₀, hr₀, hmem₀⟩ := Store.mem_peers.mp hold
        obtain ⟨r', hr', horigin⟩ := Store.origin_apply (not_setsTTL_of_call hcall) hr₀ ⟨p, hpeers⟩
        obtain rfl : r' = r := Option.some.inj (hr'.symm.trans hr)
        rw [Room.expired_congr horigin]
        exact hp r₀ hr₀ hmem₀

/-! ### What the loop has left to do -/

/-- The operations of the TTL loop. -/
def Op.loops : Op → Bool
  | .expiredRooms | .broadcastPeers .. | .broadcastConns .. | .enqueue .. | .roomPeers _
  | .detach .. | .leaveStore .. | .closeSend _ | .sweep .. => true
  | _ => false

/-- An operation of the loop leads to others of the loop, that reach the peers it
reaches; but the one that takes the names leads to those that reach expired rooms. -/
theorem reaches_of_execute (hop : op.loops = true)
    (h : execute rt s order now op = some (s', ops)) (ho : o ∈ ops) :
    o.loops = true ∧ ∀ room p, o.Reaches room p →
      op.Reaches room p ∨ Store.ExpiredFor s'.store now room p := by
  cases op with
  | broadcastPeers room' env exclude =>
      cases h
      obtain rfl := List.mem_singleton.mp ho
      exact ⟨rfl, fun room p hreach => .inl hreach.1⟩
  | broadcastConns peers env =>
      obtain ⟨henum, h⟩ := Option.ite_none_right_eq_some.mp h
      cases h
      obtain ⟨q, hq, rfl⟩ := List.mem_map.mp ho
      refine ⟨rfl, fun room p hreach => .inl ⟨hreach.1, ?_⟩⟩
      rw [← hreach.2]
      exact (Finset.mem_inter.mp (henum.mem_iff.mp hq)).1
  | roomPeers room' =>
      obtain ⟨-, h⟩ := Option.ite_none_right_eq_some.mp h
      cases h
      obtain ⟨q, -, rfl⟩ := List.mem_map.mp ho
      exact ⟨rfl, fun room p hreach => .inl hreach.1⟩
  | detach room' q =>
      cases h
      split at ho
      · simp only [List.mem_cons, List.not_mem_nil, or_false] at ho
        obtain rfl | rfl := ho
        · exact ⟨rfl, fun room p hreach => .inl hreach⟩
        · exact ⟨rfl, fun room p hreach => False.elim hreach⟩
      · obtain rfl := List.mem_singleton.mp ho
        exact ⟨rfl, fun room p hreach => .inl hreach⟩
  | expiredRooms =>
      obtain ⟨henum, h⟩ := Option.ite_none_right_eq_some.mp h
      cases h
      obtain ⟨name, hname, ho⟩ := List.mem_flatMap.mp ho
      have hexpired : ∀ p, Store.ExpiredFor s.store now name p := by
        intro p r hr _
        have hany := (Finset.mem_filter.mp (henum.mem_iff.mp hname)).2
        rw [hr] at hany
        exact hany
      simp only [expireCode, List.mem_cons, List.not_mem_nil, or_false] at ho
      obtain rfl | rfl | rfl := ho
      · refine ⟨rfl, fun room p hreach => .inr ?_⟩
        obtain rfl : name = room := hreach
        exact hexpired p
      · refine ⟨rfl, fun room p hreach => .inr ?_⟩
        obtain rfl : name = room := hreach
        exact hexpired p
      · exact ⟨rfl, fun room p hreach => False.elim hreach⟩
  | leaveStore room' q | sweep room' q =>
      cases h
      cases ho
  | enqueue | closeSend => cases h
  | _ => cases hop

/-! ### The invariant -/

/-- What the loop has left to do reaches peers whose room has expired. -/
structure Doomed (s : Clocked) : Prop where
  loops : ∀ o ∈ s.process.code .ttlLoop, o.loops = true
  expired : ∀ o ∈ s.process.code .ttlLoop, ∀ room p, o.Reaches room p →
    Store.ExpiredFor s.process.server.store s.clock room p

theorem Store.ExpiredFor.mono {store : Store} (h : Store.ExpiredFor store now room p)
    (hle : now ≤ time) : Store.ExpiredFor store time room p :=
  fun r hr hmem => Room.expired_mono (h r hr hmem) hle

theorem doomed_newClocked : Doomed newClocked := ⟨fun _ ho => (nomatch ho), fun _ ho => nomatch ho⟩

variable {c c' : Clocked} {a : Action}

theorem Doomed.step (hs : Doomed c) (ha : Undisturbed c.process a)
    (h : clockedStep rt c a = some c') : Doomed c' := by
  obtain ⟨htime, h⟩ := Option.ite_none_right_eq_some.mp h
  obtain ⟨process, hstep, rfl⟩ := Option.map_eq_some_iff.mp h
  obtain ⟨hserver, hcode⟩ | ⟨t, order, now, op, rest, server, ops, rfl, hcode, hexec, rfl⟩ :=
    cases_of_act (Option.ite_none_left_eq_some.mp hstep).2
  · have hstarts : ∀ o : Op, o.starts .ttlLoop = true → o = .expiredRooms := by
      intro o ho
      cases o <;> first | rfl | cases ho
    refine ⟨fun o ho => ?_, fun o ho room p hreach => ?_⟩
    · obtain hold | hnew := hcode .ttlLoop o ho
      · exact hs.loops o hold
      · rw [hstarts o hnew]
        rfl
    · obtain hold | hnew := hcode .ttlLoop o ho
      · show Store.ExpiredFor process.server.store _ room p
        rw [hserver]
        exact (hs.expired o hold room p hreach).mono htime
      · rw [hstarts o hnew] at hreach
        cases hreach
  · have htime : c.clock ≤ now := htime
    -- what was left to do before stays expired
    have hkept : ∀ o ∈ c.process.code .ttlLoop, ∀ room p, o.Reaches room p →
        Store.ExpiredFor server.store now room p := by
      intro o ho room p hreach
      refine ((hs.expired o ho room p hreach).mono htime).of_execute hexec ?_
      rintro jp salt rfl
      simp only [Undisturbed, hcode, List.head?_cons] at ha
      exact ha.resolve_right fun hnone => hnone o ho hreach
    have hmem : ∀ o ∈ ({ c.process with server := server }.setCode t (ops ++ rest)).code .ttlLoop,
        o ∈ c.process.code .ttlLoop ∨ t = .ttlLoop ∧ o ∈ ops := by
      intro o ho
      obtain hold | ⟨rfl, hnew⟩ := mem_setCode ho
      · exact .inl hold
      · obtain hops | hrest := List.mem_append.mp hnew
        · exact .inr ⟨rfl, hops⟩
        · exact .inl (hcode ▸ List.mem_cons_of_mem _ hrest)
    have hnew : t = .ttlLoop → ∀ o ∈ ops, o.loops = true ∧ ∀ room p, o.Reaches room p →
        Store.ExpiredFor server.store now room p := by
      rintro rfl o ho
      have hop : op ∈ c.process.code .ttlLoop := hcode ▸ List.mem_cons_self
      obtain ⟨hloops, hreaches⟩ := reaches_of_execute (hs.loops op hop) hexec ho
      refine ⟨hloops, fun room p hreach => ?_⟩
      obtain hold | hexpired := hreaches room p hreach
      · exact hkept op hop room p hold
      · exact hexpired
    refine ⟨fun o ho => ?_, fun o ho room p hreach => ?_⟩
    · obtain hold | ⟨ht, ho⟩ := hmem o ho
      · exact hs.loops o hold
      · exact (hnew ht o ho).1
    · obtain hold | ⟨ht, ho⟩ := hmem o ho
      · exact hkept o hold room p hreach
      · exact (hnew ht o ho).2 room p hreach

theorem Doomed.lawful (hs : Doomed c) (h : clockedStep rt c a = some c') :
    Lawful c.process a := by
  obtain ⟨htime, -⟩ := Option.ite_none_right_eq_some.mp h
  unfold Lawful
  split
  · next order now =>
    have hhead : ∀ op room p, (c.process.code .ttlLoop).head? = some op → op.Reaches room p →
        Store.ExpiredFor c.process.server.store now room p := fun op room p hop hreach =>
      (hs.expired op (List.mem_of_mem_head? hop) room p hreach).mono htime
    split
    · next p env hop => exact hhead _ _ _ hop ⟨rfl, rfl⟩
    · next room p hop => exact hhead _ _ _ hop ⟨rfl, rfl⟩
    · next room p hop => exact hhead _ _ _ hop ⟨rfl, rfl⟩
    · trivial
  · trivial

end

/-- **The TTL loop acts on expired rooms.** In every run in which no peer enters a
room that has not expired while the loop has something left to do that reaches it
there, whatever the loop does to a peer of a room, that room has expired. -/
theorem expires_lawfully {rt : GoRuntime} {c c' : Clocked} {a : Action}
    (hs : ReachableVia (clockedStep rt) (fun c a => Undisturbed c.process a) newClocked c)
    (h : clockedStep rt c a = some c') : Lawful c.process a :=
  have hdoomed : Doomed c := hs.invariant doomed_newClocked
    fun _ _ _ hs ha hstep => hs.step ha hstep
  hdoomed.lawful h

/-! ### A room that runs out -/

/-- A runtime that reads one payload, a TTL of a quarter of an hour. -/
def ttlRuntime : GoRuntime := asciiRuntime "ttl" { ttlSeconds := 900 }

def runsAt (t : Task) (now : Time) (orders : List (List String)) : List Action :=
  orders.map fun order => .run t order now

/-- A peer joins a room with a TTL. -/
def joinWithTTL (p : PeerID) (room : RoomName) : List Action :=
  .connect p 0 :: runs (.handler p) [[], [], []] ++
    .frame p (some { joinEnvelope room with payload := "ttl" }) 0 ::
      runs (.handler p) [[], [], [], [], [], [], [], [], [], [p], [], [], [], []]

/-- The loop finds the room expired. -/
def runsOut : List Action :=
  joinWithTTL "a" "r" ++ .tick :: runsAt .ttlLoop (seconds 901) [["r"]]

/-- The loop sends the message, and takes the peer out of the room. -/
def removal : List Action :=
  runsOut ++ runsAt .ttlLoop (seconds 901) [[], ["a"], [], ["a"], []]

/-- Before the loop comes to the room, its peer leaves and another one creates it. -/
def recreated : List Action :=
  runsOut ++ .frame "a" (some { type := .leave, room := "r" }) (seconds 901) ::
    runsAt (.handler "a") (seconds 901) [[]] ++
    .connect "b" (seconds 901) :: runsAt (.handler "b") (seconds 901) [[], [], []] ++
    .frame "b" (some (joinEnvelope "r")) (seconds 901) ::
      runsAt (.handler "b") (seconds 901) [[], [], [], [], []] ++
    runsAt .ttlLoop (seconds 901) [[], ["b"]]

instance (store : Store) (now : Time) (room : RoomName) (p : PeerID) :
    Decidable (Store.ExpiredFor store now room p) :=
  match h : store.rooms.lookup room with
  | none => .isTrue fun r hr => by simp [h] at hr
  | some r => decidable_of_iff (p ∈ r.peers → r.expired now = true)
      ⟨fun hexpired r' hr' => Option.some.inj (h.symm.trans hr') ▸ hexpired, fun hall => hall r h⟩

theorem removal_run : (execVia (clockedStep ttlRuntime) (fun c a => Undisturbed c.process a)
    newClocked removal).isSome = true := by
  decide +kernel

/-- The next step takes the peer out of the store. -/
theorem removal_next : (clockedStep ttlRuntime ((execVia (clockedStep ttlRuntime)
    (fun c a => Undisturbed c.process a) newClocked removal).get removal_run)
      (.run .ttlLoop [] (seconds 901))).isSome = true := by
  decide +kernel

theorem expires_lawfully_removal : Lawful ((execVia (clockedStep ttlRuntime)
    (fun c a => Undisturbed c.process a) newClocked removal).get removal_run).process
      (.run .ttlLoop [] (seconds 901)) :=
  expires_lawfully (reachableVia_get removal_run) (Option.some_get removal_next).symm

/-- The loop is about to tell a peer that its room has expired, which has not. -/
def AboutToMistake (c : Clocked) : Bool :=
  match (c.process.code .ttlLoop).head? with
  | some (.enqueue p env) =>
    !decide (Store.ExpiredFor c.process.server.store (seconds 901) env.room p) &&
      (clockedStep ttlRuntime c (.run .ttlLoop [] (seconds 901))).isSome
  | _ => false

theorem recreated_run :
    (exec (clockedStep ttlRuntime) newClocked recreated).any AboutToMistake = true := by
  decide +kernel

/-- **A room that is created again under an expired name is expired with it.** -/
theorem recreated_expires : ¬∀ c a c', Reachable (clockedStep ttlRuntime) newClocked c →
    clockedStep ttlRuntime c a = some c' → Lawful c.process a := by
  intro hclaim
  obtain ⟨c, hexec, hmistake⟩ := (Option.any_eq_true _ _).mp recreated_run
  unfold AboutToMistake at hmistake
  split at hmistake
  · next p env hhead =>
    obtain ⟨hfresh, hnext⟩ := Bool.and_eq_true_iff.mp hmistake
    have hlawful := hclaim c _ _ (reachable_of_exec .start hexec) (Option.some_get hnext).symm
    simp only [Lawful, hhead] at hlawful
    rw [decide_eq_true hlawful] at hfresh
    cases hfresh
  · cases hmistake

end TrapChat.Gateway
