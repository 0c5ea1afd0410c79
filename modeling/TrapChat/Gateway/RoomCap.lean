import TrapChat.Gateway.Shapes

/-!
The limit on the number of rooms. A join looks at the number of rooms, and creates
its room several critical sections later. Between the two it is counted nowhere, so
the joins that are let through at the same time may together exceed the limit.

What a join needs of the limit is a name: the rooms there are, and the rooms of the
joins that have been let through and have not come to the store, are the claimed
ones. Nothing but the check claims a name.
-/

namespace TrapChat.Gateway

open Storage Protocol Transition

/-- The room of a join that has been let through and has not come to the store. -/
def Op.opens : Op → Option RoomName
  | .joinLimit _ env | .addRoom _ env => some env.room
  | .storeJoin _ room _ _ => some room
  | _ => none

/-- The rooms that joins have been let through to. -/
def Process.underWay (s : Process) : Finset RoomName :=
  s.tasks.biUnion fun t => ((s.code t).filterMap Op.opens).toFinset

def Process.claimed (s : Process) : Finset RoomName := s.server.store.roomNames ∪ s.underWay

/-- A join is let through only if its room can be claimed within the limit. -/
def Spare (s : Process) : Action → Prop
  | .run t _ _ =>
    match (s.code t).head? with
    | some (.joinRoomCount _ env) =>
      s.server.store.roomCount < maxRooms → (insert env.room s.claimed).card ≤ maxRooms
    | _ => True
  | _ => True

instance (s : Process) (a : Action) : Decidable (Spare s a) := by
  induction a using Action.casesOn <;> unfold Spare <;> try infer_instance
  case run t _ _ =>
    dsimp only
    generalize (s.code t).head? = o
    induction o using Option.casesOn with
    | none => infer_instance
    | some op => induction op using Op.casesOn <;> infer_instance

section
variable {rt : GoRuntime} {s s' : Process} {server server' : Server} {t : Task}
  {order : List String} {now : Time} {op o : Op} {ops : List Op} {p : PeerID} {room : RoomName}

theorem mem_roomNames {store : Store} : room ∈ store.roomNames ↔ (store.peers room).Nonempty := by
  rw [Store.roomNames, Finmap.mem_keys, Finmap.mem_iff]
  exact Store.exists_iff_peers_nonempty

theorem mem_claimed (hs : Formed s) : room ∈ s.claimed ↔
    room ∈ s.server.store.roomNames ∨ ∃ t, ∃ o ∈ s.code t, o.opens = some room := by
  rw [Process.claimed, Finset.mem_union, Process.underWay, Finset.mem_biUnion]
  refine or_congr_right ⟨?_, ?_⟩
  · rintro ⟨t, -, hroom⟩
    obtain ⟨o, ho, hopens⟩ := List.mem_filterMap.mp (List.mem_toFinset.mp hroom)
    exact ⟨t, o, ho, hopens⟩
  · rintro ⟨t, o, ho, hopens⟩
    exact ⟨t, hs.mem_tasks ho, List.mem_toFinset.mpr (List.mem_filterMap.mpr ⟨o, ho, hopens⟩)⟩

theorem opens_of_sends (h : o.sends = true) : o.opens = none := by
  cases o <;> first | rfl | cases h

theorem opens_of_starts (h : o.starts t = true) : o.opens = none := by
  cases o <;> first | rfl | (cases t <;> cases h)

/-- A name that is claimed after an operation was claimed before it, or the operation
is the check. -/
theorem claims_of_execute (h : execute rt server order now op = some (server', ops))
    (hroom : room ∈ server'.store.roomNames ∨ ∃ o ∈ ops, o.opens = some room) :
    room ∈ server.store.roomNames ∨ op.opens = some room ∨
      ∃ p env, op = .joinRoomCount p env ∧ env.room = room ∧ server.store.roomCount < maxRooms := by
  obtain hroom | ⟨o, ho, hopens⟩ := hroom
  · obtain ⟨q, hq⟩ := mem_roomNames.mp hroom
    obtain hold | ⟨jp, salt, rfl⟩ := peers_of_execute h hq
    · exact .inl (mem_roomNames.mpr ⟨q, hold⟩)
    · exact .inr (.inl rfl)
  · obtain hsends | hleads := leads_of_execute h ho
    · rw [opens_of_sends hsends] at hopens
      cases hopens
    · cases hleads with
      | joinCount q env =>
          -- the room exists already, and the limit is not looked at
          cases h
          split at ho
          · rw [List.mem_singleton] at ho
            cases ho
          · next hcount =>
            obtain rfl := Option.some.inj hopens
            refine .inl (mem_roomNames.mpr (Finset.card_pos.mp ?_))
            rw [← Store.count_eq_card]
            exact Nat.pos_of_ne_zero hcount
      | joinLimit q env =>
          cases h
          split at ho
          · rw [List.mem_singleton] at ho
            cases ho
          · next hfull =>
            obtain rfl := Option.some.inj hopens
            exact .inr (.inr ⟨q, env, rfl, rfl, Nat.lt_of_not_le hfull⟩)
      | addRoom q env => exact .inr (.inl hopens)
      | storeJoin q env jp salt => exact .inr (.inl hopens)
      | _ => cases hopens

/-- **What a step claims.** -/
theorem card_claimed_of_act (hs : Formed s) {a : Action} (ha : Spare s a)
    (h : act rt s a = some s') (hcard : s.claimed.card ≤ maxRooms) :
    s'.claimed.card ≤ maxRooms := by
  have hs' : Formed s' := hs.act h
  obtain ⟨hserver, hcode⟩ | ⟨t, order, now, op, rest, server, ops, rfl, hcode, hexec, rfl⟩ :=
    cases_of_act h
  · refine (Finset.card_le_card fun room hroom => ?_).trans hcard
    rw [mem_claimed hs]
    obtain hroom | ⟨t, o, ho, hopens⟩ := (mem_claimed hs').mp hroom
    · exact .inl (hserver ▸ hroom)
    · obtain ho | hstarts := hcode t o ho
      · exact .inr ⟨t, o, ho, hopens⟩
      · rw [opens_of_starts hstarts] at hopens
        cases hopens
  · have hop : op ∈ s.code t := hcode ▸ List.mem_cons_self
    have hclaims : ∀ room ∈ ({ s with server := server }.setCode t (ops ++ rest)).claimed,
        room ∈ s.claimed ∨ ∃ p env, op = .joinRoomCount p env ∧ env.room = room ∧
          s.server.store.roomCount < maxRooms := by
      intro room hroom
      rw [mem_claimed hs]
      have hexecuted : room ∈ server.store.roomNames ∨ (∃ o ∈ ops, o.opens = some room) →
          (room ∈ s.server.store.roomNames ∨ ∃ t, ∃ o ∈ s.code t, o.opens = some room) ∨
            ∃ p env, op = .joinRoomCount p env ∧ env.room = room ∧
              s.server.store.roomCount < maxRooms := by
        intro hnew
        obtain hroom | hopens | hcheck := claims_of_execute hexec hnew
        · exact .inl (.inl hroom)
        · exact .inl (.inr ⟨t, op, hop, hopens⟩)
        · exact .inr hcheck
      obtain hroom | ⟨t', o, ho, hopens⟩ := (mem_claimed hs').mp hroom
      · exact hexecuted (.inl hroom)
      · obtain hold | ⟨rfl, hnew⟩ := mem_setCode ho
        · exact .inl (.inr ⟨t', o, hold, hopens⟩)
        · obtain hnew | hrest := List.mem_append.mp hnew
          · exact hexecuted (.inr ⟨o, hnew, hopens⟩)
          · exact .inl (.inr ⟨t', o, hcode ▸ List.mem_cons_of_mem _ hrest, hopens⟩)
    by_cases hcheck : ∃ p env, op = .joinRoomCount p env ∧ s.server.store.roomCount < maxRooms
    · obtain ⟨p, env, rfl, hlt⟩ := hcheck
      have hspare : (insert env.room s.claimed).card ≤ maxRooms := by
        simp only [Spare, hcode, List.head?_cons] at ha
        exact ha hlt
      refine (Finset.card_le_card fun room hroom => ?_).trans hspare
      rw [Finset.mem_insert]
      obtain hold | ⟨q, env', heq, rfl, -⟩ := hclaims room hroom
      · exact .inr hold
      · obtain ⟨-, rfl⟩ := Op.joinRoomCount.inj heq
        exact .inl rfl
    · refine (Finset.card_le_card fun room hroom => ?_).trans hcard
      obtain hold | ⟨q, env, rfl, -, hlt⟩ := hclaims room hroom
      · exact hold
      · exact absurd ⟨q, env, rfl, hlt⟩ hcheck

/-- **The limit on the number of rooms** holds in every run in which every join that
is let through finds its room claimable. -/
theorem room_cap (hs : ReachableVia (processStep rt) Spare newProcess s) :
    s.server.store.roomCount ≤ maxRooms := by
  have hcard : s.claimed.card ≤ maxRooms := by
    refine hs.invariant_of (I := Formed) (J := fun s => s.claimed.card ≤ maxRooms)
      (fun _ => formed_of_reachable) ?_ ?_
    · show (∅ : Finset RoomName).card ≤ maxRooms
      decide
    · intro s a s' hformed hcard hspare hstep
      exact card_claimed_of_act hformed hspare (Option.ite_none_left_eq_some.mp hstep).2 hcard
  exact (Finset.card_le_card Finset.subset_union_left).trans hcard

end

theorem connectAndJoin_run : (execVia (processStep (asciiRuntime "" {})) Spare newProcess
    (connectAndJoin "a" "r")).isSome = true := by
  decide +kernel

theorem room_cap_connectAndJoin :
    ((execVia (processStep (asciiRuntime "" {})) Spare newProcess
      (connectAndJoin "a" "r")).get connectAndJoin_run).server.store.roomCount ≤ maxRooms :=
  room_cap (reachableVia_get connectAndJoin_run)

/-! ### More rooms than the limit -/

/-- A peer that has not connected. -/
structure Unconnected (s : Process) (p : PeerID) : Prop where
  phase : s.phase p = .absent
  code : s.code (.handler p) = []
  closes : s.closes p = 0
  rooms : s.server.peerRooms p = none

/-- A peer connects and its join is let through. -/
def admission (p : PeerID) (room : RoomName) : List Action :=
  .connect p 0 :: runs (.handler p) [[], [], []] ++
    .frame p (some (joinEnvelope room)) 0 :: runs (.handler p) [[], []]

/-- The join comes to the store. -/
def entry (p : PeerID) : List Action := runs (.handler p) [[], [], []]

/-- Steps of a peer's handler, which do not touch another peer's. -/
structure Process.Beside (p : PeerID) (s s' : Process) : Prop where
  crashed : s'.crashed = false
  unconnected : ∀ q, q ≠ p → Unconnected s q → Unconnected s' q
  code : ∀ q, q ≠ p → s'.code (.handler q) = s.code (.handler q)
  rooms : ∀ q, q ≠ p → s'.server.peerRooms q = s.server.peerRooms q

/-- The handler of a peer in no room has a join that has been let through. -/
structure Admitted (s : Process) (p : PeerID) (room : RoomName) : Prop where
  code : s.code (.handler p) = [.joinLimit p (joinEnvelope room)]
  rooms : s.server.peerRooms p = none

section
variable {rt : GoRuntime} {s : Process} {p : PeerID} {room : RoomName}

theorem exec_admission (hcrash : s.crashed = false) (hp : Unconnected s p)
    (hname : validateRoomName rt room = "") (hcount : s.server.store.count room = 0)
    (hroom : s.server.store.roomCount < maxRooms) :
    ∃ s', exec (processStep rt) s (admission p room) = some s' ∧ Process.Beside p s s' ∧
      s'.server.store = s.server.store ∧ Admitted s' p room := by
  obtain ⟨hphase, hcode, hcloses, hrooms⟩ := hp
  refine Exists.intro ?state (And.intro ?run ?rest)
  case run =>
    simp only [admission, runs, processStep, hcrash, act, hphase, Process.setCode,
      Process.setPhase, runOp, execute, hcloses, frameCode, joinEnvelope, MessageType.needsRoom,
      hname, Server.register, hcount, Nat.not_le.mpr hroom, List.map_cons, List.map_nil,
      List.cons_append, List.nil_append, exec_cons, exec_nil, Function.update_self,
      Option.bind_some, Option.map_some, if_true, if_false, Bool.false_eq_true, ne_eq,
      not_true_eq_false, and_false, and_self]
    rfl
  case rest =>
    refine ⟨⟨rfl, fun q hq hq' => ⟨?_, ?_, hq'.closes, hq'.rooms⟩, fun q hq => ?_,
      fun q hq => rfl⟩, rfl, ?_, hrooms⟩
    · simp [Function.update_of_ne hq, hq'.phase]
    · simp [Function.update_of_ne, hq, hq'.code]
    · simp [Function.update_of_ne, hq]
    · simp [joinEnvelope]

theorem exec_entry (hcrash : s.crashed = false) (hp : Admitted s p room) :
    ∃ s', exec (processStep rt) s (entry p) = some s' ∧ Process.Beside p s s' ∧
      s'.server.store.roomNames = insert room s.server.store.roomNames := by
  obtain ⟨hcode, hrooms⟩ := hp
  have hlimit : ¬s.server.peerLimit p (joinEnvelope room).room := fun h => by
    simp [Server.roomsOf, hrooms, Server.peerLimit, maxRoomsPerPeer] at h
  have hsalt : saltCode rt p (joinEnvelope room) 0 =
      [.storeJoin p room (joinPayload rt "") []] := by
    simp [saltCode, decodeSalt, joinEnvelope, joinPayload]
  refine Exists.intro ?state (And.intro ?run ?rest)
  case run =>
    simp only [entry, runs, processStep, hcrash, act, Process.setCode, runOp, execute, hcode,
      hlimit, hsalt, List.map_cons, List.map_nil, List.cons_append, List.nil_append, exec_cons,
      exec_nil, Function.update_self, Option.bind_some, Option.map_some, if_false,
      Bool.false_eq_true]
    rfl
  case rest =>
    refine ⟨⟨rfl, fun q hq hq' => ⟨hq'.phase, ?_, hq'.closes, ?_⟩, fun q hq => ?_,
      fun q hq => ?_⟩, ?_⟩
    · simp [Function.update_of_ne, hq, hq'.code]
    · simp [Function.update_of_ne, hq, hq'.rooms, Server.joinStore, Server.addRoom]
    · simp [Function.update_of_ne, hq]
    · simp [Function.update_of_ne, hq, Server.joinStore, Server.addRoom]
    · ext name
      rw [Finset.mem_insert, Store.roomNames, Store.roomNames, Finmap.mem_keys, Finmap.mem_keys]
      exact Finmap.mem_insert

theorem validateRoomName_repr {n : ℕ} (hn : n < 10 ^ maxRoomNameLen) :
    validateRoomName (asciiRuntime "" {}) n.repr = "" := by
  have hlength : n.repr.length ≤ maxRoomNameLen := by
    rw [← String.length_toList, Nat.toList_repr]
    exact (Nat.length_toDigits_le_iff (by decide) (by decide)).mpr hn
  have hchars : ∀ c ∈ n.repr.toList, c.isDigit = true := by
    intro c hc
    rw [Nat.toList_repr] at hc
    exact Nat.isDigit_of_mem_toDigits (by decide) (by decide) hc
  exact validateRoomName_eq_empty_iff.mpr
    ⟨Nat.repr_ne_empty, hlength, fun c hc => .inr (.inl (hchars c hc))⟩

theorem repr_injective : Function.Injective Nat.repr := by
  intro m n h
  have hdigits : Nat.toDigits 10 m = Nat.toDigits 10 n := by
    rw [← Nat.toList_repr, ← Nat.toList_repr, h]
  rw [← Nat.ofDigitChars_ten_toDigits (n := m), hdigits, Nat.ofDigitChars_ten_toDigits]

/-- As many rooms as the limit allows, each joined by a peer of its own. -/
structure Crowd (n : ℕ) (s : Process) : Prop where
  reachable : Reachable (processStep (asciiRuntime "" {})) newProcess s
  running : s.crashed = false
  rooms : s.server.store.roomNames = (Finset.range n).image Nat.repr
  unconnected : ∀ m, n ≤ m → Unconnected s m.repr

theorem Crowd.count {n : ℕ} (hs : Crowd n s) {m : ℕ} (hm : n ≤ m) :
    s.server.store.count m.repr = 0 := by
  rw [Store.count_eq_card, Finset.card_eq_zero, ← Finset.not_nonempty_iff_eq_empty,
    ← mem_roomNames, hs.rooms, Finset.mem_image]
  rintro ⟨k, hk, heq⟩
  have hlt : k < n := Finset.mem_range.mp hk
  have : k = m := repr_injective heq
  omega

theorem Crowd.roomCount {n : ℕ} (hs : Crowd n s) : s.server.store.roomCount = n := by
  show s.server.store.roomNames.card = n
  rw [hs.rooms, Finset.card_image_of_injective _ repr_injective, Finset.card_range]

theorem exists_crowd {n : ℕ} (hn : n ≤ maxRooms) : ∃ s, Crowd n s := by
  induction n with
  | zero => exact ⟨newProcess, .start, rfl, rfl, fun _ _ => ⟨rfl, rfl, rfl, rfl⟩⟩
  | succ n ih =>
      obtain ⟨s, hs⟩ := ih (Nat.le_of_succ_le hn)
      have hname : validateRoomName (asciiRuntime "" {}) n.repr = "" :=
        validateRoomName_repr (hn.trans (by decide))
      obtain ⟨t, hadmission, hbeside, hstore, hadmitted⟩ := exec_admission hs.running
        (hs.unconnected n le_rfl) hname (hs.count le_rfl) (by rw [hs.roomCount]; exact hn)
      obtain ⟨u, henter, hbeside', hrooms⟩ := @exec_entry (asciiRuntime "" {}) _ _ _
        hbeside.crashed hadmitted
      refine ⟨u, reachable_of_exec (reachable_of_exec hs.reachable hadmission) henter,
        hbeside'.crashed, ?_, fun m hm => ?_⟩
      · rw [hrooms, hstore, hs.rooms, Finset.range_add_one, Finset.image_insert]
      · have hne : m.repr ≠ n.repr := fun h => by
          have := repr_injective h
          omega
        exact hbeside'.unconnected _ hne (hbeside.unconnected _ hne (hs.unconnected m (by omega)))

/-- Two joins are let through before either comes to the store. -/
theorem Crowd.two_more {n : ℕ} (hs : Crowd n s) (hn : n < maxRooms) :
    ∃ w, Reachable (processStep (asciiRuntime "" {})) newProcess w ∧
      w.server.store.roomCount = n + 2 := by
  have hlarge : maxRooms + 1 < 10 ^ maxRoomNameLen := by decide
  have hvalid : ∀ m ≤ n + 1, validateRoomName (asciiRuntime "" {}) m.repr = "" := fun m hm =>
    validateRoomName_repr (by omega)
  have hroom : s.server.store.roomCount < maxRooms := hs.roomCount.trans_lt hn
  have hne : (n + 1).repr ≠ n.repr := fun h => absurd (repr_injective h) (by omega)
  obtain ⟨t, hadmission, hbeside, hstore, hadmitted⟩ := exec_admission hs.running
    (hs.unconnected n le_rfl) (hvalid n (by omega)) (hs.count le_rfl) hroom
  obtain ⟨u, hadmission', hbeside', hstore', hadmitted'⟩ := exec_admission hbeside.crashed
    (hbeside.unconnected _ hne (hs.unconnected (n + 1) (by omega))) (hvalid (n + 1) le_rfl)
    (by rw [hstore]; exact hs.count (by omega)) (by rw [hstore]; exact hroom)
  obtain ⟨v, henter, hbeside'', hrooms⟩ := @exec_entry (asciiRuntime "" {}) _ _ _ hbeside'.crashed
    ⟨(hbeside'.code _ hne.symm).trans hadmitted.code,
      (hbeside'.rooms _ hne.symm).trans hadmitted.rooms⟩
  obtain ⟨w, henter', -, hrooms'⟩ := @exec_entry (asciiRuntime "" {}) _ _ _ hbeside''.crashed
    ⟨(hbeside''.code _ hne).trans hadmitted'.code,
      (hbeside''.rooms _ hne).trans hadmitted'.rooms⟩
  refine ⟨w, reachable_of_exec (reachable_of_exec (reachable_of_exec (reachable_of_exec
    hs.reachable hadmission) hadmission') henter) henter', ?_⟩
  show w.server.store.roomNames.card = n + 2
  rw [hrooms', hrooms, hstore', hstore, hs.rooms, ← Finset.image_insert, ← Finset.range_add_one,
    ← Finset.image_insert, ← Finset.range_add_one,
    Finset.card_image_of_injective _ repr_injective, Finset.card_range]

end

/-- **Two joins that are let through together exceed the limit.** -/
theorem joins_exceed_cap : ¬∀ s, Reachable (processStep (asciiRuntime "" {})) newProcess s →
    s.server.store.roomCount ≤ maxRooms := by
  intro h
  obtain ⟨s, hs⟩ := exists_crowd (n := maxRooms - 1) (Nat.sub_le _ _)
  obtain ⟨w, hreach, hcount⟩ := hs.two_more (by decide)
  have hcap := h w hreach
  rw [hcount] at hcap
  exact absurd hcap (by decide)

end TrapChat.Gateway
