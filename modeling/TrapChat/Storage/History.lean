import TrapChat.Storage.Store
import Mathlib.Data.List.DropRight

/-!
The registry against its history: what its readers return, in terms of the calls
that have been made. A call's room and peer are arbitrary, and so are their order
and their repetitions.

A history is read from its end. Whether a peer is a member of a room is decided by
the last join or leave that names both, and its nickname is the last one set since
it came. What belongs to a room, its salt, its TTL and the time it was created,
comes from the join that found the room empty.
-/

namespace TrapChat.Storage

/-- The calls that write to the registry. -/
inductive Call
  | join (room : RoomName) (peerID : PeerID) (now : Time)
  | joinWithTTL (room : RoomName) (peerID : PeerID) (ttlSeconds : ℤ) (salt : List UInt8)
      (now : Time)
  | leave (room : RoomName) (peerID : PeerID) (now : Time)
  | setNickname (room : RoomName) (peerID : PeerID) (nickname : String)
  | setRoomTTL (room : RoomName) (ttlSeconds : ℤ)
  deriving DecidableEq

/-- The effect of a call, and the count that it returns if it returns one. -/
def Store.apply (s : Store) : Call → Store × Option ℕ
  | .join room peerID now =>
    let res := s.join room peerID now
    (res.1, some res.2)
  | .joinWithTTL room peerID ttlSeconds salt now =>
    let res := s.joinWithTTL room peerID ttlSeconds salt now
    (res.1, some res.2.1)
  | .leave room peerID now =>
    let res := s.leave room peerID now
    (res.1, some res.2)
  | .setNickname room peerID nickname => (s.setNickname room peerID nickname, none)
  | .setRoomTTL room ttlSeconds => (s.setRoomTTL room ttlSeconds, none)

/-- The registry after some calls. -/
def Store.after (calls : List Call) : Store := calls.foldl (fun s c => (s.apply c).1) newStore

/-! ### Reading a history -/

/-- Whether a call joins a peer to a room, or takes it out. -/
def Call.moveOf (room : RoomName) (p : PeerID) : Call → Option Bool
  | .join room' p' _ | .joinWithTTL room' p' _ _ _ =>
    if room' = room ∧ p' = p then some true else none
  | .leave room' p' _ => if room' = room ∧ p' = p then some false else none
  | .setNickname .. | .setRoomTTL .. => none

/-- The nickname that a call asks for. -/
def Call.nicknameOf (room : RoomName) (p : PeerID) : Call → Option String
  | .setNickname room' p' nickname => if room' = room ∧ p' = p then some nickname else none
  | _ => none

/-- The room that a call is about. -/
def Call.room : Call → RoomName
  | .join room .. | .joinWithTTL room .. | .leave room .. | .setNickname room ..
  | .setRoomTTL room _ => room

/-- The peer that a call is about. -/
def Call.peer : Call → Option PeerID
  | .join _ p _ | .joinWithTTL _ p _ _ _ | .leave _ p _ | .setNickname _ p _ => some p
  | .setRoomTTL .. => none

/-- The last move of a peer in a room is a join. -/
def Member (calls : List Call) (room : RoomName) (p : PeerID) : Prop :=
  (calls.filterMap (Call.moveOf room p)).getLast? = some true

instance (calls : List Call) (room : RoomName) (p : PeerID) : Decidable (Member calls room p) :=
  inferInstanceAs (Decidable (_ = _))

def members (calls : List Call) (room : RoomName) : Finset PeerID :=
  (calls.filterMap Call.peer).toFinset.filter (Member calls room)

/-- The calls from the one by which a peer last became a member: the first join
after its last leave. -/
def stay (calls : List Call) (room : RoomName) (p : PeerID) : List Call :=
  (calls.rtakeWhile fun c => c.moveOf room p ≠ some false).dropWhile
    fun c => c.moveOf room p ≠ some true

/-- The last nickname asked for in some calls, the empty one if none is. -/
def lastNickname (calls : List Call) (room : RoomName) (p : PeerID) : String :=
  (calls.filterMap (Call.nicknameOf room p)).getLast?.getD ""

section
variable {calls : List Call} {c : Call} {room : RoomName} {p : PeerID}

theorem Store.after_concat : Store.after (calls ++ [c]) = ((Store.after calls).apply c).1 := by
  simp [Store.after]

theorem member_concat : Member (calls ++ [c]) room p ↔
    c.moveOf room p = some true ∨ c.moveOf room p = none ∧ Member calls room p := by
  rw [Member, List.filterMap_append]
  cases h : c.moveOf room p with
  | none => simp [Member, h]
  | some b => simp [h]

theorem moveOf_peer {b : Bool} (h : c.moveOf room p = some b) : c.peer = some p := by
  cases c with
  | join room' p' now | joinWithTTL room' p' ttl salt now | leave room' p' now =>
      obtain ⟨⟨-, rfl⟩, -⟩ := Option.ite_none_right_eq_some.mp h
      rfl
  | setNickname room' p' nick | setRoomTTL room' ttl => cases h

theorem moveOf_room {b : Bool} (h : c.moveOf room p = some b) : c.room = room := by
  cases c with
  | join room' p' now | joinWithTTL room' p' ttl salt now | leave room' p' now =>
      obtain ⟨⟨rfl, -⟩, -⟩ := Option.ite_none_right_eq_some.mp h
      rfl
  | setNickname room' p' nick | setRoomTTL room' ttl => cases h

theorem mem_members : p ∈ members calls room ↔ Member calls room p := by
  rw [members, Finset.mem_filter, List.mem_toFinset, and_iff_right_iff_imp]
  intro h
  obtain ⟨c, hc, hmove⟩ := List.mem_filterMap.mp (List.mem_of_getLast? h)
  exact List.mem_filterMap.mpr ⟨c, hc, moveOf_peer hmove⟩

theorem stay_concat : stay (calls ++ [c]) room p =
    if c.moveOf room p = some false then []
    else if stay calls room p = [] then if c.moveOf room p = some true then [c] else []
    else stay calls room p ++ [c] := by
  rw [stay, List.rtakeWhile_concat]
  by_cases hleave : c.moveOf room p = some false
  · simp [hleave]
  · rw [if_neg hleave, if_pos (by simpa using hleave), List.dropWhile_append, ← stay]
    by_cases hempty : stay calls room p = []
    · by_cases hjoin : c.moveOf room p = some true <;> simp [hempty, hjoin, List.dropWhile]
    · simp [hempty]

/-- A peer is a member while there are calls since it came. -/
theorem member_iff_stay : Member calls room p ↔ stay calls room p ≠ [] := by
  induction calls using List.reverseRecOn with
  | nil => simp [Member, stay]
  | append_singleton calls c ih =>
      rw [member_concat, stay_concat, ih]
      cases h : c.moveOf room p with
      | none =>
          by_cases hempty : stay calls room p = [] <;> simp [hempty]
      | some b =>
          cases b with
          | false => simp
          | true => by_cases hempty : stay calls room p = [] <;> simp [hempty]

/-! ### What a call does to the rooms -/

variable {s : Store}

/-- A call is about one room. -/
theorem Store.lookup_apply_ne (h : room ≠ c.room) :
    (s.apply c).1.rooms.lookup room = s.rooms.lookup room := by
  cases c with
  | join room' p' now => exact s.lookup_joinWithTTL_ne p' 0 [] now h
  | joinWithTTL room' p' ttl salt now => exact s.lookup_joinWithTTL_ne p' ttl salt now h
  | leave room' p' now => exact s.lookup_leave_ne p' now h
  | setNickname room' p' nick => exact s.lookup_setNickname_ne p' nick h
  | setRoomTTL room' ttl => exact s.lookup_setRoomTTL_ne ttl h

theorem Store.mem_peers_apply : p ∈ (s.apply c).1.peers room ↔
    c.moveOf room p = some true ∨ c.moveOf room p = none ∧ p ∈ s.peers room := by
  have hjoin : ∀ (room' : RoomName) (p' : PeerID), (room = room' ∧ p = p') ∨ p ∈ s.peers room ↔
      (if room' = room ∧ p' = p then some true else none) = some true ∨
        (if room' = room ∧ p' = p then some true else none) = none ∧ p ∈ s.peers room := by
    intro room' p'
    by_cases h : room' = room ∧ p' = p
    · simp [h]
    · have h' : ¬(room = room' ∧ p = p') := fun heq => h ⟨heq.1.symm, heq.2.symm⟩
      simp [h, h']
  cases c with
  | join room' p' now => exact mem_peers_joinWithTTL.trans (hjoin room' p')
  | joinWithTTL room' p' ttl salt now => exact mem_peers_joinWithTTL.trans (hjoin room' p')
  | leave room' p' now =>
      refine mem_peers_leave.trans ?_
      by_cases h : room' = room ∧ p' = p
      · simp [Call.moveOf, h]
      · have h' : ¬(room = room' ∧ p = p') := fun heq => h ⟨heq.1.symm, heq.2.symm⟩
        simp [Call.moveOf, h, h']
  | setNickname room' p' nick =>
      show p ∈ (s.setNickname room' p' nick).peers room ↔ _
      rw [peers_setNickname]
      simp [Call.moveOf]
  | setRoomTTL room' ttl =>
      show p ∈ (s.setRoomTTL room' ttl).peers room ↔ _
      rw [peers_setRoomTTL]
      simp [Call.moveOf]

/-- The nickname of a peer that is a member after a call. -/
theorem Store.nickname_apply (hp : p ∈ (s.apply c).1.peers room) :
    (s.apply c).1.nickname room p =
      some (if p ∈ s.peers room then (c.nicknameOf room p).getD ((s.nickname room p).getD "")
        else "") := by
  have hold : p ∈ s.peers room → s.nickname room p = some ((s.nickname room p).getD "") := by
    intro hmem
    cases hnick : s.nickname room p with
    | none => exact absurd hmem (nickname_eq_none.mp hnick)
    | some nick => rfl
  have hnew : p ∉ s.peers room → s.nickname room p = none := nickname_eq_none.mpr
  by_cases hroom : room = c.room
  · cases c with
    | join room' p' now | joinWithTTL room' p' ttl salt now =>
        obtain rfl : room = room' := hroom
        refine (s.nickname_joinWithTTL ..).trans ?_
        split
        · next hq =>
          subst hq
          by_cases hmem : p ∈ s.peers room
          · simp [Call.nicknameOf, hmem]
          · simp [hmem, hnew hmem]
        · next hq =>
          have hmem : p ∈ s.peers room := by
            obtain h | h := mem_peers_joinWithTTL.mp hp
            · exact absurd h.2 hq
            · exact h
          rw [if_pos hmem]
          exact hold hmem
    | leave room' p' now =>
        obtain rfl : room = room' := hroom
        obtain ⟨hq, hmem⟩ := mem_peers_leave.mp hp
        refine (s.nickname_leave ..).trans ?_
        rw [if_neg fun h => hq ⟨rfl, h⟩, if_pos hmem]
        exact hold hmem
    | setNickname room' p' nick =>
        obtain rfl : room = room' := hroom
        have hmem : p ∈ s.peers room := (s.peers_setNickname room room p' nick) ▸ hp
        refine (s.nickname_setNickname ..).trans ?_
        rw [if_pos hmem]
        by_cases hq : p = p'
        · subst hq
          simp [Call.nicknameOf, hmem]
        · have hq' : ¬p' = p := fun h => hq h.symm
          rw [if_neg fun h => hq h.1, hold hmem]
          simp [Call.nicknameOf, hq']
    | setRoomTTL room' ttl =>
        obtain rfl : room = room' := hroom
        have hmem : p ∈ s.peers room := (s.peers_setRoomTTL room room ttl) ▸ hp
        refine (s.nickname_setRoomTTL ..).trans ?_
        rw [if_pos hmem]
        exact hold hmem
  · have hlookup := lookup_apply_ne (s := s) hroom
    have hmem : p ∈ s.peers room := by
      obtain ⟨r, hr, hpr⟩ := mem_peers.mp hp
      exact mem_peers.mpr ⟨r, hlookup ▸ hr, hpr⟩
    have hnick : c.nicknameOf room p = none := by
      cases c with
      | setNickname room' p' nick => exact if_neg fun h => hroom h.1.symm
      | join | joinWithTTL | leave | setRoomTTL => rfl
    rw [nickname_congr p hlookup, hold hmem, if_pos hmem, hnick]
    rfl

/-- The count that a call returns. -/
theorem Store.apply_count {n : ℕ} (h : (s.apply c).2 = some n) :
    n = ((s.apply c).1.peers c.room).card := by
  cases c with
  | join room' p' now | joinWithTTL room' p' ttl salt now =>
      obtain rfl := Option.some.inj h
      exact congrArg Finset.card (peers_of_lookup (s.lookup_joinWithTTL_self ..)).symm
  | leave room' p' now =>
      obtain rfl := Option.some.inj h
      show (s.leave room' p' now).2 = ((s.leave room' p' now).1.peers room').card
      unfold leave
      split
      · next hr => simp [peers, hr]
      · dsimp only
        split
        · rw [peers_put_self]
        · simp [peers]
  | setNickname room' p' nick | setRoomTTL room' ttl => cases h

/-! ### The readers -/

/-- What the readers of a registry return is what its history says. -/
structure Agrees (s : Store) (calls : List Call) : Prop where
  peers : ∀ room, s.peers room = members calls room
  occupied : ∀ room r, s.rooms.lookup room = some r → r.peers ≠ ∅
  roomNames : ∀ room, room ∈ s.roomNames ↔ (members calls room).Nonempty
  roomsWithCounts : ∀ room n, (room, n) ∈ s.roomsWithCounts ↔
    (members calls room).Nonempty ∧ n = (members calls room).card
  roomCount : s.roomCount =
    ((calls.map Call.room).toFinset.filter fun room => (members calls room).Nonempty).card
  roomInfo : ∀ room, (s.roomInfo room).1 = (members calls room).card ∧
    ((s.roomInfo room).2.2 = true ↔ (members calls room).Nonempty)
  roomTTL : ∀ room, (s.roomTTL room).2.2 = true ↔ (members calls room).Nonempty
  count : ∀ room, s.count room = (members calls room).card
  returned : ∀ c n, (s.apply c).2 = some n → n = (members (calls ++ [c]) c.room).card
  nicknames : ∀ room p, (s.peersWithNicknames room).lookup p =
    if p ∈ members calls room then some (lastNickname (stay calls room p) room p) else none

theorem Store.peers_after : (Store.after calls).peers room = members calls room := by
  ext p
  rw [mem_members]
  induction calls using List.reverseRecOn with
  | nil => simp [after, Member]
  | append_singleton calls c ih => rw [after_concat, mem_peers_apply, member_concat, ih]

theorem Store.nickname_after (h : Member calls room p) :
    (Store.after calls).nickname room p = some (lastNickname (stay calls room p) room p) := by
  induction calls using List.reverseRecOn with
  | nil => cases h
  | append_singleton calls c ih =>
      have hmem : p ∈ ((Store.after calls).apply c).1.peers room := by
        rw [← after_concat, peers_after]
        exact mem_members.mpr h
      have hleave : c.moveOf room p ≠ some false := by
        intro hfalse
        simp [member_concat, hfalse] at h
      rw [after_concat, nickname_apply hmem, peers_after, stay_concat, if_neg hleave]
      by_cases hmember : Member calls room p
      · rw [if_pos (mem_members.mpr hmember), if_neg (member_iff_stay.mp hmember), ih hmember]
        cases hnick : c.nicknameOf room p <;> simp [lastNickname, hnick]
      · have hstay : stay calls room p = [] := not_not.mp fun hs => hmember (member_iff_stay.mpr hs)
        have hjoin : c.moveOf room p = some true := by
          obtain hjoin | ⟨-, hold⟩ := member_concat.mp h
          · exact hjoin
          · exact absurd hold hmember
        have hnick : c.nicknameOf room p = none := by
          cases c with
          | setNickname room' p' nick => cases hjoin
          | join | joinWithTTL | leave | setRoomTTL => rfl
        rw [if_neg (fun hm => hmember (mem_members.mp hm)), if_pos hstay, if_pos hjoin]
        simp [lastNickname, hnick]

end

/-- **Membership.** After every history the readers of the registry agree with it
and with each other. -/
theorem Store.after_agrees (calls : List Call) : Agrees (Store.after calls) calls := by
  have hlookup : ∀ room, (∃ r, (Store.after calls).rooms.lookup room = some r) ↔
      (members calls room).Nonempty := by
    intro room
    rw [← peers_after]
    exact exists_iff_peers_nonempty
  have hnames : ∀ room, room ∈ (Store.after calls).roomNames ↔ (members calls room).Nonempty := by
    intro room
    rw [← hlookup, roomNames, Finmap.mem_keys, Finmap.mem_iff]
  have hcount : ∀ room, (Store.after calls).count room = (members calls room).card := by
    intro room
    rw [count_eq_card, peers_after]
  refine ⟨fun room => peers_after, ?_, hnames, ?_, ?_, ?_, ?_, hcount, ?_, ?_⟩
  · rintro room r hr hempty
    obtain ⟨p, hp⟩ := (Store.after calls).occupied room r hr
    rw [hempty] at hp
    exact absurd hp (Finset.notMem_empty p)
  · intro room n
    rw [roomsWithCounts, Finset.mem_image]
    constructor
    · rintro ⟨room', hroom', heq⟩
      obtain ⟨rfl, rfl⟩ := Prod.mk.inj heq
      exact ⟨(hnames room').mp hroom', hcount room'⟩
    · rintro ⟨hne, rfl⟩
      exact ⟨room, (hnames room).mpr hne, by rw [hcount]⟩
  · rw [roomCount]
    congr 1
    ext room
    rw [Finset.mem_filter, and_iff_right_of_imp, ← hnames]
    · rfl
    · rintro ⟨p, hp⟩
      obtain ⟨c, hc, hmove⟩ := List.mem_filterMap.mp (List.mem_of_getLast? (mem_members.mp hp))
      refine List.mem_toFinset.mpr (List.mem_map.mpr ⟨c, hc, ?_⟩)
      exact moveOf_room hmove
  · intro room
    rw [roomInfo, ← hlookup, ← hcount, count]
    cases (Store.after calls).rooms.lookup room <;> simp
  · intro room
    rw [roomTTL, ← hlookup]
    cases (Store.after calls).rooms.lookup room <;> simp
  · intro c n h
    rw [← peers_after, after_concat]
    exact apply_count h
  · intro room p
    show (Store.after calls).nickname room p = _
    split
    · next hmem => exact nickname_after (mem_members.mp hmem)
    · next hmem => exact nickname_eq_none.mpr fun hp => hmem (peers_after ▸ hp)

/-! ### What a room has from the join that created it -/

structure Origin where
  ttlSeconds : ℤ
  salt : List UInt8
  createdAt : Time
  deriving DecidableEq

def Room.origin (r : Room) : Origin := ⟨r.ttlSeconds, r.salt, r.createdAt⟩

/-- What a room has from a join, if the join creates it. -/
def Call.origin (room : RoomName) : Call → Option Origin
  | .join room' _ now => if room' = room then some ⟨0, [], now⟩ else none
  | .joinWithTTL room' _ ttlSeconds salt now =>
    if room' = room then some ⟨if ttlSeconds > 0 then ttlSeconds else 0, salt, now⟩ else none
  | .leave .. | .setNickname .. | .setRoomTTL .. => none

/-- A call found the room empty and created it, and it has not been empty since. -/
def CreatedWith (calls : List Call) (room : RoomName) (o : Origin) : Prop :=
  ∃ before c after, calls = before ++ c :: after ∧ members before room = ∅ ∧
    c.origin room = some o ∧
    ∀ after', after' <+: after → (members (before ++ c :: after') room).Nonempty

def Call.SetsTTL : Call → Prop
  | .setRoomTTL .. => True
  | _ => False

instance : DecidablePred Call.SetsTTL
  | .setRoomTTL .. => .isTrue trivial
  | .join .. | .joinWithTTL .. | .leave .. | .setNickname .. => .isFalse id

section
variable {s : Store} {calls : List Call} {c : Call} {room : RoomName} {r : Room} {o : Origin}

@[simp] theorem Room.origin_enter (r : Room) (p : PeerID) (now : Time) :
    (r.enter p now).origin = r.origin := rfl

/-- A room that stays keeps its origin. -/
theorem Store.origin_apply (hset : ¬c.SetsTTL) (hr : s.rooms.lookup room = some r)
    (hne : ((s.apply c).1.peers room).Nonempty) :
    ∃ r', (s.apply c).1.rooms.lookup room = some r' ∧ r'.origin = r.origin := by
  by_cases hroom : room = c.room
  · cases c with
    | join room' p now | joinWithTTL room' p ttl salt now =>
        obtain rfl : room = room' := hroom
        refine ⟨r.enter p now, ?_, rfl⟩
        exact (s.lookup_joinWithTTL_self ..).trans (by rw [hr, Option.getD_some])
    | leave room' p now =>
        obtain rfl : room = room' := hroom
        obtain ⟨q, hq⟩ := hne
        obtain ⟨r', hr', -⟩ := mem_peers.mp hq
        refine ⟨r', hr', ?_⟩
        change (s.leave room p now).1.rooms.lookup room = some r' at hr'
        by_cases hremove : (r.remove p now).peers.keys.Nonempty
        · rw [leave, hr] at hr'
          simp only [hremove, dif_pos, lookup_put_self, Option.some.injEq] at hr'
          rw [← hr']
          rfl
        · rw [leave, hr] at hr'
          simp [hremove] at hr'
    | setNickname room' p nick =>
        obtain rfl : room = room' := hroom
        by_cases hp : p ∈ r.peers
        · refine ⟨r.nickname p nick, ?_, rfl⟩
          show (s.setNickname room p nick).rooms.lookup room = _
          simp [setNickname, hr, hp]
        · refine ⟨r, ?_, rfl⟩
          show (s.setNickname room p nick).rooms.lookup room = _
          simp [setNickname, hr, hp]
    | setRoomTTL room' ttl => exact absurd trivial hset
  · exact ⟨r, (lookup_apply_ne hroom).trans hr, rfl⟩

/-- A room that a call creates has the call's origin. -/
theorem Store.origin_create (hr : s.rooms.lookup room = none) (ho : c.origin room = some o) :
    ∃ r', (s.apply c).1.rooms.lookup room = some r' ∧ r'.origin = o := by
  cases c with
  | join room' p now | joinWithTTL room' p ttl salt now =>
      obtain ⟨rfl, hsome⟩ := Option.ite_none_right_eq_some.mp ho
      refine ⟨_, s.lookup_joinWithTTL_self .., ?_⟩
      rw [hr, Option.getD_none, Room.origin_enter]
      exact Option.some.inj hsome
  | leave room' p now | setNickname room' p nick | setRoomTTL room' ttl => cases ho

theorem Store.lookup_after_eq_none (h : members calls room = ∅) :
    (Store.after calls).rooms.lookup room = none := by
  cases hr : (Store.after calls).rooms.lookup room with
  | none => rfl
  | some r =>
      have hne := exists_iff_peers_nonempty.mp ⟨r, hr⟩
      rw [peers_after, h] at hne
      exact absurd hne Finset.not_nonempty_empty

/-- The induction is on the calls since the room was created. -/
theorem Store.origin_of_createdWith (hset : ∀ c ∈ calls, ¬c.SetsTTL)
    (h : CreatedWith calls room o) :
    ∃ r, (Store.after calls).rooms.lookup room = some r ∧ r.origin = o := by
  obtain ⟨before, c, after, rfl, hempty, ho, hne⟩ := h
  induction after using List.reverseRecOn with
  | nil =>
      rw [after_concat]
      exact origin_create (lookup_after_eq_none hempty) ho
  | append_singleton after c' ih =>
      obtain ⟨r, hr, rfl⟩ := ih (fun d hd => hset d (by simp at hd ⊢; tauto))
        fun after' h => hne after' (h.trans (List.prefix_append _ _))
      have hsplit : before ++ c :: (after ++ [c']) = (before ++ c :: after) ++ [c'] := by simp
      rw [hsplit, after_concat]
      refine origin_apply (hset c' (by simp)) hr ?_
      rw [← after_concat, ← hsplit, peers_after]
      exact hne _ List.prefix_rfl

theorem exists_createdWith (h : (members calls room).Nonempty) : ∃ o, CreatedWith calls room o := by
  induction calls using List.reverseRecOn with
  | nil => exact absurd h (by simp [members])
  | append_singleton calls c ih =>
      obtain hempty | hold := (members calls room).eq_empty_or_nonempty
      · obtain ⟨p, hp⟩ := h
        have hmove : c.moveOf room p = some true := by
          obtain hjoin | ⟨-, hmem⟩ := member_concat.mp (mem_members.mp hp)
          · exact hjoin
          · exact absurd (hempty ▸ mem_members.mpr hmem) (Finset.notMem_empty p)
        obtain ⟨o, ho⟩ : ∃ o, c.origin room = some o := by
          cases c with
          | join room' q now | joinWithTTL room' q ttl salt now =>
              exact ⟨_, if_pos (Option.ite_none_right_eq_some.mp hmove).1.1⟩
          | leave room' q now => exact absurd (Option.ite_none_right_eq_some.mp hmove).2 (by simp)
          | setNickname room' q nick | setRoomTTL room' ttl => cases hmove
        refine ⟨o, calls, c, [], rfl, hempty, ho, fun after' hprefix => ?_⟩
        rw [List.prefix_nil.mp hprefix]
        exact ⟨p, hp⟩
      · obtain ⟨o, before, d, after, rfl, hempty, ho, hne⟩ := ih hold
        refine ⟨o, before, d, after ++ [c], by simp, hempty, ho, fun after' hprefix => ?_⟩
        obtain rfl | hprefix := List.prefix_concat_iff.mp hprefix
        · rwa [← List.cons_append, ← List.append_assoc]
        · exact hne after' hprefix

end

/-- **The room's origin.** From the join that creates a room to the leave that
empties it, its salt, its TTL and the time it was created are those of that join;
a room that is empty has none. -/
theorem Store.origin_fixed (calls : List Call) (hset : ∀ c ∈ calls, ¬c.SetsTTL)
    (room : RoomName) :
    (members calls room = ∅ →
      (Store.after calls).roomSalt room = [] ∧ (Store.after calls).roomTTL room = (0, 0, false)) ∧
    ((members calls room).Nonempty → ∃ o, CreatedWith calls room o) ∧
    ∀ o, CreatedWith calls room o →
      (Store.after calls).roomSalt room = o.salt ∧
        (Store.after calls).roomTTL room = (o.ttlSeconds, o.createdAt, true) := by
  refine ⟨fun hempty => ?_, exists_createdWith, fun o ho => ?_⟩
  · rw [roomSalt, roomTTL, lookup_after_eq_none hempty]
    exact ⟨rfl, rfl⟩
  · obtain ⟨r, hr, rfl⟩ := origin_of_createdWith hset ho
    rw [roomSalt, roomTTL, hr]
    exact ⟨rfl, rfl⟩

/-- A room is left by its only peer and joined again with another salt and no TTL. -/
def rejoined : List Call :=
  [.joinWithTTL "r" "a" 900 [1] 5, .joinWithTTL "r" "b" 3600 [2] 6, .setNickname "r" "b" "bo",
    .leave "r" "a" 7, .leave "r" "b" 8, .joinWithTTL "r" "b" 0 [3] 9]

theorem Store.origin_fixed_rejoined : (Store.after rejoined).roomSalt "r" = [3] ∧
    (Store.after rejoined).roomTTL "r" = (0, 9, true) :=
  (Store.origin_fixed rejoined (by decide) "r").2.2 ⟨0, [3], 9⟩
    ⟨rejoined.take 5, .joinWithTTL "r" "b" 0 [3] 9, [], by decide, by decide, by decide,
      fun after' h => by
        rw [List.prefix_nil.mp h]
        exact ⟨"b", by decide⟩⟩

end TrapChat.Storage
