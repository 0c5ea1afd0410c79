import TrapChat.Library.Transition
import TrapChat.Relay.Locks

/-!
Joins racing with leaves. A join fetches its room under the outer lock and
enters it after letting the lock go; in between, the last peer's `leave_room` may
find the room empty and take it out of the map. The joining connection then sits
in a peer map that nobody else can reach.

The invariant says of each connection, by its program counter, what the maps
hold for it. Every action changes the maps in one of a few ways, and for each of
them there is one lemma that the other connections' part of the invariant
survives it.
-/

namespace TrapChat.Relay

open Transition

/-- No limit refuses a join, no queue refuses a message and nobody is evicted. -/
def Unlimited (s : Shared) : LockAction → Prop
  | .run c refuse =>
    match s.pc c with
    | .joinFetch room => ¬s.roomLimit room
    | .joinInsert _ a => ¬s.peerLimit c a
    | .fanSend a => s.targets c a ∩ refuse = ∅
    | .fanEvict _ stale => stale = ∅
    | _ => True
  | _ => True

/-- No `leave_room` takes out a room that another connection has fetched for a
join and not entered yet. -/
def Unorphaned (s : Shared) : LockAction → Prop
  | .run c _ =>
    match s.pc c with
    | .leaveRemoveInner room a _ =>
      s.arcs a = ∅ → ∀ d ∈ s.conns, match s.pc d with
        | .joinInsert room' _ => room' ≠ room
        | _ => True
    | _ => True
  | _ => True

instance (s : Shared) (a : LockAction) : Decidable (Unlimited s a) := by
  cases a <;> unfold Unlimited <;> first | infer_instance | (dsimp only; split <;> infer_instance)

instance (pc : PC) (room : RoomName) : Decidable (match pc with
    | .joinInsert room' _ => room' ≠ room
    | _ => True) := by
  split <;> infer_instance

instance (s : Shared) (a : LockAction) : Decidable (Unorphaned s a) := by
  cases a <;> unfold Unorphaned <;> first | infer_instance | (dsimp only; split <;> infer_instance)

/-- Every handler is between two messages. -/
def Quiescent (s : Shared) : Prop := ∀ c ∈ s.conns, s.pc c = .idle

instance (s : Shared) : Decidable (Quiescent s) := inferInstanceAs (Decidable (∀ c ∈ s.conns, _))

/-- The connection is in the peer map registered under the room. -/
def InRoom (rooms : Finmap (fun _ : RoomName => ArcId)) (arcs : ArcId → Finset ConnId)
    (c : ConnId) (room : RoomName) : Prop :=
  ∃ a, rooms.lookup room = some a ∧ c ∈ arcs a

/-- A connection is in the room it takes for its current one, and every other
connection with the same current room is in the same peer map and among those
that a message of the first one is sent to. -/
def Present (s : Shared) : Prop :=
  ∀ c ∈ s.conns, ∀ room, s.current c = some room →
    ∃ a, s.rooms.lookup room = some a ∧ c ∈ s.arcs a ∧
      ∀ d ∈ s.conns, s.current d = some room → d ≠ c → d ∈ s.arcs a ∧ d ∈ s.targets c a

/-! ### The invariant -/

/-- The handler is at a point where its connection is in its current room. In
between, a join or a leave has taken it out of that room. -/
def PC.seated : PC → Bool
  | .idle | .joinCount _ | .leaveGet _ _ | .leaveErase _ _ _ | .presenceGet _ (.join _)
  | .presenceSend _ (.join _) | .fanGet _ | .fanSend _ | .fanEvict _ _ => true
  | _ => false

/-- What the maps hold for a connection, by where its handler is. -/
structure Holds (rooms : Finmap (fun _ : RoomName => ArcId)) (arcs : ArcId → Finset ConnId)
    (writer : Option ConnId) (c : ConnId) (cur : Option RoomName) (pc : PC) : Prop where
  seated : pc.seated = true → ∀ room, cur = some room → InRoom rooms arcs c room
  fetched : ∀ room a, pc = .joinInsert room a → rooms.lookup room = some a
  leaving : ∀ room after, pc = .leaveGet room after → cur = some room
  erasing : ∀ room a after, pc = .leaveErase room a after →
    cur = some room ∧ rooms.lookup room = some a
  removing : ∀ room a after, pc = .leaveRemoveInner room a after →
    rooms.lookup room = some a ∧ writer = some c

structure Inv (s : Shared) : Prop where
  holds : ∀ c, Holds s.rooms s.arcs s.writer c (s.current c) (s.pc c)
  fresh : ∀ room a, s.rooms.lookup room = some a → a < s.next
  gone : ∀ c ∉ s.conns, s.pc c = .idle ∧ s.current c = none

section
variable {rooms rooms' : Finmap (fun _ : RoomName => ArcId)} {arcs arcs' : ArcId → Finset ConnId}
  {writer writer' : Option ConnId} {c : ConnId} {cur : Option RoomName} {pc : PC}

/-- What survives of a connection's part: its seats, the room it has fetched, and
the outer lock with the room it is about to remove. -/
theorem Holds.mono (h : Holds rooms arcs writer c cur pc)
    (hseat : ∀ room a, rooms.lookup room = some a → c ∈ arcs a →
      rooms'.lookup room = some a ∧ c ∈ arcs' a)
    (hfetched : ∀ room a, pc = .joinInsert room a → rooms.lookup room = some a →
      rooms'.lookup room = some a)
    (hremoving : ∀ room a, rooms.lookup room = some a → writer = some c →
      rooms'.lookup room = some a ∧ writer' = some c) : Holds rooms' arcs' writer' c cur pc where
  seated := by
    intro hpc room hroom
    obtain ⟨a, ha, hc⟩ := h.seated hpc room hroom
    obtain ⟨ha', hc'⟩ := hseat room a ha hc
    exact ⟨a, ha', hc'⟩
  fetched := fun room a hpc => hfetched room a hpc (h.fetched room a hpc)
  leaving := h.leaving
  erasing := by
    intro room a after hpc
    obtain ⟨hcur, ha⟩ := h.erasing room a after hpc
    obtain ⟨a', ha', hc⟩ := h.seated (by rw [hpc]; rfl) room hcur
    obtain rfl : a = a' := Option.some.inj (ha.symm.trans ha')
    exact ⟨hcur, (hseat room a ha hc).1⟩
  removing := by
    intro room a after hpc
    obtain ⟨ha, hw⟩ := h.removing room a after hpc
    exact hremoving room a ha hw

/-- A point of a handler about which the maps say nothing. -/
theorem Holds.transit (hseat : pc.seated = false) (hfetched : ∀ room a, pc ≠ .joinInsert room a)
    (hremoving : ∀ room a after, pc ≠ .leaveRemoveInner room a after) :
    Holds rooms arcs writer c cur pc where
  seated := fun h => by rw [hseat] at h; cases h
  fetched := fun room a h => absurd h (hfetched room a)
  leaving := by
    rintro room after rfl
    cases hseat
  erasing := by
    rintro room a after rfl
    cases hseat
  removing := fun room a after h => absurd h (hremoving room a after)

/-- A point where the connection is in its current room and nothing else is
asked. -/
theorem Holds.settled (h : ∀ room, cur = some room → InRoom rooms arcs c room)
    (hfetched : ∀ room a, pc ≠ .joinInsert room a)
    (hleaving : ∀ room after, pc ≠ .leaveGet room after)
    (herasing : ∀ room a after, pc ≠ .leaveErase room a after)
    (hremoving : ∀ room a after, pc ≠ .leaveRemoveInner room a after) :
    Holds rooms arcs writer c cur pc where
  seated := fun _ => h
  fetched := fun room a hpc => absurd hpc (hfetched room a)
  leaving := fun room after hpc => absurd hpc (hleaving room after)
  erasing := fun room a after hpc => absurd hpc (herasing room a after)
  removing := fun room a after hpc => absurd hpc (hremoving room a after)

theorem Holds.idle (h : ∀ room, cur = some room → InRoom rooms arcs c room) :
    Holds rooms arcs writer c cur .idle :=
  .settled h (by simp) (by simp) (by simp) (by simp)

end

/-- **The frame rule.** An action of one connection keeps the invariant when it
keeps the other connections' parts and re-establishes its own. -/
theorem Inv.act {s s' : Shared} {c : ConnId} (hs : Inv s)
    (hother : ∀ d, d ≠ c →
      s'.pc d = s.pc d ∧ s'.current d = s.current d ∧ (d ∈ s'.conns ↔ d ∈ s.conns))
    (hkeep : ∀ d, d ≠ c → Holds s.rooms s.arcs s.writer d (s.current d) (s.pc d) →
      Holds s'.rooms s'.arcs s'.writer d (s.current d) (s.pc d))
    (hself : Holds s'.rooms s'.arcs s'.writer c (s'.current c) (s'.pc c))
    (hfresh : ∀ room a, s'.rooms.lookup room = some a → a < s'.next)
    (hgone : c ∉ s'.conns → s'.pc c = .idle ∧ s'.current c = none) : Inv s' where
  holds := by
    intro d
    by_cases hd : d = c
    · rw [hd]
      exact hself
    · obtain ⟨hpc, hcur, -⟩ := hother d hd
      rw [hpc, hcur]
      exact hkeep d hd (hs.holds d)
  fresh := hfresh
  gone := by
    intro d hd
    by_cases hdc : d = c
    · rw [hdc] at hd ⊢
      exact hgone hd
    · obtain ⟨hpc, hcur, hconns⟩ := hother d hdc
      rw [hpc, hcur]
      exact hs.gone d fun h => hd (hconns.mpr h)

/-! ### Actions that leave the maps alone -/

theorem pc_goto (s : Shared) (c : ConnId) (pc : PC) : (s.goto c pc).pc c = pc :=
  Function.update_self _ _ _

/-- A handler goes on to another point. -/
theorem Inv.goto {s : Shared} {c : ConnId} (hs : Inv s) (hc : c ∈ s.conns) {pc : PC}
    (hself : Holds s.rooms s.arcs s.writer c (s.current c) pc) : Inv (s.goto c pc) := by
  refine hs.act (c := c) (fun d hd => ⟨Function.update_of_ne hd _ _, rfl, Iff.rfl⟩)
    (fun _ _ h => h) ?_ hs.fresh fun h => absurd hc h
  rw [pc_goto]
  exact hself

/-- The readers of the outer lock matter to nobody's part. -/
theorem Inv.readers {s : Shared} (hs : Inv s) (readers : Finset ConnId) :
    Inv { s with readers := readers } :=
  ⟨hs.holds, hs.fresh, hs.gone⟩

theorem Holds.resume (rooms : Finmap (fun _ : RoomName => ArcId)) (arcs : ArcId → Finset ConnId)
    (writer : Option ConnId) (c : ConnId) (cur : Option RoomName) (room : RoomName)
    (after : After) : Holds rooms arcs writer c cur (after.resume room) := by
  cases after with
  | join next => exact .transit rfl (by simp [After.resume]) (by simp [After.resume])
  | leave => exact .transit rfl (by simp [After.resume]) (by simp [After.resume])
  | disconnect => exact .transit rfl (by simp [After.resume]) (by simp [After.resume])

theorem Inv.left {s : Shared} {c : ConnId} (hs : Inv s) (hc : c ∈ s.conns) (room : RoomName)
    (after : After) : Inv (s.left c room after) :=
  hs.goto hc (.resume _ _ _ _ _ _ _)

theorem Inv.finish {s : Shared} {c : ConnId} (hs : Inv s) (hc : c ∈ s.conns) {after : After}
    (hjoin : ∀ room, after = .join room →
      ∀ q, s.current c = some q → InRoom s.rooms s.arcs c q) : Inv (s.finish c after) := by
  have hcurrent : Function.update s.current c none c = none := Function.update_self _ _ _
  cases after with
  | join room => exact hs.goto hc (.idle (hjoin room rfl))
  | leave =>
      refine hs.act (c := c) (fun d hd => ⟨Function.update_of_ne hd _ _,
        Function.update_of_ne hd _ _, Iff.rfl⟩) (fun _ _ h => h) ?_ hs.fresh fun h => absurd hc h
      show Holds _ _ _ _ (Function.update s.current c none c) ((s.goto c .idle).pc c)
      rw [hcurrent, pc_goto]
      exact .idle (by simp)
  | disconnect =>
      refine hs.act (c := c) (fun d hd => ⟨Function.update_of_ne hd _ _,
        Function.update_of_ne hd _ _, by simp [Shared.finish, hd]⟩) (fun _ _ h => h) ?_ hs.fresh
        fun _ => ⟨pc_goto s c .idle, hcurrent⟩
      show Holds _ _ _ _ (Function.update s.current c none c) ((s.goto c .idle).pc c)
      rw [hcurrent, pc_goto]
      exact .idle (by simp)

/-! ### Actions that change the maps -/

/-- The outer write lock goes to a handler that has found the room in the map. -/
theorem Inv.lock {s : Shared} {c : ConnId} (hs : Inv s) (hc : c ∈ s.conns)
    (hfree : s.canWrite) {room : RoomName} {a : ArcId} (ha : s.rooms.lookup room = some a)
    (after : After) :
    Inv ({ s with writer := some c }.goto c (.leaveRemoveInner room a after)) := by
  refine hs.act (c := c) (fun d hd => ⟨Function.update_of_ne hd _ _, rfl, Iff.rfl⟩)
    (fun d _ h => h.mono (fun _ _ hq hd => ⟨hq, hd⟩) (fun _ _ _ hq => hq) ?_) ?_ hs.fresh
    fun h => absurd hc h
  · intro q b _ hwriter
    rw [hfree.1] at hwriter
    cases hwriter
  · rw [pc_goto]
    constructor
    case removing =>
      intro q b after' hpc
      obtain ⟨rfl, rfl, -⟩ := PC.leaveRemoveInner.inj hpc
      exact ⟨ha, rfl⟩
    all_goals simp [PC.seated]

/-- The outer write lock is given back by its holder. -/
theorem Inv.unlock {s : Shared} {c : ConnId} (hs : Inv s) (hc : c ∈ s.conns)
    (hwriter : s.writer = some c) (room : RoomName) (after : After) :
    Inv ({ s with writer := none }.left c room after) := by
  refine hs.act (c := c) (fun d hd => ⟨Function.update_of_ne hd _ _, rfl, Iff.rfl⟩)
    (fun d hd h => h.mono (fun _ _ hq hd => ⟨hq, hd⟩) (fun _ _ _ hq => hq) ?_) ?_ hs.fresh
    fun h => absurd hc h
  · intro q b _ hd'
    exact absurd (Option.some.inj (hd'.symm.trans hwriter)) hd
  · rw [Shared.left, pc_goto]
    exact .resume _ _ _ _ _ _ _

/-- The holder of the outer write lock takes an empty room out and gives the lock
back. Nobody may have fetched the room for a join. -/
theorem Inv.remove {s : Shared} {c : ConnId} (hs : Inv s) (hc : c ∈ s.conns)
    (hwriter : s.writer = some c) {room : RoomName} {a : ArcId}
    (ha : s.rooms.lookup room = some a) (hempty : s.arcs a = ∅)
    (hfetched : ∀ d b, s.pc d ≠ .joinInsert room b) (after : After) :
    Inv ({ s with writer := none, rooms := s.rooms.erase room }.left c room after) := by
  have hother : ∀ q, q ≠ room → (s.rooms.erase room).lookup q = s.rooms.lookup q :=
    fun q hq => Finmap.lookup_erase_ne hq
  refine hs.act (c := c) (fun d hd => ⟨Function.update_of_ne hd _ _, rfl, Iff.rfl⟩)
    (fun d hd h => h.mono ?_ ?_ ?_) ?_ ?_ fun h => absurd hc h
  · -- a room with somebody in it is not the one that goes
    intro q b hq hdb
    have hne : q ≠ room := by
      rintro rfl
      rw [Option.some.inj (ha.symm.trans hq)] at hempty
      simp [hempty] at hdb
    exact ⟨(hother q hne).trans hq, hdb⟩
  · intro q b hpc hq
    have hne : q ≠ room := by
      rintro rfl
      exact hfetched d b hpc
    exact (hother q hne).trans hq
  · intro q b _ hd'
    exact absurd (Option.some.inj (hd'.symm.trans hwriter)) hd
  · rw [Shared.left, pc_goto]
    exact .resume _ _ _ _ _ _ _
  · intro q b hq
    by_cases hne : q = room
    · rw [hne] at hq
      simp [Shared.left, Shared.goto] at hq
    · exact hs.fresh q b ((hother q hne).symm.trans hq)

/-- A handler takes its connection out of a peer map. -/
theorem Inv.exit {s : Shared} {c : ConnId} (hs : Inv s) (hc : c ∈ s.conns) (a : ArcId) {pc : PC}
    (hpc : ∀ rooms arcs writer cur, Holds rooms arcs writer c cur pc) :
    Inv ((s.setArc a ((s.arcs a).erase c)).goto c pc) := by
  refine hs.act (c := c) (fun d hd => ⟨Function.update_of_ne hd _ _, rfl, Iff.rfl⟩)
    (fun d hd h => h.mono ?_ (fun _ _ _ hq => hq) (fun _ _ hq hw => ⟨hq, hw⟩)) ?_ hs.fresh
    fun h => absurd hc h
  · intro q b hq hdb
    refine ⟨hq, ?_⟩
    show d ∈ Function.update s.arcs a _ b
    by_cases hba : b = a
    · rw [hba, Function.update_self]
      exact Finset.mem_erase_of_ne_of_mem hd (hba ▸ hdb)
    · rwa [Function.update_of_ne hba]
  · rw [pc_goto]
    exact hpc _ _ _ _

/-- A handler puts its connection into the peer map it has fetched. -/
theorem Inv.enter {s : Shared} {c : ConnId} (hs : Inv s) (hc : c ∈ s.conns) {room : RoomName}
    {a : ArcId} (ha : s.rooms.lookup room = some a) :
    Inv (((s.setArc a (insert c (s.arcs a))).setCurrent c (some room)).goto c
      (.joinCount room)) := by
  have hmono : ∀ b d, d ∈ s.arcs b → d ∈ Function.update s.arcs a (insert c (s.arcs a)) b := by
    intro b d hd
    by_cases hba : b = a
    · rw [hba] at hd ⊢
      rw [Function.update_self]
      exact Finset.mem_insert_of_mem hd
    · rwa [Function.update_of_ne hba]
  refine hs.act (c := c)
    (fun d hd => ⟨Function.update_of_ne hd _ _, Function.update_of_ne hd _ _, Iff.rfl⟩)
    (fun d hd h => h.mono (fun _ b hq hdb => ⟨hq, hmono b d hdb⟩) (fun _ _ _ hq => hq)
      (fun _ _ hq hw => ⟨hq, hw⟩)) ?_ hs.fresh fun h => absurd hc h
  rw [pc_goto]
  refine .settled ?_ (by simp) (by simp) (by simp) (by simp)
  intro q hq
  have hroom : Function.update s.current c (some room) c = some q := hq
  rw [Function.update_self] at hroom
  obtain rfl := Option.some.inj hroom
  refine ⟨a, ha, ?_⟩
  show c ∈ Function.update s.arcs a (insert c (s.arcs a)) a
  rw [Function.update_self]
  exact Finset.mem_insert_self _ _

/-- A join fetches its room, and creates it if need be, when nobody holds the
outer lock. -/
theorem Inv.fetch {s : Shared} {c : ConnId} (hs : Inv s) (hc : c ∈ s.conns)
    (hfree : s.canWrite) (room : RoomName) :
    Inv ((s.fetch room).1.goto c (.joinInsert room (s.fetch room).2)) := by
  have hself : ∀ {rooms arcs writer cur b}, rooms.lookup room = some b →
      Holds rooms arcs writer c cur (.joinInsert room b) := by
    intro rooms arcs writer cur b hb
    constructor
    case fetched =>
      intro q b' hpc
      obtain ⟨rfl, rfl⟩ := PC.joinInsert.inj hpc
      exact hb
    all_goals simp [PC.seated]
  cases hroom : s.rooms.lookup room with
  | some a =>
      have hfetch : s.fetch room = (s, a) := by rw [Shared.fetch, hroom]
      rw [hfetch]
      exact hs.goto hc (hself hroom)
  | none =>
      -- the new cell is fresh, so that no registered peer map changes
      have hfetch : s.fetch room = ({ s.setArc s.next ∅ with
          rooms := s.rooms.insert room s.next, next := s.next + 1 }, s.next) := by
        rw [Shared.fetch, hroom]
      rw [hfetch]
      have hkeep : ∀ q b, s.rooms.lookup q = some b →
          (s.rooms.insert room s.next).lookup q = some b := by
        intro q b hq
        have hne : q ≠ room := by
          rintro rfl
          rw [hroom] at hq
          cases hq
        rw [Finmap.lookup_insert_of_ne _ hne, hq]
      refine hs.act (c := c) (fun d hd => ⟨Function.update_of_ne hd _ _, rfl, Iff.rfl⟩)
        (fun d hd h => h.mono ?_ (fun q b _ => hkeep q b) ?_) ?_ ?_ fun h => absurd hc h
      · intro q b hq hdb
        refine ⟨hkeep q b hq, ?_⟩
        show d ∈ Function.update s.arcs s.next ∅ b
        rwa [Function.update_of_ne (hs.fresh q b hq).ne]
      · intro q b _ hw
        rw [hfree.1] at hw
        cases hw
      · rw [pc_goto]
        exact hself (Finmap.lookup_insert _)
      · intro q b hq
        show b < s.next + 1
        have hq' : (s.rooms.insert room s.next).lookup q = some b := hq
        by_cases hne : q = room
        · rw [hne, Finmap.lookup_insert] at hq'
          obtain rfl := Option.some.inj hq'
          exact Nat.lt_succ_self _
        · rw [Finmap.lookup_insert_of_ne _ hne] at hq'
          exact Nat.lt_succ_of_lt (hs.fresh q b hq')

/-! ### Runs -/

/-- A point where a handler is in its current room and holds nothing. -/
theorem Holds.stay {rooms : Finmap (fun _ : RoomName => ArcId)} {arcs : ArcId → Finset ConnId}
    {writer : Option ConnId} {c : ConnId} {cur : Option RoomName} {pc pc' : PC}
    (h : Holds rooms arcs writer c cur pc) (hseat : pc.seated = true)
    (hfetched : ∀ room a, pc' ≠ .joinInsert room a)
    (hleaving : ∀ room after, pc' ≠ .leaveGet room after)
    (herasing : ∀ room a after, pc' ≠ .leaveErase room a after)
    (hremoving : ∀ room a after, pc' ≠ .leaveRemoveInner room a after) :
    Holds rooms arcs writer c cur pc' :=
  .settled (h.seated hseat) hfetched hleaving herasing hremoving

/-- A handler starts to leave its current room. -/
theorem Inv.depart {s : Shared} {c : ConnId} (hs : Inv s) (hc : c ∈ s.conns)
    (hidle : s.pc c = .idle) {room : RoomName} (hcur : s.current c = some room) (after : After) :
    Inv (s.goto c (.leaveGet room after)) := by
  refine hs.goto hc ⟨fun _ => (hs.holds c).seated (by rw [hidle]; rfl), by simp, ?_, by simp,
    by simp⟩
  intro q after' h
  obtain ⟨rfl, -⟩ := PC.leaveGet.inj h
  exact hcur

theorem inv_newShared : Inv newShared where
  holds := fun c => .idle (by simp [newShared])
  fresh := by simp [newShared]
  gone := fun c _ => ⟨rfl, rfl⟩

/-- **One lock acquisition keeps the invariant** when it is within the limits and
takes no room from under a join. -/
theorem inv_advance {s s' : Shared} {c : ConnId} {refuse : Finset ConnId} (hs : Inv s)
    (hc : c ∈ s.conns) (hunlimited : Unlimited s (.run c refuse))
    (hunorphaned : Unorphaned s (.run c refuse))
    (hstep : advance s c refuse (s.pc c) = some s') : Inv s' := by
  have hholds := hs.holds c
  cases hpc : s.pc c with
  | idle =>
      rw [hpc] at hstep
      cases hstep
  | joinFetch room =>
      simp only [Unlimited, hpc] at hunlimited
      simp only [hpc, advance, if_neg hunlimited, Option.ite_none_right_eq_some,
        Option.some.injEq] at hstep
      obtain ⟨hfree, rfl⟩ := hstep
      exact hs.fetch hc hfree room
  | joinInsert room a =>
      simp only [Unlimited, hpc] at hunlimited
      simp only [hpc, advance, if_neg hunlimited, Option.some.injEq] at hstep
      subst hstep
      exact hs.enter hc (hholds.fetched room a hpc)
  | joinCount room =>
      simp only [hpc, advance, Option.some.injEq] at hstep
      subst hstep
      exact hs.goto hc (hholds.stay (by rw [hpc]; rfl) (by simp) (by simp) (by simp) (by simp))
  | leaveGet room after =>
      have hcur := hholds.leaving room after hpc
      simp only [hpc, advance, Option.ite_none_right_eq_some] at hstep
      obtain ⟨-, hstep⟩ := hstep
      cases hroom : s.rooms.lookup room with
      | none =>
          simp only [hroom, Option.some.injEq] at hstep
          subst hstep
          exact hs.left hc room after
      | some a =>
          simp only [hroom, Option.some.injEq] at hstep
          subst hstep
          refine hs.goto hc ⟨fun _ => hholds.seated (by rw [hpc]; rfl), by simp, by simp, ?_,
            by simp⟩
          intro q b after' h
          obtain ⟨rfl, rfl, -⟩ := PC.leaveErase.inj h
          exact ⟨hcur, hroom⟩
  | leaveErase room a after =>
      simp only [hpc, advance] at hstep
      split at hstep
      · obtain rfl := Option.some.inj hstep
        exact hs.exit hc a fun _ _ _ _ => .transit rfl (by simp) (by simp)
      · obtain rfl := Option.some.inj hstep
        exact hs.exit hc a fun _ _ _ _ => .resume _ _ _ _ _ _ _
  | leaveCheck room after =>
      simp only [hpc, advance, Option.ite_none_right_eq_some] at hstep
      obtain ⟨-, hstep⟩ := hstep
      cases hroom : s.rooms.lookup room with
      | none =>
          simp only [hroom, Option.some.injEq] at hstep
          subst hstep
          exact hs.left hc room after
      | some a =>
          simp only [hroom, Option.some.injEq] at hstep
          subst hstep
          apply (hs.readers (insert c s.readers)).goto hc
          exact .transit rfl (by simp) (by simp)
  | leaveCheckInner room a after =>
      simp only [hpc, advance] at hstep
      split at hstep
      · obtain rfl := Option.some.inj hstep
        apply (hs.readers (s.readers.erase c)).goto hc
        exact .transit rfl (by simp) (by simp)
      · obtain rfl := Option.some.inj hstep
        exact (hs.readers (s.readers.erase c)).left hc room after
  | leaveRemove room after =>
      simp only [hpc, advance, Option.ite_none_right_eq_some] at hstep
      obtain ⟨hfree, hstep⟩ := hstep
      cases hroom : s.rooms.lookup room with
      | none =>
          simp only [hroom, Option.some.injEq] at hstep
          subst hstep
          exact hs.left hc room after
      | some a =>
          simp only [hroom, Option.some.injEq] at hstep
          subst hstep
          exact hs.lock hc hfree hroom after
  | leaveRemoveInner room a after =>
      obtain ⟨hroom, hwriter⟩ := hholds.removing room a after hpc
      simp only [hpc, advance] at hstep
      split at hstep
      · rename_i hempty
        obtain rfl := Option.some.inj hstep
        simp only [Unorphaned, hpc] at hunorphaned
        refine hs.remove hc hwriter hroom hempty ?_ after
        intro d b hd
        by_cases hdconn : d ∈ s.conns
        · have := hunorphaned hempty d hdconn
          simp [hd] at this
        · simp [(hs.gone d hdconn).1] at hd
      · obtain rfl := Option.some.inj hstep
        exact hs.unlock hc hwriter room after
  | presenceGet room after =>
      have hjoin : ∀ q, after = .join q → ∀ q', s.current c = some q' →
          InRoom s.rooms s.arcs c q' := by
        rintro q rfl
        exact hholds.seated (by rw [hpc]; rfl)
      simp only [hpc, advance, Option.ite_none_right_eq_some] at hstep
      obtain ⟨-, hstep⟩ := hstep
      cases hroom : s.rooms.lookup room with
      | none =>
          simp only [hroom, Option.some.injEq] at hstep
          subst hstep
          exact hs.finish hc hjoin
      | some a =>
          simp only [hroom, Option.some.injEq] at hstep
          subst hstep
          refine hs.goto hc ⟨?_, by simp, by simp, by simp, by simp⟩
          intro hseat
          cases after with
          | join q => exact hjoin q rfl
          | leave => cases hseat
          | disconnect => cases hseat
  | presenceSend a after =>
      simp only [hpc, advance, Option.some.injEq] at hstep
      subst hstep
      refine hs.finish hc ?_
      rintro q rfl
      exact hholds.seated (by rw [hpc]; rfl)
  | fanGet room =>
      have hseat : (s.pc c).seated = true := by rw [hpc]; rfl
      simp only [hpc, advance, Option.ite_none_right_eq_some] at hstep
      obtain ⟨-, hstep⟩ := hstep
      cases hroom : s.rooms.lookup room with
      | none =>
          simp only [hroom, Option.some.injEq] at hstep
          subst hstep
          exact hs.goto hc (.idle (hholds.seated hseat))
      | some a =>
          simp only [hroom, Option.some.injEq] at hstep
          subst hstep
          exact hs.goto hc (hholds.stay hseat (by simp) (by simp) (by simp) (by simp))
  | fanSend a =>
      simp only [Unlimited, hpc] at hunlimited
      simp only [hpc, advance, if_pos hunlimited, Option.some.injEq] at hstep
      subst hstep
      exact hs.goto hc (.idle (hholds.seated (by rw [hpc]; rfl)))
  | fanEvict a stale =>
      simp only [Unlimited, hpc] at hunlimited
      simp only [hpc, advance, hunlimited, Finset.sdiff_empty, Option.some.injEq] at hstep
      subst hstep
      have hsame : s.setArc a (s.arcs a) = s := by
        simp [Shared.setArc]
      rw [hsame]
      exact hs.goto hc (.idle (hholds.seated (by rw [hpc]; rfl)))

/-- A handler that starts on a message keeps the invariant. -/
theorem inv_lockStep {s s' : Shared} {act : LockAction} (hs : Inv s) (hunlimited : Unlimited s act)
    (hunorphaned : Unorphaned s act) (hstep : lockStep s act = some s') : Inv s' := by
  cases act with
  | connect c =>
      simp only [lockStep, Option.ite_none_left_eq_some, Option.some.injEq] at hstep
      obtain ⟨-, rfl⟩ := hstep
      refine ⟨hs.holds, hs.fresh, fun d hd => hs.gone d fun h => ?_⟩
      exact hd (Finset.mem_insert_of_mem h)
  | join c room =>
      simp only [lockStep, Option.ite_none_right_eq_some] at hstep
      obtain ⟨⟨hc, hidle⟩, hstep⟩ := hstep
      cases hcur : s.current c with
      | none =>
          simp only [hcur, Option.some.injEq] at hstep
          subst hstep
          exact hs.goto hc (.transit rfl (by simp) (by simp))
      | some prev =>
          simp only [hcur, Option.some.injEq] at hstep
          subst hstep
          exact hs.depart hc hidle hcur (.join room)
  | leave c =>
      simp only [lockStep, Option.ite_none_right_eq_some] at hstep
      obtain ⟨⟨hc, hidle⟩, hstep⟩ := hstep
      cases hcur : s.current c with
      | none =>
          simp only [hcur, Option.some.injEq] at hstep
          exact hstep ▸ hs
      | some room =>
          simp only [hcur, Option.some.injEq] at hstep
          subst hstep
          exact hs.depart hc hidle hcur .leave
  | chat c =>
      simp only [lockStep, Option.ite_none_right_eq_some] at hstep
      obtain ⟨⟨hc, hidle⟩, hstep⟩ := hstep
      cases hcur : s.current c with
      | none =>
          simp only [hcur, Option.some.injEq] at hstep
          exact hstep ▸ hs
      | some room =>
          simp only [hcur, Option.some.injEq] at hstep
          subst hstep
          apply hs.goto hc
          exact (hs.holds c).stay (by rw [hidle]; rfl) (by simp) (by simp) (by simp) (by simp)
  | disconnect c =>
      simp only [lockStep, Option.ite_none_right_eq_some] at hstep
      obtain ⟨⟨hc, hidle⟩, hstep⟩ := hstep
      cases hcur : s.current c with
      | none =>
          simp only [hcur, Option.some.injEq] at hstep
          subst hstep
          refine ⟨hs.holds, hs.fresh, fun d hd => ?_⟩
          by_cases hdc : d = c
          · rw [hdc]
            exact ⟨hidle, hcur⟩
          · exact hs.gone d fun h => hd (Finset.mem_erase_of_ne_of_mem hdc h)
      | some room =>
          simp only [hcur, Option.some.injEq] at hstep
          subst hstep
          exact hs.depart hc hidle hcur .disconnect
  | run c refuse =>
      simp only [lockStep, Option.ite_none_right_eq_some] at hstep
      exact inv_advance hs hstep.1 hunlimited hunorphaned hstep.2

/-- What a run keeps to. -/
abbrev Orderly (s : Shared) (act : LockAction) : Prop := Unlimited s act ∧ Unorphaned s act

theorem inv_of_reachable {s : Shared} (hs : ReachableVia lockStep Orderly newShared s) : Inv s :=
  hs.invariant (I := Inv) inv_newShared fun _ _ _ hinv horderly hstep =>
    inv_lockStep hinv horderly.1 horderly.2 hstep

/-- **Who has joined is there.** In every run in which no room is taken out from
under a join, whenever all handlers are idle the connections of a room share the
peer map that is registered under it. -/
theorem joined_are_present {s : Shared} (hs : ReachableVia lockStep Orderly newShared s)
    (hquiet : Quiescent s) : Present s := by
  have hinv := inv_of_reachable hs
  have hroom : ∀ c ∈ s.conns, ∀ room, s.current c = some room →
      InRoom s.rooms s.arcs c room := by
    intro c hc room hcur
    exact (hinv.holds c).seated (by rw [hquiet c hc]; rfl) room hcur
  intro c hc room hcur
  obtain ⟨a, ha, hca⟩ := hroom c hc room hcur
  refine ⟨a, ha, hca, fun d hd hdcur hdc => ?_⟩
  obtain ⟨b, hb, hdb⟩ := hroom d hd room hdcur
  obtain rfl : a = b := Option.some.inj (ha.symm.trans hb)
  exact ⟨hdb, Finset.mem_erase_of_ne_of_mem hdc hdb⟩

/-- Connections `a` and `b` join one room one after the other, and `b` says
something in it. -/
def bothJoin : List LockAction :=
  [.connect "a", .connect "b",
   .join "a" "r", .run "a" ∅, .run "a" ∅, .run "a" ∅, .run "a" ∅, .run "a" ∅,
   .join "b" "r", .run "b" ∅, .run "b" ∅, .run "b" ∅, .run "b" ∅, .run "b" ∅,
   .chat "b", .run "b" ∅, .run "b" ∅]

theorem bothJoin_run : (execVia lockStep Orderly newShared bothJoin).isSome = true := by
  decide

theorem joined_are_present_both :
    Present ((execVia lockStep Orderly newShared bothJoin).get bothJoin_run) :=
  joined_are_present (reachableVia_get bothJoin_run) (by decide)

/-- Connection `b` is alone in the room. Connection `a` fetches the room to join
it, `b` leaves and takes the room out, and `a` goes on. -/
def joinAcrossLeave : List LockAction :=
  [.connect "a", .connect "b",
   .join "b" "r", .run "b" ∅, .run "b" ∅, .run "b" ∅, .run "b" ∅, .run "b" ∅,
   .join "a" "r", .run "a" ∅,
   .leave "b", .run "b" ∅, .run "b" ∅, .run "b" ∅, .run "b" ∅, .run "b" ∅, .run "b" ∅,
   .run "b" ∅,
   .run "a" ∅, .run "a" ∅, .run "a" ∅]

theorem joinAcrossLeave_run : (execVia lockStep Unlimited newShared joinAcrossLeave).isSome = true := by
  decide

/-- **A join that loses the race is nowhere.** All handlers are idle, `a` has
joined the room, and no room is registered. -/
theorem joinAcrossLeave_orphans :
    ¬∀ s, ReachableVia lockStep Unlimited newShared s → Quiescent s → Present s := by
  intro h
  have hpresent := h _ (reachableVia_get joinAcrossLeave_run) (by decide)
  obtain ⟨a, ha, -⟩ := hpresent "a" (by decide) "r" (by decide)
  have hnone : ((execVia lockStep Unlimited newShared joinAcrossLeave).get
      joinAcrossLeave_run).rooms.lookup "r" = none := by decide
  rw [hnone] at ha
  cases ha

end TrapChat.Relay
