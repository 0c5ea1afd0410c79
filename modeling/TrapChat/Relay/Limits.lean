import TrapChat.Library.Transition
import TrapChat.Relay.Locks

/-!
The limits of the relay: connections, rooms, peers of a room. The accept loop
reserves a slot of `conn_count` before it looks at the limit, and gives it back
where the connection is refused; the slot of a spawned handler is given back
after the handler returns. Rooms and peers are checked under the lock under which
they are inserted.

A step is one atomic operation, one lock acquisition or one await of the accept
loop or of a handler. What the rate limiter of the IP addresses answers depends on
addresses and clocks and is left to the schedule.
-/

namespace TrapChat.Relay

open Transition

def maxConnections : ℕ := 10000

/-- `AtomicUsize::fetch_add(1)`, which wraps around. -/
def fetchAdd (n : ℕ) : ℕ := (n + 1) % 2 ^ 64

/-- `AtomicUsize::fetch_sub(1)`, which wraps around. -/
def fetchSub (n : ℕ) : ℕ := (n + (2 ^ 64 - 1)) % 2 ^ 64

/-- Where the accept loop is. -/
inductive Accept
  | waiting
  | accepted
  /-- The count was at the limit; the slot is to be given back. -/
  | full
  /-- Before the lock of the rate limiter. -/
  | limiting
  /-- The rate limiter has refused; the slot is to be given back. -/
  | limited
  | spawning
  | stopped
  deriving DecidableEq

/-- The relay with its accept loop. `handshaking` tasks are before the end of the
handshake, those of `shared.conns` after it; `returned` ones have left
`handle_connection` and not given their slot back. -/
structure Server where
  shared : Shared
  connCount : ℕ
  accept : Accept
  handshaking : ℕ
  returned : ℕ

def newServer : Server where
  shared := newShared
  connCount := 0
  accept := .waiting
  handshaking := 0
  returned := 0

/-- The handlers that are running. -/
def Server.running (s : Server) : ℕ := s.handshaking + s.shared.conns.card

inductive ServerAction
  | accept
  | shutdown
  | reserve
  | unreserve
  | limit (allow : Bool)
  | spawn
  | handshake (c : ConnId)
  | refuseHandshake
  | handler (a : LockAction)
  | release

def serverStep (s : Server) : ServerAction → Option Server
  | .accept => if s.accept = .waiting then some { s with accept := .accepted } else none
  | .shutdown => if s.accept = .waiting then some { s with accept := .stopped } else none
  | .reserve =>
    if s.accept = .accepted then
      some { s with
        connCount := fetchAdd s.connCount
        accept := if s.connCount ≥ maxConnections then .full else .limiting }
    else none
  | .unreserve =>
    if s.accept = .full ∨ s.accept = .limited then
      some { s with connCount := fetchSub s.connCount, accept := .waiting }
    else none
  | .limit allow =>
    if s.accept = .limiting then
      some { s with accept := if allow then .spawning else .limited }
    else none
  | .spawn =>
    if s.accept = .spawning then
      some { s with handshaking := s.handshaking + 1, accept := .waiting }
    else none
  | .handshake c =>
    if 0 < s.handshaking then
      (lockStep s.shared (.connect c)).map fun shared =>
        { s with handshaking := s.handshaking - 1, shared := shared }
    else none
  | .refuseHandshake =>
    if 0 < s.handshaking then
      some { s with handshaking := s.handshaking - 1, returned := s.returned + 1 }
    else none
  | .handler (.connect _) => none
  | .handler a =>
    -- a connection that is gone afterwards is one whose handler has returned
    (lockStep s.shared a).map fun shared =>
      { s with
        shared := shared
        returned := s.returned + (s.shared.conns \ shared.conns).card }
  | .release =>
    if 0 < s.returned then
      some { s with returned := s.returned - 1, connCount := fetchSub s.connCount }
    else none

/-! ### Rooms and peers -/

/-- What a handler's step does to what is limited: it grows nothing beyond its limit. -/
structure WithinLimits (s s' : Shared) : Prop where
  rooms : s'.rooms.keys.card ≤ s.rooms.keys.card ∨ s'.rooms.keys.card ≤ maxRooms
  peers : ∀ a, s'.arcs a ⊆ s.arcs a ∨ (s'.arcs a).card ≤ maxPeersPerRoom
  conns : s'.conns ⊆ s.conns

section
variable {s s' : Shared} {c : ConnId}

/-- The maps are as before. -/
theorem WithinLimits.same (hrooms : s'.rooms = s.rooms) (harcs : s'.arcs = s.arcs)
    (hconns : s'.conns ⊆ s.conns) : WithinLimits s s' where
  rooms := .inl (by rw [hrooms])
  peers := fun a => .inl (by rw [harcs])
  conns := hconns

/-- The maps and the connections are as before. -/
theorem WithinLimits.still (hrooms : s'.rooms = s.rooms) (harcs : s'.arcs = s.arcs)
    (hconns : s'.conns = s.conns) : WithinLimits s s' :=
  .same hrooms harcs (hconns ▸ Finset.Subset.refl _)

/-- One peer map has become smaller, or is within the limit. -/
theorem WithinLimits.setArc {a : ArcId} {r : Finset ConnId}
    (h : r ⊆ s.arcs a ∨ r.card ≤ maxPeersPerRoom) : WithinLimits s (s.setArc a r) where
  rooms := .inl (Nat.le_refl _)
  peers := by
    intro b
    show Function.update s.arcs a r b ⊆ s.arcs b ∨
      (Function.update s.arcs a r b).card ≤ maxPeersPerRoom
    by_cases hb : b = a
    · subst hb
      rw [Function.update_self]
      exact h
    · rw [Function.update_of_ne hb]
      exact .inl (Finset.Subset.refl _)
  conns := Finset.Subset.refl _

theorem WithinLimits.goto (h : WithinLimits s s') (c : ConnId) (pc : PC) :
    WithinLimits s (s'.goto c pc) :=
  ⟨h.rooms, h.peers, h.conns⟩

theorem WithinLimits.finish (after : After) : WithinLimits s (s.finish c after) := by
  cases after with
  | join _ | leave => exact .same rfl rfl (Finset.Subset.refl _)
  | disconnect => exact .same rfl rfl (Finset.erase_subset c _)

theorem card_keys_insert_le (rooms : Finmap (fun _ : RoomName => ArcId)) (room : RoomName)
    (a : ArcId) : (rooms.insert room a).keys.card ≤ rooms.keys.card + 1 := by
  have hsub : (rooms.insert room a).keys ⊆ insert room rooms.keys := by
    intro q hq
    rw [Finmap.mem_keys, Finmap.mem_insert] at hq
    rw [Finset.mem_insert, Finmap.mem_keys]
    exact hq
  exact (Finset.card_le_card hsub).trans (Finset.card_insert_le _ _)

/-- A room is created below the limit only. -/
theorem WithinLimits.fetch {room : RoomName} (h : ¬s.roomLimit room) :
    WithinLimits s (s.fetch room).1 := by
  unfold Shared.fetch
  cases hr : s.rooms.lookup room with
  | some a => exact .same rfl rfl (Finset.Subset.refl _)
  | none =>
      have hbelow : s.rooms.keys.card < maxRooms := by
        by_contra hfull
        exact h ⟨hr, Nat.le_of_not_lt hfull⟩
      have hempty : WithinLimits s (s.setArc s.next ∅) :=
        .setArc (.inl (Finset.empty_subset _))
      refine ⟨.inr ?_, hempty.peers, hempty.conns⟩
      exact (card_keys_insert_le _ _ _).trans hbelow

/-- A peer is inserted below the limit, or was there. -/
theorem WithinLimits.enter {a : ArcId} (h : ¬s.peerLimit c a) :
    WithinLimits s (s.setArc a (insert c (s.arcs a))) := by
  refine .setArc ?_
  by_cases hc : c ∈ s.arcs a
  · rw [Finset.insert_eq_of_mem hc]
    exact .inl (Finset.Subset.refl _)
  · have hbelow : (s.arcs a).card < maxPeersPerRoom := by
      by_contra hfull
      exact h ⟨Nat.le_of_not_lt hfull, hc⟩
    exact .inr ((Finset.card_insert_le _ _).trans hbelow)

theorem WithinLimits.advance {refuse : Finset ConnId} {pc : PC}
    (h : advance s c refuse pc = some s') : WithinLimits s s' := by
  cases pc with
  | idle => cases h
  | joinFetch room =>
      simp only [Relay.advance, Option.ite_none_right_eq_some] at h
      obtain ⟨-, h⟩ := h
      split at h
      · cases h
        exact .still rfl rfl rfl
      · next hlimit =>
          cases h
          exact (WithinLimits.fetch hlimit).goto c _
  | joinInsert room a =>
      simp only [Relay.advance] at h
      split at h
      · cases h
        exact .still rfl rfl rfl
      · next hlimit =>
          cases h
          have henter := WithinLimits.enter hlimit
          exact ⟨henter.rooms, henter.peers, henter.conns⟩
  | joinCount room =>
      cases h
      exact .still rfl rfl rfl
  | leaveErase room a after =>
      have herase : WithinLimits s (s.setArc a ((s.arcs a).erase c)) :=
        .setArc (.inl (Finset.erase_subset _ _))
      simp only [Relay.advance] at h
      split at h
      all_goals
        cases h
        exact herase.goto c _
  | leaveCheckInner room a after =>
      simp only [Relay.advance] at h
      split at h
      all_goals
        cases h
        exact .still rfl rfl rfl
  | leaveRemoveInner room a after =>
      simp only [Relay.advance] at h
      split at h
      · cases h
        refine ⟨.inl ?_, fun b => .inl (Finset.Subset.refl _), Finset.Subset.refl _⟩
        show (s.rooms.erase room).keys.card ≤ _
        rw [Finmap.keys_erase]
        exact Finset.card_le_card (Finset.erase_subset _ _)
      · cases h
        exact .still rfl rfl rfl
  | fanSend a =>
      simp only [Relay.advance] at h
      split at h
      all_goals
        cases h
        exact .still rfl rfl rfl
  | fanEvict a stale =>
      cases h
      exact (WithinLimits.setArc (.inl Finset.sdiff_subset)).goto c _
  | presenceSend a after =>
      cases h
      exact .finish after
  | presenceGet room after =>
      simp only [Relay.advance, Option.ite_none_right_eq_some] at h
      obtain ⟨-, h⟩ := h
      split at h
      · cases h
        exact .finish after
      · cases h
        exact .still rfl rfl rfl
  | leaveGet room after | leaveCheck room after | leaveRemove room after | fanGet room =>
      simp only [Relay.advance, Option.ite_none_right_eq_some] at h
      obtain ⟨-, h⟩ := h
      split at h
      all_goals
        cases h
        exact .still rfl rfl rfl

/-- **A handler's step stays within the limits**, whatever the other handlers hold. -/
theorem WithinLimits.lockStep {a : LockAction} (hnew : ∀ c, a ≠ .connect c)
    (h : lockStep s a = some s') : WithinLimits s s' := by
  cases a with
  | connect c => exact absurd rfl (hnew c)
  | run c refuse =>
      simp only [Relay.lockStep, Option.ite_none_right_eq_some] at h
      exact .advance h.2
  | disconnect c =>
      simp only [Relay.lockStep, Option.ite_none_right_eq_some] at h
      obtain ⟨-, h⟩ := h
      split at h
      · cases h
        exact .still rfl rfl rfl
      · cases h
        exact .same rfl rfl (Finset.erase_subset c _)
  | join c room | leave c | chat c =>
      simp only [Relay.lockStep, Option.ite_none_right_eq_some] at h
      obtain ⟨-, h⟩ := h
      split at h
      all_goals
        cases h
        exact .still rfl rfl rfl

end

/-! ### Connections -/

/-- The slot that the accept loop holds itself. -/
def Accept.slots : Accept → ℕ
  | .full | .limiting | .limited | .spawning => 1
  | .waiting | .accepted | .stopped => 0

/-- The accept loop has a slot below the limit. -/
def Accept.admitted : Accept → Bool
  | .limiting | .limited | .spawning => true
  | _ => false

/-- Every slot counted is held: by a handler, by one that has returned, or by the
accept loop. -/
structure Bounded (s : Server) : Prop where
  rooms : s.shared.rooms.keys.card ≤ maxRooms
  peers : ∀ a, (s.shared.arcs a).card ≤ maxPeersPerRoom
  count : s.connCount = s.running + s.returned + s.accept.slots
  held : s.running + s.returned ≤ maxConnections
  admitted : s.accept.admitted = true → s.running + s.returned < maxConnections

theorem bounded_newServer : Bounded newServer where
  rooms := by
    show (∅ : Finmap (fun _ : RoomName => ArcId)).keys.card ≤ maxRooms
    rw [Finmap.keys_empty, Finset.card_empty]
    exact Nat.zero_le _
  peers := fun _ => by
    show (∅ : Finset ConnId).card ≤ maxPeersPerRoom
    rw [Finset.card_empty]
    exact Nat.zero_le _
  count := rfl
  held := Nat.zero_le _
  admitted := fun h => by cases h

theorem fetchAdd_eq {n : ℕ} (h : n ≤ maxConnections) : fetchAdd n = n + 1 := by
  rw [maxConnections] at h
  rw [fetchAdd, Nat.mod_eq_of_lt]
  omega

theorem fetchSub_eq {n : ℕ} (hpos : 0 < n) (h : n ≤ maxConnections + 1) :
    fetchSub n = n - 1 := by
  rw [maxConnections] at h
  rw [fetchSub]
  omega

/-- A connection that has left moves its slot from the running handlers to the returned ones. -/
theorem card_conns_add_returned {s s' : Shared} (h : s'.conns ⊆ s.conns) :
    s'.conns.card + (s.conns \ s'.conns).card = s.conns.card := by
  rw [Nat.add_comm]
  exact Finset.card_sdiff_add_card_eq_card h

/-- The handlers take no slot, and keep those of the connections that leave. -/
theorem Bounded.handler {s : Server} {shared : Shared} (h : Bounded s)
    (hwithin : WithinLimits s.shared shared) : Bounded { s with
      shared := shared
      returned := s.returned + (s.shared.conns \ shared.conns).card } := by
  obtain ⟨hrooms, hpeers, hcount, hheld, hadmitted⟩ := h
  unfold Server.running at hcount hheld hadmitted
  have hcard := card_conns_add_returned hwithin.conns
  refine ⟨?_, fun b => ?_, ?_, ?_, fun hadm => ?_⟩
  all_goals dsimp only [Server.running]
  · exact hwithin.rooms.elim (fun hle => hle.trans hrooms) id
  · exact (hwithin.peers b).elim (fun hsub => (Finset.card_le_card hsub).trans (hpeers b)) id
  · omega
  · omega
  · have := hadmitted hadm
    omega

theorem Bounded.step {s s' : Server} {a : ServerAction} (h : Bounded s)
    (hstep : serverStep s a = some s') : Bounded s' := by
  have ⟨hrooms, hpeers, hcount, hheld, hadmitted⟩ := h
  unfold Server.running at hcount hheld hadmitted
  cases a with
  | accept | shutdown =>
      simp only [serverStep, Option.ite_none_right_eq_some, Option.some.injEq] at hstep
      obtain ⟨hwait, rfl⟩ := hstep
      rw [hwait] at hcount
      exact ⟨hrooms, hpeers, hcount, hheld, fun hadm => by cases hadm⟩
  | reserve =>
      simp only [serverStep, Option.ite_none_right_eq_some, Option.some.injEq] at hstep
      obtain ⟨hacc, rfl⟩ := hstep
      rw [hacc, Accept.slots] at hcount
      -- the accept loop held no slot, so the counter is below its wrap-around
      have hle : s.connCount ≤ maxConnections := by omega
      refine ⟨hrooms, hpeers, ?_, hheld, fun hadm => ?_⟩
      all_goals dsimp only [Server.running] at *
      · rw [fetchAdd_eq hle, hcount]
        split <;> rfl
      · split at hadm
        · cases hadm
        · omega
  | unreserve =>
      simp only [serverStep, Option.ite_none_right_eq_some, Option.some.injEq] at hstep
      obtain ⟨hacc, rfl⟩ := hstep
      have hslot : s.accept.slots = 1 := by rcases hacc with hacc | hacc <;> rw [hacc] <;> rfl
      rw [hslot] at hcount
      refine ⟨hrooms, hpeers, ?_, hheld, fun hadm => by cases hadm⟩
      dsimp only [Server.running, Accept.slots]
      rw [fetchSub_eq (by omega) (by omega), hcount]
      rfl
  | limit allow =>
      simp only [serverStep, Option.ite_none_right_eq_some, Option.some.injEq] at hstep
      obtain ⟨hacc, rfl⟩ := hstep
      rw [hacc] at hcount hadmitted
      refine ⟨hrooms, hpeers, ?_, hheld, fun _ => hadmitted rfl⟩
      cases allow <;> exact hcount
  | spawn =>
      simp only [serverStep, Option.ite_none_right_eq_some, Option.some.injEq] at hstep
      obtain ⟨hacc, rfl⟩ := hstep
      rw [hacc] at hcount hadmitted
      have hbelow := hadmitted rfl
      rw [Accept.slots] at hcount
      refine ⟨hrooms, hpeers, ?_, ?_, fun hadm => by cases hadm⟩
      all_goals dsimp only [Server.running, Accept.slots]; omega
  | handshake c =>
      simp only [serverStep, Option.ite_none_right_eq_some, Option.map_eq_some_iff, lockStep,
        Option.ite_none_left_eq_some, Option.some.injEq] at hstep
      obtain ⟨hpos, shared, ⟨hfresh, rfl⟩, rfl⟩ := hstep
      have hcard := Finset.card_insert_of_notMem hfresh
      refine ⟨hrooms, hpeers, ?_, ?_, fun hadm => ?_⟩
      all_goals dsimp only [Server.running]
      · omega
      · omega
      · have := hadmitted hadm
        omega
  | refuseHandshake =>
      simp only [serverStep, Option.ite_none_right_eq_some, Option.some.injEq] at hstep
      obtain ⟨hpos, rfl⟩ := hstep
      refine ⟨hrooms, hpeers, ?_, ?_, fun hadm => ?_⟩
      all_goals dsimp only [Server.running]
      · omega
      · omega
      · have := hadmitted hadm
        omega
  | release =>
      simp only [serverStep, Option.ite_none_right_eq_some, Option.some.injEq] at hstep
      obtain ⟨hpos, rfl⟩ := hstep
      -- the slot that is given back is a returned handler's, not the accept loop's
      have hslots : s.accept.slots ≤ 1 := by cases s.accept <;> decide
      refine ⟨hrooms, hpeers, ?_, ?_, fun hadm => ?_⟩
      all_goals dsimp only [Server.running]
      · rw [fetchSub_eq (by omega) (by omega)]
        omega
      · omega
      · have := hadmitted hadm
        omega
  | handler a =>
      have hnew : ∀ c, a ≠ .connect c := by
        rintro c rfl
        cases hstep
      obtain ⟨shared, hshared, rfl⟩ : ∃ shared, lockStep s.shared a = some shared ∧
          { s with
            shared := shared
            returned := s.returned + (s.shared.conns \ shared.conns).card } = s' := by
        cases a with
        | connect c => exact absurd rfl (hnew c)
        | join _ _ | leave _ | chat _ | disconnect _ | run _ _ =>
            exact Option.map_eq_some_iff.mp hstep
      exact h.handler (.lockStep hnew hshared)

/-- **The limits hold at every moment**, and no slot is leaked or released twice: the
count is that of the running handlers whenever the accept loop waits and no handler
that has returned still has its slot. -/
theorem limits_of_reachable (s : Server) (hs : Reachable serverStep newServer s) :
    s.running ≤ maxConnections ∧ s.shared.rooms.keys.card ≤ maxRooms ∧
      (∀ a, (s.shared.arcs a).card ≤ maxPeersPerRoom) ∧ s.running ≤ s.connCount ∧
      (s.accept = .waiting → s.returned = 0 → s.connCount = s.running) := by
  have h : Bounded s := hs.invariant bounded_newServer fun _ _ _ hb _ hstep => hb.step hstep
  refine ⟨?_, h.rooms, h.peers, ?_, fun hwait hreturned => ?_⟩
  · exact (Nat.le_add_right _ _).trans h.held
  · rw [h.count, Nat.add_assoc]
    exact Nat.le_add_right _ _
  · rw [h.count, hwait, hreturned]
    rfl

/-- Two connections are accepted, the second one refused by the rate limiter; the
first one joins a room and leaves the relay. -/
def acceptTwo : List ServerAction :=
  [.accept, .reserve, .limit true, .spawn, .handshake "a", .accept, .reserve,
    .handler (.join "a" "x"), .limit false, .handler (.run "a" ∅), .unreserve,
    .handler (.run "a" ∅), .handler (.run "a" ∅), .handler (.run "a" ∅), .handler (.run "a" ∅)]

theorem acceptTwo_runs : (exec serverStep newServer acceptTwo).isSome = true := by decide

theorem limits_acceptTwo :
    let s := (exec serverStep newServer acceptTwo).get acceptTwo_runs
    s.running = 1 ∧ s.connCount = s.running := by
  have hlimits := limits_of_reachable _ (reachable_get acceptTwo_runs)
  exact ⟨by decide, hlimits.2.2.2.2 (by decide) (by decide)⟩

end TrapChat.Relay
