import TrapChat.Gateway.Expiry
import TrapChat.Worker.RoomCleanup

/-!
The `room:cleanup` job and the rooms of a gateway. The job asks for a room's state, then for its
TTL, and then has the gateway remove the members; meanwhile peers join and leave. A room without
members is stale for the job, though the gateway has none: it is a room that has gone since the
list was made, and its name may belong to a new room when the request to clean it up arrives.

A call of the store is one step, at the gateway's clock. The worker's clock is its own.
-/

namespace TrapChat.Network

open Storage Transition Gateway
open Worker (RoomInfo RoomTTL CleanupRuntime FetchRequest FetchResponse roomRequest shouldCleanRoom
  checkRoom ttlExpired isIdle defaultStaleThreshold)

/-- The zero `time.Time` in milliseconds. -/
def zeroTime : ℤ := -62135596800000

/-- The answer of `info`. -/
def infoAnswer (store : Store) (room : RoomName) : RoomInfo :=
  let (peers, lastActivity, known) := store.roomInfo room
  { peers := peers, lastActivity := some (if known then unixMilli lastActivity else zeroTime) }

/-- The answer of `ttl`. -/
def ttlAnswer (store : Store) (room : RoomName) : RoomTTL :=
  let (ttlSeconds, createdAt, known) := store.roomTTL room
  { ttlSeconds := ttlSeconds
    expiresAt :=
      if known ∧ 0 < ttlSeconds then unixMilli (createdAt + seconds ttlSeconds.toNat) else 0 }

/-- The TTL has run out. -/
def runOut (ttl : Option RoomTTL) (now : ℤ) : Bool :=
  ttl.any fun t => 0 < t.ttlSeconds && 0 < t.expiresAt && t.expiresAt < now

/-- What `shouldCleanRoom` makes of the answers. The TTL is `none` where it was not to be had.
The clock is read for the TTL and once more. -/
def isStale (info : RoomInfo) (ttl : Option RoomTTL) (now later : ℤ) : Bool :=
  runOut ttl now || info.lastActivity.any fun t =>
    info.peers = 0 && defaultStaleThreshold < later - t

section
variable (env : CleanupRuntime) (gatewayURL name : String)

/-- What an attempt learns of the TTL. -/
def answeredTTL : Option RoomTTL :=
  match env.fetch (roomRequest gatewayURL name .ttl) with
  | .ok res => if res.ok then (env.ttl res).toOption else none
  | .error _ => none

variable {env gatewayURL name}

/-- The inner `try` block, and what is left of it where the TTL is not to be had. -/
theorem ttlExpired_eq :
    tryCatch (ttlExpired env gatewayURL name) (fun _ => pure false) =
      .ok (runOut (answeredTTL env gatewayURL name)
        (env.now (roomRequest gatewayURL name .ttl))) := by
  rw [ttlExpired, answeredTTL]
  cases env.fetch (roomRequest gatewayURL name .ttl) with
  | error e => rfl
  | ok res =>
      dsimp only
      cases hok : res.ok with
      | false =>
          show tryCatch (if (!res.ok) = true then _ else _) _ = _
          rw [hok]
          rfl
      | true =>
          show tryCatch (if (!res.ok) = true then _ else _) _ = _
          rw [hok]
          cases env.ttl res with
          | error e => rfl
          | ok t =>
              show Except.ok (decide _) = Except.ok _
              simp [runOut, Except.toOption, Bool.and_assoc]

/-- **The job judges a room by what it is answered.** -/
theorem shouldCleanRoom_eq {res : FetchResponse} {info : RoomInfo}
    (hfetch : env.fetch (roomRequest gatewayURL name .info) = .ok res) (hok : res.ok = true)
    (hinfo : env.info res = .ok info) :
    shouldCleanRoom env gatewayURL name = isStale info (answeredTTL env gatewayURL name)
      (env.now (roomRequest gatewayURL name .ttl)) (env.now (roomRequest gatewayURL name .ttl)) := by
  have hidle : isIdle env gatewayURL name info = info.lastActivity.any fun t =>
      info.peers = 0 && defaultStaleThreshold < env.now (roomRequest gatewayURL name .ttl) - t := by
    rw [isIdle]
    cases info.lastActivity with
    | none => rfl
    | some t => exact Bool.decide_and _ _
  have hcheck : checkRoom env gatewayURL name = .ok (isStale info (answeredTTL env gatewayURL name)
      (env.now (roomRequest gatewayURL name .ttl))
      (env.now (roomRequest gatewayURL name .ttl))) := by
    simp only [checkRoom, hfetch]
    show (if (!res.ok) = true then _ else _) = _
    rw [hok]
    show (env.info res >>= fun info => _) = _
    rw [hinfo]
    show (tryCatch (ttlExpired env gatewayURL name) (fun _ => pure false) >>= fun expired => _) = _
    rw [ttlExpired_eq]
    show Except.ok (_ || isIdle env gatewayURL name info) = _
    rw [hidle]
    rfl
  rw [shouldCleanRoom, hcheck]

end

/-- A check of a room by the job, with what it has been answered. -/
inductive Phase
  | listed
  | informed (info : RoomInfo)
  | timed (info : RoomInfo) (ttl : Option RoomTTL)
  | stale
  /-- The gateway removes the peers that it has found. -/
  | removing (peers : List PeerID)
  | done

structure Check where
  room : RoomName
  phase : Phase

/-- The job has asked for the room's state and is not done with it. -/
def Check.underWay (check : Check) : Bool :=
  match check.phase with
  | .listed | .done => false
  | _ => true

structure Upkeep where
  store : Store
  clock : Time
  checks : List Check

/-- The calls that clients' messages lead to. -/
inductive ClientCall
  | join (room : RoomName) (p : PeerID) (ttlSeconds : ℤ) (salt : List UInt8)
  | leave (room : RoomName) (p : PeerID)
  | setNickname (room : RoomName) (p : PeerID) (nickname : String)

def ClientCall.call (now : Time) : ClientCall → Call
  | .join room p ttlSeconds salt => .joinWithTTL room p ttlSeconds salt now
  | .leave room p => .leave room p now
  | .setNickname room p nickname => .setNickname room p nickname

inductive UpkeepAction
  | wait (time : Time)
  | client (c : ClientCall)
  | list (room : RoomName)
  /-- The answers to the check's requests, `false` where one fails. -/
  | info (i : ℕ) (answered : Bool)
  | ttl (i : ℕ) (answered : Bool)
  | judge (i : ℕ) (now later : ℤ)
  | cleanup (i : ℕ) (order : List PeerID)
  | remove (i : ℕ)

namespace Upkeep

def new : Upkeep := ⟨newStore, 0, []⟩

def apply (c : Call) (s : Upkeep) : Upkeep := { s with store := (s.store.apply c).1 }

def goOn (i : ℕ) (room : RoomName) (phase : Phase) (s : Upkeep) : Upkeep :=
  { s with checks := s.checks.set i ⟨room, phase⟩ }

/-- The next step of a check. -/
def advance (s : Upkeep) (i : ℕ) (check : Check) : UpkeepAction → Option Upkeep
  | .info _ answered =>
    match check.phase with
    | .listed => some (s.goOn i check.room
        (if answered then .informed (infoAnswer s.store check.room) else .done))
    | _ => none
  | .ttl _ answered =>
    match check.phase with
    | .informed info => some (s.goOn i check.room
        (.timed info (if answered then some (ttlAnswer s.store check.room) else none)))
    | _ => none
  | .judge _ now later =>
    match check.phase with
    | .timed info ttl =>
      some (s.goOn i check.room (if isStale info ttl now later then .stale else .done))
    | _ => none
  | .cleanup _ order =>
    match check.phase with
    | .stale =>
      if Enumerates order (s.store.peers check.room) then
        some (s.goOn i check.room (.removing order))
      else none
    | _ => none
  | .remove _ =>
    match check.phase with
    | .removing (p :: peers) =>
      some ((s.apply (.leave check.room p s.clock)).goOn i check.room (.removing peers))
    | .removing [] =>
      some ((s.apply (.leave check.room "__cleanup__" s.clock)).goOn i check.room .done)
    | _ => none
  | _ => none

def step (s : Upkeep) (a : UpkeepAction) : Option Upkeep :=
  match a with
  | .wait time => if s.clock ≤ time then some { s with clock := time } else none
  | .client c => some (s.apply (c.call s.clock))
  | .list room => some { s with checks := s.checks ++ [⟨room, .listed⟩] }
  | .info i _ | .ttl i _ | .judge i _ _ | .cleanup i _ | .remove i =>
    match s.checks[i]? with
    | some check => s.advance i check a
    | none => none

/-- No room comes to be while the job is about to clean up its name, and the worker's clock is not
ahead of the gateway's. -/
def Undisturbed (s : Upkeep) : UpkeepAction → Prop
  | .client (.join room _ _ _) => (s.store.rooms.lookup room).isNone = true →
      ∀ check ∈ s.checks, check.room = room → check.underWay = false
  | .judge _ now _ => now * 1000000 ≤ s.clock
  | _ => True

instance (s : Upkeep) (a : UpkeepAction) : Decidable (Undisturbed s a) := by
  cases a with
  | client c => cases c <;> unfold Undisturbed <;> infer_instance
  | judge _ now _ => exact inferInstanceAs (Decidable (now * 1000000 ≤ (s.clock : ℤ)))
  | _ => exact inferInstanceAs (Decidable True)

/-- If there is such a room, it has expired. -/
def Gone (s : Upkeep) (room : RoomName) : Prop :=
  ∀ r, s.store.rooms.lookup room = some r → r.expired s.clock = true

/-- If there is such a room, it has the TTL that was answered. -/
def Has (s : Upkeep) (room : RoomName) (ttl : RoomTTL) : Prop :=
  ∀ r, s.store.rooms.lookup room = some r → 0 < ttl.ttlSeconds → 0 < ttl.expiresAt →
    0 < r.ttlSeconds ∧ ttl.expiresAt = unixMilli (r.createdAt + seconds r.ttlSeconds.toNat)

/-- What a check has been answered is still so. -/
def Sound (s : Upkeep) (check : Check) : Prop :=
  match check.phase with
  | .listed | .done => True
  | .informed info => info.peers = 0 → s.Gone check.room
  | .timed info ttl => (info.peers = 0 → s.Gone check.room) ∧ ∀ t ∈ ttl, s.Has check.room t
  | .stale | .removing _ => s.Gone check.room

variable {s s' : Upkeep} {room : RoomName} {check : Check} {a : UpkeepAction}

/-- A room that is there afterwards was there, with the same TTL. -/
def Keeps (s s' : Upkeep) (room : RoomName) : Prop :=
  s.clock ≤ s'.clock ∧ ∀ r', s'.store.rooms.lookup room = some r' →
    ∃ r, s.store.rooms.lookup room = some r ∧ r'.origin = r.origin

theorem Gone.keep (h : s.Gone room) (hkeeps : Keeps s s' room) : s'.Gone room := by
  intro r' hr'
  obtain ⟨r, hr, horigin⟩ := hkeeps.2 r' hr'
  rw [Room.expired_congr horigin]
  exact Room.expired_mono (h r hr) hkeeps.1

theorem Has.keep {ttl : RoomTTL} (h : s.Has room ttl) (hkeeps : Keeps s s' room) :
    s'.Has room ttl := by
  intro r' hr' hpos hexpires
  obtain ⟨r, hr, horigin⟩ := hkeeps.2 r' hr'
  obtain ⟨httl, -, hcreated⟩ := Origin.mk.inj horigin
  rw [httl, hcreated]
  exact h r hr hpos hexpires

theorem Sound.keep (h : s.Sound check) (hkeeps : check.underWay = true → Keeps s s' check.room) :
    s'.Sound check := by
  obtain ⟨room, phase⟩ := check
  cases phase with
  | listed | done => trivial
  | informed info => exact fun hzero => Gone.keep (h hzero) (hkeeps rfl)
  | timed info ttl =>
      exact ⟨fun hzero => (h.1 hzero).keep (hkeeps rfl), fun t ht => (h.2 t ht).keep (hkeeps rfl)⟩
  | stale | removing _ => exact Gone.keep h (hkeeps rfl)

/-! ### What a call leaves -/

theorem lookup_apply_eq_none {store : Store} {c : Call} (hc : c.origin room = none)
    (hset : ¬c.SetsTTL) (h : store.rooms.lookup room = none) :
    (store.apply c).1.rooms.lookup room = none := by
  by_cases hroom : room = c.room
  · cases c with
    | join room' p now | joinWithTTL room' p ttl salt now =>
        obtain rfl : room = room' := hroom
        simp [Call.origin] at hc
    | leave room' p now =>
        obtain rfl : room = room' := hroom
        simp only [Store.apply, Store.leave, h]
    | setNickname room' p nick =>
        obtain rfl : room = room' := hroom
        simp only [Store.apply, Store.setNickname, h]
    | setRoomTTL room' ttl => exact absurd trivial hset
  · rw [Store.lookup_apply_ne hroom]
    exact h

theorem keeps_apply {c : Call} (hset : ¬c.SetsTTL)
    (hc : s.store.rooms.lookup room = none → c.origin room = none) :
    Keeps s (s.apply c) room := by
  refine ⟨Nat.le_refl _, fun r' hr' => ?_⟩
  cases hr : s.store.rooms.lookup room with
  | none =>
      have hnone : (s.apply c).store.rooms.lookup room = none :=
        lookup_apply_eq_none (hc hr) hset hr
      rw [hnone] at hr'
      cases hr'
  | some r =>
      have hne : ((s.store.apply c).1.peers room).Nonempty := by
        have hlookup : (s.store.apply c).1.rooms.lookup room = some r' := hr'
        rw [Store.peers_of_lookup hlookup]
        exact (s.store.apply c).1.occupied room r' hr'
      obtain ⟨r'', hr'', horigin⟩ := Store.origin_apply hset hr hne
      obtain rfl : r' = r'' := Option.some.inj (hr'.symm.trans hr'')
      exact ⟨r, rfl, horigin⟩

theorem keeps_client {c : ClientCall} (hC : Undisturbed s (.client c)) (hcheck : check ∈ s.checks)
    (hway : check.underWay = true) : Keeps s (s.apply (c.call s.clock)) check.room := by
  cases c with
  | join room p ttl salt =>
      refine keeps_apply id fun hnone => ?_
      by_cases hroom : room = check.room
      · subst hroom
        have hidle := hC (Option.isNone_iff_eq_none.mpr hnone) check hcheck rfl
        rw [hway] at hidle
        cases hidle
      · exact if_neg hroom
  | leave room p => exact keeps_apply id fun _ => rfl
  | setNickname room p nick => exact keeps_apply id fun _ => rfl

/-! ### What the answers say -/

/-- A room that is there has members. -/
theorem gone_of_no_peers (h : (infoAnswer s.store room).peers = 0) : s.Gone room := by
  intro r hr
  have hzero : (r.peers.keys.card : ℤ) = 0 := by
    simpa only [infoAnswer, Store.roomInfo, hr] using h
  have hpos := Finset.card_pos.mpr (s.store.occupied room r hr)
  omega

theorem has_ttlAnswer (s : Upkeep) (room : RoomName) : s.Has room (ttlAnswer s.store room) := by
  intro r hr hpos hexpires
  simp only [ttlAnswer, Store.roomTTL, hr] at hpos hexpires ⊢
  exact ⟨hpos, if_pos ⟨trivial, hpos⟩⟩

theorem gone_of_runOut {ttl : Option RoomTTL} {now : ℤ} (hhas : ∀ t ∈ ttl, s.Has room t)
    (h : runOut ttl now = true) (hnow : now * 1000000 ≤ s.clock) : s.Gone room := by
  intro r hr
  obtain ⟨t, rfl⟩ : ∃ t, ttl = some t := by
    cases ttl with
    | none => cases h
    | some t => exact ⟨t, rfl⟩
  have hout : (0 < t.ttlSeconds && 0 < t.expiresAt && t.expiresAt < now : Bool) = true := h
  simp only [Bool.and_eq_true, decide_eq_true_eq] at hout
  obtain ⟨⟨hpos, hexpires⟩, hlt⟩ := hout
  obtain ⟨httl, heq⟩ := hhas t rfl r hr hpos hexpires
  rw [heq, unixMilli] at hlt
  simp only [Room.expired, Bool.and_eq_true, decide_eq_true_eq]
  have hbefore : ((r.createdAt + seconds r.ttlSeconds.toNat : ℕ) : ℤ) < s.clock := by omega
  exact ⟨httl, Int.ofNat_lt.mp hbefore⟩

theorem gone_of_isStale {info : RoomInfo} {ttl : Option RoomTTL} {now later : ℤ}
    (hs : s.Sound ⟨room, .timed info ttl⟩) (h : isStale info ttl now later = true)
    (hnow : now * 1000000 ≤ s.clock) : s.Gone room := by
  rcases Bool.or_eq_true_iff.mp h with hout | hidle
  · exact gone_of_runOut hs.2 hout hnow
  · cases hlast : info.lastActivity with
    | none => simp [hlast] at hidle
    | some t =>
        rw [hlast, Option.any_some, Bool.and_eq_true, decide_eq_true_eq] at hidle
        exact hs.1 hidle.1

/-! ### Runs -/

/-- What all checks have been answered is still so. -/
def AllSound (s : Upkeep) : Prop := ∀ check ∈ s.checks, s.Sound check

theorem AllSound.keep (h : s.AllSound) (hchecks : s'.checks = s.checks)
    (hkeeps : ∀ check ∈ s.checks, check.underWay = true → Keeps s s' check.room) :
    s'.AllSound := by
  intro check hcheck
  rw [hchecks] at hcheck
  exact (h check hcheck).keep (hkeeps check hcheck)

theorem AllSound.goOn (h : s.AllSound) {i : ℕ} {phase : Phase} (hsound : s.Sound ⟨room, phase⟩) :
    (s.goOn i room phase).AllSound := by
  intro check hcheck
  rcases List.mem_or_eq_of_mem_set hcheck with hold | rfl
  · exact h check hold
  · exact hsound

theorem AllSound.advance {i : ℕ} (h : s.AllSound) (hcheck : check ∈ s.checks)
    (hC : Undisturbed s a) (hstep : s.advance i check a = some s') : s'.AllSound := by
  have hsound := h check hcheck
  obtain ⟨room, phase⟩ := check
  have hleave : ∀ p, (s.apply (.leave room p s.clock)).AllSound := fun p =>
    h.keep rfl fun _ _ _ => keeps_apply id fun _ => rfl
  cases a with
  | wait _ | client _ | list _ => cases hstep
  | info _ answered =>
      rw [Upkeep.advance] at hstep
      split at hstep
      · cases hstep
        refine h.goOn ?_
        cases answered with
        | true => exact fun hzero => gone_of_no_peers hzero
        | false => trivial
      · cases hstep
  | ttl _ answered =>
      rw [Upkeep.advance] at hstep
      split at hstep
      · rename_i info hphase
        obtain rfl : phase = .informed info := hphase
        cases hstep
        refine h.goOn ⟨hsound, fun t ht => ?_⟩
        cases answered with
        | true =>
            cases ht
            exact has_ttlAnswer s room
        | false => cases ht
      · cases hstep
  | judge _ now later =>
      rw [Upkeep.advance] at hstep
      split at hstep
      · rename_i info ttl hphase
        obtain rfl : phase = .timed info ttl := hphase
        cases hstep
        refine h.goOn ?_
        split
        · exact gone_of_isStale hsound ‹_› hC
        · trivial
      · cases hstep
  | cleanup _ order =>
      rw [Upkeep.advance] at hstep
      split at hstep
      · rename_i hphase
        obtain rfl : phase = .stale := hphase
        split at hstep
        · cases hstep
          exact h.goOn hsound
        · cases hstep
      · cases hstep
  | remove _ =>
      rw [Upkeep.advance] at hstep
      split at hstep
      · rename_i p peers hphase
        obtain rfl : phase = .removing (p :: peers) := hphase
        cases hstep
        exact (hleave p).goOn (Gone.keep hsound (keeps_apply id fun _ => rfl))
      · cases hstep
        exact (hleave _).goOn trivial
      · cases hstep

theorem AllSound.step (h : s.AllSound) (hC : Undisturbed s a) (hstep : s.step a = some s') :
    s'.AllSound := by
  cases a with
  | wait time =>
      rw [Upkeep.step] at hstep
      split at hstep
      · cases hstep
        exact h.keep rfl fun check _ _ => ⟨‹_›, fun r hr => ⟨r, hr, rfl⟩⟩
      · cases hstep
  | client c =>
      cases hstep
      exact h.keep rfl fun check hcheck hway => keeps_client hC hcheck hway
  | list room =>
      cases hstep
      intro check hcheck
      rcases List.mem_append.mp hcheck with hold | hnew
      · exact h check hold
      · rw [List.mem_singleton.mp hnew]
        trivial
  | info i _ | ttl i _ | judge i _ _ | cleanup i _ | remove i =>
      rw [Upkeep.step] at hstep
      split at hstep
      · exact h.advance (List.mem_of_getElem? ‹_›) hC hstep
      · cases hstep

/-- **The cleanup job removes nobody from a living room.** In every run in which no room comes to
be while the job is about to clean up its name, and the worker's clock is not ahead: as long as a
clean-up has members left to remove, the room is gone or its TTL has run out. -/
theorem cleanup_spares_the_living (hs : ReachableVia step Undisturbed new s)
    (hcheck : check ∈ s.checks) {peers : List PeerID} (hphase : check.phase = .removing peers)
    {r : Room} (hr : s.store.rooms.lookup check.room = some r) : r.expired s.clock = true := by
  have hsound : s.AllSound :=
    hs.invariant (fun _ hcheck => absurd hcheck List.not_mem_nil)
      fun _ _ _ hI hC hstep => hI.step hC hstep
  have hgone := hsound check hcheck
  rw [Sound, hphase] at hgone
  exact hgone r hr

/-- A room runs out of its TTL, and the job cleans it up. -/
def expires : List UpkeepAction :=
  [.client (.join "a" "p" 900 []), .wait (seconds 901), .list "a", .info 0 true, .ttl 0 true,
    .judge 0 901000 901000, .cleanup 0 ["p"]]

theorem cleanup_spares_the_living_expires : ∃ s r, execVia step Undisturbed new expires = some s ∧
    s.store.rooms.lookup "a" = some r ∧ r.expired s.clock = true := by
  have hrun : (execVia step Undisturbed new expires).isSome = true := by decide
  have hroom : (((execVia step Undisturbed new expires).get hrun).store.rooms.lookup "a").isSome =
      true := rfl
  have hcheck : (⟨"a", .removing ["p"]⟩ : Check) ∈
      ((execVia step Undisturbed new expires).get hrun).checks := List.mem_singleton.mpr rfl
  exact ⟨_, _, (Option.some_get hrun).symm, (Option.some_get hroom).symm,
    cleanup_spares_the_living (reachableVia_get hrun) hcheck rfl (Option.some_get hroom).symm⟩

/-- A room goes before the job asks for it, and comes to be again before it is cleaned up. -/
def newborn : List UpkeepAction :=
  [.client (.join "a" "p" 0 []), .list "a", .client (.leave "a" "p"), .info 0 true, .ttl 0 true,
    .judge 0 0 0, .client (.join "a" "q" 0 []), .cleanup 0 ["q"]]

/-- Without the condition on new rooms, the job removes the members of a room that is as new as can
be and has no TTL. -/
theorem newborn_is_emptied : ∃ s check r, exec step new newborn = some s ∧ check ∈ s.checks ∧
    check.phase = .removing ["q"] ∧ s.store.rooms.lookup check.room = some r ∧
    r.expired s.clock = false := by
  have hrun : (exec step new newborn).isSome = true := by decide
  have hroom : (((exec step new newborn).get hrun).store.rooms.lookup "a").isSome = true := rfl
  exact ⟨_, ⟨"a", .removing ["q"]⟩, _, (Option.some_get hrun).symm, List.mem_singleton.mpr rfl, rfl,
    (Option.some_get hroom).symm, rfl⟩

end Upkeep

end TrapChat.Network
