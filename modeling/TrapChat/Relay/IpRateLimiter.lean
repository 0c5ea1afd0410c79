import Mathlib.Data.Finset.Card
import TrapChat.Library.Transition
import TrapChat.Library.Windows

/-!
The relay's limiter of new connections, by IP address. It keeps the times of the
connections it has let pass, and drops those that are a second old: for one address
when it is asked, for all of them when it is pruned.

What is kept of an address are its accepted connections as far as they still count,
so that the limiter is an exact sliding window, whenever it is pruned.
-/

namespace TrapChat.Relay

open Transition Windows

/-- Nanoseconds. -/
abbrev Instant := ℕ

def maxConnPerIpPerSec : ℕ := 10
def maxRateLimiterIps : ℕ := 100000

/-- One second. -/
def window : ℕ := 1000000000

/-- A hash map, with the set of its keys. -/
structure IpRateLimiter (ι : Type*) where
  buckets : ι → Option (List Instant)
  ips : Finset ι
  mem_ips : ∀ ip, ip ∈ ips ↔ (buckets ip).isSome

namespace IpRateLimiter

variable {ι : Type*} [DecidableEq ι]

def new : IpRateLimiter ι where
  buckets := fun _ => none
  ips := ∅
  mem_ips := by simp

/-- `HashMap::insert`. -/
def insert (l : IpRateLimiter ι) (ip : ι) (timestamps : List Instant) : IpRateLimiter ι where
  buckets := Function.update l.buckets ip (some timestamps)
  ips := Insert.insert ip l.ips
  mem_ips := by
    intro other
    rw [Finset.mem_insert, Function.update_apply, l.mem_ips]
    split <;> simp [*]

/-- Whether the connection may pass. A new address is refused where the table is full. -/
def allow (l : IpRateLimiter ι) (ip : ι) (now : Instant) : IpRateLimiter ι × Bool :=
  if ip ∉ l.ips ∧ maxRateLimiterIps ≤ l.ips.card then (l, false)
  else
    let timestamps := recent window now ((l.buckets ip).getD [])
    if maxConnPerIpPerSec ≤ timestamps.length then (l.insert ip timestamps, false)
    else (l.insert ip (timestamps ++ [now]), true)

/-- What pruning leaves of an entry. -/
def pruned (now : Instant) (timestamps : List Instant) : Option (List Instant) :=
  let kept := recent window now timestamps
  if kept = [] then none else some kept

/-- Remove stale timestamps and entries with no recent activity. -/
def prune (l : IpRateLimiter ι) (now : Instant) : IpRateLimiter ι where
  buckets := fun ip => (l.buckets ip).bind (pruned now)
  ips := l.ips.filter fun ip => ((l.buckets ip).bind (pruned now)).isSome
  mem_ips := by
    intro ip
    rw [Finset.mem_filter, l.mem_ips]
    cases l.buckets ip <;> simp

/-- The times that are kept of an address. -/
def timestamps (l : IpRateLimiter ι) (ip : ι) : List Instant := (l.buckets ip).getD []

/-! ### What the operations do to the times -/

variable {l : IpRateLimiter ι} {ip other : ι} {now : Instant}

theorem timestamps_insert (l : IpRateLimiter ι) (ip other : ι) (kept : List Instant) :
    (l.insert ip kept).timestamps other = if other = ip then kept else l.timestamps other := by
  show (Function.update l.buckets ip (some kept) other).getD [] = _
  rw [Function.update_apply]
  split <;> rfl

omit [DecidableEq ι] in
theorem timestamps_prune (l : IpRateLimiter ι) (now : Instant) (ip : ι) :
    (l.prune now).timestamps ip = recent window now (l.timestamps ip) := by
  show ((l.buckets ip).bind (pruned now)).getD [] = recent window now ((l.buckets ip).getD [])
  cases l.buckets ip with
  | none => rfl
  | some kept =>
      rw [Option.bind_some, Option.getD_some, pruned]
      split
      · next hempty => exact hempty.symm
      · rfl

theorem card_insert_le (h : ¬(ip ∉ l.ips ∧ maxRateLimiterIps ≤ l.ips.card))
    (hcard : l.ips.card ≤ maxRateLimiterIps) (kept : List Instant) :
    (l.insert ip kept).ips.card ≤ maxRateLimiterIps := by
  show (Insert.insert ip l.ips).card ≤ _
  by_cases hip : ip ∈ l.ips
  · rwa [Finset.insert_eq_of_mem hip]
  · have hroom : l.ips.card < maxRateLimiterIps := by
      rw [not_and, not_le] at h
      exact h hip
    exact (Finset.card_insert_le ip l.ips).trans hroom

/-- The three ways a call of `allow` goes. -/
inductive Answered (l : IpRateLimiter ι) (ip : ι) (now : Instant) : IpRateLimiter ι × Bool → Prop
  | full (hnew : ip ∉ l.ips) (hfull : maxRateLimiterIps ≤ l.ips.card) : Answered l ip now (l, false)
  | limited (hroom : ¬(ip ∉ l.ips ∧ maxRateLimiterIps ≤ l.ips.card))
      (hten : maxConnPerIpPerSec ≤ (recent window now (l.timestamps ip)).length) :
      Answered l ip now (l.insert ip (recent window now (l.timestamps ip)), false)
  | passed (hroom : ¬(ip ∉ l.ips ∧ maxRateLimiterIps ≤ l.ips.card))
      (hten : (recent window now (l.timestamps ip)).length < maxConnPerIpPerSec) :
      Answered l ip now (l.insert ip (recent window now (l.timestamps ip) ++ [now]), true)

theorem answered (l : IpRateLimiter ι) (ip : ι) (now : Instant) :
    Answered l ip now (l.allow ip now) := by
  rw [allow]
  split
  · next h => exact .full h.1 h.2
  · next h =>
    dsimp only
    split
    · next hten => exact .limited h hten
    · next hten => exact .passed h (Nat.lt_of_not_le hten)

/-- **The answer** is read off the recent times. -/
theorem allow_eq_false_iff : (l.allow ip now).2 = false ↔
    maxConnPerIpPerSec ≤ (recent window now (l.timestamps ip)).length ∨
      ip ∉ l.ips ∧ maxRateLimiterIps ≤ l.ips.card := by
  have h := answered l ip now
  generalize l.allow ip now = res at h
  cases h with
  | full hnew hfull => exact iff_of_true rfl (.inr ⟨hnew, hfull⟩)
  | limited hroom hten => exact iff_of_true rfl (.inl hten)
  | passed hroom hten =>
      refine iff_of_false (by simp) ?_
      rintro (hten' | hfull)
      · exact absurd hten' (Nat.not_le.mpr hten)
      · exact hroom hfull

end IpRateLimiter

/-! ### Runs -/

/-- The limiter, the time of its last call, and the connections that it has let pass. -/
structure IpRun (ι : Type*) where
  limiter : IpRateLimiter ι
  clock : Instant
  accepted : List (ι × Instant)

inductive IpEvent (ι : Type*)
  | allow (ip : ι) (now : Instant)
  | prune (now : Instant)

namespace IpRun

variable {ι : Type*} [DecidableEq ι]

def new : IpRun ι := ⟨.new, 0, []⟩

/-- When connections of an address have passed. -/
def times (w : IpRun ι) (ip : ι) : List Instant :=
  (w.accepted.filter fun entry => entry.1 = ip).map Prod.snd

/-- One call. Time does not run backwards. -/
def step (w : IpRun ι) : IpEvent ι → Option (IpRun ι)
  | .allow ip now =>
    if w.clock ≤ now then
      let res := w.limiter.allow ip now
      some ⟨res.1, now, if res.2 then w.accepted ++ [(ip, now)] else w.accepted⟩
    else none
  | .prune now =>
    if w.clock ≤ now then some { w with limiter := w.limiter.prune now, clock := now } else none

theorem allow_step {w w' : IpRun ι} {ip : ι} {now : Instant}
    (h : w.step (.allow ip now) = some w') :
    w.clock ≤ now ∧ w' = ⟨(w.limiter.allow ip now).1, now,
      if (w.limiter.allow ip now).2 then w.accepted ++ [(ip, now)] else w.accepted⟩ := by
  rw [step] at h
  split at h
  · next hnow => exact ⟨hnow, (Option.some.inj h).symm⟩
  · cases h

theorem prune_step {w w' : IpRun ι} {now : Instant} (h : w.step (.prune now) = some w') :
    w.clock ≤ now ∧ w' = { w with limiter := w.limiter.prune now, clock := now } := by
  rw [step] at h
  split at h
  · next hnow => exact ⟨hnow, (Option.some.inj h).symm⟩
  · cases h

/-- What is kept of an address are the times at which it has passed, as far as they still
count; and of those no window holds more than its limit. -/
structure Tracks (w : IpRun ι) : Prop where
  kept : ∀ ip now, w.clock ≤ now →
    recent window now (w.limiter.timestamps ip) = recent window now (w.times ip)
  past : ∀ ip, ∀ u ∈ w.times ip, u ≤ w.clock
  within : ∀ ip start, within start window (w.times ip) ≤ maxConnPerIpPerSec
  table : w.limiter.ips.card ≤ maxRateLimiterIps

theorem times_concat (w : IpRun ι) (ip other : ι) (now : Instant) (l : IpRateLimiter ι) :
    times ⟨l, now, w.accepted ++ [(ip, now)]⟩ other =
      if other = ip then w.times other ++ [now] else w.times other := by
  rw [times, times, List.filter_append, List.map_append]
  by_cases h : other = ip
  · simp [h]
  · simp [h, Ne.symm h]

theorem tracks_new : Tracks (new : IpRun ι) :=
  ⟨fun _ _ _ => rfl, by simp [times, new], by simp [times, new], Nat.zero_le _⟩

variable {w w' : IpRun ι}

/-- Time passes, and the limiter drops what is no longer recent. -/
theorem Tracks.drop (h : Tracks w) {now : Instant} (hnow : w.clock ≤ now) {l : IpRateLimiter ι}
    (hkept : ∀ ip, l.timestamps ip = w.limiter.timestamps ip ∨
      l.timestamps ip = recent window now (w.limiter.timestamps ip))
    (htable : l.ips.card ≤ maxRateLimiterIps) : Tracks ⟨l, now, w.accepted⟩ where
  kept ip later hlater := by
    have hold := h.kept ip later (hnow.trans hlater)
    obtain hsame | hdropped := hkept ip
    · show recent window later (l.timestamps ip) = recent window later (w.times ip)
      rw [hsame, hold]
    · show recent window later (l.timestamps ip) = recent window later (w.times ip)
      rw [hdropped, recent_recent hlater, hold]
  past ip u hu := (h.past ip u hu).trans hnow
  within := h.within
  table := htable

/-- A connection passes. -/
theorem Tracks.pass (h : Tracks w) {ip : ι} {now : Instant} (hnow : w.clock ≤ now)
    (hroom : ¬(ip ∉ w.limiter.ips ∧ maxRateLimiterIps ≤ w.limiter.ips.card))
    (hten : (recent window now (w.limiter.timestamps ip)).length < maxConnPerIpPerSec) :
    Tracks ⟨w.limiter.insert ip (recent window now (w.limiter.timestamps ip) ++ [now]), now,
      w.accepted ++ [(ip, now)]⟩ where
  kept other later hlater := by
    have hold := h.kept other later (hnow.trans hlater)
    rw [times_concat, IpRateLimiter.timestamps_insert]
    by_cases hother : other = ip
    · rw [if_pos hother, if_pos hother, recent_append, recent_append, ← hother,
        recent_recent hlater, hold]
    · rw [if_neg hother, if_neg hother, hold]
  past other u hu := by
    rw [times_concat] at hu
    split at hu
    · obtain hold | hnew := List.mem_append.mp hu
      · exact (h.past other u hold).trans hnow
      · exact (List.mem_singleton.mp hnew).le
    · exact (h.past other u hu).trans hnow
  within other start := by
    rw [times_concat]
    split
    · next hother =>
      -- the times that are recent now are fewer than ten, and a window that holds now has no others
      rw [h.kept ip now hnow, ← hother] at hten
      exact within_concat_le (fun u hu => (h.past other u hu).trans hnow) (h.within other start)
        hten
    · exact h.within other start
  table := IpRateLimiter.card_insert_le hroom h.table _

theorem Tracks.step (h : Tracks w) {e : IpEvent ι} (hstep : w.step e = some w') : Tracks w' := by
  cases e with
  | allow ip now =>
      obtain ⟨hnow, rfl⟩ := allow_step hstep
      have hanswered := IpRateLimiter.answered w.limiter ip now
      generalize w.limiter.allow ip now = res at hanswered
      cases hanswered with
      | full hnew hfull => exact h.drop hnow (fun _ => .inl rfl) h.table
      | limited hroom hten =>
          refine h.drop hnow (fun other => ?_) (IpRateLimiter.card_insert_le hroom h.table _)
          rw [IpRateLimiter.timestamps_insert]
          by_cases hother : other = ip
          · rw [if_pos hother, hother]
            exact .inr rfl
          · rw [if_neg hother]
            exact .inl rfl
      | passed hroom hten => exact h.pass hnow hroom hten
  | prune now =>
      obtain ⟨hnow, rfl⟩ := prune_step hstep
      refine h.drop hnow (fun ip => .inr (IpRateLimiter.timestamps_prune _ _ _)) ?_
      exact (Finset.card_filter_le _ _).trans h.table

theorem tracks_of_reachable (hw : Reachable step new w) : Tracks w :=
  hw.invariant tracks_new fun _ _ _ h _ hstep => h.step hstep

/-! ### The window -/

/-- The limiter is an exact sliding window, of at most ten connections of an address in a
second, and pruning it is not noticed by an address that keeps its entry. -/
structure SlidingWindow (w : IpRun ι) : Prop where
  refuses : ∀ ip now, w.clock ≤ now → ((w.limiter.allow ip now).2 = false ↔
    maxConnPerIpPerSec ≤ (recent window now (w.times ip)).length ∨
      ip ∉ w.limiter.ips ∧ maxRateLimiterIps ≤ w.limiter.ips.card)
  within : ∀ ip start, within start window (w.times ip) ≤ maxConnPerIpPerSec
  table : w.limiter.ips.card ≤ maxRateLimiterIps
  prune_answer : ∀ ip now later, w.clock ≤ now → now ≤ later → ip ∈ (w.limiter.prune now).ips →
    ((w.limiter.prune now).allow ip later).2 = (w.limiter.allow ip later).2
  prune_keeps : ∀ ip now, w.clock ≤ now →
    (w.limiter.prune now).timestamps ip = recent window now (w.times ip)

/-- **The relay's limiter is an exact sliding window**, after every run of calls and
prunings. -/
theorem slidingWindow_of_reachable (hw : Reachable step new w) : SlidingWindow w := by
  have h := tracks_of_reachable hw
  refine ⟨fun ip now hnow => ?_, h.within, h.table, fun ip now later hnow hlater hip => ?_,
    fun ip now hnow => ?_⟩
  · rw [IpRateLimiter.allow_eq_false_iff, h.kept ip now hnow]
  · have hkept : ip ∈ w.limiter.ips := Finset.mem_of_mem_filter ip hip
    rw [Bool.eq_iff_iff, ← not_iff_not, Bool.not_eq_true, Bool.not_eq_true,
      IpRateLimiter.allow_eq_false_iff, IpRateLimiter.allow_eq_false_iff,
      IpRateLimiter.timestamps_prune, recent_recent hlater]
    simp [hip, hkept]
  · rw [IpRateLimiter.timestamps_prune, h.kept ip now hnow]

/-- Ten connections of one address within a second, and an eleventh. -/
theorem slidingWindow_eleven :
    SlidingWindow ((exec step (new : IpRun ℕ)
      ((List.range 11).map fun i => .allow 7 (i * 1000))).get (by decide)) :=
  slidingWindow_of_reachable (reachable_get (by decide))

end IpRun
end TrapChat.Relay
