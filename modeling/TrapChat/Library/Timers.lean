import Mathlib.Data.List.Basic

/-!
The timers of an event loop. A timer has a handle, under which it can be cleared, and a
time at which its callback is due; the loop may run a callback later than that, never
earlier.
-/

namespace Timers

/-- The clock, in milliseconds, the next handle, and the timers that are running. -/
structure Loop where
  clock : ℕ
  next : ℕ
  intervals : List (ℕ × ℕ)
  timeouts : List (ℕ × ℕ)
  deriving DecidableEq

/-- Handles are truthy. -/
def Loop.new : Loop := ⟨0, 1, [], []⟩

/-- The timers without one handle. -/
def cleared (handle : ℕ) (timers : List (ℕ × ℕ)) : List (ℕ × ℕ) :=
  timers.filter fun t => t.1 ≠ handle

/-- The callback of the timer may run. -/
def Due (clock handle : ℕ) (timers : List (ℕ × ℕ)) : Prop :=
  ∃ t ∈ timers, t.1 = handle ∧ t.2 ≤ clock

instance (clock handle : ℕ) (timers : List (ℕ × ℕ)) : Decidable (Due clock handle timers) :=
  inferInstanceAs (Decidable (∃ t ∈ timers, _))

namespace Loop

def setInterval (l : Loop) (delay : ℕ) : Loop :=
  { l with next := l.next + 1, intervals := l.intervals ++ [(l.next, l.clock + delay)] }

def setTimeout (l : Loop) (delay : ℕ) : Loop :=
  { l with next := l.next + 1, timeouts := l.timeouts ++ [(l.next, l.clock + delay)] }

def clearInterval (l : Loop) (handle : ℕ) : Loop :=
  { l with intervals := cleared handle l.intervals }

def clearTimeout (l : Loop) (handle : ℕ) : Loop :=
  { l with timeouts := cleared handle l.timeouts }

/-- An interval has run its callback, and is due again. -/
def reschedule (l : Loop) (handle delay : ℕ) : Loop :=
  { l with
    intervals := l.intervals.map fun t => if t.1 = handle then (handle, l.clock + delay) else t }

/-- Time passes. -/
def wait (l : Loop) (ms : ℕ) : Loop := { l with clock := l.clock + ms }

end Loop

variable {timers : List (ℕ × ℕ)} {handle : ℕ}

/-- The timers of an object that holds the handle of the only one it has running. -/
def HeldBy (held : Option ℕ) (timers : List (ℕ × ℕ)) : Prop := timers.map Prod.fst = held.toList

theorem HeldBy.nil (h : HeldBy none timers) : timers = [] := List.map_eq_nil_iff.mp h

theorem HeldBy.length_le {held : Option ℕ} (h : HeldBy held timers) : timers.length ≤ 1 := by
  rw [← List.length_map Prod.fst, h]
  exact Option.length_toList_le

/-- A handle that is held is that of a timer. -/
theorem HeldBy.exists_mem (h : HeldBy (some handle) timers) : ∃ t ∈ timers, t.1 = handle := by
  have hmem : handle ∈ timers.map Prod.fst := by
    rw [h]
    exact List.mem_singleton_self handle
  exact List.mem_map.mp hmem

/-- Clearing the timer that is held leaves none. -/
theorem HeldBy.cleared (h : HeldBy (some handle) timers) : cleared handle timers = [] := by
  refine List.filter_eq_nil_iff.mpr fun t ht => ?_
  have hfst : t.1 ∈ timers.map Prod.fst := List.mem_map_of_mem ht
  rw [h] at hfst
  simpa using hfst

/-- A callback that runs is that of the timer that is held. -/
theorem HeldBy.of_due {held : Option ℕ} {clock : ℕ} (h : HeldBy held timers)
    (hdue : Due clock handle timers) : held = some handle := by
  obtain ⟨t, ht, rfl, -⟩ := hdue
  have hfst : t.1 ∈ timers.map Prod.fst := List.mem_map_of_mem ht
  rw [h] at hfst
  exact Option.mem_toList.mp hfst

end Timers
