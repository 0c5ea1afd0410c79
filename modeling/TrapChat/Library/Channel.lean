import Mathlib.Data.List.Basic

/-!
A buffered channel: a queue of at most `cap` values, which can be closed. A send
that does not wait finds room, finds none, or finds the channel closed, which is
a panic. A receive takes the first value, also of a closed channel, and waits at
an open channel that is empty.
-/

structure Channel (α : Type*) (cap : ℕ) where
  buffer : List α
  closed : Bool
  within : buffer.length ≤ cap

namespace Channel

variable {α : Type*} {cap : ℕ}

def make : Channel α cap := ⟨[], false, Nat.zero_le cap⟩

/-- What a send that does not wait comes to. -/
inductive Sent (α : Type*) (cap : ℕ)
  | accepted (c : Channel α cap)
  | full
  | panic

def trySend (c : Channel α cap) (a : α) : Sent α cap :=
  if c.closed = true then .panic
  else if h : c.buffer.length < cap then
    .accepted ⟨c.buffer ++ [a], false, by
      rw [List.length_append, List.length_singleton]
      exact h⟩
  else .full

/-- What a receive finds. -/
inductive Received (α : Type*) (cap : ℕ)
  | value (a : α) (c : Channel α cap)
  | closed
  | waits

def receive : Channel α cap → Received α cap
  | ⟨a :: rest, closed, h⟩ =>
    .value a ⟨rest, closed, Nat.le_trans (Nat.le_succ rest.length) h⟩
  | ⟨[], true, _⟩ => .closed
  | ⟨[], false, _⟩ => .waits

/-- `none` is the panic of a second close. -/
def close (c : Channel α cap) : Option (Channel α cap) :=
  if c.closed = true then none else some { c with closed := true }

variable {c c' : Channel α cap} {a : α}

theorem trySend_accepted (h : c.trySend a = .accepted c') :
    c.closed = false ∧ c'.closed = false ∧ c'.buffer = c.buffer ++ [a] := by
  rw [trySend] at h
  split at h
  · cases h
  · rename_i hopen
    split at h
    · cases h
      exact ⟨Bool.eq_false_iff.mpr hopen, rfl, rfl⟩
    · cases h

theorem trySend_full (h : c.trySend a = .full) : c.closed = false ∧ c.buffer.length = cap := by
  rw [trySend] at h
  split at h
  · cases h
  · rename_i hopen
    split at h
    · cases h
    · rename_i hroom
      exact ⟨Bool.eq_false_iff.mpr hopen, Nat.le_antisymm c.within (Nat.not_lt.mp hroom)⟩

theorem receive_value (h : c.receive = .value a c') :
    c'.closed = c.closed ∧ c.buffer = a :: c'.buffer := by
  obtain ⟨buffer, closed, hwithin⟩ := c
  cases buffer with
  | nil => cases closed <;> cases h
  | cons b rest =>
      cases h
      exact ⟨rfl, rfl⟩

theorem receive_closed (h : c.receive = .closed) : c.closed = true ∧ c.buffer = [] := by
  obtain ⟨buffer, closed, hwithin⟩ := c
  cases buffer with
  | nil =>
      cases closed with
      | false => cases h
      | true => exact ⟨rfl, rfl⟩
  | cons b rest => cases h

theorem receive_waits (h : c.receive = .waits) : c.closed = false ∧ c.buffer = [] := by
  obtain ⟨buffer, closed, hwithin⟩ := c
  cases buffer with
  | nil =>
      cases closed with
      | false => exact ⟨rfl, rfl⟩
      | true => cases h
  | cons b rest => cases h

theorem close_some (h : c.close = some c') :
    c.closed = false ∧ c'.closed = true ∧ c'.buffer = c.buffer := by
  rw [close] at h
  split at h
  · cases h
  · rename_i hopen
    cases h
    exact ⟨Bool.eq_false_iff.mpr hopen, rfl, rfl⟩

/-! ### First in, first out -/

/-- What has been accepted is what has been received, and after it what waits. -/
def Carries (accepted received : List α) (c : Channel α cap) : Prop :=
  accepted = received ++ c.buffer

variable {accepted received : List α}

theorem Carries.make : Carries [] [] (Channel.make : Channel α cap) := rfl

theorem Carries.trySend (h : Carries accepted received c) (hsend : c.trySend a = .accepted c') :
    Carries (accepted ++ [a]) received c' := by
  rw [Carries, (trySend_accepted hsend).2.2, ← List.append_assoc, ← h]

theorem Carries.receive (h : Carries accepted received c) (hrecv : c.receive = .value a c') :
    Carries accepted (received ++ [a]) c' := by
  rw [Carries, List.append_assoc, List.singleton_append, ← (receive_value hrecv).2]
  exact h

theorem Carries.close (h : Carries accepted received c) (hclose : c.close = some c') :
    Carries accepted received c' := by
  rw [Carries, (close_some hclose).2.2]
  exact h

/-- All but what fits the channel has been received. -/
theorem Carries.length_le (h : Carries accepted received c) :
    accepted.length ≤ received.length + cap := by
  rw [h, List.length_append]
  exact Nat.add_le_add_left c.within _

end Channel
