import Mathlib.Data.List.Basic
import TrapChat.Library.Transition

/-!
Event handlers that overlap. A handler reads the shared state when its event comes,
is suspended one or more times, and writes to the shared state when it ends. Any
suspended handler may be the next to continue. `process` is the other semantics, in
which a handler runs to its end before the next event is taken.

A handler keeps what it has read, so what it will do at its end is fixed with its
start. Two conditions make the semantics agree: an event finds the shared state as the
suspended handlers will leave it, as far as its handler reads it, and the handlers end
in the order of their events (`InOrder`).
-/

namespace Overlap

open Transition

/-- The handlers of the events `ε` on the shared state `σ`. `resume` is one continuation: the
handler is suspended again, or it ends with a write. -/
structure Handlers (σ ε η : Type*) where
  start : σ → ε → Option η
  resume : η → η ⊕ (σ → σ)
  /-- The number of times that a handler can be suspended again. -/
  rank : η → ℕ
  rank_lt : ∀ {h h'}, resume h = .inl h' → rank h' < rank h

structure State (σ ε η : Type*) where
  shared : σ
  /-- In the order of their events. -/
  suspended : List η
  /-- The events, with what their handlers have been started as. Nothing reads it. -/
  taken : List (ε × Option η)

inductive Action (ε : Type*)
  | take (event : ε)
  | resume (n : ℕ)
  deriving DecidableEq

variable {σ ε η : Type*} (H : Handlers σ ε η)

namespace State

def new (x : σ) : State σ ε η := ⟨x, [], []⟩

def events (s : State σ ε η) : List ε := s.taken.map Prod.fst

def take (s : State σ ε η) (e : ε) : State σ ε η where
  shared := s.shared
  suspended := s.suspended ++ (H.start s.shared e).toList
  taken := s.taken ++ [(e, H.start s.shared e)]

/-- The suspended handler `h` in place `n` continues. -/
def resume (s : State σ ε η) (n : ℕ) (h : η) : State σ ε η :=
  match H.resume h with
  | .inl h' => { s with suspended := s.suspended.set n h' }
  | .inr f => { s with shared := f s.shared, suspended := s.suspended.eraseIdx n }

end State

def step (s : State σ ε η) : Action ε → Option (State σ ε η)
  | .take e => some (s.take H e)
  | .resume n => s.suspended[n]?.map (s.resume H n)

/-! ### Running to completion -/

namespace Handlers

/-- The write of a handler that is suspended at most `fuel` more times. -/
def finishIn : ℕ → η → σ → σ
  | 0, h => Sum.elim (fun _ => id) id (H.resume h)
  | fuel + 1, h => Sum.elim (fun h' => finishIn fuel h') id (H.resume h)

/-- What a handler does to the shared state from here to its end. -/
def finish (h : η) : σ → σ := H.finishIn (H.rank h) h

def process (x : σ) (e : ε) : σ :=
  match H.start x e with
  | none => x
  | some h => H.finish h x

/-- The shared state after the events, one after the other. -/
def sequential (x : σ) (es : List ε) : σ := es.foldl H.process x

/-- What the handlers of the events are started as, one event after the other. -/
def starts : σ → List ε → List (ε × Option η)
  | _, [] => []
  | x, e :: es => (e, H.start x e) :: starts (H.process x e) es

variable {H}

/-- Fuel beyond the rank is not used. -/
theorem finishIn_eq {m n : ℕ} {h : η} (hm : H.rank h ≤ m) (hn : H.rank h ≤ n) :
    H.finishIn m h = H.finishIn n h := by
  induction m generalizing n h with
  | zero =>
      cases hr : H.resume h with
      | inl h' =>
          have hlt := H.rank_lt hr
          omega
      | inr f => cases n <;> simp [finishIn, hr]
  | succ m ih =>
      cases hr : H.resume h with
      | inl h' =>
          have hlt := H.rank_lt hr
          cases n with
          | zero => omega
          | succ n =>
              simp only [finishIn, hr, Sum.elim_inl]
              exact ih (by omega) (by omega)
      | inr f => cases n <;> simp [finishIn, hr]

theorem finish_of_ends {h : η} {f : σ → σ} (hr : H.resume h = .inr f) : H.finish h = f := by
  rw [finish]
  cases H.rank h <;> simp [finishIn, hr]

theorem finish_of_suspends {h h' : η} (hr : H.resume h = .inl h') : H.finish h = H.finish h' := by
  have hlt := H.rank_lt hr
  obtain ⟨m, hm⟩ := Nat.exists_eq_succ_of_ne_zero (Nat.ne_zero_of_lt hlt)
  rw [finish, hm, finishIn, hr, Sum.elim_inl]
  exact finishIn_eq (by omega) (Nat.le_refl _)

/-- **The induction rule.** What holds of a write at the end of a handler, and with that of
what the handler is suspended as, holds of every handler and its write. -/
theorem finish_induction {P : η → (σ → σ) → Prop} (ends : ∀ h f, H.resume h = .inr f → P h f)
    (suspends : ∀ h h' f, H.resume h = .inl h' → P h' f → P h f) (h : η) : P h (H.finish h) := by
  induction hk : H.rank h using Nat.strongRecOn generalizing h with
  | _ k ih =>
      subst hk
      cases hr : H.resume h with
      | inl h' =>
          rw [finish_of_suspends hr]
          exact suspends h h' _ hr (ih _ (H.rank_lt hr) h' rfl)
      | inr f =>
          rw [finish_of_ends hr]
          exact ends h f hr

@[simp] theorem sequential_nil (x : σ) : H.sequential x [] = x := rfl

@[simp] theorem sequential_append (x : σ) (es es' : List ε) :
    H.sequential x (es ++ es') = H.sequential (H.sequential x es) es' :=
  List.foldl_append ..

@[simp] theorem sequential_singleton (x : σ) (e : ε) : H.sequential x [e] = H.process x e := rfl

theorem starts_concat (x : σ) (es : List ε) (e : ε) :
    H.starts x (es ++ [e]) = H.starts x es ++ [(e, H.start (H.sequential x es) e)] := by
  induction es generalizing x with
  | nil => rfl
  | cons e' es ih =>
      rw [List.cons_append, starts, starts, ih, List.cons_append]
      rfl

end Handlers

/-! ### The shared state that the suspended handlers leave -/

namespace State

/-- The shared state once the suspended handlers have ended, in their order. -/
def settled (s : State σ ε η) : σ := s.suspended.foldl (fun x h => H.finish h x) s.shared

end State

/-- The handler of an event reads what it would read once the suspended ones have ended,
and a handler that ends is the oldest. -/
def InOrder (s : State σ ε η) : Action ε → Prop
  | .take e => H.start s.shared e = H.start (s.settled H) e
  | .resume n => n = 0 ∨ ∀ h ∈ s.suspended[n]?, (H.resume h).isLeft = true

variable {H}

@[simp] theorem settled_new (x : σ) : (State.new x : State σ ε η).settled H = x := rfl

theorem settled_of_suspended_nil {s : State σ ε η} (h : s.suspended = []) :
    s.settled H = s.shared := by
  rw [State.settled, h]
  rfl

theorem settled_take {s : State σ ε η} {e : ε}
    (h : H.start s.shared e = H.start (s.settled H) e) :
    (s.take H e).settled H = H.process (s.settled H) e := by
  rw [State.settled, State.take, List.foldl_append, h, Handlers.process]
  cases H.start (s.settled H) e with
  | none => rfl
  | some _ => rfl

/-- A handler that is suspended again does what it was going to do. -/
theorem settled_set {s : State σ ε η} {n : ℕ} {h h' : η} (hn : s.suspended[n]? = some h)
    (hr : H.resume h = .inl h') :
    { s with suspended := s.suspended.set n h' }.settled H = s.settled H := by
  obtain ⟨x, handlers, taken⟩ := s
  simp only [State.settled] at hn ⊢
  induction handlers generalizing x n with
  | nil => simp at hn
  | cons h₀ handlers ih =>
      cases n with
      | zero =>
          cases Option.some.inj hn
          rw [List.set_cons_zero, List.foldl_cons, List.foldl_cons,
            Handlers.finish_of_suspends hr]
      | succ n =>
          rw [List.set_cons_succ, List.foldl_cons, List.foldl_cons]
          exact ih (H.finish h₀ x) hn

theorem settled_resume {s : State σ ε η} {n : ℕ} {h : η} (hn : s.suspended[n]? = some h)
    (hC : n = 0 ∨ (H.resume h).isLeft = true) :
    (s.resume H n h).settled H = s.settled H := by
  rw [State.resume]
  cases hr : H.resume h with
  | inl h' => exact settled_set hn hr
  | inr f =>
      -- the oldest: its write is the first of the fold
      obtain rfl : n = 0 := hC.resolve_right (by simp [hr])
      obtain ⟨x, handlers, taken⟩ := s
      cases handlers with
      | nil => simp at hn
      | cons h₀ handlers =>
          cases Option.some.inj hn
          simp only [State.settled, List.eraseIdx_cons_zero, List.foldl_cons,
            Handlers.finish_of_ends hr]

@[simp] theorem resume_taken (s : State σ ε η) (n : ℕ) (h : η) :
    (s.resume H n h).taken = s.taken := by
  rw [State.resume]
  split
  · rfl
  · rfl

/-! ### Refinement -/

/-- The state is that of the events one after the other, but for the handlers that are
suspended. -/
structure Refines (H : Handlers σ ε η) (x : σ) (s : State σ ε η) : Prop where
  settled : s.settled H = H.sequential x s.events
  taken : s.taken = H.starts x s.events

theorem refines_new (x : σ) : Refines H x (State.new x) := ⟨rfl, rfl⟩

theorem Refines.step {x : σ} {s s' : State σ ε η} {a : Action ε} (hs : Refines H x s)
    (hC : InOrder H s a) (hstep : step H s a = some s') : Refines H x s' := by
  cases a with
  | take e =>
      cases hstep
      have hevents : (s.take H e).events = s.events ++ [e] := by
        simp [State.events, State.take]
      constructor
      · rw [settled_take hC, hs.settled, hevents, Handlers.sequential_append,
          Handlers.sequential_singleton]
      · rw [hevents, Handlers.starts_concat, ← hs.settled, ← hC, ← hs.taken]
        rfl
  | resume n =>
      obtain ⟨h, hn, rfl⟩ := Option.map_eq_some_iff.mp hstep
      have hevents : (s.resume H n h).events = s.events := by
        rw [State.events, resume_taken, State.events]
      constructor
      · rw [hevents, settled_resume hn (hC.imp_right fun hleft => hleft h hn), hs.settled]
      · rw [hevents, resume_taken, hs.taken]

/-- **Handlers that are in order refine the sequential ones.** -/
theorem refines_of_reachable {x : σ} {s : State σ ε η}
    (hs : ReachableVia (step H) (InOrder H) (State.new x) s) : Refines H x s :=
  hs.invariant (refines_new x) fun _ _ _ => Refines.step

end Overlap
