import TrapChat.Library.Custody
import TrapChat.Library.Potential
import TrapChat.Network.Federation

/-!
The connectors of a gateway's relay instances: `connectRelayInstance`, one goroutine for each
instance, which dials, reads until the connection fails, and dials again after a delay;
`forwardToRelay`, called by any goroutine; and `stop`, which closes `stopCh` and then, instance
by instance, the connections it finds.

A step is one critical section, one channel operation, one call of the network or the passing
of time. Where a `select` finds both of its channels ready it takes either one. What the dials,
the reads and the writes have come to is kept beside the fields of the server.
-/

namespace TrapChat.Gateway

open Storage Protocol Network Transition

/-- `time.Second`. -/
def second : ℕ := 1000000000

def maxBackoff : ℕ := 30 * second

/-- A connection that `Dial` has returned. -/
abbrev RelayConn := ℕ

/-- Where `connectRelayInstance` is. The two delays end at a time. -/
inductive LinkPhase
  | top
  | dialing
  | retrying (due : ℕ)
  | connected (c : RelayConn)
  | legacy (c : RelayConn)
  | reading (c : RelayConn)
  | broadcasting (c : RelayConn) (env : Envelope)
  | clearing (c : RelayConn)
  | clearingLegacy (c : RelayConn)
  | closing (c : RelayConn)
  | checking
  | pausing (due : ℕ)
  | returned

namespace LinkPhase

/-- The connection that the connector has in hand. -/
def current : LinkPhase → Option RelayConn
  | .connected c | .legacy c | .reading c | .broadcasting c _ | .clearing c | .clearingLegacy c
  | .closing c => some c
  | _ => none

/-- What `ri.conn` is, and for the first instance `relayConn`. -/
def held : LinkPhase → Option RelayConn
  | .legacy c | .reading c | .broadcasting c _ | .clearing c => some c
  | _ => none

def legacyHeld : LinkPhase → Option RelayConn
  | .reading c | .broadcasting c _ | .clearing c | .clearingLegacy c => some c
  | _ => none

/-- Where only the connector of the first instance is. -/
def isLegacy : LinkPhase → Bool
  | .legacy _ | .clearingLegacy _ => true
  | _ => false

/-- The envelope that has been read and not been broadcast. -/
def pending : LinkPhase → List Envelope
  | .broadcasting _ env => [env]
  | _ => []

end LinkPhase

/-- A `relayInstance` and its connector. -/
structure RelayInstance where
  conn : Option RelayConn
  phase : LinkPhase
  backoff : ℕ
  /-- The dials, those that have failed since one succeeded, and when the last one did. -/
  dials : ℕ
  failures : ℕ
  failedAt : ℕ
  /-- The envelopes among the messages read, and those broadcast. -/
  read : List Envelope
  broadcasts : List Envelope

def RelayInstance.new : RelayInstance := ⟨none, .top, second, 0, 0, 0, [], []⟩

/-- What a step of a connector does to the server. -/
inductive LinkEffect
  | none
  | opens (c : RelayConn)
  | legacy (conn : Option RelayConn)
  | closes (c : RelayConn)

inductive ConnectorAction
  | check
  | dialed (c : RelayConn)
  | dialFailed
  | retry
  | setConn
  | setLegacy
  /-- A message is read; `none` is one that is no envelope. -/
  | read (env : Option Envelope)
  | broadcast
  | readError
  | clearConn
  | clearLegacy
  | closeConn
  | checkStop
  | resume
  /-- A delay ends because `stopCh` is closed. -/
  | stopped

/-- A step other than the reading of messages. -/
def ConnectorAction.ends : ConnectorAction → Bool
  | .read _ | .broadcast => false
  | _ => true

/-- `backoff *= 2`, capped. -/
def doubled (backoff : ℕ) : ℕ := if maxBackoff < backoff * 2 then maxBackoff else backoff * 2

/-- A step of the connector of an instance; the first instance is also the legacy one. -/
def RelayInstance.step (first stopCh : Bool) (clock : ℕ) (ri : RelayInstance) :
    ConnectorAction → LinkPhase → Option (RelayInstance × LinkEffect)
  | .check, .top =>
    some (if stopCh = true then { ri with phase := .returned }
      else { ri with phase := .dialing, dials := ri.dials + 1 }, .none)
  | .dialed c, .dialing =>
    some ({ ri with phase := .connected c, backoff := second, failures := 0 }, .opens c)
  | .dialFailed, .dialing =>
    some ({ ri with
      phase := .retrying (clock + ri.backoff)
      failures := ri.failures + 1
      failedAt := clock }, .none)
  | .retry, .retrying due =>
    if due ≤ clock then some ({ ri with phase := .top, backoff := doubled ri.backoff }, .none)
    else none
  | .setConn, .connected c =>
    some ({ ri with
      conn := some c
      phase := if first = true then .legacy c else .reading c }, .none)
  | .setLegacy, .legacy c => some ({ ri with phase := .reading c }, .legacy (some c))
  | .read none, .reading _ => some (ri, .none)
  | .read (some env), .reading c =>
    some ({ ri with phase := .broadcasting c env, read := ri.read ++ [env] }, .none)
  | .broadcast, .broadcasting c env =>
    some ({ ri with phase := .reading c, broadcasts := ri.broadcasts ++ [env] }, .none)
  | .readError, .reading c => some ({ ri with phase := .clearing c }, .none)
  | .clearConn, .clearing c =>
    some ({ ri with
      conn := none
      phase := if first = true then .clearingLegacy c else .closing c }, .none)
  | .clearLegacy, .clearingLegacy c => some ({ ri with phase := .closing c }, .legacy none)
  | .closeConn, .closing c => some ({ ri with phase := .checking }, .closes c)
  | .checkStop, .checking =>
    some (if stopCh = true then { ri with phase := .returned }
      else { ri with phase := .pausing (clock + ri.backoff) }, .none)
  | .resume, .pausing due => if due ≤ clock then some ({ ri with phase := .top }, .none) else none
  | .stopped, .retrying _ | .stopped, .pausing _ =>
    if stopCh = true then some ({ ri with phase := .returned }, .none) else none
  | _, _ => none

structure RelayLinks where
  relays : ℕ → RelayInstance
  relayConn : Option RelayConn
  stopCh : Bool
  /-- The instance at which the loop of `stop` is. -/
  stopping : Option ℕ
  clock : ℕ
  /-- The instance a connection was dialed for. -/
  owner : RelayConn → Option ℕ
  /-- The gateway has closed the connection. -/
  closed : RelayConn → Bool
  /-- What was written by `forwardToRelay`, and by its fallback. -/
  writes : List (RelayConn × Envelope)
  legacyWrites : List (RelayConn × Envelope)

namespace RelayLinks

def new : RelayLinks where
  relays := fun _ => .new
  relayConn := none
  stopCh := false
  stopping := none
  clock := 0
  owner := fun _ => none
  closed := fun _ => false
  writes := []
  legacyWrites := []

/-- A step of the connector of instance `i` has been made. A connection is new. -/
def apply (s : RelayLinks) (i : ℕ) (ri : RelayInstance) : LinkEffect → Option RelayLinks
  | .none => some { s with relays := Function.update s.relays i ri }
  | .opens c =>
    if s.owner c = none then
      some { s with
        relays := Function.update s.relays i ri
        owner := Function.update s.owner c (some i) }
    else none
  | .legacy conn =>
    some { s with relays := Function.update s.relays i ri, relayConn := conn }
  | .closes c =>
    some { s with
      relays := Function.update s.relays i ri
      closed := Function.update s.closed c true }

/-- `forwardToRelay`, under the mutex of the instance. -/
def forwardToRelay (n : ℕ) (s : RelayLinks) (env : Envelope) : RelayLinks :=
  if n = 0 then
    match s.relayConn with
    | none => s
    | some c => { s with legacyWrites := s.legacyWrites ++ [(c, env)] }
  else
    match (s.relays (relayForRoom n env.room)).conn with
    | none => s
    | some c => { s with writes := s.writes ++ [(c, env)] }

/-- The loop of `stop` at an instance. -/
def closeAt (s : RelayLinks) (i : ℕ) : RelayLinks :=
  match (s.relays i).conn with
  | none => s
  | some c => { s with closed := Function.update s.closed c true }

end RelayLinks

inductive LinkAction
  | connector (i : ℕ) (a : ConnectorAction)
  | forward (env : Envelope)
  | stop
  | stopNext
  | wait (ns : ℕ)

/-- The transition system of a gateway with `n` relay instances. -/
def linkStep (n : ℕ) (s : RelayLinks) : LinkAction → Option RelayLinks
  | .connector i a =>
    if i < n then
      ((s.relays i).step (i = 0) s.stopCh s.clock a (s.relays i).phase).bind fun res =>
        s.apply i res.1 res.2
    else none
  | .forward env => some (s.forwardToRelay n env)
  | .stop => if s.stopCh = true then none else some { s with stopCh := true, stopping := some 0 }
  | .stopNext =>
    match s.stopping with
    | none => none
    | some i =>
      some (if i < n then { s.closeAt i with stopping := some (i + 1) }
        else { s with stopping := none })
  | .wait ns => some { s with clock := s.clock + ns }

/-! ### What a step can do -/

/-- The steps of a connector. -/
inductive ConnectorMoves (first stopCh : Bool) (clock : ℕ) (ri : RelayInstance) :
    ConnectorAction → RelayInstance → LinkEffect → Prop
  | leaves (hphase : ri.phase = .top) (hstop : stopCh = true) :
      ConnectorMoves first stopCh clock ri .check { ri with phase := .returned } .none
  | dials (hphase : ri.phase = .top) (hstop : stopCh = false) :
      ConnectorMoves first stopCh clock ri .check
        { ri with phase := .dialing, dials := ri.dials + 1 } .none
  | dialed {c : RelayConn} (hphase : ri.phase = .dialing) :
      ConnectorMoves first stopCh clock ri (.dialed c)
        { ri with phase := .connected c, backoff := second, failures := 0 } (.opens c)
  | dialFailed (hphase : ri.phase = .dialing) :
      ConnectorMoves first stopCh clock ri .dialFailed
        { ri with
          phase := .retrying (clock + ri.backoff)
          failures := ri.failures + 1
          failedAt := clock } .none
  | retries {due : ℕ} (hphase : ri.phase = .retrying due) (hdue : due ≤ clock) :
      ConnectorMoves first stopCh clock ri .retry
        { ri with phase := .top, backoff := doubled ri.backoff } .none
  | setConn {c : RelayConn} (hphase : ri.phase = .connected c) :
      ConnectorMoves first stopCh clock ri .setConn
        { ri with
          conn := some c
          phase := if first = true then .legacy c else .reading c } .none
  | setLegacy {c : RelayConn} (hphase : ri.phase = .legacy c) :
      ConnectorMoves first stopCh clock ri .setLegacy { ri with phase := .reading c }
        (.legacy (some c))
  | skips {c : RelayConn} (hphase : ri.phase = .reading c) :
      ConnectorMoves first stopCh clock ri (.read none) ri .none
  | reads {c : RelayConn} {env : Envelope} (hphase : ri.phase = .reading c) :
      ConnectorMoves first stopCh clock ri (.read (some env))
        { ri with phase := .broadcasting c env, read := ri.read ++ [env] } .none
  | broadcasts {c : RelayConn} {env : Envelope} (hphase : ri.phase = .broadcasting c env) :
      ConnectorMoves first stopCh clock ri .broadcast
        { ri with phase := .reading c, broadcasts := ri.broadcasts ++ [env] } .none
  | readFailed {c : RelayConn} (hphase : ri.phase = .reading c) :
      ConnectorMoves first stopCh clock ri .readError { ri with phase := .clearing c } .none
  | clearConn {c : RelayConn} (hphase : ri.phase = .clearing c) :
      ConnectorMoves first stopCh clock ri .clearConn
        { ri with
          conn := none
          phase := if first = true then .clearingLegacy c else .closing c } .none
  | clearLegacy {c : RelayConn} (hphase : ri.phase = .clearingLegacy c) :
      ConnectorMoves first stopCh clock ri .clearLegacy { ri with phase := .closing c }
        (.legacy none)
  | closes {c : RelayConn} (hphase : ri.phase = .closing c) :
      ConnectorMoves first stopCh clock ri .closeConn { ri with phase := .checking } (.closes c)
  | ends (hphase : ri.phase = .checking) (hstop : stopCh = true) :
      ConnectorMoves first stopCh clock ri .checkStop { ri with phase := .returned } .none
  | pauses (hphase : ri.phase = .checking) (hstop : stopCh = false) :
      ConnectorMoves first stopCh clock ri .checkStop
        { ri with phase := .pausing (clock + ri.backoff) } .none
  | resumes {due : ℕ} (hphase : ri.phase = .pausing due) (hdue : due ≤ clock) :
      ConnectorMoves first stopCh clock ri .resume { ri with phase := .top } .none
  | stoppedRetrying {due : ℕ} (hphase : ri.phase = .retrying due) (hstop : stopCh = true) :
      ConnectorMoves first stopCh clock ri .stopped { ri with phase := .returned } .none
  | stoppedPausing {due : ℕ} (hphase : ri.phase = .pausing due) (hstop : stopCh = true) :
      ConnectorMoves first stopCh clock ri .stopped { ri with phase := .returned } .none

theorem RelayInstance.moves_of_step {first stopCh : Bool} {clock : ℕ} {ri ri' : RelayInstance}
    {a : ConnectorAction} {e : LinkEffect}
    (h : ri.step first stopCh clock a ri.phase = some (ri', e)) :
    ConnectorMoves first stopCh clock ri a ri' e := by
  rw [step.eq_def] at h
  split at h
  · rename_i hphase
    cases h
    split
    · exact .leaves hphase ‹_›
    · exact .dials hphase (Bool.eq_false_iff.mpr ‹_›)
  · rename_i hphase
    cases h
    exact .dialed hphase
  · rename_i hphase
    cases h
    exact .dialFailed hphase
  · rename_i hphase
    split at h
    · cases h
      exact .retries hphase ‹_›
    · cases h
  · rename_i hphase
    cases h
    exact .setConn hphase
  · rename_i hphase
    cases h
    exact .setLegacy hphase
  · rename_i hphase
    cases h
    exact .skips hphase
  · rename_i hphase
    cases h
    exact .reads hphase
  · rename_i hphase
    cases h
    exact .broadcasts hphase
  · rename_i hphase
    cases h
    exact .readFailed hphase
  · rename_i hphase
    cases h
    exact .clearConn hphase
  · rename_i hphase
    cases h
    exact .clearLegacy hphase
  · rename_i hphase
    cases h
    exact .closes hphase
  · rename_i hphase
    cases h
    split
    · exact .ends hphase ‹_›
    · exact .pauses hphase (Bool.eq_false_iff.mpr ‹_›)
  · rename_i hphase
    split at h
    · cases h
      exact .resumes hphase ‹_›
    · cases h
  · rename_i hphase
    split at h
    · cases h
      exact .stoppedRetrying hphase ‹_›
    · cases h
  · rename_i hphase
    split at h
    · cases h
      exact .stoppedPausing hphase ‹_›
    · cases h
  · cases h

variable {n i : ℕ} {s s' : RelayLinks} {a : ConnectorAction} {first stopCh : Bool} {clock : ℕ}
  {ri ri' : RelayInstance} {e : LinkEffect}

theorem exists_of_connector (h : linkStep n s (.connector i a) = some s') :
    i < n ∧ ∃ ri' e, ConnectorMoves (i = 0) s.stopCh s.clock (s.relays i) a ri' e ∧
      s.apply i ri' e = some s' := by
  rw [linkStep] at h
  split at h
  · obtain ⟨⟨ri', e⟩, hstep, happly⟩ := Option.bind_eq_some_iff.mp h
    exact ⟨‹_›, ri', e, RelayInstance.moves_of_step hstep, happly⟩
  · cases h

/-- What every effect leaves of the rest of the server. -/
theorem RelayLinks.apply_spec (h : s.apply i ri e = some s') :
    s'.relays = Function.update s.relays i ri ∧ s'.stopCh = s.stopCh ∧ s'.clock = s.clock ∧
      s'.stopping = s.stopping ∧ s'.writes = s.writes ∧ s'.legacyWrites = s.legacyWrites := by
  cases e with
  | none =>
      cases h
      exact ⟨rfl, rfl, rfl, rfl, rfl, rfl⟩
  | opens c =>
      rw [apply] at h
      split at h
      · cases h
        exact ⟨rfl, rfl, rfl, rfl, rfl, rfl⟩
      · cases h
  | legacy conn =>
      cases h
      exact ⟨rfl, rfl, rfl, rfl, rfl, rfl⟩
  | closes c =>
      cases h
      exact ⟨rfl, rfl, rfl, rfl, rfl, rfl⟩

theorem RelayLinks.closeAt_spec (s : RelayLinks) (i : ℕ) :
    (s.closeAt i).relays = s.relays ∧ (s.closeAt i).clock = s.clock ∧
      (s.closeAt i).stopCh = s.stopCh ∧ (s.closeAt i).owner = s.owner ∧
      (s.closeAt i).relayConn = s.relayConn ∧ (s.closeAt i).legacyWrites = s.legacyWrites ∧
      (s.closeAt i).writes = s.writes := by
  rw [closeAt]
  split
  · exact ⟨rfl, rfl, rfl, rfl, rfl, rfl, rfl⟩
  · exact ⟨rfl, rfl, rfl, rfl, rfl, rfl, rfl⟩

theorem RelayLinks.forward_spec (n : ℕ) (s : RelayLinks) (env : Envelope) :
    (s.forwardToRelay n env).relays = s.relays ∧ (s.forwardToRelay n env).clock = s.clock ∧
      (s.forwardToRelay n env).stopCh = s.stopCh ∧ (s.forwardToRelay n env).owner = s.owner ∧
      (s.forwardToRelay n env).closed = s.closed ∧
      (s.forwardToRelay n env).relayConn = s.relayConn := by
  rw [forwardToRelay]
  split <;> split <;> exact ⟨rfl, rfl, rfl, rfl, rfl, rfl⟩

/-- Only its own connector changes an instance. -/
theorem relays_of_step {b : LinkAction} (h : linkStep n s b = some s') :
    s.clock ≤ s'.clock ∧ ∀ j, s'.relays j = s.relays j ∨
      ∃ a ri' e, ConnectorMoves (j = 0) s.stopCh s.clock (s.relays j) a ri' e ∧
        s'.relays j = ri' := by
  cases b with
  | connector i a =>
      obtain ⟨-, ri', e, hmoves, happly⟩ := exists_of_connector h
      obtain ⟨hrelays, -, hclock, -⟩ := RelayLinks.apply_spec happly
      refine ⟨hclock.ge, fun j => ?_⟩
      rw [hrelays]
      by_cases hj : j = i
      · subst hj
        exact .inr ⟨a, ri', e, hmoves, Function.update_self ..⟩
      · exact .inl (Function.update_of_ne hj ..)
  | forward env =>
      cases h
      obtain ⟨hrelays, hclock, -⟩ := s.forward_spec n env
      exact ⟨hclock.ge, fun j => .inl (congrFun hrelays j)⟩
  | stop =>
      rw [linkStep] at h
      split at h
      · cases h
      · cases h
        exact ⟨le_refl _, fun j => .inl rfl⟩
  | stopNext =>
      rw [linkStep] at h
      split at h
      · cases h
      · rename_i k hk
        cases h
        obtain ⟨hrelays, hclock, -⟩ := s.closeAt_spec k
        split
        · exact ⟨hclock.ge, fun j => .inl (congrFun hrelays j)⟩
        · exact ⟨le_refl _, fun j => .inl rfl⟩
  | wait ns =>
      cases h
      exact ⟨Nat.le_add_right _ _, fun j => .inl rfl⟩

/-! ### Delays -/

/-- The delay after so many failures in a row. -/
def delay (failures : ℕ) : ℕ := min (2 ^ failures * second) maxBackoff

theorem doubled_delay (failures : ℕ) : doubled (delay failures) = delay (failures + 1) := by
  rw [doubled, delay, delay, Nat.pow_succ]
  have hmul : 2 ^ failures * 2 * second = 2 ^ failures * second * 2 := by
    rw [Nat.mul_right_comm]
  rw [hmul]
  have hmax : 0 < maxBackoff := by decide
  split <;> omega

/-- **The invariant rule of one instance.** -/
theorem instance_invariant {P : ℕ → RelayInstance → Prop} (hnew : P 0 .new)
    (hwait : ∀ clock clock' ri, clock ≤ clock' → P clock ri → P clock' ri)
    (hmoves : ∀ first stopCh clock ri a ri' e, P clock ri →
      ConnectorMoves first stopCh clock ri a ri' e → P clock ri')
    (hs : Reachable (linkStep n) .new s) (i : ℕ) : P s.clock (s.relays i) := by
  refine hs.invariant (I := fun s => ∀ i, P s.clock (s.relays i)) (fun _ => hnew)
    (fun s b s' hI _ hstep j => ?_) i
  obtain ⟨hclock, hrelays⟩ := relays_of_step hstep
  rcases hrelays j with hsame | ⟨a, ri', e, hmove, hsame⟩
  · rw [hsame]
    exact hwait _ _ _ hclock (hI j)
  · rw [hsame]
    exact hwait _ _ _ hclock (hmoves _ _ _ _ _ _ _ (hI j) hmove)

/-- The failures that `backoff` has been doubled for. -/
def RelayInstance.doubledFor (ri : RelayInstance) : ℕ :=
  match ri.phase with
  | .retrying _ => ri.failures - 1
  | _ => ri.failures

/-- A delay follows the failure it is for. -/
structure Delayed (clock : ℕ) (ri : RelayInstance) : Prop where
  backoff : ri.phase = .returned ∨ ri.backoff = delay ri.doubledFor
  retrying : ∀ due, ri.phase = .retrying due →
    0 < ri.failures ∧ due = ri.failedAt + delay (ri.failures - 1)
  offline : ri.phase = .top ∨ ri.phase = .dialing →
    ri.failures = 0 ∨ ri.failedAt + delay (ri.failures - 1) ≤ clock
  online : ri.failures = 0 ∨ ri.phase = .top ∨ ri.phase = .dialing ∨
    (∃ due, ri.phase = .retrying due) ∨ ri.phase = .returned

theorem delayed_new : Delayed 0 .new := by
  refine ⟨.inr ?_, by simp [RelayInstance.new], fun _ => .inl rfl, .inl rfl⟩
  show second = delay 0
  decide

theorem Delayed.wait {clock' : ℕ} (hclock : clock ≤ clock') (hri : Delayed clock ri) :
    Delayed clock' ri :=
  ⟨hri.backoff, hri.retrying,
    fun hphase => (hri.offline hphase).imp_right fun h => h.trans hclock, hri.online⟩

theorem Delayed.moves (hri : Delayed clock ri) (h : ConnectorMoves first stopCh clock ri a ri' e) :
    Delayed clock ri' := by
  have hbackoff := hri.backoff
  have honline := hri.online
  rw [RelayInstance.doubledFor] at hbackoff
  cases h with
  | leaves | ends | stoppedPausing | stoppedRetrying =>
      exact ⟨.inl rfl, by simp, by simp, by simp⟩
  | dials hphase =>
      simp only [hphase, reduceCtorEq, false_or] at hbackoff
      exact ⟨.inr hbackoff, by simp, fun _ => hri.offline (.inl hphase), by simp⟩
  | dialed hphase =>
      refine ⟨.inr ?_, by simp, by simp, .inl rfl⟩
      show second = delay 0
      decide
  | dialFailed hphase =>
      simp only [hphase, reduceCtorEq, false_or] at hbackoff
      exact ⟨.inr hbackoff, by simp [hbackoff], by simp, by simp⟩
  | @retries due hphase hdue =>
      simp only [hphase, reduceCtorEq, false_or] at hbackoff
      obtain ⟨hfailures, hfailed⟩ := hri.retrying due hphase
      refine ⟨.inr ?_, by simp, fun _ => .inr ?_, by simp⟩
      · show doubled ri.backoff = delay ri.failures
        rw [hbackoff, doubled_delay, Nat.sub_add_cancel hfailures]
      · exact hfailed ▸ hdue
  | setConn hphase | clearConn hphase =>
      simp [hphase] at hbackoff honline
      cases first <;>
        exact ⟨.inr hbackoff, by simp, by simp, .inl honline⟩
  | skips => exact hri
  | setLegacy hphase | reads hphase | broadcasts hphase | readFailed hphase | clearLegacy hphase
  | closes hphase | pauses hphase =>
      simp [hphase] at hbackoff honline
      exact ⟨.inr hbackoff, by simp, by simp, .inl honline⟩
  | resumes hphase =>
      simp [hphase] at hbackoff honline
      exact ⟨.inr hbackoff, by simp, fun _ => .inl honline, .inl honline⟩

theorem delayed_of_reachable (hs : Reachable (linkStep n) .new s) (i : ℕ) :
    Delayed s.clock (s.relays i) :=
  instance_invariant delayed_new (fun _ _ _ hclock hri => hri.wait hclock)
    (fun _ _ _ _ _ _ _ hri hmove => hri.moves hmove) hs i

/-- A dial takes a second that has passed, or will have when the delay ends. -/
structure Paced (clock : ℕ) (ri : RelayInstance) : Prop where
  backoff : second ≤ ri.backoff
  dials : ri.dials * second ≤ clock + second
  due : ∀ due, ri.phase = .retrying due ∨ ri.phase = .pausing due → ri.dials * second ≤ due
  top : ri.phase = .top → ri.dials * second ≤ clock

theorem paced_new : Paced 0 .new := by
  refine ⟨le_refl second, ?_, by simp [RelayInstance.new], fun _ => ?_⟩
  · show 0 * second ≤ 0 + second
    omega
  · show 0 * second ≤ 0
    omega

theorem Paced.wait {clock' : ℕ} (hclock : clock ≤ clock') (hri : Paced clock ri) :
    Paced clock' ri :=
  ⟨hri.backoff, hri.dials.trans (Nat.add_le_add_right hclock _), hri.due,
    fun hphase => (hri.top hphase).trans hclock⟩

theorem second_le_doubled {backoff : ℕ} (h : second ≤ backoff) : second ≤ doubled backoff := by
  have hmax : second ≤ maxBackoff := by decide
  rw [doubled]
  split <;> omega

theorem Paced.moves (hri : Paced clock ri) (h : ConnectorMoves first stopCh clock ri a ri' e) :
    Paced clock ri' := by
  have hbackoff := hri.backoff
  have hdials := hri.dials
  cases h with
  | dials hphase =>
      have htop := hri.top hphase
      refine ⟨hbackoff, ?_, by simp, by simp⟩
      show (ri.dials + 1) * second ≤ clock + second
      rw [Nat.add_mul, Nat.one_mul]
      omega
  | dialed => exact ⟨le_refl _, hdials, by simp, by simp⟩
  | dialFailed | pauses =>
      refine ⟨hbackoff, hdials, fun due hdue => ?_, by simp⟩
      have hlater : clock + ri.backoff = due := by simpa using hdue
      show ri.dials * second ≤ due
      omega
  | retries hphase hdue =>
      exact ⟨second_le_doubled hbackoff, hdials, by simp,
        fun _ => (hri.due _ (.inl hphase)).trans hdue⟩
  | resumes hphase hdue =>
      exact ⟨hbackoff, hdials, by simp, fun _ => (hri.due _ (.inr hphase)).trans hdue⟩
  | skips => exact hri
  | setConn | clearConn =>
      cases first <;> exact ⟨hbackoff, hdials, by simp, by simp⟩
  | leaves | setLegacy | reads | broadcasts | readFailed | clearLegacy | closes | ends
  | stoppedRetrying | stoppedPausing => exact ⟨hbackoff, hdials, by simp, by simp⟩

theorem paced_of_reachable (hs : Reachable (linkStep n) .new s) (i : ℕ) :
    Paced s.clock (s.relays i) :=
  instance_invariant paced_new (fun _ _ _ hclock hri => hri.wait hclock)
    (fun _ _ _ _ _ _ _ hri hmove => hri.moves hmove) hs i

/-- **Dials are spaced.** Whatever the relays do, a connector dials at most once a second,
beside its first dial; and where it is about to dial, or dials, after failures in a row, the
last failure is as far back as the doubled and capped delay says. -/
theorem dials_spaced {n : ℕ} {s : RelayLinks} (hs : Reachable (linkStep n) .new s) (i : ℕ) :
    ((s.relays i).dials - 1) * second ≤ s.clock ∧
    ((s.relays i).phase = .top ∨ (s.relays i).phase = .dialing →
      ∀ k, (s.relays i).failures = k + 1 →
        (s.relays i).failedAt + min (2 ^ k * second) maxBackoff ≤ s.clock) := by
  constructor
  · have hdials := (paced_of_reachable hs i).dials
    rw [Nat.sub_mul, Nat.one_mul]
    omega
  · intro hphase k hk
    rcases (delayed_of_reachable hs i).offline hphase with hnone | hdelay
    · omega
    · rw [hk] at hdelay
      exact hdelay

/-- A dial that fails, and the next one a second later. -/
def dialTwice : List LinkAction :=
  [.connector 0 .check, .connector 0 .dialFailed, .wait second, .connector 0 .retry,
    .connector 0 .check]

theorem dials_spaced_twice : ∃ s, exec (linkStep 1) .new dialTwice = some s ∧
    (s.relays 0).dials = 2 ∧ ((s.relays 0).dials - 1) * second ≤ s.clock :=
  have hrun : (exec (linkStep 1) .new dialTwice).isSome = true := rfl
  ⟨_, (Option.some_get hrun).symm, rfl, (dials_spaced (reachable_get hrun) 0).1⟩

/-! ### Connections -/

/-- What the connector and its instance have in common. -/
structure Tracked (ri : RelayInstance) : Prop where
  conn : ri.conn = ri.phase.held
  read : ri.read = ri.broadcasts ++ ri.phase.pending

theorem Tracked.moves (hri : Tracked ri) (h : ConnectorMoves first stopCh clock ri a ri' e) :
    Tracked ri' := by
  obtain ⟨hconn, hread⟩ := hri
  cases h with
  | reads hphase =>
      rw [hphase] at hconn hread
      have hempty : ri.read = ri.broadcasts := hread.trans (List.append_nil _)
      exact ⟨hconn, congrArg (· ++ _) hempty⟩
  | broadcasts hphase =>
      rw [hphase] at hconn hread
      exact ⟨hconn, hread.trans (List.append_nil _).symm⟩
  | setConn hphase | clearConn hphase =>
      rw [hphase] at hread
      cases first <;> exact ⟨rfl, hread⟩
  | skips => exact ⟨hconn, hread⟩
  | leaves hphase | dials hphase | dialed hphase | dialFailed hphase | retries hphase
  | setLegacy hphase | readFailed hphase | clearLegacy hphase | closes hphase | ends hphase
  | pauses hphase | resumes hphase | stoppedRetrying hphase | stoppedPausing hphase =>
      rw [hphase] at hconn hread
      exact ⟨hconn, hread⟩

theorem tracked_of_reachable (hs : Reachable (linkStep n) .new s) (i : ℕ) :
    Tracked (s.relays i) :=
  instance_invariant (P := fun _ => Tracked) ⟨rfl, rfl⟩ (fun _ _ _ _ hri => hri)
    (fun _ _ _ _ _ _ _ hri hmove => hri.moves hmove) hs i

/-- What an effect means for the connection in hand. -/
def LinkEffect.Carries : LinkEffect → Option RelayConn → Option RelayConn → Prop
  | .none, before, after | .legacy _, before, after => after = before
  | .opens c, before, after => before = Option.none ∧ after = some c
  | .closes c, before, after => before = some c ∧ after = Option.none

/-- What an effect makes of `relayConn`. -/
def LinkEffect.onLegacy : LinkEffect → Option RelayConn → Option RelayConn
  | .legacy conn, _ => conn
  | _, before => before

theorem ConnectorMoves.carries (h : ConnectorMoves first stopCh clock ri a ri' e) :
    e.Carries ri.phase.current ri'.phase.current := by
  cases h with
  | setConn hphase | clearConn hphase =>
      rw [hphase]
      cases first <;> rfl
  | dialed hphase | closes hphase =>
      rw [hphase]
      exact ⟨rfl, rfl⟩
  | skips => rfl
  | leaves hphase | dials hphase | dialFailed hphase | retries hphase | setLegacy hphase
  | reads hphase | broadcasts hphase | readFailed hphase | clearLegacy hphase | ends hphase
  | pauses hphase | resumes hphase | stoppedRetrying hphase | stoppedPausing hphase =>
      rw [hphase]
      rfl

/-- The connector of the first instance keeps `relayConn`. -/
theorem ConnectorMoves.onLegacy (h : ConnectorMoves true stopCh clock ri a ri' e) :
    ri'.phase.legacyHeld = e.onLegacy ri.phase.legacyHeld := by
  cases h with
  | skips => rfl
  | leaves hphase | dials hphase | dialed hphase | dialFailed hphase | retries hphase
  | setConn hphase | setLegacy hphase | reads hphase | broadcasts hphase | readFailed hphase
  | clearConn hphase | clearLegacy hphase | closes hphase | ends hphase | pauses hphase
  | resumes hphase | stoppedRetrying hphase | stoppedPausing hphase =>
      rw [hphase]
      rfl

/-- Every other connector leaves `relayConn` alone. -/
theorem ConnectorMoves.not_legacy (h : ConnectorMoves false stopCh clock ri a ri' e)
    (hri : ri.phase.isLegacy = false) :
    ri'.phase.isLegacy = false ∧ ∀ before, e.onLegacy before = before := by
  cases h with
  | skips => exact ⟨hri, fun _ => rfl⟩
  | setLegacy hphase | clearLegacy hphase =>
      rw [hphase] at hri
      cases hri
  | leaves | dials | dialed | dialFailed | retries | setConn | reads | broadcasts | readFailed
  | clearConn | closes | ends | pauses | resumes | stoppedRetrying | stoppedPausing =>
      exact ⟨rfl, fun _ => rfl⟩

namespace RelayLinks

/-- What an effect does to the connections. -/
theorem apply_connections (h : s.apply i ri e = some s') :
    s'.relayConn = e.onLegacy s.relayConn ∧
    ((s'.owner = s.owner ∧ s'.closed = s.closed ∧ ∀ b a, e.Carries b a → a = b) ∨
      (∃ c, s.owner c = none ∧ s'.owner = Function.update s.owner c (some i) ∧
        s'.closed = s.closed ∧ ∀ b a, e.Carries b a → b = none ∧ a = some c) ∨
      ∃ c, s'.owner = s.owner ∧ s'.closed = Function.update s.closed c true ∧
        ∀ b a, e.Carries b a → b = some c ∧ a = none) := by
  cases e with
  | none =>
      cases h
      exact ⟨rfl, .inl ⟨rfl, rfl, fun _ _ h => h⟩⟩
  | opens c =>
      rw [apply] at h
      split at h
      · cases h
        exact ⟨rfl, .inr (.inl ⟨c, ‹_›, rfl, rfl, fun _ _ h => h⟩)⟩
      · cases h
  | legacy conn =>
      cases h
      exact ⟨rfl, .inl ⟨rfl, rfl, fun _ _ h => h⟩⟩
  | closes c =>
      cases h
      exact ⟨rfl, .inr (.inr ⟨c, rfl, rfl, fun _ _ h => h⟩)⟩

/-- What the connectors have in hand. -/
def inHand (s : RelayLinks) : ℕ → Option RelayConn := fun i => (s.relays i).phase.current

/-- A connection that has been dialed is in the hands of its connector or closed. -/
structure Owned (s : RelayLinks) : Prop where
  custody : Custody s.inHand s.owner s.closed (s.stopCh = true)
  stopping : s.stopping ≠ none → s.stopCh = true

theorem Owned.of_eq (hs : s.Owned) (hhand : s'.inHand = s.inHand) (howner : s'.owner = s.owner)
    (hclosed : s'.closed = s.closed) (hstopCh : s.stopCh = true → s'.stopCh = true)
    (hstopping : s'.stopping ≠ none → s'.stopCh = true) : s'.Owned where
  custody := by
    rw [hhand, howner, hclosed]
    exact hs.custody.imp hstopCh
  stopping := hstopping

theorem inHand_of_relays (hrelays : s'.relays = Function.update s.relays i ri) :
    s'.inHand = Function.update s.inHand i ri.phase.current := by
  funext j
  rw [inHand, hrelays]
  by_cases hj : j = i
  · subst hj
    rw [Function.update_self, Function.update_self]
  · rw [Function.update_of_ne hj, Function.update_of_ne hj]
    rfl

theorem Owned.connector (hs : s.Owned)
    (hmoves : ConnectorMoves first s.stopCh s.clock (s.relays i) a ri' e)
    (happly : s.apply i ri' e = some s') : s'.Owned := by
  obtain ⟨hrelays, hstopCh, -, hstopping, -⟩ := apply_spec happly
  have hcarries := hmoves.carries
  have hstop : s'.stopping ≠ none → s'.stopCh = true := by
    rw [hstopping, hstopCh]
    exact hs.stopping
  refine ⟨?_, hstop⟩
  rw [inHand_of_relays hrelays, hstopCh]
  rcases (apply_connections happly).2 with ⟨howner, hclosed, hsame⟩ |
    ⟨c, hnew, howner, hclosed, hopen⟩ | ⟨c, howner, hclosed, hclose⟩
  · rw [howner, hclosed, hsame _ _ hcarries]
    show Custody (Function.update s.inHand i (s.inHand i)) _ _ _
    rw [Function.update_eq_self]
    exact hs.custody
  · obtain ⟨hbefore, hafter⟩ := hopen _ _ hcarries
    rw [howner, hclosed, hafter]
    exact hs.custody.opens hnew hbefore
  · obtain ⟨hbefore, hafter⟩ := hclose _ _ hcarries
    rw [howner, hclosed, hafter]
    exact hs.custody.closes hbefore

theorem held_current {phase : LinkPhase} {c : RelayConn} (h : phase.held = some c) :
    phase.current = some c := by
  cases phase <;> first | exact h | cases h

theorem Owned.closeAt (hs : s.Owned) (hstop : s.stopCh = true)
    (hconn : (s.relays i).conn = (s.relays i).phase.held) : (s.closeAt i).Owned := by
  rw [RelayLinks.closeAt]
  split
  · exact hs
  · rename_i c hc
    exact ⟨hs.custody.shuts (held_current (hconn.symm.trans hc)) hstop, fun _ => hstop⟩

theorem owned_of_reachable (hs : Reachable (linkStep n) .new s) : s.Owned := by
  refine hs.invariant_of (I := fun s => ∀ i, Tracked (s.relays i)) (J := Owned)
    (fun s hs i => tracked_of_reachable hs i) ?_ (fun s b s' htracked hI _ hstep => ?_)
  · exact ⟨Custody.start, fun h => absurd rfl h⟩
  cases b with
  | connector i a =>
      obtain ⟨-, ri', e, hmoves, happly⟩ := exists_of_connector hstep
      exact hI.connector hmoves happly
  | forward env =>
      cases hstep
      obtain ⟨hrelays, -, hstopCh, howner, hclosed, -⟩ := s.forward_spec n env
      have hstopping : (s.forwardToRelay n env).stopping = s.stopping := by
        rw [forwardToRelay]
        split <;> split <;> rfl
      refine hI.of_eq (congrArg (fun r i => (r i).phase.current) hrelays) howner hclosed
        (fun h => hstopCh.trans h) ?_
      rw [hstopCh, hstopping]
      exact hI.stopping
  | stop =>
      rw [linkStep] at hstep
      split at hstep
      · cases hstep
      · cases hstep
        exact hI.of_eq rfl rfl rfl (fun _ => rfl) fun _ => rfl
  | stopNext =>
      rw [linkStep] at hstep
      split at hstep
      · cases hstep
      · rename_i k hk
        cases hstep
        have hstop := hI.stopping (by simp [hk])
        split
        · have hclose := hI.closeAt hstop (htracked k).conn
          refine hclose.of_eq rfl rfl rfl (fun h => h) fun _ => ?_
          exact (s.closeAt_spec k).2.2.1.trans hstop
        · exact hI.of_eq rfl rfl rfl (fun h => h) fun h => absurd rfl h
  | wait ns =>
      cases hstep
      exact hI.of_eq rfl rfl rfl (fun h => h) hI.stopping

/-- `relayConn` is the first instance's, and there is one only where there is an instance. -/
structure OneLegacy (n : ℕ) (s : RelayLinks) : Prop where
  idle : ∀ i, n ≤ i → (s.relays i).phase = .top
  others : ∀ i, i ≠ 0 → (s.relays i).phase.isLegacy = false
  relayConn : s.relayConn = (s.relays 0).phase.legacyHeld
  unused : s.legacyWrites = []

theorem OneLegacy.of_eq (hs : s.OneLegacy n) (hrelays : s'.relays = s.relays)
    (hconn : s'.relayConn = s.relayConn) (hwrites : s'.legacyWrites = s.legacyWrites) :
    s'.OneLegacy n where
  idle := by
    rw [hrelays]
    exact hs.idle
  others := by
    rw [hrelays]
    exact hs.others
  relayConn := by
    rw [hconn, hrelays]
    exact hs.relayConn
  unused := hwrites.trans hs.unused

theorem OneLegacy.connector (hs : s.OneLegacy n) (hi : i < n)
    (hmoves : ConnectorMoves (i = 0) s.stopCh s.clock (s.relays i) a ri' e)
    (happly : s.apply i ri' e = some s') : s'.OneLegacy n := by
  obtain ⟨hrelays, -, -, -, -, hwrites⟩ := apply_spec happly
  have hconn := (apply_connections happly).1
  refine ⟨fun j hj => ?_, fun j hj => ?_, ?_, hwrites.trans hs.unused⟩
  · rw [hrelays, Function.update_of_ne (by omega)]
    exact hs.idle j hj
  · rw [hrelays]
    by_cases hji : j = i
    · subst hji
      rw [decide_eq_false hj] at hmoves
      rw [Function.update_self]
      exact (hmoves.not_legacy (hs.others j hj)).1
    · rw [Function.update_of_ne hji]
      exact hs.others j hj
  · rw [hconn, hrelays]
    by_cases hi0 : i = 0
    · subst hi0
      rw [decide_eq_true rfl] at hmoves
      rw [Function.update_self, hmoves.onLegacy, hs.relayConn]
    · rw [decide_eq_false hi0] at hmoves
      rw [Function.update_of_ne (Ne.symm hi0), (hmoves.not_legacy (hs.others i hi0)).2,
        hs.relayConn]

/-- Without instances there is no connection to fall back on. -/
theorem OneLegacy.forward (hs : s.OneLegacy n) (env : Envelope) :
    (s.forwardToRelay n env).OneLegacy n := by
  rw [forwardToRelay]
  split
  · rename_i hn
    have hnone : s.relayConn = none := by
      rw [hs.relayConn, hs.idle 0 hn.le]
      rfl
    rw [hnone]
    exact hs
  · split
    · exact hs
    · exact hs.of_eq rfl rfl rfl

theorem oneLegacy_of_reachable (hs : Reachable (linkStep n) .new s) : s.OneLegacy n := by
  refine hs.invariant (I := OneLegacy n) ⟨fun _ _ => rfl, fun _ _ => rfl, rfl, rfl⟩
    (fun s b s' hI _ hstep => ?_)
  cases b with
  | connector i a =>
      obtain ⟨hi, ri', e, hmoves, happly⟩ := exists_of_connector hstep
      exact hI.connector hi hmoves happly
  | forward env =>
      cases hstep
      exact hI.forward env
  | stop =>
      rw [linkStep] at hstep
      split at hstep
      · cases hstep
      · cases hstep
        exact hI.of_eq rfl rfl rfl
  | stopNext =>
      rw [linkStep] at hstep
      split at hstep
      · cases hstep
      · rename_i k hk
        cases hstep
        obtain ⟨hrelays, -, -, -, hconn, hwrites, -⟩ := s.closeAt_spec k
        split
        · exact hI.of_eq hrelays hconn hwrites
        · exact hI.of_eq rfl rfl rfl
  | wait ns =>
      cases hstep
      exact hI.of_eq rfl rfl rfl

/-- A connection stays that of the instance it was dialed for. -/
theorem owner_of_step {b : LinkAction} {c : RelayConn} (h : linkStep n s b = some s')
    (hc : s.owner c = some i) : s'.owner c = some i := by
  cases b with
  | connector j a =>
      obtain ⟨-, ri', e, -, happly⟩ := exists_of_connector h
      rcases (apply_connections happly).2 with ⟨howner, -⟩ | ⟨c', hnew, howner, -⟩ | ⟨c', howner, -⟩
      · rw [howner]
        exact hc
      · have hne : c ≠ c' := by
          rintro rfl
          rw [hc] at hnew
          cases hnew
        rw [howner, Function.update_of_ne hne]
        exact hc
      · rw [howner]
        exact hc
  | forward env =>
      cases h
      rw [(s.forward_spec n env).2.2.2.1]
      exact hc
  | stop =>
      rw [linkStep] at h
      split at h <;> cases h
      exact hc
  | stopNext =>
      rw [linkStep] at h
      split at h
      · cases h
      · rename_i k hk
        cases h
        split
        · exact (congrFun (s.closeAt_spec k).2.2.2.1 c).trans hc
        · exact hc
  | wait ns =>
      cases h
      exact hc

/-- What has been written went to the instance of its room. -/
def Routed (n : ℕ) (s : RelayLinks) : Prop :=
  ∀ w ∈ s.writes, relayForRoom n w.2.room < n ∧ s.owner w.1 = some (relayForRoom n w.2.room)

theorem Routed.of_writes {b : LinkAction} (hs : s.Routed n) (h : linkStep n s b = some s')
    (hwrites : s'.writes = s.writes) : s'.Routed n := by
  intro w hw
  rw [hwrites] at hw
  exact ⟨(hs w hw).1, owner_of_step h (hs w hw).2⟩

theorem Routed.forward (hs : s.Routed n) (howned : s.Owned)
    (htracked : ∀ i, Tracked (s.relays i)) (env : Envelope) :
    (s.forwardToRelay n env).Routed n := by
  rw [forwardToRelay]
  split
  · split
    · exact hs
    · exact hs
  · rename_i hn
    split
    · exact hs
    · rename_i c hc
      intro w hw
      rcases List.mem_append.mp hw with hold | hnew
      · exact hs w hold
      · obtain rfl := List.mem_singleton.mp hnew
        have hheld := (htracked (relayForRoom n env.room)).conn.symm.trans hc
        exact ⟨Nat.mod_lt _ (Nat.pos_of_ne_zero hn), howned.custody.owns _ c (held_current hheld)⟩

theorem routed_of_reachable (hs : Reachable (linkStep n) .new s) : s.Routed n := by
  refine hs.invariant_of
    (I := fun s => Owned s ∧ ∀ i, Tracked (s.relays i)) (J := Routed n)
    (fun s hs => ⟨owned_of_reachable hs, fun i => tracked_of_reachable hs i⟩)
    (by simp [Routed, new])
    (fun s b s' hI hJ _ hstep => ?_)
  cases b with
  | connector i a =>
      obtain ⟨-, ri', e, -, happly⟩ := exists_of_connector hstep
      exact hJ.of_writes hstep (apply_spec happly).2.2.2.2.1
  | forward env =>
      cases hstep
      exact hJ.forward hI.1 hI.2 env
  | stop =>
      refine hJ.of_writes hstep ?_
      rw [linkStep] at hstep
      split at hstep <;> cases hstep
      rfl
  | stopNext =>
      refine hJ.of_writes hstep ?_
      rw [linkStep] at hstep
      split at hstep
      · cases hstep
      · rename_i k hk
        cases hstep
        split
        · exact (s.closeAt_spec k).2.2.2.2.2.2
        · rfl
  | wait ns => exact hJ.of_writes hstep (by cases hstep; rfl)

/-- **Messages go to the instance of their room.** Whatever connects, fails or stops, what
`forwardToRelay` writes goes to a connection that was dialed for the instance of the room; the
connection that it finds is the one its connector reads from, and the gateway has not closed it
unless it is stopping; and the fallback to `relayConn` never writes. -/
theorem forwardToRelay_routed {n : ℕ} {s : RelayLinks} (hs : Reachable (linkStep n) .new s) :
    (∀ w ∈ s.writes, relayForRoom n w.2.room < n ∧
      s.owner w.1 = some (relayForRoom n w.2.room)) ∧
    s.legacyWrites = [] ∧
    ∀ i c, (s.relays i).conn = some c → (s.relays i).phase.held = some c ∧ s.owner c = some i ∧
      (s.closed c = true → s.stopCh = true) := by
  refine ⟨routed_of_reachable hs, (oneLegacy_of_reachable hs).unused, fun i c hc => ?_⟩
  have howned := owned_of_reachable hs
  have hheld := (tracked_of_reachable hs i).conn.symm.trans hc
  have hcurrent := held_current hheld
  exact ⟨hheld, howned.custody.owns i c hcurrent, howned.custody.live i c hcurrent⟩

/-- The first instance connects. -/
def connectFirst : List LinkAction :=
  [.connector 0 .check, .connector 0 (.dialed 5), .connector 0 .setConn, .connector 0 .setLegacy]

def emptyChat : Envelope := { type := .chat }

theorem forwardToRelay_routed_first :
    ∃ s, exec (linkStep 1) .new (connectFirst ++ [.forward emptyChat]) = some s ∧
      s.writes = [(5, emptyChat)] ∧ s.owner 5 = some 0 ∧ s.legacyWrites = [] := by
  have hrun : (exec (linkStep 1) .new connectFirst).isSome = true := rfl
  have hroom : relayForRoom 1 emptyChat.room = 0 := Nat.mod_one _
  have hstep : linkStep 1 ((exec (linkStep 1) .new connectFirst).get hrun) (.forward emptyChat) =
      some { (exec (linkStep 1) .new connectFirst).get hrun with writes := [(5, emptyChat)] } := by
    rw [linkStep, forwardToRelay, hroom]
    rfl
  have hexec : exec (linkStep 1) .new (connectFirst ++ [.forward emptyChat]) = _ :=
    exec_append _ _ _
  rw [← Option.some_get hrun, Option.bind_some, exec_cons, hstep] at hexec
  have hrouted := forwardToRelay_routed (reachable_of_exec .start hexec)
  exact ⟨_, hexec, rfl, (hrouted.2.2 0 5 rfl).2.1, hrouted.2.1⟩

/-! ### Stopping -/

end RelayLinks

end TrapChat.Gateway
