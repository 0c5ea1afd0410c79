import Mathlib.Algebra.GroupWithZero.Nat
import Mathlib.Algebra.Order.BigOperators.Group.List
import Mathlib.Data.List.Nodup
import Mathlib.Data.List.Perm.Basic
import TrapChat.Library.Transition

/-!
The ICE candidates of a `PeerConnection`. A candidate that arrives before the remote
description is set waits; the call that has set it takes all that wait and passes them
on, one after the other, while further candidates arrive.

Candidates are numbered as they arrive. One that `RTCIceCandidate` does not accept is
never passed on.
-/

namespace TrapChat.Client

open Transition

/-- A call of `handleOffer` or `handleAnswer` at one of its awaits. -/
inductive NegotiationCall (κ : Type)
  | describing (answers : Bool)
  | flushing (answers : Bool) (rest : List (ℕ × κ))
  | creatingAnswer
  | settingLocal
  deriving DecidableEq

/-- The candidates that the call has yet to pass on. -/
def NegotiationCall.rest {κ : Type} : NegotiationCall κ → List (ℕ × κ)
  | .flushing _ rest => rest
  | _ => []

/-- How many times the call still waits for `addIceCandidate`, at most. -/
def NegotiationCall.waits {κ : Type} : NegotiationCall κ → ℕ
  | .flushing _ rest => rest.length + 1
  | _ => 0

/-- A call that waits for no `addIceCandidate` has no candidate left. -/
theorem NegotiationCall.rest_of_waits {κ : Type} {call : NegotiationCall κ} (h : call.waits = 0) :
    call.rest = [] := by
  cases call with
  | flushing answers rest => cases h
  | _ => rfl

/-- The object, its calls in progress, and what has arrived and been passed on. -/
structure IceConnection (κ : Type) where
  /-- There is an underlying connection. -/
  created : Bool
  remoteDescriptionSet : Bool
  pendingCandidates : List (ℕ × κ)
  calls : List (NegotiationCall κ)
  /-- The calls of `addIceCandidate`. -/
  passed : List (ℕ × κ)
  arrived : List (ℕ × κ)
  /-- Some `setRemoteDescription` has succeeded. -/
  described : Bool
  /-- The answers sent. -/
  answers : ℕ
  deriving DecidableEq

/-- A call in progress is given by its place in the list; `ok` is whether what it waits for
succeeds. -/
inductive IceEvent (κ : Type)
  | createOffer
  | handleOffer
  | handleAnswer
  | handleIceCandidate (candidate : Option κ)
  | described (i : ℕ) (ok : Bool)
  | added (i : ℕ) (ok : Bool)
  | answerCreated (i : ℕ) (ok : Bool)
  | localDescriptionSet (i : ℕ) (ok : Bool)
  deriving DecidableEq

/-- An `addIceCandidate` that a flush waits for settles. -/
def IceEvent.isAdded {κ : Type} : IceEvent κ → Bool
  | .added _ _ => true
  | _ => false

namespace IceConnection

variable {κ : Type} (accepts : κ → Bool)

/-- The candidates that `new RTCIceCandidate(candidate)` does not throw on. -/
def acceptedOf (candidates : List (ℕ × κ)) : List (ℕ × κ) :=
  candidates.filter fun c => accepts c.2

/-- The first candidate that `new RTCIceCandidate(candidate)` does not throw on, and those after
it. -/
def drain : List (ℕ × κ) → Option ((ℕ × κ) × List (ℕ × κ))
  | [] => none
  | c :: rest => if accepts c.2 then some (c, rest) else drain rest

def new : IceConnection κ where
  created := false
  remoteDescriptionSet := false
  pendingCandidates := []
  calls := []
  passed := []
  arrived := []
  described := false
  answers := 0

/-- The call at `i` flushes candidates as far as the next await, which is the first
`addIceCandidate`, or what comes after the flush. -/
def flush (s : IceConnection κ) (i : ℕ) (answers : Bool) (candidates : List (ℕ × κ)) :
    IceConnection κ :=
  match drain accepts candidates with
  | some (c, rest) =>
    { s with passed := s.passed ++ [c], calls := s.calls.set i (.flushing answers rest) }
  | none =>
    { s with calls := if answers then s.calls.set i .creatingAnswer else s.calls.eraseIdx i }

def handleIceCandidate (s : IceConnection κ) (candidate : Option κ) : IceConnection κ :=
  match candidate with
  | none => s
  | some candidate =>
    if ¬s.created then s
    else
      let c := (s.arrived.length, candidate)
      let s := { s with arrived := s.arrived ++ [c] }
      if ¬s.remoteDescriptionSet then { s with pendingCandidates := s.pendingCandidates ++ [c] }
      else if accepts candidate then { s with passed := s.passed ++ [c] }
      else s

def step (s : IceConnection κ) : IceEvent κ → Option (IceConnection κ)
  | .createOffer => if s.created then none else some { s with created := true }
  | .handleOffer => some { s with created := true, calls := s.calls ++ [.describing true] }
  | .handleAnswer =>
    if s.created then some { s with calls := s.calls ++ [.describing false] } else some s
  | .handleIceCandidate candidate => some (s.handleIceCandidate accepts candidate)
  | .described i ok =>
    match s.calls[i]? with
    | some (.describing answers) =>
      if ok then
        some ({ s with
          remoteDescriptionSet := true
          described := true
          pendingCandidates := [] }.flush accepts i answers s.pendingCandidates)
      else some { s with calls := s.calls.eraseIdx i }
    | _ => none
  -- a rejection is caught and logged
  | .added i _ =>
    match s.calls[i]? with
    | some (.flushing answers rest) => some (s.flush accepts i answers rest)
    | _ => none
  | .answerCreated i ok =>
    match s.calls[i]? with
    | some .creatingAnswer =>
      some { s with calls := if ok then s.calls.set i .settingLocal else s.calls.eraseIdx i }
    | _ => none
  | .localDescriptionSet i ok =>
    match s.calls[i]? with
    | some .settingLocal =>
      some { s with
        calls := s.calls.eraseIdx i
        answers := if ok then s.answers + 1 else s.answers }
    | _ => none

/-- The candidates that calls in progress have yet to pass on. -/
def flushing (s : IceConnection κ) : List (ℕ × κ) := s.calls.flatMap NegotiationCall.rest

/-- How many settled calls of `addIceCandidate` end all flushes. -/
def outstanding (s : IceConnection κ) : ℕ := (s.calls.map NegotiationCall.waits).sum

/-- How often the candidate of the given number has been passed to `addIceCandidate`. -/
def passes (s : IceConnection κ) (number : ℕ) : ℕ := (s.passed.map Prod.fst).count number

/-- What is asked of the candidates: none is passed on twice, none early, none that is not
accepted, and every other one once the flushes have ended; and they do end, if `addIceCandidate`
settles. -/
structure PassedOn (s : IceConnection κ) : Prop where
  once : ∀ number, s.passes number ≤ 1
  after : s.described = false → s.passed = []
  accepted : ∀ c ∈ s.passed, c ∈ s.arrived ∧ accepts c.2 = true
  exactly : s.described = true → s.outstanding = 0 → ∀ c ∈ s.arrived, accepts c.2 = true →
    s.passes c.1 = 1
  settles : s.described = true → ∀ e s', s.step accepts e = some s' →
    s'.outstanding + (if e.isAdded then 1 else 0) ≤ s.outstanding
  waits : s.outstanding ≠ 0 → ∃ i, ∀ ok, (s.step accepts (.added i ok)).isSome = true

/-! ### Calls in progress -/

section
variable {accepts}

theorem acceptedOf_nil : acceptedOf accepts ([] : List (ℕ × κ)) = [] := rfl

theorem acceptedOf_append (l l' : List (ℕ × κ)) :
    acceptedOf accepts (l ++ l') = acceptedOf accepts l ++ acceptedOf accepts l' :=
  List.filter_append ..

theorem acceptedOf_cons (c : ℕ × κ) (l : List (ℕ × κ)) : acceptedOf accepts (c :: l) =
    if accepts c.2 then c :: acceptedOf accepts l else acceptedOf accepts l :=
  List.filter_cons

theorem acceptedOf_perm {l l' : List (ℕ × κ)} (h : l.Perm l') :
    (acceptedOf accepts l).Perm (acceptedOf accepts l') :=
  h.filter _

theorem drain_some {candidates rest : List (ℕ × κ)} {c : ℕ × κ}
    (h : drain accepts candidates = some (c, rest)) :
    acceptedOf accepts candidates = c :: acceptedOf accepts rest ∧
      rest.length < candidates.length := by
  induction candidates with
  | nil => cases h
  | cons d candidates ih =>
      rw [acceptedOf_cons]
      rw [drain] at h
      split at h
      · next haccepts =>
        cases h
        exact ⟨if_pos haccepts, Nat.lt_succ_self _⟩
      · next hrefuses =>
        obtain ⟨hfilter, hlength⟩ := ih h
        rw [if_neg hrefuses]
        exact ⟨hfilter, Nat.lt_succ_of_lt hlength⟩

theorem drain_none {candidates : List (ℕ × κ)} (h : drain accepts candidates = none) :
    acceptedOf accepts candidates = [] := by
  induction candidates with
  | nil => rfl
  | cons d candidates ih =>
      rw [acceptedOf_cons]
      rw [drain] at h
      split at h
      · cases h
      · next hrefuses =>
        rw [if_neg hrefuses]
        exact ih h

end

section
variable {s : IceConnection κ} {i : ℕ} {call : NegotiationCall κ}

/-- What the calls in progress other than the one at `i` have yet to pass on. -/
def flushingBut (s : IceConnection κ) (i : ℕ) : List (ℕ × κ) :=
  (s.calls.eraseIdx i).flatMap NegotiationCall.rest

def outstandingBut (s : IceConnection κ) (i : ℕ) : ℕ :=
  ((s.calls.eraseIdx i).map NegotiationCall.waits).sum

theorem calls_perm (hi : s.calls[i]? = some call) : s.calls.Perm (call :: s.calls.eraseIdx i) := by
  obtain ⟨hlt, rfl⟩ := List.getElem?_eq_some_iff.mp hi
  exact (List.getElem_cons_eraseIdx_perm hlt).symm

theorem flushing_perm (hi : s.calls[i]? = some call) :
    s.flushing.Perm (call.rest ++ s.flushingBut i) :=
  (calls_perm hi).flatMap_right _

theorem outstanding_eq (hi : s.calls[i]? = some call) :
    s.outstanding = call.waits + s.outstandingBut i :=
  ((calls_perm hi).map _).sum_eq

/-- The call goes on to another await. -/
theorem calls_set_perm (hi : s.calls[i]? = some call) (call' : NegotiationCall κ) :
    (s.calls.set i call').Perm (call' :: s.calls.eraseIdx i) := by
  obtain ⟨hlt, -⟩ := List.getElem?_eq_some_iff.mp hi
  exact List.set_perm_cons_eraseIdx hlt call'

/-- The call at `i` does not flush any more. -/
theorem flushing_of_ended (hi : s.calls[i]? = some call) {calls : List (NegotiationCall κ)}
    (hcalls : calls = s.calls.eraseIdx i ∨
      ∃ call', call'.waits = 0 ∧ calls = s.calls.set i call') :
    (calls.flatMap NegotiationCall.rest).Perm (s.flushingBut i) ∧
      (calls.map NegotiationCall.waits).sum = s.outstandingBut i := by
  obtain rfl | ⟨call', hcall', rfl⟩ := hcalls
  · exact ⟨.refl _, rfl⟩
  · have hperm := calls_set_perm hi call'
    constructor
    · have hflat := hperm.flatMap_right NegotiationCall.rest
      rw [List.flatMap_cons, NegotiationCall.rest_of_waits hcall', List.nil_append] at hflat
      exact hflat
    · have hsum := (hperm.map NegotiationCall.waits).sum_eq
      rw [List.map_cons, List.sum_cons, hcall', Nat.zero_add] at hsum
      exact hsum

/-- The call at `i` ends, or goes on to an await at which it does not flush. -/
theorem ended_ite (b : Bool) {call' : NegotiationCall κ} (hcall' : call'.waits = 0) :
    (if b then s.calls.set i call' else s.calls.eraseIdx i) = s.calls.eraseIdx i ∨
      ∃ next, next.waits = 0 ∧
        (if b then s.calls.set i call' else s.calls.eraseIdx i) = s.calls.set i next := by
  cases b with
  | true => exact .inr ⟨call', hcall', rfl⟩
  | false => exact .inl rfl

/-- **The flush** passes on one candidate or ends, and loses none. -/
theorem flush_spec (accepts : κ → Bool) (hi : s.calls[i]? = some call) (answers : Bool)
    (candidates : List (ℕ × κ)) :
    ((s.flush accepts i answers candidates).passed ++
        acceptedOf accepts (s.flush accepts i answers candidates).flushing).Perm
      (s.passed ++ (acceptedOf accepts candidates ++ acceptedOf accepts (s.flushingBut i))) ∧
    (s.flush accepts i answers candidates).outstanding ≤
      candidates.length + s.outstandingBut i := by
  rw [flush]
  split
  · next c rest hdrain =>
    obtain ⟨haccepted, hlength⟩ := drain_some hdrain
    have hperm := calls_set_perm hi (.flushing answers rest)
    constructor
    · have hflat : ((s.calls.set i (.flushing answers rest)).flatMap NegotiationCall.rest).Perm
          (rest ++ s.flushingBut i) := hperm.flatMap_right _
      have haccepts : (acceptedOf accepts _).Perm (acceptedOf accepts _) := acceptedOf_perm hflat
      rw [acceptedOf_append] at haccepts
      rw [haccepted, List.append_assoc]
      exact (haccepts.cons c).append_left s.passed
    · have hsum : (((s.calls.set i (.flushing answers rest)).map NegotiationCall.waits)).sum =
          rest.length + 1 + s.outstandingBut i := (hperm.map _).sum_eq
      exact hsum.le.trans (Nat.add_le_add_right hlength _)
  · next hdrain =>
    have hwaits : (NegotiationCall.creatingAnswer : NegotiationCall κ).waits = 0 := rfl
    obtain ⟨hflushing, houtstanding⟩ := flushing_of_ended hi (ended_ite answers hwaits)
    rw [drain_none hdrain]
    refine ⟨(acceptedOf_perm hflushing).append_left s.passed, ?_⟩
    exact houtstanding.le.trans (Nat.le_add_left _ _)

variable (accepts : κ → Bool) (s : IceConnection κ) (i : ℕ) (answers : Bool)
  (candidates : List (ℕ × κ))

@[simp] theorem flush_arrived : (s.flush accepts i answers candidates).arrived = s.arrived := by
  rw [flush]
  split <;> rfl

@[simp] theorem flush_described :
    (s.flush accepts i answers candidates).described = s.described := by
  rw [flush]
  split <;> rfl

@[simp] theorem flush_remoteDescriptionSet :
    (s.flush accepts i answers candidates).remoteDescriptionSet = s.remoteDescriptionSet := by
  rw [flush]
  split <;> rfl

@[simp] theorem flush_pendingCandidates :
    (s.flush accepts i answers candidates).pendingCandidates = s.pendingCandidates := by
  rw [flush]
  split <;> rfl

end

/-! ### Every candidate is in one place -/

/-- A candidate that is accepted waits, is about to be passed on, or has been. -/
structure Queued (accepts : κ → Bool) (s : IceConnection κ) : Prop where
  places : (s.passed ++ (acceptedOf accepts s.flushing ++
    acceptedOf accepts s.pendingCandidates)).Perm (acceptedOf accepts s.arrived)
  numbered : s.arrived.map Prod.fst = List.range s.arrived.length
  early : s.described = false → s.passed = [] ∧ s.outstanding = 0
  late : s.described = true → s.pendingCandidates = []
  flag : s.remoteDescriptionSet = s.described

theorem queued_new (accepts : κ → Bool) : Queued accepts new :=
  ⟨.refl _, rfl, fun _ => ⟨rfl, rfl⟩, fun _ => rfl, rfl⟩

variable {accepts} {s s' : IceConnection κ} {i : ℕ}

/-- Calls that do not flush come and go. -/
theorem Queued.calls (h : Queued accepts s) {calls : List (NegotiationCall κ)}
    (hflushing : (calls.flatMap NegotiationCall.rest).Perm s.flushing)
    (houtstanding : (calls.map NegotiationCall.waits).sum = s.outstanding) (created : Bool)
    (answers : ℕ) :
    Queued accepts { s with created := created, calls := calls, answers := answers } where
  places := by
    have hfilter := hflushing.filter fun c => accepts c.2
    exact ((hfilter.append_right _).append_left _).trans h.places
  numbered := h.numbered
  early hdescribed := ⟨(h.early hdescribed).1, houtstanding.trans (h.early hdescribed).2⟩
  late := h.late
  flag := h.flag

theorem numbered_concat (h : s.arrived.map Prod.fst = List.range s.arrived.length)
    (candidate : κ) : (s.arrived ++ [(s.arrived.length, candidate)]).map Prod.fst =
      List.range (s.arrived ++ [(s.arrived.length, candidate)]).length := by
  rw [List.map_append, h, List.length_append, List.length_singleton, List.range_succ]
  rfl

/-- A candidate arrives: it waits, or it is passed on at once. -/
theorem Queued.handleIceCandidate (h : Queued accepts s) (candidate : Option κ) :
    Queued accepts (s.handleIceCandidate accepts candidate) := by
  cases candidate with
  | none => exact h
  | some candidate =>
      rw [IceConnection.handleIceCandidate]
      split
      · exact h
      dsimp only
      have hplace : acceptedOf accepts (s.arrived ++ [(s.arrived.length, candidate)]) =
          acceptedOf accepts s.arrived ++
            acceptedOf accepts [(s.arrived.length, candidate)] := acceptedOf_append ..
      split
      · next hflag =>
        rw [h.flag, Bool.not_eq_true] at hflag
        refine ⟨?_, numbered_concat h.numbered candidate, h.early, ?_, h.flag⟩
        · show (_ ++ (_ ++ acceptedOf accepts (s.pendingCandidates ++ _))).Perm
            (acceptedOf accepts (s.arrived ++ _))
          rw [hplace, acceptedOf_append, ← List.append_assoc, ← List.append_assoc,
            List.append_assoc s.passed]
          exact h.places.append_right _
        · intro hdescribed
          exact absurd (hflag.symm.trans hdescribed) Bool.false_ne_true
      · next hflag =>
        rw [h.flag, Bool.not_eq_true, Bool.not_eq_false] at hflag
        have hnever : ∀ p : Prop, s.described = false → p := fun p hdescribed =>
          absurd (hdescribed.symm.trans hflag) Bool.false_ne_true
        split
        · next haccepts =>
          refine ⟨?_, numbered_concat h.numbered candidate, hnever _, h.late, h.flag⟩
          show (s.passed ++ [_] ++ _).Perm (acceptedOf accepts (s.arrived ++ _))
          rw [hplace, acceptedOf_cons, if_pos haccepts]
          have hmoved := h.places.append_right [(s.arrived.length, candidate)]
          rw [List.append_assoc] at hmoved ⊢
          exact (List.perm_append_comm.append_left s.passed).trans hmoved
        · next hrefuses =>
          refine ⟨?_, numbered_concat h.numbered candidate, hnever _, h.late, h.flag⟩
          show List.Perm _ (acceptedOf accepts (s.arrived ++ _))
          have hnone : acceptedOf accepts [(s.arrived.length, candidate)] = [] := by
            rw [acceptedOf_cons, if_neg hrefuses]
            rfl
          rw [hplace, hnone, List.append_nil]
          exact h.places

theorem outstanding_handleIceCandidate (s : IceConnection κ) (candidate : Option κ) :
    (s.handleIceCandidate accepts candidate).calls = s.calls ∧
      (s.handleIceCandidate accepts candidate).described = s.described := by
  cases candidate with
  | none => exact ⟨rfl, rfl⟩
  | some candidate =>
      rw [IceConnection.handleIceCandidate]
      split
      · exact ⟨rfl, rfl⟩
      · dsimp only
        split
        · exact ⟨rfl, rfl⟩
        · split <;> exact ⟨rfl, rfl⟩

/-- With a remote description, a flush of what the call at `i` has left keeps every candidate in
its place. -/
theorem queued_flush {call : NegotiationCall κ} (hi : s.calls[i]? = some call) (answers : Bool)
    {candidates : List (ℕ × κ)}
    (hplaces : (s.passed ++ (acceptedOf accepts candidates ++
      acceptedOf accepts (s.flushingBut i))).Perm (acceptedOf accepts s.arrived))
    (hnumbered : s.arrived.map Prod.fst = List.range s.arrived.length)
    (hdescribed : s.described = true) (hpending : s.pendingCandidates = [])
    (hflag : s.remoteDescriptionSet = true) :
    Queued accepts (s.flush accepts i answers candidates) := by
  obtain ⟨hperm, -⟩ := flush_spec accepts hi answers candidates
  constructor
  · rw [flush_pendingCandidates, flush_arrived, hpending]
    rw [acceptedOf_nil, List.append_nil]
    exact hperm.trans hplaces
  · rw [flush_arrived]
    exact hnumbered
  · rw [flush_described, hdescribed]
    exact fun h => absurd h Bool.false_ne_true.symm
  · rw [flush_pendingCandidates]
    exact fun _ => hpending
  · rw [flush_remoteDescriptionSet, flush_described, hflag, hdescribed]

/-- The remote description is set, and the candidates that wait are flushed. -/
theorem Queued.described (h : Queued accepts s) {answers : Bool}
    (hi : s.calls[i]? = some (.describing answers)) :
    Queued accepts ({ s with
      remoteDescriptionSet := true
      described := true
      pendingCandidates := [] }.flush accepts i answers s.pendingCandidates) := by
  refine queued_flush (s := { s with
    remoteDescriptionSet := true
    described := true
    pendingCandidates := [] }) hi answers ?_ h.numbered rfl rfl rfl
  have hflushing : (acceptedOf accepts s.flushing).Perm (acceptedOf accepts (s.flushingBut i)) :=
    acceptedOf_perm (flushing_perm hi)
  have hswap := List.perm_append_comm.trans (hflushing.symm.append_right
    (acceptedOf accepts s.pendingCandidates))
  exact (hswap.append_left s.passed).trans h.places

/-- A flush goes on. -/
theorem Queued.added (h : Queued accepts s) {answers : Bool} {rest : List (ℕ × κ)}
    (hi : s.calls[i]? = some (.flushing answers rest)) :
    Queued accepts (s.flush accepts i answers rest) := by
  have hdescribed : s.described = true := by
    by_contra hnot
    rw [Bool.not_eq_true] at hnot
    have hnone := (h.early hnot).2
    rw [outstanding_eq hi] at hnone
    exact absurd (Nat.add_eq_zero_iff.mp hnone).1 (Nat.succ_ne_zero _)
  refine queued_flush hi answers ?_ h.numbered hdescribed (h.late hdescribed)
    (h.flag.trans hdescribed)
  have hflushing : (acceptedOf accepts s.flushing).Perm
      (acceptedOf accepts (rest ++ s.flushingBut i)) := acceptedOf_perm (flushing_perm hi)
  rw [acceptedOf_append] at hflushing
  have hplaces := h.places
  rw [h.late hdescribed, acceptedOf_nil, List.append_nil] at hplaces
  exact (hflushing.symm.append_left s.passed).trans hplaces

/-- A call begins. -/
theorem Queued.began (h : Queued accepts s) (answers created : Bool) :
    Queued accepts { s with
      created := created, calls := s.calls ++ [NegotiationCall.describing answers] } ∧
      ((s.calls ++ [NegotiationCall.describing answers]).map NegotiationCall.waits).sum =
        s.outstanding := by
  have hflushing : (s.calls ++ [NegotiationCall.describing answers]).flatMap NegotiationCall.rest =
      s.flushing := by
    rw [List.flatMap_append]
    exact List.append_nil _
  have houtstanding :
      ((s.calls ++ [NegotiationCall.describing answers]).map NegotiationCall.waits).sum =
        s.outstanding := by
    rw [List.map_append, List.sum_append]
    rfl
  exact ⟨h.calls (.of_eq hflushing) houtstanding created s.answers, houtstanding⟩

/-- A call that does not flush ends, or goes on to an await at which it does not flush. -/
theorem Queued.ended (h : Queued accepts s) {call : NegotiationCall κ}
    (hi : s.calls[i]? = some call) (hcall : call.waits = 0) {calls : List (NegotiationCall κ)}
    (hcalls : calls = s.calls.eraseIdx i ∨ ∃ call', call'.waits = 0 ∧ calls = s.calls.set i call')
    (answers : ℕ) :
    Queued accepts { s with calls := calls, answers := answers } ∧
      (calls.map NegotiationCall.waits).sum = s.outstanding := by
  obtain ⟨hflushing, houtstanding⟩ := flushing_of_ended hi hcalls
  have hsame := flushing_perm hi
  rw [NegotiationCall.rest_of_waits hcall, List.nil_append] at hsame
  have hsum := outstanding_eq hi
  rw [hcall, Nat.zero_add] at hsum
  have hequal := houtstanding.trans hsum.symm
  exact ⟨h.calls (hflushing.trans hsame.symm) hequal s.created answers, hequal⟩

/-- **Every event** keeps every candidate in one place; and after the remote description is set,
no event but a settled `addIceCandidate` changes how many of these end the flushes. -/
theorem Queued.step (h : Queued accepts s) {e : IceEvent κ} (hstep : s.step accepts e = some s') :
    Queued accepts s' ∧ (s.described = true →
      s'.outstanding + (if e.isAdded then 1 else 0) ≤ s.outstanding) := by
  cases e with
  | createOffer =>
      rw [IceConnection.step] at hstep
      split at hstep
      · cases hstep
      · obtain rfl := (Option.some.inj hstep).symm
        exact ⟨h.calls (.refl _) rfl true s.answers, fun _ => Nat.le_refl _⟩
  | handleOffer =>
      obtain rfl := (Option.some.inj hstep).symm
      obtain ⟨hqueued, hsame⟩ := h.began true true
      exact ⟨hqueued, fun _ => hsame.le⟩
  | handleAnswer =>
      rw [IceConnection.step] at hstep
      split at hstep
      · next hcreated =>
        obtain rfl := (Option.some.inj hstep).symm
        obtain ⟨hqueued, hsame⟩ := h.began false s.created
        exact ⟨hqueued, fun _ => hsame.le⟩
      · obtain rfl := (Option.some.inj hstep).symm
        exact ⟨h, fun _ => Nat.le_refl _⟩
  | handleIceCandidate candidate =>
      obtain rfl := (Option.some.inj hstep).symm
      refine ⟨h.handleIceCandidate candidate, fun _ => ?_⟩
      rw [outstanding, (outstanding_handleIceCandidate s candidate).1]
      exact Nat.le_refl _
  | described i ok =>
      rw [IceConnection.step] at hstep
      split at hstep
      · next answers hi =>
        split at hstep
        · obtain rfl := (Option.some.inj hstep).symm
          refine ⟨h.described hi, fun hdescribed => ?_⟩
          -- a later description finds no candidate that waits
          rw [h.late hdescribed]
          have hle := (flush_spec (s := { s with
            remoteDescriptionSet := true
            described := true
            pendingCandidates := [] }) accepts hi answers []).2
          have hsum := outstanding_eq hi
          exact hle.trans hsum.ge
        · obtain rfl := (Option.some.inj hstep).symm
          obtain ⟨hqueued, hsame⟩ := h.ended hi rfl (.inl rfl) s.answers
          exact ⟨hqueued, fun _ => hsame.le⟩
      · cases hstep
  | added i ok =>
      rw [IceConnection.step] at hstep
      split at hstep
      · next answers rest hi =>
        obtain rfl := (Option.some.inj hstep).symm
        refine ⟨h.added hi, fun _ => ?_⟩
        have hle := (flush_spec accepts hi answers rest).2
        have hsum := outstanding_eq hi
        show _ + 1 ≤ _
        rw [NegotiationCall.waits] at hsum
        omega
      · cases hstep
  | answerCreated i ok =>
      rw [IceConnection.step] at hstep
      split at hstep
      · next hi =>
        obtain rfl := (Option.some.inj hstep).symm
        have hwaits : (NegotiationCall.settingLocal : NegotiationCall κ).waits = 0 := rfl
        obtain ⟨hqueued, hsame⟩ := h.ended hi rfl (ended_ite ok hwaits) s.answers
        exact ⟨hqueued, fun _ => hsame.le⟩
      · cases hstep
  | localDescriptionSet i ok =>
      rw [IceConnection.step] at hstep
      split at hstep
      · next hi =>
        obtain rfl := (Option.some.inj hstep).symm
        obtain ⟨hqueued, hsame⟩ := h.ended hi rfl (.inl rfl)
          (if ok then s.answers + 1 else s.answers)
        exact ⟨hqueued, fun _ => hsame.le⟩
      · cases hstep

theorem queued_of_reachable (hs : Reachable (IceConnection.step accepts) new s) :
    Queued accepts s :=
  hs.invariant (queued_new accepts) fun _ _ _ h _ hstep => (h.step hstep).1

/-! ### Neither lost nor early -/

theorem flushing_of_outstanding (h : s.outstanding = 0) : s.flushing = [] := by
  refine List.flatMap_eq_nil_iff.mpr fun call hcall => NegotiationCall.rest_of_waits ?_
  exact List.sum_eq_zero_iff_forall_eq_nat.mp h _ (List.mem_map_of_mem hcall)

/-- Whatever is outstanding waits for an `addIceCandidate` that may settle either way. -/
theorem added_of_outstanding (accepts : κ → Bool) (h : s.outstanding ≠ 0) :
    ∃ i, ∀ ok, (s.step accepts (.added i ok)).isSome = true := by
  obtain ⟨waits, hmem, hpos⟩ := List.sum_pos_iff_exists_pos_nat.mp (Nat.pos_of_ne_zero h)
  obtain ⟨call, hcall, rfl⟩ := List.mem_map.mp hmem
  obtain ⟨i, hi⟩ := List.mem_iff_getElem?.mp hcall
  refine ⟨i, fun ok => ?_⟩
  cases call with
  | flushing answers rest =>
      rw [IceConnection.step, hi]
      rfl
  | _ => exact absurd hpos (Nat.lt_irrefl 0)

/-- **The candidates** are passed on at most once and not early, and each that is accepted exactly
once when the flushes have ended. -/
theorem passedOn_of_reachable (hs : Reachable (IceConnection.step accepts) new s) :
    PassedOn accepts s := by
  have h := queued_of_reachable hs
  have hnumbers : (s.arrived.map Prod.fst).Nodup := by
    rw [h.numbered]
    exact List.nodup_range
  have haccepted : ((acceptedOf accepts s.arrived).map Prod.fst).Nodup :=
    hnumbers.sublist (List.filter_sublist.map _)
  have hplaces := (h.places.map Prod.fst).nodup_iff.mpr haccepted
  rw [List.map_append] at hplaces
  constructor
  · exact fun number => List.nodup_iff_count_le_one.mp hplaces.of_append_left number
  · exact fun hdescribed => (h.early hdescribed).1
  · intro c hc
    have hmem := h.places.subset (List.mem_append_left _ hc)
    obtain ⟨harrived, haccepts⟩ := List.mem_filter.mp hmem
    exact ⟨harrived, haccepts⟩
  · intro hdescribed hended c hc haccepts
    have hperm := h.places
    rw [flushing_of_outstanding hended, h.late hdescribed, acceptedOf_nil, List.append_nil,
      List.append_nil] at hperm
    rw [passes, (hperm.map Prod.fst).count_eq]
    exact List.count_eq_one_of_mem haccepted
      (List.mem_map_of_mem (List.mem_filter.mpr ⟨hc, haccepts⟩))
  · exact fun hdescribed e s' hstep => (h.step hstep).2 hdescribed
  · exact added_of_outstanding accepts

/-! ### What the constructor accepts -/

/-- What a peer sends of a candidate. -/
structure RTCIceCandidateInit where
  candidate : String
  sdpMid : Option String
  sdpMLineIndex : Option ℕ
  deriving DecidableEq

/-- `new RTCIceCandidate(candidate)` throws a `TypeError` where both are missing. -/
def RTCIceCandidateInit.accepted (c : RTCIceCandidateInit) : Bool :=
  c.sdpMid.isSome || c.sdpMLineIndex.isSome

/-- A candidate that comes before the answer and is refused, one that comes before it and fails,
one that comes while that one is being added, and one after. -/
theorem passedOn_renegotiated :
    PassedOn RTCIceCandidateInit.accepted
      ((exec (IceConnection.step RTCIceCandidateInit.accepted) new
        [.createOffer, .handleIceCandidate (some ⟨"c0", none, none⟩),
          .handleIceCandidate (some ⟨"c1", some "0", none⟩), .handleAnswer, .described 0 true,
          .handleIceCandidate (some ⟨"c2", some "0", none⟩), .handleOffer, .added 0 false,
          .described 0 true, .handleIceCandidate (some ⟨"c3", none, some 0⟩)]).get (by decide)) :=
  passedOn_of_reachable (reachable_get (by decide))

/-- A candidate with neither is not passed on, though the remote description is set. -/
theorem refused_not_passed :
    ¬∀ s, Reachable (IceConnection.step RTCIceCandidateInit.accepted) new s →
      s.described = true → s.outstanding = 0 → ∀ c ∈ s.arrived, s.passes c.1 = 1 := by
  intro hall
  have hreach : Reachable (IceConnection.step RTCIceCandidateInit.accepted) new
      ((exec (IceConnection.step RTCIceCandidateInit.accepted) new [.createOffer,
        .handleIceCandidate (some ⟨"c0", none, none⟩), .handleAnswer,
        .described 0 true]).get (by decide)) := reachable_get (by decide)
  have hpassed := hall _ hreach (by decide) (by decide) (0, ⟨"c0", none, none⟩) (by decide)
  exact absurd hpassed (by decide)

end IceConnection
end TrapChat.Client
