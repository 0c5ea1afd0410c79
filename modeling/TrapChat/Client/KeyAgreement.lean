import Mathlib.Algebra.BigOperators.Group.Finset.Piecewise
import Mathlib.Data.Fintype.Basic
import Mathlib.Tactic.Abel
import TrapChat.Client.KeyRotation
import TrapChat.Library.Transition
import TrapChat.Library.Walk

/-!
When the peers of a room end up with one key. Read an announcement as an edge,
from the key it is encrypted under to the key it contains. Where every key a
peer installs replaces the key it was announced under, the peer's current key
walks along these edges from the common first key. Once nothing is under way all
peers have walked the same edges, in whatever order, and so they stand at the
same key.
-/

namespace TrapChat.Client

open Transition Walk

/-- The edge of an announcement. -/
def Sealed.edge {Key : Type} (msg : Sealed Key) : Key × Key := (msg.under, msg.content)

/-- The edge of a rotation that has its new key. -/
def Rotation.edge {Key : Type} : Rotation Key → Multiset (Key × Key)
  | .generating _ => 0
  | .exporting oldKey newKey => {(oldKey, newKey)}

def Handling.edge {Key : Type} : Handling Key → Key × Key
  | .decrypting msg _ => msg.edge
  | .retrying msg _ => msg.edge
  | .importing msg => msg.edge

namespace KeyRotation

variable {ι Key : Type}

/-- The edges a peer has yet to send: in rotations and in callbacks. -/
def outgoing (p : Peer ι Key) : Multiset (Key × Key) :=
  p.rotator.rotations.bind Rotation.edge + p.announcing.map Sealed.edge

/-- The edges between a sender's callbacks and the receiver's rotator. -/
def arriving (s : Room ι Key) (j i : ι) : Multiset (Key × Key) :=
  (s.channel j i).map Sealed.edge + ((s.peers i).handling j).toList.map Handling.edge

/-- The edges on their way from `j` to `i`. -/
def pending (s : Room ι Key) (j i : ι) : Multiset (Key × Key) :=
  outgoing (s.peers j) + arriving s j i

/-- The action installs keys only over the keys they were announced under, and
does not give an announcement up. -/
def Replaces (s : Room ι Key) : Action ι Key → Prop
  | .generated i oldKey _ => (s.peers i).rotator.currentKey = some oldKey
  | .decrypted i j =>
    match (s.peers i).handling j with
    | some (.decrypting msg key) => key = some msg.under ∨ (s.peers i).rotator.previousKey ≠ none
    | _ => True
  | .retried i j =>
    match (s.peers i).handling j with
    | some (.retrying msg key) => key = msg.under
    | _ => True
  | .accept i j =>
    match (s.peers i).handling j with
    | some (.importing msg) => (s.peers i).rotator.currentKey = some msg.under
    | _ => True
  | _ => True

variable [DecidableEq ι]

instance [DecidableEq Key] (s : Room ι Key) (a : Action ι Key) : Decidable (Replaces s a) := by
  cases a <;> unfold Replaces <;> first | infer_instance | (dsimp only; split <;> infer_instance)

/-! ### What an action installs and what it leaves pending -/

/-- An action that installs nothing keeps every current key and every edge under
way. -/
structure Moves (s s' : Room ι Key) : Prop where
  currentKey : ∀ i, (s'.peers i).rotator.currentKey = (s.peers i).rotator.currentKey
  pending : ∀ j i, i ≠ j → pending s' j i = pending s j i

/-- The peer `i` installs the key of an edge that `j` announces, or `i` itself
when they are the same. An edge of its own becomes pending everywhere else, one
of another peer is taken. -/
structure Installs (s s' : Room ι Key) (i j : ι) (e : Key × Key) : Prop where
  before : (s.peers i).rotator.currentKey = some e.1
  after : (s'.peers i).rotator.currentKey = some e.2
  other : ∀ k, k ≠ i → (s'.peers k).rotator.currentKey = (s.peers k).rotator.currentKey
  pending : ∀ a b, b ≠ a → pending s' a b + (if b = i ∧ a = j then {e} else 0) =
    pending s a b + (if a = i ∧ a = j then {e} else 0)

@[simp] theorem peers_setPeer_self (s : Room ι Key) (i : ι) (p : Peer ι Key) :
    (setPeer s i p).peers i = p := Function.update_self _ _ _

theorem peers_setPeer_ne (s : Room ι Key) {i k : ι} (p : Peer ι Key) (h : k ≠ i) :
    (setPeer s i p).peers k = s.peers k := Function.update_of_ne h _ _

/-- Changing one peer, keeping its handlers: what it has to send is all that
matters. -/
theorem pending_setPeer {s : Room ι Key} {i : ι} {p : Peer ι Key}
    (hout : outgoing p = outgoing (s.peers i)) (hhandling : p.handling = (s.peers i).handling)
    (a b : ι) : pending (setPeer s i p) a b = pending s a b := by
  have houtgoing : outgoing ((setPeer s i p).peers a) = outgoing (s.peers a) := by
    by_cases ha : a = i
    · rw [ha, peers_setPeer_self, hout]
    · rw [peers_setPeer_ne s p ha]
  have harriving : arriving (setPeer s i p) a b = arriving s a b := by
    unfold arriving
    by_cases hb : b = i
    · rw [hb, peers_setPeer_self, hhandling]
      rfl
    · rw [peers_setPeer_ne s p hb]
      rfl
  rw [pending, pending, houtgoing, harriving]

theorem moves_setPeer {s : Room ι Key} {i : ι} {p : Peer ι Key}
    (hkey : p.rotator.currentKey = (s.peers i).rotator.currentKey)
    (hout : outgoing p = outgoing (s.peers i)) (hhandling : p.handling = (s.peers i).handling) :
    Moves s (setPeer s i p) := by
  refine ⟨fun k => ?_, fun a b _ => pending_setPeer hout hhandling a b⟩
  by_cases hk : k = i
  · rw [hk, peers_setPeer_self, hkey]
  · rw [peers_setPeer_ne s p hk]

/-! What a peer has to send and which key is current do not depend on its
handlers. -/

@[simp] theorem currentKey_setHandling (s : Room ι Key) (i j : ι) (h : Option (Handling Key))
    (k : ι) :
    ((setHandling s i j h).peers k).rotator.currentKey = (s.peers k).rotator.currentKey := by
  by_cases hk : k = i
  · rw [hk, setHandling, peers_setPeer_self]
  · rw [setHandling, peers_setPeer_ne s _ hk]

@[simp] theorem outgoing_setHandling (s : Room ι Key) (i j : ι) (h : Option (Handling Key))
    (k : ι) : outgoing ((setHandling s i j h).peers k) = outgoing (s.peers k) := by
  by_cases hk : k = i
  · rw [hk, setHandling, peers_setPeer_self]
    rfl
  · rw [setHandling, peers_setPeer_ne s _ hk]

theorem handling_setHandling (s : Room ι Key) (i j : ι) (h : Option (Handling Key)) (b a : ι) :
    ((setHandling s i j h).peers b).handling a =
      if b = i ∧ a = j then h else (s.peers b).handling a := by
  by_cases hb : b = i
  · rw [hb, setHandling, peers_setPeer_self]
    by_cases ha : a = j
    · rw [if_pos ⟨rfl, ha⟩, ha]
      exact Function.update_self _ _ _
    · rw [if_neg fun hcond => ha hcond.2]
      exact Function.update_of_ne ha _ _
  · rw [setHandling, peers_setPeer_ne s _ hb, if_neg fun hcond => hb hcond.1]

/-- Changing one handler without dropping its edge. -/
theorem moves_setHandling {s : Room ι Key} {i j : ι} {h h' : Handling Key}
    (hold : (s.peers i).handling j = some h) (hedge : h'.edge = h.edge) :
    Moves s (setHandling s i j (some h')) := by
  refine ⟨currentKey_setHandling s i j _, fun a b _ => ?_⟩
  unfold pending arriving
  rw [outgoing_setHandling, handling_setHandling]
  split
  · rename_i hcond
    rw [hcond.1, hcond.2, hold]
    simp [setHandling, setPeer, hedge]
  · rfl

/-- Dropping a handler drops its edge. -/
theorem pending_setHandling_none {s : Room ι Key} {i j : ι} {h : Handling Key}
    (hold : (s.peers i).handling j = some h) (a b : ι) :
    pending (setHandling s i j none) a b + (if b = i ∧ a = j then {h.edge} else 0) =
      pending s a b := by
  unfold pending arriving
  rw [outgoing_setHandling, handling_setHandling]
  by_cases hab : b = i ∧ a = j
  · rw [if_pos hab, if_pos hab, hab.1, hab.2, hold]
    simp only [setHandling, setPeer, Option.toList_none, Option.toList_some, List.map_nil,
      List.map_cons, Multiset.coe_nil, Multiset.coe_singleton]
    abel
  · rw [if_neg hab, if_neg hab, add_zero]
    rfl

/-- Installing an accepted key leaves everything that is under way. -/
theorem pending_install (s : Room ι Key) (i : ι) (key : Key) (a b : ι) :
    pending (setPeer s i (install (s.peers i) key)) a b = pending s a b := by
  apply pending_setPeer
  · rfl
  · rfl

/-- Nobody announces to itself. -/
def NoSelf (s : Room ι Key) : Prop := ∀ i, s.channel i i = [] ∧ (s.peers i).handling i = none

theorem noSelf_setPeer {s : Room ι Key} {i : ι} {p : Peer ι Key} (hs : NoSelf s)
    (hhandling : p.handling = (s.peers i).handling) : NoSelf (setPeer s i p) := by
  intro k
  refine ⟨(hs k).1, ?_⟩
  by_cases hk : k = i
  · rw [hk, peers_setPeer_self, hhandling]
    exact (hs i).2
  · rw [peers_setPeer_ne s p hk]
    exact (hs k).2

theorem noSelf_setHandling {s : Room ι Key} {i j : ι} {h : Option (Handling Key)} (hs : NoSelf s)
    (hij : i ≠ j) : NoSelf (setHandling s i j h) := by
  intro k
  refine ⟨(hs k).1, ?_⟩
  rw [handling_setHandling, if_neg fun hcond => hij (hcond.1.symm.trans hcond.2)]
  exact (hs k).2

variable [DecidableEq Key]

theorem bind_edge_erase {rotations : Multiset (Rotation Key)} {r : Rotation Key}
    (h : r ∈ rotations) :
    rotations.bind Rotation.edge = r.edge + (rotations.erase r).bind Rotation.edge := by
  rw [← Multiset.cons_bind, Multiset.cons_erase h]

theorem moves_fire {s s' : Room ι Key} {i : ι} (h : step s (.fire i) = some s') : Moves s s' := by
  simp only [step] at h
  split at h
  · split at h
    · cases h
      exact moves_setPeer rfl (by simp [outgoing, KeyRotator.rotate, Rotation.edge]) rfl
    · cases h
  · cases h

theorem moves_exported {s s' : Room ι Key} {i : ι} {oldKey newKey : Key}
    (h : step s (.exported i oldKey newKey) = some s') : Moves s s' := by
  simp only [step] at h
  split at h
  · rename_i hmem
    cases h
    refine moves_setPeer rfl ?_ rfl
    unfold outgoing
    rw [bind_edge_erase hmem]
    simp only [onRotate, KeyRotator.exported, Multiset.map_cons, Rotation.edge,
      Multiset.singleton_add, Multiset.add_cons, Multiset.cons_add]
    rfl
  · cases h

/-- Sending moves an edge from the sender to each of its channels. -/
theorem moves_encrypted {s s' : Room ι Key} {i : ι} {msg : Sealed Key}
    (h : step s (.encrypted i msg) = some s') : Moves s s' := by
  simp only [step] at h
  split at h
  · rename_i hmem
    cases h
    refine ⟨fun k => ?_, fun a b hne => ?_⟩
    · show ((setPeer s i _).peers k).rotator.currentKey = _
      by_cases hk : k = i
      · rw [hk, peers_setPeer_self]
      · rw [peers_setPeer_ne s _ hk]
    · have hmap : (s.peers i).announcing.map Sealed.edge =
          Sealed.edge msg ::ₘ ((s.peers i).announcing.erase msg).map Sealed.edge := by
        rw [← Multiset.map_cons, Multiset.cons_erase hmem]
      by_cases ha : a = i
      · subst ha
        have hb : (setPeer s a { s.peers a with
            announcing := (s.peers a).announcing.erase msg }).peers b = s.peers b :=
          peers_setPeer_ne s _ hne
        have hchannel : ∀ p, (broadcast (setPeer s a p) a msg).channel a b =
            s.channel a b ++ [msg] := fun p => if_pos ⟨rfl, hne⟩
        simp only [pending, arriving, hchannel]
        simp only [broadcast, hb, peers_setPeer_self, outgoing, hmap, List.map_append,
          List.map_cons, List.map_nil, ← Multiset.coe_add, Multiset.coe_singleton,
          ← Multiset.singleton_add]
        abel
      · have hchannel : ∀ p, (broadcast (setPeer s i p) i msg).channel a b = s.channel a b :=
          fun p => if_neg fun hcond => ha hcond.1
        have hhandling : ((setPeer s i { s.peers i with
            announcing := (s.peers i).announcing.erase msg }).peers b).handling =
            (s.peers b).handling := by
          by_cases hb : b = i
          · rw [hb, peers_setPeer_self]
          · rw [peers_setPeer_ne s _ hb]
        have hout : (setPeer s i { s.peers i with
            announcing := (s.peers i).announcing.erase msg }).peers a = s.peers a :=
          peers_setPeer_ne s _ ha
        simp only [pending, arriving, hchannel]
        simp only [broadcast, hhandling, hout]
  · cases h

/-- Taking an announcement off its channel hands its edge to the handler. -/
theorem moves_receive {s s' : Room ι Key} {i j : ι} (h : step s (.receive i j) = some s') :
    Moves s s' := by
  simp only [step] at h
  split at h
  · rename_i msg rest hchannel hhandling
    cases h
    refine ⟨currentKey_setHandling _ i j _, fun a b _ => ?_⟩
    unfold pending arriving
    have hrest : ∀ h, (setHandling { s with channel := fun x y =>
        if x = j ∧ y = i then rest else s.channel x y } i j h).channel a b =
        if a = j ∧ b = i then rest else s.channel a b := fun _ => rfl
    rw [outgoing_setHandling, handling_setHandling, hrest]
    by_cases hab : a = j ∧ b = i
    · rw [if_pos hab, if_pos hab.symm, hab.1, hab.2, hchannel, hhandling]
      simp only [Option.toList_some, Option.toList_none, List.map_cons, List.map_nil,
        Handling.edge, ← Multiset.cons_coe, ← Multiset.singleton_add, Multiset.coe_nil, add_zero]
      abel
    · rw [if_neg hab, if_neg fun hcond => hab hcond.symm]
  · cases h

theorem moves_decrypted {s s' : Room ι Key} {i j : ι} (hrep : Replaces s (.decrypted i j))
    (h : step s (.decrypted i j) = some s') : Moves s s' := by
  simp only [step] at h
  split at h
  · rename_i msg key hhandling
    split at h
    · cases h
      exact moves_setHandling hhandling rfl
    · cases h
      exact moves_setHandling hhandling rfl
    · rename_i hfail hprev
      -- neither key is there to open the announcement
      simp only [Replaces, hhandling, hprev, ne_eq, not_true_eq_false, or_false] at hrep
      simp [decrypt, hrep] at hfail
  · cases h

theorem moves_retried {s s' : Room ι Key} {i j : ι} (hrep : Replaces s (.retried i j))
    (h : step s (.retried i j) = some s') : Moves s s' := by
  simp only [step] at h
  split at h
  · rename_i msg key hhandling
    split at h
    · cases h
      exact moves_setHandling hhandling rfl
    · rename_i hfail
      simp only [Replaces, hhandling] at hrep
      simp [decrypt, hrep] at hfail
  · cases h

theorem moves_graceExpired {s s' : Room ι Key} {i : ι} (h : step s (.graceExpired i) = some s') :
    Moves s s' := by
  simp only [step] at h
  split at h
  · cases h
    exact moves_setPeer rfl rfl rfl
  · cases h

/-- A peer's own new key becomes an edge to all others. -/
theorem installs_generated {s s' : Room ι Key} {i : ι} {oldKey newKey : Key}
    (hrep : Replaces s (.generated i oldKey newKey))
    (h : step s (.generated i oldKey newKey) = some s') : Installs s s' i i (oldKey, newKey) := by
  simp only [step] at h
  split at h
  · rename_i hmem
    cases h
    refine ⟨hrep, ?_, fun k hk => ?_, fun a b hne => ?_⟩
    · rw [setRotator, peers_setPeer_self]
      rfl
    · rw [setRotator, peers_setPeer_ne s _ hk]
    · have harriving : arriving (setRotator s i
          ((s.peers i).rotator.generated oldKey newKey)) a b = arriving s a b := by
        unfold arriving
        by_cases hb : b = i
        · rw [hb, setRotator, peers_setPeer_self]
          rfl
        · rw [setRotator, peers_setPeer_ne s _ hb]
          rfl
      rw [pending, pending, harriving]
      by_cases ha : a = i
      · rw [if_neg (fun hcond => hne (hcond.1.trans ha.symm)), if_pos ⟨ha, ha⟩, ha, setRotator,
          peers_setPeer_self]
        simp only [outgoing, KeyRotator.generated, Multiset.cons_bind, bind_edge_erase hmem,
          Rotation.edge, zero_add, add_zero]
        abel
      · rw [if_neg (fun hcond => ha hcond.2), if_neg (fun hcond => ha hcond.1), setRotator,
          peers_setPeer_ne s _ ha]
  · cases h

/-- Accepting a key takes its edge. -/
theorem installs_accept {s s' : Room ι Key} {i j : ι} (hij : i ≠ j)
    (hrep : Replaces s (.accept i j)) (h : step s (.accept i j) = some s') :
    ∃ e, Installs s s' i j e := by
  simp only [step] at h
  split at h
  · rename_i msg hhandling
    cases h
    simp only [Replaces, hhandling] at hrep
    refine ⟨msg.edge, hrep, ?_, fun k hk => ?_, fun a b _ => ?_⟩
    · rw [peers_setPeer_self]
      rfl
    · rw [peers_setPeer_ne _ _ hk, currentKey_setHandling]
    · have hne : ¬(a = i ∧ a = j) := fun hcond => hij (hcond.1.symm.trans hcond.2)
      simp only [hne, if_false, add_zero, pending_install]
      exact pending_setHandling_none hhandling a b
  · cases h

theorem noSelf_step {s s' : Room ι Key} {a : Action ι Key} (hs : NoSelf s)
    (h : step s a = some s') : NoSelf s' := by
  have hother : ∀ {i j h}, (s.peers i).handling j = some h → i ≠ j := by
    rintro i j h hsome rfl
    rw [(hs i).2] at hsome
    cases hsome
  cases a <;> simp only [step] at h
  case fire i =>
    split at h
    · split at h
      · cases h
        exact noSelf_setPeer hs rfl
      · cases h
    · cases h
  case generated i oldKey newKey =>
    split at h
    · cases h
      exact noSelf_setPeer hs rfl
    · cases h
  case exported i oldKey newKey =>
    split at h
    · cases h
      exact noSelf_setPeer hs rfl
    · cases h
  case encrypted i msg =>
    split at h
    · cases h
      intro k
      have hk := noSelf_setPeer (p := { s.peers i with
        announcing := (s.peers i).announcing.erase msg }) hs rfl k
      refine ⟨?_, hk.2⟩
      show (if k = i ∧ k ≠ i then _ else _) = _
      rw [if_neg fun hcond => hcond.2 hcond.1]
      exact hk.1
    · cases h
  case receive i j =>
    split at h
    · rename_i msg rest hchannel hhandling
      cases h
      have hij : i ≠ j := by
        rintro rfl
        rw [(hs i).1] at hchannel
        cases hchannel
      refine noSelf_setHandling (fun k => ⟨?_, (hs k).2⟩) hij
      show (if k = j ∧ k = i then _ else _) = _
      rw [if_neg fun hcond => hij (hcond.2.symm.trans hcond.1)]
      exact (hs k).1
    · cases h
  case decrypted i j =>
    split at h
    · rename_i hhandling
      have hij := hother hhandling
      split at h <;> cases h <;> exact noSelf_setHandling hs hij
    · cases h
  case retried i j =>
    split at h
    · rename_i hhandling
      have hij := hother hhandling
      split at h <;> cases h <;> exact noSelf_setHandling hs hij
    · cases h
  case accept i j =>
    split at h
    · rename_i hhandling
      cases h
      exact noSelf_setPeer (noSelf_setHandling hs (hother hhandling)) rfl
    · cases h
  case graceExpired i =>
    split at h
    · cases h
      exact noSelf_setPeer hs rfl
    · cases h

/-- **What an action does**, when it replaces keys as announced. -/
theorem moves_or_installs {s s' : Room ι Key} {a : Action ι Key} (hs : NoSelf s)
    (hrep : Replaces s a) (h : step s a = some s') :
    Moves s s' ∨ ∃ i j e, Installs s s' i j e := by
  cases a with
  | fire i => exact .inl (moves_fire h)
  | generated i oldKey newKey => exact .inr ⟨i, i, _, installs_generated hrep h⟩
  | exported i oldKey newKey => exact .inl (moves_exported h)
  | encrypted i msg => exact .inl (moves_encrypted h)
  | receive i j => exact .inl (moves_receive h)
  | decrypted i j => exact .inl (moves_decrypted hrep h)
  | retried i j => exact .inl (moves_retried hrep h)
  | accept i j =>
      have hij : i ≠ j := by
        rintro rfl
        simp [step, (hs i).2] at h
      exact .inr ⟨i, j, installs_accept hij hrep h⟩
  | graceExpired i => exact .inl (moves_graceExpired h)

/-! ### Agreement -/

variable [Fintype ι]

/-- Every peer has walked from the first key along the edges it has installed,
and has installed or will install every edge that its owner has. -/
def Walked (key : Key) (s : Room ι Key) : Prop :=
  ∃ installed : ι → ι → Multiset (Key × Key),
    (∀ i, ∃ k, (s.peers i).rotator.currentKey = some k ∧ Balanced key (∑ j, installed i j) k) ∧
    ∀ a b, b ≠ a → installed b a + pending s a b = installed a a

omit [DecidableEq ι] [DecidableEq Key] in
theorem walked_startAll (key : Key) : Walked key (startAll key : Room ι Key) := by
  refine ⟨fun _ _ => 0, fun i => ⟨key, rfl, ?_⟩, fun a b _ => ?_⟩
  · rw [Finset.sum_const_zero]
    exact balanced_zero key
  · simp [pending, outgoing, arriving, startAll, KeyRotator.start, KeyRotator.stop, KeyRotator.new]

omit [DecidableEq ι] [DecidableEq Key] in
theorem Moves.walked {key : Key} {s s' : Room ι Key} (h : Moves s s') (hs : Walked key s) :
    Walked key s' := by
  obtain ⟨installed, hwalk, hall⟩ := hs
  refine ⟨installed, fun i => ?_, fun a b hne => ?_⟩
  · rw [h.currentKey]
    exact hwalk i
  · rw [h.pending a b hne]
    exact hall a b hne

omit [DecidableEq Key] in
theorem Installs.walked {key : Key} {s s' : Room ι Key} {i j : ι} {e : Key × Key}
    (h : Installs s s' i j e) (hs : Walked key s) : Walked key s' := by
  obtain ⟨installed, hwalk, hall⟩ := hs
  refine ⟨fun x y => installed x y + if x = i ∧ y = j then {e} else 0, fun k => ?_,
    fun a b hne => ?_⟩
  · by_cases hk : k = i
    · subst hk
      obtain ⟨cur, hcur, hbalanced⟩ := hwalk k
      obtain rfl : e.1 = cur := Option.some.inj (h.before.symm.trans hcur)
      refine ⟨e.2, h.after, ?_⟩
      have hsum : ∑ y, (installed k y + if k = k ∧ y = j then {e} else 0) =
          e ::ₘ ∑ y, installed k y := by
        simp only [true_and, Finset.sum_add_distrib, Finset.sum_ite_eq', Finset.mem_univ, if_true]
        rw [add_comm, Multiset.singleton_add]
      rw [hsum]
      exact hbalanced.step
    · obtain ⟨cur, hcur, hbalanced⟩ := hwalk k
      refine ⟨cur, (h.other k hk).trans hcur, ?_⟩
      simpa [hk] using hbalanced
  · have hpending := h.pending a b hne
    show installed b a + (if b = i ∧ a = j then {e} else 0) + KeyRotation.pending s' a b =
      installed a a + (if a = i ∧ a = j then {e} else 0)
    calc installed b a + (if b = i ∧ a = j then {e} else 0) + KeyRotation.pending s' a b
        = installed b a + (KeyRotation.pending s' a b + if b = i ∧ a = j then {e} else 0) := by abel
      _ = installed b a + (KeyRotation.pending s a b + if a = i ∧ a = j then {e} else 0) := by rw [hpending]
      _ = installed a a + (if a = i ∧ a = j then {e} else 0) := by rw [← add_assoc, hall a b hne]

omit [DecidableEq ι] [DecidableEq Key] [Fintype ι] in
theorem noSelf_startAll (key : Key) : NoSelf (startAll key : Room ι Key) := fun _ => ⟨rfl, rfl⟩

theorem walked_of_reachable {key : Key} {s : Room ι Key}
    (hs : ReachableVia step Replaces (startAll key) s) : NoSelf s ∧ Walked key s :=
  hs.invariant (I := fun s => NoSelf s ∧ Walked key s)
    ⟨noSelf_startAll key, walked_startAll key⟩ fun _ _ _ hs hrep h =>
    ⟨noSelf_step hs.1 h, (moves_or_installs hs.1 hrep h).elim (fun hm => hm.walked hs.2)
      fun ⟨_, _, _, hi⟩ => hi.walked hs.2⟩

omit [DecidableEq ι] [DecidableEq Key] [Fintype ι] in
theorem Idle.pending {s : Room ι Key} (h : Idle s) (a b : ι) : pending s a b = 0 := by
  simp [KeyRotation.pending, outgoing, arriving, h.rotations, h.announcing, h.channel, h.handling]

/-- **Key-rotation agreement.** In every run that installs keys only over the
keys they were announced under, the peers agree whenever nothing is under way. -/
theorem keys_agree {key : Key} {s : Room ι Key}
    (hs : ReachableVia step Replaces (startAll key) s) (hidle : Idle s) (i j : ι) :
    (s.peers i).rotator.currentKey = (s.peers j).rotator.currentKey := by
  obtain ⟨-, installed, hwalk, hall⟩ := walked_of_reachable hs
  have hsame : ∀ a b, installed b a = installed a a := by
    intro a b
    by_cases hne : b = a
    · rw [hne]
    · simpa [hidle.pending] using hall a b hne
  have hsum : ∑ a, installed i a = ∑ a, installed j a :=
    Finset.sum_congr rfl fun a _ => (hsame a i).trans (hsame a j).symm
  obtain ⟨x, hx, hbx⟩ := hwalk i
  obtain ⟨y, hy, hby⟩ := hwalk j
  rw [hsum] at hbx
  rw [hx, hy, hbx.unique hby]

/-- One rotation, delivered to the other peer. -/
def oneRotation : List (Action (Fin 2) ℕ) :=
  [.fire 0, .generated 0 0 1, .exported 0 0 1, .encrypted 0 ⟨0, 1⟩, .receive 1 0, .decrypted 1 0,
    .accept 1 0]

theorem oneRotation_runs :
    (execVia step Replaces (startAll 0 : Room (Fin 2) ℕ) oneRotation).isSome = true := by decide

theorem keys_agree_oneRotation :
    ((((execVia step Replaces (startAll 0) oneRotation).get oneRotation_runs).peers
      0).rotator.currentKey) =
    ((((execVia step Replaces (startAll 0) oneRotation).get oneRotation_runs).peers
      1).rotator.currentKey) :=
  keys_agree (reachableVia_get oneRotation_runs)
    ⟨by decide, by decide, by decide, by decide⟩ 0 1

/-- Two rotations that cross: each peer decrypts the other's announcement with
its previous key. -/
def crossingRotations : List (Action (Fin 2) ℕ) :=
  [.fire 0, .fire 1, .generated 0 0 1, .generated 1 0 2, .exported 0 0 1, .exported 1 0 2,
    .encrypted 0 ⟨0, 1⟩, .encrypted 1 ⟨0, 2⟩, .receive 0 1, .decrypted 0 1, .retried 0 1,
    .accept 0 1, .receive 1 0, .decrypted 1 0, .retried 1 0, .accept 1 0]

theorem crossingRotations_run :
    (exec step (startAll 0 : Room (Fin 2) ℕ) crossingRotations).isSome = true := by decide

/-- Each ends up with the other's key. -/
theorem crossing_rotations_disagree : ¬∀ s : Room (Fin 2) ℕ, Reachable step (startAll 0) s →
    Idle s → ∀ i j, (s.peers i).rotator.currentKey = (s.peers j).rotator.currentKey := by
  intro h
  have hkeys := h _ (reachable_get crossingRotations_run)
    ⟨by decide, by decide, by decide, by decide⟩ 0 1
  exact absurd hkeys (by decide)

end KeyRotation

end TrapChat.Client
