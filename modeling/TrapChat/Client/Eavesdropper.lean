import TrapChat.Client.KeyAgreement
import TrapChat.Library.Deduction

/-!
What can be learnt of a room's keys from its `key_rotation` messages. A rotated key goes through
the gateways and the relays, encrypted under the key before it. Who has none of the room's keys
learns none. Who has one of them follows every rotation after it and finds no older key.

The run remembers the keys in the order in which they came to be, and the announcements that
have been sent. `generateKey` makes a key that nobody has.
-/

namespace TrapChat.Client

open Transition Deduction

/-- A room with what is on the wire. -/
structure Tap (ι Key : Type) where
  room : Room ι Key
  keys : List Key
  sent : List (Sealed Key)

/-- The keys that a peer uses. -/
structure Peer.Within {ι Key : Type} (keys : List Key) (p : Peer ι Key) : Prop where
  currentKey : ∀ k ∈ p.rotator.currentKey, k ∈ keys
  previousKey : ∀ k ∈ p.rotator.previousKey, k ∈ keys
  keyRef : ∀ k ∈ p.keyRef, k ∈ keys
  generating : ∀ k, .generating k ∈ p.rotator.rotations → k ∈ keys

namespace Tap

open KeyRotation

variable {ι Key : Type}

def made : KeyRotation.Action ι Key → List Key
  | .generated _ _ newKey => [newKey]
  | _ => []

def announced : KeyRotation.Action ι Key → List (Sealed Key)
  | .encrypted _ msg => [msg]
  | _ => []

/-- The ciphertexts that are on the wire or will be. -/
def edges (t : Tap ι Key) : Set (Key × Key) :=
  {e | e ∈ t.sent.map Sealed.edge ∨ ∃ i, e ∈ outgoing (t.room.peers i)}

/-- What an eavesdropper opens. -/
def wire (t : Tap ι Key) : Set (Key × Key) := {e | e ∈ t.sent.map Sealed.edge}

section
variable [DecidableEq Key]

def startAll (key : Key) : Tap ι Key := ⟨KeyRotation.startAll key, [key], []⟩

def step [DecidableEq ι] (t : Tap ι Key) (a : KeyRotation.Action ι Key) : Option (Tap ι Key) :=
  (KeyRotation.step t.room a).map fun room => ⟨room, t.keys ++ made a, t.sent ++ announced a⟩

/-- A key that is made is a new one. -/
def Fresh (t : Tap ι Key) (a : KeyRotation.Action ι Key) : Prop := ∀ k ∈ made a, k ∉ t.keys

instance (t : Tap ι Key) (a : KeyRotation.Action ι Key) : Decidable (Fresh t a) :=
  inferInstanceAs (Decidable (∀ k ∈ made a, k ∉ t.keys))

/-- Every key but the first one is announced under an older one, and only what is announced is
installed. -/
structure Genuine (key : Key) (t : Tap ι Key) : Prop where
  nodup : t.keys.Nodup
  first : t.keys.head? = some key
  within : ∀ i, (t.room.peers i).Within t.keys
  older : ∀ e ∈ t.edges, Older t.keys e
  arriving : ∀ j i, ∀ e ∈ arriving t.room j i, e ∈ t.wire
  reached : ∀ k ∈ t.keys, k ≠ key → ∃ old, (old, k) ∈ t.edges

theorem genuine_startAll (key : Key) : Genuine key (startAll key : Tap ι Key) where
  nodup := List.nodup_singleton key
  first := rfl
  within := by
    intro i
    constructor <;> simp [startAll, KeyRotation.startAll, KeyRotator.start, KeyRotator.new,
      KeyRotator.stop]
  older := by
    rintro e (he | ⟨i, he⟩)
    · simp [startAll] at he
    · simp [startAll, KeyRotation.startAll, outgoing, KeyRotator.start, KeyRotator.new,
        KeyRotator.stop] at he
  arriving := by
    intro j i e he
    simp [startAll, KeyRotation.startAll, KeyRotation.arriving] at he
  reached := by
    intro k hk hne
    exact absurd (List.mem_singleton.mp hk) hne

end

/-! ### What a step changes -/

section
variable {s : Room ι Key} {p : Peer ι Key} {i j : ι} {e : Key × Key}

theorem mem_arriving : e ∈ arriving s j i ↔
    (∃ msg ∈ s.channel j i, msg.edge = e) ∨ ∃ h ∈ (s.peers i).handling j, h.edge = e := by
  simp [arriving]

theorem mem_outgoing : e ∈ outgoing p ↔
    e ∈ p.rotator.rotations.bind Rotation.edge ∨ ∃ msg ∈ p.announcing, msg.edge = e := by
  simp [outgoing]

variable [DecidableEq ι]

/-- The peers of a room in which one has changed. -/
theorem forall_peers_setPeer {P : Peer ι Key → Prop} (h : ∀ k, P (s.peers k)) (hp : P p) (k : ι) :
    P ((setPeer s i p).peers k) := by
  by_cases hk : k = i
  · rw [hk, peers_setPeer_self]
    exact hp
  · rw [peers_setPeer_ne s p hk]
    exact h k

theorem outgoing_setPeer (h : outgoing p = outgoing (s.peers i)) (k : ι) :
    outgoing ((setPeer s i p).peers k) = outgoing (s.peers k) := by
  by_cases hk : k = i
  · rw [hk, peers_setPeer_self, h]
  · rw [peers_setPeer_ne s p hk]

theorem handling_setPeer (h : p.handling = (s.peers i).handling) (k : ι) :
    ((setPeer s i p).peers k).handling = (s.peers k).handling := by
  by_cases hk : k = i
  · rw [hk, peers_setPeer_self, h]
  · rw [peers_setPeer_ne s p hk]

theorem arriving_setPeer (h : p.handling = (s.peers i).handling) (a b : ι) :
    arriving (setPeer s i p) a b = arriving s a b := by
  rw [arriving, handling_setPeer h]
  rfl

/-- The keys of a peer do not depend on its handlers. -/
theorem within_setHandling {keys : List Key} {x : Option (Handling Key)}
    (h : ∀ k, (s.peers k).Within keys) (k : ι) :
    ((KeyRotation.setHandling s i j x).peers k).Within keys := by
  have hp : Peer.Within keys
      { s.peers i with handling := Function.update (s.peers i).handling j x } :=
    ⟨(h i).currentKey, (h i).previousKey, (h i).keyRef, (h i).generating⟩
  exact forall_peers_setPeer h hp k

end

variable [DecidableEq Key] {key : Key} {t t' : Tap ι Key} {i j : ι}

/-- A step in which no key is made. -/
theorem Genuine.keep (h : Genuine key t) (hkeys : t'.keys = t.keys) (hedges : t'.edges = t.edges)
    (hwithin : ∀ i, (t'.room.peers i).Within t.keys)
    (harriving : ∀ j i, ∀ e ∈ KeyRotation.arriving t'.room j i, e ∈ t'.wire) :
    Genuine key t' where
  nodup := hkeys ▸ h.nodup
  first := hkeys ▸ h.first
  within := by
    rw [hkeys]
    exact hwithin
  older := by
    rw [hkeys, hedges]
    exact h.older
  arriving := harriving
  reached := by
    rw [hkeys, hedges]
    exact h.reached

/-- The peer encrypts or decrypts with the key. -/
def Uses (p : Peer ι Key) (k : Key) : Prop :=
  p.rotator.currentKey = some k ∨ p.rotator.previousKey = some k ∨ p.keyRef = some k

theorem Genuine.mem_keys_of_uses (h : Genuine key t) {k : Key} (hk : Uses (t.room.peers i) k) :
    k ∈ t.keys := by
  rcases hk with hcurrent | hprevious | href
  · exact (h.within i).currentKey k hcurrent
  · exact (h.within i).previousKey k hprevious
  · exact (h.within i).keyRef k href

variable [DecidableEq ι]

/-- One peer changes, and what it has to send stays. -/
theorem Genuine.setPeer (h : Genuine key t) {p : Peer ι Key}
    (hout : outgoing p = outgoing (t.room.peers i))
    (hhandling : p.handling = (t.room.peers i).handling) (hp : p.Within t.keys) :
    Genuine key { t with room := KeyRotation.setPeer t.room i p } := by
  refine h.keep rfl ?_ (forall_peers_setPeer h.within hp) fun a b e he => ?_
  · exact Set.ext fun e => or_congr_right (exists_congr fun k => by rw [outgoing_setPeer hout])
  · rw [arriving_setPeer hhandling] at he
    exact h.arriving a b e he

/-- A handler goes on, or takes an announcement from its channel. -/
theorem Genuine.setHandling (h : Genuine key t) {channel : ι → ι → List (Sealed Key)}
    {x : Option (Handling Key)}
    (hchannel : ∀ a b, ∀ msg ∈ channel a b, msg ∈ t.room.channel a b)
    (hx : ∀ y ∈ x, y.edge ∈ t.wire) :
    Genuine key
      { t with room := KeyRotation.setHandling { t.room with channel := channel } i j x } := by
  refine h.keep rfl ?_ (within_setHandling h.within) fun a b e he => ?_
  · exact Set.ext fun e => or_congr_right (exists_congr fun k => by rw [outgoing_setHandling])
  · rcases mem_arriving.mp he with ⟨msg, hmsg, rfl⟩ | ⟨y, hy, rfl⟩
    · exact h.arriving a b _ (mem_arriving.mpr (.inl ⟨msg, hchannel a b msg hmsg, rfl⟩))
    · rw [handling_setHandling] at hy
      split at hy
      · exact hx y hy
      · exact h.arriving a b _ (mem_arriving.mpr (.inr ⟨y, hy, rfl⟩))

/-- An announcement goes from its callback to the wire. -/
theorem Genuine.encrypted (h : Genuine key t) {msg : Sealed Key}
    (hmsg : msg ∈ (t.room.peers i).announcing) :
    Genuine key
      { t with
        room := broadcast (KeyRotation.setPeer t.room i
          { t.room.peers i with announcing := (t.room.peers i).announcing.erase msg }) i msg
        sent := t.sent ++ [msg] } := by
  have hsend : ∀ e, (∃ m ∈ (t.room.peers i).announcing, m.edge = e) ↔
      e = msg.edge ∨ ∃ m ∈ (t.room.peers i).announcing.erase msg, m.edge = e := by
    intro e
    conv_lhs => rw [← Multiset.cons_erase hmsg]
    simp [Multiset.mem_cons, eq_comm]
  have hpeers : ∀ k, (broadcast (KeyRotation.setPeer t.room i { t.room.peers i with
      announcing := (t.room.peers i).announcing.erase msg }) i msg).peers k =
      if k = i then { t.room.peers i with
        announcing := (t.room.peers i).announcing.erase msg } else t.room.peers k := by
    intro k
    by_cases hk : k = i
    · rw [if_pos hk, hk]
      exact peers_setPeer_self _ _ _
    · rw [if_neg hk]
      exact peers_setPeer_ne _ _ hk
  refine h.keep rfl (Set.ext fun e => ?_) (fun k => ?_) fun a b e he => ?_
  · simp only [edges, Set.mem_ofPred_eq, hpeers, List.map_append, List.mem_append,
      List.map_singleton, List.mem_singleton]
    constructor
    · rintro ((hsent | rfl) | ⟨k, hk⟩)
      · exact .inl hsent
      · exact .inr ⟨i, mem_outgoing.mpr (.inr ⟨msg, hmsg, rfl⟩)⟩
      · refine .inr ⟨k, ?_⟩
        split at hk
        · rename_i hki
          subst hki
          exact mem_outgoing.mpr ((mem_outgoing.mp hk).imp_right fun hm => (hsend e).mpr (.inr hm))
        · exact hk
    · rintro (hsent | ⟨k, hk⟩)
      · exact .inl (.inl hsent)
      · by_cases hki : k = i
        · subst hki
          rcases mem_outgoing.mp hk with hrotation | hm
          · exact .inr ⟨k, by
              rw [if_pos rfl]
              exact mem_outgoing.mpr (.inl hrotation)⟩
          · rcases (hsend e).mp hm with rfl | hrest
            · exact .inl (.inr rfl)
            · exact .inr ⟨k, by
                rw [if_pos rfl]
                exact mem_outgoing.mpr (.inr hrest)⟩
        · exact .inr ⟨k, by rwa [if_neg hki]⟩
  · rw [hpeers]
    split
    · exact ⟨(h.within i).currentKey, (h.within i).previousKey, (h.within i).keyRef,
        (h.within i).generating⟩
    · exact h.within k
  · rw [wire, Set.mem_ofPred_eq, List.map_append, List.mem_append]
    rcases mem_arriving.mp he with ⟨m, hm, rfl⟩ | ⟨y, hy, rfl⟩
    · simp only [broadcast] at hm
      split at hm
      · rcases List.mem_append.mp hm with hold | hnew
        · exact .inl (h.arriving a b _ (mem_arriving.mpr (.inl ⟨m, hold, rfl⟩)))
        · rw [List.mem_singleton.mp hnew]
          exact .inr (List.mem_singleton_self _)
      · exact .inl (h.arriving a b _ (mem_arriving.mpr (.inl ⟨m, hm, rfl⟩)))
    · rw [hpeers] at hy
      refine .inl (h.arriving a b _ (mem_arriving.mpr (.inr ⟨y, ?_, rfl⟩)))
      split at hy
      · rename_i hb
        rw [hb]
        exact hy
      · exact hy

/-- A rotation gets its new key. -/
theorem Genuine.generated (h : Genuine key t) {oldKey newKey : Key} (hfresh : newKey ∉ t.keys)
    (hrotation : .generating oldKey ∈ (t.room.peers i).rotator.rotations) :
    Genuine key
      { t with
        room := setRotator t.room i ((t.room.peers i).rotator.generated oldKey newKey)
        keys := t.keys ++ [newKey] } := by
  have hold : oldKey ∈ t.keys := (h.within i).generating oldKey hrotation
  have hout : outgoing { t.room.peers i with
      rotator := (t.room.peers i).rotator.generated oldKey newKey } =
      (oldKey, newKey) ::ₘ outgoing (t.room.peers i) := by
    simp only [outgoing, KeyRotator.generated, Multiset.cons_bind, bind_edge_erase hrotation,
      Rotation.edge, zero_add, Multiset.singleton_add, Multiset.cons_add]
  have hedges : ∀ e, e ∈ edges { t with
      room := setRotator t.room i ((t.room.peers i).rotator.generated oldKey newKey)
      keys := t.keys ++ [newKey] } ↔ e = (oldKey, newKey) ∨ e ∈ t.edges := by
    intro e
    simp only [edges, Set.mem_ofPred_eq]
    constructor
    · rintro (hsent | ⟨k, hk⟩)
      · exact .inr (.inl hsent)
      · by_cases hki : k = i
        · rw [hki, setRotator, peers_setPeer_self, hout, Multiset.mem_cons] at hk
          exact hk.imp_right fun he => .inr ⟨i, he⟩
        · rw [setRotator, peers_setPeer_ne _ _ hki] at hk
          exact .inr (.inr ⟨k, hk⟩)
    · rintro (rfl | hsent | ⟨k, hk⟩)
      · refine .inr ⟨i, ?_⟩
        rw [setRotator, peers_setPeer_self, hout]
        exact Multiset.mem_cons_self _ _
      · exact .inl hsent
      · refine .inr ⟨k, ?_⟩
        by_cases hki : k = i
        · rw [hki, setRotator, peers_setPeer_self, hout]
          rw [hki] at hk
          exact Multiset.mem_cons_of_mem hk
        · rwa [setRotator, peers_setPeer_ne _ _ hki]
  have hmore : ∀ {k}, k ∈ t.keys → k ∈ t.keys ++ [newKey] := fun hk => List.mem_append_left _ hk
  have hwithin : ∀ k, (t.room.peers k).Within (t.keys ++ [newKey]) := fun k =>
    ⟨fun x hx => hmore ((h.within k).currentKey x hx),
      fun x hx => hmore ((h.within k).previousKey x hx),
      fun x hx => hmore ((h.within k).keyRef x hx),
      fun x hx => hmore ((h.within k).generating x hx)⟩
  refine ⟨?_, ?_, ?_, fun e he => ?_, fun a b e he => ?_, fun k hk hne => ?_⟩
  · exact List.nodup_append.mpr ⟨h.nodup, List.nodup_singleton _, fun a ha b hb heq =>
      hfresh (List.mem_singleton.mp hb ▸ heq ▸ ha)⟩
  · rw [List.head?_append, h.first]
    rfl
  · refine forall_peers_setPeer hwithin ⟨?_, (hwithin i).previousKey, (hwithin i).keyRef, ?_⟩
    · intro k hk
      obtain rfl : newKey = k := Option.some.inj hk
      exact List.mem_append_right _ (List.mem_singleton_self _)
    · intro k hk
      rcases Multiset.mem_cons.mp hk with hexporting | hrest
      · cases hexporting
      · exact (hwithin i).generating k (Multiset.mem_of_mem_erase hrest)
  · rcases (hedges e).mp he with rfl | hedge
    · exact older_concat hold hfresh
    · exact (h.older e hedge).append _
  · have hsame : KeyRotation.arriving (setRotator t.room i
        ((t.room.peers i).rotator.generated oldKey newKey)) a b =
        KeyRotation.arriving t.room a b := by
      rw [setRotator]
      exact arriving_setPeer (p := { t.room.peers i with
        rotator := (t.room.peers i).rotator.generated oldKey newKey }) rfl a b
    rw [hsame] at he
    exact h.arriving a b e he
  · rcases List.mem_append.mp hk with hk | hk
    · obtain ⟨old, hedge⟩ := h.reached k hk hne
      exact ⟨old, (hedges _).mpr (.inr hedge)⟩
    · rw [List.mem_singleton.mp hk]
      exact ⟨oldKey, (hedges _).mpr (.inl rfl)⟩

theorem Genuine.step {a : KeyRotation.Action ι Key} (h : Genuine key t) (hfresh : Fresh t a)
    (hstep : t.step a = some t') : Genuine key t' := by
  obtain ⟨room, hroom, rfl⟩ := Option.map_eq_some_iff.mp hstep
  have hwithin := h.within
  cases a with
  | fire i =>
      simp only [made, announced, List.append_nil]
      rw [KeyRotation.step] at hroom
      split at hroom
      · rename_i oldKey hcurrent
        split at hroom
        · cases hroom
          refine h.setPeer (by simp [outgoing, KeyRotator.rotate, Rotation.edge]) rfl
            ⟨(hwithin i).currentKey, ?_, (hwithin i).keyRef, ?_⟩
          · intro k hk
            obtain rfl : oldKey = k := Option.some.inj hk
            exact (hwithin i).currentKey oldKey hcurrent
          · intro k hk
            rcases Multiset.mem_cons.mp hk with hnew | hold
            · cases hnew
              exact (hwithin i).currentKey oldKey hcurrent
            · exact (hwithin i).generating k hold
        · cases hroom
      · cases hroom
  | generated i oldKey newKey =>
      simp only [made, announced, List.append_nil]
      rw [KeyRotation.step] at hroom
      split at hroom
      · cases hroom
        exact h.generated (hfresh newKey (List.mem_singleton_self _)) ‹_›
      · cases hroom
  | exported i oldKey newKey =>
      simp only [made, announced, List.append_nil]
      rw [KeyRotation.step] at hroom
      split at hroom
      · rename_i hrotation
        cases hroom
        refine h.setPeer ?_ rfl ⟨(hwithin i).currentKey, (hwithin i).previousKey,
          (hwithin i).currentKey, fun k hk => ?_⟩
        · simp only [outgoing, bind_edge_erase hrotation]
          simp [onRotate, KeyRotator.exported, Rotation.edge, Sealed.edge]
        · exact (hwithin i).generating k (Multiset.mem_of_mem_erase hk)
      · cases hroom
  | encrypted i msg =>
      simp only [made, announced, List.append_nil]
      rw [KeyRotation.step] at hroom
      split at hroom
      · cases hroom
        exact h.encrypted ‹_›
      · cases hroom
  | receive i j =>
      simp only [made, announced, List.append_nil]
      rw [KeyRotation.step] at hroom
      split at hroom
      · rename_i msg rest hchannel hidle
        cases hroom
        refine h.setHandling (fun a b m hm => ?_) fun y hy => ?_
        · split at hm
          · rename_i hab
            rw [hab.1, hab.2, hchannel]
            exact List.mem_cons_of_mem _ hm
          · exact hm
        · cases hy
          have hmem : msg ∈ t.room.channel j i := by
            rw [hchannel]
            exact List.mem_cons_self
          exact h.arriving j i _ (mem_arriving.mpr (.inl ⟨msg, hmem, rfl⟩))
      · cases hroom
  | decrypted i j =>
      simp only [made, announced, List.append_nil]
      rw [KeyRotation.step] at hroom
      split at hroom
      · rename_i msg k hhandling
        have hmsg := h.arriving j i _ (mem_arriving.mpr (.inr ⟨_, hhandling, rfl⟩))
        split at hroom
        · cases hroom
          exact h.setHandling (fun _ _ _ hm => hm) fun y hy => Option.some.inj hy ▸ hmsg
        · cases hroom
          exact h.setHandling (fun _ _ _ hm => hm) fun y hy => Option.some.inj hy ▸ hmsg
        · cases hroom
          exact h.setHandling (fun _ _ _ hm => hm) fun y hy => by cases hy
      · cases hroom
  | retried i j =>
      simp only [made, announced, List.append_nil]
      rw [KeyRotation.step] at hroom
      split at hroom
      · rename_i msg k hhandling
        have hmsg := h.arriving j i _ (mem_arriving.mpr (.inr ⟨_, hhandling, rfl⟩))
        split at hroom
        · cases hroom
          exact h.setHandling (fun _ _ _ hm => hm) fun y hy => Option.some.inj hy ▸ hmsg
        · cases hroom
          exact h.setHandling (fun _ _ _ hm => hm) fun y hy => by cases hy
      · cases hroom
  | accept i j =>
      simp only [made, announced, List.append_nil]
      rw [KeyRotation.step] at hroom
      split at hroom
      · rename_i msg hhandling
        cases hroom
        have hmsg := h.arriving j i _ (mem_arriving.mpr (.inr ⟨_, hhandling, rfl⟩))
        have hcontent : msg.content ∈ t.keys := (h.older msg.edge (.inl hmsg)).2
        have hnone : Genuine key
            { t with room := KeyRotation.setHandling t.room i j none } :=
          h.setHandling (fun _ _ _ hm => hm) fun y hy => by cases hy
        have hpeer := hnone.within i
        refine hnone.setPeer rfl rfl ⟨fun k hk => ?_, hpeer.currentKey, fun k hk => ?_,
          hpeer.generating⟩
        · obtain rfl : msg.content = k := Option.some.inj hk
          exact hcontent
        · obtain rfl : msg.content = k := Option.some.inj hk
          exact hcontent
      · cases hroom
  | graceExpired i =>
      simp only [made, announced, List.append_nil]
      rw [KeyRotation.step] at hroom
      split at hroom
      · cases hroom
        exact h.setPeer rfl rfl ⟨(hwithin i).currentKey, (fun k hk => by cases hk),
          (hwithin i).keyRef, (hwithin i).generating⟩
      · cases hroom

theorem genuine_of_reachable (hs : ReachableVia step Fresh (startAll key) t) : Genuine key t :=
  hs.invariant (genuine_startAll key) fun _ _ _ hI hC hstep => hI.step hC hstep

/-! ### What is learnt -/

/-- **Outsiders learn no key.** In every run, who has no key of the room and reads every
announcement has no key of the room still: none that a peer uses, and nothing new at all. -/
theorem outsiders_learn_nothing (hs : ReachableVia step Fresh (startAll key) t)
    {known : Set Key} (hknown : ∀ k ∈ known, k ∉ t.keys) :
    (∀ i k, Uses (t.room.peers i) k → ¬Derivable t.wire known k) ∧
    ∀ k, Derivable t.wire known k ↔ k ∈ known := by
  have hgenuine := genuine_of_reachable hs
  have hshut : ∀ e ∈ t.wire, e.1 ∉ known := fun e he hin =>
    hknown e.1 hin (hgenuine.older e (.inl he)).mem_left
  refine ⟨fun i k huses hderivable => ?_, fun k => derivable_iff_of_shut hshut⟩
  exact hknown k ((derivable_iff_of_shut hshut).mp hderivable) (hgenuine.mem_keys_of_uses huses)

/-- **A key leads to the keys after it.** In every run, who has one key of the room finds no
older one among the announcements; and once all announcements are sent, who has the first key
has every key that a peer uses, however often they have been rotated and whoever is still a
member. -/
theorem rotations_lead_forward (hs : ReachableVia step Fresh (startAll key) t) :
    (∀ k ∈ t.keys, ∀ k', Derivable t.wire {k} k' →
      k' ∈ t.keys ∧ t.keys.idxOf k ≤ t.keys.idxOf k') ∧
    ((∀ i, outgoing (t.room.peers i) = 0) →
      ∀ i k, Uses (t.room.peers i) k → Derivable t.wire {key} k) := by
  have hgenuine := genuine_of_reachable hs
  have holder : ∀ e ∈ t.wire, Older t.keys e := fun e he => hgenuine.older e (.inl he)
  refine ⟨fun k hk k' hderivable => ⟨?_, ?_⟩, fun hquiet i k huses => ?_⟩
  · have hknown : ({k} : Set Key) ⊆ {x | x ∈ t.keys} :=
      fun x hx => Set.mem_singleton_iff.mp hx ▸ hk
    exact hderivable.mem_of_closed hknown fun e he _ => (holder e he).2
  · exact hderivable.idxOf_le holder fun a ha => (Set.mem_singleton_iff.mp ha ▸ le_rfl)
  · refine derivable_of_root (Set.mem_singleton key) holder (fun a ha hne => ?_)
      (hgenuine.mem_keys_of_uses huses)
    obtain ⟨old, hsent | ⟨j, hj⟩⟩ := hgenuine.reached a ha hne
    · exact ⟨old, hsent⟩
    · rw [hquiet j] at hj
      exact absurd hj (Multiset.notMem_zero _)

/-- Two peers, and one rotation that the other one accepts. -/
def rotatesOnce : List (KeyRotation.Action Bool ℕ) :=
  [.fire true, .generated true 0 1, .exported true 0 1, .encrypted true ⟨0, 1⟩,
    .receive false true, .decrypted false true, .accept false true]

theorem outsiders_learn_nothing_rotatesOnce : ∃ t : Tap Bool ℕ,
    execVia step Fresh (startAll 0) rotatesOnce = some t ∧ Uses (t.room.peers false) 1 ∧
    ¬Derivable t.wire {5} 1 := by
  have hrun : (execVia step Fresh (startAll 0 : Tap Bool ℕ) rotatesOnce).isSome = true := by decide
  have hkeys : ((execVia step Fresh (startAll 0 : Tap Bool ℕ) rotatesOnce).get hrun).keys =
      [0, 1] := rfl
  refine ⟨_, (Option.some_get hrun).symm, .inl rfl,
    (outsiders_learn_nothing (reachableVia_get hrun) fun k hk => ?_).1 false 1 (.inl rfl)⟩
  rw [hkeys, Set.mem_singleton_iff.mp hk]
  decide

theorem rotations_lead_forward_rotatesOnce : ∃ t : Tap Bool ℕ,
    execVia step Fresh (startAll 0) rotatesOnce = some t ∧ Derivable t.wire {0} 1 ∧
    ¬Derivable t.wire {1} 0 := by
  have hrun : (execVia step Fresh (startAll 0 : Tap Bool ℕ) rotatesOnce).isSome = true := by decide
  have hkeys : ((execVia step Fresh (startAll 0 : Tap Bool ℕ) rotatesOnce).get hrun).keys =
      [0, 1] := rfl
  obtain ⟨hforward, hfollow⟩ := rotations_lead_forward (reachableVia_get hrun)
  refine ⟨_, (Option.some_get hrun).symm, hfollow (fun i => ?_) false 1 (.inl rfl), fun h => ?_⟩
  · cases i <;> rfl
  · have hle := (hforward 1 (by rw [hkeys]; decide) 0 h).2
    rw [hkeys] at hle
    exact absurd hle (by decide)

end Tap

end TrapChat.Client
