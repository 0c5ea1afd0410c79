import TrapChat.Relay.Consistency

/-!
Who is told when the members of a relay room change. Beside the relay stands the
last presence queued to each connection, all queues having room for it. A join, a
leave and a disconnect tell the members of one room how many they are; a join of
another room, a refused join and an eviction change a room whose members are told
nothing.
-/

namespace TrapChat.Relay

open Transition

/-- The last presence queued to each connection: the room and the count in it. -/
abbrev LastPresence := ConnId → Option (RoomName × ℕ)

/-- The last presence after what a handler has sent. -/
def told (last : LastPresence) : List Output → LastPresence
  | [] => last
  | .presence targets room count :: outs =>
      told (fun c => if c ∈ targets then some (room, count) else last c) outs
  | .error _ _ _ :: outs | .fanOut _ _ :: outs => told last outs

structure Watched where
  relay : State
  last : LastPresence

def newWatched : Watched where
  relay := newState
  last := fun _ => none

def watchedStep (rt : RustRuntime) (t : Watched) (e : Event) : Option Watched :=
  (handle rt t.relay e).map fun res => ⟨res.1, told t.last res.2⟩

/-- The last presence of every member of a registered room counts its members. -/
def PresenceCurrent (t : Watched) : Prop :=
  ∀ room r, t.relay.rooms.lookup room = some r →
    ∀ c ∈ r, ∃ q, t.last c = some (q, r.card)

/-- A step that changes a room, leaves somebody in it, and does not tell them: a join
of another room or a refused one out of a room with others in it, or an eviction. -/
def LeavesBehind (rt : RustRuntime) (s : State) : Event → Prop
  | .message c (some m) refuse _ => refusal rt c m = none ∧
      ((m.msgType = .join ∧ ∃ prev ∈ s.current c, (prev ≠ m.room ∨ JoinRefused s c m.room) ∧
          c ∈ s.members prev ∧ ∃ x ∈ s.members prev, x ≠ c) ∨
        (m.msgType.fansOut = true ∧ ∃ room ∈ s.current c,
          (∃ x ∈ s.members room, x ≠ c ∧ x ∈ refuse) ∧
            ∃ x ∈ s.members room, x = c ∨ x ∉ refuse))
  | _ => False

instance (rt : RustRuntime) (s : State) : (e : Event) → Decidable (LeavesBehind rt s e)
  | .message _ (some _) _ _ => inferInstanceAs (Decidable (_ ∧
      ((_ ∧ ∃ _ ∈ _, _ ∧ _ ∧ ∃ _ ∈ _, _) ∨ (_ ∧ ∃ _ ∈ _, (∃ _ ∈ _, _ ∧ _) ∧ ∃ _ ∈ _, _))))
  | .message _ none _ _ | .connect _ | .disconnect _ => .isFalse id

/-! ### What a handler tells -/

/-- The invariant: a member's last presence is of its room. -/
structure Counted (t : Watched) : Prop where
  placed : Placed t.relay
  last : ∀ room, ∀ c ∈ t.relay.members room,
    t.last c = some (room, (t.relay.members room).card)

/-- A handler that tells the members of `room` their number and nobody else anything,
and lets nobody into another room. -/
structure Announces (s : State) (res : State × List Output) (room : Option RoomName) : Prop where
  inside : ∀ last q, room = some q → ∀ c ∈ res.1.members q,
    told last res.2 c = some (q, (res.1.members q).card)
  outside : ∀ last c, (∀ q, room = some q → c ∉ res.1.members q) → told last res.2 c = last c
  shrinks : ∀ q, room ≠ some q → res.1.members q ⊆ s.members q

/-- A room that was changed, that somebody is in, and that is not told. -/
def LeftBehind (s s' : State) (room : Option RoomName) : Prop :=
  ∃ q, room ≠ some q ∧ s'.members q ≠ s.members q ∧ (s'.members q).Nonempty

section
variable {s : State} {last : LastPresence} {res : State × List Output} {room : Option RoomName}

theorem told_broadcastPresence (last : LastPresence) (s : State) (room : RoomName) (c : ConnId) :
    told last (broadcastPresence s room) c =
      if c ∈ s.members room then some (room, (s.members room).card) else last c := by
  unfold broadcastPresence
  cases hr : s.rooms.lookup room with
  | none => simp [told, State.members, hr]
  | some r => simp [told, State.members, hr]

/-- Whoever is told is in the room, and whoever is in another one is not. -/
theorem Announces.last_eq (ha : Announces s res room) (hp : Placed res.1) {q : RoomName}
    {c : ConnId} (hc : c ∈ res.1.members q) (hq : room ≠ some q) : told last res.2 c = last c := by
  refine ha.outside last c fun q' hq' hc' => hq ?_
  rw [hq', ← hp q' c hc', hp q c hc]

theorem Counted.announced (h : Counted ⟨s, last⟩) (hp : Placed res.1)
    (ha : Announces s res room) (hall : ¬LeftBehind s res.1 room) :
    Counted ⟨res.1, told last res.2⟩ := by
  refine ⟨hp, fun q c hc => ?_⟩
  by_cases hq : room = some q
  · exact ha.inside last q hq c hc
  · have hsame : res.1.members q = s.members q := by
      by_contra hne
      exact hall ⟨q, hq, hne, c, hc⟩
    have hlast := h.last q c (ha.shrinks q hq hc)
    dsimp only at hlast ⊢
    rw [ha.last_eq hp hc hq, hlast, hsame]

theorem Counted.left_behind (h : Counted ⟨s, last⟩) (hp : Placed res.1)
    (ha : Announces s res room) (hleft : LeftBehind s res.1 room) :
    ¬PresenceCurrent ⟨res.1, told last res.2⟩ := by
  intro hcurrent
  obtain ⟨q, hq, hne, c, hc⟩ := hleft
  -- the member's count is the one from before, and the room has lost somebody
  have hlast := h.last q c (ha.shrinks q hq hc)
  have hfewer : (res.1.members q).card < (s.members q).card :=
    Finset.card_lt_card (Finset.ssubset_iff_subset_ne.mpr ⟨ha.shrinks q hq, hne⟩)
  have hlookup : res.1.rooms.lookup q = some (res.1.members q) := by
    cases hr : res.1.rooms.lookup q with
    | none => simp [State.members, hr] at hc
    | some r => rw [State.members, hr, Option.getD_some]
  obtain ⟨q', hq'⟩ := hcurrent q _ hlookup c hc
  dsimp only at hq' hlast
  rw [ha.last_eq hp hc hq, hlast] at hq'
  have hcard := congrArg Prod.snd (Option.some.inj hq')
  dsimp only at hcard
  omega

theorem Counted.current {t : Watched} (h : Counted t) : PresenceCurrent t := by
  intro room r hr c hc
  have hmembers : t.relay.members room = r := by rw [State.members, hr, Option.getD_some]
  refine ⟨room, ?_⟩
  rw [h.last room c (hmembers ▸ hc), hmembers]

end

/-! ### Handler by handler -/

section
variable {s : State} {c : ConnId} {m : Message} {refuse : Finset ConnId}

/-- Nothing but errors and chat is sent. -/
theorem announces_none {s' : State} {outs : List Output} (htold : ∀ last, told last outs = last)
    (hshrinks : ∀ q, s'.members q ⊆ s.members q) : Announces s (s', outs) none where
  inside := fun _ _ h => by cases h
  outside := fun last c _ => congrFun (htold last) c
  shrinks := fun q _ => hshrinks q

/-- Presence of one room is all that is sent. -/
theorem announces_some (s' : State) {room : RoomName}
    (hshrinks : ∀ q, room ≠ q → s'.members q ⊆ s.members q) :
    Announces s (s', broadcastPresence s' room) (some room) where
  inside := by
    rintro last q ⟨⟩ c hc
    rw [told_broadcastPresence, if_pos hc]
  outside := by
    intro last c hout
    rw [told_broadcastPresence, if_neg (hout room rfl)]
  shrinks := fun q hq => hshrinks q fun h => hq (congrArg some h)

theorem not_leftBehind_of_same {s' : State} {room : Option RoomName}
    (h : ∀ q, s'.members q = s.members q) : ¬LeftBehind s s' room := by
  rintro ⟨q, -, hne, -⟩
  exact hne (h q)

/-- What is left behind where a connection leaves its current room. -/
theorem leftBehind_leave_iff {s' : State} {room : Option RoomName}
    (hmem : ∀ q x, room ≠ some q →
      (x ∈ s'.members q ↔ ¬(s.current c = some q ∧ x = c) ∧ x ∈ s.members q)) :
    LeftBehind s s' room ↔ ∃ prev ∈ s.current c, room ≠ some prev ∧ c ∈ s.members prev ∧
      ∃ x ∈ s.members prev, x ≠ c := by
  constructor
  · rintro ⟨q, hq, hne, x, hx⟩
    obtain ⟨hout, hxs⟩ := (hmem q x hq).mp hx
    have hleft : s.current c = some q ∧ c ∈ s.members q := by
      by_contra hstays
      refine hne (Finset.ext fun y => (hmem q y hq).trans (and_iff_right_of_imp fun hy => ?_))
      rintro ⟨hcur, rfl⟩
      exact hstays ⟨hcur, hy⟩
    exact ⟨q, hleft.1, hq, hleft.2, x, hxs, fun hxc => hout ⟨hleft.1, hxc⟩⟩
  · rintro ⟨prev, hprev, hroom, hc, x, hx, hxc⟩
    refine ⟨prev, hroom, fun hsame => ?_, x, (hmem prev x hroom).mpr ⟨fun h => hxc h.2, hx⟩⟩
    rw [← hsame] at hc
    exact ((hmem prev c hroom).mp hc).1 ⟨hprev, rfl⟩

theorem handleJoin_announces : ∃ room, Announces s (handleJoin s c m) room ∧
    (LeftBehind s (handleJoin s c m).1 room ↔ ∃ prev ∈ s.current c,
      (prev ≠ m.room ∨ JoinRefused s c m.room) ∧ c ∈ s.members prev ∧
        ∃ x ∈ s.members prev, x ≠ c) := by
  by_cases hrefused : JoinRefused s c m.room
  · obtain ⟨s', text, heq, -, hmembers⟩ := handleJoin_of_refused hrefused
    have hmem : ∀ q x, x ∈ s'.members q ↔ ¬(s.current c = some q ∧ x = c) ∧ x ∈ s.members q := by
      intro q x
      rw [hmembers q]
      exact State.mem_members_leaveCurrent
    rw [heq]
    refine ⟨none, announces_none (fun _ => rfl) fun q x hx => ((hmem q x).mp hx).2, ?_⟩
    rw [leftBehind_leave_iff fun q x _ => hmem q x]
    simp [hrefused]
  · rw [handleJoin_of_not_refused hrefused]
    have hmem : ∀ q x, some m.room ≠ some q →
        (x ∈ (((s.leaveCurrent c).openRoom m.room).enter m.room c).members q ↔
          ¬(s.current c = some q ∧ x = c) ∧ x ∈ s.members q) := by
      intro q x hq
      rw [mem_members_joined]
      exact or_iff_right fun h => hq (congrArg some h.1.symm)
    refine ⟨some m.room, announces_some _ fun q hq x hx => ?_, ?_⟩
    · exact ((hmem q x fun h => hq (Option.some.inj h)).mp hx).2
    · rw [leftBehind_leave_iff hmem]
      simp [hrefused, eq_comm]

theorem handleLeave_announces : ∃ room, Announces s (handleLeave s c) room ∧
    ¬LeftBehind s (handleLeave s c).1 room := by
  unfold handleLeave
  cases hcur : s.current c with
  | none =>
      exact ⟨none, announces_none (fun _ => rfl) fun _ => Finset.Subset.refl _,
        not_leftBehind_of_same fun _ => rfl⟩
  | some room =>
      have hmem : ∀ q x, some room ≠ some q →
          (x ∈ ((s.leaveRoom room c).setCurrent c none).members q ↔
            ¬(s.current c = some q ∧ x = c) ∧ x ∈ s.members q) := by
        intro q x hq
        rw [State.members_setCurrent, State.mem_members_leaveRoom, hcur, Option.some.injEq,
          eq_comm (a := q)]
      refine ⟨some room, ?_, ?_⟩
      · exact announces_some ((s.leaveRoom room c).setCurrent c none)
          fun q hq x hx => ((hmem q x fun h => hq (Option.some.inj h)).mp hx).2
      · rw [leftBehind_leave_iff hmem]
        rintro ⟨prev, hprev, hne, -⟩
        exact hne (hcur.symm.trans hprev)

/-- What is left behind where slow consumers are taken out of a room. -/
theorem leftBehind_evict_iff {room : RoomName} {stale : Finset ConnId} :
    LeftBehind s (s.evict room stale) none ↔
      (∃ x ∈ s.members room, x ∈ stale) ∧ ∃ x ∈ s.members room, x ∉ stale := by
  constructor
  · rintro ⟨q, -, hne, x, hx⟩
    obtain ⟨hout, hxs⟩ := State.mem_members_evict.mp hx
    have hlost : ∃ y ∈ s.members q, q = room ∧ y ∈ stale := by
      by_contra hnone
      refine hne (Finset.ext fun y => State.mem_members_evict.trans ?_)
      exact and_iff_right_of_imp fun hy hlost => hnone ⟨y, hy, hlost⟩
    obtain ⟨y, hy, rfl, hstale⟩ := hlost
    exact ⟨⟨y, hy, hstale⟩, x, hxs, fun hxstale => hout ⟨rfl, hxstale⟩⟩
  · rintro ⟨⟨y, hy, hstale⟩, x, hx, hkept⟩
    refine ⟨room, by simp, fun hsame => ?_, x, State.mem_members_evict.mpr ⟨?_, hx⟩⟩
    · rw [← hsame] at hy
      exact (State.mem_members_evict.mp hy).1 ⟨rfl, hstale⟩
    · exact fun h => hkept h.2

theorem fanOut_announces (m : Message) : Announces s (fanOut s c m refuse) none ∧
    (LeftBehind s (fanOut s c m refuse).1 none ↔ ∃ room ∈ s.current c,
      (∃ x ∈ s.members room, x ≠ c ∧ x ∈ refuse) ∧ ∃ x ∈ s.members room, x = c ∨ x ∉ refuse) := by
  unfold fanOut
  cases hcur : s.current c with
  | none =>
      refine ⟨announces_none (fun _ => rfl) fun _ => Finset.Subset.refl _, ?_⟩
      exact iff_of_false (not_leftBehind_of_same fun _ => rfl) (by simp)
  | some room =>
      dsimp only
      cases hr : s.rooms.lookup room with
      | none =>
          dsimp only
          refine ⟨announces_none (fun _ => rfl) fun _ => Finset.Subset.refl _, ?_⟩
          have hempty : s.members room = ∅ := by rw [State.members, hr, Option.getD_none]
          exact iff_of_false (not_leftBehind_of_same fun _ => rfl) (by simp [hempty])
      | some r =>
          have hmembers : s.members room = r := by rw [State.members, hr, Option.getD_some]
          dsimp only
          refine ⟨announces_none (fun _ => rfl) fun q x hx => (State.mem_members_evict.mp hx).2, ?_⟩
          rw [leftBehind_evict_iff, hmembers]
          simp only [Option.mem_some_iff, exists_eq_left', hmembers, Finset.mem_inter,
            Finset.mem_erase]
          constructor
          · rintro ⟨⟨y, hy, ⟨hyc, -⟩, hstale⟩, x, hx, hkept⟩
            refine ⟨⟨y, hy, hyc, hstale⟩, x, hx, ?_⟩
            by_contra hnot
            obtain ⟨hxc, href⟩ := not_or.mp hnot
            exact hkept ⟨⟨hxc, hx⟩, not_not.mp href⟩
          · rintro ⟨⟨y, hy, hyc, hstale⟩, x, hx, hkept⟩
            refine ⟨⟨y, hy, ⟨hyc, hy⟩, hstale⟩, x, hx, ?_⟩
            rintro ⟨⟨hxc, -⟩, href⟩
            exact hkept.elim hxc fun h => h href

/-- Every message tells the members of one room, or nobody. -/
theorem dispatch_announces (now : ℕ) : ∃ room,
    Announces s (dispatch s c { m with timestamp := now } refuse) room ∧
      (LeftBehind s (dispatch s c { m with timestamp := now } refuse).1 room ↔
        ((m.msgType = .join ∧ ∃ prev ∈ s.current c, (prev ≠ m.room ∨ JoinRefused s c m.room) ∧
            c ∈ s.members prev ∧ ∃ x ∈ s.members prev, x ≠ c) ∨
          (m.msgType.fansOut = true ∧ ∃ room ∈ s.current c,
            (∃ x ∈ s.members room, x ≠ c ∧ x ∈ refuse) ∧
              ∃ x ∈ s.members room, x = c ∨ x ∉ refuse))) := by
  unfold dispatch
  dsimp only
  split
  case h_1 htype =>
    obtain ⟨room, ha, hiff⟩ := handleJoin_announces (s := s) (c := c)
      (m := { m with timestamp := now })
    exact ⟨room, ha, by simpa [htype, MessageType.fansOut] using hiff⟩
  case h_7 htype =>
    obtain ⟨room, ha, hnot⟩ := handleLeave_announces (s := s) (c := c)
    exact ⟨room, ha, iff_of_false hnot (by simp [htype, MessageType.fansOut])⟩
  case h_2 htype | h_3 htype | h_4 htype | h_5 htype | h_6 htype =>
    obtain ⟨ha, hiff⟩ := fanOut_announces { m with timestamp := now }
    exact ⟨none, ha, by simpa [htype, MessageType.fansOut] using hiff⟩
  all_goals
    rename_i htype
    refine ⟨none, announces_none (fun _ => rfl) fun _ => Finset.Subset.refl _, ?_⟩
    exact iff_of_false (not_leftBehind_of_same fun _ => rfl) (by simp [htype, MessageType.fansOut])

end

/-! ### Runs -/

section
variable {rt : RustRuntime} {s : State} {e : Event} {res : State × List Output}

/-- Errors are all that a refused message brings. -/
theorem told_refusal {c : ConnId} {m : Message} {reply : Output} (h : refusal rt c m = some reply)
    (last : LastPresence) : told last [reply] = last := by
  obtain ⟨room, text, rfl⟩ := error_of_refusal h
  rfl

/-- A turn that changes nothing and tells nobody. -/
theorem announces_idle {outs : List Output} (htold : ∀ last, told last outs = last)
    (hnot : ¬LeavesBehind rt s e) :
    ∃ room, Announces s (s, outs) room ∧ (LeftBehind s s room ↔ LeavesBehind rt s e) :=
  ⟨none, announces_none htold fun _ => Finset.Subset.refl _,
    iff_of_false (not_leftBehind_of_same fun _ => rfl) hnot⟩

theorem handle_announces (h : handle rt s e = some res) :
    ∃ room, Announces s res room ∧ (LeftBehind s res.1 room ↔ LeavesBehind rt s e) := by
  cases e with
  | connect c =>
      simp only [handle, Option.ite_none_left_eq_some, Option.some.injEq] at h
      obtain ⟨-, rfl⟩ := h
      exact ⟨none, announces_none (fun _ => rfl) fun _ => Finset.Subset.refl _,
        iff_of_false (not_leftBehind_of_same fun _ => rfl) fun hf => hf⟩
  | disconnect c =>
      simp only [handle, Option.ite_none_right_eq_some, Option.some.injEq] at h
      obtain ⟨-, rfl⟩ := h
      obtain ⟨room, ha, hnot⟩ := handleLeave_announces (s := s) (c := c)
      exact ⟨room, ⟨ha.inside, ha.outside, ha.shrinks⟩, iff_of_false hnot fun hf => hf⟩
  | message c frame refuse now =>
      simp only [handle, Option.ite_none_right_eq_some, Option.some.injEq] at h
      obtain ⟨-, rfl⟩ := h
      cases frame with
      | none => exact announces_idle (fun _ => rfl) fun hf => hf
      | some m =>
          cases href : refusal rt c m with
          | some reply =>
              have hres : handleMessage rt s c (some m) refuse now = (s, [reply]) := by
                simp only [handleMessage, href]
              rw [hres]
              refine announces_idle (told_refusal href) fun hf => ?_
              cases href.symm.trans hf.1
          | none =>
              have hres : handleMessage rt s c (some m) refuse now =
                  dispatch s c { m with timestamp := now } refuse := by
                simp only [handleMessage, href]
              rw [hres]
              obtain ⟨room, ha, hiff⟩ := dispatch_announces now
              exact ⟨room, ha, hiff.trans (and_iff_right href).symm⟩

theorem counted_newWatched : Counted newWatched where
  placed := fun _ _ h => absurd h (Finset.notMem_empty _)
  last := fun _ _ h => absurd h (Finset.notMem_empty _)

end

/-- **Presence is current** after every step of a run exactly when no step of it
leaves the members of a room behind. -/
theorem presence_current_iff (rt : RustRuntime) (es : List Event) :
    Along (watchedStep rt) (fun _ _ t' => PresenceCurrent t') newWatched es ↔
      Along (watchedStep rt) (fun t e _ => ¬LeavesBehind rt t.relay e) newWatched es := by
  refine along_congr (I := Counted) (fun t e t' h hnot hstep => ?_) (fun t e t' h hstep => ?_)
    counted_newWatched
  all_goals
    obtain ⟨res, hres, rfl⟩ := Option.map_eq_some_iff.mp hstep
    obtain ⟨room, ha, hiff⟩ := handle_announces hres
    have hp : Placed res.1 := placed_step h.placed (Option.map_eq_some_iff.mpr ⟨res, hres, rfl⟩)
  · exact h.announced hp ha fun hleft => hnot (hiff.mp hleft)
  · constructor
    · intro hcurrent hleaves
      exact h.left_behind hp ha (hiff.mpr hleaves) hcurrent
    · intro hnot
      exact (h.announced hp ha fun hleft => hnot (hiff.mp hleft)).current

/-- Of the two connections in `x`, `a` goes to `y`. -/
def leavesX : List Event := twoInX ++ [.message "a" (some (joinMessage "y")) ∅ 0]

/-- **Who is left in a room by a join of another one still counts the connection.** -/
theorem left_in_x_counts_two :
    ¬∀ es, Along (watchedStep asciiRelay) (fun _ _ t' => PresenceCurrent t') newWatched es := by
  intro h
  have hall := h leavesX
  have hlast := (((((hall _ rfl).2 _ rfl).2 _ rfl).2 _ rfl).2 _ rfl).1
  obtain ⟨q, hq⟩ := hlast "x" {"b"} (by decide) "b" (by decide)
  have hone := congrArg (Option.map Prod.snd) hq
  change _ = some 1 at hone
  exact absurd hone (by decide)

end TrapChat.Relay
