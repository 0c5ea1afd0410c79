import Mathlib.Data.List.Nodup
import Mathlib.Data.Set.Basic

/-!
Resources that stand on shelves, each in one place. New ones come to the end of a shelf, those
at its beginning go and are released; a resource can also be made without a place, and then it
is lost. Every resource stands somewhere, is released, or is lost.
-/

/-- `shown` are the shelves. -/
structure Placed {ι κ : Type*} (shown : ι → List κ) (made released lost : Set κ) : Prop where
  live : ∀ i, ∀ u ∈ shown i, u ∈ made ∧ u ∉ released ∧ u ∉ lost
  once : ∀ i j u, u ∈ shown i → u ∈ shown j → i = j
  nodup : ∀ i, (shown i).Nodup
  kept : ∀ u ∈ made, u ∈ released ∨ u ∈ lost ∨ ∃ i, u ∈ shown i
  released : ∀ u ∈ released, u ∈ made ∧ u ∉ lost
  lost : ∀ u ∈ lost, u ∈ made

namespace Placed

variable {ι κ : Type*} {shown : ι → List κ} {made made' released released' lost lost' : Set κ}
  {i : ι} {fresh gone rest : List κ} {u : κ}

theorem start : Placed (fun _ : ι => ([] : List κ)) ∅ ∅ ∅ := by
  constructor <;> simp

/-- What is not made is nowhere. -/
theorem notMem_of_fresh (h : Placed shown made released lost) (hu : u ∉ made) :
    u ∉ released ∧ u ∉ lost ∧ ∀ j, u ∉ shown j :=
  ⟨fun hr => hu (h.released u hr).1, fun hl => hu (h.lost u hl), fun j hj => hu (h.live j u hj).1⟩

/-- A resource is made without a place. -/
theorem lose (h : Placed shown made released lost) (hfresh : ∀ u ∈ fresh, u ∉ made)
    (hmade : ∀ u, u ∈ made' ↔ u ∈ made ∨ u ∈ fresh)
    (hlost : ∀ u, u ∈ lost' ↔ u ∈ lost ∨ u ∈ fresh) : Placed shown made' released lost' where
  live := by
    intro j u hu
    obtain ⟨hm, hr, hl⟩ := h.live j u hu
    refine ⟨(hmade u).mpr (.inl hm), hr, fun hl' => ?_⟩
    exact ((hlost u).mp hl').elim hl fun hf => hfresh u hf hm
  once := h.once
  nodup := h.nodup
  kept := by
    intro u hu
    rcases (hmade u).mp hu with hm | hf
    · exact (h.kept u hm).imp_right (Or.imp_left fun hl => (hlost u).mpr (.inl hl))
    · exact .inr (.inl ((hlost u).mpr (.inr hf)))
  released := by
    intro u hu
    obtain ⟨hm, hl⟩ := h.released u hu
    refine ⟨(hmade u).mpr (.inl hm), fun hl' => ?_⟩
    exact ((hlost u).mp hl').elim hl fun hf => hfresh u hf hm
  lost := by
    intro u hu
    exact (hmade u).mpr (((hlost u).mp hu).imp_left (h.lost u))

/-- The shelf with what comes to it. -/
theorem nodup_append (h : Placed shown made released lost) (hfresh : ∀ u ∈ fresh, u ∉ made)
    (hnodup : fresh.Nodup) (hsplit : shown i ++ fresh = gone ++ rest) :
    (gone ++ rest).Nodup := by
  rw [← hsplit]
  exact (h.nodup i).append hnodup fun u hu hf => hfresh u hf (h.live i u hu).1

theorem mem_split (hsplit : shown i ++ fresh = gone ++ rest) :
    u ∈ gone ∨ u ∈ rest ↔ u ∈ shown i ∨ u ∈ fresh := by
  rw [← List.mem_append, ← hsplit, List.mem_append]

/-- What is on the shelf after the new ones have come, and what goes from it. -/
theorem standing (h : Placed shown made released lost) (hfresh : ∀ u ∈ fresh, u ∉ made)
    (hsplit : shown i ++ fresh = gone ++ rest) (hu : u ∈ gone ∨ u ∈ rest) :
    (u ∈ made ∨ u ∈ fresh) ∧ u ∉ released ∧ u ∉ lost ∧ ∀ j, j ≠ i → u ∉ shown j := by
  rcases (mem_split hsplit).mp hu with hold | hf
  · obtain ⟨hm, hr, hl⟩ := h.live i u hold
    exact ⟨.inl hm, hr, hl, fun j hj hin => hj (h.once j i u hin hold)⟩
  · obtain ⟨hr, hl, hnowhere⟩ := h.notMem_of_fresh (hfresh u hf)
    exact ⟨.inr hf, hr, hl, fun j _ => hnowhere j⟩

/-- New resources come to a shelf, and those at its beginning are released. -/
theorem replace [DecidableEq ι] (h : Placed shown made released lost) (hfresh : ∀ u ∈ fresh, u ∉ made)
    (hnodup : fresh.Nodup) (hsplit : shown i ++ fresh = gone ++ rest)
    (hmade : ∀ u, u ∈ made' ↔ u ∈ made ∨ u ∈ fresh)
    (hreleased : ∀ u, u ∈ released' ↔ u ∈ released ∨ u ∈ gone) :
    Placed (Function.update shown i rest) made' released' lost where
  live := by
    intro j u hu
    by_cases hj : j = i
    · subst hj
      rw [Function.update_self] at hu
      obtain ⟨hm, hr, hl, -⟩ := h.standing hfresh hsplit (.inr hu)
      refine ⟨(hmade u).mpr hm, fun hr' => ?_, hl⟩
      have hdisjoint := List.disjoint_of_nodup_append (h.nodup_append hfresh hnodup hsplit)
      exact ((hreleased u).mp hr').elim hr fun hgone => hdisjoint hgone hu
    · rw [Function.update_of_ne hj] at hu
      obtain ⟨hm, hr, hl⟩ := h.live j u hu
      refine ⟨(hmade u).mpr (.inl hm), fun hr' => ?_, hl⟩
      exact ((hreleased u).mp hr').elim hr fun hgone =>
        (h.standing hfresh hsplit (.inl hgone)).2.2.2 j hj hu
  once := by
    have hother : ∀ j u, j ≠ i → u ∈ Function.update shown i rest j → u ∈ shown j ∧ u ∉ rest := by
      intro j u hj hu
      rw [Function.update_of_ne hj] at hu
      exact ⟨hu, fun hrest => (h.standing hfresh hsplit (.inr hrest)).2.2.2 j hj hu⟩
    intro j k u hj hk
    by_cases hji : j = i
    · by_cases hki : k = i
      · rw [hji, hki]
      · rw [hji, Function.update_self] at hj
        exact absurd hj (hother k u hki hk).2
    · by_cases hki : k = i
      · rw [hki, Function.update_self] at hk
        exact absurd hk (hother j u hji hj).2
      · exact h.once j k u (hother j u hji hj).1 (hother k u hki hk).1
  nodup := by
    intro j
    by_cases hj : j = i
    · subst hj
      rw [Function.update_self]
      exact (h.nodup_append hfresh hnodup hsplit).of_append_right
    · rw [Function.update_of_ne hj]
      exact h.nodup j
  kept := by
    intro u hu
    have hhere : u ∈ gone ∨ u ∈ rest → u ∈ released' ∨ u ∈ lost ∨
        ∃ j, u ∈ Function.update shown i rest j := by
      rintro (hgone | hrest)
      · exact .inl ((hreleased u).mpr (.inr hgone))
      · exact .inr (.inr ⟨i, by rwa [Function.update_self]⟩)
    rcases (hmade u).mp hu with hm | hf
    · rcases h.kept u hm with hr | hl | ⟨j, hj⟩
      · exact .inl ((hreleased u).mpr (.inl hr))
      · exact .inr (.inl hl)
      · by_cases hji : j = i
        · exact hhere ((mem_split hsplit).mpr (.inl (hji ▸ hj)))
        · exact .inr (.inr ⟨j, by rwa [Function.update_of_ne hji]⟩)
    · exact hhere ((mem_split hsplit).mpr (.inr hf))
  released := by
    intro u hu
    rcases (hreleased u).mp hu with hr | hgone
    · exact ⟨(hmade u).mpr (.inl (h.released u hr).1), (h.released u hr).2⟩
    · obtain ⟨hm, -, hl, -⟩ := h.standing hfresh hsplit (.inl hgone)
      exact ⟨(hmade u).mpr hm, hl⟩
  lost := fun u hu => (hmade u).mpr (.inl (h.lost u hu))

end Placed
