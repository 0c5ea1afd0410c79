import Mathlib.Data.List.Chain

/-!
Lists in which a letter does not stand twice in a row, and the removal of the places
where it does: one pass from left to right, which takes out two of the letter at a
time. A run of the letter then has one left, or none, so that what is left has no two
in a row.
-/

namespace Doubles

variable {α β : Type*} {x : α}

/-- No two of `x` in a row. -/
def Single (x : α) (l : List α) : Prop := l.IsChain fun a b => ¬(a = x ∧ b = x)

theorem single_iff {l : List α} : Single x l ↔ ¬[x, x] <:+: l := by
  constructor
  · intro h hinfix
    have hpair : [x, x].IsChain fun a b => ¬(a = x ∧ b = x) :=
      List.IsChain.infix h hinfix
    exact List.isChain_pair.mp hpair ⟨rfl, rfl⟩
  · intro h
    refine (List.isChain_isInfix l).imp fun a b hinfix hdouble => h ?_
    rwa [hdouble.1, hdouble.2] at hinfix

/-- What replaces other letters by other letters makes no double. -/
theorem Single.map {l : List α} (h : Single x l) {f : α → β} {y : β} (hf : ∀ a, f a = y → a = x) :
    Single y (l.map f) := by
  refine (List.isChain_map f).mpr (List.IsChain.imp (fun a b hne hdouble => hne ?_) h)
  exact ⟨hf a hdouble.1, hf b hdouble.2⟩

theorem Single.take {l : List α} (h : Single x l) (n : ℕ) : Single x (l.take n) :=
  List.IsChain.take h n

variable [DecidableEq α] [DecidableEq β]

/-- The removal of non-overlapping doubles of `x`, from left to right. -/
def dropDoubles (x : α) : List α → List α
  | a :: b :: rest => if a = x ∧ b = x then dropDoubles x rest else a :: dropDoubles x (b :: rest)
  | l => l

theorem dropDoubles_double (x : α) (rest : List α) :
    dropDoubles x (x :: x :: rest) = dropDoubles x rest := by
  rw [dropDoubles, if_pos ⟨rfl, rfl⟩]

theorem dropDoubles_cons {a b : α} (h : ¬(a = x ∧ b = x)) (rest : List α) :
    dropDoubles x (a :: b :: rest) = a :: dropDoubles x (b :: rest) := by
  rw [dropDoubles, if_neg h]

/-- Other letters stay. -/
theorem dropDoubles_cons_of_ne {a : α} (h : a ≠ x) (rest : List α) :
    dropDoubles x (a :: rest) = a :: dropDoubles x rest := by
  cases rest with
  | nil => rfl
  | cons b rest => exact dropDoubles_cons (fun hdouble => h hdouble.1) rest

/-- **No doubles are left.** -/
theorem single_dropDoubles (x : α) (l : List α) : Single x (dropDoubles x l) := by
  fun_induction dropDoubles x l with
  | case1 a b rest hdouble ih => exact ih
  | case2 a b rest hdouble ih =>
      refine List.IsChain.cons ih fun c hc hdouble' => ?_
      -- the letter stays only before another one, which stays, too
      have hb : b ≠ x := fun heq => hdouble ⟨hdouble'.1, heq⟩
      rw [dropDoubles_cons_of_ne hb, List.head?_cons, Option.mem_some_iff] at hc
      exact hb (hc.trans hdouble'.2)
  | case3 l hshort =>
      cases l with
      | nil => exact List.isChain_nil
      | cons a rest =>
          cases rest with
          | nil => exact List.isChain_singleton a
          | cons b rest => exact absurd rfl (hshort a b rest)

/-- Where there are none, nothing is removed. -/
theorem dropDoubles_of_single {l : List α} (h : Single x l) : dropDoubles x l = l := by
  induction l with
  | nil => rfl
  | cons a rest ih =>
      cases rest with
      | nil => rfl
      | cons b rest =>
          obtain ⟨hhead, htail⟩ := List.isChain_cons_cons.mp h
          rw [dropDoubles_cons hhead, ih htail]

/-- The equations of the removal determine it. -/
theorem eq_dropDoubles {g : List α → List α} (hnil : g [] = [])
    (hdouble : ∀ rest, g (x :: x :: rest) = g rest)
    (hcons : ∀ a rest, (a = x → rest.head? ≠ some x) → g (a :: rest) = a :: g rest)
    (l : List α) : g l = dropDoubles x l := by
  fun_induction dropDoubles x l with
  | case1 a b rest heq ih =>
      obtain ⟨rfl, rfl⟩ := heq
      exact (hdouble rest).trans ih
  | case2 a b rest hne ih =>
      rw [hcons a (b :: rest) fun ha hb => hne ⟨ha, Option.some.inj hb⟩, ih]
  | case3 l hshort =>
      cases l with
      | nil => exact hnil
      | cons a rest =>
          cases rest with
          | nil => rw [hcons a [] fun _ => nofun, hnil]
          | cons b rest => exact absurd rfl (hshort a b rest)

/-- A code that writes the letter as one letter, and no other one with it. -/
structure Codes (f : α → List β) (x : α) (y : β) : Prop where
  single : f x = [y]
  apart : ∀ a, a ≠ x → f a ≠ [] ∧ y ∉ f a

/-- Letters that are none of `y` stay as they are. -/
theorem dropDoubles_append {y : β} {l : List β} (h : y ∉ l) (rest : List β) :
    dropDoubles y (l ++ rest) = l ++ dropDoubles y rest := by
  induction l with
  | nil => rfl
  | cons b l ih =>
      obtain ⟨hb, hl⟩ := not_or.mp (mt List.mem_cons.mpr h)
      rw [List.cons_append, dropDoubles_cons_of_ne (Ne.symm hb), ih hl, List.cons_append]

/-- **Doubles are removed before or after the text is coded.** -/
theorem flatMap_dropDoubles {f : α → List β} {y : β} (hf : Codes f x y) (l : List α) :
    (dropDoubles x l).flatMap f = dropDoubles y (l.flatMap f) := by
  fun_induction dropDoubles x l with
  | case1 a b rest hdouble ih =>
      obtain ⟨rfl, rfl⟩ := hdouble
      rw [List.flatMap_cons, List.flatMap_cons, hf.single]
      exact ih.trans (dropDoubles_double y _).symm
  | case2 a b rest hdouble ih =>
      rw [List.flatMap_cons, ih]
      by_cases ha : a = x
      · have hb : b ≠ x := fun heq => hdouble ⟨ha, heq⟩
        obtain ⟨hne, hnotMem⟩ := hf.apart b hb
        obtain ⟨c, code, hcode⟩ := List.exists_cons_of_ne_nil hne
        have hc : c ≠ y := by
          rintro rfl
          rw [hcode] at hnotMem
          exact hnotMem List.mem_cons_self
        rw [ha, List.flatMap_cons, List.flatMap_cons, List.flatMap_cons, hf.single, hcode]
        exact (dropDoubles_cons (fun hdouble' => hc hdouble'.2) _).symm
      · exact (dropDoubles_append (hf.apart a ha).2 _).symm
  | case3 l hshort =>
      cases l with
      | nil => rfl
      | cons a rest =>
          cases rest with
          | nil =>
              rw [List.flatMap_singleton]
              by_cases ha : a = x
              · rw [ha, hf.single]
                rfl
              · have hcode := dropDoubles_append (hf.apart a ha).2 []
                rw [List.append_nil] at hcode
                exact (hcode.trans (List.append_nil _)).symm
          | cons b rest => exact absurd rfl (hshort a b rest)

end Doubles
