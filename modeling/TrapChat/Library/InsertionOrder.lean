import Mathlib.Data.List.DropRight
import Mathlib.Data.List.Nodup
import Mathlib.Tactic.Linarith

/-!
Sets and maps that keep the order in which their keys were inserted, as lists, and
bounded by the eviction of the oldest key after an insertion.
-/

namespace InsertionOrder

variable {α κ ν : Type*} [DecidableEq κ]

/-- A key that is there keeps its place. -/
def add (l : List κ) (k : κ) : List κ := if k ∈ l then l else l ++ [k]

/-- A key that is there keeps its place and gets a new value. -/
def set (m : List (κ × ν)) (k : κ) (v : ν) : List (κ × ν) :=
  if k ∈ m.map Prod.fst then m.map fun entry => if entry.1 = k then (k, v) else entry
  else m ++ [(k, v)]

/-- The oldest entry goes where there are more than the bound. -/
def evict (bound : ℕ) (l : List α) : List α := if l.length > bound then l.tail else l

/-- Eviction after every push is eviction at the end. -/
theorem rtake_rtake_concat (l : List α) (x : α) (n : ℕ) :
    (l.rtake n ++ [x]).rtake n = (l ++ [x]).rtake n := by
  cases n with
  | zero => rw [List.rtake_zero, List.rtake_zero]
  | succ n =>
      rw [List.rtake_concat_succ, List.rtake_concat_succ]
      simp only [List.rtake_eq_reverse_take_reverse, List.reverse_reverse, List.take_take]
      rw [Nat.min_eq_left (Nat.le_succ n)]

theorem add_of_notMem {l : List κ} {k : κ} (h : k ∉ l) : add l k = l ++ [k] := if_neg h

theorem mem_add_iff {l : List κ} {k x : κ} : x ∈ add l k ↔ x ∈ l ∨ x = k := by
  unfold add
  split
  · next hk => exact ⟨.inl, fun h => h.elim id fun heq => heq ▸ hk⟩
  · rw [List.mem_append, List.mem_singleton]

theorem keys_set (m : List (κ × ν)) (k : κ) (v : ν) :
    (set m k v).map Prod.fst = add (m.map Prod.fst) k := by
  unfold set add
  split
  · rw [List.map_map]
    refine List.map_congr_left fun entry _ => ?_
    by_cases h : entry.1 = k
    · simp [h]
    · simp [h]
  · rw [List.map_append, List.map_singleton]

omit [DecidableEq κ] in
theorem map_evict (f : α → κ) (bound : ℕ) (l : List α) :
    (evict bound l).map f = evict bound (l.map f) := by
  unfold evict
  rw [List.length_map]
  split
  · rw [List.map_tail]
  · rfl

section
variable {bound : ℕ} {l : List κ} {k x : κ}

theorem nodup_add (h : l.Nodup) : (add l k).Nodup := by
  unfold add
  split
  · exact h
  · next hk => exact h.append (List.nodup_singleton k) (by simpa using hk)

theorem nodup_evict_add (h : l.Nodup) : (evict bound (add l k)).Nodup := by
  unfold evict
  split
  · exact (nodup_add h).sublist (List.tail_sublist _)
  · exact nodup_add h

omit [DecidableEq κ] in
theorem mem_of_mem_evict (h : x ∈ evict bound l) : x ∈ l := by
  unfold evict at h
  split at h
  · exact List.mem_of_mem_tail h
  · exact h

omit [DecidableEq κ] in
theorem evict_of_le (h : l.length ≤ bound) : evict bound l = l := if_neg (Nat.not_lt.mpr h)

theorem length_evict_add_le (h : l.length ≤ bound) : (evict bound (add l k)).length ≤ bound := by
  have hadd : (add l k).length ≤ l.length + 1 := by
    unfold add
    split
    · exact Nat.le_succ _
    · rw [List.length_append, List.length_singleton]
  unfold evict
  split
  · rw [List.length_tail]
    omega
  · next hle => exact Nat.not_lt.mp hle

/-- **What an insertion of a new key leaves**: the key, and what was there but the
oldest key of a full container. -/
theorem mem_evict_add_iff (hbound : 0 < bound) (hl : l.Nodup) (hk : k ∉ l) :
    x ∈ evict bound (add l k) ↔ x = k ∨ x ∈ l ∧ ¬(bound ≤ l.length ∧ l.head? = some x) := by
  rw [add_of_notMem hk, evict, List.length_append, List.length_singleton]
  cases l with
  | nil => simp [Nat.not_lt.mpr hbound]
  | cons oldest l =>
      have holdest : oldest ∉ l := (List.nodup_cons.mp hl).1
      split
      · next hfull =>
          have hle : bound ≤ (oldest :: l).length := by omega
          simp only [List.cons_append, List.tail_cons, List.mem_append, List.mem_cons,
            List.not_mem_nil, or_false, hle, true_and, List.head?_cons, Option.some.injEq]
          constructor
          · rintro (hx | rfl)
            · exact .inr ⟨.inr hx, fun heq => holdest (heq ▸ hx)⟩
            · exact .inl rfl
          · rintro (rfl | ⟨rfl | hx, hne⟩)
            · exact .inr rfl
            · exact absurd rfl hne
            · exact .inl hx
      · next hroom =>
          have hlt : ¬bound ≤ (oldest :: l).length := by omega
          simp only [List.mem_append, List.mem_singleton, hlt, false_and, not_false_eq_true,
            and_true]
          exact or_comm

end

/-! ### Looking up -/

section
variable {m : List (κ × ν)} {k x : κ} {v : ν} {bound : ℕ}

theorem lookup_eq_none_iff_notMem : m.lookup x = none ↔ x ∉ m.map Prod.fst := by
  rw [List.lookup_eq_none_iff]
  constructor
  · intro h hmem
    obtain ⟨entry, hentry, rfl⟩ := List.mem_map.mp hmem
    simpa using h entry hentry
  · intro h entry hentry
    have hne : x ≠ entry.1 := fun heq => h (heq ▸ List.mem_map_of_mem hentry)
    simpa using hne

/-- New values at one key. -/
theorem lookup_map_update (m : List (κ × ν)) (k x : κ) (v : ν) :
    (m.map fun entry => if entry.1 = k then (k, v) else entry).lookup x =
      if x = k then (m.lookup k).map fun _ => v else m.lookup x := by
  induction m with
  | nil => simp
  | cons entry m ih =>
      rw [List.map_cons, List.lookup_cons, ih, List.lookup_cons, List.lookup_cons]
      by_cases hx : x = k
      · by_cases hentry : k = entry.1
        · simp [hx, ← hentry]
        · have hbeq : (k == entry.1) = false := beq_eq_false_iff_ne.mpr hentry
          simp [hx, Ne.symm hentry, hbeq]
      · have hbeq : (x == k) = false := beq_eq_false_iff_ne.mpr hx
        by_cases hentry : entry.1 = k
        · simp [hx, hentry, hbeq]
        · simp [hx, hentry]

theorem lookup_set_self (m : List (κ × ν)) (k : κ) (v : ν) : (set m k v).lookup k = some v := by
  unfold set
  split
  · next hk =>
    rw [lookup_map_update, if_pos rfl]
    cases hl : m.lookup k with
    | none => exact absurd hk (lookup_eq_none_iff_notMem.mp hl)
    | some v' => rfl
  · next hk =>
    rw [List.lookup_append, lookup_eq_none_iff_notMem.mpr hk, Option.none_or,
      List.lookup_cons_self]

theorem lookup_set_of_ne (m : List (κ × ν)) (v : ν) (hne : x ≠ k) :
    (set m k v).lookup x = m.lookup x := by
  unfold set
  split
  · rw [lookup_map_update, if_neg hne]
  · have hbeq : (x == k) = false := beq_eq_false_iff_ne.mpr hne
    rw [List.lookup_append, List.lookup_cons, hbeq]
    exact Option.or_none

theorem lookup_evict (h : (m.map Prod.fst).Nodup) :
    (evict bound m).lookup x = m.lookup x ∨ (evict bound m).lookup x = none := by
  unfold evict
  split
  · cases m with
    | nil => exact .inl rfl
    | cons entry m =>
        by_cases hx : x = entry.1
        · refine .inr (lookup_eq_none_iff_notMem.mpr ?_)
          rw [hx]
          exact (List.nodup_cons.mp h).1
        · refine .inl ?_
          have hbeq : (x == entry.1) = false := beq_eq_false_iff_ne.mpr hx
          rw [List.tail_cons, List.lookup_cons, hbeq]
  · exact .inl rfl

end

/-! ### Bounded maps -/

/-- A map that evicts its oldest key when it has more than its bound. -/
structure BoundedMap (κ ν : Type*) (bound : ℕ) where
  entries : List (κ × ν)
  nodup : (entries.map Prod.fst).Nodup
  size : entries.length ≤ bound

namespace BoundedMap

variable {bound : ℕ}

def empty : BoundedMap κ ν bound := ⟨[], List.nodup_nil, Nat.zero_le _⟩

def keys (m : BoundedMap κ ν bound) : List κ := m.entries.map Prod.fst

def get (m : BoundedMap κ ν bound) (k : κ) : Option ν := m.entries.lookup k

omit [DecidableEq κ] in
theorem length_keys (m : BoundedMap κ ν bound) : m.keys.length = m.entries.length :=
  List.length_map _

theorem keys_evict_set (m : List (κ × ν)) (k : κ) (v : ν) :
    (evict bound (InsertionOrder.set m k v)).map Prod.fst =
      evict bound (add (m.map Prod.fst) k) := by
  rw [map_evict, keys_set]

def insert (m : BoundedMap κ ν bound) (k : κ) (v : ν) : BoundedMap κ ν bound where
  entries := evict bound (InsertionOrder.set m.entries k v)
  nodup := by
    rw [keys_evict_set]
    exact nodup_evict_add m.nodup
  size := by
    rw [← List.length_map Prod.fst, keys_evict_set]
    exact length_evict_add_le (by rw [List.length_map]; exact m.size)

variable {m : BoundedMap κ ν bound} {k x : κ} {v : ν}

theorem keys_insert : (m.insert k v).keys = evict bound (add m.keys k) := keys_evict_set _ _ _

theorem get_eq_none_iff : m.get x = none ↔ x ∉ m.keys := lookup_eq_none_iff_notMem

theorem mem_keys_insert_self (hbound : 0 < bound) : k ∈ (m.insert k v).keys := by
  rw [keys_insert]
  by_cases hk : k ∈ m.keys
  · rwa [add, if_pos hk, evict_of_le (m.length_keys ▸ m.size)]
  · exact (mem_evict_add_iff hbound m.nodup hk).mpr (.inl rfl)

/-- An entry is the one that was set, or has gone. -/
theorem get_insert (m : BoundedMap κ ν bound) (k : κ) (v : ν) (x : κ) :
    (m.insert k v).get x = (InsertionOrder.set m.entries k v).lookup x ∨
      (m.insert k v).get x = none := by
  refine lookup_evict ?_
  rw [keys_set]
  exact nodup_add m.nodup

/-- What was inserted is there. -/
theorem get_insert_self (hbound : 0 < bound) : (m.insert k v).get k = some v := by
  obtain h | h := get_insert m k v k
  · exact h.trans (lookup_set_self _ _ _)
  · exact absurd (mem_keys_insert_self hbound) (get_eq_none_iff.mp h)

/-- Other entries stay, or the oldest one goes. -/
theorem get_insert_of_ne (hne : x ≠ k) :
    (m.insert k v).get x = m.get x ∨ (m.insert k v).get x = none := by
  rw [← show (InsertionOrder.set m.entries k v).lookup x = m.get x from lookup_set_of_ne _ _ hne]
  exact get_insert m k v x

/-- As long as there is room, nothing goes. -/
theorem get_insert_of_room (hroom : (add m.keys k).length ≤ bound) (hne : x ≠ k) :
    (m.insert k v).get x = m.get x := by
  have hsize : (InsertionOrder.set m.entries k v).length ≤ bound := by
    rw [← List.length_map Prod.fst, keys_set]
    exact hroom
  show (evict bound (InsertionOrder.set m.entries k v)).lookup x = m.entries.lookup x
  rw [evict_of_le hsize, lookup_set_of_ne _ _ hne]

theorem mem_keys_insert (h : x ∈ (m.insert k v).keys) : x = k ∨ x ∈ m.keys := by
  rw [keys_insert] at h
  exact (mem_add_iff.mp (mem_of_mem_evict h)).symm

end BoundedMap

end InsertionOrder
