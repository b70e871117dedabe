import Mathlib.Data.List.Lex
import Mathlib.Order.Lattice

/-!
# Rdns.Lib — Ordered maps

A map as the list of its entries in the order of their keys, which is what iterating over
an ordered tree gives. `alter` is the one way in: what a value becomes is a function of
what was there. Its lookup laws need no ordering, and the ordering is kept by every
operation.
-/

namespace Rdns.Lib

abbrev SortedMap (κ ν : Type) := List (κ × ν)

namespace SortedMap

variable {κ ν μ α : Type} [LinearOrder κ]

def alter (key : κ) (f : Option ν → ν) : SortedMap κ ν → SortedMap κ ν
  | [] => [(key, f none)]
  | (k, v) :: rest =>
    if key = k then (key, f (some v)) :: rest
    else if key < k then (key, f none) :: (k, v) :: rest
    else (k, v) :: alter key f rest

def insert (key : κ) (value : ν) (m : SortedMap κ ν) : SortedMap κ ν := alter key (fun _ => value) m

def get (m : SortedMap κ ν) (key : κ) : Option ν :=
  (m.find? fun entry => entry.1 = key).map Prod.snd

def Ordered (m : SortedMap κ ν) : Prop := m.Pairwise fun a b => a.1 < b.1

theorem ordered_nil : Ordered ([] : SortedMap κ ν) := List.Pairwise.nil

theorem get_cons (k key : κ) (v : ν) (rest : SortedMap κ ν) :
    get ((k, v) :: rest) key = if k = key then some v else get rest key := by
  rw [get, List.find?_cons]
  by_cases h : k = key
  · simp [h]
  · simp [h, get]

theorem get_alter_self (key : κ) (f : Option ν → ν) (m : SortedMap κ ν) :
    Ordered m → get (alter key f m) key = some (f (get m key)) := by
  intro hm
  induction m with
  | nil => simp [alter, get]
  | cons entry rest ih =>
    obtain ⟨k, v⟩ := entry
    rw [alter]
    split
    · rename_i heq
      rw [get_cons, if_pos rfl, get_cons, if_pos heq.symm]
    · rename_i hne
      split
      · rename_i hlt
        -- the keys after `k` are greater still, so `key` is not among them
        have hnone : get ((k, v) :: rest) key = none := by
          rw [get_cons, if_neg (Ne.symm hne), get, Option.map_eq_none_iff, List.find?_eq_none]
          intro e he
          have hlater := (List.pairwise_cons.mp hm).1 e he
          simp only [decide_eq_true_eq]
          exact (lt_trans hlt hlater).ne'
        rw [get_cons, if_pos rfl, hnone]
      · rw [get_cons, if_neg (Ne.symm hne), get_cons, if_neg (Ne.symm hne)]
        exact ih (List.pairwise_cons.mp hm).2

variable {m : SortedMap κ ν} {key k : κ} {xs : List α}

theorem get_alter_ne {other : κ} (hne : other ≠ key) (f : Option ν → ν) (m : SortedMap κ ν) :
    get (alter key f m) other = get m other := by
  induction m with
  | nil => rw [alter, get_cons, if_neg (Ne.symm hne)]
  | cons entry rest ih =>
    obtain ⟨k, v⟩ := entry
    rw [alter]
    split
    · rename_i heq
      rw [get_cons, get_cons, if_neg (Ne.symm hne), if_neg (heq ▸ Ne.symm hne)]
    · split
      · rw [get_cons, if_neg (Ne.symm hne)]
      · rw [get_cons, get_cons, ih]

theorem of_mem_alter {f : Option ν → ν} {entry : κ × ν} (h : entry ∈ alter key f m) :
    entry ∈ m ∨ ∃ old, entry.2 = f old ∧ ∀ value, old = some value → (key, value) ∈ m := by
  induction m with
  | nil => grind [alter]
  | cons head rest ih =>
    obtain ⟨k, v⟩ := head
    rw [alter] at h
    split at h
    · grind
    · split at h
      · rcases List.mem_cons.mp h with rfl | h
        · exact .inr ⟨none, rfl, fun value hvalue => by cases hvalue⟩
        · exact .inl h
      · rcases List.mem_cons.mp h with rfl | h
        · exact .inl List.mem_cons_self
        · rcases ih h with h | ⟨old, hold, hmem⟩
          · exact .inl (List.mem_cons_of_mem _ h)
          · exact .inr ⟨old, hold, fun value hvalue => List.mem_cons_of_mem _ (hmem value hvalue)⟩

theorem mem_alter_key {f : Option ν → ν} {entry : κ × ν} (h : entry ∈ alter key f m) :
    entry.1 = key ∨ entry ∈ m := by
  induction m with
  | nil => exact .inl (congrArg Prod.fst (List.mem_singleton.mp h))
  | cons first rest ih =>
    obtain ⟨k, v⟩ := first
    rw [alter] at h
    split at h
    · grind
    · split at h
      · rcases List.mem_cons.mp h with h | h
        · exact .inl (congrArg Prod.fst h)
        · exact .inr h
      · rcases List.mem_cons.mp h with h | h
        · exact .inr (h ▸ List.mem_cons_self)
        · exact (ih h).imp_right (List.mem_cons_of_mem _)

theorem Ordered.alter (hm : Ordered m) (key : κ) (f : Option ν → ν) : Ordered (alter key f m) := by
  induction m with
  | nil => exact List.pairwise_singleton _ _
  | cons first rest ih =>
    obtain ⟨k, v⟩ := first
    obtain ⟨hfirst, hrest⟩ := List.pairwise_cons.mp hm
    rw [SortedMap.alter]
    split
    · rename_i heq
      subst heq
      exact List.pairwise_cons.mpr ⟨hfirst, hrest⟩
    · rename_i hne
      split
      · rename_i hlt
        refine List.pairwise_cons.mpr ⟨fun e he => ?_, hm⟩
        rcases List.mem_cons.mp he with rfl | he
        · exact hlt
        · exact lt_trans hlt (hfirst e he)
      · rename_i hnlt
        refine List.pairwise_cons.mpr ⟨fun e he => ?_, ih hrest⟩
        rcases mem_alter_key he with hkey | he
        · rw [hkey]
          exact lt_of_le_of_ne (not_lt.mp hnlt) (Ne.symm hne)
        · exact hfirst e he

/-- **An ordered map's entries are what looking up gives.** -/
theorem mem_iff_get (hm : Ordered m) {value : ν} : (key, value) ∈ m ↔ get m key = some value := by
  induction m with
  | nil => simp [get]
  | cons first rest ih =>
    obtain ⟨k, v⟩ := first
    obtain ⟨hfirst, hrest⟩ := List.pairwise_cons.mp hm
    rw [get_cons, List.mem_cons]
    by_cases hk : k = key
    · grind
    · rw [if_neg hk, ← ih hrest]
      constructor
      · grind
      · exact .inr

theorem Ordered.filter (hm : Ordered m) (p : κ × ν → Bool) : Ordered (m.filter p) :=
  List.Pairwise.sublist List.filter_sublist hm

def mapValues (g : ν → μ) (m : SortedMap κ ν) : SortedMap κ μ := m.map fun entry => (entry.1, g entry.2)

theorem Ordered.mapValues (hm : Ordered m) (g : ν → μ) : Ordered (mapValues g m) :=
  List.pairwise_map.mpr hm

theorem get_mapValues (m : SortedMap κ ν) (g : ν → μ) (key : κ) :
    get (mapValues g m) key = (get m key).map g := by
  induction m with
  | nil => rfl
  | cons first rest ih =>
    obtain ⟨k, v⟩ := first
    show get ((k, g v) :: mapValues g rest) key = _
    rw [get_cons, get_cons, ih]
    split <;> rfl

/-! ## A map built by a pass over a list -/

def collect (key : α → κ) (f : α → Option ν → ν) (xs : List α) (m : SortedMap κ ν) :
    SortedMap κ ν :=
  xs.foldl (fun m x => alter (key x) (f x) m) m

theorem Ordered.collect (hm : Ordered m) (key : α → κ) (f : α → Option ν → ν) (xs : List α) :
    Ordered (collect key f xs m) := by
  induction xs generalizing m with
  | nil => exact hm
  | cons x xs ih => exact ih (hm.alter _ _)

theorem get_collect_filter (hm : Ordered m) (key : α → κ) (f : α → Option ν → ν) (xs : List α)
    (k : κ) :
    get (collect key f xs m) k =
      (xs.filter fun x => key x = k).foldl (fun value x => some (f x value)) (get m k) := by
  induction xs generalizing m with
  | nil => rfl
  | cons x xs ih =>
    show get (collect key f xs (alter (key x) (f x) m)) k = _
    rw [ih (hm.alter _ _), List.filter_cons]
    by_cases hk : key x = k
    · subst hk
      rw [get_alter_self _ _ _ hm, if_pos (decide_eq_true rfl), List.foldl_cons]
    · rw [get_alter_ne (Ne.symm hk), if_neg (by simpa using hk)]

theorem get_collect (hm : Ordered m) (key : α → κ) (f : α → Option ν → ν) (xs : List α) (k : κ) :
    ∃ keyed : List α, keyed.Sublist xs ∧ (∀ x, x ∈ keyed ↔ x ∈ xs ∧ key x = k) ∧
      get (collect key f xs m) k = keyed.foldl (fun value x => some (f x value)) (get m k) := by
  refine ⟨_, List.filter_sublist, fun x => ?_, get_collect_filter hm key f xs k⟩
  rw [List.mem_filter, decide_eq_true_eq]

theorem exists_of_get_collect {key : α → κ} {f : α → Option ν → ν} {v : ν}
    (h : get (collect key f xs []) k = some v) : ∃ x ∈ xs, key x = k := by
  obtain ⟨keyed, -, hkeyed, hget⟩ := get_collect ordered_nil key f xs k
  cases keyed with
  | nil =>
    rw [hget] at h
    cases h
  | cons x keyed => exact ⟨x, (hkeyed x).mp List.mem_cons_self⟩

/-! ## Entries put in one after the other -/

theorem mem_insert (hm : Ordered m) {value v : ν} :
    (k, v) ∈ insert key value m ↔ (k = key ∧ v = value) ∨ (k ≠ key ∧ (k, v) ∈ m) := by
  rw [insert, mem_iff_get (hm.alter _ _), mem_iff_get hm]
  by_cases hk : k = key
  · grind [get_alter_self]
  · grind [get_alter_ne]

theorem Ordered.foldl_insert (hm : Ordered m) (key : α → κ) (value : α → ν) (xs : List α) :
    Ordered (xs.foldl (fun m x => insert (key x) (value x) m) m) := by
  induction xs generalizing m with
  | nil => exact hm
  | cons x xs ih => exact ih (hm.alter _ _)

theorem of_mem_foldl_insert (hm : Ordered m) {key : α → κ} {value : α → ν} {v : ν}
    (h : (k, v) ∈ xs.foldl (fun m x => insert (key x) (value x) m) m) :
    (k, v) ∈ m ∨ ∃ x ∈ xs, k = key x ∧ v = value x := by
  induction xs generalizing m with
  | nil => exact .inl h
  | cons x xs ih =>
    rcases ih (hm.alter _ _) h with hmem | ⟨y, hy, hyk⟩
    · rcases (mem_insert hm).mp hmem with hnew | ⟨-, hold⟩
      · exact .inr ⟨x, List.mem_cons_self, hnew⟩
      · exact .inl hold
    · exact .inr ⟨y, List.mem_cons_of_mem _ hy, hyk⟩

theorem exists_mem_foldl_insert (hm : Ordered m) {key : α → κ} {value : α → ν}
    (h : (∃ v, (k, v) ∈ m) ∨ ∃ x ∈ xs, k = key x) :
    ∃ v, (k, v) ∈ xs.foldl (fun m x => insert (key x) (value x) m) m := by
  induction xs generalizing m with
  | nil => grind
  | cons x xs ih =>
    refine ih (hm.alter _ _) ?_
    rcases h with ⟨v, hv⟩ | ⟨y, hy, hyk⟩
    · by_cases hk : k = key x
      · exact .inl ⟨value x, (mem_insert hm).mpr (.inl ⟨hk, rfl⟩)⟩
      · exact .inl ⟨v, (mem_insert hm).mpr (.inr ⟨hk, hv⟩)⟩
    · rcases List.mem_cons.mp hy with rfl | hy
      · exact .inl ⟨value y, (mem_insert hm).mpr (.inl ⟨hyk, rfl⟩)⟩
      · exact .inr ⟨y, hy, hyk⟩

end SortedMap

end Rdns.Lib
