import Mathlib.Data.List.Basic

/-!
# Rdns.Lib — Hash maps

A hash map as its entries in no particular order: inserting replaces what was at the key.
-/

namespace Rdns.Lib

abbrev Entries (α β : Type) := List (α × β)

namespace Entries

variable {α β : Type} [DecidableEq α]

def get (entries : Entries α β) (key : α) : Option β :=
  (entries.find? fun entry => entry.1 = key).map Prod.snd

def remove (entries : Entries α β) (key : α) : Entries α β := entries.filter fun entry => entry.1 ≠ key

def insert (entries : Entries α β) (key : α) (value : β) : Entries α β := (key, value) :: entries.remove key

variable {entries : Entries α β} {key : α} {value : β}

theorem mem_of_get (h : entries.get key = some value) : (key, value) ∈ entries := by
  obtain ⟨entry, hentry, rfl⟩ := Option.map_eq_some_iff.mp h
  have hkey := List.find?_some hentry
  rw [← of_decide_eq_true hkey]
  exact List.mem_of_find?_eq_some hentry

theorem mem_insert {key' : α} {value' : β} :
    (key', value') ∈ entries.insert key value ↔
      (key' = key ∧ value' = value) ∨ ((key', value') ∈ entries ∧ key' ≠ key) := by
  rw [insert, List.mem_cons, Prod.mk.injEq, remove, List.mem_filter, decide_eq_true_eq]

theorem get_cons (key' key : α) (value : β) (rest : Entries α β) :
    get ((key', value) :: rest) key = if key' = key then some value else get rest key := by
  rw [get, List.find?_cons]
  by_cases h : key' = key
  · simp [h]
  · simp [h, get]

theorem get_remove_ne {other : α} (hne : other ≠ key) (entries : Entries α β) :
    (entries.remove key).get other = entries.get other := by
  induction entries with
  | nil => rfl
  | cons entry rest ih =>
    obtain ⟨k, v⟩ := entry
    rw [remove, List.filter_cons, get_cons]
    by_cases hk : k = key
    · rw [if_neg (by simpa using hk), if_neg (hk ▸ Ne.symm hne)]
      exact ih
    · rw [if_pos (by simpa using hk), get_cons]
      split
      · rfl
      · exact ih

theorem get_remove (entries : Entries α β) (key other : α) :
    (entries.remove key).get other = if other = key then none else entries.get other := by
  by_cases h : other = key
  · subst h
    rw [if_pos rfl, get, Option.map_eq_none_iff, List.find?_eq_none]
    intro entry hentry hkey
    exact of_decide_eq_true (List.mem_filter.mp hentry).2 (of_decide_eq_true hkey)
  · rw [if_neg h, get_remove_ne h]

/-- **Inserting changes the one key.** -/
theorem get_insert (entries : Entries α β) (key other : α) (value : β) :
    (entries.insert key value).get other = if other = key then some value else entries.get other := by
  rw [insert, get_cons]
  by_cases h : other = key
  · rw [if_pos h.symm, if_pos h]
  · rw [if_neg (Ne.symm h), if_neg h, get_remove_ne h]

theorem get_eq_none_iff : entries.get key = none ↔ ∀ e ∈ entries, e.1 ≠ key := by
  rw [get, Option.map_eq_none_iff, List.find?_eq_none]
  exact forall₂_congr fun e _ => by rw [decide_eq_true_eq]

theorem get_eq_some_of_mem (hnodup : (entries.map Prod.fst).Nodup) (h : (key, value) ∈ entries) :
    entries.get key = some value := by
  induction entries with
  | nil => cases h
  | cons entry rest ih =>
    obtain ⟨k, v⟩ := entry
    obtain ⟨hfresh, hnodup⟩ := List.nodup_cons.mp hnodup
    rw [get_cons]
    rcases List.mem_cons.mp h with heq | hrest
    · obtain ⟨rfl, rfl⟩ := Prod.mk.inj heq
      rw [if_pos rfl]
    · rw [if_neg fun heq => hfresh (List.mem_map.mpr ⟨_, hrest, heq.symm⟩)]
      exact ih hnodup hrest

theorem nodup_insert (hnodup : (entries.map Prod.fst).Nodup) :
    ((entries.insert key value).map Prod.fst).Nodup := by
  rw [insert, List.map_cons, List.nodup_cons]
  refine ⟨fun hmem => ?_, hnodup.sublist (List.filter_sublist.map _)⟩
  obtain ⟨e, he, hkey⟩ := List.mem_map.mp hmem
  exact of_decide_eq_true (List.mem_filter.mp he).2 hkey

theorem length_insert_le (entries : Entries α β) (key : α) (value : β) :
    (entries.insert key value).length ≤ entries.length + 1 := by
  rw [insert, List.length_cons]
  exact Nat.succ_le_succ (List.length_filter_le _ _)

theorem length_insert_held (value : β) (h : (entries.get key).isSome = true) :
    (entries.insert key value).length ≤ entries.length := by
  obtain ⟨held, hheld⟩ := Option.isSome_iff_exists.mp h
  have hlt : (entries.filter fun e => e.1 ≠ key).length < entries.length :=
    List.length_filter_lt_length_iff_exists.mpr ⟨_, mem_of_get hheld, by simp⟩
  rw [insert, List.length_cons]
  exact hlt

theorem get_forall₂ {γ : Type} {P : α → β → γ → Prop} {others : Entries α γ}
    (h : List.Forall₂ (fun a b => a.1 = b.1 ∧ P a.1 a.2 b.2) entries others) (key : α) :
    (entries.get key = none ∧ others.get key = none) ∨
      ∃ value other, entries.get key = some value ∧ others.get key = some other ∧ P key value other := by
  induction h with
  | nil => exact .inl ⟨rfl, rfl⟩
  | @cons a b entries others hab _ ih =>
    obtain ⟨k, v⟩ := a
    obtain ⟨k', w⟩ := b
    obtain ⟨rfl, hvw⟩ : k = k' ∧ P k v w := hab
    rw [get_cons, get_cons]
    by_cases hk : k = key
    · rw [if_pos hk, if_pos hk]
      exact .inr ⟨v, w, rfl, rfl, hk ▸ hvw⟩
    · rw [if_neg hk, if_neg hk]
      exact ih

end Entries

end Rdns.Lib
