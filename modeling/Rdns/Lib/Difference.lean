import Mathlib.Data.Multiset.UnionInter
import Rdns.Lib.SortedMap

/-!
# Rdns.Lib — What two lists differ by

Counting each element of one list up and each of another down, by a key, gives what has to
be taken out of the first and put into the second (`counts`, `deleted`, `added`). Both come
out as differences of multisets of keys (`map_key_deleted`, `map_key_added`), and `patch`
applies such a pair, refusing where something to take out is not there.
-/

namespace Rdns.Lib

namespace Difference

variable {κ α : Type} [LinearOrder κ] (key : α → κ)

def tally (step : Int) (x : α) : Option (α × Int) → α × Int
  | none => (x, step)
  | some (first, n) => (first, n + step)

def counts (old new : List α) : SortedMap κ (α × Int) :=
  SortedMap.collect key (tally (-1)) new (SortedMap.collect key (tally 1) old [])

def deleted (m : SortedMap κ (α × Int)) : List α :=
  m.flatMap fun entry => List.replicate entry.2.2.toNat entry.2.1

def added (m : SortedMap κ (α × Int)) : List α :=
  m.flatMap fun entry => List.replicate (-entry.2.2).toNat entry.2.1

/-! ## What is counted -/

def total (m : SortedMap κ (α × Int)) (k : κ) : Int := ((SortedMap.get m k).map fun entry => entry.2).getD 0

def Faithful (m : SortedMap κ (α × Int)) : Prop :=
  ∀ k entry, SortedMap.get m k = some entry → key entry.1 = k

variable {m : SortedMap κ (α × Int)}

theorem total_alter (hm : SortedMap.Ordered m) (step : Int) (x : α) (k : κ) :
    total (SortedMap.alter (key x) (tally step x) m) k = total m k + if key x = k then step else 0 := by
  rw [total, total]
  by_cases hk : key x = k
  · rw [← hk, SortedMap.get_alter_self _ _ _ hm, if_pos rfl]
    cases SortedMap.get m (key x) with
    | none => exact (Int.zero_add step).symm
    | some entry => rfl
  · rw [SortedMap.get_alter_ne (Ne.symm hk), if_neg hk, Int.add_zero]

theorem Faithful.alter (h : Faithful key m) (hm : SortedMap.Ordered m) (step : Int) (x : α) :
    Faithful key (SortedMap.alter (key x) (tally step x) m) := by
  intro k entry hget
  by_cases hk : k = key x
  · subst hk
    rw [SortedMap.get_alter_self _ _ _ hm, Option.some.injEq] at hget
    rw [← hget]
    cases hold : SortedMap.get m (key x) with
    | none => rfl
    | some held => exact h (key x) held hold
  · rw [SortedMap.get_alter_ne hk] at hget
    exact h k entry hget

/-- **A pass counts every element once.** -/
theorem total_collect (hm : SortedMap.Ordered m) (step : Int) (xs : List α) (k : κ) :
    total (SortedMap.collect key (tally step) xs m) k = total m k + step * ((xs.map key).count k : Int) := by
  induction xs generalizing m with
  | nil =>
    rw [List.map_nil, List.count_nil]
    show total m k = total m k + step * 0
    omega
  | cons x xs ih =>
    show total (SortedMap.collect key (tally step) xs (SortedMap.alter (key x) (tally step x) m)) k = _
    rw [ih (hm.alter _ _), total_alter key hm, List.map_cons, List.count_cons]
    by_cases hk : key x = k
    · rw [if_pos hk, if_pos (beq_iff_eq.mpr hk), Int.natCast_add, Int.mul_add]
      omega
    · rw [if_neg hk, if_neg (by simpa using hk), Int.add_zero, Nat.add_zero]

theorem Faithful.collect (h : Faithful key m) (hm : SortedMap.Ordered m) (step : Int) (xs : List α) :
    Faithful key (SortedMap.collect key (tally step) xs m) := by
  induction xs generalizing m with
  | nil => exact h
  | cons x xs ih => exact ih (h.alter key hm step x) (hm.alter _ _)

theorem ordered_counts (old new : List α) : SortedMap.Ordered (counts key old new) :=
  (SortedMap.ordered_nil.collect key _ old).collect key _ new

theorem faithful_counts (old new : List α) : Faithful key (counts key old new) := by
  have hnil : Faithful key ([] : SortedMap κ (α × Int)) := fun k entry h => by cases h
  exact (hnil.collect key SortedMap.ordered_nil 1 old).collect key
    (SortedMap.ordered_nil.collect key _ old) (-1) new

theorem total_counts (old new : List α) (k : κ) :
    total (counts key old new) k = ((old.map key).count k : Int) - ((new.map key).count k : Int) := by
  rw [counts, total_collect key (SortedMap.ordered_nil.collect key _ old),
    total_collect key SortedMap.ordered_nil]
  show 0 + _ + _ = _
  omega

theorem mem_of_mem_collect {step : Int} {xs : List α} {entry : κ × α × Int}
    (h : entry ∈ SortedMap.collect key (tally step) xs m) :
    entry.2.1 ∈ xs ∨ ∃ e ∈ m, e.2.1 = entry.2.1 := by
  induction xs generalizing m with
  | nil => exact .inr ⟨entry, h, rfl⟩
  | cons x xs ih =>
    rcases ih h with h | ⟨e, he, heq⟩
    · exact .inl (List.mem_cons_of_mem _ h)
    · rcases SortedMap.of_mem_alter he with he | ⟨old, hold, hmem⟩
      · exact .inr ⟨e, he, heq⟩
      · rw [← heq, hold]
        cases old with
        | none => exact .inl List.mem_cons_self
        | some v => exact .inr ⟨_, hmem v rfl, rfl⟩

theorem mem_of_mem_counts {old new : List α} {entry : κ × α × Int} (h : entry ∈ counts key old new) :
    entry.2.1 ∈ old ++ new := by
  rcases mem_of_mem_collect key h with h | ⟨e, he, heq⟩
  · exact List.mem_append_right _ h
  · rcases mem_of_mem_collect key he with h | ⟨e, he, -⟩
    · exact List.mem_append_left _ (heq ▸ h)
    · cases he

/-! ## What comes out -/

theorem count_flatMap_replicate (hm : SortedMap.Ordered m)
    (hfaithful : ∀ entry ∈ m, key entry.2.1 = entry.1) (copies : Int → Nat) (hzero : copies 0 = 0)
    (k : κ) :
    ((m.flatMap fun entry => List.replicate (copies entry.2.2) entry.2.1).map key).count k
      = copies (total m k) := by
  induction m with
  | nil => exact hzero.symm
  | cons entry rest ih =>
    obtain ⟨hfirst, hrest⟩ := List.pairwise_cons.mp hm
    have hkey := hfaithful entry List.mem_cons_self
    have ih := ih hrest fun e he => hfaithful e (List.mem_cons_of_mem _ he)
    rw [List.flatMap_cons, List.map_append, List.count_append, ih, List.map_replicate, hkey,
      List.count_replicate, total, total, SortedMap.get_cons]
    by_cases hk : entry.1 = k
    · -- the later entries have greater keys
      have hnone : SortedMap.get rest k = none := by grind [SortedMap.get]
      rw [if_pos (by simpa using hk), if_pos hk, hnone]
      show copies entry.2.2 + copies 0 = _
      rw [hzero, Nat.add_zero]
      rfl
    · rw [if_neg (by simpa using hk), if_neg hk, Nat.zero_add]

theorem count_deleted (old new : List α) (k : κ) :
    ((deleted (counts key old new)).map key).count k = (old.map key).count k - (new.map key).count k := by
  have hm := ordered_counts key old new
  rw [deleted, count_flatMap_replicate key hm (fun entry he => ?_) Int.toNat rfl, total_counts]
  · omega
  · exact faithful_counts key old new entry.1 entry.2 ((SortedMap.mem_iff_get hm).mp he)

theorem count_added (old new : List α) (k : κ) :
    ((added (counts key old new)).map key).count k = (new.map key).count k - (old.map key).count k := by
  have hm := ordered_counts key old new
  rw [added, count_flatMap_replicate key hm (fun entry he => ?_) (fun n => (-n).toNat) rfl, total_counts]
  · omega
  · exact faithful_counts key old new entry.1 entry.2 ((SortedMap.mem_iff_get hm).mp he)

end Difference

/-! ## Multisets -/

section Patch

variable {ι : Type} [DecidableEq ι]

def patch (deleted added : Multiset ι) (m : Multiset ι) : Option (Multiset ι) :=
  if deleted ≤ m then some (m - deleted + added) else none

theorem patch_cons_difference (x y : ι) (old new : Multiset ι) :
    patch (x ::ₘ (old - new)) (y ::ₘ (new - old)) (x ::ₘ old) = some (y ::ₘ new) := by
  have hle : x ::ₘ (old - new) ≤ x ::ₘ old := Multiset.cons_le_cons x (Multiset.sub_le_self old new)
  rw [patch, if_pos hle, Option.some.injEq]
  ext i
  rw [Multiset.count_add, Multiset.count_sub, Multiset.count_cons, Multiset.count_cons, Multiset.count_cons,
    Multiset.count_cons, Multiset.count_sub, Multiset.count_sub]
  omega

end Patch

section Ident

variable {κ α ι : Type} [LinearOrder κ] [DecidableEq ι] {key : α → κ} {ident : α → ι}

theorem count_map_ident (h : ∀ x y, ident x = ident y ↔ key x = key y) (x : α) (xs : List α) :
    (xs.map ident).count (ident x) = (xs.map key).count (key x) := by
  induction xs with
  | nil => rfl
  | cons y xs ih =>
    rw [List.map_cons, List.map_cons, List.count_cons, List.count_cons, ih]
    by_cases hxy : key y = key x
    · rw [if_pos (beq_iff_eq.mpr hxy), if_pos (beq_iff_eq.mpr ((h y x).mpr hxy))]
    · rw [if_neg fun hb => hxy ((h y x).mp (beq_iff_eq.mp hb)), if_neg fun hb => hxy (beq_iff_eq.mp hb)]

/-- **What the counts say to take out and put in is the difference of the multisets.** -/
theorem map_ident_counts (h : ∀ x y, ident x = ident y ↔ key x = key y) (old new : List α) :
    ((Difference.deleted (Difference.counts key old new)).map ident : Multiset ι)
        = (old.map ident : Multiset ι) - (new.map ident : Multiset ι) ∧
      ((Difference.added (Difference.counts key old new)).map ident : Multiset ι)
        = (new.map ident : Multiset ι) - (old.map ident : Multiset ι) := by
  have hcount : ∀ (moved one other : List α),
      (∀ k, (moved.map key).count k = (one.map key).count k - (other.map key).count k) →
      (moved.map ident : Multiset ι) = (one.map ident : Multiset ι) - (other.map ident : Multiset ι) := by
    intro moved one other hmoved
    ext i
    rw [Multiset.count_sub, Multiset.coe_count, Multiset.coe_count, Multiset.coe_count]
    by_cases hi : ∃ x, ident x = i
    · obtain ⟨x, rfl⟩ := hi
      rw [count_map_ident h, count_map_ident h, count_map_ident h, hmoved]
    · have hnone : ∀ xs : List α, (xs.map ident).count i = 0 := by
        intro xs
        rw [List.count_eq_zero]
        intro hmem
        obtain ⟨x, -, hx⟩ := List.mem_map.mp hmem
        exact hi ⟨x, hx⟩
      rw [hnone, hnone, hnone]
  exact ⟨hcount _ _ _ (Difference.count_deleted key old new), hcount _ _ _ (Difference.count_added key old new)⟩

end Ident

end Rdns.Lib
