import Mathlib.Data.List.Count
import Mathlib.Data.List.Nodup
import Mathlib.Logic.Relation

/-!
# Keys under a parent function

A set of keys in which every key may have a parent, kept as small as it can be while
holding certain owners and every ancestor of each. The set is a duplicate-free list;
`childCount` is how many of its keys sit directly below one.

A `rank` that every parent lowers stands for the absence of cycles.
-/

namespace Rdns.Lib.Forest

variable {K : Type} (parent : K → Option K)

def childCount [DecidableEq K] (keys : List K) (k : K) : Nat :=
  keys.countP fun c => decide (parent c = some k)

def ClosedBut (name : K) (keys : List K) : Prop :=
  ∀ c ∈ keys, c ≠ name → ∀ k, parent c = some k → k ∈ keys

def Closed (keys : List K) : Prop :=
  ∀ c ∈ keys, ∀ k, parent c = some k → k ∈ keys

def Needed (owner : K → Prop) (keys : List K) (k : K) : Prop :=
  owner k ∨ ∃ c ∈ keys, parent c = some k

def AtOrBelow (low high : K) : Prop :=
  Relation.ReflTransGen (fun c k => parent c = some k) low high

def Ranked (rank : K → Nat) : Prop :=
  ∀ c k, parent c = some k → rank k < rank c

variable {parent} {keys : List K} {a k name : K}

theorem Ranked.parent_ne {rank : K → Nat} (h : Ranked parent rank) : parent k ≠ some k :=
  fun hself => Nat.lt_irrefl _ (h k k hself)

theorem Closed.mem_of_atOrBelow (h : Closed parent keys) {low high : K} (hlow : low ∈ keys)
    (hbelow : AtOrBelow parent low high) : high ∈ keys := by
  induction hbelow with
  | refl => exact hlow
  | tail _ hstep ih => exact h _ ih _ hstep

section Counting

variable [DecidableEq K]

theorem childCount_append_singleton (keys : List K) (a k : K) :
    childCount parent (keys ++ [a]) k
      = childCount parent keys k + if parent a = some k then 1 else 0 := by
  rw [childCount, List.countP_append, List.countP_singleton]
  simp only [decide_eq_true_eq]
  rfl

theorem childCount_erase [BEq K] [LawfulBEq K] (ha : a ∈ keys) (k : K) :
    childCount parent keys k
      = childCount parent (keys.erase a) k + if parent a = some k then 1 else 0 := by
  have hperm := (List.perm_cons_erase ha).countP_eq fun c => decide (parent c = some k)
  rw [childCount, hperm, List.countP_cons]
  simp only [decide_eq_true_eq]
  rfl

theorem childCount_eq_zero_iff :
    childCount parent keys k = 0 ↔ ∀ c ∈ keys, parent c ≠ some k := by
  rw [childCount, List.countP_eq_zero]
  simp only [decide_eq_true_eq, ne_eq]

theorem childCount_pos_iff : 0 < childCount parent keys k ↔ ∃ c ∈ keys, parent c = some k := by
  rw [childCount, List.countP_pos_iff]
  simp only [decide_eq_true_eq]

theorem Closed.childCount_eq_zero (h : Closed parent keys) (hk : k ∉ keys) :
    childCount parent keys k = 0 :=
  childCount_eq_zero_iff.mpr fun c hc hpar => hk (h c hc k hpar)

theorem ClosedBut.childCount_eq_one (h : ClosedBut parent name keys) (hnodup : keys.Nodup)
    (hname : name ∈ keys) (hpar : parent name = some k) (hk : k ∉ keys) :
    childCount parent keys k = 1 := by
  rw [childCount_erase hname, if_pos hpar, childCount_eq_zero_iff.mpr]
  intro c hc hck
  have hne : c ≠ name := fun heq => hnodup.not_mem_erase (heq ▸ hc)
  exact hk (h c (List.mem_of_mem_erase hc) hne k hck)

end Counting

theorem exists_rank_bound (rank : K → Nat) (keys : List K) :
    ∃ bound, ∀ k ∈ keys, rank k ≤ bound := by
  induction keys with
  | nil => exact ⟨0, by simp⟩
  | cons k rest ih =>
    obtain ⟨bound, hbound⟩ := ih
    refine ⟨max (rank k) bound, fun x hx => ?_⟩
    rcases List.mem_cons.mp hx with rfl | hx
    · exact Nat.le_max_left ..
    · exact Nat.le_trans (hbound x hx) (Nat.le_max_right ..)

/-- **A closed set in which every key is needed is what its owners make it**: a key
is held exactly when an owner sits at or below it. -/
theorem mem_iff_of_needed {rank : K → Nat} (hrank : Ranked parent rank) {owner : K → Prop}
    (hclosed : Closed parent keys) (howned : ∀ o, owner o → o ∈ keys)
    (hneeded : ∀ k ∈ keys, Needed parent owner keys k) :
    k ∈ keys ↔ ∃ o, owner o ∧ AtOrBelow parent o k := by
  constructor
  · intro hk
    obtain ⟨bound, hbound⟩ := exists_rank_bound rank keys
    -- down from `k`, each step to a child of higher rank
    induction hgap : bound - rank k using Nat.strongRecOn generalizing k with
    | _ gap ih =>
      rcases hneeded k hk with how | ⟨c, hc, hck⟩
      · exact ⟨k, how, Relation.ReflTransGen.refl⟩
      · have hlt := hrank c k hck
        have hle := hbound c hc
        obtain ⟨o, how, hbelow⟩ := ih (bound - rank c) (by omega) hc rfl
        exact ⟨o, how, hbelow.tail hck⟩
  · rintro ⟨o, how, hbelow⟩
    exact hclosed.mem_of_atOrBelow (howned o how) hbelow

end Rdns.Lib.Forest
