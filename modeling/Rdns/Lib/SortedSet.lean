import Mathlib.Data.List.Sort

/-!
# Rdns.Lib — A list as a sorted set

Sorting a list and then dropping repetitions forgets the order the elements came in and
how often: two lists with the same elements become the same list.
-/

namespace Rdns.Lib

variable {α : Type}

section Repetitions

theorem mem_eraseReps_loop [BEq α] [LawfulBEq α] {x a : α} {as acc : List α} :
    x ∈ List.eraseRepsBy.loop (· == ·) a as acc ↔ x ∈ acc ∨ x = a ∨ x ∈ as := by
  induction as generalizing a acc with
  | nil => simp [List.eraseRepsBy.loop, or_comm]
  | cons b as ih =>
    rw [List.eraseRepsBy.loop]
    cases hab : a == b with
    | true =>
      rw [ih, eq_of_beq hab, List.mem_cons]
      tauto
    | false =>
      rw [ih, List.mem_cons, List.mem_cons]
      tauto

theorem mem_eraseReps [BEq α] [LawfulBEq α] {x : α} {xs : List α} : x ∈ xs.eraseReps ↔ x ∈ xs := by
  cases xs with
  | nil => rfl
  | cons a as =>
    show x ∈ List.eraseRepsBy.loop (· == ·) a as [] ↔ _
    rw [mem_eraseReps_loop, List.mem_cons]
    simp

end Repetitions

def sortedSet [BEq α] (le : α → α → Bool) (xs : List α) : List α := (xs.mergeSort le).eraseReps

theorem mem_sortedSet [BEq α] [LawfulBEq α] {le : α → α → Bool} {x : α} {xs : List α} :
    x ∈ sortedSet le xs ↔ x ∈ xs := by
  rw [sortedSet, mem_eraseReps, List.mem_mergeSort]

section Order

variable [LinearOrder α] [BEq α] [LawfulBEq α] {le : α → α → Bool}

theorem pairwise_eraseReps_loop {a : α} {as acc : List α} (hdone : (acc.reverse ++ [a]).Pairwise (· < ·))
    (hleft : (a :: as).Pairwise (· ≤ ·)) :
    (List.eraseRepsBy.loop (· == ·) a as acc).Pairwise (· < ·) := by
  induction as generalizing a acc with
  | nil => simpa [List.eraseRepsBy.loop] using hdone
  | cons b as ih =>
    obtain ⟨hfirst, hrest⟩ := List.pairwise_cons.mp hleft
    rw [List.eraseRepsBy.loop]
    cases hab : a == b with
    | true =>
      refine ih hdone (List.pairwise_cons.mpr ⟨fun c hc => hfirst c (List.mem_cons_of_mem _ hc), ?_⟩)
      exact (List.pairwise_cons.mp hrest).2
    | false =>
      have hlt : a < b := lt_of_le_of_ne (hfirst b List.mem_cons_self) (ne_of_beq_false hab)
      refine ih ?_ hrest
      rw [List.reverse_cons, List.pairwise_append]
      refine ⟨hdone, List.pairwise_singleton _ _, fun c hc d hd => ?_⟩
      rw [List.mem_singleton.mp hd]
      rcases List.mem_append.mp hc with hc | hc
      · exact lt_trans ((List.pairwise_append.mp hdone).2.2 c hc a List.mem_cons_self) hlt
      · rw [List.mem_singleton.mp hc]
        exact hlt

theorem pairwise_eraseReps {xs : List α} (h : xs.Pairwise (· ≤ ·)) : xs.eraseReps.Pairwise (· < ·) := by
  cases xs with
  | nil => exact List.Pairwise.nil
  | cons a as => exact pairwise_eraseReps_loop (List.pairwise_singleton _ _) h

theorem pairwise_sortedSet (hle : ∀ a b, le a b = true ↔ a ≤ b) (xs : List α) :
    (sortedSet le xs).Pairwise (· < ·) := by
  have hsorted : (xs.mergeSort le).Pairwise fun a b => le a b = true := by
    refine List.pairwise_mergeSort ?_ ?_ xs
    · grind
    · grind
  exact pairwise_eraseReps (hsorted.imp fun {a b} hab => (hle a b).mp hab)

/-- **Lists with the same elements are the same set.** -/
theorem sortedSet_eq_of_mem_iff (hle : ∀ a b, le a b = true ↔ a ≤ b) {xs ys : List α}
    (h : ∀ x, x ∈ xs ↔ x ∈ ys) : sortedSet le xs = sortedSet le ys := by
  refine (pairwise_sortedSet hle xs).eq_of_mem_iff (pairwise_sortedSet hle ys) fun x => ?_
  rw [mem_sortedSet, mem_sortedSet, h]

end Order

end Rdns.Lib
