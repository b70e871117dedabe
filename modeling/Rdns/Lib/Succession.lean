import Mathlib.Data.List.Chain

/-!
# Rdns.Lib — What comes next

A list in which each member follows the one before it, where what a member follows is determined and
nothing is followed by the first. No member comes twice, and so what comes next is determined too.
-/

namespace Rdns.Lib

section

variable {α : Type} {follows : α → α → Prop} {first : α} {rest : List α}

/-- **No member comes twice**: going back from two places leads to the first from one of them alone. -/
theorem succession_nodup (hchain : List.IsChain follows (first :: rest))
    (hfirst : ∀ a ∈ first :: rest, ¬ follows a first)
    (hback : ∀ a ∈ first :: rest, ∀ b ∈ first :: rest, ∀ c, follows a c → follows b c → a = b) :
    ∀ {i j : Nat} {a : α}, i < j → (first :: rest)[i]? = some a → (first :: rest)[j]? ≠ some a := by
  have hstep : ∀ {i : Nat} {a b : α}, (first :: rest)[i]? = some a → (first :: rest)[i + 1]? = some b → follows a b := by
    intro i a b ha hb
    obtain ⟨hi, rfl⟩ := List.getElem?_eq_some_iff.mp ha
    obtain ⟨hj, rfl⟩ := List.getElem?_eq_some_iff.mp hb
    exact List.isChain_iff_getElem.mp hchain i hj
  intro i
  induction i with
  | zero =>
    intro j a hlt ha hj
    cases ha
    obtain ⟨j, rfl⟩ := Nat.exists_eq_add_one_of_ne_zero (Nat.pos_iff_ne_zero.mp hlt)
    obtain ⟨hlen, -⟩ := List.getElem?_eq_some_iff.mp hj
    have hbefore : (first :: rest)[j]? = some (first :: rest)[j] := List.getElem?_eq_getElem (by omega)
    exact hfirst _ (List.getElem_mem _) (hstep hbefore hj)
  | succ i ih =>
    intro j a hlt ha hj
    obtain ⟨j, rfl⟩ := Nat.exists_eq_add_one_of_ne_zero (by omega : j ≠ 0)
    obtain ⟨hlen, -⟩ := List.getElem?_eq_some_iff.mp hj
    have hi : (first :: rest)[i]? = some (first :: rest)[i] := List.getElem?_eq_getElem (by omega)
    have hbefore : (first :: rest)[j]? = some (first :: rest)[j] := List.getElem?_eq_getElem (by omega)
    have hsame := hback _ (List.getElem_mem _) _ (List.getElem_mem _) a (hstep hi ha) (hstep hbefore hj)
    rw [← hsame] at hbefore
    exact ih (by omega) hi hbefore

/-- **The one member that follows another is the next one.** -/
theorem next_of_mem (hchain : List.IsChain follows (first :: rest))
    (hfirst : ∀ a ∈ first :: rest, ¬ follows a first)
    (hback : ∀ a ∈ first :: rest, ∀ b ∈ first :: rest, ∀ c, follows a c → follows b c → a = b)
    {before after : List α} {a b : α} (hsplit : before ++ a :: after = first :: rest) (hb : b ∈ first :: rest)
    (hfollows : follows a b) : after.head? = some b := by
  have ha : (first :: rest)[before.length]? = some a := by
    rw [← hsplit, List.getElem?_append_right le_rfl, Nat.sub_self]
    rfl
  obtain ⟨j, hj, rfl⟩ := List.getElem_of_mem hb
  obtain _ | j := j
  · exact absurd hfollows (hfirst a (List.mem_of_getElem? ha))
  · have hprev : follows (first :: rest)[j] (first :: rest)[j + 1] := List.isChain_iff_getElem.mp hchain j hj
    have hsame := hback a (List.mem_of_getElem? ha) _ (List.getElem_mem _) _ hfollows hprev
    have hat : (first :: rest)[j]? = some a := by
      rw [hsame]
      exact List.getElem?_eq_getElem (by omega)
    have hindex : before.length = j := by
      rcases Nat.lt_trichotomy before.length j with hlt | heq | hgt
      · exact absurd hat (succession_nodup hchain hfirst hback hlt ha)
      · exact heq
      · exact absurd ha (succession_nodup hchain hfirst hback hgt hat)
    have hnext : (before ++ a :: after)[j + 1]? = after.head? := by grind [List.head?_eq_getElem?]
    rw [← hnext, hsplit]
    exact List.getElem?_eq_getElem hj

end

end Rdns.Lib
