import Mathlib.Data.List.Lex
import Mathlib.Order.Lattice

/-!
# Rdns.Lib — Terminated lists

Several lists written one after the other, each closed by the least element of its order. The
flattening is cut back exactly where the terminator stands, so it orders lists of lists as they
order themselves only as long as the terminator is in none of them.
-/

namespace Rdns.Lib

section Pieces

variable {α : Type} {t : α}

def terminated (t : α) (xs : List (List α)) : List α := xs.flatMap fun x => x ++ [t]

theorem terminated_cons (x : List α) (xs : List (List α)) :
    terminated t (x :: xs) = x ++ t :: terminated t xs := by
  rw [terminated, List.flatMap_cons, List.append_assoc]
  rfl

theorem terminated_append (xs ys : List (List α)) :
    terminated t (xs ++ ys) = terminated t xs ++ terminated t ys := List.flatMap_append

theorem terminated_modifyHead {a : α} {xs : List (List α)} (h : xs ≠ []) :
    terminated t (xs.modifyHead (List.cons a)) = a :: terminated t xs := by
  cases xs with
  | nil => exact absurd rfl h
  | cons x xs => simp [terminated_cons]

variable [DecidableEq α]

def cutAt (t : α) (xs : List (List α)) : List (List α) := xs.flatMap fun x => x.splitOn t

theorem terminated_splitOn (x : List α) : terminated t (x.splitOn t) = x ++ [t] := by
  induction x with
  | nil => rfl
  | cons a x ih =>
    rw [List.splitOn_cons_eq_if_modifyHead]
    split
    case isTrue h =>
      rw [eq_of_beq h, terminated_cons, ih]
      rfl
    case isFalse h =>
      rw [terminated_modifyHead (List.splitOn_ne_nil t x), ih]
      rfl

/-- **Lists flatten as their pieces do.** -/
theorem terminated_cutAt (xs : List (List α)) : terminated t (cutAt t xs) = terminated t xs := by
  induction xs with
  | nil => rfl
  | cons x xs ih =>
    have hcut : cutAt t (x :: xs) = x.splitOn t ++ cutAt t xs := List.flatMap_cons
    rw [hcut, terminated_append, terminated_splitOn, ih, terminated_cons, List.append_assoc]
    rfl

theorem notMem_splitOn {x piece : List α} (h : piece ∈ x.splitOn t) : t ∉ piece := by
  induction x generalizing piece with
  | nil => grind [List.splitOn_nil]
  | cons a x ih =>
    rw [List.splitOn_cons_eq_if_modifyHead] at h
    split at h
    case isTrue =>
      rcases List.mem_cons.mp h with rfl | h
      · exact List.not_mem_nil
      · exact ih h
    case isFalse hne =>
      cases hsplit : x.splitOn t with
      | nil => exact absurd hsplit (List.splitOn_ne_nil t x)
      | cons first pieces =>
        rw [hsplit, List.modifyHead_cons] at h
        rcases List.mem_cons.mp h with rfl | h
        · have hfirst : t ∉ first := ih (hsplit ▸ List.mem_cons_self)
          intro hmem
          rcases List.mem_cons.mp hmem with heq | hmem
          · exact hne (beq_iff_eq.mpr heq.symm)
          · exact hfirst hmem
        · exact ih (hsplit ▸ List.mem_cons_of_mem _ h)

theorem notMem_cutAt {xs : List (List α)} {piece : List α} (h : piece ∈ cutAt t xs) : t ∉ piece := by
  obtain ⟨x, -, hpiece⟩ := List.mem_flatMap.mp h
  exact notMem_splitOn hpiece

end Pieces

section Order

variable {α : Type} [LinearOrder α] {t : α}

variable {xs ys : List (List α)} {x y : List α}

theorem append_lt_append {p : List α} (h : x < y) : p ++ x < p ++ y := by
  induction p with
  | nil => exact h
  | cons a p ih => exact List.cons_lt_cons_iff.mpr (.inr ⟨rfl, ih⟩)

theorem append_lt_append_iff {p : List α} : p ++ x < p ++ y ↔ x < y := by
  refine ⟨fun h => ?_, append_lt_append⟩
  rcases lt_trichotomy x y with hlt | rfl | hgt
  · exact hlt
  · exact absurd h (lt_irrefl _)
  · exact absurd h (lt_asymm (append_lt_append hgt))

theorem append_cons_lt (ht : ∀ a, t ≤ a) (h : x < y) (hclear : ∀ z, y ≠ x ++ t :: z) (r s : List α) :
    x ++ t :: r < y ++ t :: s := by
  induction x generalizing y with
  | nil =>
    cases y with
    | nil => exact absurd h (lt_irrefl _)
    | cons b y =>
      have hne : t ≠ b := fun heq => hclear y (heq ▸ rfl)
      exact List.cons_lt_cons_iff.mpr (.inl (lt_of_le_of_ne (ht b) hne))
  | cons a x ih =>
    cases y with
    | nil => exact absurd h (List.not_lt_nil _)
    | cons b y =>
      rcases List.cons_lt_cons_iff.mp h with hlt | ⟨rfl, hlt⟩
      · exact List.cons_lt_cons_iff.mpr (.inl hlt)
      · refine List.cons_lt_cons_iff.mpr (.inr ⟨rfl, ih hlt fun z heq => ?_⟩)
        exact hclear z (heq ▸ rfl)

theorem nil_lt_terminated (y : List α) (ys : List (List α)) : [] < terminated t (y :: ys) := by
  rw [terminated_cons]
  cases y with
  | nil => exact List.nil_lt_cons _ _
  | cons a y => exact List.nil_lt_cons _ _

/-- **Flattening keeps the order** of lists none of which holds the terminator. -/
theorem terminated_lt_of_lt (ht : ∀ a, t ≤ a) (hys : ∀ y ∈ ys, t ∉ y) (h : xs < ys) :
    terminated t xs < terminated t ys := by
  induction xs generalizing ys with
  | nil =>
    cases ys with
    | nil => exact absurd h (lt_irrefl _)
    | cons y ys => exact nil_lt_terminated y ys
  | cons x xs ih =>
    cases ys with
    | nil => exact absurd h (List.not_lt_nil _)
    | cons y ys =>
      rw [terminated_cons, terminated_cons]
      rcases List.cons_lt_cons_iff.mp h with hlt | ⟨rfl, hlt⟩
      · refine append_cons_lt ht hlt (fun z heq => ?_) _ _
        exact hys y List.mem_cons_self (heq ▸ List.mem_append_right _ List.mem_cons_self)
      · refine append_lt_append (List.cons_lt_cons_iff.mpr (.inr ⟨rfl, ?_⟩))
        exact ih (fun y hy => hys y (List.mem_cons_of_mem _ hy)) hlt

theorem terminated_lt_iff_of_notMem (ht : ∀ a, t ≤ a) (hxs : ∀ x ∈ xs, t ∉ x)
    (hys : ∀ y ∈ ys, t ∉ y) :
    terminated t xs < terminated t ys ↔ xs < ys := by
  refine ⟨fun h => ?_, terminated_lt_of_lt ht hys⟩
  rcases lt_trichotomy xs ys with hlt | rfl | hgt
  · exact hlt
  · exact absurd h (lt_irrefl _)
  · exact absurd h (lt_asymm (terminated_lt_of_lt ht hxs hgt))

theorem terminated_inj_of_notMem (ht : ∀ a, t ≤ a) (hxs : ∀ x ∈ xs, t ∉ x) (hys : ∀ y ∈ ys, t ∉ y)
    (h : terminated t xs = terminated t ys) : xs = ys := by
  rcases lt_trichotomy xs ys with hlt | heq | hgt
  · exact absurd h (ne_of_lt (terminated_lt_of_lt ht hys hlt))
  · exact heq
  · exact absurd h (ne_of_gt (terminated_lt_of_lt ht hxs hgt))

/-- **A flattening has the order of the pieces.** -/
theorem terminated_lt_iff (ht : ∀ a, t ≤ a) :
    terminated t xs < terminated t ys ↔ cutAt t xs < cutAt t ys := by
  rw [← terminated_cutAt xs, ← terminated_cutAt ys]
  exact terminated_lt_iff_of_notMem ht (fun _ => notMem_cutAt) fun _ => notMem_cutAt

/-! ## The order of the lists themselves -/

/-- Where the lists first differ, if one is the other with a terminator behind it, then what is
cut off it comes after what follows the other. -/
def Unmisled (t : α) : List (List α) → List (List α) → Prop
  | x :: xs, y :: ys =>
    if x = y then Unmisled t xs ys
    else (∀ z, y = x ++ t :: z → cutAt t xs < cutAt t (z :: ys)) ∧
      (∀ z, x = y ++ t :: z → cutAt t ys < cutAt t (z :: xs))
  | _, _ => True

theorem Unmisled.symm (h : Unmisled t xs ys) : Unmisled t ys xs := by
  induction xs generalizing ys with
  | nil => cases ys <;> exact trivial
  | cons x xs ih =>
    cases ys with
    | nil => exact trivial
    | cons y ys =>
      rw [Unmisled] at h ⊢
      split at h
      case isTrue heq =>
        rw [if_pos heq.symm]
        exact ih h
      case isFalse hne =>
        rw [if_neg (Ne.symm hne)]
        exact ⟨h.2, h.1⟩

theorem terminated_lt_iff_unmisled (ht : ∀ a, t ≤ a) (hlt : xs < ys) :
    terminated t xs < terminated t ys ↔ Unmisled t xs ys := by
  induction xs generalizing ys with
  | nil =>
    cases ys with
    | nil => exact absurd hlt (lt_irrefl _)
    | cons y ys => exact iff_of_true (nil_lt_terminated y ys) trivial
  | cons x xs ih =>
    cases ys with
    | nil => exact absurd hlt (List.not_lt_nil _)
    | cons y ys =>
      rw [Unmisled, terminated_cons, terminated_cons]
      rcases List.cons_lt_cons_iff.mp hlt with hhead | ⟨rfl, htail⟩
      · rw [if_neg (ne_of_lt hhead)]
        have hnot : ∀ z, x ≠ y ++ t :: z := by
          rintro z rfl
          have hgt := append_lt_append (p := y) (List.nil_lt_cons t z)
          rw [List.append_nil] at hgt
          exact lt_asymm hhead hgt
        by_cases hclear : ∀ z, y ≠ x ++ t :: z
        · exact iff_of_true (append_cons_lt ht hhead hclear _ _)
            ⟨fun z heq => absurd heq (hclear z), fun z heq => absurd heq (hnot z)⟩
        · obtain ⟨z, heq⟩ := not_forall.mp hclear
          rw [not_not] at heq
          subst heq
          have hkey : x ++ t :: terminated t xs < x ++ t :: z ++ t :: terminated t ys ↔
              cutAt t xs < cutAt t (z :: ys) := by
            rw [List.append_assoc, append_lt_append_iff, List.cons_append, List.cons_lt_cons_iff,
              ← terminated_cons, ← terminated_lt_iff ht]
            exact ⟨fun h => (h.resolve_left (lt_irrefl _)).2, fun h => .inr ⟨rfl, h⟩⟩
          rw [hkey]
          refine ⟨fun h => ⟨fun z' heq => ?_, fun z' heq => absurd heq (hnot z')⟩, fun h => h.1 z rfl⟩
          obtain ⟨-, rfl⟩ := List.cons.inj (List.append_cancel_left heq)
          exact h
      · rw [if_pos rfl, append_lt_append_iff, List.cons_lt_cons_iff, ← ih htail]
        exact ⟨fun h => (h.resolve_left (lt_irrefl _)).2, fun h => .inr ⟨rfl, h⟩⟩

/-- **Where flattenings compare as the lists do.** -/
theorem compare_terminated_iff (ht : ∀ a, t ≤ a) (xs ys : List (List α)) :
    compareOfLessAndEq (terminated t xs) (terminated t ys) = compareOfLessAndEq xs ys ↔
      Unmisled t xs ys := by
  rcases lt_trichotomy xs ys with hlt | rfl | hgt
  · have hcmp : compareOfLessAndEq xs ys = .lt := compareOfLessAndEq_eq_lt.mpr hlt
    rw [hcmp, compareOfLessAndEq_eq_lt, terminated_lt_iff_unmisled ht hlt]
  · have hsame : Unmisled t xs xs := by
      induction xs with
      | nil => exact trivial
      | cons x xs ih =>
        rw [Unmisled, if_pos rfl]
        exact ih
    refine iff_of_true ?_ hsame
    rw [compareOfLessAndEq, compareOfLessAndEq, if_neg (lt_irrefl _), if_neg (lt_irrefl _), if_pos rfl, if_pos rfl]
  · have hiff := terminated_lt_iff_unmisled ht hgt
    have hcmp : compareOfLessAndEq xs ys = .gt := by
      rw [compareOfLessAndEq, if_neg (lt_asymm hgt), if_neg (ne_of_gt hgt)]
    rw [hcmp, show Unmisled t xs ys ↔ Unmisled t ys xs from ⟨.symm, .symm⟩, ← hiff, compareOfLessAndEq]
    rcases lt_trichotomy (terminated t xs) (terminated t ys) with hlt | heq | hgt
    · simp [hlt, lt_asymm hlt]
    · simp [heq]
    · simp [hgt, lt_asymm hgt, ne_of_gt hgt]

end Order

end Rdns.Lib
