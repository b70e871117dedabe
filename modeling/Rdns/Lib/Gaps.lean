import Mathlib.Data.List.Lex
import Mathlib.Order.Lattice

/-!
# Rdns.Lib — Rings of gaps

A sorted list closed into a ring: each element with the one after it, the last with the
first. The open arcs between neighbours are its *gaps*, the last of which wraps around.

Lists under the lexicographic order have a shape of their own: what extends a prefix is
an interval that starts at it.
-/

namespace Rdns.Lib

instance linearOrderOctet : LinearOrder UInt8 where
  le_refl := UInt8.le_refl
  le_trans := fun _ _ _ => UInt8.le_trans
  le_antisymm := fun _ _ => UInt8.le_antisymm
  le_total := UInt8.le_total
  toDecidableLE := inferInstance
  lt_iff_le_not_ge := fun a b => by
    rw [UInt8.lt_iff_toNat_lt, UInt8.le_iff_toNat_le, UInt8.le_iff_toNat_le]
    omega

/-! ## Rings -/

section Neighbours

variable {α : Type}

def ringFrom (first : α) : List α → List (α × α)
  | [] => []
  | [x] => [(x, first)]
  | x :: y :: rest => (x, y) :: ringFrom first (y :: rest)

def ring : List α → List (α × α)
  | [] => []
  | x :: rest => ringFrom x (x :: rest)

variable {a : α}

theorem mem_ringFrom {first b : α} {xs : List α} :
    (a, b) ∈ ringFrom first xs ↔
      (∃ l r, xs = l ++ a :: b :: r) ∨ ((∃ l, xs = l ++ [a]) ∧ b = first) := by
  induction xs with
  | nil =>
    constructor
    · intro h
      cases h
    · simp
  | cons x rest ih =>
    cases rest with
    | nil =>
      rw [ringFrom, List.mem_singleton, Prod.mk.injEq]
      constructor
      · rintro ⟨rfl, rfl⟩
        exact .inr ⟨⟨[], rfl⟩, rfl⟩
      · rintro (⟨l, r, h⟩ | ⟨⟨l, h⟩, hb⟩)
        · have hlen := congrArg List.length h
          simp at hlen
          omega
        · cases l with
          | nil => exact ⟨(List.cons.inj h).1.symm, hb⟩
          | cons y l => simp at h
    | cons y rest =>
      rw [ringFrom, List.mem_cons, ih, Prod.mk.injEq]
      constructor
      · rintro (⟨rfl, rfl⟩ | ⟨l, r, h⟩ | ⟨⟨l, h⟩, hb⟩)
        · exact .inl ⟨[], rest, rfl⟩
        · exact .inl ⟨x :: l, r, by rw [h]; rfl⟩
        · exact .inr ⟨⟨x :: l, by rw [h]; rfl⟩, hb⟩
      · rintro (⟨l, r, h⟩ | ⟨⟨l, h⟩, hb⟩)
        · cases l with
          | nil =>
            obtain ⟨ha, hrest⟩ := List.cons.inj h
            exact .inl ⟨ha.symm, (List.cons.inj hrest).1.symm⟩
          | cons z l => exact .inr (.inl ⟨l, r, (List.cons.inj h).2⟩)
        · cases l with
          | nil => simp at h
          | cons z l => exact .inr (.inr ⟨⟨l, (List.cons.inj h).2⟩, hb⟩)

theorem mem_ring {b : α} {xs : List α} :
    (a, b) ∈ ring xs ↔
      (∃ l r, xs = l ++ a :: b :: r) ∨ ((∃ l, xs = l ++ [a]) ∧ ∃ r, xs = b :: r) := by
  cases xs with
  | nil => simp [ring]
  | cons x rest =>
    rw [ring, mem_ringFrom]
    constructor
    · grind
    · rintro (h | ⟨h, r, hr⟩)
      · exact .inl h
      · exact .inr ⟨h, (List.cons.inj hr).1.symm⟩

theorem ring_ends {b : α} {xs : List α} (h : (a, b) ∈ ring xs) : a ∈ xs ∧ b ∈ xs := by
  rcases mem_ring.mp h with ⟨l, r, rfl⟩ | ⟨⟨l, hl⟩, r, hr⟩
  · simp
  · constructor
    · rw [hl]
      simp
    · rw [hr]
      simp

theorem exists_ring_of_mem {xs : List α} (h : a ∈ xs) : ∃ b, (a, b) ∈ ring xs := by
  obtain ⟨l, r, hxs⟩ := List.append_of_mem h
  cases r with
  | cons b r => exact ⟨b, mem_ring.mpr (.inl ⟨l, r, hxs⟩)⟩
  | nil =>
    cases xs with
    | nil => cases h
    | cons first rest => exact ⟨first, mem_ring.mpr (.inr ⟨⟨l, hxs⟩, rest, rfl⟩)⟩

variable {xs : List α}

theorem ringFrom_map {β : Type} (f : α → β) (first : α) (xs : List α) :
    ringFrom (f first) (xs.map f) = (ringFrom first xs).map fun pair => (f pair.1, f pair.2) := by
  induction xs with
  | nil => rfl
  | cons x rest ih =>
    cases rest with
    | nil => rfl
    | cons y rest => exact congrArg (_ :: ·) ih

theorem ring_map {β : Type} (f : α → β) (xs : List α) :
    ring (xs.map f) = (ring xs).map fun pair => (f pair.1, f pair.2) := by
  cases xs with
  | nil => rfl
  | cons x rest => exact ringFrom_map f x (x :: rest)

end Neighbours

section Ring

variable {α : Type} [LinearOrder α]

/-- Strictly between two neighbours, where the second is past the first or the arc
between them wraps. -/
def InGap (a b x : α) : Prop := if a < b then a < x ∧ x < b else a < x ∨ x < b

instance (a b x : α) : Decidable (InGap a b x) :=
  inferInstanceAs (Decidable (if a < b then a < x ∧ x < b else a < x ∨ x < b))

variable {x a b : α}

theorem le_head_of_sorted {first : α} {rest : List α} (hs : (first :: rest).Pairwise (· < ·))
    (hx : x ∈ first :: rest) : first ≤ x := by
  rcases List.mem_cons.mp hx with rfl | hx
  · exact le_refl _
  · exact le_of_lt ((List.pairwise_cons.mp hs).1 x hx)

theorem le_last_of_sorted {l : List α} {last : α} (hs : (l ++ [last]).Pairwise (· < ·))
    (hx : x ∈ l ++ [last]) : x ≤ last := by
  rcases List.mem_append.mp hx with hx | hx
  · exact le_of_lt ((List.pairwise_append.mp hs).2.2 x hx last (List.mem_singleton_self _))
  · exact le_of_eq (List.mem_singleton.mp hx)

theorem around_of_sorted {l r : List α} (hs : (l ++ a :: b :: r).Pairwise (· < ·))
    (hx : x ∈ l ++ a :: b :: r) : a < b ∧ (x ≤ a ∨ b ≤ x) := by
  obtain ⟨-, hright, hacross⟩ := List.pairwise_append.mp hs
  obtain ⟨ha, hb⟩ := List.pairwise_cons.mp hright
  refine ⟨ha b List.mem_cons_self, ?_⟩
  rcases List.mem_append.mp hx with hx | hx
  · exact .inl (le_of_lt (hacross x hx a List.mem_cons_self))
  · grind [le_head_of_sorted]

/-- **No element is in a gap.** -/
theorem not_inGap_of_mem (hs : xs.Pairwise (· < ·)) (hgap : (a, b) ∈ ring xs) (hx : x ∈ xs) :
    ¬ InGap a b x := by
  unfold InGap
  rcases mem_ring.mp hgap with ⟨l, r, rfl⟩ | ⟨⟨l, hl⟩, r, hr⟩
  · obtain ⟨hab, hside⟩ := around_of_sorted hs hx
    rw [if_pos hab]
    rintro ⟨hax, hxb⟩
    rcases hside with h | h
    · exact absurd hax (not_lt.mpr h)
    · exact absurd hxb (not_lt.mpr h)
  · have hlast : ∀ y ∈ xs, y ≤ a := by
      subst hl
      exact fun y hy => le_last_of_sorted hs hy
    have hfirst : ∀ y ∈ xs, b ≤ y := by
      subst hr
      exact fun y hy => le_head_of_sorted hs hy
    rw [if_neg (not_lt.mpr (hlast b (hr ▸ List.mem_cons_self)))]
    rintro (h | h)
    · exact absurd h (not_lt.mpr (hlast x hx))
    · exact absurd h (not_lt.mpr (hfirst x hx))

theorem le_of_inGap (hs : xs.Pairwise (· < ·)) {y : α} (hgap : (a, b) ∈ ring xs) (hin : InGap a b x)
    (hy : y ∈ xs) (hyx : y < x) : y ≤ a := by
  unfold InGap at hin
  rcases mem_ring.mp hgap with ⟨l, r, rfl⟩ | ⟨⟨l, hl⟩, r, hr⟩
  · obtain ⟨hab, hside⟩ := around_of_sorted hs hy
    rw [if_pos hab] at hin
    rcases hside with h | h
    · exact h
    · exact absurd (lt_of_le_of_lt h hyx) (not_lt.mpr (le_of_lt hin.2))
  · subst hl
    exact le_last_of_sorted hs hy

theorem ge_of_inGap (hs : xs.Pairwise (· < ·)) {y : α} (hgap : (a, b) ∈ ring xs) (hin : InGap a b x)
    (hy : y ∈ xs) (hxy : x < y) : x < b ∧ b ≤ y := by
  unfold InGap at hin
  rcases mem_ring.mp hgap with ⟨l, r, rfl⟩ | ⟨⟨l, hl⟩, r, hr⟩
  · obtain ⟨hab, hside⟩ := around_of_sorted hs hy
    rw [if_pos hab] at hin
    refine ⟨hin.2, hside.resolve_left fun hya => ?_⟩
    exact absurd (hin.1.trans hxy) (not_lt.mpr hya)
  · have hlast : y ≤ a := by
      rw [hl] at hs hy
      exact le_last_of_sorted hs hy
    have hfirst : b ≤ y := by
      rw [hr] at hs hy
      exact le_head_of_sorted hs hy
    rw [if_neg (not_lt.mpr (hfirst.trans hlast))] at hin
    refine ⟨hin.resolve_left fun hax => ?_, hfirst⟩
    exact absurd (hax.trans hxy) (not_lt.mpr hlast)

theorem lt_of_inGap (hs : xs.Pairwise (· < ·)) (hgap : (a, b) ∈ ring xs) (hin : InGap a b x)
    (hfirst : ∀ y ∈ xs.head?, y ≤ x) : a < x := by
  unfold InGap at hin
  rcases mem_ring.mp hgap with ⟨l, r, rfl⟩ | ⟨⟨l, hl⟩, r, hr⟩
  · obtain ⟨hab, -⟩ := around_of_sorted hs (x := a) (by simp)
    rw [if_pos hab] at hin
    exact hin.1
  · have hb : b ≤ x := hfirst b (by rw [hr]; rfl)
    split at hin
    · exact hin.1
    · rcases hin with h | h
      · exact h
      · exact absurd h (not_lt.mpr hb)

/-- **Everything else is in a gap.** -/
theorem exists_inGap (hs : xs.Pairwise (· < ·)) (hne : xs ≠ []) (hx : x ∉ xs) :
    ∃ a b, (a, b) ∈ ring xs ∧ InGap a b x := by
  cases xs with
  | nil => exact absurd rfl hne
  | cons first rest =>
    -- the ring is walked from any suffix whose head is below `x`, or `x` is below them all
    have hwalk : ∀ suffix : List α, ∀ y tail, suffix = y :: tail → suffix <:+ first :: rest →
        y < x → ∃ a b, (a, b) ∈ ring (first :: rest) ∧ InGap a b x := by
      intro suffix
      induction suffix with
      | nil =>
        intro y tail h
        cases h
      | cons z zs ih =>
        rintro y tail ⟨⟩ hsuffix hyx
        obtain ⟨l, hl⟩ := hsuffix
        cases zs with
        | nil =>
          refine ⟨z, first, mem_ring.mpr (.inr ⟨⟨l, hl.symm⟩, rest, rfl⟩), ?_⟩
          have hle : first ≤ z := le_head_of_sorted hs (hl ▸ by simp)
          unfold InGap
          rw [if_neg (not_lt.mpr hle)]
          exact .inl hyx
        | cons w ws =>
          have hmem : w ∈ first :: rest := hl ▸ by simp
          rcases lt_trichotomy x w with hlt | heq | hgt
          · refine ⟨z, w, mem_ring.mpr (.inl ⟨l, ws, hl.symm⟩), ?_⟩
            have hzw : z < w := (around_of_sorted (x := z) (hl ▸ hs) (by simp)).1
            unfold InGap
            rw [if_pos hzw]
            exact ⟨hyx, hlt⟩
          · exact absurd (heq ▸ hmem) hx
          · exact ih w ws rfl ⟨l ++ [z], by rw [← hl]; simp⟩ hgt
    rcases lt_trichotomy x first with hlt | heq | hgt
    · obtain ⟨l, last, hlast⟩ := List.eq_nil_or_concat' (first :: rest) |>.resolve_left
        (List.cons_ne_nil _ _)
      refine ⟨last, first, mem_ring.mpr (.inr ⟨⟨l, hlast⟩, rest, rfl⟩), ?_⟩
      have hle : first ≤ last := le_head_of_sorted hs (hlast ▸ by simp)
      unfold InGap
      rw [if_neg (not_lt.mpr hle)]
      exact .inr hlt
    · exact absurd (heq ▸ List.mem_cons_self) hx
    · exact hwalk (first :: rest) first rest rfl List.suffix_rfl hgt

end Ring

/-! ## Prefixes and the lexicographic order -/

section Lex

variable {α : Type} [LinearOrder α]

variable {p x : List α}

theorem le_of_isPrefix (h : p <+: x) : p ≤ x := by
  induction p generalizing x with
  | nil =>
    cases x with
    | nil => exact le_refl _
    | cons a x => exact le_of_lt (List.nil_lt_cons a x)
  | cons a p ih =>
    cases x with
    | nil => exact absurd h (by simp)
    | cons b x =>
      obtain ⟨rfl, hp⟩ := List.cons_prefix_cons.mp h
      rcases lt_or_eq_of_le (ih hp) with hlt | rfl
      · exact le_of_lt (List.cons_lt_cons_iff.mpr (.inr ⟨rfl, hlt⟩))
      · exact le_refl _

theorem lt_of_isPrefix (h : p <+: x) (hne : p ≠ x) : p < x :=
  lt_of_le_of_ne (le_of_isPrefix h) hne

/-- **What extends a prefix is an interval.** -/
theorem isPrefix_of_between {y z : List α} (hx : p <+: x) (hz : p <+: z) (hxy : x ≤ y) (hyz : y ≤ z) :
    p <+: y := by
  induction p generalizing x y z with
  | nil => exact List.nil_prefix
  | cons a p ih =>
    cases x with
    | nil => exact absurd hx (by simp)
    | cons b x =>
      cases z with
      | nil => exact absurd hz (by simp)
      | cons c z =>
        obtain ⟨rfl, hpx⟩ := List.cons_prefix_cons.mp hx
        obtain ⟨rfl, hpz⟩ := List.cons_prefix_cons.mp hz
        cases y with
        | nil => exact absurd hxy (not_le.mpr (List.nil_lt_cons a x))
        | cons d y =>
          -- both ends start with `a`, so what is between them does
          have hxy' : a < d ∨ a = d ∧ x ≤ y := by
            rcases lt_or_eq_of_le hxy with h | h
            · exact (List.cons_lt_cons_iff.mp h).imp_right fun h => ⟨h.1, le_of_lt h.2⟩
            · obtain ⟨h₁, h₂⟩ := List.cons.inj h
              exact .inr ⟨h₁, le_of_eq h₂⟩
          have hyz' : d < a ∨ d = a ∧ y ≤ z := by
            rcases lt_or_eq_of_le hyz with h | h
            · exact (List.cons_lt_cons_iff.mp h).imp_right fun h => ⟨h.1, le_of_lt h.2⟩
            · obtain ⟨h₁, h₂⟩ := List.cons.inj h
              exact .inr ⟨h₁, le_of_eq h₂⟩
          rcases hxy' with h | ⟨rfl, h⟩
          · grind
          · rcases hyz' with h' | ⟨-, h'⟩
            · exact absurd h' (lt_irrefl _)
            · exact List.cons_prefix_cons.mpr ⟨rfl, ih hpx hpz h h'⟩

theorem lt_of_not_isPrefix {y : List α} (hx : p <+: x) (hpy : p < y) (hy : ¬ p <+: y) : x < y := by
  by_contra hge
  exact hy (isPrefix_of_between List.prefix_rfl hx (le_of_lt hpy) (not_lt.mp hge))

end Lex

section Common

variable {α : Type} [BEq α] [LawfulBEq α]

def commonLen {α : Type} [BEq α] (a b : List α) : Nat :=
  ((a.zip b).takeWhile fun pair => pair.1 == pair.2).length

theorem le_commonLen_iff {a b : List α} {k : Nat} :
    k ≤ commonLen a b ↔ k ≤ a.length ∧ a.take k <+: b := by
  induction a generalizing b k with
  | nil => simp [commonLen]
  | cons x a ih =>
    cases b with
    | nil =>
      cases k with
      | zero => simp [commonLen]
      | succ k => simp [commonLen]
    | cons y b =>
      cases k with
      | zero => simp
      | succ k =>
        rw [List.take_succ_cons, List.cons_prefix_cons, List.length_cons, Nat.add_le_add_iff_right,
          commonLen, List.zip_cons_cons, List.takeWhile_cons]
        by_cases hxy : x = y
        · rw [if_pos (by simp [hxy]), List.length_cons, Nat.add_le_add_iff_right]
          exact ih.trans (and_congr_right fun _ => (and_iff_right hxy).symm)
        · rw [if_neg (by simp [hxy])]
          simp [hxy]

theorem commonLen_le (a b : List α) : commonLen a b ≤ a.length :=
  (le_commonLen_iff.mp (le_refl _)).1

end Common

end Rdns.Lib
