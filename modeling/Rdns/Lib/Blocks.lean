import Mathlib.Algebra.Order.Ring.Nat
import Mathlib.Tactic.Common

/-!
# Rdns.Lib — Aligned blocks

The numbers that agree once their `k` low bits are dropped are a block: `2 ^ k` of them, from a
multiple of `2 ^ k` on. An address prefix covers one.
-/

namespace Rdns.Lib

def blockStart (k x : Nat) : Nat := x / 2 ^ k * 2 ^ k

def blockEnd (k x : Nat) : Nat := blockStart k x + (2 ^ k - 1)

section

variable {j k a b x : Nat}

theorem blockEnd_succ (k x : Nat) : blockEnd k x + 1 = (x / 2 ^ k + 1) * 2 ^ k := by
  have hpos : 0 < 2 ^ k := Nat.two_pow_pos k
  rw [blockEnd, blockStart, Nat.succ_mul]
  omega

theorem blockStart_le_self (k x : Nat) : blockStart k x ≤ x := Nat.div_mul_le_self x _

theorem self_le_blockEnd (k x : Nat) : x ≤ blockEnd k x := by
  have hlt : x < x / 2 ^ k * 2 ^ k + 2 ^ k := Nat.lt_div_mul_add (Nat.two_pow_pos k)
  rw [blockEnd, blockStart]
  omega

/-- **What a block holds.** -/
theorem mem_block : blockStart k a ≤ x ∧ x ≤ blockEnd k a ↔ x / 2 ^ k = a / 2 ^ k := by
  have hpos : 0 < 2 ^ k := Nat.two_pow_pos k
  constructor
  · rintro ⟨hlow, hhigh⟩
    have hlt : x < (a / 2 ^ k + 1) * 2 ^ k := by
      rw [← blockEnd_succ]
      omega
    have hle := (Nat.le_div_iff_mul_le hpos).mpr hlow
    have hge := (Nat.div_lt_iff_lt_mul hpos).mpr hlt
    omega
  · intro h
    rw [blockEnd, blockStart, ← h]
    exact ⟨blockStart_le_self k x, self_le_blockEnd k x⟩

theorem blockStart_congr (h : a / 2 ^ k = b / 2 ^ k) : blockStart k a = blockStart k b := by
  rw [blockStart, blockStart, h]

theorem blockEnd_congr (h : a / 2 ^ k = b / 2 ^ k) : blockEnd k a = blockEnd k b := by
  rw [blockEnd, blockEnd, blockStart_congr h]

theorem block_subset (hjk : j ≤ k) (x : Nat) : blockStart k x ≤ blockStart j x ∧ blockEnd j x ≤ blockEnd k x := by
  have hends : ∀ y, y / 2 ^ j = x / 2 ^ j → y / 2 ^ k = x / 2 ^ k := by
    intro y hy
    obtain ⟨d, rfl⟩ := Nat.exists_eq_add_of_le hjk
    rw [Nat.pow_add, ← Nat.div_div_eq_div_mul, ← Nat.div_div_eq_div_mul, hy]
  have hlast : blockStart j x ≤ blockEnd j x := Nat.le_add_right _ _
  exact ⟨(mem_block.mpr (hends _ (mem_block.mp ⟨le_refl _, hlast⟩))).1,
    (mem_block.mpr (hends _ (mem_block.mp ⟨hlast, le_refl _⟩))).2⟩

/-- **Of two blocks the smaller one lies in the larger one or apart from it.** -/
theorem block_nested (hjk : j ≤ k) (a b : Nat) :
    blockEnd j a < blockStart k b ∨ blockEnd k b < blockStart j a ∨
      (blockStart k b ≤ blockStart j a ∧ blockEnd j a ≤ blockEnd k b) := by
  obtain ⟨hstart, hend⟩ := block_subset hjk a
  have hpos : 0 < 2 ^ k := Nat.two_pow_pos k
  rcases Nat.lt_trichotomy (a / 2 ^ k) (b / 2 ^ k) with hlt | heq | hgt
  · left
    have hle : (a / 2 ^ k + 1) * 2 ^ k ≤ blockStart k b := Nat.mul_le_mul_right _ hlt
    rw [← blockEnd_succ] at hle
    omega
  · grind [blockStart_congr, blockEnd_congr]
  · right
    left
    have hle : (b / 2 ^ k + 1) * 2 ^ k ≤ blockStart k a := Nat.mul_le_mul_right _ hgt
    rw [← blockEnd_succ] at hle
    omega

/-- **Of two blocks at one number the smaller one is strictly smaller.** -/
theorem block_shrinks (hjk : j < k) (x : Nat) : blockStart k x < blockStart j x ∨ blockEnd j x < blockEnd k x := by
  obtain ⟨hstart, hend⟩ := block_subset (Nat.le_of_lt hjk) x
  have hlt : 2 ^ j < 2 ^ k := Nat.pow_lt_pow_right (by omega) hjk
  have hpos : 0 < 2 ^ j := Nat.two_pow_pos j
  rw [blockEnd, blockEnd] at hend ⊢
  omega

end

end Rdns.Lib
