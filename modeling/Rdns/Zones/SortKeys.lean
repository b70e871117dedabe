import Rdns.Lib.Terminated
import Rdns.Present.DenialLaws
import Rdns.Zones.Zone

/-!
# Rdns — Sort keys and canonical order

The key that files an NSEC record closes every label with a zero octet. A label may hold one
itself, and where two names first differ in such a label their keys can compare the wrong way
round, or not differ at all.
-/

namespace Rdns.Zones

open Rdns.Lib Rdns.Core Rdns.Present RecordTypes

theorem canonicalSortKey_eq (name : Name) :
    canonicalSortKey name = terminated 0 (canonicalLabels name) := by
  rw [canonicalSortKey, canonicalLabels, terminated, List.flatMap_map]

theorem canonicalSortKey_congr {a b : Name} (h : a.same b = true) :
    canonicalSortKey a = canonicalSortKey b := by
  rw [canonicalSortKey_eq, canonicalSortKey_eq, canonicalLabels_inj.mpr h]

theorem zero_notMem_foldCase {octets : Octets} (h : 0 ∉ octets) : 0 ∉ foldCase octets := by
  intro hmem
  obtain ⟨octet, hoctet, hzero⟩ := List.mem_map.mp hmem
  rw [toAsciiLowercase] at hzero
  split at hzero
  · rename_i hupper
    have hnat := congrArg UInt8.toNat hzero
    rw [UInt8.toNat_ofNat'] at hnat
    change (octet.toNat + 32) % 2 ^ 8 = 0 at hnat
    omega
  · exact h (hzero ▸ hoctet)

/-- The labels of two names, right to left, first differ where no zero octet inside a label takes
the place of a label's end and turns their order round. -/
def KeepsOrder (a b : Name) : Prop := Unmisled 0 (canonicalLabels a) (canonicalLabels b)

theorem compare_sortKey_iff (a b : Name) :
    compareOfLessAndEq (canonicalSortKey a) (canonicalSortKey b) = canonicalNameCmp a b ↔
      KeepsOrder a b := by
  rw [canonicalSortKey_eq, canonicalSortKey_eq, canonicalNameCmp, KeepsOrder]
  convert compare_terminated_iff (fun _ => UInt8.zero_le) (canonicalLabels a) (canonicalLabels b)

/-- **Where sort keys realise canonical order**, and two owner names are never filed under one key. -/
theorem sortKeys_order_iff (a b : Name) :
    (compareOfLessAndEq (canonicalSortKey a) (canonicalSortKey b) = canonicalNameCmp a b ∧
      (canonicalSortKey a = canonicalSortKey b → a.same b = true) ∧
      (∀ key, chainKey a NSEC = some (.nsec key) →
        chainKey b NSEC = some (.nsec key) → a.same b = true)) ↔
      KeepsOrder a b := by
  rw [← compare_sortKey_iff]
  refine ⟨fun h => h.1, fun h => ?_⟩
  have hinj : canonicalSortKey a = canonicalSortKey b → a.same b = true := by
    intro hkey
    rw [hkey, compareOfLessAndEq, if_neg (lt_irrefl _), if_pos rfl] at h
    rcases lt_trichotomy (canonicalLabels a) (canonicalLabels b) with hlt | heq | hgt
    · exact absurd (h.trans (canonicalNameCmp_lt.mpr hlt)) (by decide)
    · exact canonicalLabels_inj.mp heq
    · exact absurd (h.trans (canonicalNameCmp_gt.mpr hgt)) (by decide)
  refine ⟨h, hinj, fun key ha hb => hinj ?_⟩
  rw [chainKey, if_pos rfl] at ha hb
  have hone := (Option.some.inj ha).trans (Option.some.inj hb).symm
  exact ChainKey.nsec.inj hone

theorem zeroLabel_ok : ∀ l ∈ ([[97, 0, 98]] : List Octets), ValidLabel l := by decide

theorem zeroLabel_short : encodedLen [[97, 0, 98]] ≤ MAX_NAME_LEN := by decide

def zeroLabel : Name := ⟨[[97, 0, 98]], zeroLabel_ok, zeroLabel_short⟩

theorem twoLabels_ok : ∀ l ∈ ([[98], [97]] : List Octets), ValidLabel l := by decide

theorem twoLabels_short : encodedLen [[98], [97]] ≤ MAX_NAME_LEN := by decide

def twoLabels : Name := ⟨[[98], [97]], twoLabels_ok, twoLabels_short⟩

/-- **Two owner names are filed under one key.** -/
theorem sortKeys_collide :
    ¬ ∀ a b : Name,
      compareOfLessAndEq (canonicalSortKey a) (canonicalSortKey b) = canonicalNameCmp a b ∧
      (canonicalSortKey a = canonicalSortKey b → a.same b = true) ∧
      (∀ key, chainKey a NSEC = some (.nsec key) →
        chainKey b NSEC = some (.nsec key) → a.same b = true) := by
  intro h
  have hsame := (h zeroLabel twoLabels).2.1 (by decide)
  exact absurd hsame (by decide)

end Rdns.Zones
