import Rdns.Present.DenialText
import Mathlib.Data.List.Dedup
import Mathlib.Data.List.Sort

/-!
# Rdns — Type bitmaps, built, tested and listed

`rdns-present/src/denial_wire.rs`: `build_type_bitmap`, `bitmap_has_type` and `bitmap_types_exact`
each walk windows, octets and bits. The types that one builds in, the next finds and the last lists
are the same, and a bitmap from elsewhere whose windows ascend is tested as it is listed.
-/

namespace Rdns.Present

open Rdns.Lib Rdns.Core RecordTypes

/-! ## One window -/

def windowOctets (entry : Nat × Octets) : Octets :=
  UInt8.ofNat entry.1 :: UInt8.ofNat entry.2.length :: entry.2

variable {rtype : Rtype}

theorem mem_octetTypes_iff {window byte : Nat} {bits : UInt8} (hwindow : window < 256)
    (hbyte : byte < 32) : rtype ∈ octetTypes window byte bits ↔
      rtype.code.toNat / 256 = window ∧ rtype.code.toNat % 256 / 8 = byte ∧
        (bits &&& (0x80 >>> UInt8.ofNat (rtype.code.toNat % 256 % 8)) != 0) = true := by
  rw [octetTypes, List.mem_filterMap]
  constructor
  · rintro ⟨bit, hbit, hsome⟩
    have hlt := List.mem_range.mp hbit
    split at hsome
    · rename_i hset
      obtain rfl := Option.some.inj hsome
      have hcode : (UInt16.ofNat (window * 256 + byte * 8 + bit)).toNat = window * 256 + byte * 8 + bit :=
        Nat.mod_eq_of_lt (by omega)
      dsimp only
      rw [hcode, show (window * 256 + byte * 8 + bit) % 256 % 8 = bit by omega]
      exact ⟨by omega, by omega, bne_iff_ne.mpr hset⟩
    · cases hsome
  · rintro ⟨rfl, rfl, hset⟩
    refine ⟨rtype.code.toNat % 256 % 8, List.mem_range.mpr (by omega), ?_⟩
    rw [if_pos (bne_iff_ne.mp hset)]
    have hcode : rtype.code.toNat / 256 * 256 + rtype.code.toNat % 256 / 8 * 8 + rtype.code.toNat % 256 % 8 =
        rtype.code.toNat := by omega
    rw [hcode, UInt16.ofNat_toNat]

/-- **A window lists the types whose bits are set in it.** -/
theorem mem_windowTypes_iff {entry : Nat × Octets} (hwindow : entry.1 < 256)
    (hlen : entry.2.length ≤ 32) :
    rtype ∈ windowTypes entry ↔
      rtype.code.toNat / 256 = entry.1 ∧ typeBitSet entry.2 (rtype.code.toNat % 256) = true := by
  rw [windowTypes, List.mem_flatMap, typeBitSet]
  constructor
  · rintro ⟨⟨bits, byte⟩, hoctet, hmem⟩
    obtain ⟨hbyte, hbits⟩ := List.mem_zipIdx' hoctet
    obtain ⟨hwin, hat, hset⟩ := (mem_octetTypes_iff hwindow (by omega)).mp hmem
    refine ⟨hwin, ?_⟩
    rw [hat, List.getD_eq_getElem?_getD, List.getElem?_eq_getElem hbyte, Option.getD_some, ← hbits]
    exact hset
  · rintro ⟨hwin, hset⟩
    have hbyte : rtype.code.toNat % 256 / 8 < entry.2.length := by
      by_contra hge
      rw [List.getD_eq_getElem?_getD, List.getElem?_eq_none (by omega), Option.getD_none] at hset
      simp at hset
    refine ⟨(entry.2[rtype.code.toNat % 256 / 8], rtype.code.toNat % 256 / 8), List.mk_mem_zipIdx_iff_getElem?.mpr
      (List.getElem?_eq_getElem hbyte), (mem_octetTypes_iff hwindow (by omega)).mpr ⟨hwin, rfl, ?_⟩⟩
    rw [List.getD_eq_getElem?_getD, List.getElem?_eq_getElem hbyte, Option.getD_some] at hset
    exact hset

theorem mem_windows_iff {windows : List (Nat × Octets)} (h : ∀ entry ∈ windows, entry.1 < 256 ∧ 0 < entry.2.length ∧
    entry.2.length ≤ 32) (rtype : Rtype) :
    rtype ∈ windows.flatMap windowTypes ↔ windowsHave windows rtype = true := by
  simp only [List.mem_flatMap, windowsHave, List.any_eq_true, Bool.and_eq_true, beq_iff_eq]
  refine exists_congr fun entry => and_congr_right fun hentry => ?_
  rw [mem_windowTypes_iff (h entry hentry).1 (h entry hentry).2.2, eq_comm]

/-! ## A whole bitmap -/

def bitmapWindows (rest : Octets) : List (Nat × Octets) :=
  match rest with
  | window :: len :: tail =>
    if len.toNat = 0 ∨ len.toNat > 32 ∨ tail.length < len.toNat then []
    else (window.toNat, tail.take len.toNat) :: bitmapWindows (tail.drop len.toNat)
  | _ => []
termination_by rest.length
decreasing_by
  simp only [List.length_drop, List.length_cons]
  omega

theorem bitmapTypesExact_eq_ok {types found : List Rtype} {bitmap : Octets} (h : bitmapTypesExact types bitmap = .ok found) :
    (∀ entry ∈ bitmapWindows bitmap, entry.1 < 256 ∧ 0 < entry.2.length ∧ entry.2.length ≤ 32) ∧
      bitmap = (bitmapWindows bitmap).flatMap windowOctets ∧
        found = types ++ (bitmapWindows bitmap).flatMap windowTypes := by
  fun_induction bitmapTypesExact types bitmap with
  | case1 types =>
    obtain rfl := Except.ok.inj h
    simp [bitmapWindows]
  | case2 types octet => cases h
  | case3 types window len tail hbad => cases h
  | case4 types window len tail hgood listed ih =>
    obtain ⟨hrange, hoctets, hfound⟩ := ih h
    have htake : (tail.take len.toNat).length = len.toNat := by
      rw [List.length_take]
      omega
    rw [bitmapWindows, if_neg hgood]
    refine ⟨?_, ?_, ?_⟩
    · intro entry hentry
      rcases List.mem_cons.mp hentry with rfl | hrest
      · dsimp only
        have hlt := window.toNat_lt
        omega
      · exact hrange entry hrest
    · rw [List.flatMap_cons, ← hoctets, windowOctets, htake, UInt8.ofNat_toNat, UInt8.ofNat_toNat, List.cons_append,
        List.cons_append, List.take_append_drop]
    · rw [hfound, List.flatMap_cons, List.append_assoc]
      rfl

theorem exists_windows (types : List Rtype) :
    ∃ windows, WindowsOk windows ∧ windows.Pairwise (fun a b => a.1 < b.1) ∧
      buildTypeBitmap types = windows.flatMap windowOctets ∧
        ∀ rtype, windowsHave windows rtype = true ↔ rtype ∈ types := by
  obtain ⟨hok, hhave⟩ := foldl_noteType types ⟨List.Pairwise.nil, fun _ h => by cases h⟩
  have hperm := List.mergeSort_perm (types.foldl noteType []) fun a b => decide (a.1 ≤ b.1)
  have hsorted : ((types.foldl noteType []).mergeSort fun a b => decide (a.1 ≤ b.1)).Pairwise fun a b => a.1 ≤ b.1 :=
    (List.pairwise_mergeSort (by simp; omega) (by simp; omega) (types.foldl noteType [])).imp of_decide_eq_true
  have hokSorted := hok.perm hperm.symm
  refine ⟨_, hokSorted, hsorted.imp₂ (fun a b hle hne => lt_of_le_of_ne hle hne) hokSorted.distinct, rfl, fun rtype => ?_⟩
  have hany : windowsHave ((types.foldl noteType []).mergeSort fun a b => decide (a.1 ≤ b.1)) rtype =
      windowsHave (types.foldl noteType []) rtype := hperm.any_eq
  rw [hany, hhave]
  simp [windowsHave]

theorem windows_ascending {windows : List (Nat × Octets)} (hok : ∀ entry ∈ windows, entry.1 < 256 ∧ 0 < entry.2.length ∧
    entry.2.length ≤ 32) (hascending : windows.Pairwise fun a b => a.1 < b.1) :
    (windows.flatMap windowTypes).Pairwise Before := by
  refine List.pairwise_flatMap.mpr ⟨fun entry he => ?_, ?_⟩
  · obtain ⟨hlt, -, hle⟩ := hok entry he
    exact windowTypes_ascending hlt hle
  · refine List.Pairwise.imp_of_mem ?_ hascending
    intro x y hx hy hlt a ha b hb
    have hlow := ((mem_windowTypes_iff (hok x hx).1 (hok x hx).2.2).mp ha).1
    have hhigh := ((mem_windowTypes_iff (hok y hy).1 (hok y hy).2.2).mp hb).1
    show a.code.toNat < b.code.toNat
    omega

theorem eq_of_ascending {a b : List Rtype} (ha : a.Pairwise Before) (hb : b.Pairwise Before)
    (h : ∀ rtype, rtype ∈ a ↔ rtype ∈ b) : a = b := by
  have hnodup : ∀ {types : List Rtype}, types.Pairwise Before → types.Nodup := by
    intro types hpair
    refine hpair.imp fun hlt => ?_
    rintro rfl
    exact Nat.lt_irrefl _ hlt
  have hperm : a.Perm b := (List.perm_ext_iff_of_nodup (hnodup ha) (hnodup hb)).mpr h
  exact hperm.eq_of_pairwise (fun x y _ _ hxy hyx => absurd hxy (Nat.lt_asymm hyx)) ha hb

def sortedTypes (types : List Rtype) : List Rtype := types.dedup.mergeSort fun a b => a.code ≤ b.code

theorem sortedTypes_ascending (types : List Rtype) : (sortedTypes types).Pairwise Before := by
  have hperm := List.mergeSort_perm types.dedup fun a b => decide (a.code ≤ b.code)
  have hsorted : (sortedTypes types).Pairwise fun a b => decide (a.code ≤ b.code) = true := by
    refine List.pairwise_mergeSort (fun a b c hab hbc => ?_) (fun a b => ?_) _
    · exact decide_eq_true (UInt16.le_trans (of_decide_eq_true hab) (of_decide_eq_true hbc))
    · simpa using UInt16.le_total a.code b.code
  have hnodup : (sortedTypes types).Nodup := hperm.nodup_iff.mpr types.nodup_dedup
  refine hsorted.imp₂ (fun a b hle hne => ?_) hnodup
  have hne' : a.code.toNat ≠ b.code.toNat := fun heq => hne (congrArg Rtype.mk (UInt16.toNat_inj.mp heq))
  exact lt_of_le_of_ne (UInt16.le_iff_toNat_le.mp (of_decide_eq_true hle)) hne'

theorem mem_sortedTypes {types : List Rtype} : rtype ∈ sortedTypes types ↔ rtype ∈ types :=
  (List.mergeSort_perm types.dedup _).mem_iff.trans List.mem_dedup

/-- **A bitmap is tested, listed and built alike**: what was built is found and is listed in order,
and where the windows of any other bitmap ascend, what is found is what is listed. -/
theorem typeBitmap_laws :
    (∀ types rtype, bitmapHasType (buildTypeBitmap types) rtype = true ↔ rtype ∈ types) ∧
      (∀ types, bitmapTypesExact [] (buildTypeBitmap types) = .ok (sortedTypes types)) ∧
      ∀ bitmap types, bitmapTypesExact [] bitmap = .ok types → (bitmapWindows bitmap).Pairwise (fun a b => a.1 < b.1) →
        ∀ rtype, bitmapHasType bitmap rtype = true ↔ rtype ∈ types := by
  refine ⟨bitmapHasType_build, fun types => ?_, fun bitmap types hlisted hascending rtype => ?_⟩
  · obtain ⟨windows, hok, hascending, hbuild, hhave⟩ := exists_windows types
    have hlist : bitmapTypesExact [] (windows.flatMap windowOctets) = .ok ([] ++ windows.flatMap windowTypes) :=
      bitmapTypesExact_windows hok.inRange []
    rw [← hbuild, List.nil_append] at hlist
    rw [hlist, eq_of_ascending (windows_ascending hok.inRange hascending) (sortedTypes_ascending types) fun rtype => ?_]
    rw [mem_windows_iff hok.inRange, hhave, mem_sortedTypes]
  · obtain ⟨hrange, hoctets, hfound⟩ := bitmapTypesExact_eq_ok hlisted
    have hhas : bitmapHasType ((bitmapWindows bitmap).flatMap windowOctets) rtype =
        windowsHave (bitmapWindows bitmap) rtype :=
      bitmapHasType_windows ⟨hascending.imp fun hlt => Nat.ne_of_lt hlt, hrange⟩ rtype
    rw [← hoctets] at hhas
    rw [hhas, hfound, List.nil_append, mem_windows_iff hrange]

/-- `A` and `AAAA`, from elsewhere. -/
theorem typeBitmap_laws_addresses : bitmapHasType [0, 4, 0x40, 0, 0, 8] AAAA = true ↔
    AAAA ∈ [A, AAAA] :=
  typeBitmap_laws.2.2 [0, 4, 0x40, 0, 0, 8] [A, AAAA]
    (by simp [bitmapTypesExact]; decide) (by simp [bitmapWindows]) AAAA

end Rdns.Present
