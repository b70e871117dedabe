import Rdns.Present.DenialLaws

/-!
# Rdns — Denial records as text

What an NSEC or NSEC3 line is made of reads back: the hash of the next owner at any
length, and a type list.
-/

namespace Rdns.Present

open Rdns.Lib Rdns.Core

/-! ## base32hex of any number of octets -/

def allDigits : Octets → List Nat
  | a :: b :: c :: d :: e :: rest => chunkDigits a b c d e ++ allDigits rest
  | [a, b, c, d] => (chunkDigits a b c d 0).take 7
  | [a, b, c] => (chunkDigits a b c 0 0).take 5
  | [a, b] => (chunkDigits a b 0 0 0).take 4
  | [a] => (chunkDigits a 0 0 0 0).take 2
  | [] => []

theorem chunkDigits_lt (a b c d e : UInt8) : ∀ digit ∈ chunkDigits a b c d e, digit < 32 := by
  intro digit hdigit
  simp only [chunkDigits, List.mem_cons, List.not_mem_nil, or_false] at hdigit
  omega

theorem allDigits_lt (octets : Octets) : ∀ digit ∈ allDigits octets, digit < 32 := by
  induction octets using allDigits.induct with
  | case1 a b c d e rest ih =>
    intro digit hdigit
    rw [allDigits, List.mem_append] at hdigit
    exact hdigit.elim (chunkDigits_lt a b c d e digit) (ih digit)
  | case2 a b c d => exact fun digit h => chunkDigits_lt a b c d 0 digit (List.mem_of_mem_take h)
  | case3 a b c => exact fun digit h => chunkDigits_lt a b c 0 0 digit (List.mem_of_mem_take h)
  | case4 a b => exact fun digit h => chunkDigits_lt a b 0 0 0 digit (List.mem_of_mem_take h)
  | case5 a => exact fun digit h => chunkDigits_lt a 0 0 0 0 digit (List.mem_of_mem_take h)
  | case6 => exact fun digit h => absurd h List.not_mem_nil

theorem base32hexEncode_allDigits (octets : Octets) :
    base32hexEncode octets = (allDigits octets).map base32hexDigit := by
  induction octets using allDigits.induct with
  | case1 a b c d e rest ih =>
    rw [base32hexEncode, allDigits, List.map_append, ← base32hexChunk_five]
    exact congrArg (base32hexChunk [a, b, c, d, e] ++ ·) ih
  | case2 a b c d =>
    simp [base32hexEncode, base32hexChunk, allDigits, chunkDigits, List.range_succ_eq_map]
  | case3 a b c =>
    simp [base32hexEncode, base32hexChunk, allDigits, chunkDigits, List.range_succ_eq_map]
  | case4 a b =>
    simp [base32hexEncode, base32hexChunk, allDigits, chunkDigits, List.range_succ_eq_map]
  | case5 a =>
    simp [base32hexEncode, base32hexChunk, allDigits, chunkDigits, List.range_succ_eq_map]
  | case6 => rw [base32hexEncode, allDigits, List.map_nil]

theorem octetsOf_take (a b c d e : UInt8) :
    octetsOf 0 0 ((chunkDigits a b c d e).take 7) = [a, b, c, d] ∧
      octetsOf 0 0 ((chunkDigits a b c d e).take 5) = [a, b, c] ∧
      octetsOf 0 0 ((chunkDigits a b c d e).take 4) = [a, b] ∧
      octetsOf 0 0 ((chunkDigits a b c d e).take 2) = [a] := by
  have ha := a.toNat_lt
  have hb := b.toNat_lt
  have hc := c.toNat_lt
  have hd := d.toNat_lt
  have he := e.toNat_lt
  have hoctet : ∀ (x : UInt8) (n : Nat), n = x.toNat → UInt8.ofNat n = x := by
    rintro x n rfl
    exact UInt8.ofNat_toNat
  rw [chunkDigits]
  generalize hbits : (((a.toNat * 256 + b.toNat) * 256 + c.toNat) * 256 + d.toNat) * 256 + e.toNat = bits
  simp only [List.take_succ_cons, List.take_zero, octetsOf, ge_iff_le]
  norm_num only
  simp only [if_true, if_false, List.cons.injEq, and_true]
  refine ⟨⟨hoctet _ _ (by omega), hoctet _ _ (by omega), hoctet _ _ (by omega), hoctet _ _ (by omega)⟩,
    ⟨hoctet _ _ (by omega), hoctet _ _ (by omega), hoctet _ _ (by omega)⟩,
    ⟨hoctet _ _ (by omega), hoctet _ _ (by omega)⟩, hoctet _ _ (by omega)⟩

theorem octetsOf_allDigits (octets : Octets) : octetsOf 0 0 (allDigits octets) = octets := by
  induction octets using allDigits.induct with
  | case1 a b c d e rest ih => rw [allDigits, octetsOf_chunk, ih]
  | case2 a b c d => exact (octetsOf_take a b c d 0).1
  | case3 a b c => exact (octetsOf_take a b c 0 0).2.1
  | case4 a b => exact (octetsOf_take a b 0 0 0).2.2.1
  | case5 a => exact (octetsOf_take a 0 0 0 0).2.2.2
  | case6 => rfl

theorem base32hexValue_toAsciiLowercase (c : UInt8) :
    base32hexValue (toAsciiLowercase c) = base32hexValue c := by
  have hall : ∀ n : Fin 256, base32hexValue (toAsciiLowercase (UInt8.ofNat n.val)) =
      base32hexValue (UInt8.ofNat n.val) := by
    decide +kernel
  have := hall ⟨c.toNat, c.toNat_lt⟩
  rwa [UInt8.ofNat_toNat] at this

theorem base32hexLoop_foldCase (text : Octets) (acc : UInt64) (bits : Nat) (out : Octets) :
    base32hexLoop acc bits out (foldCase text) = base32hexLoop acc bits out text := by
  induction text generalizing acc bits out with
  | nil => rfl
  | cons c rest ih =>
    show base32hexLoop acc bits out (toAsciiLowercase c :: foldCase rest) = _
    rw [base32hexLoop, base32hexLoop, base32hexValue_toAsciiLowercase]
    cases base32hexValue c with
    | none => rfl
    | some value =>
      dsimp only
      rw [ih, ih]

/-- **base32hex reads back**, in either case and whatever the number of octets. -/
theorem base32hexDecode_encode (octets : Octets) :
    base32hexDecode (toBytes (base32hexEncode octets)) = .ok octets := by
  rw [base32hexDecode, ← base32hexLoop_foldCase, base32hexEncode_allDigits,
    foldCase_digits (allDigits_lt octets), base32hexLoop_digits _ (allDigits_lt octets) (by decide),
    List.nil_append]
  exact congrArg Except.ok (octetsOf_allDigits octets)

theorem base32hexEncode_ne_nil {octets : Octets} (h : octets ≠ []) : base32hexEncode octets ≠ [] := by
  intro hnil
  have hread := base32hexDecode_encode octets
  rw [hnil] at hread
  exact h (Except.ok.inj hread).symm

theorem isAlphanum_of_mem_base32hexEncode {octets : Octets} {c : Char} (h : c ∈ base32hexEncode octets) :
    c.isAlphanum = true := by
  rw [base32hexEncode_allDigits] at h
  obtain ⟨digit, hdigit, rfl⟩ := List.mem_map.mp h
  have hall : ∀ v : Fin 32, (base32hexDigit v.val).isAlphanum = true := by decide
  exact hall ⟨digit, allDigits_lt octets digit hdigit⟩

/-! ## The types of a bitmap, in order -/

def windowTypes (entry : Nat × Octets) : List Rtype :=
  entry.2.zipIdx.flatMap fun octet => octetTypes entry.1 octet.2 octet.1

def Before (a b : Rtype) : Prop := a.code.toNat < b.code.toNat

theorem mem_octetTypes {window byte : Nat} {bits : UInt8} {rtype : Rtype} (hwindow : window < 256)
    (hbyte : byte < 32) (h : rtype ∈ octetTypes window byte bits) :
    ∃ bit, bit < 8 ∧ rtype.code.toNat = window * 256 + byte * 8 + bit := by
  obtain ⟨bit, hbit, h⟩ := List.mem_filterMap.mp h
  have hlt := List.mem_range.mp hbit
  rcases ite_eq_iff.mp h with ⟨-, h⟩ | ⟨-, h⟩
  · cases h
    exact ⟨bit, hlt, Nat.mod_eq_of_lt (by omega)⟩
  · cases h

theorem octetTypes_ascending {window byte : Nat} (bits : UInt8) (hwindow : window < 256)
    (hbyte : byte < 32) : (octetTypes window byte bits).Pairwise Before := by
  refine List.pairwise_filterMap.mpr ?_
  refine List.Pairwise.imp_of_mem ?_ (List.pairwise_lt_range (n := 8))
  intro i j hi hj hlt a ha b hb
  have hi := List.mem_range.mp hi
  have hj := List.mem_range.mp hj
  rcases ite_eq_iff.mp ha with ⟨-, ha⟩ | ⟨-, ha⟩
  · rcases ite_eq_iff.mp hb with ⟨-, hb⟩ | ⟨-, hb⟩
    · cases ha
      cases hb
      show (UInt16.ofNat _).toNat < (UInt16.ofNat _).toNat
      rw [UInt16.toNat_ofNat', UInt16.toNat_ofNat', Nat.mod_eq_of_lt (by omega),
        Nat.mod_eq_of_lt (by omega)]
      omega
    · cases hb
  · cases ha

theorem mem_windowTypes {entry : Nat × Octets} {rtype : Rtype} (hwindow : entry.1 < 256)
    (hlen : entry.2.length ≤ 32) (h : rtype ∈ windowTypes entry) :
    entry.1 * 256 ≤ rtype.code.toNat ∧ rtype.code.toNat < entry.1 * 256 + 256 := by
  obtain ⟨octet, hoctet, h⟩ := List.mem_flatMap.mp h
  have hbyte := (List.mem_zipIdx' hoctet).1
  obtain ⟨bit, hbit, hcode⟩ := mem_octetTypes hwindow (by omega) h
  omega

theorem windowTypes_ascending {entry : Nat × Octets} (hwindow : entry.1 < 256)
    (hlen : entry.2.length ≤ 32) : (windowTypes entry).Pairwise Before := by
  have hindex : entry.2.zipIdx.Pairwise fun a b => a.2 < b.2 := by
    have hrange : (List.range' 0 entry.2.length).Pairwise fun a b => a < b := List.pairwise_lt_range'
    rw [← List.zipIdx_map_snd 0 entry.2] at hrange
    exact List.pairwise_map.mp hrange
  refine List.pairwise_flatMap.mpr ⟨fun octet hoctet => ?_, ?_⟩
  · have := (List.mem_zipIdx' hoctet).1
    exact octetTypes_ascending octet.1 hwindow (by omega)
  · refine List.Pairwise.imp_of_mem ?_ hindex
    intro x y hx hy hlt a ha b hb
    have hx := (List.mem_zipIdx' hx).1
    have hy := (List.mem_zipIdx' hy).1
    obtain ⟨i, hi, hcodeA⟩ := mem_octetTypes hwindow (by omega) ha
    obtain ⟨j, hj, hcodeB⟩ := mem_octetTypes hwindow (by omega) hb
    show a.code.toNat < b.code.toNat
    omega

/-- **A bitmap's windows are listed one after the other.** -/
theorem bitmapTypesExact_windows {windows : List (Nat × Octets)}
    (h : ∀ entry ∈ windows, entry.1 < 256 ∧ 0 < entry.2.length ∧ entry.2.length ≤ 32)
    (types : List Rtype) :
    bitmapTypesExact types (windows.flatMap fun entry =>
      UInt8.ofNat entry.1 :: UInt8.ofNat entry.2.length :: entry.2) =
      .ok (types ++ windows.flatMap windowTypes) := by
  induction windows generalizing types with
  | nil => rw [List.flatMap_nil, bitmapTypesExact, List.flatMap_nil, List.append_nil]
  | cons first rest ih =>
    obtain ⟨hlt, hpos, hle⟩ := h first List.mem_cons_self
    have hwindow : (UInt8.ofNat first.1).toNat = first.1 := Nat.mod_eq_of_lt (by omega)
    have hlen : (UInt8.ofNat first.2.length).toNat = first.2.length := Nat.mod_eq_of_lt (by omega)
    rw [List.flatMap_cons, List.cons_append, List.cons_append, bitmapTypesExact, hwindow, hlen,
      if_neg (by rw [List.length_append]; omega), List.take_left, List.drop_left,
      ih fun entry he => h entry (List.mem_cons_of_mem _ he), List.flatMap_cons, ← List.append_assoc]
    rfl

/-- **The types of a bitmap that builds again** are in ascending order. -/
theorem bitmapTypesExact_ascending {bitmap : Octets} {types : List Rtype}
    (hread : bitmapTypesExact [] bitmap = .ok types) (hbuild : buildTypeBitmap types = bitmap) :
    types.Pairwise Before := by
  obtain ⟨hok, -⟩ := foldl_noteType types ⟨List.Pairwise.nil, fun _ h => by cases h⟩
  have hok := hok.perm (List.mergeSort_perm (types.foldl noteType []) fun a b => decide (a.1 ≤ b.1)).symm
  have hsorted : ((types.foldl noteType []).mergeSort fun a b => decide (a.1 ≤ b.1)).Pairwise
      fun a b => a.1 ≤ b.1 :=
    (List.pairwise_mergeSort (by simp; omega) (by simp; omega) (types.foldl noteType [])).imp of_decide_eq_true
  rw [← hbuild, buildTypeBitmap] at hread
  generalize (types.foldl noteType []).mergeSort (fun a b => decide (a.1 ≤ b.1)) = windows at *
  have hlisted := hread.symm.trans (bitmapTypesExact_windows hok.inRange [])
  rw [List.nil_append] at hlisted
  rw [Except.ok.inj hlisted]
  refine List.pairwise_flatMap.mpr ⟨fun entry he => ?_, ?_⟩
  · obtain ⟨hlt, -, hle⟩ := hok.inRange entry he
    exact windowTypes_ascending hlt hle
  · have hstrict := hsorted.imp₂ (fun a b hle hne => lt_of_le_of_ne hle hne) hok.distinct
    refine List.Pairwise.imp_of_mem ?_ hstrict
    intro x y hx hy hlt a ha b hb
    obtain ⟨hltX, -, hleX⟩ := hok.inRange x hx
    obtain ⟨hltY, -, hleY⟩ := hok.inRange y hy
    obtain ⟨-, hhigh⟩ := mem_windowTypes hltX hleX ha
    obtain ⟨hlow, -⟩ := mem_windowTypes hltY hleY hb
    show a.code.toNat < b.code.toNat
    omega

theorem eraseReps_mergeSort {types : List Rtype} (h : types.Pairwise Before) :
    (types.mergeSort fun a b => a.code ≤ b.code).eraseReps = types := by
  have hsorted : types.Pairwise fun a b => decide (a.code ≤ b.code) = true :=
    h.imp fun hlt => decide_eq_true (UInt16.le_iff_toNat_le.mpr (Nat.le_of_lt hlt))
  rw [List.mergeSort_of_pairwise hsorted]
  have hloop : ∀ (rest : List Rtype) (a : Rtype) (acc : List Rtype), (a :: rest).Pairwise Before →
      List.eraseRepsBy.loop (· == ·) a rest acc = acc.reverse ++ a :: rest := by
    intro rest
    induction rest with
    | nil => simp [List.eraseRepsBy.loop]
    | cons b rest ih =>
      intro a acc hpair
      have hne : (a == b) = false := by
        rw [beq_eq_false_iff_ne]
        rintro rfl
        exact lt_irrefl _ ((List.pairwise_cons.mp hpair).1 a List.mem_cons_self)
      rw [List.eraseRepsBy.loop, hne]
      dsimp only
      rw [ih b (a :: acc) (List.pairwise_cons.mp hpair).2, List.reverse_cons, List.append_assoc]
      rfl
  cases types with
  | nil => rfl
  | cons a rest => exact hloop rest a [] h

end Rdns.Present
