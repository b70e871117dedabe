import Rdns.Present.DenialWire
import Mathlib.Algebra.Order.BigOperators.Group.List
import Mathlib.Data.List.Perm.Basic
import Mathlib.Tactic.IntervalCases
import Mathlib.Tactic.NormNum

/-!
# Rdns — Laws of the denial encodings
-/

namespace Rdns.Present

open Rdns.Lib Rdns.Core

/-! ## Canonical order -/

theorem canonicalLabels_eq (name : Name) :
    canonicalLabels name = (foldLabels name.labels).reverse := by
  rw [canonicalLabels, reversedLabels, List.map_reverse]
  rfl

variable {a b : Name} {windows : List (Nat × Octets)} {octets : Octets} {bits : Nat}

theorem canonicalLabels_inj : canonicalLabels a = canonicalLabels b ↔ a.same b = true := by
  rw [canonicalLabels_eq, canonicalLabels_eq, List.reverse_inj, Name.same_iff_foldLabels]

theorem isAtOrUnder_iff_isPrefix :
    a.isAtOrUnder b = true ↔ canonicalLabels b <+: canonicalLabels a := by
  rw [canonicalLabels_eq, canonicalLabels_eq, List.reverse_prefix, Name.isAtOrUnder_iff]

theorem canonicalLabels_toFolded (name : Name) :
    canonicalLabels name.toFolded = canonicalLabels name := by
  rw [canonicalLabels_inj, Name.same_iff, Name.toFolded_toFolded]

theorem canonicalNameCmp_lt :
    canonicalNameCmp a b = .lt ↔ canonicalLabels a < canonicalLabels b := by
  rw [canonicalNameCmp, compareOfLessAndEq_eq_lt]

theorem canonicalNameCmp_gt :
    canonicalNameCmp a b = .gt ↔ canonicalLabels b < canonicalLabels a := by
  rw [canonicalNameCmp, compareOfLessAndEq]
  rcases lt_trichotomy (canonicalLabels a) (canonicalLabels b) with h | h | h
  · simp [h, lt_asymm h]
  · simp [h]
  · simp [h, lt_asymm h, h.ne']

/-! ## Type bitmaps -/

theorem bit_and_bit {i j : Nat} (hi : i < 8) (hj : j < 8) :
    ((0x80 >>> UInt8.ofNat i) &&& (0x80 >>> UInt8.ofNat j) : UInt8) ≠ 0 ↔ i = j := by
  have hall : ∀ i j : Fin 8,
      ((0x80 >>> UInt8.ofNat i.val) &&& (0x80 >>> UInt8.ofNat j.val) : UInt8) ≠ 0 ↔ i.val = j.val := by
    decide +kernel
  exact hall ⟨i, hi⟩ ⟨j, hj⟩

theorem or_and_distrib (a b c : UInt8) : (a ||| b) &&& c = (a &&& c) ||| (b &&& c) := by
  rw [← UInt8.toBitVec_inj]
  apply BitVec.eq_of_getLsbD_eq
  intro i _
  simp only [UInt8.toBitVec_and, UInt8.toBitVec_or, BitVec.getLsbD_and, BitVec.getLsbD_or]
  exact Bool.and_or_distrib_right _ _ _

theorem or_and_bit (octet : UInt8) {i j : Nat} (hi : i < 8) (hj : j < 8) :
    ((octet ||| (0x80 >>> UInt8.ofNat i)) &&& (0x80 >>> UInt8.ofNat j) != 0) =
      ((octet &&& (0x80 >>> UInt8.ofNat j) != 0) || i == j) := by
  rw [or_and_distrib, Bool.eq_iff_iff, Bool.or_eq_true, bne_iff_ne, bne_iff_ne,
    beq_iff_eq, ← bit_and_bit hi hj, ← not_and_or, ← UInt8.or_eq_zero_iff]

theorem length_setTypeBit (bits : Octets) (bit : Nat) :
    (setTypeBit bits bit).length = max bits.length (bit / 8 + 1) := by
  rw [setTypeBit, List.length_set, List.length_append, List.length_replicate]
  omega

theorem typeBitSet_setTypeBit (bits : Octets) (bit other : Nat) :
    typeBitSet (setTypeBit bits bit) other = (typeBitSet bits other || bit == other) := by
  have hgrown : ∀ n, (bits ++ List.replicate (bit / 8 + 1 - bits.length) 0).getD n 0 =
      bits.getD n 0 := by
    intro n
    simp only [List.getD_eq_getElem?_getD, List.getElem?_append, List.getElem?_replicate]
    split
    · rfl
    · grind
  rw [typeBitSet, setTypeBit, typeBitSet]
  by_cases hbyte : other / 8 = bit / 8
  · have hat : ((bits ++ List.replicate (bit / 8 + 1 - bits.length) 0).set (bit / 8)
        (bits.getD (bit / 8) 0 ||| (0x80 >>> UInt8.ofNat (bit % 8)))).getD (bit / 8) 0 =
        (bits.getD (bit / 8) 0 ||| (0x80 >>> UInt8.ofNat (bit % 8))) := by
      rw [List.getD_eq_getElem?_getD, List.getElem?_set_self]
      · rfl
      · rw [List.length_append, List.length_replicate]
        omega
    rw [hgrown, hbyte, hat, or_and_bit _ (Nat.mod_lt _ (by omega)) (Nat.mod_lt _ (by omega))]
    congr 1
    rw [Bool.eq_iff_iff, beq_iff_eq, beq_iff_eq]
    omega
  · have hat : ((bits ++ List.replicate (bit / 8 + 1 - bits.length) 0).set (bit / 8)
        ((bits ++ List.replicate (bit / 8 + 1 - bits.length) 0).getD (bit / 8) 0 |||
          (0x80 >>> UInt8.ofNat (bit % 8)))).getD (other / 8) 0 = bits.getD (other / 8) 0 := by
      rw [← hgrown (other / 8), List.getD_eq_getElem?_getD, List.getElem?_set_ne (Ne.symm hbyte),
        List.getD_eq_getElem?_getD]
    rw [hat]
    have hne : (bit == other) = false := beq_eq_false_iff_ne.mpr fun h => hbyte (by rw [h])
    rw [hne, Bool.or_false]

/-- A window list as `build_type_bitmap` keeps it: one entry a window, each in range and
of one to 32 octets. -/
structure WindowsOk (windows : List (Nat × Octets)) : Prop where
  distinct : windows.Pairwise fun a b => a.1 ≠ b.1
  inRange : ∀ entry ∈ windows, entry.1 < 256 ∧ 0 < entry.2.length ∧ entry.2.length ≤ 32

def windowsHave (windows : List (Nat × Octets)) (rtype : Rtype) : Bool :=
  windows.any fun entry =>
    entry.1 == rtype.code.toNat / 256 && typeBitSet entry.2 (rtype.code.toNat % 256)

theorem WindowsOk.noteType (h : WindowsOk windows) (rtype : Rtype) :
    WindowsOk (noteType windows rtype) := by
  have hbyte : rtype.code.toNat % 256 / 8 + 1 ≤ 32 := by omega
  have hwindow : rtype.code.toNat / 256 < 256 := by
    have := rtype.code.toNat_lt
    omega
  rw [Present.noteType]
  split
  · refine ⟨List.pairwise_map.mpr (h.distinct.imp fun hne => ?_), ?_⟩
    · split <;> split <;> simp_all
    · refine List.forall_mem_map.mpr fun entry he => ?_
      obtain ⟨hlt, hpos, hle⟩ := h.inRange entry he
      split
      · rw [length_setTypeBit]
        exact ⟨hwindow, by omega, by omega⟩
      · exact ⟨hlt, hpos, hle⟩
  · rename_i hnone
    refine ⟨List.pairwise_append.mpr ⟨h.distinct, List.pairwise_singleton _ _, ?_⟩, ?_⟩
    · grind
    · intro entry he
      rcases List.mem_append.mp he with he | he
      · exact h.inRange entry he
      · rw [List.mem_singleton.mp he, length_setTypeBit]
        exact ⟨hwindow, by simp, by simpa using hbyte⟩

theorem rtype_eq_iff {a b : Rtype} : a = b ↔
    a.code.toNat / 256 = b.code.toNat / 256 ∧ a.code.toNat % 256 = b.code.toNat % 256 := by
  constructor
  · rintro rfl
    exact ⟨rfl, rfl⟩
  · intro h
    obtain ⟨a⟩ := a
    obtain ⟨b⟩ := b
    have hcode : a.toNat = b.toNat := by
      dsimp only at h
      omega
    rw [UInt16.toNat_inj.mp hcode]

theorem windowsHave_noteType (windows : List (Nat × Octets)) (rtype other : Rtype) :
    windowsHave (noteType windows rtype) other = true ↔
      windowsHave windows other = true ∨ rtype = other := by
  rw [noteType]
  simp only [windowsHave]
  split
  · rename_i hsome
    obtain ⟨found, hfound, hwindow⟩ := List.any_eq_true.mp hsome
    rw [beq_iff_eq] at hwindow
    simp only [List.any_map, List.any_eq_true, Function.comp_apply, Bool.and_eq_true, beq_iff_eq]
    constructor
    · rintro ⟨entry, he, hentry⟩
      split at hentry
      · rename_i hsame
        obtain ⟨h₁, h₂⟩ := hentry
        rw [typeBitSet_setTypeBit, Bool.or_eq_true, beq_iff_eq] at h₂
        rcases h₂ with h₂ | h₂
        · exact .inl ⟨entry, he, hsame.trans h₁, h₂⟩
        · exact .inr (rtype_eq_iff.mpr ⟨h₁, h₂⟩)
      · exact .inl ⟨entry, he, hentry⟩
    · rintro (⟨entry, he, h₁, h₂⟩ | rfl)
      · grind [typeBitSet_setTypeBit]
      · refine ⟨found, hfound, ?_⟩
        rw [if_pos hwindow, typeBitSet_setTypeBit, beq_self_eq_true, Bool.or_true]
        exact ⟨rfl, rfl⟩
  · simp only [List.any_append, Bool.or_eq_true, List.any_cons, List.any_nil, Bool.or_false,
      Bool.and_eq_true, beq_iff_eq, typeBitSet_setTypeBit]
    have hempty : typeBitSet [] (other.code.toNat % 256) = false := by
      simp [typeBitSet]
    rw [hempty, rtype_eq_iff]
    simp

theorem foldl_noteType (types : List Rtype) (h : WindowsOk windows) :
    WindowsOk (types.foldl noteType windows) ∧ ∀ rtype,
      windowsHave (types.foldl noteType windows) rtype = true ↔
        windowsHave windows rtype = true ∨ rtype ∈ types := by
  induction types generalizing windows with
  | nil => exact ⟨h, fun rtype => by simp⟩
  | cons first types ih =>
    obtain ⟨hok, hhave⟩ := ih (h.noteType first)
    refine ⟨hok, fun rtype => ?_⟩
    rw [List.foldl_cons, hhave, windowsHave_noteType, List.mem_cons, or_assoc, eq_comm (a := first)]

theorem WindowsOk.perm {others : List (Nat × Octets)} (h : WindowsOk windows)
    (hperm : windows.Perm others) : WindowsOk others :=
  ⟨(hperm.pairwise_iff fun hne => hne.symm).mp h.distinct,
    fun entry he => h.inRange entry (hperm.mem_iff.mpr he)⟩

/-- **Reading a bitmap back**, window by window: at most one window can hold the type. -/
theorem bitmapHasType_windows (h : WindowsOk windows) (rtype : Rtype) :
    bitmapHasType (windows.flatMap fun (window, bits) =>
      UInt8.ofNat window :: UInt8.ofNat bits.length :: bits) rtype = windowsHave windows rtype := by
  induction windows with
  | nil =>
    rw [List.flatMap_nil, bitmapHasType]
    · rfl
    · intro window len tail h
      cases h
  | cons first rest ih =>
    obtain ⟨window, bits⟩ := first
    obtain ⟨hdistinct, hrest⟩ := List.pairwise_cons.mp h.distinct
    obtain ⟨hlt, hpos, hle⟩ := h.inRange _ List.mem_cons_self
    dsimp only at hlt hpos hle hdistinct
    have hwindow : (UInt8.ofNat window).toNat = window := by
      rw [UInt8.toNat_ofNat']
      omega
    have hlen : (UInt8.ofNat bits.length).toNat = bits.length := by
      rw [UInt8.toNat_ofNat']
      omega
    rw [List.flatMap_cons, List.cons_append, List.cons_append, bitmapHasType, hwindow, hlen,
      if_neg (by rw [List.length_append]; omega), List.take_left, List.drop_left,
      ih ⟨hrest, fun e he => h.inRange e (List.mem_cons_of_mem _ he)⟩]
    show _ = (_ || windowsHave rest rtype)
    split
    · rename_i hsame
      have hnone : windowsHave rest rtype = false := by
        rw [windowsHave, List.any_eq_false]
        intro e he
        have hne := hdistinct e he
        rw [hsame] at hne
        simp [Ne.symm hne]
      rw [hnone, Bool.or_false, hsame]
      simp
    · rename_i hne
      simp [hne]

/-- **A bitmap lists exactly the types it was built from.** -/
theorem bitmapHasType_build (types : List Rtype) (rtype : Rtype) :
    bitmapHasType (buildTypeBitmap types) rtype = true ↔ rtype ∈ types := by
  obtain ⟨hok, hhave⟩ := foldl_noteType types ⟨List.Pairwise.nil, fun _ h => by cases h⟩
  have hperm := List.mergeSort_perm (types.foldl noteType []) fun a b => decide (a.1 ≤ b.1)
  have hsame : windowsHave ((types.foldl noteType []).mergeSort fun a b => decide (a.1 ≤ b.1)) rtype =
      windowsHave (types.foldl noteType []) rtype := by
    rw [windowsHave, windowsHave]
    exact hperm.any_eq
  rw [buildTypeBitmap, bitmapHasType_windows (hok.perm hperm.symm), hsame, hhave]
  simp [windowsHave]

theorem length_buildTypeBitmap_le (types : List Rtype) : (buildTypeBitmap types).length ≤ 8704 := by
  obtain ⟨hok, -⟩ := foldl_noteType types ⟨List.Pairwise.nil, fun _ h => by cases h⟩
  have hok := hok.perm (List.mergeSort_perm (types.foldl noteType []) fun a b => decide (a.1 ≤ b.1)).symm
  rw [buildTypeBitmap]
  generalize (types.foldl noteType []).mergeSort (fun a b => decide (a.1 ≤ b.1)) = windows at hok
  have hcount : windows.length ≤ 256 := by
    have hnodup : (windows.map Prod.fst).Nodup := List.pairwise_map.mpr hok.distinct
    have hrange : windows.map Prod.fst ⊆ List.range 256 := by
      intro window hwindow
      obtain ⟨entry, hentry, rfl⟩ := List.mem_map.mp hwindow
      exact List.mem_range.mpr (hok.inRange entry hentry).1
    have hle := (List.subperm_of_subset hnodup hrange).length_le
    rwa [List.length_map, List.length_range] at hle
  have heach : ∀ n ∈ windows.map fun entry => (UInt8.ofNat entry.1 :: UInt8.ofNat entry.2.length :: entry.2).length,
      n ≤ 34 := by
    intro n hn
    obtain ⟨entry, hentry, rfl⟩ := List.mem_map.mp hn
    have hbits := (hok.inRange entry hentry).2.2
    simp only [List.length_cons]
    omega
  have hsum := List.sum_le_card_nsmul _ 34 heach
  rw [List.length_map] at hsum
  change _ ≤ windows.length * 34 at hsum
  rw [List.length_flatMap]
  exact hsum.trans (by omega)

/-! ## base32hex -/

def lowerDigit (value : Nat) : UInt8 := UInt8.ofNat (if value < 10 then 48 + value else 87 + value)

theorem foldCase_digit {value : Nat} (h : value < 32) :
    foldCase (String.utf8EncodeChar (base32hexDigit value)) = [lowerDigit value] := by
  have hall : ∀ v : Fin 32,
      foldCase (String.utf8EncodeChar (base32hexDigit v.val)) = [lowerDigit v.val] := by decide
  exact hall ⟨value, h⟩

theorem base32hexValue_lowerDigit {value : Nat} (h : value < 32) :
    base32hexValue (lowerDigit value) = some (UInt8.ofNat value) := by
  have hall : ∀ v : Fin 32, base32hexValue (lowerDigit v.val) = some (UInt8.ofNat v.val) := by decide
  exact hall ⟨value, h⟩

def octetsOf (low bits : Nat) : List Nat → Octets
  | [] => []
  | digit :: rest =>
    if bits + 5 ≥ 8 then
      UInt8.ofNat ((low * 32 + digit) / 2 ^ (bits - 3)) ::
        octetsOf ((low * 32 + digit) % 2 ^ (bits - 3)) (bits - 3) rest
    else octetsOf (low * 32 + digit) (bits + 5) rest

theorem shift_or_toNat (acc : UInt64) {digit : Nat} (hdigit : digit < 32) (hbits : bits < 8) :
    ((acc <<< 5) ||| (UInt8.ofNat digit).toUInt64).toNat % 2 ^ (bits + 5) =
      (acc.toNat % 2 ^ bits) * 32 + digit := by
  have hlow : (UInt8.ofNat digit).toUInt64.toNat = digit := by
    rw [UInt8.toNat_toUInt64, UInt8.toNat_ofNat']
    omega
  have hshift : (acc <<< 5).toNat = (acc.toNat % 2 ^ 59) <<< 5 := by grind [UInt64.toNat_shiftLeft, Nat.shiftLeft_eq]
  rw [UInt64.toNat_or, hlow, hshift, ← Nat.shiftLeft_add_eq_or_of_lt hdigit, Nat.shiftLeft_eq]
  interval_cases bits <;> omega

theorem shiftRight_toUInt8 (acc : UInt64) {low : Nat} (hbits : bits < 5)
    (hlow : acc.toNat % 2 ^ (bits + 8) = low) :
    (acc >>> UInt64.ofNat bits).toUInt8 = UInt8.ofNat (low / 2 ^ bits) ∧
      acc.toNat % 2 ^ bits = low % 2 ^ bits := by
  constructor
  · rw [← UInt8.toNat_inj, UInt64.toNat_toUInt8, UInt64.toNat_shiftRight, UInt8.toNat_ofNat',
      Nat.shiftRight_eq_div_pow]
    have hmod : (UInt64.ofNat bits).toNat % 64 = bits := by
      rw [UInt64.toNat_ofNat']
      omega
    rw [hmod]
    subst hlow
    interval_cases bits <;> omega
  · subst hlow
    interval_cases bits <;> omega

theorem base32hexLoop_digits (digits : List Nat) (hdigits : ∀ d ∈ digits, d < 32) {acc : UInt64}
    (hbits : bits < 8) (out : Octets) :
    base32hexLoop acc bits out (digits.map lowerDigit) =
      .ok (out ++ octetsOf (acc.toNat % 2 ^ bits) bits digits) := by
  induction digits generalizing acc bits out with
  | nil => rw [octetsOf, List.append_nil, List.map_nil, base32hexLoop]
  | cons digit rest ih =>
    have hdigit := hdigits digit List.mem_cons_self
    have hrest : ∀ d ∈ rest, d < 32 := fun d hd => hdigits d (List.mem_cons_of_mem _ hd)
    have hacc := shift_or_toNat acc hdigit hbits
    rw [List.map_cons, base32hexLoop, base32hexValue_lowerDigit hdigit, octetsOf]
    dsimp only
    by_cases hfull : bits + 5 ≥ 8
    · rw [if_pos hfull, if_pos hfull]
      have hk : bits + 5 - 8 = bits - 3 := by omega
      have hexp : bits + 5 = bits - 3 + 8 := by omega
      rw [hexp] at hacc
      obtain ⟨hout, hlow⟩ := shiftRight_toUInt8 _ (by omega) hacc
      rw [hk, ih hrest (by omega), hout, hlow, List.append_assoc, List.singleton_append]
    · rw [if_neg hfull, if_neg hfull, ih hrest (by omega), hacc]

def chunkDigits (a b c d e : UInt8) : List Nat :=
  let bits := (((a.toNat * 256 + b.toNat) * 256 + c.toNat) * 256 + d.toNat) * 256 + e.toNat
  [bits / 2 ^ 35 % 32, bits / 2 ^ 30 % 32, bits / 2 ^ 25 % 32, bits / 2 ^ 20 % 32,
    bits / 2 ^ 15 % 32, bits / 2 ^ 10 % 32, bits / 2 ^ 5 % 32, bits % 32]

theorem base32hexChunk_five (a b c d e : UInt8) :
    base32hexChunk [a, b, c, d, e] = (chunkDigits a b c d e).map base32hexDigit := by
  simp [base32hexChunk, chunkDigits, List.range_succ_eq_map]

theorem low_digit (n k b : Nat) : n / 2 ^ (k + 5) % 2 ^ b * 32 + n / 2 ^ k % 32 = n / 2 ^ k % 2 ^ (b + 5) := by
  rw [Nat.pow_add, ← Nat.div_div_eq_div_mul, Nat.pow_add 2 b 5, Nat.mul_comm (2 ^ b), Nat.mod_mul]
  omega

theorem octetsOf_gathers (n k l b e : Nat) (rest : List Nat) (hl : l = k + 5) (he : e = b + 5) (hb : b < 3) :
    octetsOf (n / 2 ^ l % 2 ^ b) b (n / 2 ^ k % 32 :: rest) = octetsOf (n / 2 ^ k % 2 ^ e) e rest := by
  subst hl he
  rw [octetsOf, if_neg (by omega), low_digit]

theorem octetsOf_emits (n k l b e : Nat) (rest : List Nat) (hl : l = k + 5) (he : b = e + 3) :
    octetsOf (n / 2 ^ l % 2 ^ b) b (n / 2 ^ k % 32 :: rest) =
      UInt8.ofNat (n / 2 ^ (k + e)) :: octetsOf (n / 2 ^ k % 2 ^ e) e rest := by
  subst hl he
  have hsplit : 2 ^ (e + 3 + 5) = 2 ^ e * 2 ^ 8 := Nat.pow_add 2 e 8
  rw [octetsOf, if_pos (by omega), low_digit, Nat.add_sub_cancel, hsplit, Nat.mod_mul_right_div_self,
    Nat.mod_mul_right_mod, Nat.div_div_eq_div_mul, ← Nat.pow_add]
  exact congrArg (· :: _) UInt8.ofNat_mod_size

theorem octetsOf_chunk (a b c d e : UInt8) (rest : List Nat) :
    octetsOf 0 0 (chunkDigits a b c d e ++ rest) = a :: b :: c :: d :: e :: octetsOf 0 0 rest := by
  have hb := b.toNat_lt
  have hc := c.toNat_lt
  have hd := d.toNat_lt
  have he := e.toNat_lt
  have hoctet : ∀ (x : UInt8) (n m : Nat), n = m * 256 + x.toNat → UInt8.ofNat n = x := by
    rintro x n m rfl
    apply UInt8.toNat_inj.mp
    have hx := x.toNat_lt
    rw [UInt8.toNat_ofNat']
    omega
  rw [chunkDigits]
  generalize hbits : (((a.toNat * 256 + b.toNat) * 256 + c.toNat) * 256 + d.toNat) * 256 + e.toNat = bits
  have hstart : octetsOf 0 0 = octetsOf (bits / 2 ^ 40 % 2 ^ 0) 0 := by rw [pow_zero, Nat.mod_one]
  have hlast : bits % 32 = bits / 2 ^ 0 % 32 := by rw [pow_zero, Nat.div_one]
  simp only [List.cons_append, List.nil_append]
  rw [hlast, hstart, octetsOf_gathers bits 35 40 0 5 _ rfl rfl (by decide), octetsOf_emits bits 30 35 5 2 _ rfl rfl,
    octetsOf_gathers bits 25 30 2 7 _ rfl rfl (by decide), octetsOf_emits bits 20 25 7 4 _ rfl rfl,
    octetsOf_emits bits 15 20 4 1 _ rfl rfl, octetsOf_gathers bits 10 15 1 6 _ rfl rfl (by decide),
    octetsOf_emits bits 5 10 6 3 _ rfl rfl, octetsOf_emits bits 0 5 3 0 _ rfl rfl]
  rw [hoctet a _ 0 (by omega), hoctet b _ a.toNat (by omega), hoctet c _ (a.toNat * 256 + b.toNat) (by omega),
    hoctet d _ ((a.toNat * 256 + b.toNat) * 256 + c.toNat) (by omega),
    hoctet e _ (((a.toNat * 256 + b.toNat) * 256 + c.toNat) * 256 + d.toNat) (by omega), pow_zero, Nat.mod_one,
    Nat.mod_one]

def digitsOf : Octets → List Nat
  | a :: b :: c :: d :: e :: rest => chunkDigits a b c d e ++ digitsOf rest
  | _ => []

theorem digitsOf_lt (octets : Octets) : ∀ digit ∈ digitsOf octets, digit < 32 := by
  induction octets using digitsOf.induct with
  | case1 a b c d e rest ih =>
    intro digit hdigit
    rw [digitsOf, List.mem_append] at hdigit
    rcases hdigit with hdigit | hdigit
    · simp only [chunkDigits, List.mem_cons, List.not_mem_nil, or_false] at hdigit
      omega
    · exact ih digit hdigit
  | case2 octets hshort => simp [digitsOf]

theorem base32hexEncode_eq (h : octets.length % 5 = 0) :
    base32hexEncode octets = (digitsOf octets).map base32hexDigit ∧
      octetsOf 0 0 (digitsOf octets) = octets := by
  induction octets using digitsOf.induct with
  | case1 a b c d e rest ih =>
    obtain ⟨hencode, hoctets⟩ := ih (by simp only [List.length_cons] at h; omega)
    constructor
    · rw [base32hexEncode, digitsOf, List.map_append, ← base32hexChunk_five]
      exact congrArg (base32hexChunk [a, b, c, d, e] ++ ·) hencode
    · rw [digitsOf, octetsOf_chunk, hoctets]
  | case2 octets hshort =>
    -- fewer than five octets, and a multiple of five
    obtain _ | ⟨a, _ | ⟨b, _ | ⟨c, _ | ⟨d, _ | ⟨e, rest⟩⟩⟩⟩⟩ := octets
    · exact ⟨by simp [base32hexEncode, digitsOf], rfl⟩
    · cases h
    · cases h
    · cases h
    · cases h
    · exact absurd rfl (hshort a b c d e rest)

theorem foldCase_digits {digits : List Nat} (hdigits : ∀ d ∈ digits, d < 32) :
    foldCase (toBytes (digits.map base32hexDigit)) = digits.map lowerDigit := by
  induction digits with
  | nil => rfl
  | cons digit rest ih =>
    rw [List.map_cons, List.map_cons, toBytes, List.flatMap_cons, foldCase_append,
      foldCase_digit (hdigits digit List.mem_cons_self)]
    exact congrArg (lowerDigit digit :: ·) (ih fun d hd => hdigits d (List.mem_cons_of_mem _ hd))

/-- **base32hex reads back**, in lower case, for octets that come in fives as a hash does. -/
theorem base32hexDecode_lower (h : octets.length % 5 = 0) :
    base32hexDecode (foldCase (toBytes (base32hexEncode octets))) = .ok octets := by
  obtain ⟨hencode, hoctets⟩ := base32hexEncode_eq h
  rw [hencode, foldCase_digits (digitsOf_lt octets), base32hexDecode,
    base32hexLoop_digits _ (digitsOf_lt octets) (by decide), List.nil_append]
  exact congrArg Except.ok hoctets

theorem length_digitsOf (h : octets.length % 5 = 0) :
    (digitsOf octets).length = octets.length / 5 * 8 := by
  induction octets using digitsOf.induct with
  | case1 a b c d e rest ih =>
    simp only [List.length_cons] at h
    rw [digitsOf, List.length_append, ih (by omega)]
    simp only [chunkDigits, List.length_cons, List.length_nil]
    omega
  | case2 octets hshort =>
    match octets, h, hshort with
    | [], _, _ => rfl
    | a :: b :: c :: d :: e :: rest, _, hshort => exact absurd rfl (hshort a b c d e rest)

theorem length_lower (h : octets.length % 5 = 0) :
    (foldCase (toBytes (base32hexEncode octets))).length = octets.length / 5 * 8 := by
  rw [(base32hexEncode_eq h).1, foldCase_digits (digitsOf_lt octets), List.length_map,
    length_digitsOf h]

end Rdns.Present
