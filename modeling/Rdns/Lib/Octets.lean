import Mathlib.Data.List.Basic
import Mathlib.Tactic.Ring

/-!
# Rdns — Octet strings

The octet-level facts every wire format rests on, over no particular format:

  * big-endian words: the octets of a 16- or 32-bit word determine it, and every
    pair or quadruple of octets is the encoding of one word;
  * ASCII case: folding is idempotent, keeps lengths, and leaves every octet
    below `A` (in particular every length octet) alone;
  * `PlacedAt`: a run of octets sits at an offset of a larger string.
-/

namespace Rdns.Lib

instance (priority := 1100) decidableForallMem {α : Type} {p : α → Prop} [DecidablePred p] (l : List α) :
    Decidable (∀ a ∈ l, p a) :=
  List.decidableBAll p l

instance (priority := 1100) decidableExistsMem {α : Type} {p : α → Prop} [DecidablePred p] (l : List α) :
    Decidable (∃ a ∈ l, p a) :=
  List.decidableBEx p l

abbrev Octets := List UInt8

/-! ## Big-endian words -/

def be16 (value : UInt16) : Octets :=
  [UInt8.ofNat (value.toNat / 256), UInt8.ofNat (value.toNat % 256)]

/-- The 16-bit word two octets spell. -/
def ofBe16 (hi lo : UInt8) : UInt16 :=
  UInt16.ofNat (hi.toNat * 256 + lo.toNat)

def be32 (value : UInt32) : Octets :=
  [UInt8.ofNat (value.toNat / 16777216), UInt8.ofNat (value.toNat / 65536 % 256),
   UInt8.ofNat (value.toNat / 256 % 256), UInt8.ofNat (value.toNat % 256)]

/-- The 32-bit word four octets spell. -/
def ofBe32 (b₃ b₂ b₁ b₀ : UInt8) : UInt32 :=
  UInt32.ofNat (b₃.toNat * 16777216 + b₂.toNat * 65536 + b₁.toNat * 256 + b₀.toNat)

theorem toNat_ofBe16 (hi lo : UInt8) : (ofBe16 hi lo).toNat = hi.toNat * 256 + lo.toNat := by
  have h₁ := hi.toNat_lt
  have h₀ := lo.toNat_lt
  rw [ofBe16, UInt16.toNat_ofNat']
  omega

@[simp]
theorem ofBe16_be16 (value : UInt16) :
    ofBe16 (UInt8.ofNat (value.toNat / 256)) (UInt8.ofNat (value.toNat % 256)) = value := by
  have h := value.toNat_lt
  apply UInt16.toNat_inj.mp
  rw [toNat_ofBe16, UInt8.toNat_ofNat', UInt8.toNat_ofNat']
  omega

theorem be16_ofBe16 (hi lo : UInt8) : be16 (ofBe16 hi lo) = [hi, lo] := by
  have h₁ := hi.toNat_lt
  have h₀ := lo.toNat_lt
  have hhi : UInt8.ofNat ((ofBe16 hi lo).toNat / 256) = hi := by
    apply UInt8.toNat_inj.mp
    rw [toNat_ofBe16, UInt8.toNat_ofNat']
    omega
  have hlo : UInt8.ofNat ((ofBe16 hi lo).toNat % 256) = lo := by simp [toNat_ofBe16]
  rw [be16, hhi, hlo]

theorem toNat_ofBe32 (b₃ b₂ b₁ b₀ : UInt8) :
    (ofBe32 b₃ b₂ b₁ b₀).toNat
      = b₃.toNat * 16777216 + b₂.toNat * 65536 + b₁.toNat * 256 + b₀.toNat := by
  have h₃ := b₃.toNat_lt
  have h₂ := b₂.toNat_lt
  have h₁ := b₁.toNat_lt
  have h₀ := b₀.toNat_lt
  rw [ofBe32, UInt32.toNat_ofNat']
  omega

@[simp]
theorem ofBe32_be32 (value : UInt32) :
    ofBe32 (UInt8.ofNat (value.toNat / 16777216)) (UInt8.ofNat (value.toNat / 65536 % 256))
      (UInt8.ofNat (value.toNat / 256 % 256)) (UInt8.ofNat (value.toNat % 256)) = value := by
  have h := value.toNat_lt
  apply UInt32.toNat_inj.mp
  rw [toNat_ofBe32]
  simp only [UInt8.toNat_ofNat']
  omega

@[simp]
theorem length_be16 (value : UInt16) : (be16 value).length = 2 := rfl

@[simp]
theorem length_be32 (value : UInt32) : (be32 value).length = 4 := rfl

theorem be16_injective {a b : UInt16} (h : be16 a = be16 b) : a = b := by
  have hword := congrArg (fun octets : Octets => ofBe16 (octets.getD 0 0) (octets.getD 1 0)) h
  exact (ofBe16_be16 a).symm.trans (hword.trans (ofBe16_be16 b))

/-! ## ASCII case -/

def toAsciiLowercase (octet : UInt8) : UInt8 :=
  if 65 ≤ octet.toNat ∧ octet.toNat ≤ 90 then UInt8.ofNat (octet.toNat + 32) else octet

def foldCase (octets : Octets) : Octets :=
  octets.map toAsciiLowercase

def eqIgnoreAsciiCase (a b : Octets) : Bool :=
  foldCase a == foldCase b

@[simp]
theorem toAsciiLowercase_idem (octet : UInt8) :
    toAsciiLowercase (toAsciiLowercase octet) = toAsciiLowercase octet := by
  unfold toAsciiLowercase
  by_cases h : 65 ≤ octet.toNat ∧ octet.toNat ≤ 90
  · rw [if_pos h, if_neg]
    rw [UInt8.toNat_ofNat']
    omega
  · rw [if_neg h, if_neg h]

/-- Folding never touches an octet below `A`: a length octet is at most 63. -/
theorem toAsciiLowercase_of_lt {octet : UInt8} (h : octet.toNat < 65) :
    toAsciiLowercase octet = octet := by
  rw [toAsciiLowercase, if_neg (by omega)]

@[simp]
theorem length_foldCase (octets : Octets) : (foldCase octets).length = octets.length :=
  List.length_map _

@[simp]
theorem foldCase_cons (b : UInt8) (rest : Octets) :
    foldCase (b :: rest) = toAsciiLowercase b :: foldCase rest := rfl

@[simp]
theorem foldCase_append (a b : Octets) : foldCase (a ++ b) = foldCase a ++ foldCase b :=
  List.map_append

@[simp]
theorem foldCase_idem (octets : Octets) : foldCase (foldCase octets) = foldCase octets := by
  induction octets with
  | nil => rfl
  | cons b rest ih => rw [foldCase_cons, foldCase_cons, toAsciiLowercase_idem, ih]

variable {data a b : Octets} {pos : Nat}

theorem eqIgnoreAsciiCase_iff : eqIgnoreAsciiCase a b = true ↔ foldCase a = foldCase b := by
  rw [eqIgnoreAsciiCase, beq_iff_eq]

/-! ## A run of octets at an offset -/

def PlacedAt (data : Octets) (pos : Nat) (bytes : Octets) : Prop :=
  ∃ tail, data.drop pos = bytes ++ tail

theorem PlacedAt.drop {bytes : Octets} (h : PlacedAt data pos bytes) :
    data.drop pos = bytes ++ data.drop (pos + bytes.length) := by
  obtain ⟨tail, htail⟩ := h
  rw [← List.drop_drop, htail, List.drop_left]

theorem placedAt_append_iff :
    PlacedAt data pos (a ++ b) ↔ PlacedAt data pos a ∧ PlacedAt data (pos + a.length) b := by
  constructor
  · rintro ⟨tail, htail⟩
    refine ⟨⟨b ++ tail, by rw [htail, List.append_assoc]⟩, tail, ?_⟩
    rw [← List.drop_drop, htail, List.append_assoc, List.drop_left]
  · rintro ⟨ha, tail, htail⟩
    refine ⟨tail, ?_⟩
    rw [ha.drop, htail, List.append_assoc]

theorem PlacedAt.left (h : PlacedAt data pos (a ++ b)) : PlacedAt data pos a :=
  (placedAt_append_iff.mp h).1

theorem PlacedAt.right (h : PlacedAt data pos (a ++ b)) : PlacedAt data (pos + a.length) b :=
  (placedAt_append_iff.mp h).2

theorem PlacedAt.lt_length {b : UInt8} {bytes : Octets} (h : PlacedAt data pos (b :: bytes)) :
    pos + bytes.length < data.length := by
  obtain ⟨tail, htail⟩ := h
  have hlen := congrArg List.length htail
  simp only [List.length_drop, List.length_append, List.length_cons] at hlen
  omega

theorem placedAt_middle (before bytes after : Octets) :
    PlacedAt (before ++ (bytes ++ after)) before.length bytes :=
  ⟨after, List.drop_left⟩

end Rdns.Lib
