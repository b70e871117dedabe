import Rdns.Core.Codes

/-!
# Rdns — Domain names

`rdns-core/src/name.rs`. A `Name` is a sequence of labels, each of one to 63
octets, whose encoded form is at most 255 octets (RFC 1035 §2.3.4); both limits
are fields, so a name over either cannot be built. `Name.wire` is the octet
string the source stores.

Two names are *the same* (`Name.same`, the source's `PartialEq`) when their wire
forms agree up to ASCII case. The length octets are below `A`, so that is label
by label equality up to case.
-/

namespace Rdns.Core

open Rdns.Lib

def MAX_LABEL_LEN : Nat := 63
def MAX_NAME_LEN : Nat := 255

/-! ## Labels and their encoding -/

def ValidLabel (label : Octets) : Prop :=
  0 < label.length ∧ label.length ≤ MAX_LABEL_LEN

instance (label : Octets) : Decidable (ValidLabel label) :=
  inferInstanceAs (Decidable (_ ∧ _))

def labelOctets (label : Octets) : Octets :=
  UInt8.ofNat label.length :: label

def labelsOctets : List Octets → Octets
  | [] => []
  | label :: rest => labelOctets label ++ labelsOctets rest

def wireOf (labels : List Octets) : Octets :=
  labelsOctets labels ++ [0]

def encodedLen (labels : List Octets) : Nat :=
  (labelsOctets labels).length + 1

def foldLabels (labels : List Octets) : List Octets :=
  labels.map foldCase

@[simp]
theorem length_labelOctets (label : Octets) : (labelOctets label).length = label.length + 1 := rfl

@[simp]
theorem labelsOctets_append (a b : List Octets) :
    labelsOctets (a ++ b) = labelsOctets a ++ labelsOctets b := by
  induction a with
  | nil => rfl
  | cons label rest ih => rw [List.cons_append, labelsOctets, labelsOctets, ih, List.append_assoc]

theorem wireOf_append (a b : List Octets) : wireOf (a ++ b) = labelsOctets a ++ wireOf b := by
  rw [wireOf, labelsOctets_append, List.append_assoc, wireOf]

theorem wireOf_cons (label : Octets) (rest : List Octets) :
    wireOf (label :: rest) = labelOctets label ++ wireOf rest := by
  rw [wireOf, labelsOctets, List.append_assoc, wireOf]

@[simp]
theorem length_wireOf (labels : List Octets) : (wireOf labels).length = encodedLen labels := by
  rw [wireOf, List.length_append, encodedLen]
  rfl

theorem wireOf_ne_nil (labels : List Octets) : wireOf labels ≠ [] := by
  intro h
  have hlen := congrArg List.length h
  rw [length_wireOf, encodedLen, List.length_nil] at hlen
  omega

theorem encodedLen_append (a b : List Octets) :
    encodedLen (a ++ b) = (labelsOctets a).length + encodedLen b := by
  rw [encodedLen, labelsOctets_append, List.length_append, encodedLen]
  omega

theorem encodedLen_cons (label : Octets) (rest : List Octets) :
    encodedLen (label :: rest) = label.length + 1 + encodedLen rest := by
  rw [encodedLen, labelsOctets, List.length_append, length_labelOctets, encodedLen]
  omega

theorem toNat_lengthOctet {label : Octets} (h : ValidLabel label) :
    (UInt8.ofNat label.length).toNat = label.length := by
  have := h.2
  unfold MAX_LABEL_LEN at this
  rw [UInt8.toNat_ofNat']
  omega

/-- **The wire form determines the labels**, whatever follows it. -/
theorem wireOf_append_injective {a b : List Octets} {restA restB : Octets}
    (ha : ∀ l ∈ a, ValidLabel l) (hb : ∀ l ∈ b, ValidLabel l)
    (h : wireOf a ++ restA = wireOf b ++ restB) : a = b ∧ restA = restB := by
  induction a generalizing b with
  | nil =>
    cases b with
    | nil => exact ⟨rfl, by simpa [wireOf, labelsOctets] using h⟩
    | cons label rest =>
      -- a root octet is zero, and the length octet of a label is not
      have hv := hb label (List.mem_cons_self ..)
      have hlen := toNat_lengthOctet hv
      rw [wireOf_cons, labelOctets] at h
      have hhead : (0 : UInt8) = UInt8.ofNat label.length := by
        simpa [wireOf, labelsOctets] using congrArg List.head? h
      rw [← hhead] at hlen
      exact absurd hlen (by have := hv.1; simp; omega)
  | cons label rest ih =>
    have hv := ha label (List.mem_cons_self ..)
    have hlen := toNat_lengthOctet hv
    cases b with
    | nil =>
      rw [wireOf_cons, labelOctets] at h
      have hhead : UInt8.ofNat label.length = (0 : UInt8) := by
        simpa [wireOf, labelsOctets] using congrArg List.head? h
      rw [hhead] at hlen
      exact absurd hlen (by have := hv.1; simp; omega)
    | cons label' rest' =>
      have hv' := hb label' (List.mem_cons_self ..)
      have hlen' := toNat_lengthOctet hv'
      rw [wireOf_cons, wireOf_cons, labelOctets, labelOctets] at h
      simp only [List.cons_append, List.append_assoc, List.cons.injEq] at h
      obtain ⟨hhead, htail⟩ := h
      have hsame : label.length = label'.length := by rw [← hlen, ← hlen', hhead]
      obtain ⟨rfl, hrest⟩ := List.append_inj htail hsame
      obtain ⟨hlabels, htails⟩ := ih
        (fun l hl => ha l (List.mem_cons_of_mem _ hl))
        (fun l hl => hb l (List.mem_cons_of_mem _ hl)) hrest
      exact ⟨congrArg (label :: ·) hlabels, htails⟩

theorem wireOf_injective {a b : List Octets}
    (ha : ∀ l ∈ a, ValidLabel l) (hb : ∀ l ∈ b, ValidLabel l)
    (h : wireOf a = wireOf b) : a = b := by
  have h' : wireOf a ++ [] = wireOf b ++ [] := by rw [h]
  exact (wireOf_append_injective ha hb h').1

theorem validLabel_foldCase {label : Octets} : ValidLabel (foldCase label) ↔ ValidLabel label := by
  rw [ValidLabel, ValidLabel, length_foldCase]

variable {labels : List Octets}

theorem validLabels_foldLabels (h : ∀ l ∈ labels, ValidLabel l) :
    ∀ l ∈ foldLabels labels, ValidLabel l := by
  intro l hl
  obtain ⟨l', hl', rfl⟩ := List.mem_map.mp hl
  exact validLabel_foldCase.mpr (h l' hl')

@[simp]
theorem foldLabels_foldLabels (labels : List Octets) :
    foldLabels (foldLabels labels) = foldLabels labels := by
  simp [foldLabels, Function.comp_def]

theorem foldCase_labelsOctets (h : ∀ l ∈ labels, ValidLabel l) :
    foldCase (labelsOctets labels) = labelsOctets (foldLabels labels) := by
  induction labels with
  | nil => rfl
  | cons label rest ih =>
    have hv := h label (List.mem_cons_self ..)
    have hlow : (UInt8.ofNat label.length).toNat < 65 := by
      rw [toNat_lengthOctet hv]
      have := hv.2
      unfold MAX_LABEL_LEN at this
      omega
    rw [labelsOctets, foldCase_append, labelOctets, foldCase_cons, toAsciiLowercase_of_lt hlow,
      ih fun l hl => h l (List.mem_cons_of_mem _ hl)]
    simp [foldLabels, labelsOctets, labelOctets]

theorem foldCase_wireOf (h : ∀ l ∈ labels, ValidLabel l) :
    foldCase (wireOf labels) = wireOf (foldLabels labels) := by
  rw [wireOf, foldCase_append, foldCase_labelsOctets h]
  rfl

theorem length_labelsOctets_foldLabels (labels : List Octets) :
    (labelsOctets (foldLabels labels)).length = (labelsOctets labels).length := by
  induction labels with
  | nil => rfl
  | cons label rest ih =>
    simp only [foldLabels, List.map_cons, labelsOctets, List.length_append, length_labelOctets,
      length_foldCase] at ih ⊢
    omega

theorem encodedLen_foldLabels (labels : List Octets) :
    encodedLen (foldLabels labels) = encodedLen labels := by
  rw [encodedLen, encodedLen, length_labelsOctets_foldLabels]

/-! ## Names -/

/-- `check_name_len`: the one place RFC 1035 §2.3.4's 255-octet limit is compared. -/
def checkNameLen (encoded : Nat) : Except WireError Unit :=
  if encoded > MAX_NAME_LEN then .error (.tooLong "a domain name" MAX_NAME_LEN encoded)
  else .ok ()

/-- A domain name, always absolute; the labels are without their length octets
and without the root. -/
structure Name where
  labels : List Octets
  labels_ok : ∀ l ∈ labels, ValidLabel l
  length_ok : encodedLen labels ≤ MAX_NAME_LEN
deriving DecidableEq

namespace Name

@[ext]
theorem ext {a b : Name} (h : a.labels = b.labels) : a = b := by
  cases a
  cases b
  cases h
  rfl

def root : Name := ⟨[], by simp, by decide⟩

def wire (name : Name) : Octets := wireOf name.labels

def isRoot (name : Name) : Bool := name.labels.isEmpty

def labelCount (name : Name) : Nat := name.labels.length

@[simp]
theorem length_wire (name : Name) : name.wire.length = encodedLen name.labels :=
  length_wireOf name.labels

theorem length_wire_le (name : Name) : name.wire.length ≤ 255 := by
  rw [length_wire]
  exact name.length_ok

variable {a b name : Name}

theorem wire_injective (h : a.wire = b.wire) : a = b :=
  Name.ext (wireOf_injective a.labels_ok b.labels_ok h)

/-- The name a run of labels spells, checked as every constructor of the source
checks it: a label of no or too many octets, then the assembled length. -/
def ofLabels (labels : List Octets) : Except WireError Name :=
  if hlabels : ∀ l ∈ labels, ValidLabel l then
    if hlength : encodedLen labels ≤ MAX_NAME_LEN then .ok ⟨labels, hlabels, hlength⟩
    else .error (.tooLong "a domain name" MAX_NAME_LEN (encodedLen labels))
  else .error (.malformed "a domain name" "a label may not be empty")

theorem ofLabels_ok_iff : ofLabels labels = .ok name ↔ name.labels = labels := by
  unfold ofLabels
  constructor
  · grind
  · rintro rfl
    rw [dif_pos name.labels_ok, dif_pos name.length_ok]

@[simp]
theorem ofLabels_labels (name : Name) : ofLabels name.labels = .ok name :=
  ofLabels_ok_iff.mpr rfl

def dropLabels (name : Name) (k : Nat) : Name where
  labels := name.labels.drop k
  labels_ok := fun l hl => name.labels_ok l (List.mem_of_mem_drop hl)
  length_ok := by
    have h := name.length_ok
    rw [← List.take_append_drop k name.labels, encodedLen_append] at h
    omega

def parent (name : Name) : Option Name :=
  if name.isRoot then none else some (name.dropLabels 1)

def ancestors (name : Name) : List Name :=
  (List.range (name.labels.length + 1)).map name.dropLabels

def suffix (name : Name) (count : Nat) : Name :=
  name.dropLabels (name.labelCount - count)

/-- `NameRef`'s `PartialEq`: equal wire octets up to ASCII case (RFC 4343). -/
def same (a b : Name) : Bool :=
  eqIgnoreAsciiCase a.wire b.wire

def toFolded (name : Name) : Name where
  labels := foldLabels name.labels
  labels_ok := validLabels_foldLabels name.labels_ok
  length_ok := by rw [encodedLen_foldLabels]; exact name.length_ok

def isAtOrUnder (name other : Name) : Bool :=
  if other.wire.length > name.wire.length then false
  else match name.ancestors.find? (fun ancestor => ancestor.wire.length ≤ other.wire.length) with
    | some ancestor => ancestor.same other
    | none => false

/-- `label` prepended to `parent`, as a wildcard is built from its closest
encloser (RFC 4592 §3.3.1). -/
def prefixed (label : Octets) (parent : Name) : Except WireError Name :=
  if label.isEmpty || label.length > MAX_LABEL_LEN then
    .error (.tooLong "a label" MAX_LABEL_LEN label.length)
  else ofLabels (label :: parent.labels)

@[simp]
theorem toFolded_labels (name : Name) : name.toFolded.labels = foldLabels name.labels := rfl

@[simp]
theorem toFolded_toFolded (name : Name) : name.toFolded.toFolded = name.toFolded :=
  Name.ext (foldLabels_foldLabels name.labels)

theorem wire_toFolded (name : Name) : name.toFolded.wire = foldCase name.wire :=
  (foldCase_wireOf name.labels_ok).symm

/-- **The source's name equality is equality of the folded names.** -/
theorem same_iff : a.same b = true ↔ a.toFolded = b.toFolded := by
  rw [same, eqIgnoreAsciiCase_iff, ← wire_toFolded, ← wire_toFolded]
  exact ⟨wire_injective, fun h => by rw [h]⟩

theorem same_iff_foldLabels : a.same b = true ↔ foldLabels a.labels = foldLabels b.labels := by
  rw [same_iff]
  exact ⟨fun h => congrArg Name.labels h, fun h => Name.ext h⟩

@[simp]
theorem same_self (name : Name) : name.same name = true :=
  same_iff.mpr rfl

theorem same_comm (a b : Name) : a.same b = b.same a := by
  rw [Bool.eq_iff_iff, same_iff, same_iff]
  exact eq_comm

theorem same_trans {c : Name} (hab : a.same b = true) (hbc : b.same c = true) : a.same c = true :=
  same_iff.mpr ((same_iff.mp hab).trans (same_iff.mp hbc))

@[simp]
theorem dropLabels_labels (name : Name) (k : Nat) :
    (name.dropLabels k).labels = name.labels.drop k := rfl

@[simp]
theorem isRoot_iff {name : Name} : name.isRoot = true ↔ name.labels = [] := by
  rw [isRoot, List.isEmpty_iff]

theorem encodedLen_drop_le (labels : List Octets) (k : Nat) :
    encodedLen (labels.drop k) ≤ encodedLen labels := by
  have h := encodedLen_append (labels.take k) (labels.drop k)
  rw [List.take_append_drop] at h
  omega

theorem encodedLen_drop_lt {j k : Nat} (hjk : j < k) (hj : j < labels.length) :
    encodedLen (labels.drop k) < encodedLen (labels.drop j) := by
  obtain ⟨d, rfl⟩ : ∃ d, k = j + 1 + d := ⟨k - j - 1, by omega⟩
  rw [List.drop_eq_getElem_cons hj, encodedLen_cons, ← List.drop_drop]
  have hle := encodedLen_drop_le (labels.drop (j + 1)) d
  omega

theorem foldLabels_drop (labels : List Octets) (k : Nat) :
    foldLabels (labels.drop k) = (foldLabels labels).drop k :=
  List.map_drop

/-- **The label walk decides the suffix relation**: a name is at or under another
exactly when the other's labels, up to case, are the end of its own. -/
theorem isAtOrUnder_iff {other : Name} :
    name.isAtOrUnder other = true ↔ foldLabels other.labels <:+ foldLabels name.labels := by
  have hfind : ∀ k, k ≤ name.labels.length →
      encodedLen (name.labels.drop k) ≤ encodedLen other.labels →
      (∀ j < k, encodedLen other.labels < encodedLen (name.labels.drop j)) →
      name.ancestors.find? (fun a => a.wire.length ≤ other.wire.length)
        = some (name.dropLabels k) := by
    intro k hk hle hlt
    rw [ancestors, List.find?_map, List.find?_range_eq_some.mpr ⟨?_, ?_, ?_⟩, Option.map_some]
    · simp only [Function.comp_apply, length_wire, dropLabels_labels]
      exact decide_eq_true hle
    · rw [List.mem_range]; omega
    · intro j hj
      simp only [Function.comp_apply, length_wire, dropLabels_labels, Bool.not_eq_true']
      exact decide_eq_false (Nat.not_le.mpr (hlt j hj))
  unfold isAtOrUnder
  constructor
  · intro h
    split at h
    · cases h
    · split at h
      · rename_i ancestor hsome
        rw [ancestors, List.find?_map] at hsome
        obtain ⟨k, -, rfl⟩ := Option.map_eq_some_iff.mp hsome
        rw [same_iff_foldLabels, dropLabels_labels, foldLabels_drop] at h
        rw [← h]
        exact List.drop_suffix ..
      · cases h
  · rintro ⟨front, hfront⟩
    -- the suffix starts after as many labels as stand in front of it
    have hlabels : foldLabels other.labels = foldLabels (name.labels.drop front.length) := by
      rw [foldLabels_drop, ← hfront, List.drop_left]
    have hlen : encodedLen other.labels = encodedLen (name.labels.drop front.length) := by
      rw [← encodedLen_foldLabels, hlabels, encodedLen_foldLabels]
    have hfl : front.length ≤ name.labels.length := by
      have := congrArg List.length hfront
      simp only [List.length_append, foldLabels, List.length_map] at this
      omega
    have hle := encodedLen_drop_le name.labels front.length
    rw [if_neg (by rw [length_wire, length_wire]; omega),
      hfind front.length hfl hlen.ge fun j hj => by
        rw [hlen]; exact encodedLen_drop_lt hj (by omega)]
    exact same_iff_foldLabels.mpr hlabels.symm

/-! ## Ancestors -/

theorem mem_ancestors : a ∈ name.ancestors ↔ a.labels <:+ name.labels := by
  rw [ancestors, List.mem_map]
  constructor
  · rintro ⟨k, -, rfl⟩
    exact List.drop_suffix ..
  · rintro ⟨front, hfront⟩
    refine ⟨front.length, ?_, Name.ext ?_⟩
    · rw [List.mem_range, ← hfront, List.length_append]
      omega
    · rw [dropLabels_labels, ← hfront, List.drop_left]

theorem pairwise_ancestors (name : Name) :
    name.ancestors.Pairwise fun a b => b.wire.length < a.wire.length := by
  rw [ancestors, List.pairwise_map]
  refine List.pairwise_lt_range.imp_of_mem fun {j k} _ hk hjk => ?_
  rw [List.mem_range] at hk
  rw [length_wire, length_wire]
  exact encodedLen_drop_lt hjk (by omega)

theorem ancestors_eq_cons (name : Name) : name.ancestors = name :: name.ancestors.drop 1 := by
  rw [ancestors, List.range_succ_eq_map, List.map_cons, List.drop_one, List.tail_cons]
  rfl

theorem ancestors_toFolded (name : Name) :
    name.toFolded.ancestors = name.ancestors.map toFolded := by
  rw [ancestors, ancestors, List.map_map, toFolded_labels, foldLabels, List.length_map]
  refine List.map_congr_left fun k _ => Name.ext ?_
  show (foldLabels name.labels).drop k = foldLabels (name.labels.drop k)
  rw [foldLabels_drop]

theorem isAtOrUnder_toFolded : a.isAtOrUnder b = true ↔ b.toFolded.labels <:+ a.toFolded.labels :=
  isAtOrUnder_iff

theorem isAtOrUnder_refl (name : Name) : name.isAtOrUnder name = true :=
  isAtOrUnder_iff.mpr (List.suffix_refl _)

theorem isAtOrUnder_trans {c : Name} (hab : a.isAtOrUnder b = true) (hbc : b.isAtOrUnder c = true) :
    a.isAtOrUnder c = true :=
  isAtOrUnder_iff.mpr ((isAtOrUnder_iff.mp hbc).trans (isAtOrUnder_iff.mp hab))

theorem isAtOrUnder_of_length_le (ha : name.isAtOrUnder a = true) (hb : name.isAtOrUnder b = true)
    (hlen : b.wire.length ≤ a.wire.length) :
    a.isAtOrUnder b = true := by
  rw [isAtOrUnder_iff] at ha hb ⊢
  rcases List.suffix_or_suffix_of_suffix ha hb with hab | hba
  · -- the shorter would contain the longer: they are the same
    obtain ⟨front, hfront⟩ := hab
    have hfold := encodedLen_foldLabels b.labels
    rw [← hfront, encodedLen_append, encodedLen_foldLabels] at hfold
    rw [length_wire, length_wire] at hlen
    have hnil : front = [] := by
      cases front with
      | nil => rfl
      | cons label rest => grind [labelsOctets, length_labelOctets]
    rw [← hfront, hnil]
    exact List.suffix_refl _
  · exact hba

theorem isAtOrUnder_length_le (h : a.isAtOrUnder b = true) : b.wire.length ≤ a.wire.length := by
  obtain ⟨front, hfront⟩ := isAtOrUnder_iff.mp h
  have hfold := encodedLen_foldLabels a.labels
  rw [← hfront, encodedLen_append, encodedLen_foldLabels] at hfold
  rw [length_wire, length_wire]
  omega

end Name

end Rdns.Core
