import Rdns.Core.Name

/-!
# Rdns — A name as a message spells it

`rdns-core/src/dname.rs`: labels, length limits, and RFC 1035 §4.1.4's
compression pointers resolved against the whole message.

`DName.tryFromBytes` walks the labels a name starts with, up to the root octet or
the pointer that ends it; `unpackInternal` follows the pointer, each hop landing
strictly before the last and at most `MAX_DEPTH` of them.

`Resolves data off bytes labels hops` says what the octets at `off` spell: a run
of labels ended by the root, or by a pointer to an earlier place that itself
resolves, `hops` pointers in all.
-/

namespace Rdns.Core

open Rdns.Lib

def POINTER_TAG : UInt16 := 0xc000
def POINTER_MASK : Nat := 0x3fff

def MAX_DEPTH : Nat := 50

def USIZE_MAX : Nat := 2 ^ 64 - 1

/-! ## One label -/

inductive Label where
  | string (octets : Octets)
  | pointer (offset : Nat)
  | root
deriving DecidableEq

def Label.tryFromBytes (data : Octets) : Except WireError Label :=
  match data with
  | [] => .error (.truncated "a label" 1 0)
  | first :: tail =>
    let len := first.toNat % 64
    match first.toNat / 64 with
    | 0 =>
      if len = 0 then .ok .root
      else if data.length ≤ len then .error (.truncated "a label" len (data.length - 1))
      else .ok (.string (tail.take len))
    | 3 =>
      match tail with
      | [] => .error (.truncated "a compression pointer" 2 data.length)
      | second :: _ => .ok (.pointer ((ofBe16 first second).toNat % (POINTER_MASK + 1)))
    | 1 =>
      if first = 0x41 then .error (.unsupported "a binary label")
      else if first = 0x7f then .error (.unsupported "the reserved extended label type")
      else .error (.malformed "a label" "unknown extended label type")
    | _ => .error (.malformed "a label" "unknown label type")

def pointerOctets (target : UInt16) : Octets :=
  be16 (POINTER_TAG ||| target)

@[simp]
theorem length_pointerOctets (target : UInt16) : (pointerOctets target).length = 2 := rfl

variable {data bytes rest : Octets} {labels : List Octets} {off hops : Nat} {target : UInt16}
  {name : Name}

theorem toNat_pointer (h : target.toNat ≤ POINTER_MASK) :
    (POINTER_TAG ||| target).toNat = 49152 + target.toNat := by
  have hor := Nat.two_pow_add_eq_or_of_lt (show target.toNat < 2 ^ 14 by
    unfold POINTER_MASK at h; omega) 3
  rw [UInt16.toNat_or, show POINTER_TAG.toNat = 2 ^ 14 * 3 from rfl, ← hor]

theorem Label.tryFromBytes_root (rest : Octets) :
    Label.tryFromBytes (0 :: rest) = .ok .root := rfl

theorem Label.tryFromBytes_string {label : Octets} (h : ValidLabel label) (rest : Octets) :
    Label.tryFromBytes (labelOctets label ++ rest) = .ok (.string label) := by
  have hnat := toNat_lengthOctet h
  obtain ⟨hpos, hle⟩ := h
  unfold MAX_LABEL_LEN at hle
  have hkind : (UInt8.ofNat label.length).toNat / 64 = 0 := by omega
  have hlen : (UInt8.ofNat label.length).toNat % 64 = label.length := by omega
  simp only [labelOctets, List.cons_append, Label.tryFromBytes, hkind, hlen]
  rw [if_neg (by omega), if_neg (by rw [List.length_cons, List.length_append]; omega), List.take_left]

theorem Label.tryFromBytes_pointer (h : target.toNat ≤ POINTER_MASK) (rest : Octets) :
    Label.tryFromBytes (pointerOctets target ++ rest) = .ok (.pointer target.toNat) := by
  have hval := toNat_pointer h
  unfold POINTER_MASK at h
  have hkind : (UInt8.ofNat ((POINTER_TAG ||| target).toNat / 256)).toNat / 64 = 3 := by
    rw [hval, UInt8.toNat_ofNat']
    omega
  simp only [pointerOctets, be16, List.cons_append, Label.tryFromBytes, hkind, ofBe16_be16]
  rw [hval, POINTER_MASK, show (49152 + target.toNat) % (0x3fff + 1) = target.toNat by omega]

/-! ## A name up to its root octet or pointer -/

/-- A name as it sits in a message: the text labels, and the offset of the
compression pointer it ends in, if it does not end at the root. -/
structure DName where
  labels : List Octets
  pointer : Option Nat
deriving DecidableEq

def DName.compressed (name : DName) : Bool := name.pointer.isSome

theorem Label.ne_nil_of_tryFromBytes {label : Label} (h : Label.tryFromBytes data = .ok label) :
    data ≠ [] := by
  rintro rfl
  cases h

def DName.tryFromBytes (data : Octets) : Except WireError (DName × Octets) :=
  match _h : Label.tryFromBytes data with
  | .error e => .error e
  | .ok .root => .ok (⟨[], none⟩, data.drop 1)
  | .ok (.pointer offset) => .ok (⟨[], some offset⟩, data.drop 2)
  | .ok (.string octets) =>
    match DName.tryFromBytes (data.drop (octets.length + 1)) with
    | .error e => .error e
    | .ok (name, rest) => .ok (⟨octets :: name.labels, name.pointer⟩, rest)
termination_by data.length
decreasing_by
  have := List.length_pos_of_ne_nil (Label.ne_nil_of_tryFromBytes _h)
  rw [List.length_drop]
  omega

theorem DName.tryFromBytes_root (rest : Octets) :
    DName.tryFromBytes (0 :: rest) = .ok (⟨[], none⟩, rest) := by
  unfold DName.tryFromBytes
  split <;> rename_i h <;> rw [Label.tryFromBytes_root] at h <;> cases h
  rfl

theorem DName.tryFromBytes_pointer (h : target.toNat ≤ POINTER_MASK) (rest : Octets) :
    DName.tryFromBytes (pointerOctets target ++ rest) = .ok (⟨[], some target.toNat⟩, rest) := by
  unfold DName.tryFromBytes
  split <;> rename_i h' <;> rw [Label.tryFromBytes_pointer h] at h' <;> cases h'
  rfl

theorem DName.tryFromBytes_string {label : Octets} (h : ValidLabel label) (rest : Octets) :
    DName.tryFromBytes (labelOctets label ++ rest)
      = (DName.tryFromBytes rest).map fun (name, after) =>
          (⟨label :: name.labels, name.pointer⟩, after) := by
  conv_lhs => unfold DName.tryFromBytes
  split <;> rename_i h' <;> rw [Label.tryFromBytes_string h] at h' <;> cases h'
  rw [← length_labelOctets, List.drop_left]
  cases DName.tryFromBytes rest <;> rfl

theorem DName.tryFromBytes_labels (h : ∀ l ∈ labels, ValidLabel l) {after : Octets} {ending : DName}
    (hrest : DName.tryFromBytes rest = .ok (ending, after)) :
    DName.tryFromBytes (labelsOctets labels ++ rest)
      = .ok (⟨labels ++ ending.labels, ending.pointer⟩, after) := by
  induction labels with
  | nil => exact hrest
  | cons label labels ih =>
    rw [labelsOctets, List.append_assoc, tryFromBytes_string (h label (List.mem_cons_self ..)),
      ih fun l hl => h l (List.mem_cons_of_mem _ hl)]
    rfl

theorem DName.tryFromBytes_wireOf (h : ∀ l ∈ labels, ValidLabel l) (rest : Octets) :
    DName.tryFromBytes (wireOf labels ++ rest) = .ok (⟨labels, none⟩, rest) := by
  rw [wireOf, List.append_assoc]
  have hroot := DName.tryFromBytes_labels h (DName.tryFromBytes_root rest)
  rwa [List.append_nil] at hroot

theorem DName.tryFromBytes_chained (h : ∀ l ∈ labels, ValidLabel l)
    (htarget : target.toNat ≤ POINTER_MASK) (rest : Octets) :
    DName.tryFromBytes (labelsOctets labels ++ pointerOctets target ++ rest)
      = .ok (⟨labels, some target.toNat⟩, rest) := by
  rw [List.append_assoc]
  have hptr := DName.tryFromBytes_labels h (DName.tryFromBytes_pointer htarget rest)
  rwa [List.append_nil] at hptr

theorem Label.tryFromBytes_cases {label : Label} (h : Label.tryFromBytes data = .ok label) :
    (label = .root ∧ data = 0 :: data.drop 1) ∨
    (∃ offset ≤ POINTER_MASK, label = .pointer offset) ∨
    (∃ octets, label = .string octets ∧ ValidLabel octets ∧
      data = labelOctets octets ++ data.drop (octets.length + 1)) := by
  unfold Label.tryFromBytes at h
  split at h
  · cases h
  rename_i first tail
  simp only [] at h
  split at h
  · rename_i hkind
    split at h
    · rename_i hzero
      cases h
      have hfirst : first = 0 := UInt8.toNat_inj.mp (by simp; omega)
      exact .inl ⟨rfl, by rw [hfirst]; rfl⟩
    · rename_i hpos
      split at h
      · cases h
      · rename_i hlen
        cases h
        rw [List.length_cons] at hlen
        have htake : (tail.take (first.toNat % 64)).length = first.toNat % 64 := by
          rw [List.length_take]
          omega
        have hfirst : UInt8.ofNat (first.toNat % 64) = first := by grind [UInt8.toNat_inj, UInt8.toNat_ofNat']
        refine .inr (.inr ⟨_, rfl, ⟨by omega, by unfold MAX_LABEL_LEN; omega⟩, ?_⟩)
        rw [labelOctets, htake, hfirst, List.drop_succ_cons, List.cons_append,
          List.take_append_drop]
  · grind [POINTER_MASK]
  · split at h
    · cases h
    · split at h <;> cases h
  · cases h

/-- **What the label walk accepts is well formed**: every label it returns is one
to 63 octets, the data starts with exactly those labels, and the name ends at a
root octet or in a 14-bit pointer. -/
theorem DName.tryFromBytes_eq_ok {name : DName} (h : DName.tryFromBytes data = .ok (name, rest)) :
    (∀ l ∈ name.labels, ValidLabel l) ∧
      (name.pointer = none → data = wireOf name.labels ++ rest) ∧
      (∀ t, name.pointer = some t → t ≤ POINTER_MASK) := by
  induction hn : data.length using Nat.strong_induction_on generalizing data name with
  | _ n ih =>
    unfold DName.tryFromBytes at h
    split at h
    · cases h
    · rename_i hlabel
      cases h
      rcases Label.tryFromBytes_cases hlabel with ⟨-, hdata⟩ | ⟨_, -, hne⟩ | ⟨_, hne, -⟩
      · exact ⟨by simp, fun _ => hdata, by simp⟩
      · cases hne
      · cases hne
    · rename_i offset hlabel
      cases h
      rcases Label.tryFromBytes_cases hlabel with ⟨hne, -⟩ | ⟨t, ht, hptr⟩ | ⟨_, hne, -⟩
      · cases hne
      · cases hptr
        exact ⟨by simp, by simp, fun _ heq => by cases heq; exact ht⟩
      · cases hne
    · rename_i octets hlabel
      rcases Label.tryFromBytes_cases hlabel with ⟨hne, -⟩ | ⟨_, -, hne⟩ | ⟨s, hs, hvalid, hdata⟩
      · cases hne
      · cases hne
      cases hs
      split at h
      · cases h
      · rename_i inner after hrec
        cases h
        have hshort : (data.drop (octets.length + 1)).length < n := by
          have := List.length_pos_of_ne_nil (Label.ne_nil_of_tryFromBytes hlabel)
          rw [List.length_drop]
          omega
        obtain ⟨hall, hroot, hptr⟩ := ih _ hshort hrec rfl
        refine ⟨List.forall_mem_cons.mpr ⟨hvalid, hall⟩, fun hnone => ?_, hptr⟩
        rw [wireOf_cons, List.append_assoc, ← hroot hnone]
        exact hdata

/-! ## Following pointers -/

/-- `UnpackedDName::new`: the only way to build one, so every hop of a pointer
chain is held to the limit. -/
def unpackedNew (labels : List Octets) : Except WireError (List Octets) :=
  if encodedLen labels > MAX_NAME_LEN then
    .error (.tooLong "a domain name" MAX_NAME_LEN (encodedLen labels))
  else .ok labels

def unpackInternal (data : Octets) (name : DName) (depth prevTarget : Nat) :
    Except WireError (List Octets) :=
  if depth > MAX_DEPTH then
    .error (.tooLong "compression pointer nesting" MAX_DEPTH (MAX_DEPTH + 1))
  else match name.pointer with
    | none => unpackedNew name.labels
    | some offset =>
      let len := data.length
      if offset ≥ data.length then
        .error (.malformed "a compression pointer"
          s!"offset {offset} is past the {len}-byte message")
      else if offset ≥ prevTarget then
        .error (.malformed "a compression pointer"
          s!"offset {offset} does not precede the previous target {prevTarget}")
      else match DName.tryFromBytes (data.drop offset) with
        | .error e => .error e
        | .ok (next, _) =>
          match unpackInternal data next (depth + 1) offset with
          | .error e => .error e
          | .ok unpacked => unpackedNew (name.labels ++ unpacked)
termination_by MAX_DEPTH + 1 - depth

def decodeWire (data : Octets) (name : DName) : Except WireError Name :=
  if name.compressed then do
    let labels ← unpackInternal data name 0 USIZE_MAX
    Name.ofLabels labels
  else do
    checkNameLen (encodedLen name.labels)
    Name.ofLabels name.labels

namespace Name

/-- Read an uncompressed name from the front of `bytes`, with what follows: a
pointer here is malformed rather than something to follow. -/
def fromWire (bytes : Octets) : Except WireError (Name × Octets) :=
  match DName.tryFromBytes bytes with
  | .error e => .error e
  | .ok (name, rest) =>
    if name.compressed then
      .error (.malformed "a domain name" "a compression pointer needs the message it points into")
    else do
      checkNameLen (encodedLen name.labels)
      let name ← Name.ofLabels name.labels
      return (name, rest)

def fromWireIn (data bytes : Octets) : Except WireError (Name × Octets) :=
  match DName.tryFromBytes bytes with
  | .error e => .error e
  | .ok (name, rest) => do
    let name ← decodeWire data name
    return (name, rest)

end Name

theorem checkNameLen_ok {encoded : Nat} (h : encoded ≤ MAX_NAME_LEN) :
    checkNameLen encoded = .ok () :=
  if_neg (by omega)

theorem unpackedNew_ok (h : encodedLen labels ≤ MAX_NAME_LEN) : unpackedNew labels = .ok labels :=
  if_neg (by omega)

@[simp]
theorem Name.fromWire_wire (name : Name) (rest : Octets) :
    Name.fromWire (name.wire ++ rest) = .ok (name, rest) := by
  rw [Name.fromWire, Name.wire, DName.tryFromBytes_wireOf name.labels_ok]
  simp only [DName.compressed, Option.isSome_none, Bool.false_eq_true, if_false,
    checkNameLen_ok name.length_ok, Name.ofLabels_labels]
  rfl

@[simp]
theorem Name.fromWireIn_wire (data : Octets) (name : Name) (rest : Octets) :
    Name.fromWireIn data (name.wire ++ rest) = .ok (name, rest) := by
  rw [Name.fromWireIn, Name.wire, DName.tryFromBytes_wireOf name.labels_ok]
  simp only [decodeWire, DName.compressed, Option.isSome_none, Bool.false_eq_true, if_false,
    checkNameLen_ok name.length_ok, Name.ofLabels_labels]
  rfl

theorem Name.fromWire_eq_ok (h : Name.fromWire bytes = .ok (name, rest)) :
    bytes = name.wire ++ rest := by
  unfold Name.fromWire at h
  split at h
  · cases h
  · rename_i dname after hread
    split at h
    · cases h
    · rename_i hplain
      have hnone : dname.pointer = none := by
        rw [DName.compressed] at hplain
        exact Option.not_isSome_iff_eq_none.mp hplain
      have hbytes := (DName.tryFromBytes_eq_ok hread).2.1 hnone
      cases hlen : checkNameLen (encodedLen dname.labels) with
      | error e => rw [hlen] at h; cases h
      | ok _ =>
        cases hname : Name.ofLabels dname.labels with
        | error e => rw [hlen, hname] at h; cases h
        | ok name' =>
          rw [hlen, hname] at h
          cases h
          rw [Name.wire, Name.ofLabels_ok_iff.mp hname]
          exact hbytes

/-! ## What the octets at an offset spell -/

/-- The octets `bytes` at `off` of `data` spell `labels`, through `hops`
compression pointers, each to a place strictly before the run it ends. -/
inductive Resolves (data : Octets) : Nat → Octets → List Octets → Nat → Prop where
  | plain {off : Nat} {labels : List Octets}
      (placed : PlacedAt data off (wireOf labels))
      (valid : ∀ l ∈ labels, ValidLabel l) :
      Resolves data off (wireOf labels) labels 0
  | chained {off : Nat} {own labels : List Octets} {target : UInt16} {bytes : Octets} {hops : Nat}
      (placed : PlacedAt data off (labelsOctets own ++ pointerOctets target))
      (valid : ∀ l ∈ own, ValidLabel l)
      (backwards : target.toNat < off)
      (reachable : target.toNat ≤ POINTER_MASK)
      (rest : Resolves data target.toNat bytes labels hops) :
      Resolves data off (labelsOctets own ++ pointerOctets target) (own ++ labels) (hops + 1)

theorem Resolves.placed {data bytes : Octets} {off hops : Nat} {labels : List Octets}
    (h : Resolves data off bytes labels hops) : PlacedAt data off bytes := by
  cases h with
  | plain placed _ => exact placed
  | chained placed _ _ _ _ => exact placed

theorem Resolves.valid {data bytes : Octets} {off hops : Nat} {labels : List Octets}
    (h : Resolves data off bytes labels hops) : ∀ l ∈ labels, ValidLabel l := by
  induction h with
  | plain _ valid => exact valid
  | chained _ valid _ _ _ ih =>
    intro l hl
    rcases List.mem_append.mp hl with hl | hl
    · exact valid l hl
    · exact ih l hl

section

variable (h : Resolves data off bytes labels hops)
include h

theorem Resolves.length_pos : 0 < bytes.length := by
  cases h with
  | plain _ _ => rw [length_wireOf, encodedLen]; omega
  | chained _ _ _ _ _ => rw [List.length_append, length_pointerOctets]; omega

theorem Resolves.off_lt : off < data.length := by
  have hpos := h.length_pos
  obtain ⟨tail, htail⟩ := h.placed
  have hlen := congrArg List.length htail
  rw [List.length_drop, List.length_append] at hlen
  omega

theorem Resolves.tryFromBytes :
    ∃ name, (∀ tail, DName.tryFromBytes (bytes ++ tail) = .ok (name, tail)) ∧
      (∀ t, name.pointer = some t → t < off ∧ t ≤ POINTER_MASK) ∧
      (name.pointer = none → hops = 0 ∧ name.labels = labels) := by
  cases h with
  | plain placed valid =>
    exact ⟨⟨labels, none⟩, DName.tryFromBytes_wireOf valid, by simp, by simp⟩
  | chained placed valid backwards reachable rest =>
    rename_i own labels target inner hops
    refine ⟨⟨own, some target.toNat⟩, DName.tryFromBytes_chained valid reachable, ?_, by simp⟩
    rintro t ⟨rfl⟩
    exact ⟨backwards, reachable⟩

theorem Resolves.unpackInternal (hlen : encodedLen labels ≤ MAX_NAME_LEN) {name : DName}
    {after : Octets} (hname : DName.tryFromBytes (bytes ++ after) = .ok (name, after))
    (depth prevTarget : Nat) (hprev : ∀ t, name.pointer = some t → t < prevTarget) :
    (depth + hops ≤ MAX_DEPTH → unpackInternal data name depth prevTarget = .ok labels) ∧
    (MAX_DEPTH < depth + hops →
      ∃ e, Core.unpackInternal data name depth prevTarget = .error e) := by
  induction h generalizing name after depth prevTarget with
  | plain placed valid =>
    rw [DName.tryFromBytes_wireOf valid] at hname
    cases hname
    unfold Core.unpackInternal
    refine ⟨fun hok => ?_, fun hdeep => ?_⟩
    · rw [if_neg (by omega)]
      exact unpackedNew_ok hlen
    · rw [if_pos (by omega)]
      exact ⟨_, rfl⟩
  | chained placed valid backwards reachable rest ih =>
    rename_i off own labels target inner hops
    rw [DName.tryFromBytes_chained valid reachable] at hname
    cases hname
    rw [encodedLen_append] at hlen
    obtain ⟨next, hnext, hback, -⟩ := rest.tryFromBytes
    have htarget : target.toNat < data.length := rest.off_lt
    have hprev' := hprev target.toNat rfl
    have hrec := ih (by omega) (hnext []) (depth + 1) target.toNat fun t ht => (hback t ht).1
    unfold Core.unpackInternal
    by_cases hdepth : depth > MAX_DEPTH
    · rw [if_pos hdepth]
      exact ⟨fun hok => by omega, fun _ => ⟨_, rfl⟩⟩
    · rw [if_neg hdepth]
      simp only
      rw [if_neg (by omega), if_neg (by omega), rest.placed.drop, hnext]
      simp only
      refine ⟨fun hok => ?_, fun hdeep => ?_⟩
      · rw [hrec.1 (by omega)]
        exact unpackedNew_ok (by rw [encodedLen_append]; omega)
      · obtain ⟨e, he⟩ := hrec.2 (by omega)
        rw [he]
        exact ⟨e, rfl⟩

end

/-- **A resolving name of legal length is read exactly when it takes at most
`MAX_DEPTH` hops**; the walk itself always gets past it. -/
theorem Resolves.read (h : Resolves data off bytes name.labels hops) :
    ∃ dname, (∀ tail, DName.tryFromBytes (bytes ++ tail) = .ok (dname, tail)) ∧
      (hops ≤ MAX_DEPTH → decodeWire data dname = .ok name) ∧
      (MAX_DEPTH < hops → ∃ e, decodeWire data dname = .error e) := by
  obtain ⟨dname, hread, hptr, hplain⟩ := h.tryFromBytes
  refine ⟨dname, hread, ?_⟩
  unfold decodeWire
  cases hp : dname.pointer with
  | none =>
    obtain ⟨rfl, hlabels⟩ := hplain hp
    simp only [DName.compressed, hp, Option.isSome_none, Bool.false_eq_true, if_false, hlabels,
      checkNameLen_ok name.length_ok, Name.ofLabels_labels]
    exact ⟨fun _ => rfl, fun hdeep => absurd hdeep (Nat.not_lt_zero _)⟩
  | some target =>
    have hunpack := h.unpackInternal name.length_ok (hread []) 0 USIZE_MAX fun t ht => by
      have := (hptr t ht).2
      unfold POINTER_MASK at this
      unfold USIZE_MAX
      omega
    simp only [DName.compressed, hp, Option.isSome_some, if_true]
    refine ⟨fun hle => ?_, fun hdeep => ?_⟩
    · rw [hunpack.1 (by omega)]
      exact Name.ofLabels_labels name
    · obtain ⟨e, he⟩ := hunpack.2 (by omega)
      exact ⟨e, by rw [he]; rfl⟩

theorem Name.fromWireIn_resolves (h : Resolves data off bytes name.labels hops)
    (hops_le : hops ≤ MAX_DEPTH) (tail : Octets) :
    Name.fromWireIn data (bytes ++ tail) = .ok (name, tail) := by
  obtain ⟨dname, hread, hgood, -⟩ := h.read
  rw [Name.fromWireIn, hread]
  simp only [hgood hops_le]
  rfl

theorem Name.fromWireIn_tooDeep (h : Resolves data off bytes name.labels hops)
    (hops_gt : MAX_DEPTH < hops) (tail : Octets) :
    ∃ e, Name.fromWireIn data (bytes ++ tail) = .error e := by
  obtain ⟨dname, hread, -, hbad⟩ := h.read
  obtain ⟨e, he⟩ := hbad hops_gt
  refine ⟨e, ?_⟩
  rw [Name.fromWireIn, hread]
  simp only [he]
  rfl

end Rdns.Core
