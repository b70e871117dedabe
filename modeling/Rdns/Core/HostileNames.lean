import Rdns.Core.DName

/-!
# Rdns — Reading names off hostile octets

The name reader of `rdns-core/src/dname.rs` once more, at the level of its slices: each
index, each range and each `split_at` may be out of bounds, and then the program stops.
The labels are re-walked by an iterator of their own, and the name comes out as octets.

`Outcome` makes the stop a value, so that never stopping is a theorem.
-/

namespace Rdns.Core

open Rdns.Lib

/-! ## Slices -/

abbrev Outcome (α : Type) := Option (Except WireError α)

def sliceFrom (data : Octets) (start : Nat) : Option Octets :=
  if start ≤ data.length then some (data.drop start) else none

def sliceOf (data : Octets) (start stop : Nat) : Option Octets :=
  if start ≤ stop ∧ stop ≤ data.length then some ((data.take stop).drop start) else none

def splitAt (data : Octets) (mid : Nat) : Option (Octets × Octets) :=
  if mid ≤ data.length then some (data.take mid, data.drop mid) else none

variable {data encoded rest : Octets} {name : DName} {labels : List Octets}

theorem sliceFrom_eq_some {start : Nat} (h : sliceFrom data start = some rest) :
    start ≤ data.length ∧ rest = data.drop start := by
  unfold sliceFrom at h
  split at h
  · rename_i hle
    exact ⟨hle, (Option.some.inj h).symm⟩
  · cases h

theorem sliceFrom_append (front rest : Octets) : sliceFrom (front ++ rest) front.length = some rest := by
  rw [sliceFrom, if_pos (by rw [List.length_append]; omega), List.drop_left]

theorem splitAt_append (front rest : Octets) : splitAt (front ++ rest) front.length = some (front, rest) := by
  rw [splitAt, if_pos (by rw [List.length_append]; omega), List.take_left, List.drop_left]

/-! ## The reader -/

def Label.len : Label → Nat
  | .string s => s.length + 1
  | .pointer _ => 2
  | .root => 1

def labelFromBytes (data : Octets) : Outcome Label :=
  match data.head? with
  | none => some (.error (.truncated "a label" 1 0))
  | some first =>
    let len := (first &&& 0x3f).toNat
    match first >>> 6 with
    | 0 =>
      if len = 0 then some (.ok .root)
      else if data.length ≤ len then some (.error (.truncated "a label" len (data.length - 1)))
      else (sliceOf data 1 (len + 1)).map fun s => .ok (.string s)
    | 3 =>
      if data.length < 2 then some (.error (.truncated "a compression pointer" 2 data.length))
      else data[0]?.bind fun hi => data[1]?.map fun lo =>
        .ok (.pointer (ofBe16 hi lo &&& 0x3fff).toNat)
    | 1 => data[0]?.map fun kind =>
      if kind = 0x41 then .error (.unsupported "a binary label")
      else if kind = 0x7f then .error (.unsupported "the reserved extended label type")
      else .error (.malformed "a label" "unknown extended label type")
    | _ => some (.error (.malformed "a label" "unknown label type"))

/-- `DName`: the octets of exactly the name, and whether it ends in a pointer. -/
structure LocatedName where
  encoded : Octets
  compressed : Bool
deriving DecidableEq

/-- The loop of `DName::try_from_bytes`: how long the name is, and whether it ends in a pointer. -/
def measure (data : Octets) (len : Nat) : Outcome (Nat × Bool) :=
  match _h : sliceFrom data len with
  | none => none
  | some here =>
    match labelFromBytes here with
    | none => none
    | some (.error e) => some (.error e)
    | some (.ok .root) => some (.ok (len + Label.root.len, false))
    | some (.ok (.pointer offset)) => some (.ok (len + (Label.pointer offset).len, true))
    | some (.ok (.string s)) => measure data (len + (Label.string s).len)
termination_by data.length + 1 - len
decreasing_by
  have := (sliceFrom_eq_some _h).1
  rw [Label.len]
  omega

def locate (data : Octets) : Outcome (LocatedName × Octets) :=
  match measure data 0 with
  | none => none
  | some (.error e) => some (.error e)
  | some (.ok (len, compressed)) =>
    (splitAt data len).map fun parts => .ok (⟨parts.1, compressed⟩, parts.2)

def collectLabels (rest : Octets) : Outcome (List Label) :=
  if _hne : rest = [] then some (.ok [])
  else match labelFromBytes rest with
    | none => none
    | some (.error e) => some (.error e)
    | some (.ok label) =>
      match _h : sliceFrom rest label.len with
      | none => none
      | some after =>
        match collectLabels after with
        | none => none
        | some (.error e) => some (.error e)
        | some (.ok labels) => some (.ok (label :: labels))
termination_by rest.length
decreasing_by
  have hafter := (sliceFrom_eq_some _h).2
  have hpos := List.length_pos_of_ne_nil _hne
  have hlabel : 0 < label.len := by cases label <;> simp only [Label.len] <;> omega
  rw [hafter, List.length_drop]
  omega

def unpackedLabels (labels : List Label) : Except WireError (List Label) := do
  checkNameLen ((labels.map Label.len).sum + 1)
  return labels

def chaseLabels (follow : Nat → Outcome (List Label)) (rest : Octets) (output : List Label) :
    Outcome (List Label) :=
  if _hne : rest = [] then some (.ok output)
  else match labelFromBytes rest with
    | none => none
    | some (.error e) => some (.error e)
    | some (.ok label) =>
      match _h : sliceFrom rest label.len with
      | none => none
      | some after =>
        match label with
        | .string s => chaseLabels follow after (output ++ [.string s])
        | .pointer offset =>
          match follow offset with
          | none => none
          | some (.error e) => some (.error e)
          | some (.ok more) => chaseLabels follow after (output ++ more)
        | .root => some (.ok output)
termination_by rest.length
decreasing_by
  all_goals
    have hafter := (sliceFrom_eq_some _h).2
    have hpos := List.length_pos_of_ne_nil _hne
    rw [hafter, List.length_drop, Label.len]
    omega

def dropRoot (labels : List Label) : List Label :=
  if labels.getLast? = some .root then labels.dropLast else labels

def followName (data : Octets) (name : LocatedName) (depth prevTarget : Nat) : Outcome (List Label) :=
  if _h : depth > MAX_DEPTH then
    some (.error (.tooLong "compression pointer nesting" MAX_DEPTH (MAX_DEPTH + 1)))
  else if name.compressed = false then
    match collectLabels name.encoded with
    | none => none
    | some (.error e) => some (.error e)
    | some (.ok labels) => some (unpackedLabels (dropRoot labels))
  else
    let follow (offset : Nat) : Outcome (List Label) :=
      let len := data.length
      if offset ≥ data.length then
        some (.error (.malformed "a compression pointer"
          s!"offset {offset} is past the {len}-byte message"))
      else if offset ≥ prevTarget then
        some (.error (.malformed "a compression pointer"
          s!"offset {offset} does not precede the previous target {prevTarget}"))
      else match sliceFrom data offset with
        | none => none
        | some there =>
          match locate there with
          | none => none
          | some (.error e) => some (.error e)
          | some (.ok (next, _)) => followName data next (depth + 1) offset
    match chaseLabels follow name.encoded [] with
    | none => none
    | some (.error e) => some (.error e)
    | some (.ok output) => some (unpackedLabels output)
termination_by MAX_DEPTH + 1 - depth

def labelsToWire : List Label → Except WireError Octets
  | [] => .ok [0]
  | .string s :: rest => do
    let out ← labelsToWire rest
    return UInt8.ofNat s.length :: s ++ out
  | .root :: _ => .ok [0]
  | .pointer _ :: _ =>
    .error (.malformed "a domain name" "an unpacked name may not contain a compression pointer")

def LocatedName.toWire (name : LocatedName) : Outcome Octets :=
  if name.compressed then none
  else some do
    checkNameLen name.encoded.length
    return name.encoded

def LocatedName.decodeWire (data : Octets) (name : LocatedName) : Outcome Octets :=
  if name.compressed then
    (followName data name 0 USIZE_MAX).map fun unpacked => do labelsToWire (← unpacked)
  else name.toWire

def nameWireFromBytes (bytes : Octets) : Outcome (Octets × Octets) :=
  match locate bytes with
  | none => none
  | some (.error e) => some (.error e)
  | some (.ok (name, rest)) =>
    if name.compressed then
      some (.error (.malformed "a domain name" "a compression pointer needs the message it points into"))
    else name.toWire.map fun wire => do return (← wire, rest)

def nameWireFromBytesIn (data bytes : Octets) : Outcome (Octets × Octets) :=
  match locate bytes with
  | none => none
  | some (.error e) => some (.error e)
  | some (.ok (name, rest)) => (name.decodeWire data).map fun wire => do return (← wire, rest)

/-! ## One label -/

theorem toNat_lowBits (first : UInt8) : (first &&& 0x3f).toNat = first.toNat % 64 := by
  rw [UInt8.toNat_and]
  exact Nat.and_two_pow_sub_one_eq_mod first.toNat 6

theorem toNat_highBits (first : UInt8) : (first >>> 6).toNat = first.toNat / 64 := by
  rw [UInt8.toNat_shiftRight]
  exact Nat.shiftRight_eq_div_pow first.toNat 6

theorem toNat_offset (word : UInt16) : (word &&& 0x3fff).toNat = word.toNat % (POINTER_MASK + 1) := by
  rw [UInt16.toNat_and]
  exact Nat.and_two_pow_sub_one_eq_mod word.toNat 14

theorem labelFromBytes_eq (data : Octets) : labelFromBytes data = some (Label.tryFromBytes data) := by
  cases data with
  | nil => rfl
  | cons first tail =>
    have hhigh := toNat_highBits first
    have hbyte := first.toNat_lt
    have hkind : first.toNat / 64 = 0 ∨ first.toNat / 64 = 1 ∨ first.toNat / 64 = 2 ∨ first.toNat / 64 = 3 := by
      omega
    have hcode : ∀ kind : UInt8, first.toNat / 64 = kind.toNat → first >>> 6 = kind :=
      fun kind heq => UInt8.toNat_inj.mp (hhigh.trans heq)
    rcases hkind with h | h | h | h
    · simp only [labelFromBytes, List.head?_cons, hcode 0 h, Label.tryFromBytes, h, toNat_lowBits]
      split
      · rfl
      · grind [sliceOf]
    · simp only [labelFromBytes, List.head?_cons, hcode 1 h, Label.tryFromBytes, h]
      exact congrArg some rfl
    · simp only [labelFromBytes, List.head?_cons, hcode 2 h, Label.tryFromBytes, h]
      rfl
    · simp only [labelFromBytes, List.head?_cons, hcode 3 h, Label.tryFromBytes, h]
      cases tail with
      | nil => rfl
      | cons second rest =>
        rw [if_neg (by simp only [List.length_cons]; omega)]
        exact congrArg (fun offset => some (Except.ok (Label.pointer offset))) (toNat_offset (ofBe16 first second))

theorem pointer_of_tryFromBytes {offset : Nat} (h : Label.tryFromBytes data = .ok (.pointer offset)) :
    ∃ target : UInt16, target.toNat = offset ∧ target.toNat ≤ POINTER_MASK ∧
      data = pointerOctets target ++ data.drop 2 := by
  unfold Label.tryFromBytes at h
  split at h
  · cases h
  rename_i first tail
  simp only [] at h
  split at h
  · split at h
    · cases h
    · split at h <;> cases h
  · rename_i hkind
    split at h
    · cases h
    · rename_i second rest
      cases h
      have hword := toNat_ofBe16 first second
      have hsecond := second.toNat_lt
      have htarget : (UInt16.ofNat ((ofBe16 first second).toNat % (POINTER_MASK + 1))).toNat =
          (ofBe16 first second).toNat % (POINTER_MASK + 1) := by
        rw [UInt16.toNat_ofNat', POINTER_MASK]
        omega
      have hle : (UInt16.ofNat ((ofBe16 first second).toNat % (POINTER_MASK + 1))).toNat ≤ POINTER_MASK := by
        rw [htarget, POINTER_MASK]
        omega
      -- the tag is the two bits the offset leaves out
      have hback : POINTER_TAG ||| UInt16.ofNat ((ofBe16 first second).toNat % (POINTER_MASK + 1)) =
          ofBe16 first second := by
        apply UInt16.toNat_inj.mp
        have hfirst := first.toNat_lt
        rw [toNat_pointer hle, htarget, POINTER_MASK]
        omega
      refine ⟨_, htarget, hle, ?_⟩
      rw [pointerOctets, hback, be16_ofBe16]
      rfl
  · split at h
    · cases h
    · split at h <;> cases h
  · cases h

/-! ## Locating a name -/

def Spells (encoded : Octets) (name : DName) : Prop :=
  (∀ l ∈ name.labels, ValidLabel l) ∧
    ((name.pointer = none ∧ encoded = wireOf name.labels) ∨
      ∃ target : UInt16, target.toNat ≤ POINTER_MASK ∧ name.pointer = some target.toNat ∧
        encoded = labelsOctets name.labels ++ pointerOctets target)

theorem Spells.cons {label : Octets} (h : Spells encoded name) (hvalid : ValidLabel label) :
    Spells (labelOctets label ++ encoded) ⟨label :: name.labels, name.pointer⟩ := by
  obtain ⟨hlabels, hend⟩ := h
  refine ⟨List.forall_mem_cons.mpr ⟨hvalid, hlabels⟩, ?_⟩
  rcases hend with ⟨hnone, rfl⟩ | ⟨target, hle, hsome, rfl⟩
  · exact .inl ⟨hnone, (wireOf_cons label name.labels).symm⟩
  · exact .inr ⟨target, hle, hsome, (List.append_assoc ..).symm⟩

def measured (data : Octets) (len : Nat) : Except WireError Label → Outcome (Nat × Bool)
  | .error e => some (.error e)
  | .ok .root => some (.ok (len + 1, false))
  | .ok (.pointer _) => some (.ok (len + 2, true))
  | .ok (.string s) => measure data (len + (s.length + 1))

theorem measure_append (front data : Octets) :
    measure (front ++ data) front.length =
      measured (front ++ data) front.length (Label.tryFromBytes data) := by
  have hslice := sliceFrom_append front data
  rw [measure]
  split
  · rename_i h
    rw [hslice] at h
    cases h
  · rename_i here h
    rw [hslice] at h
    cases h
    rw [labelFromBytes_eq]
    cases Label.tryFromBytes data with
    | error e => rfl
    | ok label => cases label <;> rfl

theorem tryFromBytes_of_label_error {e : WireError} (h : Label.tryFromBytes data = .error e) :
    DName.tryFromBytes data = .error e := by
  unfold DName.tryFromBytes
  split <;> rename_i h' <;> rw [h] at h' <;> cases h'
  rfl

theorem measure_eq (front data : Octets) :
    (∀ e, DName.tryFromBytes data = .error e → measure (front ++ data) front.length = some (.error e)) ∧
    ∀ name rest, DName.tryFromBytes data = .ok (name, rest) →
      ∃ encoded, Spells encoded name ∧ data = encoded ++ rest ∧
        measure (front ++ data) front.length = some (.ok (front.length + encoded.length, name.compressed)) := by
  induction hn : data.length using Nat.strongRecOn generalizing front data with
  | ind n ih =>
    subst hn
    rw [measure_append]
    cases hlabel : Label.tryFromBytes data with
    | error e =>
      rw [tryFromBytes_of_label_error hlabel]
      exact ⟨fun _ heq => congrArg some (congrArg Except.error (Except.error.inj heq)),
        fun _ _ heq => by cases heq⟩
    | ok label =>
      cases label with
      | root =>
        rcases Label.tryFromBytes_cases hlabel with ⟨-, hdata⟩ | ⟨_, -, hne⟩ | ⟨_, hne, -⟩
        · rw [hdata, DName.tryFromBytes_root]
          refine ⟨fun _ heq => (by cases heq), fun name rest heq => ?_⟩
          cases heq
          exact ⟨[0], ⟨by simp, .inl ⟨rfl, rfl⟩⟩, rfl, rfl⟩
        · cases hne
        · cases hne
      | pointer offset =>
        obtain ⟨target, rfl, hle, hdata⟩ := pointer_of_tryFromBytes hlabel
        have hread := DName.tryFromBytes_pointer hle (data.drop 2)
        rw [← hdata] at hread
        rw [hread]
        refine ⟨fun _ heq => (by cases heq), fun name rest heq => ?_⟩
        cases heq
        exact ⟨pointerOctets target, ⟨by simp, .inr ⟨target, hle, rfl, rfl⟩⟩, hdata, rfl⟩
      | string s =>
        rcases Label.tryFromBytes_cases hlabel with ⟨hne, -⟩ | ⟨_, -, hne⟩ | ⟨s', hs, hvalid, hdata⟩
        · cases hne
        · cases hne
        cases hs
        have hpos := List.length_pos_of_ne_nil (Label.ne_nil_of_tryFromBytes hlabel)
        have hshort : (data.drop (s.length + 1)).length < data.length := by
          rw [List.length_drop]
          omega
        obtain ⟨herror, hok⟩ := ih _ hshort (front ++ labelOctets s) (data.drop (s.length + 1)) rfl
        have hread := DName.tryFromBytes_string hvalid (data.drop (s.length + 1))
        rw [← hdata] at hread
        rw [List.append_assoc, ← hdata, List.length_append, length_labelOctets] at herror hok
        show (∀ e, _ → measure (front ++ data) (front.length + (s.length + 1)) = _) ∧
          ∀ name rest, _ → ∃ encoded, _ ∧ _ ∧ measure (front ++ data) (front.length + (s.length + 1)) = _
        cases hrest : DName.tryFromBytes (data.drop (s.length + 1)) with
        | error e =>
          rw [hread, hrest]
          exact ⟨fun _ heq => (by cases heq; exact herror e hrest), fun _ _ heq => by cases heq⟩
        | ok found =>
          obtain ⟨inner, after⟩ := found
          rw [hread, hrest]
          refine ⟨fun _ heq => (by cases heq), fun name rest heq => ?_⟩
          cases heq
          obtain ⟨encoded, hspells, hsplit, hmeasure⟩ := hok inner after hrest
          refine ⟨labelOctets s ++ encoded, hspells.cons hvalid, ?_, ?_⟩
          · rw [List.append_assoc, ← hsplit]
            exact hdata
          · rw [hmeasure, List.length_append, length_labelOctets, Nat.add_assoc]
            rfl

theorem locate_eq (data : Octets) :
    (∀ e, DName.tryFromBytes data = .error e → locate data = some (.error e)) ∧
    ∀ name rest, DName.tryFromBytes data = .ok (name, rest) →
      ∃ encoded, Spells encoded name ∧ data = encoded ++ rest ∧
        locate data = some (.ok (⟨encoded, name.compressed⟩, rest)) := by
  obtain ⟨herror, hok⟩ := measure_eq [] data
  constructor
  · intro e h
    rw [locate, show measure data 0 = _ from herror e h]
  · intro name rest h
    obtain ⟨encoded, hspells, hdata, hmeasure⟩ := hok name rest h
    refine ⟨encoded, hspells, hdata, ?_⟩
    rw [locate, show measure data 0 = _ from hmeasure]
    simp only [List.length_nil, Nat.zero_add, hdata, splitAt_append, Option.map_some]

/-! ## The labels again -/

theorem collectLabels_step {front : Octets} {label : Label} {labels : List Label}
    (hlabel : Label.tryFromBytes (front ++ rest) = .ok label) (hlen : label.len = front.length)
    (hrest : collectLabels rest = some (.ok labels)) :
    collectLabels (front ++ rest) = some (.ok (label :: labels)) := by
  have hslice := sliceFrom_append front rest
  rw [collectLabels, dif_neg (Label.ne_nil_of_tryFromBytes hlabel), labelFromBytes_eq, hlabel]
  dsimp only
  split
  · rename_i h
    rw [hlen, hslice] at h
    cases h
  · grind

theorem collectLabels_wireOf (h : ∀ l ∈ labels, ValidLabel l) :
    collectLabels (wireOf labels) = some (.ok (labels.map Label.string ++ [.root])) := by
  induction labels with
  | nil =>
    have hnil : collectLabels [] = some (.ok []) := by rw [collectLabels, dif_pos rfl]
    show collectLabels ([0] ++ []) = _
    exact collectLabels_step (Label.tryFromBytes_root []) rfl hnil
  | cons label labels ih =>
    obtain ⟨hvalid, hlabels⟩ := List.forall_mem_cons.mp h
    rw [wireOf_cons]
    exact collectLabels_step (Label.tryFromBytes_string hvalid _) (length_labelOctets label).symm (ih hlabels)

section Chase

variable {follow : Nat → Outcome (List Label)} {output : List Label}

theorem chaseLabels_string {label : Octets} (hvalid : ValidLabel label) (rest : Octets) :
    chaseLabels follow (labelOctets label ++ rest) output =
      chaseLabels follow rest (output ++ [.string label]) := by
  have hslice := sliceFrom_append (labelOctets label) rest
  have hlabel := Label.tryFromBytes_string hvalid rest
  conv_lhs => rw [chaseLabels, dif_neg (Label.ne_nil_of_tryFromBytes hlabel), labelFromBytes_eq, hlabel]
  dsimp only
  split
  · grind [Label.len, length_labelOctets]
  · grind [Label.len, length_labelOctets]

theorem chaseLabels_labels (h : ∀ l ∈ labels, ValidLabel l) (rest : Octets) :
    chaseLabels follow (labelsOctets labels ++ rest) output =
      chaseLabels follow rest (output ++ labels.map Label.string) := by
  induction labels generalizing output with
  | nil => rw [List.map_nil, List.append_nil]; rfl
  | cons label labels ih =>
    obtain ⟨hvalid, hlabels⟩ := List.forall_mem_cons.mp h
    rw [labelsOctets, List.append_assoc, chaseLabels_string hvalid, ih hlabels, List.append_assoc]
    rfl

theorem chaseLabels_pointer {target : UInt16} (hle : target.toNat ≤ POINTER_MASK)
    {result : Except WireError (List Label)} (hfollow : follow target.toNat = some result) :
    chaseLabels follow (pointerOctets target) output = some (result.map fun more => output ++ more) := by
  have hslice := sliceFrom_append (pointerOctets target) []
  have hlabel := Label.tryFromBytes_pointer hle []
  rw [List.append_nil] at hslice hlabel
  rw [chaseLabels, dif_neg (Label.ne_nil_of_tryFromBytes hlabel), labelFromBytes_eq, hlabel]
  dsimp only
  split
  · grind [Label.len, length_pointerOctets]
  · rename_i after h
    rw [Label.len, ← length_pointerOctets target, hslice] at h
    cases h
    rw [hfollow]
    cases result with
    | error e => rfl
    | ok more =>
      dsimp only
      rw [chaseLabels, dif_pos rfl]
      rfl

end Chase

theorem sum_len_string (labels : List Octets) :
    ((labels.map Label.string).map Label.len).sum + 1 = encodedLen labels := by
  induction labels with
  | nil => rfl
  | cons label labels ih =>
    rw [List.map_cons, List.map_cons, List.sum_cons, Nat.add_assoc, ih, encodedLen_cons, Label.len]

theorem unpackedLabels_string (labels : List Octets) :
    unpackedLabels (labels.map Label.string) = (unpackedNew labels).map fun ls => ls.map Label.string := by
  rw [unpackedLabels, sum_len_string, checkNameLen, unpackedNew]
  split <;> rfl

theorem dropRoot_root (labels : List Label) : dropRoot (labels ++ [.root]) = labels := by
  rw [dropRoot, List.getLast?_concat, if_pos rfl, List.dropLast_concat]

theorem labelsToWire_string (labels : List Octets) :
    labelsToWire (labels.map Label.string) = .ok (wireOf labels) := by
  induction labels with
  | nil => rfl
  | cons label labels ih =>
    rw [List.map_cons, labelsToWire, ih, wireOf_cons]
    rfl

/-- **Following pointers stays inside the message**, and comes to what the label model comes to. -/
theorem followName_eq (hspells : Spells encoded name) (depth prevTarget : Nat) :
    followName data ⟨encoded, name.compressed⟩ depth prevTarget =
      some ((unpackInternal data name depth prevTarget).map fun labels => labels.map Label.string) := by
  induction hn : MAX_DEPTH + 1 - depth using Nat.strongRecOn generalizing encoded name depth prevTarget with
  | ind n ih =>
    subst hn
    rw [followName, unpackInternal]
    by_cases hdepth : depth > MAX_DEPTH
    · rw [dif_pos hdepth, if_pos hdepth]
      rfl
    rw [dif_neg hdepth, if_neg hdepth]
    obtain ⟨hlabels, ⟨hnone, rfl⟩ | ⟨target, hle, hsome, rfl⟩⟩ := hspells
    · grind [DName.compressed, collectLabels_wireOf, dropRoot_root, unpackedLabels_string]
    · rw [if_neg (by rw [DName.compressed, hsome]; exact Bool.true_eq_false.mp), hsome]
      extract_lets len follow
      dsimp only
      rw [chaseLabels_labels hlabels, List.nil_append]
      by_cases hpast : target.toNat ≥ data.length
      · have hfollow : follow target.toNat = some (.error _) := if_pos hpast
        rw [if_pos hpast, chaseLabels_pointer hle hfollow]
        rfl
      by_cases hprev : target.toNat ≥ prevTarget
      · have hfollow : follow target.toNat = some (.error _) := (if_neg hpast).trans (if_pos hprev)
        rw [if_neg hpast, if_pos hprev, chaseLabels_pointer hle hfollow]
        rfl
      have hslice : sliceFrom data target.toNat = some (data.drop target.toNat) :=
        if_pos (Nat.le_of_lt (Nat.lt_of_not_le hpast))
      obtain ⟨herror, hok⟩ := locate_eq (data.drop target.toNat)
      rw [if_neg hpast, if_neg hprev]
      cases hread : DName.tryFromBytes (data.drop target.toNat) with
      | error e =>
        have hfollow : follow target.toNat = some (.error e) := by grind
        rw [chaseLabels_pointer hle hfollow]
        rfl
      | ok found =>
        obtain ⟨next, rest⟩ := found
        obtain ⟨there, hthere, -, hlocate⟩ := hok next rest hread
        have hnext := ih _ (by omega) hthere (depth + 1) target.toNat rfl
        have hfollow : follow target.toNat =
            some ((unpackInternal data next (depth + 1) target.toNat).map fun ls => ls.map Label.string) := by
          refine (if_neg hpast).trans ((if_neg hprev).trans ?_)
          rw [hslice]
          dsimp only
          rw [hlocate]
          exact hnext
        rw [chaseLabels_pointer hle hfollow]
        dsimp only
        cases unpackInternal data next (depth + 1) target.toNat with
        | error e => rfl
        | ok labels =>
          dsimp only [Except.map]
          rw [← List.map_append, unpackedLabels_string]
          rfl

/-! ## What was followed -/

/-- The labels met from the front of `bytes` on, each pointer followed into `data`; it lands
strictly before `previous`, the target of the pointer before it, if there was one. -/
inductive Chases (data : Octets) : Option Nat → Octets → List Octets → Prop
  | full {previous : Option Nat} {labels : List Octets} {rest : Octets} (valid : ∀ l ∈ labels, ValidLabel l) :
    Chases data previous (wireOf labels ++ rest) labels
  | hop {previous : Option Nat} {own labels : List Octets} {target : UInt16} {rest : Octets}
    (valid : ∀ l ∈ own, ValidLabel l) (reachable : target.toNat ≤ POINTER_MASK) (inside : target.toNat < data.length)
    (backwards : ∀ before ∈ previous, target.toNat < before)
    (next : Chases data (some target.toNat) (data.drop target.toNat) labels) :
    Chases data previous (labelsOctets own ++ pointerOctets target ++ rest) (own ++ labels)

theorem Chases.valid {data bytes : Octets} {previous : Option Nat} {labels : List Octets}
    (h : Chases data previous bytes labels) : ∀ l ∈ labels, ValidLabel l := by
  induction h with
  | full valid => exact valid
  | hop valid _ _ _ _ ih =>
    intro l hl
    rcases List.mem_append.mp hl with hl | hl
    · exact valid l hl
    · exact ih l hl

theorem of_unpackedNew {unpacked : List Octets} (h : unpackedNew labels = .ok unpacked) :
    unpacked = labels ∧ encodedLen labels ≤ MAX_NAME_LEN := by
  unfold unpackedNew at h
  split at h
  · cases h
  · grind

theorem chases_of_unpackInternal (rest : Octets) {depth prevTarget : Nat} (previous : Option Nat)
    (hspells : Spells encoded name) (hprevious : ∀ before ∈ previous, before = prevTarget)
    (h : unpackInternal data name depth prevTarget = .ok labels) :
    Chases data previous (encoded ++ rest) labels ∧ encodedLen labels ≤ MAX_NAME_LEN := by
  induction hn : MAX_DEPTH + 1 - depth using Nat.strongRecOn
    generalizing encoded rest name depth prevTarget previous labels with
  | ind n ih =>
    subst hn
    rw [unpackInternal] at h
    split at h
    case isTrue => cases h
    case isFalse hdepth =>
      obtain ⟨hlabels, ⟨hnone, rfl⟩ | ⟨target, hle, hsome, rfl⟩⟩ := hspells
      · rw [hnone] at h
        obtain ⟨rfl, hlen⟩ := of_unpackedNew h
        exact ⟨.full hlabels, hlen⟩
      · rw [hsome] at h
        dsimp only at h
        split at h
        case isTrue => cases h
        case isFalse hpast =>
          split at h
          case isTrue => cases h
          case isFalse hprev =>
            obtain ⟨-, hok⟩ := locate_eq (data.drop target.toNat)
            cases hread : DName.tryFromBytes (data.drop target.toNat) with
            | error e =>
              rw [hread] at h
              cases h
            | ok found =>
              obtain ⟨next, after⟩ := found
              rw [hread] at h
              dsimp only at h
              cases hnext : unpackInternal data next (depth + 1) target.toNat with
              | error e =>
                rw [hnext] at h
                cases h
              | ok unpacked =>
                rw [hnext] at h
                obtain ⟨there, hthere, hsplit, -⟩ := hok next after hread
                obtain ⟨hchase, -⟩ := ih _ (by omega) after (some target.toNat) hthere
                  (fun before hbefore => (Option.mem_some.mp hbefore).symm) hnext rfl
                rw [← hsplit] at hchase
                obtain ⟨rfl, hlen⟩ := of_unpackedNew h
                refine ⟨.hop hlabels hle (Nat.lt_of_not_le hpast) (fun before hbefore => ?_) hchase, hlen⟩
                rw [hprevious before hbefore]
                exact Nat.lt_of_not_le hprev

theorem decodeWire_eq (rest : Octets) (hspells : Spells encoded name) :
    LocatedName.decodeWire data ⟨encoded, name.compressed⟩ = some ((decodeWire data name).map Name.wire) ∧
      ∀ decoded, decodeWire data name = .ok decoded → Chases data none (encoded ++ rest) decoded.labels := by
  obtain ⟨hlabels, ⟨hnone, rfl⟩ | ⟨target, hle, hsome, rfl⟩⟩ := id hspells
  · have hplain : name.compressed = false := by rw [DName.compressed, hnone]; rfl
    rw [LocatedName.decodeWire, decodeWire, hplain, LocatedName.toWire, length_wireOf]
    by_cases hlen : encodedLen name.labels ≤ MAX_NAME_LEN
    · have hname : Name.ofLabels name.labels = .ok ⟨name.labels, hlabels, hlen⟩ :=
        Name.ofLabels_ok_iff.mpr rfl
      rw [checkNameLen_ok hlen, hname]
      refine ⟨rfl, fun decoded hdecoded => ?_⟩
      cases hdecoded
      exact .full hlabels
    · rw [checkNameLen, if_pos (Nat.lt_of_not_le hlen)]
      exact ⟨rfl, fun _ h => by cases h⟩
  · have hpointed : name.compressed = true := by rw [DName.compressed, hsome]; rfl
    rw [LocatedName.decodeWire, if_pos hpointed, followName_eq hspells, decodeWire, if_pos hpointed]
    cases hunpack : unpackInternal data name 0 USIZE_MAX with
    | error e => exact ⟨rfl, fun _ h => by cases h⟩
    | ok labels =>
      obtain ⟨hchase, hlen⟩ := chases_of_unpackInternal rest none hspells (fun _ h => by cases h) hunpack
      have hname : Name.ofLabels labels = .ok ⟨labels, hchase.valid, hlen⟩ := Name.ofLabels_ok_iff.mpr rfl
      show some (labelsToWire (labels.map Label.string)) = some ((Name.ofLabels labels).map Name.wire) ∧
        ∀ decoded, Name.ofLabels labels = .ok decoded → _
      rw [labelsToWire_string, hname]
      refine ⟨rfl, fun decoded hdecoded => ?_⟩
      cases hdecoded
      exact hchase

/-- **The reader over slices is the reader over labels**, and never leaves a slice. -/
theorem nameWireFromBytesIn_eq (data bytes : Octets) :
    nameWireFromBytesIn data bytes = some ((Name.fromWireIn data bytes).map (Prod.map Name.wire id)) := by
  obtain ⟨herror, hok⟩ := locate_eq bytes
  cases hread : DName.tryFromBytes bytes with
  | error e =>
    rw [nameWireFromBytesIn, herror e hread, Name.fromWireIn, hread]
    rfl
  | ok found =>
    obtain ⟨name, after⟩ := found
    obtain ⟨encoded, hspells, -, hlocate⟩ := hok name after hread
    rw [nameWireFromBytesIn, hlocate, Name.fromWireIn, hread]
    dsimp only
    rw [(decodeWire_eq after hspells).1]
    cases decodeWire data name <;> rfl

theorem chases_of_fromWireIn {bytes : Octets} {name : Name}
    (h : Name.fromWireIn data bytes = .ok (name, rest)) : Chases data none bytes name.labels := by
  unfold Name.fromWireIn at h
  split at h
  · cases h
  · rename_i dname after hread
    obtain ⟨decoded, hdecoded, h⟩ := except_bind_eq_ok.mp h
    cases h
    obtain ⟨encoded, hspells, rfl, -⟩ := (locate_eq bytes).2 dname rest hread
    exact (decodeWire_eq rest hspells).2 name hdecoded

def CarriesPointer (bytes : Octets) : Prop :=
  ∃ name rest, locate bytes = some (.ok (name, rest)) ∧ name.compressed = true

/-- **Hostile octets.** For every message and every run of octets, reading a name comes to a
result without leaving a slice; a name it yields is valid on the wire and is the labels met by
following its pointers; and where there is no pointer the two readers say the same. -/
theorem from_wire_in_sound (data bytes : Octets) :
    (∃ result, nameWireFromBytesIn data bytes = some result ∧
      ∀ wire rest, result = .ok (wire, rest) → ∃ labels, wire = wireOf labels ∧
        (∀ l ∈ labels, 1 ≤ l.length ∧ l.length ≤ 63) ∧ wire.length ≤ 255 ∧
        Chases data none bytes labels) ∧
    (¬ CarriesPointer bytes → nameWireFromBytesIn data bytes = nameWireFromBytes bytes) := by
  constructor
  · refine ⟨_, nameWireFromBytesIn_eq data bytes, fun wire rest hwire => ?_⟩
    cases hread : Name.fromWireIn data bytes with
    | error e =>
      rw [hread] at hwire
      cases hwire
    | ok found =>
      obtain ⟨name, after⟩ := found
      rw [hread] at hwire
      cases hwire
      exact ⟨name.labels, rfl, name.labels_ok, name.length_wire_le, chases_of_fromWireIn hread⟩
  · intro hplain
    rw [nameWireFromBytesIn, nameWireFromBytes]
    cases hlocate : locate bytes with
    | none => rfl
    | some result =>
      cases result with
      | error e => rfl
      | ok found =>
        obtain ⟨name, rest⟩ := found
        have hnone : name.compressed = false :=
          Bool.eq_false_of_not_eq_true fun h => hplain ⟨name, rest, hlocate, h⟩
        dsimp only
        rw [LocatedName.decodeWire, hnone]
        rfl

/-- A name in full, read both ways. -/
theorem from_wire_in_plain :
    nameWireFromBytesIn [0xc0, 0] [1, 97, 0] = nameWireFromBytes [1, 97, 0] := by
  refine (from_wire_in_sound [0xc0, 0] [1, 97, 0]).2 ?_
  rintro ⟨name, rest, hlocate, hpointed⟩
  have hfound : locate [1, 97, 0] = some (.ok (⟨[1, 97, 0], false⟩, [])) := by decide +kernel
  rw [hfound] at hlocate
  cases hlocate
  cases hpointed

end Rdns.Core
