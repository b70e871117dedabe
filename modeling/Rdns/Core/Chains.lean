import Rdns.Core.Compression

/-!
# Rdns — Pointer chains

A name the compressor writes may end in a pointer to a name that itself ends in a
pointer, and so on: chains grow with the message. This module says how long the
chain behind each name is, as a function of what has been written
(`nameDepth`), and proves that the octets written resolve through exactly that
many hops.
-/

namespace Rdns.Core

open Rdns.Lib

/-! ## What the table finds -/

namespace NameCompressor

/-- **Whatever the index holds, a target found is in the table**, under the
needle's octets up to case. -/
theorem lookup_sound {c : NameCompressor} {needle : Octets} {target : UInt16}
    (h : c.lookup needle = some target) :
    ∃ entry ∈ c.seen, entry.offset = target ∧
      foldCase (c.octetsOf entry) = foldCase needle := by
  unfold lookup at h
  split at h
  · obtain ⟨entry, hfind, hoffset⟩ := Option.map_eq_some_iff.mp h
    refine ⟨entry, List.mem_of_find?_eq_some hfind, hoffset, ?_⟩
    have hsame := List.find?_some hfind
    exact eqIgnoreAsciiCase_iff.mp hsame
  · grind [eqIgnoreAsciiCase_iff]

private theorem exists_end_cons {P : List Octets → Prop} (label : Octets) {tail : List Octets}
    (h : ∃ own rest, tail = own ++ rest ∧ P rest) :
    ∃ own rest, label :: tail = own ++ rest ∧ P rest := by
  obtain ⟨own, rest, rfl, hrest⟩ := h
  exact ⟨label :: own, rest, rfl, hrest⟩

/-- **What a name is matched to**: nothing, or the end of it from some label on. -/
theorem matchSuffix_cases {c : NameCompressor} {wireLen : Nat} {labels : List Octets}
    {start : Nat} {target : UInt16} (h : c.matchSuffix wireLen labels = some (start, target)) :
    ∃ own rest, labels = own ++ rest ∧ rest ≠ [] ∧ start = wireLen - encodedLen rest ∧
      c.lookup (wireOf rest) = some target := by
  induction labels with
  | nil => cases h
  | cons label tail ih =>
    unfold matchSuffix at h
    split at h
    · rename_i found hfound
      cases h
      exact ⟨[], label :: tail, rfl, List.cons_ne_nil _ _, rfl, hfound⟩
    · exact exists_end_cons label (ih h)

theorem mem_freshSuffixes {wireLen base stop pos freshEnd : Nat} {labels : List Octets}
    {entry : Suffix} (h : entry ∈ freshSuffixes wireLen base stop pos freshEnd labels) :
    ∃ own rest, labels = own ++ rest ∧ rest ≠ [] ∧
      wireLen - encodedLen rest < freshEnd ∧ pos + (wireLen - encodedLen rest) ≤ POINTER_MASK ∧
      entry = ⟨base + (wireLen - encodedLen rest), stop,
        UInt16.ofNat (pos + (wireLen - encodedLen rest))⟩ := by
  induction labels with
  | nil => cases h
  | cons label tail ih =>
    unfold freshSuffixes at h
    simp only at h
    split at h
    · cases h
    · rename_i hstart
      split at h
      · rename_i hreach
        rcases List.mem_cons.mp h with hentry | hmem
        · exact ⟨[], label :: tail, rfl, List.cons_ne_nil _ _, by omega, hreach, hentry⟩
        · exact exists_end_cons label (ih hmem)
      · exact exists_end_cons label (ih h)

theorem note_seen (c : NameCompressor) (i : Nat) : (c.note i).seen = c.seen := by
  unfold note
  split
  · rfl
  · simp only
    split <;> rfl

theorem note_arena (c : NameCompressor) (i : Nat) : (c.note i).arena = c.arena := by
  unfold note
  split
  · rfl
  · simp only
    split <;> rfl

theorem foldl_note (indices : List Nat) (c : NameCompressor) :
    (indices.foldl note c).seen = c.seen ∧ (indices.foldl note c).arena = c.arena := by
  induction indices generalizing c with
  | nil => exact ⟨rfl, rfl⟩
  | cons i rest ih =>
    rw [List.foldl_cons]
    exact ⟨(ih _).1.trans (note_seen c i), (ih _).2.trans (note_arena c i)⟩

theorem indexFrom_seen (c : NameCompressor) (first : Nat) : (c.indexFrom first).seen = c.seen := by
  unfold indexFrom
  split
  · split
    · rfl
    · exact (foldl_note _ c).1
  · exact (foldl_note _ c).1

theorem indexFrom_arena (c : NameCompressor) (first : Nat) :
    (c.indexFrom first).arena = c.arena := by
  unfold indexFrom
  split
  · split
    · rfl
    · exact (foldl_note _ c).2
  · exact (foldl_note _ c).2

end NameCompressor

/-! ## The shape of a written name -/

/-- **What `write_name` writes**: the whole name, or some of its labels and a
pointer to an entry of the table that holds the rest. -/
theorem nameOctets_cases (c : NameCompressor) (name : Name) :
    (c.matchSuffix name.wire.length name.labels = none ∧ nameOctets c name = name.wire) ∨
      ∃ own rest target, name.labels = own ++ rest ∧ rest ≠ [] ∧
        c.matchSuffix name.wire.length name.labels = some ((labelsOctets own).length, target) ∧
        c.lookup (wireOf rest) = some target ∧
        nameOctets c name = labelsOctets own ++ pointerOctets target := by
  unfold nameOctets
  cases hmatch : c.matchSuffix name.wire.length name.labels with
  | none => exact .inl ⟨rfl, rfl⟩
  | some found =>
    obtain ⟨start, target⟩ := found
    obtain ⟨own, rest, hlabels, hne, hstart, hlookup⟩ := NameCompressor.matchSuffix_cases hmatch
    have hstart' : start = (labelsOctets own).length := by
      rw [hstart, Name.length_wire, hlabels, encodedLen_append]
      omega
    subst hstart'
    refine .inr ⟨own, rest, target, hlabels, hne, rfl, hlookup, ?_⟩
    simp only
    rw [Name.wire, hlabels, wireOf_append, List.take_left]

theorem length_nameOctets_le (c : NameCompressor) (name : Name) :
    (nameOctets c name).length ≤ name.wire.length := by
  rcases nameOctets_cases c name with ⟨-, hbytes⟩ | ⟨own, rest, target, hlabels, hne, -, -, hbytes⟩
  · rw [hbytes]
  · -- a pointer is two octets, and the suffix it stands for at least a label and the root
    cases rest with
    | nil => exact absurd rfl hne
    | cons label tail =>
      have hvalid := name.labels_ok label (by rw [hlabels]; simp)
      have hpos := hvalid.1
      rw [hbytes, List.length_append, length_pointerOctets, Name.length_wire, hlabels,
        encodedLen_append, encodedLen_cons, encodedLen]
      omega

/-! ## Depth -/

/-- How many pointers a reader follows to resolve `name`, written against the
table `c`, when the suffix at offset `o` takes `depth o`. -/
def nameDepth (c : NameCompressor) (depth : Nat → Nat) (name : Name) : Nat :=
  match c.matchSuffix name.wire.length name.labels with
  | some (_, target) => depth target.toNat + 1
  | none => 0

/-- The depths once a name of depth `d` has gone out at `pos`: all its literal
suffixes end in the same pointer. -/
def depthAfter (depth : Nat → Nat) (pos d : Nat) : Nat → Nat :=
  fun offset => if offset < pos then depth offset else d

/-- Every suffix of the table stands in the finished message `data`, before `pos`,
and resolves to its labels up to case in `depth` hops. -/
def TableOk (data : Octets) (pos : Nat) (depth : Nat → Nat) (c : NameCompressor) : Prop :=
  ∀ entry ∈ c.seen, entry.stop ≤ c.arena.length ∧ entry.offset.toNat < pos ∧
    entry.offset.toNat ≤ POINTER_MASK ∧
    ∃ labels shown bytes, c.octetsOf entry = wireOf labels ∧ (∀ l ∈ labels, ValidLabel l) ∧
      Resolves data entry.offset.toNat bytes shown (depth entry.offset.toNat) ∧
      foldLabels shown = foldLabels labels

theorem tableOk_new (data : Octets) (pos : Nat) (depth : Nat → Nat) :
    TableOk data pos depth NameCompressor.new := by
  intro entry h
  cases h

variable {c : NameCompressor} {data : Octets} {pos : Nat} {depth : Nat → Nat} {name : Name}

theorem TableOk.advance {pos' : Nat} (h : TableOk data pos depth c) (hpos : pos ≤ pos') :
    TableOk data pos' depth c := by
  intro entry hmem
  obtain ⟨hstop, hoffset, hreach, hrest⟩ := h entry hmem
  exact ⟨hstop, by omega, hreach, hrest⟩

theorem TableOk.lookup {labels : List Octets} {target : UInt16} (h : TableOk data pos depth c)
    (hvalid : ∀ l ∈ labels, ValidLabel l) (hlookup : c.lookup (wireOf labels) = some target) :
    target.toNat < pos ∧ target.toNat ≤ POINTER_MASK ∧
      ∃ shown bytes, Resolves data target.toNat bytes shown (depth target.toNat) ∧
        foldLabels shown = foldLabels labels := by
  obtain ⟨entry, hmem, rfl, hsame⟩ := NameCompressor.lookup_sound hlookup
  obtain ⟨-, hoffset, hreach, own, shown, bytes, hoctets, hown, hresolves, hshown⟩ := h entry hmem
  rw [hoctets, foldCase_wireOf hown, foldCase_wireOf hvalid] at hsame
  have hlabels : foldLabels own = foldLabels labels :=
    wireOf_injective (validLabels_foldLabels hown) (validLabels_foldLabels hvalid) hsame
  exact ⟨hoffset, hreach, shown, bytes, hresolves, hshown.trans hlabels⟩

theorem nameOctets_resolves_suffix (htable : TableOk data pos depth c)
    (hplaced : PlacedAt data pos (nameOctets c name)) {front back : List Octets}
    (hsplit : name.labels = front ++ back) (hfresh : (labelsOctets front).length
      ≤ freshEndOf name (c.matchSuffix name.wire.length name.labels)) :
    ∃ shown bytes, Resolves data (pos + (labelsOctets front).length) bytes shown
        (nameDepth c depth name) ∧ foldLabels shown = foldLabels back ∧
      nameOctets c name = labelsOctets front ++ bytes := by
  have hvalid : ∀ l ∈ front ++ back, ValidLabel l := hsplit ▸ name.labels_ok
  have hback : ∀ l ∈ back, ValidLabel l := fun l hl => hvalid l (List.mem_append_right _ hl)
  rcases nameOctets_cases c name with
    ⟨hmatch, hbytes⟩ | ⟨own, rest, target, hlabels, hne, hmatch, hlookup, hbytes⟩
  · -- nothing matched: the name stands there in full
    have hwire : nameOctets c name = labelsOctets front ++ wireOf back := by
      rw [hbytes, Name.wire, hsplit, wireOf_append]
    rw [hwire] at hplaced
    have hdepth : nameDepth c depth name = 0 := by rw [nameDepth, hmatch]
    refine ⟨back, wireOf back, ?_, rfl, hwire⟩
    rw [hdepth]
    exact .plain hplaced.right hback
  · -- matched: `front` ends within the literal labels, which go on to the pointer
    rw [hmatch] at hfresh
    simp only [freshEndOf] at hfresh
    have hrestvalid : ∀ l ∈ rest, ValidLabel l := fun l hl =>
      name.labels_ok l (by rw [hlabels]; exact List.mem_append_right _ hl)
    obtain ⟨htarget, hreach, shown, bytes, hresolves, hshown⟩ :=
      htable.lookup hrestvalid hlookup
    obtain ⟨mid, hown, hbackeq⟩ : ∃ mid, own = front ++ mid ∧ back = mid ++ rest := by
      have hle : front.length ≤ own.length := by
        by_contra hlt
        have hprefix : own = front.take own.length := by
          have := congrArg (List.take own.length) (hsplit.symm.trans hlabels)
          rw [List.take_left, List.take_append_of_le_length (by omega)] at this
          exact this.symm
        have hlong : (labelsOctets front).length
            = (labelsOctets own).length + (labelsOctets (front.drop own.length)).length := by
          conv_lhs => rw [← List.take_append_drop own.length front, ← hprefix]
          rw [labelsOctets_append, List.length_append]
        cases hdrop : front.drop own.length with
        | nil =>
          have := congrArg List.length hdrop
          rw [List.length_drop, List.length_nil] at this
          omega
        | cons l ls => grind [labelsOctets, length_labelOctets]
      have heq : front ++ back = own ++ rest := hsplit.symm.trans hlabels
      obtain ⟨mid, hown, hback⟩ | ⟨mid, hfront, hrest⟩ := List.append_eq_append_iff.mp heq
      · exact ⟨mid, hown, hback⟩
      · have hlen := congrArg List.length hfront
        rw [List.length_append] at hlen
        have hnil : mid = [] := List.length_eq_zero_iff.mp (by omega)
        subst hnil
        rw [List.append_nil] at hfront
        exact ⟨[], by rw [hfront, List.append_nil], by rw [hrest]; rfl⟩
    have hmid : ∀ l ∈ mid, ValidLabel l := fun l hl =>
      hback l (by rw [hbackeq]; exact List.mem_append_left _ hl)
    have hbytes' : nameOctets c name
        = labelsOctets front ++ (labelsOctets mid ++ pointerOctets target) := by
      rw [hbytes, hown, labelsOctets_append, List.append_assoc]
    rw [hbytes'] at hplaced
    have hdepth : nameDepth c depth name = depth target.toNat + 1 := by
      rw [nameDepth, hmatch]
    refine ⟨mid ++ shown, labelsOctets mid ++ pointerOctets target, ?_, ?_, hbytes'⟩
    · rw [hdepth]
      exact .chained hplaced.right hmid (by omega) hreach hresolves
    · grind [foldLabels]

/-- **A name written against a sound table resolves**, in `nameDepth` hops, to
itself up to case. -/
theorem namePlan_resolves (htable : TableOk data pos depth c)
    (hplaced : PlacedAt data pos (nameOctets c name)) :
    ∃ shown : Name, shown.same name = true ∧
      Resolves data pos (nameOctets c name) shown.labels (nameDepth c depth name) := by
  obtain ⟨shown, bytes, hresolves, hshown, hbytes⟩ :=
    nameOctets_resolves_suffix htable hplaced (List.nil_append name.labels).symm (Nat.zero_le _)
  rw [labelsOctets, List.nil_append] at hbytes
  have hlen : encodedLen shown = encodedLen name.labels := by
    rw [← encodedLen_foldLabels, hshown, encodedLen_foldLabels]
  refine ⟨⟨shown, hresolves.valid, hlen ▸ name.length_ok⟩, ?_, ?_⟩
  · exact Name.same_iff_foldLabels.mpr hshown
  · rw [hbytes]
    exact hresolves

theorem NameCompressor.octetsOf_append {c' : NameCompressor} {entry : Suffix} {more : Octets}
    (harena : c'.arena = c.arena ++ more) (hstop : entry.stop ≤ c.arena.length) :
    c'.octetsOf entry = c.octetsOf entry := by
  rw [octetsOf, octetsOf, harena]
  by_cases hstart : entry.start ≤ c.arena.length
  · grind
  · rw [show entry.stop - entry.start = 0 by omega, List.take_zero, List.take_zero]

/-- **Writing a name keeps the table sound.** -/
theorem TableOk.afterName (htable : TableOk data pos depth c)
    (hplaced : PlacedAt data pos (nameOctets c name)) :
    TableOk data (pos + (nameOctets c name).length)
      (depthAfter depth pos (nameDepth c depth name)) (Core.afterName c name pos) := by
  have hkeep : ∀ entry ∈ c.seen, ∀ c' : NameCompressor, (∃ more, c'.arena = c.arena ++ more) →
      entry.stop ≤ c'.arena.length ∧ entry.offset.toNat < pos + (nameOctets c name).length ∧
      entry.offset.toNat ≤ POINTER_MASK ∧
      ∃ labels shown bytes, c'.octetsOf entry = wireOf labels ∧ (∀ l ∈ labels, ValidLabel l) ∧
        Resolves data entry.offset.toNat bytes shown
          (depthAfter depth pos (nameDepth c depth name) entry.offset.toNat) ∧
        foldLabels shown = foldLabels labels := by
    rintro entry hmem c' ⟨more, hmore⟩
    obtain ⟨hstop, hoffset, hreach, labels, shown, bytes, hoctets, hvalid, hres, hshown⟩ :=
      htable entry hmem
    refine ⟨by rw [hmore, List.length_append]; omega, by omega, hreach, labels, shown, bytes,
      ?_, hvalid, ?_, hshown⟩
    · rw [← hoctets, NameCompressor.octetsOf_append hmore hstop]
    · rw [depthAfter, if_pos hoffset]
      exact hres
  unfold Core.afterName
  split
  · intro entry hmem
    exact hkeep entry hmem c ⟨[], (List.append_nil _).symm⟩
  · unfold NameCompressor.record
    split
    · intro entry hmem
      rw [NameCompressor.indexFrom_seen] at hmem
      rcases List.mem_append.mp hmem with hold | hnew
      · refine hkeep entry hold _ ⟨name.wire, ?_⟩
        rw [NameCompressor.indexFrom_arena]
      · -- a suffix of this name, standing where it was just written
        obtain ⟨front, back, hsplit, hne, hfresh, hreach, rfl⟩ :=
          NameCompressor.mem_freshSuffixes hnew
        have hfront : name.wire.length - encodedLen back = (labelsOctets front).length := by
          rw [Name.length_wire, hsplit, encodedLen_append]
          omega
        rw [hfront] at hfresh hreach ⊢
        obtain ⟨shown, bytes, hres, hshown, hbytes⟩ :=
          nameOctets_resolves_suffix htable hplaced hsplit (Nat.le_of_lt hfresh)
        have hoffset : (UInt16.ofNat (pos + (labelsOctets front).length)).toNat
            = pos + (labelsOctets front).length :=
          toNat_ofNat_u16 (by unfold POINTER_MASK at hreach; omega)
        have hpositive := hres.length_pos
        refine ⟨?_, ?_, ?_, back, shown, bytes, ?_, ?_, ?_, hshown⟩
        · rw [NameCompressor.indexFrom_arena, List.length_append]
        · rw [hoffset, hbytes, List.length_append]
          omega
        · rw [hoffset]
          exact hreach
        · rw [NameCompressor.octetsOf, NameCompressor.indexFrom_arena]
          simp only
          rw [List.drop_append, List.drop_eq_nil_of_le (by omega), List.nil_append,
            show c.arena.length + (labelsOctets front).length - c.arena.length
              = (labelsOctets front).length by omega, Name.wire, hsplit, wireOf_append,
            List.drop_left, List.length_append]
          exact List.take_of_length_le (by omega)
        · intro l hl
          exact name.labels_ok l (by rw [hsplit]; exact List.mem_append_right _ hl)
        · rw [hoffset, depthAfter, if_neg (by omega)]
          exact hres
    · intro entry hmem
      exact hkeep entry hmem c ⟨[], (List.append_nil _).symm⟩

end Rdns.Core
