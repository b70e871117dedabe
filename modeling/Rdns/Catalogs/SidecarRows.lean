import Rdns.Catalogs.Membership

/-!
# Rdns — Which rows of the sidecar come back

`Membership::snapshot` and `Membership::load` of `rdnsd/src/catalog.rs`: every row is written, and
three kinds of rows are lost on the way back. A zone whose text begins with `#` makes its row a
comment, an empty group leaves no field behind, and a member node needs three labels, which those of
a catalog at the root do not have.
-/

namespace Rdns.Catalogs

open Rdns.Lib Rdns.Core Rdns.Present Rdns.Zones Rdns.Server

/-! ## The group field -/

theorem replaceSpaces_escaped (group : Octets) :
    replaceSpaces (charStringEscaped group) = group.flatMap (escapeOctet isQuoteSyntax 0x21) := by
  have hoctet : ∀ octet : UInt8,
      replaceSpaces (escapeOctet isQuoteSyntax 0x20 octet) = escapeOctet isQuoteSyntax 0x21 octet := by
    intro octet
    have hall : ∀ n : Fin 256, replaceSpaces (escapeOctet isQuoteSyntax 0x20 (UInt8.ofNat n.val)) =
        escapeOctet isQuoteSyntax 0x21 (UInt8.ofNat n.val) := by
      decide +kernel
    have hn := hall ⟨octet.toNat, octet.toNat_lt⟩
    rwa [UInt8.ofNat_toNat] at hn
  induction group with
  | nil => rfl
  | cons octet rest ih =>
    rw [charStringEscaped, replaceSpaces] at ih
    rw [charStringEscaped, List.flatMap_cons, replaceSpaces, List.flatMap_append, ih, List.flatMap_cons]
    exact congrArg (· ++ _) (hoctet octet)

/-- **A group reads back from its field**, whatever its octets. -/
theorem readGroup_writeGroup (group : Option Octets) : readGroup (some (writeGroup group)) = some group := by
  cases group with
  | none => rfl
  | some group =>
    have hdecode : charStringDecode (toBytes (replaceSpaces (charStringEscaped group))) = .ok group := by
      rw [replaceSpaces_escaped]
      exact charStringDecode_flatMap 0x21 group
    rw [writeGroup]
    split
    · rename_i hdash
      have hone : charStringDecode (toBytes ['-']) = .ok [45] := by decide +kernel
      rw [hdash, hone] at hdecode
      cases hdecode
      decide +kernel
    · grind [readGroup]

theorem writeGroup_eq_nil {group : Option Octets} : writeGroup group = [] ↔ group = some [] := by
  constructor
  · intro hnil
    have hread := readGroup_writeGroup group
    rw [hnil] at hread
    have hempty : readGroup (some []) = some (some []) := by decide +kernel
    rw [hempty] at hread
    exact (Option.some.inj hread).symm
  · rintro rfl
    decide

/-! ## One row -/

/-- A row that is not lost: its zone's text is no comment, its node has the labels a member node has,
and its group is not empty. -/
structure RowKept (row : MemberRow) : Prop where
  noComment : (toPresentation row.zone).head? ≠ some '#'
  member : 3 ≤ row.node.labelCount
  group : row.group ≠ some []

theorem readRow_of_trim {line text : Text} (htrim : trim line = text) (hne : text ≠ []) (hhead : text.head? ≠ some '#') :
    readRow line = parseRow text := by
  unfold readRow
  rw [htrim]
  dsimp only
  rw [if_neg]
  rw [Bool.or_eq_true, not_or, List.isEmpty_iff, beq_iff_eq]
  exact ⟨hne, hhead⟩

theorem head?_fields {zone rest : Text} (hne : zone ≠ []) : (zone ++ rest).head? = zone.head? :=
  List.head?_append_of_ne_nil _ hne

theorem word_toPresentation (name : Name) : ∀ c ∈ toPresentation name, isWhitespace c = false :=
  fun c hc => isWhitespace_of_graphic (graphic_toPresentation name c hc)

/-- **Which row reads back from its line.** -/
theorem readRow_rowLine_iff (row : MemberRow) : readRow (rowLine row) = some row ↔ RowKept row := by
  have hzone := toPresentation_ne_nil row.zone
  have hnode := toPresentation_ne_nil row.node
  by_cases hcomment : (toPresentation row.zone).head? = some '#'
  · refine ⟨fun h => ?_, fun h => absurd hcomment h.noComment⟩
    have hhead : (trim (rowLine row)).head? = some '#' := by grind [trim_rowLine, rowLine]
    unfold readRow at h
    dsimp only at h
    rw [hhead, beq_self_eq_true, Bool.or_true, if_pos rfl] at h
    cases h
  · by_cases hempty : row.group = some []
    · -- the empty field is trimmed away, and the row reads as one of no group
      refine ⟨fun h => ?_, fun h => absurd hempty h.group⟩
      have htrim := trim_ungrouped (writeGroup_eq_nil.mpr hempty)
      rw [readRow_of_trim htrim (List.append_ne_nil_of_left_ne_nil hzone _)
        (by rw [head?_fields hzone]; exact hcomment)] at h
      unfold parseRow at h
      rw [splitWhitespace_word (word_toPresentation row.zone) hzone,
        splitWhitespace_last (word_toPresentation row.node) hnode] at h
      dsimp only at h
      rw [fromPresentation_toPresentation, fromPresentation_toPresentation] at h
      dsimp only at h
      split at h
      · cases h
      · have hgroup := congrArg (Option.map MemberRow.group) h
        rw [Option.map_some, hempty] at hgroup
        cases hgroup
    · have hgroup : writeGroup row.group ≠ [] := mt writeGroup_eq_nil.mp hempty
      have hword : ∀ c ∈ writeGroup row.group, isWhitespace c = false :=
        fun c hc => isWhitespace_of_graphic (isGraphic_writeGroup _ c hc)
      have hread : readRow (rowLine row) = if row.node.labelCount < 3 then none else some row := by
        rw [readRow_of_trim (trim_grouped hgroup) (List.append_ne_nil_of_left_ne_nil hzone _)
          (by rw [rowLine, head?_fields hzone]; exact hcomment)]
        unfold parseRow
        rw [rowLine, splitWhitespace_word (word_toPresentation row.zone) hzone,
          splitWhitespace_word (word_toPresentation row.node) hnode, splitWhitespace_last hword hgroup]
        dsimp only
        rw [fromPresentation_toPresentation, fromPresentation_toPresentation]
        dsimp only
        rw [readGroup_writeGroup]
        rfl
      rw [hread]
      constructor
      · intro h
        split at h
        · cases h
        · rename_i hlabels
          exact ⟨hcomment, by omega, hempty⟩
      · intro h
        have := h.member
        rw [if_neg (by omega)]

/-! ## All of them -/

theorem filterMap_eq_self_iff {α : Type} {f : α → Option α} {xs : List α} :
    xs.filterMap f = xs ↔ ∀ x ∈ xs, f x = some x := by
  constructor
  · intro h
    induction xs with
    | nil => exact fun x hx => (by cases hx)
    | cons x rest ih =>
      rw [List.filterMap_cons] at h
      cases hx : f x with
      | none =>
        rw [hx] at h
        dsimp only at h
        have hlen := List.length_filterMap_le f rest
        rw [h, List.length_cons] at hlen
        omega
      | some y =>
        rw [hx] at h
        dsimp only at h
        obtain ⟨rfl, hrest⟩ := List.cons.inj h
        exact List.forall_mem_cons.mpr ⟨hx, ih hrest⟩
  · intro h
    rw [List.filterMap_congr h, List.filterMap_some]

/-- **When the sidecar gives back the rows it was written from**, in their order. -/
theorem load_snapshot_iff (rows : Rows) :
    loadMembership (some (toBytes (membershipText rows))) = rows ↔ ∀ row ∈ rows, RowKept row := by
  rw [load_membershipText, filterMap_eq_self_iff]
  exact forall₂_congr fun row _ => readRow_rowLine_iff row

theorem memberNode_ok : ∀ l ∈ [[97], ZONES, [99, 97, 116]], ValidLabel l := by decide

theorem memberNode_short : encodedLen [[97], ZONES, [99, 97, 116]] ≤ MAX_NAME_LEN := by decide

def emptyGroupRow : MemberRow where
  zone := ex
  node := ⟨[[97], ZONES, [99, 97, 116]], memberNode_ok, memberNode_short⟩
  group := some []

/-- **A row of the empty group comes back without a group.** -/
theorem emptyGroup_lost : ¬ ∀ rows : Rows, loadMembership (some (toBytes (membershipText rows))) = rows := by
  intro h
  have hrow := h (Rows.set emptyGroupRow [])
  rw [load_membershipText, show Rows.set emptyGroupRow [] = [emptyGroupRow] from rfl] at hrow
  have hread : (readRow (rowLine emptyGroupRow)).map MemberRow.group = some none := by decide +kernel
  obtain ⟨back, hback, hgroup⟩ := Option.map_eq_some_iff.mp hread
  rw [List.filterMap_cons, hback] at hrow
  dsimp only at hrow
  obtain ⟨rfl, -⟩ := List.cons.inj hrow
  cases hgroup

end Rdns.Catalogs
