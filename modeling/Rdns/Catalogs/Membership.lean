import Rdns.Catalogs.Catalog
import Rdns.Server.StateFile

/-!
# Rdns — Which catalog provisioned which zone

`Membership` of `rdnsd/src/catalog.rs`: one row for each member zone, in memory and in the
sidecar that a start reads back.
-/

namespace Rdns.Catalogs

open Rdns.Lib Rdns.Core Rdns.Present Rdns.Zones Rdns.Server

/-! ## Rows -/

structure MemberRow where
  zone : Name
  /-- `<unique-N>.zones.$CATZ`, which carries the catalog too. -/
  node : Name
  group : Option Octets
deriving DecidableEq

abbrev Rows := List MemberRow

namespace Rows

def membersOf (rows : Rows) (catalog : Name) : Rows := rows.filter fun row => (catalogOf row.node).same catalog

def rowFor (rows : Rows) (zone : Name) : Option MemberRow := rows.find? fun row => row.zone.same zone

def ownerOf (rows : Rows) (zone : Name) : Option Name := (rows.rowFor zone).map fun row => catalogOf row.node

def set (row : MemberRow) : Rows → Rows
  | [] => [row]
  | held :: rest => if held.zone.same row.zone then row :: rest else held :: set row rest

def forget (rows : Rows) (zone : Name) : Rows := rows.filter fun row => !row.zone.same zone

end Rows

/-! ## The sidecar -/

def replaceSpaces (text : Text) : Text := text.flatMap fun c => if c = ' ' then "\\032".toList else [c]

def writeGroup : Option Octets → Text
  | none => ['-']
  | some group =>
    let escaped := replaceSpaces (charStringEscaped group)
    if escaped = ['-'] then "\\045".toList else escaped

def readGroup (field : Option Text) : Option (Option Octets) :=
  if field = none ∨ field = some ['-'] then some none
  else match charStringDecode (toBytes (field.getD [])) with
    | .ok group => some (some group)
    | .error _ => none

def rowLine (row : MemberRow) : Text :=
  toPresentation row.zone ++ ' ' :: (toPresentation row.node ++ ' ' :: writeGroup row.group)

def MEMBERSHIP_HEADER : List Text :=
  ["# rdnsd catalog membership: member-zone member-node group".toList,
   "# Written by the server. Deleting this makes every member look like".toList,
   "# a zone no catalog provisioned, which costs a removal nobody sees.".toList,
   "# The group is `-` for none, and otherwise RFC 1035 §5.1 escaping".toList,
   "# with spaces as \\032; a build older than TODO.md #48 skips a row".toList,
   "# that has it.".toList]

def membershipText (rows : Rows) : Text :=
  (MEMBERSHIP_HEADER ++ rows.map rowLine).flatMap fun line => line ++ ['\n']

def parseRow (line : Text) : Option MemberRow :=
  let read (zone node : Text) (group : Option Text) : Option MemberRow :=
    match fromPresentation zone, fromPresentation node with
    | .ok zone, .ok node =>
      if node.labelCount < 3 then none else (readGroup group).map fun group => ⟨zone, node, group⟩
    | _, _ => none
  match splitWhitespace line with
  | [zone, node] => read zone node none
  | [zone, node, group] => read zone node (some group)
  | _ => none

def readRow (line : Text) : Option MemberRow :=
  let line := trim line
  if line.isEmpty || line.head? == some '#' then none else parseRow line

def loadMembership (contents : Option Octets) : Rows :=
  match contents.bind fromUtf8 with
  | some text => (lines text).filterMap readRow
  | none => []

/-! ## One row a zone -/

/-- **No two rows are of one zone.** -/
def Apart (rows : Rows) : Prop := rows.Pairwise fun a b => a.zone.same b.zone = false

variable {rows : Rows} {row : MemberRow} {a b : Name}

theorem same_congr_left (h : a.same b = true) (c : Name) : a.same c = b.same c := by
  rw [Bool.eq_iff_iff, Name.same_iff, Name.same_iff, Name.same_iff.mp h]

theorem same_congr_right (h : a.same b = true) (c : Name) : c.same a = c.same b := by
  rw [Name.same_comm c a, Name.same_comm c b]
  exact same_congr_left h c

theorem rowFor_congr (h : a.same b = true) (rows : Rows) : rows.rowFor a = rows.rowFor b := by
  rw [Rows.rowFor, Rows.rowFor]
  congr 1
  funext row
  exact same_congr_right h row.zone

theorem of_rowFor {zone : Name} (h : rows.rowFor zone = some row) :
    row ∈ rows ∧ row.zone.same zone = true := by
  have hzone := List.find?_some h
  exact ⟨List.mem_of_find?_eq_some h, hzone⟩

theorem rowFor_of_mem (h : Apart rows) (hmem : row ∈ rows) {zone : Name}
    (hzone : row.zone.same zone = true) : rows.rowFor zone = some row := by
  induction rows with
  | nil => cases hmem
  | cons first rest ih =>
    rw [Apart, List.pairwise_cons] at h
    rw [Rows.rowFor, List.find?_cons]
    rcases List.mem_cons.mp hmem with rfl | hmem
    · rw [hzone]
    · have hne : first.zone.same zone = false := by
        rw [← same_congr_right hzone]
        exact h.1 row hmem
      rw [hne]
      exact ih h.2 hmem

theorem rowFor_set (row : MemberRow) (rows : Rows) (zone : Name) :
    (rows.set row).rowFor zone = if row.zone.same zone then some row else rows.rowFor zone := by
  induction rows with
  | nil => grind [Rows.set, Rows.rowFor]
  | cons held rest ih =>
    rw [Rows.set]
    split
    · grind [Rows.rowFor, same_congr_left]
    · rename_i hne
      rw [Rows.rowFor, List.find?_cons, Rows.rowFor, List.find?_cons]
      cases hheld : held.zone.same zone with
      | true =>
        have hrow : row.zone.same zone = false := by
          rw [Bool.eq_false_iff]
          intro hrow
          rw [Name.same_comm] at hrow
          exact hne ((same_congr_right hrow held.zone).symm.trans hheld)
        rw [hrow]
        rfl
      | false => exact ih

/-- **A zone that is forgotten has no row**, and every other keeps its own. -/
theorem rowFor_forget (rows : Rows) (zone other : Name) :
    (rows.forget zone).rowFor other = if zone.same other then none else rows.rowFor other := by
  rw [Rows.forget, Rows.rowFor, List.find?_filter]
  split
  · rename_i hsame
    rw [List.find?_eq_none]
    intro row _ hrow
    obtain ⟨hnot, hother⟩ := of_decide_eq_true hrow
    rw [same_congr_right hsame, hother] at hnot
    cases hnot
  · rename_i hne
    rw [Rows.rowFor]
    congr 1
    funext row
    cases hrow : row.zone.same other with
    | false => simp
    | true =>
      have hzone : row.zone.same zone = false := by
        rw [Bool.eq_false_iff]
        intro hzone
        rw [same_congr_left hzone] at hrow
        exact hne hrow
      simp [hzone]

theorem Apart.forget (h : Apart rows) (zone : Name) : Apart (rows.forget zone) :=
  h.filter _

theorem mem_set {other : MemberRow} (h : other ∈ rows.set row) : other = row ∨ other ∈ rows := by
  induction rows with
  | nil => exact .inl (List.mem_singleton.mp h)
  | cons held rest ih =>
    rw [Rows.set] at h
    split at h
    · rcases List.mem_cons.mp h with rfl | h
      · exact .inl rfl
      · exact .inr (List.mem_cons_of_mem _ h)
    · rcases List.mem_cons.mp h with rfl | h
      · exact .inr List.mem_cons_self
      · exact (ih h).imp_right (List.mem_cons_of_mem _)

theorem Apart.set (h : Apart rows) (row : MemberRow) : Apart (rows.set row) := by
  induction rows with
  | nil => exact List.pairwise_singleton _ _
  | cons held rest ih =>
    rw [Apart, List.pairwise_cons] at h
    rw [Rows.set]
    split
    · grind [Apart, List.pairwise_cons, same_congr_left]
    · rename_i hne
      rw [Apart, List.pairwise_cons]
      refine ⟨?_, ih h.2⟩
      intro other hother
      rcases mem_set hother with rfl | hother
      · exact Bool.eq_false_iff.mpr hne
      · exact h.1 other hother

/-! ## From one process to the next -/

theorem isGraphic_writeGroup (group : Option Octets) : ∀ c ∈ writeGroup group, isGraphic c = true := by
  intro c hc
  cases group with
  | none =>
    rw [writeGroup, List.mem_singleton] at hc
    subst hc
    decide
  | some group =>
    rw [writeGroup] at hc
    split at hc
    · exact (by decide : ∀ c ∈ "\\045".toList, isGraphic c = true) c hc
    · rw [replaceSpaces, List.mem_flatMap] at hc
      obtain ⟨d, hd, hc⟩ := hc
      split at hc
      · exact (by decide : ∀ c ∈ "\\032".toList, isGraphic c = true) c hc
      · rename_i hspace
        rw [List.mem_singleton] at hc
        subst hc
        exact ((quoted_charStringEscaped group).printable c hd).resolve_right hspace

theorem graphic_toPresentation (name : Name) : ∀ c ∈ toPresentation name, isGraphic c = true :=
  (bare_toPresentation name).graphic

theorem head?_rowLine (row : MemberRow) : ∃ c, (rowLine row).head? = some c ∧ isGraphic c = true := by
  obtain ⟨c, rest, hzone⟩ := List.exists_cons_of_ne_nil (toPresentation_ne_nil row.zone)
  refine ⟨c, ?_, graphic_toPresentation row.zone c (by rw [hzone]; exact List.mem_cons_self)⟩
  rw [rowLine, hzone]
  rfl

theorem trim_ungrouped (hgroup : writeGroup row.group = []) :
    trim (rowLine row) = toPresentation row.zone ++ ' ' :: toPresentation row.node := by
  have hline : rowLine row = List.replicate 0 ' ' ++ ((toPresentation row.zone ++ ' ' :: toPresentation row.node) ++
      List.replicate 1 ' ') := by
    rw [rowLine, hgroup, List.append_assoc]
    rfl
  rw [hline]
  refine trim_spaces (List.append_ne_nil_of_right_ne_nil _ (List.cons_ne_nil _ _)) ?_ ?_ 0 1
  · grind [List.head?_append_of_ne_nil, toPresentation_ne_nil, isWhitespace_of_graphic, graphic_toPresentation, List.mem_of_head?]
  · intro d hd
    rw [List.getLast?_append_of_ne_nil _ (List.cons_ne_nil _ _),
      List.getLast?_cons_of_ne_nil (toPresentation_ne_nil _)] at hd
    exact isWhitespace_of_graphic (graphic_toPresentation _ d (List.mem_of_getLast? hd))

theorem trim_grouped (hgroup : writeGroup row.group ≠ []) : trim (rowLine row) = rowLine row := by
  obtain ⟨c, hhead, hc⟩ := head?_rowLine row
  have hne : rowLine row ≠ [] := by
    intro hnil
    rw [hnil] at hhead
    cases hhead
  refine trim_eq_self hne ?_ ?_
  · grind [isWhitespace_of_graphic]
  · intro d hd
    have hlast : (rowLine row).getLast? = (writeGroup row.group).getLast? := by
      rw [rowLine, List.getLast?_append_of_ne_nil _ (List.cons_ne_nil _ _), ← List.cons_append,
        List.getLast?_append_of_ne_nil _ (List.cons_ne_nil _ _), List.getLast?_cons_of_ne_nil hgroup]
    rw [hlast] at hd
    exact isWhitespace_of_graphic (isGraphic_writeGroup _ d (List.mem_of_getLast? hd))

theorem trim_rowLine (row : MemberRow) : trim (rowLine row) = rowLine row ∨
    trim (rowLine row) = toPresentation row.zone ++ ' ' :: toPresentation row.node := by
  by_cases hgroup : writeGroup row.group = []
  · exact .inr (trim_ungrouped hgroup)
  · exact .inl (trim_grouped hgroup)

theorem zone_of_readRow {back : MemberRow} (h : readRow (rowLine row) = some back) :
    back.zone = row.zone := by
  have hword : ∀ c ∈ toPresentation row.zone, isWhitespace c = false := fun c hc =>
    isWhitespace_of_graphic (graphic_toPresentation row.zone c hc)
  obtain ⟨rest, hrest⟩ : ∃ rest, splitWhitespace (trim (rowLine row)) = toPresentation row.zone :: rest := by grind [trim_rowLine, rowLine, splitWhitespace_word, toPresentation_ne_nil]
  have hread : ∀ (node : Text) (group : Option Text),
      (match fromPresentation (toPresentation row.zone), fromPresentation node with
        | .ok zone, .ok node =>
          if node.labelCount < 3 then none else (readGroup group).map fun group => MemberRow.mk zone node group
        | _, _ => none) = some back → back.zone = row.zone := by
    intro node group hback
    rw [fromPresentation_toPresentation] at hback
    split at hback
    · rename_i zone node' hzone _
      cases hzone
      split at hback
      · cases hback
      · obtain ⟨group', -, rfl⟩ := Option.map_eq_some_iff.mp hback
        rfl
    · cases hback
  rw [readRow] at h
  split at h
  · cases h
  · rw [parseRow, hrest] at h
    dsimp only at h
    split at h
    · rename_i zone node heq
      cases heq
      exact hread _ _ h
    · rename_i zone node group heq
      cases heq
      exact hread _ _ h
    · cases h

theorem membershipHeader_lines :
    ∀ line ∈ MEMBERSHIP_HEADER, '\n' ∉ line ∧ line.getLast? ≠ some '\r' ∧ readRow line = none := by
  decide +kernel

theorem lines_membershipText (rows : Rows) : lines (membershipText rows) = MEMBERSHIP_HEADER ++ rows.map rowLine := by
  have hrow : ∀ row : MemberRow, ∀ c ∈ rowLine row, isGraphic c = true ∨ c = ' ' := by grind [rowLine, graphic_toPresentation, isGraphic_writeGroup]
  refine lines_flatMap (fun line hline => ?_) fun line hline => ?_
  · rcases List.mem_append.mp hline with hline | hline
    · exact (membershipHeader_lines line hline).1
    · obtain ⟨row, -, rfl⟩ := List.mem_map.mp hline
      intro hmem
      rcases hrow row _ hmem with h | h
      · exact absurd h (by decide)
      · exact absurd h (by decide)
  · rcases List.mem_append.mp hline with hline | hline
    · exact (membershipHeader_lines line hline).2.1
    · obtain ⟨row, -, rfl⟩ := List.mem_map.mp hline
      intro hlast
      rcases hrow row _ (List.mem_of_getLast? hlast) with h | h
      · exact absurd h (by decide)
      · exact absurd h (by decide)

theorem load_membershipText (rows : Rows) :
    loadMembership (some (toBytes (membershipText rows))) = rows.filterMap fun row => readRow (rowLine row) := by
  have hheader : MEMBERSHIP_HEADER.filterMap readRow = [] :=
    List.filterMap_eq_nil_iff.mpr fun line hline => (membershipHeader_lines line hline).2.2
  rw [loadMembership, Option.bind_some, fromUtf8_toBytes]
  dsimp only
  rw [lines_membershipText, List.filterMap_append, hheader, List.nil_append, List.filterMap_map]
  rfl

/-- **A zone has one row in the next process too.** -/
theorem apart_load (h : Apart rows) :
    Apart (loadMembership (some (toBytes (membershipText rows)))) := by
  rw [load_membershipText, Apart, List.pairwise_filterMap]
  refine h.imp ?_
  intro a b hab a' ha' b' hb'
  rw [zone_of_readRow ha', zone_of_readRow hb']
  exact hab

end Rdns.Catalogs
