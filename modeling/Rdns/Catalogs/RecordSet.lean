import Mathlib.Data.List.Pairwise
import Mathlib.Data.List.Perm.Basic
import Rdns.Catalogs.Catalog

/-!
# Rdns — A catalog is its record set

`Catalog::from_zone` goes through a zone's records in the order the zone holds them, and files each
under the node it belongs to. What comes of it is said here by RRsets alone: by the records at
`version.$CATZ`, at `<unique-N>.zones.$CATZ`, and at the two properties under each of those.
-/

namespace Rdns.Catalogs

open Rdns.Lib Rdns.Core Rdns.Zones RecordTypes

/-! ## Places -/

inductive Place where
  | version
  | member (label : Octets)
  | group (label : Octets)
  | coo (label : Octets)
deriving DecidableEq

def Place.path : Place → List Octets
  | .version => [VERSION]
  | .member label => [label, ZONES]
  | .group label => [GROUP, label, ZONES]
  | .coo label => [COO, label, ZONES]

def Place.rtype : Place → Rtype
  | .version | .group _ => TXT
  | .member _ | .coo _ => PTR

def AtPlace (origin : Name) (place : Place) (record : ZoneRecord) : Prop :=
  record.rtype = place.rtype ∧ foldLabels record.name.labels = place.path ++ foldLabels origin.labels

instance (origin : Name) (place : Place) : DecidablePred (AtPlace origin place) :=
  fun _ => inferInstanceAs (Decidable (_ ∧ _))

def rrset (origin : Name) (records : List ZoneRecord) (place : Place) : List ZoneRecord :=
  records.filter fun record => AtPlace origin place record

def Place.Decodes (place : Place) (record : ZoneRecord) : Prop :=
  match place with
  | .version | .group _ => ∃ value, text record = .ok value
  | .member _ | .coo _ => ∃ name, target record = .ok name

/-- **The condition on the record set.** -/
structure IsCatalog (zone : Zone) : Prop where
  decodes : ∀ place, ∀ record ∈ rrset zone.origin zone.records place, place.Decodes record
  version : ∃ record, rrset zone.origin zone.records .version = [record] ∧ text record = .ok SCHEMA_VERSION
  member : ∀ label, (rrset zone.origin zone.records (.member label)).length ≤ 1
  coo : ∀ label, rrset zone.origin zone.records (.member label) ≠ [] →
    (rrset zone.origin zone.records (.coo label)).length ≤ 1
  distinct : ∀ label other, label ≠ other → ∀ a ∈ rrset zone.origin zone.records (.member label),
    ∀ b ∈ rrset zone.origin zone.records (.member other), ∀ x y, target a = .ok x → target b = .ok y →
      x.same y = false

structure MemberAt (zone : Zone) (label : Octets) (member : CatalogMember) : Prop where
  node : foldLabels member.node.labels = label :: ZONES :: foldLabels zone.origin.labels
  ptr : (rrset zone.origin zone.records (.member label)).map target = [.ok member.zone]
  groups : (rrset zone.origin zone.records (.group label)).map text = member.groups.map .ok
  coo : (rrset zone.origin zone.records (.coo label)).map target = member.coo.toList.map .ok

def Lists (zone : Zone) (members : List CatalogMember) : Prop :=
  ∃ labels : List Octets, labels.Pairwise (· < ·) ∧
    (∀ label, label ∈ labels ↔ rrset zone.origin zone.records (.member label) ≠ []) ∧
    List.Forall₂ (MemberAt zone) labels members

/-- Two members are one up to the spelling of the node and the order of the group values. -/
structure SameMember (a b : CatalogMember) : Prop where
  node : a.node.same b.node = true
  zone : a.zone = b.zone
  groups : a.groups.Perm b.groups
  coo : a.coo = b.coo

/-! ## One record -/

section Reading

variable {origin : Name} {place other : Place} {record : ZoneRecord} {records : List ZoneRecord} {reading after : Reading}

theorem AtPlace.unique (h : AtPlace origin place record) (hother : AtPlace origin other record) : place = other := by
  obtain ⟨htype, hname⟩ := h
  obtain ⟨hotherType, hotherName⟩ := hother
  have hpath : place.path = other.path := List.append_cancel_right (hname.symm.trans hotherName)
  have htypes : place.rtype = other.rtype := htype.symm.trans hotherType
  have hdiffer : TXT ≠ PTR ∧ PTR ≠ TXT := by decide
  clear htype hname hotherType hotherName
  cases place <;> cases other <;> simp_all [Place.path, Place.rtype]

def Place.read (place : Place) (reading : Reading) (record : ZoneRecord) : Except BrokenCatalog Reading :=
  match place with
  | .version => do
    let value ← text record
    return { reading with version := reading.version ++ [value] }
  | .member label => do
    let zone ← target record
    return reading.changeNode label record.name fun node => { node with ptr := node.ptr ++ [zone] }
  | .group label => do
    let group ← text record
    return reading.changeNode label (record.name.parent.getD record.name) fun node =>
      { node with groups := node.groups ++ [group] }
  | .coo label => do
    let coo ← target record
    return reading.changeNode label (record.name.parent.getD record.name) fun node => { node with coo := node.coo ++ [coo] }

theorem foldCase_constants :
    foldCase VERSION = VERSION ∧ foldCase ZONES = ZONES ∧ foldCase GROUP = GROUP ∧ foldCase COO = COO := by
  decide

theorem changeNode_foldCase (label : Octets) (name : Name) (change : Node → Node) :
    reading.changeNode (foldCase label) name change = reading.changeNode label name change := by
  rw [Reading.changeNode, Reading.changeNode, foldCase_idem]

theorem atPlace_iff (hunder : record.name.isAtOrUnder origin = true) : AtPlace origin place record ↔
    record.rtype = place.rtype ∧
      foldLabels (record.name.labels.take (record.name.labelCount - origin.labelCount)) = place.path := by
  obtain ⟨front, hfront⟩ := Name.isAtOrUnder_iff.mp hunder
  have hlengths := congrArg List.length hfront
  simp only [foldLabels, List.length_append, List.length_map] at hlengths
  have htake : foldLabels (record.name.labels.take (record.name.labelCount - origin.labelCount)) = front := by
    rw [foldLabels, List.map_take, ← foldLabels, ← hfront, Name.labelCount, Name.labelCount, ← hlengths,
      Nat.add_sub_cancel, List.take_left]
  rw [htake, AtPlace, ← hfront, List.append_cancel_right_eq]

/-- **A record is read at one place, or passed over.** -/
theorem readRecord_eq (origin : Name) (reading : Reading) (record : ZoneRecord) :
    (∃ place, AtPlace origin place record ∧ readRecord origin reading record = place.read reading record) ∨
      (∀ place, ¬AtPlace origin place record) ∧ readRecord origin reading record = .ok reading := by
  obtain ⟨hversion, hzones, hgroup, hcoo⟩ := foldCase_constants
  unfold readRecord
  split
  · next hout =>
    refine .inr ⟨fun place h => ?_, rfl⟩
    rw [Bool.not_eq_true'] at hout
    rw [Name.isAtOrUnder_iff.mpr ⟨_, h.2.symm⟩] at hout
    cases hout
  next hunder =>
  rw [Bool.not_eq_true', Bool.not_eq_false] at hunder
  simp only [atPlace_iff hunder]
  split
  · next first htake =>
    rw [htake]
    split
    · next h =>
      rw [Bool.and_eq_true, decide_eq_true_eq, eqIgnoreAsciiCase_iff, hversion] at h
      exact .inl ⟨.version, ⟨h.1, congrArg (· :: []) h.2⟩, rfl⟩
    · next h =>
      rw [Bool.and_eq_true, decide_eq_true_eq, eqIgnoreAsciiCase_iff, hversion] at h
      refine .inr ⟨fun place hplace => ?_, rfl⟩
      cases place <;> simp_all [Place.path, Place.rtype, foldLabels]
  · next label zones htake =>
    rw [htake]
    split
    · next h =>
      rw [Bool.and_eq_true, decide_eq_true_eq, eqIgnoreAsciiCase_iff, hzones] at h
      refine .inl ⟨.member (foldCase label), ⟨h.1, ?_⟩, ?_⟩
      · simp [foldLabels, Place.path, h.2]
      · simp [Place.read, changeNode_foldCase]
    · next h =>
      rw [Bool.and_eq_true, decide_eq_true_eq, eqIgnoreAsciiCase_iff, hzones] at h
      refine .inr ⟨fun place hplace => ?_, rfl⟩
      cases place <;> simp_all [Place.path, Place.rtype, foldLabels]
  · next property label zones htake =>
    rw [htake]
    split
    · next h =>
      simp only [Bool.and_eq_true, decide_eq_true_eq, eqIgnoreAsciiCase_iff, hzones, hgroup] at h
      refine .inl ⟨.group (foldCase label), ⟨h.1.1, ?_⟩, ?_⟩
      · simp [foldLabels, Place.path, h.1.2, h.2]
      · simp [Place.read, changeNode_foldCase]
    next hnotGroup =>
    split
    · next h =>
      simp only [Bool.and_eq_true, decide_eq_true_eq, eqIgnoreAsciiCase_iff, hzones, hcoo] at h
      refine .inl ⟨.coo (foldCase label), ⟨h.1.1, ?_⟩, ?_⟩
      · simp [foldLabels, Place.path, h.1.2, h.2]
      · simp [Place.read, changeNode_foldCase]
    · next hnotCoo =>
      simp only [Bool.and_eq_true, decide_eq_true_eq, eqIgnoreAsciiCase_iff, hzones, hgroup] at hnotGroup
      simp only [Bool.and_eq_true, decide_eq_true_eq, eqIgnoreAsciiCase_iff, hzones, hcoo] at hnotCoo
      refine .inr ⟨fun place hplace => ?_, rfl⟩
      cases place <;> simp_all [Place.path, Place.rtype, foldLabels]
  · next hone htwo hthree =>
    refine .inr ⟨fun place hplace => ?_, rfl⟩
    have hlength := congrArg List.length hplace.2
    generalize record.name.labels.take (record.name.labelCount - origin.labelCount) = labels at *
    cases place <;> simp [Place.path, foldLabels] at hlength
    · obtain ⟨a, rfl⟩ := List.length_eq_one_iff.mp hlength
      exact hone a rfl
    · obtain ⟨a, b, rfl⟩ := List.length_eq_two.mp hlength
      exact htwo a b rfl
    · obtain ⟨a, b, c, rfl⟩ := List.length_eq_three.mp hlength
      exact hthree a b c rfl
    · obtain ⟨a, b, c, rfl⟩ := List.length_eq_three.mp hlength
      exact hthree a b c rfl

/-- **A record decodes, or breaks the catalog**, where it is read. -/
theorem Place.read_isOk : (∃ after, place.read reading record = .ok after) ↔ place.Decodes record := by
  cases place <;> simp only [Place.read, Place.Decodes, except_bind_eq_ok]
  all_goals exact ⟨fun ⟨_, value, hvalue, _⟩ => ⟨value, hvalue⟩, fun ⟨value, hvalue⟩ => ⟨_, value, hvalue, rfl⟩⟩

/-! ## A pass over the records -/

theorem rrset_append (more : List ZoneRecord) :
    rrset origin (records ++ more) place = rrset origin records place ++ rrset origin more place :=
  List.filter_append ..

theorem rrset_self (h : AtPlace origin place record) : rrset origin [record] place = [record] := by
  rw [rrset, List.filter_singleton, decide_eq_true h]
  rfl

theorem rrset_other (h : ¬AtPlace origin place record) : rrset origin [record] place = [] := by
  rw [rrset, List.filter_singleton, decide_eq_false h]
  rfl

def Reading.filed (reading : Reading) (label : Octets) : Node := (reading.nodes.get label).getD (Node.new Name.root)

/-- **What a pass over the records leaves**: each RRset, decoded, where it belongs. -/
structure Files (origin : Name) (records : List ZoneRecord) (reading : Reading) : Prop where
  ordered : SortedMap.Ordered reading.nodes
  version : (rrset origin records .version).map text = reading.version.map .ok
  ptr : ∀ label, (rrset origin records (.member label)).map target = (reading.filed label).ptr.map .ok
  groups : ∀ label, (rrset origin records (.group label)).map text = (reading.filed label).groups.map .ok
  coo : ∀ label, (rrset origin records (.coo label)).map target = (reading.filed label).coo.map .ok
  named : ∀ label node, reading.nodes.get label = some node →
    foldLabels node.name.labels = label :: ZONES :: foldLabels origin.labels

theorem files_nil : Files origin [] ⟨[], []⟩ where
  ordered := SortedMap.ordered_nil
  version := rfl
  ptr := fun _ => rfl
  groups := fun _ => rfl
  coo := fun _ => rfl
  named := fun _ _ h => by cases h

variable {name : Name} {change : Node → Node} {label : Octets}

theorem get_changeNode (hordered : SortedMap.Ordered reading.nodes)
    (hlabel : foldCase label = label) (asked : Octets) :
    (reading.changeNode label name change).nodes.get asked =
      if asked = label then some (change ((reading.nodes.get label).getD (Node.new name))) else reading.nodes.get asked := by
  rw [Reading.changeNode, hlabel]
  split
  · grind [SortedMap.get_alter_self]
  · next hne => exact SortedMap.get_alter_ne hne _ _

theorem filed_changeNode {β : Type} (field : Node → β) (hordered : SortedMap.Ordered reading.nodes)
    (hlabel : foldCase label = label)
    (hfield : ∀ node : Node, ∀ other, field (change { node with name := other }) = field (change node))
    (asked : Octets) :
    field ((reading.changeNode label name change).filed asked) =
      if asked = label then field (change (reading.filed label)) else field (reading.filed asked) := by
  rw [Reading.filed, get_changeNode hordered hlabel]
  split
  · rw [Option.getD_some, Reading.filed]
    cases reading.nodes.get label with
    | none => exact hfield (Node.new Name.root) name
    | some node => rfl
  · rfl

theorem AtPlace.label_folded (h : AtPlace origin place record) : foldLabels place.path = place.path := by
  have hname := congrArg foldLabels h.2
  rw [foldLabels_foldLabels, h.2] at hname
  simp only [foldLabels, List.map_append, List.map_map] at hname ⊢
  refine (List.append_cancel_right (hname.trans ?_)).symm
  simp [Function.comp_def]

theorem AtPlace.parent (h : AtPlace origin place record) {property : Octets}
    (hpath : place.path = [property, label, ZONES]) :
    foldLabels (record.name.parent.getD record.name).labels = label :: ZONES :: foldLabels origin.labels := by
  have hname := h.2
  rw [hpath] at hname
  have hroot : record.name.isRoot = false := by
    rw [Bool.eq_false_iff]
    intro hroot
    rw [Name.isRoot_iff] at hroot
    rw [hroot] at hname
    cases hname
  rw [Name.parent, hroot]
  show foldLabels (record.name.dropLabels 1).labels = _
  rw [Name.dropLabels_labels, Name.foldLabels_drop, hname]
  rfl

theorem Files.named_changeNode (h : Files origin records reading) (hlabel : foldCase label = label)
    (hname : foldLabels name.labels = label :: ZONES :: foldLabels origin.labels)
    (hkeeps : ∀ node, (change node).name = node.name) (asked : Octets) (node : Node)
    (hget : (reading.changeNode label name change).nodes.get asked = some node) :
    foldLabels node.name.labels = asked :: ZONES :: foldLabels origin.labels := by
  rw [get_changeNode h.ordered hlabel] at hget
  split at hget
  · next heq =>
    subst heq
    rw [← Option.some.inj hget, hkeeps]
    cases hold : reading.nodes.get asked with
    | none => exact hname
    | some old => exact h.named asked old hold
  · exact h.named asked node hget

theorem Files.read (h : Files origin records reading) (hplace : AtPlace origin place record)
    (hread : place.read reading record = .ok after) : Files origin (records ++ [record]) after := by
  have hfolded := hplace.label_folded
  -- the RRsets at other places do not change
  have hkept : ∀ other, other ≠ place → rrset origin (records ++ [record]) other = rrset origin records other := by
    intro other hne
    rw [rrset_append, rrset_other fun hother => hne (hother.unique hplace), List.append_nil]
  have hgrown : rrset origin (records ++ [record]) place = rrset origin records place ++ [record] := by
    rw [rrset_append, rrset_self hplace]
  cases place with
  | version =>
    obtain ⟨value, hvalue, heq⟩ := except_bind_eq_ok.mp hread
    cases heq
    refine ⟨h.ordered, ?_, fun label => ?_, fun label => ?_, fun label => ?_, h.named⟩
    · rw [hgrown, List.map_append, List.map_append, h.version, List.map_singleton, hvalue]
      rfl
    · rw [hkept _ (by simp)]
      exact h.ptr label
    · rw [hkept _ (by simp)]
      exact h.groups label
    · rw [hkept _ (by simp)]
      exact h.coo label
  | member label =>
    obtain ⟨zone, hzone, heq⟩ := except_bind_eq_ok.mp hread
    cases heq
    have hlabel : foldCase label = label := (List.cons.inj hfolded).1
    refine ⟨h.ordered.alter _ _, ?_, fun asked => ?_, fun asked => ?_, fun asked => ?_,
      h.named_changeNode hlabel hplace.2 fun _ => rfl⟩
    · rw [hkept _ (by simp)]
      exact h.version
    · rw [filed_changeNode Node.ptr h.ordered hlabel fun _ _ => rfl]
      split
      · next heq =>
        subst heq
        simp [hgrown, h.ptr, hzone]
      · next hne =>
        rw [hkept _ (by simpa using hne)]
        exact h.ptr asked
    · rw [filed_changeNode Node.groups h.ordered hlabel fun _ _ => rfl, hkept _ (by simp), h.groups]
      split
      · next heq => rw [heq]
      · rfl
    · rw [filed_changeNode Node.coo h.ordered hlabel fun _ _ => rfl, hkept _ (by simp), h.coo]
      split
      · next heq => rw [heq]
      · rfl
  | group label =>
    obtain ⟨group, hgroup, heq⟩ := except_bind_eq_ok.mp hread
    cases heq
    have hlabel : foldCase label = label := (List.cons.inj (List.cons.inj hfolded).2).1
    refine ⟨h.ordered.alter _ _, ?_, fun asked => ?_, fun asked => ?_, fun asked => ?_,
      h.named_changeNode hlabel (hplace.parent rfl) fun _ => rfl⟩
    · rw [hkept _ (by simp)]
      exact h.version
    · rw [filed_changeNode Node.ptr h.ordered hlabel fun _ _ => rfl, hkept _ (by simp), h.ptr]
      split
      · next heq => rw [heq]
      · rfl
    · rw [filed_changeNode Node.groups h.ordered hlabel fun _ _ => rfl]
      split
      · next heq =>
        subst heq
        simp [hgrown, h.groups, hgroup]
      · next hne =>
        rw [hkept _ (by simpa using hne)]
        exact h.groups asked
    · rw [filed_changeNode Node.coo h.ordered hlabel fun _ _ => rfl, hkept _ (by simp), h.coo]
      split
      · next heq => rw [heq]
      · rfl
  | coo label =>
    obtain ⟨coo, hcoo, heq⟩ := except_bind_eq_ok.mp hread
    cases heq
    have hlabel : foldCase label = label := (List.cons.inj (List.cons.inj hfolded).2).1
    refine ⟨h.ordered.alter _ _, ?_, fun asked => ?_, fun asked => ?_, fun asked => ?_,
      h.named_changeNode hlabel (hplace.parent rfl) fun _ => rfl⟩
    · rw [hkept _ (by simp)]
      exact h.version
    · rw [filed_changeNode Node.ptr h.ordered hlabel fun _ _ => rfl, hkept _ (by simp), h.ptr]
      split
      · next heq => rw [heq]
      · rfl
    · rw [filed_changeNode Node.groups h.ordered hlabel fun _ _ => rfl, hkept _ (by simp), h.groups]
      split
      · next heq => rw [heq]
      · rfl
    · rw [filed_changeNode Node.coo h.ordered hlabel fun _ _ => rfl]
      split
      · next heq =>
        subst heq
        simp [hgrown, h.coo, hcoo]
      · next hne =>
        rw [hkept _ (by simpa using hne)]
        exact h.coo asked

theorem Files.pass (h : Files origin records reading) (hnone : ∀ place, ¬AtPlace origin place record) :
    Files origin (records ++ [record]) reading := by
  have hkept : ∀ place, rrset origin (records ++ [record]) place = rrset origin records place := by
    intro place
    rw [rrset_append, rrset_other (hnone place), List.append_nil]
  refine ⟨h.ordered, ?_, fun label => ?_, fun label => ?_, fun label => ?_, h.named⟩ <;> rw [hkept]
  · exact h.version
  · exact h.ptr label
  · exact h.groups label
  · exact h.coo label

/-- **A pass over records** ends exactly where every record that is read decodes, with each filed. -/
theorem foldlM_readRecord (more : List ZoneRecord) (h : Files origin records reading) :
    ((∃ after, more.foldlM (readRecord origin) reading = .ok after) ↔
        ∀ place, ∀ record ∈ rrset origin more place, place.Decodes record) ∧
      ∀ after, more.foldlM (readRecord origin) reading = .ok after → Files origin (records ++ more) after := by
  induction more generalizing records reading with
  | nil =>
    rw [List.append_nil]
    refine ⟨⟨fun _ _ _ hmem => (by cases hmem), fun _ => ⟨reading, rfl⟩⟩, fun after hafter => ?_⟩
    cases hafter
    exact h
  | cons record rest ih =>
    have hsplit : records ++ record :: rest = (records ++ [record]) ++ rest := by simp
    have hcons : ∀ place, rrset origin (record :: rest) place = rrset origin [record] place ++ rrset origin rest place :=
      fun place => by rw [← rrset_append, List.singleton_append]
    simp only [List.foldlM_cons, hcons, List.mem_append, hsplit]
    rcases readRecord_eq origin reading record with ⟨place, hplace, hread⟩ | ⟨hnone, hread⟩
    · rw [hread]
      constructor
      · constructor
        · rintro ⟨after, hafter⟩ other found hfound
          obtain ⟨next, hnext, hrest⟩ := except_bind_eq_ok.mp hafter
          rcases hfound with hfound | hfound
          · obtain ⟨hmem, hat⟩ := List.mem_filter.mp hfound
            rw [List.mem_singleton.mp hmem] at hat ⊢
            rw [(of_decide_eq_true hat).unique hplace]
            exact Place.read_isOk.mp ⟨next, hnext⟩
          · exact (ih (h.read hplace hnext)).1.mp ⟨after, hrest⟩ other found hfound
        · intro hall
          have hself := hall place record (.inl (by rw [rrset_self hplace]; exact List.mem_singleton_self record))
          obtain ⟨next, hnext⟩ := Place.read_isOk.mpr hself
          obtain ⟨after, hafter⟩ := (ih (h.read hplace hnext)).1.mpr fun other found hfound => hall other found (.inr hfound)
          exact ⟨after, except_bind_eq_ok.mpr ⟨next, hnext, hafter⟩⟩
      · intro after hafter
        obtain ⟨next, hnext, hrest⟩ := except_bind_eq_ok.mp hafter
        exact (ih (h.read hplace hnext)).2 after hrest
    · rw [hread]
      have hempty : ∀ place, rrset origin [record] place = [] := fun place => rrset_other (hnone place)
      simp only [hempty, List.not_mem_nil, false_or]
      exact ih (h.pass hnone)

end Reading

/-! ## The nodes and their members -/

section Members

variable {nodes : List Node} {node : Node} {members after : List CatalogMember} {member : CatalogMember}

def Node.Single (node : Node) : Prop := node.ptr.length ≤ 1 ∧ (node.ptr ≠ [] → node.coo.length ≤ 1)

def Node.made (node : Node) : Option CatalogMember :=
  node.ptr.head?.map fun zone => ⟨node.name, zone, node.groups, node.coo.head?⟩

theorem intoMember_isOk : (∃ made, node.intoMember = .ok made) ↔ node.Single := by
  unfold Node.intoMember Node.Single
  split
  · next hptr => simp [hptr]
  · next zone hptr =>
    rw [hptr]
    split
    · next hcoo => simp [hcoo]
    · next coo hcoo => simp [hcoo]
    · next hnil hone =>
      refine ⟨fun ⟨_, h⟩ => (by cases h), fun h => ?_⟩
      have hle := h.2 (List.cons_ne_nil _ _)
      rcases hcoo : node.coo with _ | ⟨first, _ | ⟨second, rest⟩⟩
      · exact absurd hcoo hnil
      · exact absurd hcoo (hone first)
      · simp [hcoo] at hle
  · next hnil hone =>
    refine ⟨fun ⟨_, h⟩ => (by cases h), fun h => ?_⟩
    have hle := h.1
    rcases hptr : node.ptr with _ | ⟨first, _ | ⟨second, rest⟩⟩
    · exact absurd hptr hnil
    · exact absurd hptr (hone first)
    · simp [hptr] at hle

theorem intoMember_of_single (h : node.Single) : node.intoMember = .ok node.made := by
  obtain ⟨hptr, hcoo⟩ := h
  rw [Node.intoMember, Node.made]
  rcases hp : node.ptr with _ | ⟨zone, _ | ⟨second, rest⟩⟩
  · rfl
  · have hle := hcoo (by simp [hp])
    rcases hc : node.coo with _ | ⟨coo, _ | ⟨second, rest⟩⟩
    · rfl
    · rfl
    · simp [hc] at hle
  · simp [hp] at hptr

def Distinct (members : List CatalogMember) : Prop := members.Pairwise fun a b => a.zone.same b.zone = false

theorem takeMember_eq_ok : takeMember members node = .ok after ↔
    node.Single ∧ (∀ first ∈ members, ∀ made ∈ node.made, first.zone.same made.zone = false) ∧
      after = members ++ node.made.toList := by
  by_cases hsingle : node.Single
  · rw [takeMember, intoMember_of_single hsingle]
    cases hmade : node.made with
    | none => simpa [hsingle] using eq_comm
    | some made =>
      simp only [hsingle, true_and, Option.mem_some_iff, forall_eq', Option.toList_some]
      split
      · next first hfirst =>
        have hsame := List.find?_some hfirst
        refine ⟨fun h => (by cases h), fun h => ?_⟩
        rw [h.1 first (List.mem_of_find?_eq_some hfirst)] at hsame
        cases hsame
      · next hnone =>
        rw [List.find?_eq_none] at hnone
        refine ⟨fun h => ⟨fun first hfirst => Bool.eq_false_iff.mpr (hnone first hfirst), ?_⟩, fun h => ?_⟩
        · exact (Except.ok.inj h).symm
        · rw [h.2]
  · grind [takeMember, intoMember_isOk]

/-- **Which nodes make members**: each is single, and no two name one zone. -/
theorem takeMembers_iff (hbefore : Distinct members) : nodes.foldlM takeMember members = .ok after ↔
    (∀ node ∈ nodes, node.Single) ∧ Distinct (members ++ nodes.filterMap Node.made) ∧
      after = members ++ nodes.filterMap Node.made := by
  induction nodes generalizing members with
  | nil =>
    rw [List.filterMap_nil, List.append_nil]
    exact ⟨fun h => ⟨fun _ hmem => (by cases hmem), hbefore, (Except.ok.inj h).symm⟩, fun h => by rw [h.2.2]; rfl⟩
  | cons node rest ih =>
    have hsplit : (node :: rest).filterMap Node.made = node.made.toList ++ rest.filterMap Node.made := by
      rw [List.filterMap_cons]
      cases node.made <;> rfl
    -- the members so far with the node's own are distinct where its zone is new
    have hgrown : Distinct (members ++ node.made.toList) ↔
        ∀ first ∈ members, ∀ made ∈ node.made, first.zone.same made.zone = false := by
      rw [Distinct, List.pairwise_append]
      refine ⟨fun h first hfirst made hmade => h.2.2 first hfirst made (Option.mem_toList.mpr hmade), fun h => ?_⟩
      refine ⟨hbefore, ?_, fun first hfirst made hmade => h first hfirst made (Option.mem_toList.mp hmade)⟩
      cases node.made with
      | none => exact List.Pairwise.nil
      | some made => exact List.pairwise_singleton _ _
    rw [List.foldlM_cons, hsplit, ← List.append_assoc, except_bind_eq_ok]
    constructor
    · rintro ⟨next, hnext, hrest⟩
      obtain ⟨hsingle, hnew, rfl⟩ := takeMember_eq_ok.mp hnext
      obtain ⟨hall, hdistinct, heq⟩ := (ih (hgrown.mpr hnew)).mp hrest
      exact ⟨List.forall_mem_cons.mpr ⟨hsingle, hall⟩, hdistinct, heq⟩
    · rintro ⟨hall, hdistinct, heq⟩
      obtain ⟨hsingle, hrest⟩ := List.forall_mem_cons.mp hall
      have hnext : Distinct (members ++ node.made.toList) := (List.pairwise_append.mp hdistinct).1
      exact ⟨_, takeMember_eq_ok.mpr ⟨hsingle, hgrown.mp hnext, rfl⟩, (ih hnext).mpr ⟨hrest, hdistinct, heq⟩⟩

end Members

/-! ## The catalog -/

section Catalog

variable {zone other : Zone} {reading : Reading} {catalog : Catalog} {label : Octets} {node : Node}

theorem checkVersion_eq_ok {values : List Octets} : checkVersion values = .ok () ↔ values = [SCHEMA_VERSION] := by
  unfold checkVersion
  split
  · simp
  · next only => by_cases h : only = SCHEMA_VERSION <;> simp [h]
  · grind

section

variable (h : Files zone.origin zone.records reading)
include h

theorem Files.mem_nodes (hmem : (label, node) ∈ reading.nodes) : reading.filed label = node := by
  rw [Reading.filed, (SortedMap.mem_iff_get h.ordered).mp hmem, Option.getD_some]

theorem Files.mem_of_filed (hptr : (reading.filed label).ptr ≠ []) :
    (label, reading.filed label) ∈ reading.nodes := by
  rw [SortedMap.mem_iff_get h.ordered, Reading.filed]
  rw [Reading.filed] at hptr
  cases hget : reading.nodes.get label with
  | none =>
    rw [hget] at hptr
    exact absurd rfl hptr
  | some node => rfl

theorem Files.length_ptr :
    (rrset zone.origin zone.records (.member label)).length = (reading.filed label).ptr.length := by
  simpa using congrArg List.length (h.ptr label)

theorem Files.length_coo :
    (rrset zone.origin zone.records (.coo label)).length = (reading.filed label).coo.length := by
  simpa using congrArg List.length (h.coo label)

theorem Files.ptr_eq_nil :
    (reading.filed label).ptr = [] ↔ rrset zone.origin zone.records (.member label) = [] := by
  rw [← List.length_eq_zero_iff, ← h.length_ptr, List.length_eq_zero_iff]

theorem Files.version_iff : checkVersion reading.version = .ok () ↔
    ∃ record, rrset zone.origin zone.records .version = [record] ∧ text record = .ok SCHEMA_VERSION := by
  rw [checkVersion_eq_ok]
  have hversion := h.version
  constructor
  · intro heq
    rw [heq, List.map_singleton] at hversion
    obtain ⟨record, hrrset, htext⟩ := List.map_eq_singleton_iff.mp hversion
    exact ⟨record, hrrset, htext⟩
  · rintro ⟨record, hrrset, htext⟩
    rw [hrrset, List.map_singleton, htext] at hversion
    obtain ⟨value, hvalue, heq⟩ := List.map_eq_singleton_iff.mp hversion.symm
    rw [hvalue, Except.ok.inj heq]

theorem Files.single_iff :
    (∀ node ∈ reading.nodes.map Prod.snd, node.Single) ↔
      (∀ label, (rrset zone.origin zone.records (.member label)).length ≤ 1) ∧
        ∀ label, rrset zone.origin zone.records (.member label) ≠ [] →
          (rrset zone.origin zone.records (.coo label)).length ≤ 1 := by
  simp only [h.length_ptr, h.length_coo, ← h.ptr_eq_nil, Ne]
  constructor
  · intro hall
    have hat : ∀ label, (reading.filed label).ptr ≠ [] → (reading.filed label).Single := fun label hptr =>
      hall _ (List.mem_map_of_mem (h.mem_of_filed hptr))
    refine ⟨fun label => ?_, fun label hptr => (hat label hptr).2 hptr⟩
    by_cases hptr : (reading.filed label).ptr = []
    · rw [hptr]
      exact Nat.zero_le _
    · exact (hat label hptr).1
  · rintro ⟨hptr, hcoo⟩ node hnode
    obtain ⟨⟨label, node⟩, hmem, rfl⟩ := List.mem_map.mp hnode
    have heq := h.mem_nodes hmem
    exact ⟨heq ▸ hptr label, fun hne => heq ▸ hcoo label (heq ▸ hne)⟩

theorem Files.of_made {member : CatalogMember} (hmade : (reading.filed label).made = some member) :
    ∃ record ∈ rrset zone.origin zone.records (.member label), target record = .ok member.zone := by
  obtain ⟨name, hname, rfl⟩ := Option.map_eq_some_iff.mp hmade
  have hmem : Except.ok name ∈ (rrset zone.origin zone.records (.member label)).map target := by
    rw [h.ptr label]
    exact List.mem_map_of_mem (List.mem_of_head? hname)
  obtain ⟨record, hrecord, htarget⟩ := List.mem_map.mp hmem
  exact ⟨record, hrecord, htarget⟩

theorem Files.distinct_iff (hsingle : ∀ node ∈ reading.nodes.map Prod.snd, node.Single) :
    Distinct ((reading.nodes.map Prod.snd).filterMap Node.made) ↔
      ∀ label other, label ≠ other → ∀ a ∈ rrset zone.origin zone.records (.member label),
        ∀ b ∈ rrset zone.origin zone.records (.member other), ∀ x y, target a = .ok x → target b = .ok y →
          x.same y = false := by
  rw [Distinct, List.pairwise_filterMap, List.pairwise_map]
  constructor
  · intro hpairs label other hne a ha b hb x y hx hy
    -- each target is the one of its label's member
    have hmade : ∀ label, ∀ a ∈ rrset zone.origin zone.records (.member label), ∀ x, target a = .ok x →
        (label, reading.filed label) ∈ reading.nodes ∧
          ∃ member, (reading.filed label).made = some member ∧ member.zone = x := by
      intro label a ha x hx
      have hmem : Except.ok x ∈ (reading.filed label).ptr.map (Except.ok : Name → Except BrokenCatalog Name) := by
        rw [← h.ptr label, ← hx]
        exact List.mem_map_of_mem ha
      obtain ⟨found, hfound, heq⟩ := List.mem_map.mp hmem
      cases heq
      have hnode := h.mem_of_filed (List.ne_nil_of_mem hfound)
      have hle := (hsingle _ (List.mem_map_of_mem hnode)).1
      refine ⟨hnode, ⟨(reading.filed label).name, x, (reading.filed label).groups, (reading.filed label).coo.head?⟩, ?_, rfl⟩
      rcases hptr : (reading.filed label).ptr with _ | ⟨first, _ | ⟨second, rest⟩⟩
      · rw [hptr] at hfound
        cases hfound
      · grind [Node.made]
      · simp [hptr] at hle
    obtain ⟨hnode, member, hmember, rfl⟩ := hmade label a ha x hx
    obtain ⟨hotherNode, otherMember, hotherMember, rfl⟩ := hmade other b hb y hy
    have hsymm : Std.Symm fun a b : Octets × Node =>
        ∀ m, a.2.made = some m → ∀ m', b.2.made = some m' → m.zone.same m'.zone = false := by
      constructor
      intro a b hab m hm m' hm'
      have hfalse := hab m' hm' m hm
      rw [Bool.eq_false_iff] at hfalse ⊢
      exact fun hsame => hfalse (Name.same_iff.mpr (Name.same_iff.mp hsame).symm)
    exact hpairs.forall hnode hotherNode (fun heq => hne (congrArg Prod.fst heq)) member hmember otherMember hotherMember
  · intro hall
    refine h.ordered.imp_of_mem fun {a b} ha hb hlt m hm m' hm' => ?_
    rw [← h.mem_nodes ha] at hm
    rw [← h.mem_nodes hb] at hm'
    obtain ⟨record, hrecord, htarget⟩ := h.of_made hm
    obtain ⟨record', hrecord', htarget'⟩ := h.of_made hm'
    exact hall a.1 b.1 (ne_of_lt hlt) record hrecord record' hrecord' _ _ htarget htarget'

theorem Files.memberAt (hmem : (label, node) ∈ reading.nodes) (hsingle : node.Single)
    {member : CatalogMember} (hmade : node.made = some member) : MemberAt zone label member := by
  obtain ⟨name, hname, rfl⟩ := Option.map_eq_some_iff.mp hmade
  have hfiled := h.mem_nodes hmem
  have hptr : node.ptr = [name] := by
    have hle := hsingle.1
    rcases hp : node.ptr with _ | ⟨first, _ | ⟨second, rest⟩⟩
    · rw [hp] at hname
      cases hname
    · rw [hp] at hname
      rw [Option.some.inj hname]
    · simp [hp] at hle
  have hcoo : node.coo = node.coo.head?.toList := by
    have hle := hsingle.2 (by simp [hptr])
    rcases hc : node.coo with _ | ⟨first, _ | ⟨second, rest⟩⟩
    · rfl
    · rfl
    · simp [hc] at hle
  constructor
  · exact h.named label node ((SortedMap.mem_iff_get h.ordered).mp hmem)
  · rw [h.ptr label, hfiled, hptr]
    rfl
  · rw [h.groups label, hfiled]
  · rw [h.coo label, hfiled, hcoo]
    cases node.coo.head? <;> rfl

theorem Files.lists (hsingle : ∀ node ∈ reading.nodes.map Prod.snd, node.Single) :
    Lists zone ((reading.nodes.map Prod.snd).filterMap Node.made) := by
  refine ⟨(reading.nodes.filter fun entry => entry.2.made.isSome).map Prod.fst, ?_, fun label => ?_, ?_⟩
  · rw [List.pairwise_map]
    exact h.ordered.filter _
  · rw [Ne, ← h.ptr_eq_nil]
    constructor
    · intro hlabel hptr
      obtain ⟨⟨label, node⟩, hentry, rfl⟩ := List.mem_map.mp hlabel
      obtain ⟨hmem, hsome⟩ := List.mem_filter.mp hentry
      rw [h.mem_nodes hmem] at hptr
      rw [Node.made, hptr] at hsome
      cases hsome
    · intro hptr
      refine List.mem_map.mpr ⟨(label, reading.filed label), List.mem_filter.mpr ⟨h.mem_of_filed hptr, ?_⟩, rfl⟩
      obtain ⟨first, rest, hcons⟩ := List.exists_cons_of_ne_nil hptr
      rw [Node.made, hcons]
      rfl
  · have hrun : ∀ entries : List (Octets × Node), (∀ entry ∈ entries, entry ∈ reading.nodes) →
        List.Forall₂ (MemberAt zone) ((entries.filter fun entry => entry.2.made.isSome).map Prod.fst)
          ((entries.map Prod.snd).filterMap Node.made) := by
      intro entries
      induction entries with
      | nil => exact fun _ => .nil
      | cons entry rest ih =>
        intro hall
        obtain ⟨hentry, hrest⟩ := List.forall_mem_cons.mp hall
        rw [List.filter_cons, List.map_cons, List.filterMap_cons]
        cases hmade : entry.2.made with
        | none => exact ih hrest
        | some member =>
          exact .cons (h.memberAt hentry (hsingle _ (List.mem_map_of_mem hentry)) hmade) (ih hrest)
    exact hrun reading.nodes fun _ hmem => hmem

end

theorem fromZone_spec (zone : Zone) :
    ((∃ catalog, Catalog.fromZone zone = .ok catalog) ↔ IsCatalog zone) ∧
      ∀ catalog, Catalog.fromZone zone = .ok catalog → Lists zone catalog.members := by
  have hstart : Files zone.origin [] ⟨[], []⟩ := files_nil
  obtain ⟨hruns, hfiles⟩ := foldlM_readRecord zone.records hstart
  have hsuccess : ∀ catalog, Catalog.fromZone zone = .ok catalog ↔
      ∃ reading, zone.records.foldlM (readRecord zone.origin) ⟨[], []⟩ = .ok reading ∧
        checkVersion reading.version = .ok () ∧
          (reading.nodes.map Prod.snd).foldlM takeMember [] = .ok catalog.members := by
    intro catalog
    simp only [Catalog.fromZone, except_bind_eq_ok]
    constructor
    · rintro ⟨reading, hreading, _, hversion, members, hmembers, heq⟩
      cases heq
      exact ⟨reading, hreading, hversion, hmembers⟩
    · rintro ⟨reading, hreading, hversion, hmembers⟩
      exact ⟨reading, hreading, (), hversion, catalog.members, hmembers, rfl⟩
  constructor
  · constructor
    · rintro ⟨catalog, hcatalog⟩
      obtain ⟨reading, hreading, hversion, hmembers⟩ := (hsuccess catalog).mp hcatalog
      have h : Files zone.origin zone.records reading := hfiles reading hreading
      obtain ⟨hsingle, hdistinct, -⟩ := (takeMembers_iff List.Pairwise.nil).mp hmembers
      obtain ⟨hptr, hcoo⟩ := h.single_iff.mp hsingle
      exact ⟨hruns.mp ⟨reading, hreading⟩, h.version_iff.mp hversion, hptr, hcoo, (h.distinct_iff hsingle).mp hdistinct⟩
    · intro hzone
      obtain ⟨reading, hreading⟩ := hruns.mpr hzone.decodes
      have h : Files zone.origin zone.records reading := hfiles reading hreading
      have hsingle := h.single_iff.mpr ⟨hzone.member, hzone.coo⟩
      have hmembers := (takeMembers_iff List.Pairwise.nil).mpr ⟨hsingle, (h.distinct_iff hsingle).mpr hzone.distinct, rfl⟩
      exact ⟨⟨_⟩, (hsuccess _).mpr ⟨reading, hreading, h.version_iff.mpr hzone.version, hmembers⟩⟩
  · intro catalog hcatalog
    obtain ⟨reading, hreading, -, hmembers⟩ := (hsuccess catalog).mp hcatalog
    have h : Files zone.origin zone.records reading := hfiles reading hreading
    obtain ⟨hsingle, -, heq⟩ := (takeMembers_iff List.Pairwise.nil).mp hmembers
    rw [heq]
    exact h.lists hsingle

/-! ## In another order -/

theorem rrset_perm {records others : List ZoneRecord} (hperm : records.Perm others) (place : Place) :
    (rrset zone.origin records place).Perm (rrset zone.origin others place) :=
  hperm.filter _

theorem IsCatalog.perm (h : IsCatalog zone) (horigin : other.origin = zone.origin) (hperm : zone.records.Perm other.records) :
    IsCatalog other := by
  have hrrset : ∀ place, (rrset zone.origin zone.records place).Perm (rrset other.origin other.records place) := by
    rw [horigin]
    exact rrset_perm hperm
  constructor
  · exact fun place record hrecord => h.decodes place record ((hrrset place).mem_iff.mpr hrecord)
  · obtain ⟨record, hsingle, hvalue⟩ := h.version
    exact ⟨record, List.perm_singleton.mp (hsingle ▸ (hrrset .version).symm), hvalue⟩
  · exact fun label => (hrrset (.member label)).length_eq ▸ h.member label
  · intro label hne
    rw [← (hrrset (.coo label)).length_eq]
    refine h.coo label fun hnil => hne ?_
    exact List.nil_perm.mp (hnil ▸ hrrset (.member label))
  · intro label next hne a ha b hb
    exact h.distinct label next hne a ((hrrset _).mem_iff.mpr ha) b ((hrrset _).mem_iff.mpr hb)

theorem MemberAt.same {member found : CatalogMember} (h : MemberAt zone label member) (hother : MemberAt other label found)
    (horigin : other.origin = zone.origin) (hperm : zone.records.Perm other.records) : SameMember member found := by
  have hrrset : ∀ place, (rrset zone.origin zone.records place).Perm (rrset other.origin other.records place) := by
    rw [horigin]
    exact rrset_perm hperm
  have hok : ∀ {α : Type} {xs ys : List α}, (xs.map (Except.ok : α → Except BrokenCatalog α)).Perm (ys.map Except.ok) →
      xs.Perm ys := by
    intro α xs ys hmapped
    exact (List.map_perm_map_iff fun _ _ h => Except.ok.inj h).mp hmapped
  constructor
  · rw [Name.same_iff_foldLabels, h.node, hother.node, horigin]
  · have hptr := (hrrset (.member label)).map target
    rw [h.ptr, hother.ptr] at hptr
    exact Except.ok.inj (List.singleton_perm_singleton.mp hptr)
  · have hgroups := (hrrset (.group label)).map text
    rw [h.groups, hother.groups] at hgroups
    exact hok hgroups
  · have hcoo := (hrrset (.coo label)).map target
    rw [h.coo, hother.coo] at hcoo
    have hlist := hok hcoo
    cases hc : member.coo <;> cases hf : found.coo <;> simp_all

theorem same_of_lists {labels : List Octets} {members found : List CatalogMember}
    (h : List.Forall₂ (MemberAt zone) labels members) (hother : List.Forall₂ (MemberAt other) labels found)
    (horigin : other.origin = zone.origin) (hperm : zone.records.Perm other.records) :
    List.Forall₂ SameMember members found := by
  induction h generalizing found with
  | nil =>
    cases hother
    exact .nil
  | cons hmember _ ih =>
    cases hother with
    | cons hfound hrest => exact .cons (hmember.same hfound horigin hperm) (ih hrest)

/-- **A catalog depends on its record set only.** It is read exactly when there is a single version
record, whose value is 2, when each label with a PTR record has one of them and one `coo` record at
most, when no two labels name the same zone, and when every record that is read decodes. Its members
are then one for each such label; and in any other order of the records they are the same. -/
theorem fromZone_iff (zone : Zone) :
    ((∃ catalog, Catalog.fromZone zone = .ok catalog) ↔ IsCatalog zone) ∧
      (∀ catalog, Catalog.fromZone zone = .ok catalog → Lists zone catalog.members) ∧
      ∀ other : Zone, other.origin = zone.origin → zone.records.Perm other.records →
        ((∃ catalog, Catalog.fromZone other = .ok catalog) ↔ ∃ catalog, Catalog.fromZone zone = .ok catalog) ∧
          ∀ catalog found, Catalog.fromZone zone = .ok catalog → Catalog.fromZone other = .ok found →
            List.Forall₂ SameMember catalog.members found.members := by
  refine ⟨(fromZone_spec zone).1, (fromZone_spec zone).2, fun other horigin hperm => ⟨?_, ?_⟩⟩
  · rw [(fromZone_spec other).1, (fromZone_spec zone).1]
    exact ⟨fun h => h.perm horigin.symm hperm.symm, fun h => h.perm horigin hperm⟩
  · intro catalog found hcatalog hfound
    obtain ⟨labels, hsorted, hlabels, hmembers⟩ := (fromZone_spec zone).2 catalog hcatalog
    obtain ⟨others, hsorted', hothers, hfounds⟩ := (fromZone_spec other).2 found hfound
    have heq : labels = others := by
      refine hsorted.eq_of_mem_iff hsorted' fun label => ?_
      rw [hlabels, hothers, horigin, Ne, Ne, ← List.length_eq_zero_iff, ← List.length_eq_zero_iff,
        (rrset_perm hperm (.member label)).length_eq]
    subst heq
    exact same_of_lists hmembers hfounds horigin hperm

end Catalog

end Rdns.Catalogs
