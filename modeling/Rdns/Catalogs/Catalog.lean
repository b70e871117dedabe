import Rdns.Lib.SortedMap
import Rdns.Zones.Zone

/-!
# Rdns — Reading a catalog zone

`Catalog::from_zone` of `rdns/src/catalog.rs` (RFC 9432): the members a zone lists, or why it
is no catalog. Making a catalog is left out.

Main result: `member_of_mem` — no two members of a catalog name one zone.
-/

namespace Rdns.Catalogs

open Rdns.Lib Rdns.Core Rdns.Zones RecordTypes

/-! ## Members -/

def SCHEMA_VERSION : Octets := [50]
def ZONES : Octets := [122, 111, 110, 101, 115]
def VERSION : Octets := [118, 101, 114, 115, 105, 111, 110]
def COO : Octets := [99, 111, 111]
def GROUP : Octets := [103, 114, 111, 117, 112]

structure CatalogMember where
  node : Name
  zone : Name
  groups : List Octets
  coo : Option Name

def CatalogMember.id (member : CatalogMember) : Octets := member.node.labels.head?.getD []

structure Catalog where
  members : List CatalogMember

def Catalog.member (catalog : Catalog) (zone : Name) : Option CatalogMember :=
  catalog.members.find? fun member => member.zone.same zone

inductive BrokenCatalog where
  | noVersion
  | versionRrset (records : Nat)
  | version (value : Octets)
  | memberRrset (node : Name) (records : Nat)
  | duplicateMember (zone first second : Name)
  | cooRrset (node : Name) (records : Nat)
  | undecodable (name : Name) (source : WireError)

/-- The catalog a member node belongs to: `<unique-N>.zones.$CATZ` less its two leading labels. -/
def catalogOf (node : Name) : Name := node.suffix (node.labelCount - 2)

/-! ## Reading -/

structure Node where
  name : Name
  ptr : List Name
  groups : List Octets
  coo : List Name

def Node.new (name : Name) : Node := ⟨name, [], [], []⟩

def target (record : ZoneRecord) : Except BrokenCatalog Name :=
  match record.rdata.parse with
  | .ok (.ptr name) => .ok name
  | .ok _ => .error (.undecodable record.name (.malformed "PTR" "the RDATA is not a domain name"))
  | .error source => .error (.undecodable record.name source)

def text (record : ZoneRecord) : Except BrokenCatalog Octets :=
  match record.rdata.parse with
  | .ok (.txt strings) => .ok strings.flatten
  | .ok _ => .error (.undecodable record.name (.malformed "TXT" "the RDATA is not character-strings"))
  | .error source => .error (.undecodable record.name source)

/-- The version values and the member nodes read so far, the nodes by their folded label. -/
structure Reading where
  version : List Octets
  nodes : SortedMap Octets Node

def Reading.changeNode (reading : Reading) (label : Octets) (name : Name) (change : Node → Node) : Reading :=
  { reading with nodes := reading.nodes.alter (foldCase label) fun node => change (node.getD (Node.new name)) }

def readRecord (origin : Name) (reading : Reading) (record : ZoneRecord) : Except BrokenCatalog Reading :=
  if !record.name.isAtOrUnder origin then .ok reading
  else match record.name.labels.take (record.name.labelCount - origin.labelCount) with
    | [first] =>
      if record.rtype = TXT && eqIgnoreAsciiCase first VERSION then do
        let value ← text record
        return { reading with version := reading.version ++ [value] }
      else .ok reading
    | [label, zones] =>
      if record.rtype = PTR && eqIgnoreAsciiCase zones ZONES then do
        let zone ← target record
        return reading.changeNode label record.name fun node => { node with ptr := node.ptr ++ [zone] }
      else .ok reading
    | [property, label, zones] =>
      let name := record.name.parent.getD record.name
      if record.rtype = TXT && eqIgnoreAsciiCase zones ZONES && eqIgnoreAsciiCase property GROUP then do
        let group ← text record
        return reading.changeNode label name fun node => { node with groups := node.groups ++ [group] }
      else if record.rtype = PTR && eqIgnoreAsciiCase zones ZONES && eqIgnoreAsciiCase property COO then do
        let coo ← target record
        return reading.changeNode label name fun node => { node with coo := node.coo ++ [coo] }
      else .ok reading
    | _ => .ok reading

/-- RFC 9432 §4.2.1's four conditions, in its order. -/
def checkVersion : List Octets → Except BrokenCatalog Unit
  | [] => .error .noVersion
  | [only] => if only = SCHEMA_VERSION then .ok () else .error (.version only)
  | several => .error (.versionRrset several.length)

def Node.intoMember (node : Node) : Except BrokenCatalog (Option CatalogMember) :=
  match node.ptr with
  | [] => .ok none
  | [zone] =>
    match node.coo with
    | [] => .ok (some ⟨node.name, zone, node.groups, none⟩)
    | [coo] => .ok (some ⟨node.name, zone, node.groups, some coo⟩)
    | several => .error (.cooRrset node.name several.length)
  | several => .error (.memberRrset node.name several.length)

def takeMember (members : List CatalogMember) (node : Node) : Except BrokenCatalog (List CatalogMember) :=
  match node.intoMember with
  | .error e => .error e
  | .ok none => .ok members
  | .ok (some member) =>
    match members.find? fun first => first.zone.same member.zone with
    | some first => .error (.duplicateMember member.zone first.node member.node)
    | none => .ok (members ++ [member])

def Catalog.fromZone (zone : Zone) : Except BrokenCatalog Catalog := do
  let reading ← zone.records.foldlM (readRecord zone.origin) ⟨[], []⟩
  checkVersion reading.version
  let members ← (reading.nodes.map Prod.snd).foldlM takeMember []
  return ⟨members⟩

/-! ## What is read -/

def IsNode (origin name : Name) : Prop :=
  name.labelCount = origin.labelCount + 2 ∧ foldLabels origin.labels <:+ foldLabels name.labels

def Reading.Named (origin : Name) (reading : Reading) : Prop := ∀ entry ∈ reading.nodes, IsNode origin entry.2.name

variable {origin : Name}

theorem Reading.Named.changeNode {reading : Reading} (h : reading.Named origin) {label : Octets}
    {name : Name} (hname : IsNode origin name) {change : Node → Node}
    (hchange : ∀ node, (change node).name = node.name) :
    (reading.changeNode label name change).Named origin := by
  intro entry hentry
  rcases SortedMap.of_mem_alter hentry with hentry | ⟨node, heq, hmem⟩
  · exact h entry hentry
  · rw [heq, hchange]
    cases node with
    | none => exact hname
    | some n => exact h _ (hmem n rfl)

theorem readRecord_named {reading after : Reading} (h : reading.Named origin) {record : ZoneRecord}
    (hread : readRecord origin reading record = .ok after) : after.Named origin := by
  rw [readRecord] at hread
  split at hread
  · cases hread
    exact h
  · rename_i hunder
    have hsuffix : foldLabels origin.labels <:+ foldLabels record.name.labels := by
      rw [← Name.isAtOrUnder_iff]
      simpa using hunder
    have hle : origin.labelCount ≤ record.name.labelCount := by
      have hlength := hsuffix.length_le
      rwa [foldLabels, foldLabels, List.length_map, List.length_map] at hlength
    split at hread
    · split at hread
      · obtain ⟨value, -, hread⟩ := except_bind_eq_ok.mp hread
        cases hread
        exact h
      · cases hread
        exact h
    · rename_i label zones htake
      split at hread
      · obtain ⟨zone, -, hread⟩ := except_bind_eq_ok.mp hread
        cases hread
        refine h.changeNode ⟨?_, hsuffix⟩ fun _ => rfl
        have hlength := congrArg List.length htake
        rw [List.length_take] at hlength
        simp only [List.length_cons, List.length_nil, Name.labelCount] at hlength hle ⊢
        omega
      · cases hread
        exact h
    · rename_i property label zones htake
      have hparent : IsNode origin (record.name.parent.getD record.name) := by
        have hlength := congrArg List.length htake
        rw [List.length_take] at hlength
        simp only [List.length_cons, List.length_nil, Name.labelCount] at hlength hle
        have hne : record.name.isRoot = false := by
          rw [Bool.eq_false_iff]
          intro hroot
          rw [Name.isRoot_iff] at hroot
          rw [hroot, List.length_nil] at hlength
          omega
        rw [Name.parent, hne]
        show IsNode origin (record.name.dropLabels 1)
        constructor
        · rw [Name.labelCount, Name.labelCount, Name.dropLabels_labels, List.length_drop]
          omega
        · rw [Name.dropLabels_labels, Name.foldLabels_drop]
          obtain ⟨front, hfront⟩ := hsuffix
          rw [← hfront]
          have hfrontLength := congrArg List.length hfront
          simp only [foldLabels, List.length_append, List.length_map] at hfrontLength
          cases front with
          | nil => grind
          | cons first front => exact List.suffix_append front _
      split at hread
      · obtain ⟨group, -, hread⟩ := except_bind_eq_ok.mp hread
        cases hread
        exact h.changeNode hparent fun _ => rfl
      · split at hread
        · obtain ⟨coo, -, hread⟩ := except_bind_eq_ok.mp hread
          cases hread
          exact h.changeNode hparent fun _ => rfl
        · cases hread
          exact h
    · cases hread
      exact h

structure Members (origin : Name) (members : List CatalogMember) : Prop where
  distinct : members.Pairwise fun a b => a.zone.same b.zone = false
  named : ∀ member ∈ members, IsNode origin member.node

theorem intoMember_node {node : Node} {member : CatalogMember} (h : node.intoMember = .ok (some member)) :
    member.node = node.name := by
  rw [Node.intoMember] at h
  split at h
  · cases h
  · grind
  · cases h

theorem takeMember_members {members after : List CatalogMember} (h : Members origin members)
    {node : Node} (hnode : IsNode origin node.name) (htake : takeMember members node = .ok after) :
    Members origin after := by
  rw [takeMember] at htake
  split at htake
  · cases htake
  · cases htake
    exact h
  · rename_i member hmember
    split at htake
    · cases htake
    · rename_i hnone
      cases htake
      rw [List.find?_eq_none] at hnone
      constructor
      · rw [List.pairwise_append]
        refine ⟨h.distinct, List.pairwise_singleton _ _, ?_⟩
        intro first hfirst other hother
        rw [List.mem_singleton] at hother
        subst hother
        exact Bool.eq_false_iff.mpr (hnone first hfirst)
      · intro other hother
        rcases List.mem_append.mp hother with hother | hother
        · exact h.named other hother
        · grind [intoMember_node]

theorem members_of_fromZone {zone : Zone} {catalog : Catalog} (h : Catalog.fromZone zone = .ok catalog) :
    Members zone.origin catalog.members := by
  rw [Catalog.fromZone] at h
  obtain ⟨reading, hreading, h⟩ := except_bind_eq_ok.mp h
  obtain ⟨-, -, h⟩ := except_bind_eq_ok.mp h
  obtain ⟨members, hmembers, h⟩ := except_bind_eq_ok.mp h
  cases h
  have hnamed : reading.Named zone.origin := by
    have hrun : ∀ (records : List ZoneRecord) (before : Reading), before.Named zone.origin →
        records.foldlM (readRecord zone.origin) before = .ok reading → reading.Named zone.origin := by
      intro records
      induction records with
      | nil =>
        intro before hbefore hrun
        cases hrun
        exact hbefore
      | cons record rest ih =>
        intro before hbefore hrun
        rw [List.foldlM_cons] at hrun
        obtain ⟨next, hnext, hrun⟩ := except_bind_eq_ok.mp hrun
        exact ih next (readRecord_named hbefore hnext) hrun
    refine hrun _ ⟨[], []⟩ ?_ hreading
    intro entry hentry
    cases hentry
  have hrun : ∀ (nodes : List Node) (before : List CatalogMember), Members zone.origin before →
      (∀ node ∈ nodes, IsNode zone.origin node.name) → nodes.foldlM takeMember before = .ok members →
        Members zone.origin members := by
    intro nodes
    induction nodes with
    | nil =>
      intro before hbefore _ hrun
      cases hrun
      exact hbefore
    | cons node rest ih =>
      intro before hbefore hnodes hrun
      rw [List.foldlM_cons] at hrun
      obtain ⟨next, hnext, hrun⟩ := except_bind_eq_ok.mp hrun
      exact ih next (takeMember_members hbefore (hnodes node List.mem_cons_self) hnext)
        (fun n hn => hnodes n (List.mem_cons_of_mem _ hn)) hrun
  refine hrun _ [] ⟨List.Pairwise.nil, fun _ hmember => by cases hmember⟩ ?_ hmembers
  intro node hnode
  obtain ⟨entry, hentry, rfl⟩ := List.mem_map.mp hnode
  exact hnamed entry hentry

/-- **A zone is one member's**, the one a search finds. -/
theorem member_of_mem {zone : Zone} {catalog : Catalog} (h : Catalog.fromZone zone = .ok catalog)
    {member : CatalogMember} (hmember : member ∈ catalog.members) {name : Name} (hname : member.zone.same name = true) :
    catalog.member name = some member := by
  have hdistinct := (members_of_fromZone h).distinct
  rw [Catalog.member]
  generalize catalog.members = members at hdistinct hmember
  induction members with
  | nil => cases hmember
  | cons first rest ih =>
    rw [List.pairwise_cons] at hdistinct
    rw [List.find?_cons]
    rcases List.mem_cons.mp hmember with rfl | hmember
    · rw [hname]
    · have hne : first.zone.same name = false := by
        rw [Bool.eq_false_iff]
        intro hfirst
        have hboth := hdistinct.1 member hmember
        rw [Name.same_iff] at hfirst hname
        rw [Bool.eq_false_iff] at hboth
        exact hboth (Name.same_iff.mpr (hfirst.trans hname.symm))
      rw [hne]
      exact ih hdistinct.2 hmember

end Rdns.Catalogs
