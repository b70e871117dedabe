import Rdns.Lib.SortedMap
import Rdns.Zones.Checks
import Rdns.Zones.SortKeys
import Mathlib.Data.List.TakeWhile

/-!
# Rdns — What the signer knows of a zone

`Layout` of `rdns/src/zone_signer.rs`: every owner name with its types, which names are
delegations, which are occluded, and the names a denial chain has to list.

The layout is keyed by `canonicalSortKey`, whose order is the canonical one as long as no
label holds a zero octet (`KeysFaithful`).
-/

namespace Rdns.Dnssec

open Rdns.Lib Rdns.Core Rdns.Present Rdns.Zones RecordTypes

/-! ## The layout -/

def insertType (rtype : Rtype) : List Rtype → List Rtype
  | [] => [rtype]
  | t :: rest =>
    if rtype = t then t :: rest
    else if rtype.code < t.code then rtype :: t :: rest
    else t :: insertType rtype rest

structure NameEntry where
  types : List Rtype
  isDelegation : Bool
  occluded : Bool
deriving DecidableEq

namespace NameEntry

def default : NameEntry := ⟨[], false, false⟩

def isSecureDelegation (entry : NameEntry) : Bool :=
  entry.isDelegation && entry.types.contains DS

def publishedTypes (entry : NameEntry) : List Rtype :=
  if entry.isDelegation then
    if entry.types.contains DS then insertType DS [NS]
    else [NS]
  else entry.types

def hasSignedData (entry : NameEntry) : Bool :=
  if entry.isDelegation then entry.types.contains DS else !entry.types.isEmpty

end NameEntry

/-- Every name in the zone, in canonical order, and what the signer has to know about
each. -/
structure Layout where
  origin : Name
  names : SortedMap Octets (Name × NameEntry)

def noteRecord (record : ZoneRecord) : Option (Name × NameEntry) → Name × NameEntry
  | none => (record.name.toFolded, { NameEntry.default with types := [record.rtype] })
  | some (name, entry) => (name, { entry with types := insertType record.rtype entry.types })

def noteDelegation (origin : Name) : Name × NameEntry → Name × NameEntry
  | (name, entry) =>
    (name, { entry with
      isDelegation := !name.same origin && entry.types.contains NS })

def noteOccluded (occluders : List Octets) : Name × NameEntry → Name × NameEntry
  | (name, entry) =>
    (name, { entry with
      occluded := (name.ancestors.drop 1).any fun a => occluders.contains (canonicalSortKey a) })

/-- The keys of the names nothing below which is in the zone: delegations (RFC 4035 §2.2)
and DNAME owners (RFC 6672 §2.4). -/
def occludersOf (names : SortedMap Octets (Name × NameEntry)) : List Octets :=
  (names.filter fun (_, _, entry) => entry.isDelegation || entry.types.contains DNAME).map
    fun (_, name, _) => canonicalSortKey name

namespace Layout

def of (records : List ZoneRecord) (origin : Name) : Layout :=
  let names := SortedMap.collect (fun r => canonicalSortKey r.name) noteRecord records []
  let names := SortedMap.mapValues (noteDelegation origin) names
  let names := SortedMap.mapValues (noteOccluded (occludersOf names)) names
  ⟨origin.toFolded, names⟩

def chainAncestors (origin name : Name) : List Name :=
  (name.ancestors.drop 1).takeWhile fun a => !(a.same origin || !a.isAtOrUnder origin)

def included (layout : Layout) (optOut : Bool) : SortedMap Octets Name :=
  SortedMap.mapValues Prod.fst (layout.names.filter fun (_, _, entry) =>
    !entry.occluded && !(optOut && entry.isDelegation && !entry.isSecureDelegation))

def emptyNonTerminals (layout : Layout) (included : SortedMap Octets Name) :
    SortedMap Octets Name :=
  let above := included.flatMap fun (_, name) => chainAncestors layout.origin name
  (above.filter fun a => (included.get (canonicalSortKey a)).isNone).foldl
    (fun m a => m.insert (canonicalSortKey a) a) []

def extended (layout : Layout) (optOut : Bool) : SortedMap Octets Name :=
  (layout.emptyNonTerminals (layout.included optOut)).foldl
    (fun m entry => m.insert entry.1 entry.2) (layout.included optOut)

def chainNames (layout : Layout) (optOut : Bool) : List Name := (layout.extended optOut).map Prod.snd

def «at» (layout : Layout) (key : Octets) : Option NameEntry := (layout.names.get key).map Prod.snd

def entry (layout : Layout) (name : Name) : NameEntry :=
  (layout.at (canonicalSortKey name)).getD .default

end Layout

/-! ## What the records say -/

def ownsType (records : List ZoneRecord) (name : Name) (rtype : Rtype) : Bool :=
  records.any fun r => r.name.same name && r.rtype == rtype

theorem ownsType_of_isCut {origin : Name} {records : List ZoneRecord} {name : Name}
    (h : isCut origin records name = true) : ownsType records name NS = true := by
  rw [isCut, Bool.and_eq_true] at h
  exact h.2

def isOccluder (origin : Name) (records : List ZoneRecord) (name : Name) : Bool :=
  isCut origin records name || ownsType records name DNAME

def isOccluded (origin : Name) (records : List ZoneRecord) (name : Name) : Bool :=
  (name.ancestors.drop 1).any (isOccluder origin records)

def KeysFaithful (records : List ZoneRecord) : Prop :=
  ∀ a b, isNode records a = true → isNode records b = true →
    (canonicalSortKey a < canonicalSortKey b ↔ canonicalLabels a < canonicalLabels b)

def KeysApart (records : List ZoneRecord) : Prop :=
  ∀ a b, isNode records a = true → isNode records b = true →
    canonicalSortKey a = canonicalSortKey b → a.same b = true

section Names

variable {c : Name}

theorem same_congr {a b : Name} (h : a.same b = true) : c.same a = c.same b := by
  rw [Bool.eq_iff_iff, Name.same_iff, Name.same_iff, Name.same_iff.mp h]

theorem isAtOrUnder_congr {a b : Name} (h : a.same b = true) :
    c.isAtOrUnder a = c.isAtOrUnder b := by
  rw [← isAtOrUnder_toFolded_right c a, ← isAtOrUnder_toFolded_right c b, Name.same_iff.mp h]

theorem isAtOrUnder_congr_left {a b : Name} (h : a.same b = true) :
    a.isAtOrUnder c = b.isAtOrUnder c := by
  rw [← isAtOrUnder_toFolded_left a c, ← isAtOrUnder_toFolded_left b c, Name.same_iff.mp h]

variable {origin : Name} {records : List ZoneRecord} {a b name : Name}

theorem owns_congr (h : a.same b = true) : owns records a = owns records b := by
  rw [owns, owns]
  exact congrArg _ (funext fun r => same_congr h)

theorem isNode_congr (h : a.same b = true) : isNode records a = isNode records b := by
  rw [← isNode_toFolded records a, ← isNode_toFolded records b, Name.same_iff.mp h]

theorem ownsType_congr (h : a.same b = true) (rtype : Rtype) :
    ownsType records a rtype = ownsType records b rtype := by
  rw [ownsType, ownsType]
  exact congrArg _ (funext fun r => by rw [same_congr h])

theorem isCut_congr (h : a.same b = true) : isCut origin records a = isCut origin records b := by
  rw [← isCut_toFolded origin records a, ← isCut_toFolded origin records b, Name.same_iff.mp h]

theorem isOccluder_congr (h : a.same b = true) :
    isOccluder origin records a = isOccluder origin records b := by
  rw [isOccluder, isOccluder, isCut_congr h, ownsType_congr h]

theorem exists_ancestor (hunder : name.isAtOrUnder a = true) (hne : name.same a = false) :
    ∃ b ∈ name.ancestors.drop 1, b.same a = true := by
  obtain ⟨front, hfront⟩ := Name.isAtOrUnder_iff.mp hunder
  have hmem : name.dropLabels front.length ∈ name.ancestors :=
    Name.mem_ancestors.mpr (List.drop_suffix _ _)
  have hsame : (name.dropLabels front.length).same a = true := by
    rw [Name.same_iff_foldLabels, Name.dropLabels_labels, Name.foldLabels_drop, ← hfront,
      List.drop_left]
  rw [Name.ancestors_eq_cons] at hmem
  rcases List.mem_cons.mp hmem with heq | hmem
  · rw [heq] at hsame
    rw [hsame] at hne
    cases hne
  · exact ⟨_, hmem, hsame⟩

theorem of_mem_ancestors (h : a ∈ name.ancestors.drop 1) :
    name.isAtOrUnder a = true ∧ name.same a = false := by
  have hmem : a ∈ name.ancestors := List.mem_of_mem_drop h
  have hsuffix := Name.mem_ancestors.mp hmem
  refine ⟨Name.isAtOrUnder_iff.mpr (hsuffix.map _), ?_⟩
  -- the walk up gets strictly shorter
  have hshort := Name.pairwise_ancestors name
  rw [Name.ancestors_eq_cons] at hshort
  have hlt := (List.pairwise_cons.mp hshort).1 a h
  by_contra hsame
  rw [Bool.not_eq_false, Name.same_iff] at hsame
  have hlen : name.toFolded.wire.length = a.toFolded.wire.length := by rw [hsame]
  rw [Name.wire_toFolded, Name.wire_toFolded, length_foldCase, length_foldCase] at hlen
  omega

theorem isOccluded_iff : isOccluded origin records name = true ↔
    ∃ d, isOccluder origin records d = true ∧ name.isAtOrUnder d = true ∧ name.same d = false := by
  rw [isOccluded, List.any_eq_true]
  constructor
  · rintro ⟨d, hd, hocc⟩
    exact ⟨d, hocc, of_mem_ancestors hd⟩
  · rintro ⟨d, hocc, hunder, hne⟩
    obtain ⟨d', hmem, hsame⟩ := exists_ancestor hunder hne
    exact ⟨d', hmem, (isOccluder_congr hsame).trans hocc⟩

theorem owns_of_ownsType {rtype : Rtype} (h : ownsType records name rtype = true) :
    owns records name = true := by
  obtain ⟨r, hr, htype⟩ := List.any_eq_true.mp h
  exact List.any_eq_true.mpr ⟨r, hr, (Bool.and_eq_true_iff.mp htype).1⟩

theorem isNode_of_owns (h : owns records name = true) : isNode records name = true := by
  rw [isNode, h]
  rfl

theorem owns_of_isOccluder (h : isOccluder origin records name = true) :
    owns records name = true := by
  rw [isOccluder, Bool.or_eq_true] at h
  rcases h with h | h
  · rw [isCut, Bool.and_eq_true] at h
    exact owns_of_ownsType h.2
  · exact owns_of_ownsType h

theorem isNode_of_isAtOrUnder (h : isNode records a = true) (hunder : a.isAtOrUnder b = true) :
    isNode records b = true := by
  obtain ⟨r, hr, hra⟩ := Zone.isNode_iff.mp h
  exact Zone.isNode_iff.mpr ⟨r, hr, Name.isAtOrUnder_trans hra hunder⟩

theorem KeysFaithful.apart (h : KeysFaithful records) : KeysApart records := by
  intro a b ha hb hkey
  rw [← canonicalLabels_inj]
  rcases lt_trichotomy (canonicalLabels a) (canonicalLabels b) with hlt | heq | hgt
  · exact absurd ((h a b ha hb).mpr hlt) (hkey ▸ lt_irrefl _)
  · exact heq
  · exact absurd ((h b a hb ha).mpr hgt) (hkey ▸ lt_irrefl _)

end Names

/-! ## The entries -/

theorem mem_insertType {rtype t : Rtype} {types : List Rtype} :
    t ∈ insertType rtype types ↔ t = rtype ∨ t ∈ types := by
  induction types with
  | nil => simp [insertType]
  | cons first rest ih =>
    rw [insertType]
    split
    · rename_i heq
      rw [heq, List.mem_cons, ← or_assoc, or_self]
    · split
      · rw [List.mem_cons]
      · rw [List.mem_cons, ih, List.mem_cons]
        tauto

theorem foldl_noteRecord (records : List ZoneRecord) (name : Name) (entry : NameEntry) :
    ∃ types, records.foldl (fun value r => some (noteRecord r value)) (some (name, entry)) =
        some (name, { entry with types }) ∧
      ∀ t, t ∈ types ↔ t ∈ entry.types ∨ ∃ r ∈ records, r.rtype = t := by
  induction records generalizing entry with
  | nil => exact ⟨entry.types, rfl, fun t => by simp⟩
  | cons first rest ih =>
    obtain ⟨types, hfold, hmem⟩ := ih { entry with types := insertType first.rtype entry.types }
    refine ⟨types, hfold, fun t => ?_⟩
    rw [hmem t, mem_insertType, or_comm (a := t = _), or_assoc]
    simp [eq_comm]

/-- **What the signer's entry of a name must say.** -/
structure EntryOk (origin : Name) (records : List ZoneRecord) (name : Name)
    (entry : NameEntry) : Prop where
  types : ∀ t, t ∈ entry.types ↔ ownsType records name t = true
  delegation : entry.isDelegation = isCut origin records name
  occluded : entry.occluded = isOccluded origin records name

section Entries

variable {origin : Name} {records : List ZoneRecord}

theorem get_noted (hkeys : KeysApart records) {name : Name} (hnode : isNode records name = true) :
    (owns records name = false →
      (SortedMap.collect (fun r => canonicalSortKey r.name) noteRecord records []).get
        (canonicalSortKey name) = none) ∧
    (owns records name = true → ∃ types,
      (SortedMap.collect (fun r => canonicalSortKey r.name) noteRecord records []).get
        (canonicalSortKey name) = some (name.toFolded, { NameEntry.default with types }) ∧
      ∀ t, t ∈ types ↔ ownsType records name t = true) := by
  have hmem : ∀ r ∈ records, canonicalSortKey r.name = canonicalSortKey name ↔
      r.name.same name = true := by
    intro r hr
    constructor
    · have hrnode : isNode records r.name = true :=
        isNode_of_owns (List.any_eq_true.mpr ⟨r, hr, Name.same_self _⟩)
      exact hkeys _ _ hrnode hnode
    · exact canonicalSortKey_congr
  obtain ⟨rs, -, hrs, hget⟩ := SortedMap.get_collect SortedMap.ordered_nil
    (fun r => canonicalSortKey r.name) noteRecord records (canonicalSortKey name)
  rw [hget]
  have hin : ∀ r, r ∈ rs ↔ r ∈ records ∧ r.name.same name = true := by
    intro r
    rw [hrs r]
    exact and_congr_right (hmem r)
  constructor
  · intro hnone
    cases rs with
    | nil => rfl
    | cons first rest =>
      obtain ⟨hr, hsame⟩ := (hin first).mp List.mem_cons_self
      have howns : owns records name = true := List.any_eq_true.mpr ⟨first, hr, hsame⟩
      rw [howns] at hnone
      cases hnone
  · intro howns
    cases rs with
    | nil =>
      obtain ⟨r, hr, hsame⟩ := List.any_eq_true.mp howns
      exact absurd ((hin r).mpr ⟨hr, hsame⟩) List.not_mem_nil
    | cons first rest =>
      obtain ⟨types, hfold, htypes⟩ := foldl_noteRecord rest first.name.toFolded
        { NameEntry.default with types := [first.rtype] }
      refine ⟨types, ?_, fun t => ?_⟩
      · rw [← Name.same_iff.mp ((hin first).mp List.mem_cons_self).2]
        exact hfold
      · rw [htypes t, ownsType, List.any_eq_true]
        have hall : (t ∈ [first.rtype] ∨ ∃ r ∈ rest, r.rtype = t) ↔
            ∃ r ∈ first :: rest, r.rtype = t := by
          simp [eq_comm]
        refine hall.trans ⟨?_, ?_⟩
        · rintro ⟨r, hr, ht⟩
          obtain ⟨hrecord, hsame⟩ := (hin r).mp hr
          exact ⟨r, hrecord, by rw [hsame, ht]; simp⟩
        · rintro ⟨r, hr, ht⟩
          obtain ⟨hsame, ht⟩ := Bool.and_eq_true_iff.mp ht
          exact ⟨r, (hin r).mpr ⟨hr, hsame⟩, beq_iff_eq.mp ht⟩

def delegated (records : List ZoneRecord) (origin : Name) : SortedMap Octets (Name × NameEntry) :=
  SortedMap.mapValues (noteDelegation origin)
    (SortedMap.collect (fun r => canonicalSortKey r.name) noteRecord records [])

theorem ordered_delegated : (delegated records origin).Ordered :=
  (SortedMap.ordered_nil.collect _ _ _).mapValues _

section

variable (hkeys : KeysApart records) (hzone : ∀ r ∈ records, r.name.isAtOrUnder origin = true)
include hkeys hzone

variable {name : Name}

theorem get_delegated (hnode : isNode records name = true) :
    (owns records name = false → (delegated records origin).get (canonicalSortKey name) = none) ∧
    (owns records name = true → ∃ types,
      (delegated records origin).get (canonicalSortKey name) =
        some (name.toFolded, ⟨types, isCut origin records name, false⟩) ∧
      ∀ t, t ∈ types ↔ ownsType records name t = true) := by
  obtain ⟨hnone, hsome⟩ := get_noted hkeys hnode
  rw [delegated, SortedMap.get_mapValues]
  constructor
  · intro howns
    rw [hnone howns]
    rfl
  · intro howns
    obtain ⟨types, hget, htypes⟩ := hsome howns
    refine ⟨types, ?_, htypes⟩
    have hunder : name.isAtOrUnder origin = true := by
      obtain ⟨r, hr, hsame⟩ := List.any_eq_true.mp howns
      rw [← isAtOrUnder_congr_left hsame]
      exact hzone r hr
    have hns : types.contains NS = ownsNs records name := by
      rw [Bool.eq_iff_iff, List.contains_iff_mem, htypes]
      rfl
    rw [hget, Option.map_some, noteDelegation, same_toFolded_left, hns, isCut, hunder, Bool.true_and]
    rfl

theorem mem_delegated {key : Octets} {entry : NameEntry}
    (h : (key, name, entry) ∈ delegated records origin) :
    key = canonicalSortKey name ∧ name.toFolded = name ∧ owns records name = true ∧
      entry.isDelegation = isCut origin records name ∧
      ∀ t, t ∈ entry.types ↔ ownsType records name t = true := by
  have hget := (SortedMap.mem_iff_get ordered_delegated).mp h
  rw [delegated, SortedMap.get_mapValues] at hget
  obtain ⟨noted, hnoted, -⟩ := Option.map_eq_some_iff.mp hget
  obtain ⟨r, hr, rfl⟩ := SortedMap.exists_of_get_collect hnoted
  have howns : owns records r.name = true := List.any_eq_true.mpr ⟨r, hr, Name.same_self _⟩
  obtain ⟨types, hentry, htypes⟩ := (get_delegated hkeys hzone (isNode_of_owns howns)).2 howns
  rw [(SortedMap.mem_iff_get ordered_delegated).mp h] at hentry
  cases hentry
  have hsame : r.name.same r.name.toFolded = true := by
    rw [Name.same_iff, Name.toFolded_toFolded]
  exact ⟨canonicalSortKey_congr hsame, Name.toFolded_toFolded _, (owns_congr hsame).symm.trans howns,
    isCut_congr hsame, fun t => (htypes t).trans (by rw [ownsType_congr hsame])⟩

theorem contains_occludersOf (hnode : isNode records name = true) :
    (occludersOf (delegated records origin)).contains (canonicalSortKey name) =
      isOccluder origin records name := by
  rw [Bool.eq_iff_iff, List.contains_iff_mem, occludersOf, List.mem_map]
  constructor
  · rintro ⟨⟨key, found, entry⟩, hentry, hkey⟩
    obtain ⟨hmem, hflag⟩ := List.mem_filter.mp hentry
    obtain ⟨-, -, howns, hdelegation, htypes⟩ := mem_delegated hkeys hzone hmem
    have hsame := hkeys _ _ (isNode_of_owns howns) hnode hkey
    rw [← isOccluder_congr hsame, isOccluder, ← hdelegation]
    rw [Bool.or_eq_true, List.contains_iff_mem, htypes] at hflag
    rw [Bool.or_eq_true]
    exact hflag
  · intro hocc
    obtain ⟨types, hget, htypes⟩ :=
      (get_delegated hkeys hzone hnode).2 (owns_of_isOccluder hocc)
    refine ⟨(canonicalSortKey name, name.toFolded, _), List.mem_filter.mpr
      ⟨(SortedMap.mem_iff_get ordered_delegated).mpr hget, ?_⟩, ?_⟩
    · rw [isOccluder, Bool.or_eq_true] at hocc
      rw [Bool.or_eq_true, List.contains_iff_mem, htypes]
      exact hocc
    · exact canonicalSortKey_congr (by rw [Name.same_iff, Name.toFolded_toFolded])

end

theorem of_names (records : List ZoneRecord) (origin : Name) : (Layout.of records origin).names =
    SortedMap.mapValues (noteOccluded (occludersOf (delegated records origin)))
      (delegated records origin) := rfl

theorem ordered_of : (Layout.of records origin).names.Ordered := ordered_delegated.mapValues _

section

variable (hkeys : KeysApart records) (hzone : ∀ r ∈ records, r.name.isAtOrUnder origin = true)
include hkeys hzone

variable {name : Name}

theorem noteOccluded_eq (hnode : isNode records name = true) (entry : NameEntry) :
    noteOccluded (occludersOf (delegated records origin)) (name.toFolded, entry) =
      (name.toFolded, { entry with occluded := isOccluded origin records name }) := by
  have hany : (name.toFolded.ancestors.drop 1).any (fun a =>
      (occludersOf (delegated records origin)).contains (canonicalSortKey a)) =
      isOccluded origin records name := by
    rw [isOccluded, Name.ancestors_toFolded, ← List.map_drop, List.any_map]
    rw [Bool.eq_iff_iff, List.any_eq_true, List.any_eq_true]
    refine exists_congr fun a => and_congr_right fun ha => ?_
    have hanode : isNode records a = true := isNode_of_isAtOrUnder hnode (of_mem_ancestors ha).1
    have hsame : a.toFolded.same a = true := by rw [Name.same_iff, Name.toFolded_toFolded]
    rw [Function.comp_apply, canonicalSortKey_congr hsame, contains_occludersOf hkeys hzone hanode]
  rw [noteOccluded, hany]

/-- **The layout at a node of the tree**: an entry that says what the records say, or none
where the node owns no record. -/
theorem of_get (hnode : isNode records name = true) :
    (owns records name = false →
      (Layout.of records origin).names.get (canonicalSortKey name) = none) ∧
    (owns records name = true → ∃ entry,
      (Layout.of records origin).names.get (canonicalSortKey name) = some (name.toFolded, entry) ∧
      EntryOk origin records name entry) := by
  obtain ⟨hnone, hsome⟩ := get_delegated hkeys hzone hnode
  rw [of_names, SortedMap.get_mapValues]
  constructor
  · intro howns
    rw [hnone howns]
    rfl
  · intro howns
    obtain ⟨types, hget, htypes⟩ := hsome howns
    rw [hget, Option.map_some, noteOccluded_eq hkeys hzone hnode]
    exact ⟨_, rfl, htypes, rfl, rfl⟩

theorem mem_of {key : Octets} {entry : NameEntry}
    (h : (key, name, entry) ∈ (Layout.of records origin).names) :
    key = canonicalSortKey name ∧ name.toFolded = name ∧ owns records name = true ∧
      EntryOk origin records name entry := by
  rw [of_names] at h
  obtain ⟨⟨key', name', entry'⟩, hmem, heq⟩ := List.mem_map.mp h
  obtain ⟨hkey, hfolded, howns, hdelegation, htypes⟩ := mem_delegated hkeys hzone hmem
  have hnoted := noteOccluded_eq hkeys hzone (isNode_of_owns howns) entry'
  rw [hfolded] at hnoted
  dsimp only at heq
  rw [hnoted] at heq
  cases heq
  exact ⟨hkey, hfolded, howns, htypes, hdelegation, rfl⟩

end

end Entries

/-! ## The names of a chain -/

def isListedOwner (origin : Name) (records : List ZoneRecord) (optOut : Bool) (name : Name) : Bool :=
  owns records name && !isOccluded origin records name &&
    !(optOut && isCut origin records name && !ownsType records name DS)

/-- **The names a chain lists**: such owners, and the names between them and the apex. -/
def Listed (origin : Name) (records : List ZoneRecord) (optOut : Bool) (name : Name) : Prop :=
  isListedOwner origin records optOut name = true ∨
    (name.isAtOrUnder origin = true ∧ name.same origin = false ∧
      ∃ o, isListedOwner origin records optOut o = true ∧ o.isAtOrUnder name = true)

section ChainNames

variable {origin : Name} {records : List ZoneRecord} {optOut : Bool} {name a : Name}

theorem isListedOwner_congr {b : Name} (h : a.same b = true) :
    isListedOwner origin records optOut a = isListedOwner origin records optOut b := by
  have hocc : isOccluded origin records a = isOccluded origin records b := by
    rw [Bool.eq_iff_iff, isOccluded_iff, isOccluded_iff]
    refine exists_congr fun d => and_congr_right fun _ => ?_
    rw [isAtOrUnder_congr_left h, Name.same_comm a, same_congr h, Name.same_comm d]
  rw [isListedOwner, isListedOwner, owns_congr h, isCut_congr h, ownsType_congr h, hocc]

theorem Listed.isNode (h : Listed origin records optOut name) : isNode records name = true := by
  rcases h with h | ⟨-, -, o, ho, hunder⟩
  · rw [isListedOwner, Bool.and_eq_true, Bool.and_eq_true] at h
    exact isNode_of_owns h.1.1
  · rw [isListedOwner, Bool.and_eq_true, Bool.and_eq_true] at ho
    exact isNode_of_isAtOrUnder (isNode_of_owns ho.1.1) hunder

theorem entry_listed {entry : NameEntry} (h : EntryOk origin records name entry)
    (howns : owns records name = true) :
    (!entry.occluded && !(optOut && entry.isDelegation && !entry.isSecureDelegation)) =
      isListedOwner origin records optOut name := by
  have hds : entry.types.contains DS = ownsType records name DS := by
    rw [Bool.eq_iff_iff, List.contains_iff_mem, h.types]
  rw [isListedOwner, howns, Bool.true_and, h.occluded, NameEntry.isSecureDelegation, h.delegation, hds]
  cases isCut origin records name <;> simp

theorem ordered_included : ((Layout.of records origin).included optOut).Ordered :=
  (ordered_of.filter _).mapValues _

theorem mem_included (hkeys : KeysApart records)
    (hzone : ∀ r ∈ records, r.name.isAtOrUnder origin = true) {key : Octets} :
    (key, name) ∈ (Layout.of records origin).included optOut ↔
      key = canonicalSortKey name ∧ name.toFolded = name ∧
        isListedOwner origin records optOut name = true := by
  rw [Layout.included, SortedMap.mapValues, List.mem_map]
  constructor
  · rintro ⟨⟨k, n, entry⟩, hmem, heq⟩
    cases heq
    obtain ⟨hentry, hflag⟩ := List.mem_filter.mp hmem
    obtain ⟨hkey, hfolded, howns, hok⟩ := mem_of hkeys hzone hentry
    exact ⟨hkey, hfolded, (entry_listed hok howns).symm.trans hflag⟩
  · rintro ⟨rfl, hfolded, hlisted⟩
    have howns : owns records name = true := by
      rw [isListedOwner, Bool.and_eq_true, Bool.and_eq_true] at hlisted
      exact hlisted.1.1
    obtain ⟨entry, hget, hok⟩ := (of_get hkeys hzone (isNode_of_owns howns)).2 howns
    refine ⟨(canonicalSortKey name, name.toFolded, entry), List.mem_filter.mpr ⟨?_, ?_⟩, ?_⟩
    · exact (SortedMap.mem_iff_get ordered_of).mpr hget
    · exact (entry_listed hok howns).trans hlisted
    · rw [hfolded]

theorem mem_takeWhile {α : Type} {p : α → Bool} {xs : List α} {x : α}
    (hclosed : xs.Pairwise fun a b => p b = true → p a = true) (hx : x ∈ xs) (hp : p x = true) :
    x ∈ xs.takeWhile p := by
  induction xs with
  | nil => cases hx
  | cons first rest ih =>
    obtain ⟨hfirst, hrest⟩ := List.pairwise_cons.mp hclosed
    have hpfirst : p first = true := by
      rcases List.mem_cons.mp hx with rfl | hx
      · exact hp
      · exact hfirst x hx hp
    rw [List.takeWhile_cons, if_pos hpfirst]
    rcases List.mem_cons.mp hx with rfl | hx
    · exact List.mem_cons_self
    · exact List.mem_cons_of_mem _ (ih hrest hx)

theorem mem_chainAncestors :
    a ∈ Layout.chainAncestors origin name ↔
      a ∈ name.ancestors.drop 1 ∧ a.isAtOrUnder origin = true ∧ a.same origin = false := by
  rw [Layout.chainAncestors]
  constructor
  · intro h
    have hp := List.mem_takeWhile_imp h
    refine ⟨List.takeWhile_subset _ h, ?_⟩
    simpa [and_comm] using hp
  · rintro ⟨hmem, hunder, hne⟩
    refine mem_takeWhile ?_ hmem (by rw [hne, hunder]; rfl)
    -- what is longer than a name below the apex is below it too
    have hwalk := List.Pairwise.sublist (List.drop_sublist 1 _) (Name.pairwise_ancestors name)
    refine hwalk.imp_of_mem fun {b c} hb hc hlt hpc => ?_
    have hpc' : c.same origin = false ∧ c.isAtOrUnder origin = true := by simpa using hpc
    have hbc : b.isAtOrUnder c = true :=
      Name.isAtOrUnder_of_length_le (of_mem_ancestors hb).1 (of_mem_ancestors hc).1 (le_of_lt hlt)
    have hbo := Name.isAtOrUnder_trans hbc hpc'.2
    have hne : b.same origin = false := by
      by_contra hsame
      rw [Bool.not_eq_false, Name.same_iff] at hsame
      have hlen : b.toFolded.wire.length = origin.toFolded.wire.length := by rw [hsame]
      rw [Name.wire_toFolded, Name.wire_toFolded, length_foldCase, length_foldCase] at hlen
      have := Name.isAtOrUnder_length_le hpc'.2
      omega
    rw [hne, hbo]
    rfl

theorem listed_of_chainAncestors {o : Name} (hfolded : o.toFolded = o)
    (hlisted : isListedOwner origin records optOut o = true)
    (ha : a ∈ Layout.chainAncestors origin.toFolded o) :
    a.toFolded = a ∧ Listed origin records optOut a := by
  obtain ⟨hmem, hunder, hne⟩ := mem_chainAncestors.mp ha
  rw [isAtOrUnder_toFolded_right] at hunder
  rw [same_toFolded_right] at hne
  refine ⟨?_, .inr ⟨hunder, hne, o, hlisted, (of_mem_ancestors hmem).1⟩⟩
  rw [← hfolded, Name.ancestors_toFolded, ← List.map_drop] at hmem
  obtain ⟨b, -, rfl⟩ := List.mem_map.mp hmem
  exact Name.toFolded_toFolded b

theorem ordered_extended : ((Layout.of records origin).extended optOut).Ordered :=
  ordered_included.foldl_insert _ _ _

section

variable (hkeys : KeysApart records) (hzone : ∀ r ∈ records, r.name.isAtOrUnder origin = true)
include hkeys hzone

variable {name : Name}

theorem listed_of_mem_extended {key : Octets}
    (h : (key, name) ∈ (Layout.of records origin).extended optOut) :
    key = canonicalSortKey name ∧ name.toFolded = name ∧ Listed origin records optOut name := by
  rcases SortedMap.of_mem_foldl_insert ordered_included h with hmem | ⟨⟨k, m⟩, hmem, rfl, rfl⟩
  · obtain ⟨hkey, hfolded, hlisted⟩ := (mem_included hkeys hzone).mp hmem
    exact ⟨hkey, hfolded, .inl hlisted⟩
  · rcases SortedMap.of_mem_foldl_insert SortedMap.ordered_nil hmem with hmem | ⟨a, ha, rfl, rfl⟩
    · cases hmem
    · obtain ⟨⟨k, o⟩, hincluded, habove⟩ := List.mem_flatMap.mp (List.mem_filter.mp ha).1
      obtain ⟨-, hfolded, hlisted⟩ := (mem_included hkeys hzone).mp hincluded
      exact ⟨rfl, listed_of_chainAncestors hfolded hlisted habove⟩

theorem mem_emptyNonTerminals {o : Name} (hfolded : name.toFolded = name)
    (hunder : name.isAtOrUnder origin = true) (hne : name.same origin = false)
    (ho : isListedOwner origin records optOut o = true) (hbelow : o.isAtOrUnder name = true)
    (hnone : (((Layout.of records origin).included optOut).get (canonicalSortKey name)).isNone = true) :
    ∃ n, (canonicalSortKey name, n) ∈ (Layout.of records origin).emptyNonTerminals
      ((Layout.of records origin).included optOut) := by
  have hofolded : o.toFolded.same o = true := by rw [Name.same_iff, Name.toFolded_toFolded]
  have hentry : (canonicalSortKey o.toFolded, o.toFolded) ∈
      (Layout.of records origin).included optOut :=
    (mem_included hkeys hzone).mpr ⟨rfl, Name.toFolded_toFolded o,
      (isListedOwner_congr hofolded).trans ho⟩
  have honame : o.toFolded.same name = false := by
    by_contra hsame
    rw [Bool.not_eq_false] at hsame
    have hmem := (SortedMap.mem_iff_get ordered_included).mp hentry
    rw [canonicalSortKey_congr hsame] at hmem
    rw [hmem] at hnone
    cases hnone
  obtain ⟨a, ha, hsame⟩ := exists_ancestor ((isAtOrUnder_toFolded_left o name).trans hbelow) honame
  have haname : a = name := by
    rw [Name.ancestors_toFolded, ← List.map_drop] at ha
    obtain ⟨b, -, rfl⟩ := List.mem_map.mp ha
    rw [Name.same_iff, Name.toFolded_toFolded, hfolded] at hsame
    exact hsame
  subst haname
  have habove : a ∈ Layout.chainAncestors origin.toFolded o.toFolded := by
    rw [mem_chainAncestors, isAtOrUnder_toFolded_right, same_toFolded_right]
    exact ⟨ha, hunder, hne⟩
  refine SortedMap.exists_mem_foldl_insert SortedMap.ordered_nil (.inr ⟨a, ?_, rfl⟩)
  exact List.mem_filter.mpr ⟨List.mem_flatMap.mpr ⟨_, hentry, habove⟩, hnone⟩

/-- **The names of a chain** are the listed ones, folded. -/
theorem mem_chainNames :
    name ∈ (Layout.of records origin).chainNames optOut ↔
      name.toFolded = name ∧ Listed origin records optOut name := by
  rw [Layout.chainNames, List.mem_map]
  constructor
  · rintro ⟨⟨key, n⟩, hmem, rfl⟩
    exact (listed_of_mem_extended hkeys hzone hmem).2
  · rintro ⟨hfolded, hlisted⟩
    -- the key is there, and it is nobody else's
    suffices hthere : ∃ n, (canonicalSortKey name, n) ∈ (Layout.of records origin).extended optOut by
      obtain ⟨n, hn⟩ := hthere
      obtain ⟨hkey, hnfolded, hnlisted⟩ := listed_of_mem_extended hkeys hzone hn
      have hsame := Name.same_iff.mp (hkeys _ _ hlisted.isNode hnlisted.isNode hkey)
      rw [hfolded, hnfolded] at hsame
      exact ⟨_, hn, hsame.symm⟩
    apply SortedMap.exists_mem_foldl_insert ordered_included
    cases hget : ((Layout.of records origin).included optOut).get (canonicalSortKey name) with
    | some n => exact .inl ⟨n, (SortedMap.mem_iff_get ordered_included).mpr hget⟩
    | none =>
      rcases hlisted with hlisted | ⟨hunder, hne, o, ho, hbelow⟩
      · exact .inl ⟨name, (mem_included hkeys hzone).mpr ⟨rfl, hfolded, hlisted⟩⟩
      · obtain ⟨n, hn⟩ := mem_emptyNonTerminals hkeys hzone hfolded hunder hne ho hbelow
          (by rw [hget]; rfl)
        exact .inr ⟨_, hn, rfl⟩

end

theorem sorted_chainNames (hkeys : KeysFaithful records)
    (hzone : ∀ r ∈ records, r.name.isAtOrUnder origin = true) :
    (((Layout.of records origin).chainNames optOut).map canonicalLabels).Pairwise (· < ·) := by
  rw [Layout.chainNames, List.map_map, List.pairwise_map]
  refine List.Pairwise.imp_of_mem ?_ ordered_extended
  intro a b ha hb hlt
  obtain ⟨hakey, -, halisted⟩ := listed_of_mem_extended hkeys.apart hzone ha
  obtain ⟨hbkey, -, hblisted⟩ := listed_of_mem_extended hkeys.apart hzone hb
  rw [hakey, hbkey] at hlt
  exact (hkeys _ _ halisted.isNode hblisted.isNode).mp hlt

end ChainNames

end Rdns.Dnssec
