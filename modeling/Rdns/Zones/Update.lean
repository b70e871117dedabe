import Rdns.Zones.Writer
import Mathlib.Data.List.Perm.Basic

/-!
# Rdns — Dynamic update

`rdns/src/update.rs` (RFC 2136): reading an UPDATE, checking what it requires, and
applying what it asks for. CLASS is the verb: the zone's own class adds, ANY deletes an
RRset or a name, NONE deletes one record.

Applying keeps the rule that a CNAME is alone at its name and that a name has one DNAME
(`Kept`), but not the loader's other rules for DNAME, which RFC 6672 §5.2 leaves an UPDATE
free to break.
-/

namespace Rdns.Zones

open Rdns.Lib Rdns.Core RecordTypes

/-! ## Requests -/

structure Rejected where
  rcode : ResponseCode
  why : String
deriving DecidableEq

/-- A condition the zone must satisfy before any change is applied (RFC 2136 §2.4). -/
inductive Prerequisite where
  | rrsetExists (name : Name) (rtype : Rtype)
  | rrsetExistsWithValue (name : Name) (rtype : Rtype) (rdatas : List RecordData)
  | rrsetDoesNotExist (name : Name) (rtype : Rtype)
  | nameInUse (name : Name)
  | nameNotInUse (name : Name)
deriving DecidableEq

/-- One thing an UPDATE asks to change (RFC 2136 §2.5). -/
inductive Change where
  | add (record : ResourceRecord)
  | deleteRrset (name : Name) (rtype : Rtype)
  | deleteName (name : Name)
  | deleteRecord (name : Name) (rtype : Rtype) (rdata : RecordData)
deriving DecidableEq

structure UpdateRequest where
  zone : Name
  prerequisites : List Prerequisite
  changes : List Change
deriving DecidableEq

def QueryClass.ofClass (cls : Core.Class) : QueryClass := QueryClass.fromU16 cls.code

/-- RFC 2136 §3.1, §3.4.1: a name outside the zone the message names is NOTZONE. -/
def inZoneOrNotzone (name zone : Name) : Except Rejected Unit :=
  if name.isAtOrUnder zone then .ok ()
  else .error ⟨.nameNotInZone, "record is outside the zone"⟩

def readPrerequisite (zone : Name) (zoneClass : QueryClass) (rr : ResourceRecord) :
    Except Rejected Prerequisite := do
  if rr.ttl ≠ ⟨0⟩ then throw ⟨.formatError, "prerequisite has a TTL and RFC 2136 §2.4 requires 0"⟩
  inZoneOrNotzone rr.name zone
  let rtype := rr.rdata.rtype
  let empty := rr.rdata.rdata.isEmpty
  let cls := QueryClass.ofClass rr.cls
  if cls = .any ∧ rtype = ANY ∧ empty then return .nameInUse rr.name
  else if cls = .any ∧ empty then return .rrsetExists rr.name rtype
  else if cls = .none ∧ rtype = ANY ∧ empty then return .nameNotInUse rr.name
  else if cls = .none ∧ empty then return .rrsetDoesNotExist rr.name rtype
  else if cls = zoneClass ∧ !empty then return .rrsetExistsWithValue rr.name rtype [rr.rdata]
  else throw ⟨.formatError, "prerequisite is none of the five forms in RFC 2136 §2.4"⟩

def readChange (zone : Name) (zoneClass : QueryClass) (rr : ResourceRecord) :
    Except Rejected Change := do
  inZoneOrNotzone rr.name zone
  let rtype := rr.rdata.rtype
  let empty := rr.rdata.rdata.isEmpty
  let cls := QueryClass.ofClass rr.cls
  if cls ≠ .any ∧ cls ≠ .none ∧ rtype.isMeta then
    throw ⟨.formatError, "an UPDATE may not add a meta-type"⟩
  if cls = .any ∧ rtype = ANY ∧ empty ∧ rr.ttl = ⟨0⟩ then return .deleteName rr.name
  else if cls = .any ∧ empty ∧ rr.ttl = ⟨0⟩ then return .deleteRrset rr.name rtype
  else if cls = .none ∧ !empty ∧ rr.ttl = ⟨0⟩ then return .deleteRecord rr.name rtype rr.rdata
  -- the class is only compared with the Zone section's, whatever that is
  else if cls = zoneClass ∧ !empty then return .add rr
  else throw ⟨.formatError, "update record is none of the four forms in RFC 2136 §2.5"⟩

def parseUpdate (msg : DnsMessage) : Except Rejected UpdateRequest :=
  if msg.opcode ≠ .update then .error ⟨.formatError, "opcode is not UPDATE"⟩
  else match msg.queries with
    | [zoneSection] =>
      if !zoneSection.qtype.is SOA then
        .error ⟨.formatError, "the zone section's type is not SOA"⟩
      else do
        let prerequisites ← msg.answers.mapM (readPrerequisite zoneSection.qname zoneSection.qclass)
        let changes ← msg.authorities.mapM (readChange zoneSection.qname zoneSection.qclass)
        return ⟨zoneSection.qname, prerequisites, changes⟩
    | _ => .error ⟨.formatError, "an UPDATE names exactly one zone"⟩

/-! ## Prerequisites -/

def collectValues (sets : List (Name × Rtype × List RecordData)) (name : Name) (rtype : Rtype)
    (rdatas : List RecordData) : List (Name × Rtype × List RecordData) :=
  match sets with
  | [] => [(name, rtype, rdatas)]
  | (n, t, collected) :: rest =>
    if n.same name ∧ t = rtype then (n, t, collected ++ rdatas) :: rest
    else (n, t, collected) :: collectValues rest name rtype rdatas

def scanPrerequisites (z : Zone) (sets : List (Name × Rtype × List RecordData)) :
    List Prerequisite → Except Rejected (List (Name × Rtype × List RecordData))
  | [] => .ok sets
  | .rrsetExists name rtype :: rest =>
    if (z.query name (.of rtype)).isEmpty then .error ⟨.noSuchResourceRecordSet, "no RRset"⟩
    else scanPrerequisites z sets rest
  | .rrsetDoesNotExist name rtype :: rest =>
    if !(z.query name (.of rtype)).isEmpty then
      .error ⟨.resourceRecordSetExistsForSomeReason, "already has an RRset"⟩
    else scanPrerequisites z sets rest
  | .nameInUse name :: rest =>
    if !z.holdsName name then .error ⟨.noSuchDomain, "is not in use"⟩
    else scanPrerequisites z sets rest
  | .nameNotInUse name :: rest =>
    if z.holdsName name then .error ⟨.domainExistsForSomeReason, "is already in use"⟩
    else scanPrerequisites z sets rest
  | .rrsetExistsWithValue name rtype rdatas :: rest =>
    scanPrerequisites z (collectValues sets name rtype rdatas) rest

def sameSet (held wanted : List RecordData) : Bool :=
  held.length == wanted.length && (held.all wanted.contains) && wanted.all held.contains

/-- Check every prerequisite against the zone (RFC 2136 §3.2). -/
def checkPrerequisites (z : Zone) (prerequisites : List Prerequisite) : Except Rejected Unit := do
  let sets ← scanPrerequisites z [] prerequisites
  sets.forM fun (name, rtype, wanted) =>
    let held := (z.query name (.of rtype)).map ZoneRecord.rdata
    if held.isEmpty then throw ⟨.noSuchResourceRecordSet, "no RRset to match against"⟩
    else if !sameSet held wanted then throw ⟨.noSuchResourceRecordSet, "another RRset"⟩
    else pure ()

/-! ## Applying -/

/-- A change RFC 2136 §3.4.2 required be dropped, and the rule that dropped it. -/
structure Ignored where
  name : Name
  rtype : Rtype
  why : String
deriving DecidableEq

structure Working where
  origin : Name
  records : List ZoneRecord
  changed : Nat
  ignored : List Ignored
  serialMovedByUpdate : Bool

def serialOf (rdata : RecordData) : Option Serial :=
  match rdata.parse with
  | .ok (.soa _ _ serial _ _ _ _) => some serial
  | _ => none

def replaces (name : Name) (rdata : RecordData) (record : ZoneRecord) : Bool :=
  record.name.same name && record.rtype == rdata.rtype &&
    (rdata.rtype == CNAME || rdata.rtype == SOA ||
      rdata.rtype == DNAME || record.rdata == rdata)

def bumpFirst (origin : Name) : List ZoneRecord → List ZoneRecord
  | [] => []
  | record :: rest =>
    if record.rtype ≠ SOA ∨ !record.name.same origin then record :: bumpFirst origin rest
    else match record.rdata.parse with
      | .ok (.soa mname rname serial refresh retry expire minimum) =>
        match RecordData.fromParsed
          (.soa mname rname (serial.wrappingAdd 1) refresh retry expire minimum) with
        | .ok rdata => { record with rdata } :: rest
        | .error _ => record :: rest
      | _ => record :: bumpFirst origin rest

namespace Working

def new (z : Zone) : Working := ⟨z.origin, z.records, 0, [], false⟩

def isApex (w : Working) (name : Name) : Bool := name.same w.origin

def hasType (w : Working) (name : Name) (rtype : Rtype) : Bool :=
  w.records.any fun r => r.name.same name && r.rtype == rtype

/-- Anything RFC 1034 §3.6.2 would call other data beside a CNAME. -/
def hasOtherDataBesideACname (w : Working) (name : Name) : Bool :=
  w.records.any fun r =>
    r.name.same name && !(r.rtype == CNAME || besideCname r.rtype)

def count (w : Working) (name : Name) (rtype : Rtype) : Nat :=
  (w.records.filter fun r => r.name.same name && r.rtype == rtype).length

def countMatching (w : Working) (name : Name) (rdata : RecordData) : Nat :=
  (w.records.filter fun r => r.name.same name && r.rdata == rdata).length

def soaSerialAt (w : Working) (name : Name) : Option Serial :=
  (w.records.find? fun r => r.name.same name && r.rtype == SOA).bind fun r =>
    serialOf r.rdata

def acceptsSoa (w : Working) (record : ResourceRecord) : Bool :=
  match w.soaSerialAt record.name, serialOf record.rdata with
  | some current, some offered => offered.isNewerThan current
  | _, _ => false

def dropsAdd (w : Working) (record : ResourceRecord) : Option String :=
  let rtype := record.rdata.rtype
  if rtype = CNAME ∧ w.hasOtherDataBesideACname record.name then
    some "RFC 2136 §3.4.2.7: a CNAME may not be added where other data exists"
  else if rtype ≠ CNAME ∧ w.hasType record.name CNAME then
    some "RFC 2136 §3.4.2.7: data may not be added where a CNAME exists"
  else if rtype = SOA ∧ !w.acceptsSoa record then
    some "RFC 2136 §3.4.2.2: an SOA is ignored unless its serial is newer"
  else none

def drop (w : Working) (name : Name) (rtype : Rtype) (why : String) : Working :=
  { w with ignored := w.ignored ++ [⟨name, rtype, why⟩] }

def remove (w : Working) (doomed : ZoneRecord → Bool) : Working :=
  let kept := w.records.filter fun r => !doomed r
  { w with records := kept, changed := w.changed + (w.records.length - kept.length) }

/-- §3.4.2.2, §3.4.2.7: an add joins its RRset or replaces a record. -/
def addRecord (w : Working) (record : ResourceRecord) : Working :=
  match w.dropsAdd record with
  | some why => w.drop record.name record.rdata.rtype why
  | none =>
    let replacement : ZoneRecord := ⟨record.name, record.ttl, record.cls, record.rdata⟩
    match w.records.findIdx? (replaces record.name record.rdata) with
    | some position =>
      let same := w.records[position]?.any fun held =>
        held.ttl == record.ttl && held.cls == record.cls && held.rdata == record.rdata
      { w with
        records := w.records.set position replacement
        changed := if same then w.changed else w.changed + 1
        serialMovedByUpdate := w.serialMovedByUpdate ||
          (record.rdata.rtype == SOA && w.isApex record.name) }
    | none => { w with records := w.records ++ [replacement], changed := w.changed + 1 }

def isApexRrset (rtype : Rtype) : Bool := rtype == SOA || rtype == NS

def applyChange (w : Working) : Change → Working
  | .add record => w.addRecord record
  | .deleteRrset name rtype =>
    if w.isApex name ∧ isApexRrset rtype then
      w.drop name rtype "RFC 2136 §3.4.2.3: the apex SOA and NS RRsets are not deleted"
    else w.remove fun r => r.name.same name && r.rtype == rtype
  | .deleteName name =>
    let apex := w.isApex name
    let w := w.remove fun r => r.name.same name && !(apex && isApexRrset r.rtype)
    if apex then w.drop name ANY "RFC 2136 §3.4.2.3: the apex SOA and NS RRsets survive"
    else w
  | .deleteRecord name rtype rdata =>
    if w.isApex name ∧ rtype = SOA then
      w.drop name rtype "RFC 2136 §3.4.2.4: the apex SOA is not deleted"
    else if w.isApex name ∧ rtype = NS ∧ w.countMatching name rdata > 0 ∧
        w.count name NS = w.countMatching name rdata then
      w.drop name rtype "RFC 2136 §3.4.2.4: the last apex NS is not deleted"
    else w.remove fun r => r.name.same name && r.rdata == rdata

/-- RFC 2136 §3.6: the serial moves, unless nothing changed or the update moved it. -/
def settle (w : Working) : Working :=
  if w.changed > 0 ∧ w.serialMovedByUpdate = false then
    { w with records := bumpFirst w.origin w.records }
  else w

def intoZone (w : Working) : Zone := w.records.foldl Zone.add (Zone.new w.origin)

end Working

/-- What `apply` did. -/
structure Applied where
  zone : Zone
  changed : Nat
  ignored : List Ignored

/-- Apply an UPDATE's changes to a zone (RFC 2136 §3.4.2), in order. -/
def applyUpdate (z : Zone) (changes : List Change) : Applied :=
  let w := (changes.foldl Working.applyChange (Working.new z)).settle
  ⟨w.intoZone, w.changed, w.ignored⟩

/-! ## What the loader asks of a zone, and of a record added to one -/

def OneDname (records : List ZoneRecord) : Prop :=
  records.Pairwise fun a b => a.rtype = DNAME → b.rtype = DNAME →
    a.name.same b.name = false

variable {records others : List ZoneRecord} {origin : Name} {w : Working} {record : ResourceRecord}
  {z : Zone} {changes : List Change} {r : ZoneRecord}

theorem OneDname.perm (h : OneDname records) (hperm : records.Perm others) : OneDname others := by
  refine (hperm.pairwise_iff ?_).mp h
  intro a b hab hb ha
  rw [Name.same_comm]
  exact hab ha hb

/-- **What an UPDATE keeps**, of the rules the loader has. -/
structure Kept (records : List ZoneRecord) : Prop where
  classIn : ∀ r ∈ records, r.cls = .IN
  cnameAlone : CnameAlone records
  oneDname : OneDname records

theorem Kept.perm (h : Kept records) (hperm : records.Perm others) : Kept others :=
  ⟨fun r hr => h.classIn r (hperm.mem_iff.mpr hr), h.cnameAlone.perm hperm, h.oneDname.perm hperm⟩

theorem Kept.sublist {fewer : List ZoneRecord} (h : Kept records) (hsub : fewer.Sublist records) :
    Kept fewer where
  classIn := fun r hr => h.classIn r (hsub.subset hr)
  cnameAlone := fun a ha b hb => h.cnameAlone a (hsub.subset ha) b (hsub.subset hb)
  oneDname := List.Pairwise.sublist hsub h.oneDname

/-- **The loader's own rules**, over a list of records. -/
structure Loadable (origin : Name) (records : List ZoneRecord) : Prop where
  classIn : ∀ r ∈ records, r.cls = .IN
  cnameAlone : CnameAlone records
  dnameRules : DnameRules origin records

theorem Loadable.kept (h : Loadable origin records) : Kept records :=
  ⟨h.classIn, h.cnameAlone, h.dnameRules.single⟩

theorem Loadable.perm (h : Loadable origin records) (hperm : records.Perm others) :
    Loadable origin others :=
  ⟨fun r hr => h.classIn r (hperm.mem_iff.mpr hr), h.cnameAlone.perm hperm, h.dnameRules.perm hperm⟩

theorem Loadable.sublist {fewer : List ZoneRecord} (h : Loadable origin records)
    (hsub : fewer.Sublist records) : Loadable origin fewer where
  classIn := fun r hr => h.classIn r (hsub.subset hr)
  cnameAlone := fun a ha b hb => h.cnameAlone a (hsub.subset ha) b (hsub.subset hb)
  dnameRules :=
    { notWildcard := fun r hr => h.dnameRules.notWildcard r (hsub.subset hr)
      single := h.dnameRules.single.sublist hsub
      notBesideNs := fun r hr hd ho s hs =>
        h.dnameRules.notBesideNs r (hsub.subset hr) hd ho s (hsub.subset hs)
      nothingBelow := fun r hr hd s hs =>
        h.dnameRules.nothingBelow r (hsub.subset hr) hd s (hsub.subset hs) }

/-- **What the rules ask of a record that joins `records`**, beyond what applying an
UPDATE sees to. -/
structure AddOk (origin : Name) (records : List ZoneRecord) (record : ZoneRecord) : Prop where
  classIn : record.cls = .IN
  notWildcard : record.rtype = DNAME → record.name.labels.head? ≠ some ASTERISK
  notBesideNs : record.rtype = DNAME → record.name.same origin = false →
    ∀ s ∈ records, s.key = record.name.wire → s.rtype ≠ NS
  nsBeside : record.rtype = NS → ∀ r ∈ records, r.rtype = DNAME →
    r.name.same origin = false → record.key ≠ r.name.wire
  coversNone : record.rtype = DNAME → ∀ s ∈ records, belowDname s.rtype = false →
    s.name.isAtOrUnder record.name = true → s.name.same record.name = true
  notBelow : belowDname record.rtype = false → ∀ r ∈ records, r.rtype = DNAME →
    record.name.isAtOrUnder r.name = true → record.name.same r.name = true

/-- What applying an UPDATE sees to: no CNAME beside other data, no second DNAME. -/
structure Fits (records : List ZoneRecord) (record : ZoneRecord) : Prop where
  cname : record.rtype = CNAME → ∀ b ∈ records, record.name.same b.name = true →
    b.rtype = CNAME ∨ besideCname b.rtype = true
  beside : ∀ a ∈ records, a.rtype = CNAME → a.name.same record.name = true →
    record.rtype = CNAME ∨ besideCname record.rtype = true
  single : record.rtype = DNAME → ∀ b ∈ records, b.rtype = DNAME →
    record.name.same b.name = false

theorem kept_cons {record : ZoneRecord} (hrecords : Kept records) (hfits : Fits records record)
    (hcls : record.cls = .IN) : Kept (record :: records) := by
  refine ⟨List.forall_mem_cons.mpr ⟨hcls, hrecords.classIn⟩, ?_, ?_⟩
  · intro a ha b hb hcname hsame
    rcases List.mem_cons.mp ha with rfl | hold
    · rcases List.mem_cons.mp hb with rfl | hb
      · exact .inl hcname
      · exact hfits.cname hcname b hb hsame
    · rcases List.mem_cons.mp hb with rfl | hb
      · exact hfits.beside a hold hcname hsame
      · exact hrecords.cnameAlone a hold b hb hcname hsame
  · exact List.pairwise_cons.mpr
      ⟨fun b hb hd hbd => hfits.single hd b hb hbd, hrecords.oneDname⟩

/-- **A record joins a loadable zone** exactly when it fits and the rules allow it. -/
theorem loadable_cons_iff {record : ZoneRecord} (hrecords : Loadable origin records)
    (hfits : Fits records record) :
    Loadable origin (record :: records) ↔ AddOk origin records record := by
  constructor
  · intro h
    have hmem : ∀ r ∈ records, r ∈ record :: records := fun r hr => List.mem_cons_of_mem _ hr
    have hself : record ∈ record :: records := List.mem_cons_self
    refine ⟨h.classIn _ hself, h.dnameRules.notWildcard _ hself, fun hd ho s hs => ?_,
      fun hns r hr hd ho hkey => ?_, fun hd s hs => ?_, fun hb r hr hd => ?_⟩
    · exact h.dnameRules.notBesideNs _ hself hd ho s (hmem s hs)
    · exact h.dnameRules.notBesideNs r (hmem r hr) hd ho _ hself hkey hns
    · exact h.dnameRules.nothingBelow _ hself hd s (hmem s hs)
    · exact h.dnameRules.nothingBelow r (hmem r hr) hd _ hself hb
  · intro hadd
    have hkept := kept_cons hrecords.kept hfits hadd.classIn
    refine ⟨hkept.classIn, hkept.cnameAlone, ?_, hkept.oneDname, ?_, ?_⟩
    · exact List.forall_mem_cons.mpr ⟨hadd.notWildcard, hrecords.dnameRules.notWildcard⟩
    · intro r hr hd ho s hs hkey hns
      rcases List.mem_cons.mp hr with rfl | hold
      · rcases List.mem_cons.mp hs with rfl | hs
        · rw [hd] at hns
          exact absurd hns (by decide)
        · exact hadd.notBesideNs hd ho s hs hkey hns
      · rcases List.mem_cons.mp hs with rfl | hs
        · exact hadd.nsBeside hns r hold hd ho hkey
        · exact hrecords.dnameRules.notBesideNs r hold hd ho s hs hkey hns
    · intro r hr hd s hs hb hunder
      rcases List.mem_cons.mp hr with rfl | hold
      · rcases List.mem_cons.mp hs with rfl | hs
        · exact Name.same_self _
        · exact hadd.coversNone hd s hs hb hunder
      · rcases List.mem_cons.mp hs with rfl | hs
        · exact hadd.notBelow hb r hold hd hunder
        · exact hrecords.dnameRules.nothingBelow r hold hd s hs hb hunder

theorem addOk_cons_iff {record old : ZoneRecord} (hsame : old.name.same record.name = true)
    (hrtype : old.rtype = record.rtype) :
    AddOk origin (old :: records) record ↔ AddOk origin records record := by
  constructor
  · intro h
    exact ⟨h.classIn, h.notWildcard, fun hd ho s hs => h.notBesideNs hd ho s (.tail _ hs),
      fun hns r hr => h.nsBeside hns r (.tail _ hr), fun hd s hs => h.coversNone hd s (.tail _ hs),
      fun hb r hr => h.notBelow hb r (.tail _ hr)⟩
  · intro h
    refine ⟨h.classIn, h.notWildcard, fun hd ho => ?_, fun hns => ?_, fun hd => ?_, fun hb => ?_⟩
    · refine List.forall_mem_cons.mpr ⟨fun _ hns => ?_, h.notBesideNs hd ho⟩
      rw [hrtype, hd] at hns
      exact absurd hns (by decide)
    · refine List.forall_mem_cons.mpr ⟨fun hd => ?_, h.nsBeside hns⟩
      rw [hrtype, hns] at hd
      exact absurd hd (by decide)
    · exact List.forall_mem_cons.mpr ⟨fun _ _ => hsame, h.coversNone hd⟩
    · exact List.forall_mem_cons.mpr ⟨fun _ _ => (Name.same_comm _ _).trans hsame, h.notBelow hb⟩

theorem addOk_perm {record : ZoneRecord} (hperm : records.Perm others)
    (h : AddOk origin records record) : AddOk origin others record :=
  ⟨h.classIn, h.notWildcard, fun hd ho s hs => h.notBesideNs hd ho s (hperm.mem_iff.mpr hs),
    fun hns r hr => h.nsBeside hns r (hperm.mem_iff.mpr hr),
    fun hd s hs => h.coversNone hd s (hperm.mem_iff.mpr hs),
    fun hb r hr => h.notBelow hb r (hperm.mem_iff.mpr hr)⟩

/-! ## One change -/

theorem fits_of_not_dropped (hdrop : w.dropsAdd record = none) {rest : List ZoneRecord}
    (hrest : ∀ r ∈ rest, r ∈ w.records)
    (hsingle : record.rdata.rtype = DNAME → ∀ b ∈ rest, b.rtype = DNAME →
      record.name.same b.name = false) : Fits rest (zoneRecord record) := by
  rw [Working.dropsAdd] at hdrop
  rcases ite_eq_iff.mp hdrop with ⟨-, h⟩ | ⟨hother, hdrop⟩
  · cases h
  rcases ite_eq_iff.mp hdrop with ⟨-, h⟩ | ⟨hcname, -⟩
  · cases h
  refine ⟨fun hc b hb hsame => ?_, fun a ha hac hsame => ?_, hsingle⟩
  · by_contra hclash
    refine hother ⟨hc, List.any_eq_true.mpr ⟨b, hrest b hb, ?_⟩⟩
    rw [Name.same_comm] at hsame
    simp only [not_or, Bool.not_eq_true] at hclash
    simp only [hclash.2, Bool.or_false, Bool.and_eq_true, Bool.not_eq_true', beq_eq_false_iff_ne]
    exact ⟨hsame, hclash.1⟩
  · by_contra hclash
    rw [not_or] at hclash
    refine hcname ⟨hclash.1, List.any_eq_true.mpr ⟨a, hrest a ha, ?_⟩⟩
    rw [Bool.and_eq_true]
    exact ⟨hsame, beq_iff_eq.mpr hac⟩

/-- **What an add that is not dropped does to the records**: the record joins the rest, which are
all of them where it replaces none, and all but the one it replaces otherwise. -/
theorem addRecord_joins (hdrop : w.dropsAdd record = none) :
    ∃ rest, (w.addRecord record).records.Perm (zoneRecord record :: rest) ∧ (∀ r ∈ rest, r ∈ w.records) ∧
      ((w.records = rest ∧ ∀ r ∈ rest, replaces record.name record.rdata r = false) ∨
        ∃ old, w.records.Perm (old :: rest) ∧ replaces record.name record.rdata old = true) := by
  cases hfind : w.records.findIdx? (replaces record.name record.rdata) with
  | none =>
    refine ⟨w.records, ?_, fun _ h => h, .inl ⟨rfl, fun r hr => ?_⟩⟩
    · rw [Working.addRecord, hdrop]
      dsimp only
      rw [hfind]
      exact List.perm_append_singleton _ _
    · exact Bool.eq_false_iff.mpr (Bool.eq_false_iff.mp (List.findIdx?_eq_none_iff.mp hfind r hr))
  | some position =>
    obtain ⟨hlt, hat, -⟩ := List.findIdx?_eq_some_iff_getElem.mp hfind
    refine ⟨w.records.eraseIdx position, ?_, fun r hr => List.mem_of_mem_eraseIdx hr,
      .inr ⟨w.records[position], (List.getElem_cons_eraseIdx_perm hlt).symm, hat⟩⟩
    rw [Working.addRecord, hdrop]
    dsimp only
    rw [hfind]
    exact List.set_perm_cons_eraseIdx hlt _

theorem replaces_shape {old : ZoneRecord} (h : replaces record.name record.rdata old = true) :
    old.name.same record.name = true ∧ old.rtype = record.rdata.rtype := by
  rw [replaces, Bool.and_eq_true, Bool.and_eq_true, beq_iff_eq] at h
  exact h.1

theorem alone_of_joins {rest : List ZoneRecord}
    (hsingle : (record.rdata.rtype == CNAME || record.rdata.rtype == SOA ||
      record.rdata.rtype == DNAME) = true)
    (hpairs : records.Pairwise fun a b => a.rtype = record.rdata.rtype → b.rtype = record.rdata.rtype →
      a.name.same b.name = false)
    (hrest : (records = rest ∧ ∀ r ∈ rest, replaces record.name record.rdata r = false) ∨
      ∃ old, records.Perm (old :: rest) ∧ replaces record.name record.rdata old = true) :
    ∀ b ∈ rest, b.rtype = record.rdata.rtype → record.name.same b.name = false := by
  intro b hb hbtype
  by_contra hagain
  rw [Bool.not_eq_false] at hagain
  rcases hrest with ⟨-, hnone⟩ | ⟨old, hperm, hold⟩
  · have hnot := hnone b hb
    rw [Name.same_comm] at hagain
    rw [replaces, hagain, hbtype, hsingle, beq_self_eq_true] at hnot
    cases hnot
  · obtain ⟨hsame, hrtype⟩ := replaces_shape hold
    have hsymm : ∀ {a c : ZoneRecord}, (a.rtype = record.rdata.rtype → c.rtype = record.rdata.rtype →
        a.name.same c.name = false) → c.rtype = record.rdata.rtype → a.rtype = record.rdata.rtype →
        c.name.same a.name = false := by
      intro a c h hc ha
      rw [Name.same_comm]
      exact h ha hc
    have happart := (List.pairwise_cons.mp (hpairs.perm hperm hsymm)).1 b hb hrtype hbtype
    rw [Name.same_trans hsame hagain] at happart
    cases happart

/-- **What an add does to the records**: nothing where a rule drops it; otherwise the
record joins the rest, which are all of them or all but one of its name and type. -/
theorem addRecord_cases (hw : OneDname w.records) (record : ResourceRecord) :
    ((w.dropsAdd record).isSome = true ∧ (w.addRecord record).records = w.records) ∨
    (w.dropsAdd record = none ∧ ∃ rest, (w.addRecord record).records.Perm (zoneRecord record :: rest) ∧
      Fits rest (zoneRecord record) ∧
      (w.records = rest ∨ ∃ old, w.records.Perm (old :: rest) ∧
        old.name.same record.name = true ∧ old.rtype = record.rdata.rtype)) := by
  cases hdrop : w.dropsAdd record with
  | some why =>
    refine .inl ⟨rfl, ?_⟩
    rw [Working.addRecord, hdrop]
    rfl
  | none =>
    obtain ⟨rest, hperm, hsub, hrest⟩ := addRecord_joins hdrop
    refine .inr ⟨rfl, rest, hperm, fits_of_not_dropped hdrop hsub fun hd b hb hbd => ?_, ?_⟩
    · refine alone_of_joins (by rw [hd]; decide) ?_ hrest b hb (hbd.trans hd.symm)
      rw [hd]
      exact hw
    · grind [replaces_shape]

def ChangeOk (w : Working) : Change → Prop
  | .add record => w.dropsAdd record = none → AddOk w.origin w.records (zoneRecord record)
  | _ => True

theorem remove_loadable (hw : Loadable w.origin w.records) (doomed : ZoneRecord → Bool) :
    Loadable w.origin (w.remove doomed).records :=
  hw.sublist List.filter_sublist

/-- **One change**, to a zone that keeps the rules: the result keeps them exactly when
the change is one they allow. -/
theorem applyChange_loadable_iff (hw : Loadable w.origin w.records) (change : Change) :
    Loadable w.origin (w.applyChange change).records ↔ ChangeOk w change := by
  cases change with
  | add record =>
    show Loadable w.origin (w.addRecord record).records ↔ _
    rcases addRecord_cases hw.dnameRules.single record with ⟨hdrop, hsame⟩ | ⟨hdrop, rest, hperm, hfits, hrest⟩
    · rw [hsame]
      refine ⟨fun _ hnone => ?_, fun _ => hw⟩
      rw [hnone] at hdrop
      cases hdrop
    · have hstays : Loadable w.origin rest ∧
          (AddOk w.origin w.records (zoneRecord record) ↔ AddOk w.origin rest (zoneRecord record)) := by
        rcases hrest with rfl | ⟨old, hold, hsame, hrtype⟩
        · exact ⟨hw, Iff.rfl⟩
        · refine ⟨(hw.perm hold).sublist (List.sublist_cons_self _ _), ?_⟩
          have hmore : AddOk w.origin (old :: rest) (zoneRecord record) ↔ _ :=
            addOk_cons_iff hsame hrtype
          exact ⟨fun h => hmore.mp (addOk_perm hold h), fun h => addOk_perm hold.symm (hmore.mpr h)⟩
      have hjoin := loadable_cons_iff hstays.1 hfits
      constructor
      · intro h _
        exact hstays.2.mpr (hjoin.mp (h.perm hperm))
      · intro h
        exact (hjoin.mpr (hstays.2.mp (h hdrop))).perm hperm.symm
  | deleteRrset name rtype =>
    refine iff_of_true ?_ trivial
    rw [Working.applyChange]
    split
    · exact hw
    · exact remove_loadable hw _
  | deleteName name =>
    refine iff_of_true ?_ trivial
    rw [Working.applyChange]
    split
    · exact remove_loadable hw _
    · exact remove_loadable hw _
  | deleteRecord name rtype rdata =>
    refine iff_of_true ?_ trivial
    rw [Working.applyChange]
    split
    · exact hw
    · split
      · exact hw
      · exact remove_loadable hw _

def AddsIn (changes : List Change) : Prop := ∀ record, .add record ∈ changes → record.cls = .IN

/-- **One change keeps what an UPDATE keeps.** -/
theorem Kept.applyChange (hw : Kept w.records) (change : Change)
    (hin : ∀ record, change = .add record → record.cls = .IN) :
    Kept (w.applyChange change).records := by
  cases change with
  | add record =>
    show Kept (w.addRecord record).records
    rcases addRecord_cases hw.oneDname record with ⟨-, hsame⟩ | ⟨-, rest, hperm, hfits, hrest⟩
    · rw [hsame]
      exact hw
    · have hstays : Kept rest := by
        rcases hrest with rfl | ⟨old, hold, -, -⟩
        · exact hw
        · exact (hw.perm hold).sublist (List.sublist_cons_self _ _)
      exact (kept_cons hstays hfits (hin record rfl)).perm hperm.symm
  | deleteRrset name rtype =>
    rw [Working.applyChange]
    split
    · exact hw
    · exact hw.sublist List.filter_sublist
  | deleteName name =>
    rw [Working.applyChange]
    split
    · exact hw.sublist List.filter_sublist
    · exact hw.sublist List.filter_sublist
  | deleteRecord name rtype rdata =>
    rw [Working.applyChange]
    split
    · exact hw
    · split
      · exact hw
      · exact hw.sublist List.filter_sublist

theorem Kept.foldl (hw : Kept w.records) (hin : AddsIn changes) :
    Kept (changes.foldl Working.applyChange w).records := by
  induction changes generalizing w with
  | nil => exact hw
  | cons change rest ih =>
    refine ih (hw.applyChange change fun record hadd => ?_) fun record hmem => ?_
    · exact hin record (hadd ▸ List.mem_cons_self)
    · exact hin record (List.mem_cons_of_mem _ hmem)

theorem applyChange_origin (w : Working) (change : Change) :
    (w.applyChange change).origin = w.origin := by
  cases change with
  | add record =>
    show (w.addRecord record).origin = w.origin
    rw [Working.addRecord]
    split
    · rfl
    · dsimp only
      split <;> rfl
  | deleteRrset name rtype =>
    rw [Working.applyChange]
    split <;> rfl
  | deleteName name =>
    rw [Working.applyChange]
    split <;> rfl
  | deleteRecord name rtype rdata =>
    rw [Working.applyChange]
    split
    · rfl
    · split <;> rfl

/-! ## A whole message -/

def ChangesOk (w : Working) : List Change → Prop
  | [] => True
  | change :: rest => ChangeOk w change ∧ ChangesOk (w.applyChange change) rest

/-- **Every state of the run keeps the rules exactly when every change is allowed.** -/
theorem run_loadable_iff (hw : Loadable w.origin w.records) (changes : List Change) :
    (∀ n, Loadable w.origin ((changes.take n).foldl Working.applyChange w).records) ↔
      ChangesOk w changes := by
  induction changes generalizing w with
  | nil =>
    refine iff_of_true (fun n => ?_) trivial
    rw [List.take_nil]
    exact hw
  | cons change rest ih =>
    have hstep := applyChange_loadable_iff hw change
    have horigin := applyChange_origin w change
    rw [ChangesOk]
    constructor
    · intro h
      have hone := h 1
      rw [List.take_succ_cons, List.take_zero] at hone
      refine ⟨hstep.mp hone, (ih (horigin.symm ▸ hone)).mp fun n => ?_⟩
      rw [horigin]
      exact h (n + 1)
    · rintro ⟨hfirst, hrest⟩ n
      cases n with
      | zero => exact hw
      | succ n =>
        have hnext := (ih (horigin.symm ▸ hstep.mpr hfirst)).mpr hrest n
        rw [horigin] at hnext
        exact hnext

def ruledShape (r : ZoneRecord) : ZoneRecord := ⟨r.name, ⟨0⟩, r.cls, ⟨r.rtype, []⟩⟩

theorem loadable_ruledShape :
    Loadable origin (records.map ruledShape) ↔ Loadable origin records := by
  constructor
  · intro h
    have hmem : ∀ r ∈ records, ruledShape r ∈ records.map ruledShape :=
      fun r hr => List.mem_map_of_mem hr
    exact ⟨fun r hr => h.classIn (ruledShape r) (hmem r hr),
      fun a ha b hb => h.cnameAlone (ruledShape a) (hmem a ha) (ruledShape b) (hmem b hb),
      fun r hr => h.dnameRules.notWildcard (ruledShape r) (hmem r hr),
      List.pairwise_map.mp h.dnameRules.single,
      fun r hr hd ho s hs =>
        h.dnameRules.notBesideNs (ruledShape r) (hmem r hr) hd ho (ruledShape s) (hmem s hs),
      fun r hr hd s hs =>
        h.dnameRules.nothingBelow (ruledShape r) (hmem r hr) hd (ruledShape s) (hmem s hs)⟩
  · intro h
    refine ⟨?_, ?_, ?_, List.pairwise_map.mpr h.dnameRules.single, ?_, ?_⟩
    · exact List.forall_mem_map.mpr h.classIn
    · exact List.forall_mem_map.mpr fun a ha =>
        List.forall_mem_map.mpr fun b hb => h.cnameAlone a ha b hb
    · exact List.forall_mem_map.mpr h.dnameRules.notWildcard
    · exact List.forall_mem_map.mpr fun r hr hd ho =>
        List.forall_mem_map.mpr fun s hs => h.dnameRules.notBesideNs r hr hd ho s hs
    · exact List.forall_mem_map.mpr fun r hr hd =>
        List.forall_mem_map.mpr fun s hs => h.dnameRules.nothingBelow r hr hd s hs

theorem loadable_congr (h : records.map ruledShape = others.map ruledShape) :
    Loadable origin records ↔ Loadable origin others := by
  rw [← loadable_ruledShape, h, loadable_ruledShape]

theorem kept_congr (h : records.map ruledShape = others.map ruledShape) (hkept : Kept records) :
    Kept others := by
  -- the rules say the same of a record and of what they see of it
  have hshape : Kept (others.map ruledShape) := by
    rw [← h]
    exact ⟨List.forall_mem_map.mpr hkept.classIn,
      List.forall_mem_map.mpr fun a ha => List.forall_mem_map.mpr fun b hb => hkept.cnameAlone a ha b hb,
      List.pairwise_map.mpr hkept.oneDname⟩
  have hmem : ∀ r ∈ others, ruledShape r ∈ others.map ruledShape := fun r hr => List.mem_map_of_mem hr
  exact ⟨fun r hr => hshape.classIn (ruledShape r) (hmem r hr),
    fun a ha b hb => hshape.cnameAlone (ruledShape a) (hmem a ha) (ruledShape b) (hmem b hb),
    List.pairwise_map.mp hshape.oneDname⟩

theorem bumpFirst_shape (origin : Name) (records : List ZoneRecord) :
    (bumpFirst origin records).map ruledShape = records.map ruledShape := by
  induction records with
  | nil => rfl
  | cons record rest ih =>
    rw [bumpFirst]
    split
    · rw [List.map_cons, List.map_cons, ih]
    · rename_i hsoa
      split
      · split
        · rename_i rdata hdata
          have hrtype : rdata.rtype = record.rtype := by
            rw [not_or, not_not] at hsoa
            rw [hsoa.1]
            exact (RecordData.fromParsed_eq_ok hdata).1
          rw [List.map_cons, List.map_cons]
          show (⟨_, _, _, ⟨rdata.rtype, []⟩⟩ : ZoneRecord) :: _ = _
          rw [hrtype]
          rfl
        · rfl
      · rw [List.map_cons, List.map_cons, ih]

open Rdns.Present Zone

theorem intoZone_records (w : Working) :
    ZoneOk w.intoZone ∧ w.intoZone.origin = w.origin ∧
      w.intoZone.records.map ruledShape = w.records.map ruledShape := by
  have hfold : w.intoZone =
      (w.records.map fun r => { r with rdata := stored r.rdata }).foldl Zone.takeIn
        (Zone.new w.origin) := by
    rw [List.foldl_map]
    rfl
  obtain ⟨hrecords, horigin⟩ := foldl_takeIn
    (w.records.map fun r => { r with rdata := stored r.rdata }) (Zone.new w.origin)
  rw [hfold]
  refine ⟨(zoneOk_new _).foldl_takeIn _, horigin, ?_⟩
  rw [hrecords]
  show List.map _ (List.map _ _) = _
  rw [List.map_map]
  refine List.map_congr_left fun r _ => ?_
  show (⟨_, _, _, ⟨(stored r.rdata).rtype, []⟩⟩ : ZoneRecord) = _
  rfl

/-- **The loader's verdict on a zone in memory.** -/
structure Reloads (z : Zone) : Prop where
  classIn : ∀ r ∈ z.records, r.cls = .IN
  cname : checkCnameExclusivity z = .ok ()
  dname : checkDnameRules z = .ok ()

theorem reloads_iff (h : ZoneOk z) : Reloads z ↔ Loadable z.origin z.records := by
  constructor
  · intro hr
    exact ⟨hr.classIn, (checkCnameExclusivity_iff h).mp hr.cname, (checkDnameRules_iff h).mp hr.dname⟩
  · intro hl
    exact ⟨hl.classIn, (checkCnameExclusivity_iff h).mpr hl.cnameAlone,
      (checkDnameRules_iff h).mpr hl.dnameRules⟩

theorem foldl_applyChange_origin (w : Working) (changes : List Change) :
    (changes.foldl Working.applyChange w).origin = w.origin := by
  induction changes generalizing w with
  | nil => rfl
  | cons change rest ih =>
    rw [List.foldl_cons, ih, applyChange_origin]

theorem settle_shape (w : Working) :
    w.settle.origin = w.origin ∧ w.settle.records.map ruledShape = w.records.map ruledShape := by
  rw [Working.settle]
  split
  · exact ⟨rfl, bumpFirst_shape _ _⟩
  · exact ⟨rfl, rfl⟩

theorem applyUpdate_reloads_iff (z : Zone) (changes : List Change) :
    Reloads (applyUpdate z changes).zone ↔
      Loadable z.origin (changes.foldl Working.applyChange (Working.new z)).records := by
  obtain ⟨hok, horigin, hshape⟩ :=
    intoZone_records (changes.foldl Working.applyChange (Working.new z)).settle
  obtain ⟨hsettled, hsame⟩ := settle_shape (changes.foldl Working.applyChange (Working.new z))
  refine (reloads_iff hok).trans ?_
  rw [horigin, hsettled, foldl_applyChange_origin, loadable_congr (hshape.trans hsame)]
  rfl

variable (b64 : Base64) (fs : FileSystem)

theorem update_kept (hz : Kept z.records) (hin : AddsIn changes) :
    Kept (applyUpdate z changes).zone.records := by
  obtain ⟨-, -, hshape⟩ :=
    intoZone_records (changes.foldl Working.applyChange (Working.new z)).settle
  refine kept_congr (hshape.trans (settle_shape _).2).symm ?_
  exact Kept.foldl (w := Working.new z) hz hin

theorem update_reloads_iff (hz : Loadable z.origin z.records) (changes : List Change) :
    (∀ n, Reloads (applyUpdate z (changes.take n)).zone) ↔ ChangesOk (Working.new z) changes := by
  refine Iff.trans ?_ (run_loadable_iff (w := Working.new z) hz changes)
  exact forall_congr' fun n => applyUpdate_reloads_iff z (changes.take n)

/-- **What an UPDATE leaves reads back from its own text**, wherever the text lies, if every
change was allowed and each record's own text reads back. -/
theorem update_reads_back (hz : Loadable z.origin z.records)
    (hchanges : ChangesOk (Working.new z) changes)
    (hreads : ∀ r ∈ (applyUpdate z changes).zone.records, ReadsBack b64 r.rdata ∧ r.ttl.secs.toNat < 2147483648)
    {apexText : Text} {apex : Name} (hapex : fromPresentation apexText = .ok apex) :
    ∃ text back, zoneToString b64 (applyUpdate z changes).zone = .ok text ∧
      (∀ (fs : FileSystem) (base : Option fs.Path), parseZoneFile b64 fs base text apexText = .ok back) ∧
      back.origin = z.origin ∧ back.records.Perm (applyUpdate z changes).zone.records := by
  obtain ⟨hok, horigin, -⟩ := intoZone_records (changes.foldl Working.applyChange (Working.new z)).settle
  have hreloads := (update_reloads_iff hz changes).mpr hchanges changes.length
  rw [List.take_length] at hreloads
  have hl := (reloads_iff hok).mp hreloads
  obtain ⟨text, back, htext, hback, hbackOrigin, hrecords⟩ := parse_written_anywhere b64 hreloads.classIn
    (fun r hr => (hreads r hr).2) (fun r hr => (hreads r hr).1) hl.cnameAlone hl.dnameRules hapex
  refine ⟨text, back, htext, hback, ?_, ?_⟩
  · rw [hbackOrigin]
    exact horigin.trans ((settle_shape _).1.trans (foldl_applyChange_origin _ _))
  · rw [hrecords]
    exact writtenOrder_perm _

def Change.owner : Change → Name
  | .add record => record.name
  | .deleteRrset name _ => name
  | .deleteName name => name
  | .deleteRecord name _ _ => name

theorem mem_applyChange {change : Change} (hr : r ∈ w.records)
    (hname : r.name.same change.owner = false) : r ∈ (w.applyChange change).records := by
  have hremove : ∀ doomed : ZoneRecord → Bool, doomed r = false → r ∈ (w.remove doomed).records := by
    intro doomed hkept
    exact List.mem_filter.mpr ⟨hr, by rw [hkept]; rfl⟩
  cases change with
  | add record =>
    show r ∈ (w.addRecord record).records
    rw [Working.addRecord]
    split
    · exact hr
    · dsimp only
      split
      · rename_i position hfound
        obtain ⟨hlt, hat, -⟩ := List.findIdx?_eq_some_iff_getElem.mp hfound
        obtain ⟨i, hi⟩ := List.mem_iff_getElem?.mp hr
        have hne : position ≠ i := by
          rintro rfl
          rw [List.getElem?_eq_getElem hlt, Option.some.injEq] at hi
          rw [hi, replaces, show r.name.same record.name = false from hname] at hat
          cases hat
        refine List.mem_iff_getElem?.mpr ⟨i, ?_⟩
        rw [List.getElem?_set_ne hne]
        exact hi
      · exact List.mem_append_left _ hr
  | deleteRrset name rtype =>
    rw [Working.applyChange]
    split
    · exact hr
    · exact hremove _ (by rw [show r.name.same name = false from hname]; rfl)
  | deleteName name =>
    rw [Working.applyChange]
    have hkept := hremove (fun r => r.name.same name && !(w.isApex name && Working.isApexRrset r.rtype))
      (by rw [show r.name.same name = false from hname]; rfl)
    split
    · exact hkept
    · exact hkept
  | deleteRecord name rtype rdata =>
    rw [Working.applyChange]
    split
    · exact hr
    · split
      · exact hr
      · exact hremove _ (by rw [show r.name.same name = false from hname]; rfl)

theorem mem_bumpFirst (hr : r ∈ records)
    (hsoa : r.rtype ≠ SOA ∨ r.name.same origin = false) :
    r ∈ bumpFirst origin records := by
  induction records with
  | nil => cases hr
  | cons record rest ih =>
    rw [bumpFirst]
    by_cases heq : r = record
    · grind
    · have hrest : r ∈ rest := (List.mem_cons.mp hr).resolve_left heq
      split
      · exact List.mem_cons_of_mem _ (ih hrest)
      · split
        · split
          · exact List.mem_cons_of_mem _ hrest
          · exact List.mem_cons_of_mem _ hrest
        · exact List.mem_cons_of_mem _ (ih hrest)

/-- **An UPDATE leaves a record alone** at a name none of its changes names, the apex SOA's
serial apart. -/
theorem mem_applyUpdate (hr : r ∈ z.records)
    (hnames : ∀ change ∈ changes, r.name.same change.owner = false)
    (hsoa : r.rtype ≠ SOA ∨ r.name.same z.origin = false) :
    { r with rdata := stored r.rdata } ∈ (applyUpdate z changes).zone.records := by
  have hrun : ∀ w : Working, r ∈ w.records → r ∈ (changes.foldl Working.applyChange w).records := by
    intro w hw
    induction changes generalizing w with
    | nil => exact hw
    | cons change rest ih =>
      rw [List.foldl_cons]
      exact ih (fun c hc => hnames c (List.mem_cons_of_mem _ hc)) _
        (mem_applyChange hw (hnames change List.mem_cons_self))
  have hsettled : r ∈ (changes.foldl Working.applyChange (Working.new z)).settle.records := by
    rw [Working.settle]
    split
    · refine mem_bumpFirst (hrun _ hr) ?_
      rw [foldl_applyChange_origin]
      exact hsoa
    · exact hrun _ hr
  show _ ∈ (Working.intoZone _).records
  rw [Working.intoZone]
  generalize (changes.foldl Working.applyChange (Working.new z)).settle = w at hsettled
  have hfold : (w.records.foldl Zone.add (Zone.new w.origin)) =
      (w.records.map fun r => { r with rdata := stored r.rdata }).foldl Zone.takeIn (Zone.new w.origin) := by
    rw [List.foldl_map]
    rfl
  rw [hfold, (foldl_takeIn _ _).1]
  exact List.mem_append_right _ (List.mem_map_of_mem hsettled)

theorem readChange_add {zone : Name} {cls : QueryClass} {rr : ResourceRecord}
    (h : readChange zone cls rr = .ok (.add record)) : QueryClass.ofClass record.cls = cls := by
  rw [readChange] at h
  obtain ⟨⟨⟩, -, h⟩ := except_bind_eq_ok.mp h
  dsimp only at h
  rcases ite_eq_iff.mp h with ⟨-, h⟩ | ⟨-, h⟩
  · cases h
  rcases ite_eq_iff.mp h with ⟨-, h⟩ | ⟨-, h⟩
  · cases h
  rcases ite_eq_iff.mp h with ⟨-, h⟩ | ⟨-, h⟩
  · cases h
  rcases ite_eq_iff.mp h with ⟨-, h⟩ | ⟨-, h⟩
  · cases h
  rcases ite_eq_iff.mp h with ⟨hcls, h⟩ | ⟨-, h⟩
  · cases h
    exact hcls.1
  · cases h

theorem parseUpdate_addsIn {msg : DnsMessage} {req : UpdateRequest}
    (hparse : parseUpdate msg = .ok req) (hclass : ∀ q ∈ msg.queries, q.qclass = .in) :
    AddsIn req.changes := by
  rw [parseUpdate] at hparse
  rcases ite_eq_iff.mp hparse with ⟨-, h⟩ | ⟨-, h⟩
  · cases h
  split at h
  · rename_i zoneSection hqueries
    rcases ite_eq_iff.mp h with ⟨-, h⟩ | ⟨-, h⟩
    · cases h
    obtain ⟨prerequisites, -, h⟩ := except_bind_eq_ok.mp h
    obtain ⟨changes, hchanges, h⟩ := except_bind_eq_ok.mp h
    cases h
    intro record hmem
    obtain ⟨rr, -, hread⟩ := mem_of_mapM_ok hchanges hmem
    have hcls := readChange_add hread
    rw [hclass zoneSection (hqueries ▸ List.mem_cons_self)] at hcls
    have hcode := congrArg QueryClass.toU16 hcls
    rw [QueryClass.ofClass, QueryClass.toU16_fromU16] at hcode
    cases hrecord : record.cls
    rw [hrecord] at hcode
    exact congrArg Core.Class.mk hcode
  · cases h

/-- **An UPDATE and the loader.** On every zone the loader accepts, an UPDATE in class IN
leaves every record in it, a CNAME alone at its name and one DNAME a name; every point of
it leaves a zone the loader accepts exactly when every add that takes effect is one its
DNAME rules allow; and then the file written from the result reads back, each record's own
text granted. -/
theorem update_keeps_rules {base : Option fs.Path} {content apexText : Text} {z : Zone}
    (hload : parseZoneFile b64 fs base content apexText = .ok z) {msg : DnsMessage}
    {req : UpdateRequest} (hparse : parseUpdate msg = .ok req)
    (hclass : ∀ q ∈ msg.queries, q.qclass = .in) :
    (∀ r ∈ (applyUpdate z req.changes).zone.records, r.cls = .IN) ∧
    checkCnameExclusivity (applyUpdate z req.changes).zone = .ok () ∧
    OneDname (applyUpdate z req.changes).zone.records ∧
    ((∀ n, Reloads (applyUpdate z (req.changes.take n)).zone) ↔
      ChangesOk (Working.new z) req.changes) ∧
    (ChangesOk (Working.new z) req.changes →
      (∀ r ∈ (applyUpdate z req.changes).zone.records,
        ReadsBack b64 r.rdata ∧ r.ttl.secs.toNat < 2147483648) →
      ∃ text back, zoneToString b64 (applyUpdate z req.changes).zone = .ok text ∧
        parseZoneFile b64 fs base text apexText = .ok back ∧
        back.origin = z.origin ∧ back.records.Perm (applyUpdate z req.changes).zone.records) := by
  obtain ⟨hsound, hcname, hdname⟩ := parseZoneFile_sound b64 fs hload
  have hstart : Loadable z.origin z.records :=
    (reloads_iff hsound.ok).mp ⟨hsound.classIn, hcname, hdname⟩
  obtain ⟨hok, horigin, -⟩ :=
    intoZone_records (req.changes.foldl Working.applyChange (Working.new z)).settle
  have hkept := update_kept hstart.kept (parseUpdate_addsIn hparse hclass)
  have hrun := update_reloads_iff hstart req.changes
  refine ⟨hkept.classIn, (checkCnameExclusivity_iff hok).mpr hkept.cnameAlone, hkept.oneDname,
    hrun, fun hchanges hreads => ?_⟩
  obtain ⟨apex, hapex⟩ := parseZoneFile_apex b64 fs hload
  obtain ⟨text, back, htext, hback, hrecords⟩ := update_reads_back b64 hstart hchanges hreads hapex
  exact ⟨text, back, htext, hback fs base, hrecords⟩

def smallText : Text := "@ 60 IN SOA @ @ 1 2 3 4 5\nwww 60 IN A 192.0.2.1".toList

def soaRecord : ZoneRecord := ⟨ex, ⟨60⟩, .IN, ⟨SOA, ex.wire ++ ex.wire ++
  [0, 0, 0, 1, 0, 0, 0, 2, 0, 0, 0, 3, 0, 0, 0, 4, 0, 0, 0, 5]⟩⟩

def wwwRecord : ZoneRecord := ⟨wwwEx, ⟨60⟩, .IN, ⟨A, [192, 0, 2, 1]⟩⟩

theorem smallText_loads :
    ∃ z, parseZoneFile noBase64 noFiles none smallText "ex.".toList = .ok z ∧ z.origin = ex ∧
      z.records = [soaRecord, wwwRecord] := by
  have hloads : ((parseZoneFile noBase64 noFiles none smallText "ex.".toList).toOption.map fun z =>
      (z.origin, z.records)) = some (ex, [soaRecord, wwwRecord]) := by
    decide +kernel
  cases hparse : parseZoneFile noBase64 noFiles none smallText "ex.".toList with
  | error e =>
    rw [hparse] at hloads
    cases hloads
  | ok z =>
    rw [hparse] at hloads
    have hpair : (z.origin, z.records) = _ := Option.some.inj hloads
    exact ⟨z, rfl, congrArg Prod.fst hpair, congrArg Prod.snd hpair⟩

def oneAdd (record : ResourceRecord) : DnsMessage where
  id := 0
  response := false
  opcode := .update
  authoritive := false
  truncation := false
  recursion := false
  recursionOk := false
  ad := false
  cd := false
  rcode := .ok
  queries := [⟨ex, .of SOA, .in⟩]
  answers := []
  authorities := [record]
  additionals := []
  edns := none

def addressToAdd : ResourceRecord := ⟨ex, .IN, ⟨60⟩, ⟨A, [192, 0, 2, 2]⟩⟩

theorem addressToAdd_reloads :
    ∃ z, parseZoneFile noBase64 noFiles none smallText "ex.".toList = .ok z ∧
      Reloads (applyUpdate z [.add addressToAdd]).zone := by
  obtain ⟨z, hload, horigin, hrecords⟩ := smallText_loads
  have hparse : parseUpdate (oneAdd addressToAdd) = .ok ⟨ex, [], [.add addressToAdd]⟩ := by
    decide +kernel
  have hclass : ∀ q ∈ (oneAdd addressToAdd).queries, q.qclass = .in := by decide +kernel
  have hnone : ∀ r ∈ z.records, r.rtype ≠ DNAME := by
    rw [hrecords]
    decide +kernel
  have hchanges : ChangesOk (Working.new z) [.add addressToAdd] := by
    refine ⟨fun _ => ⟨rfl, fun hd => ?_, fun hd => ?_, fun hns => ?_, fun hd => ?_,
      fun _ r hr hd => absurd hd (hnone r hr)⟩, trivial⟩
    all_goals contradiction
  obtain ⟨-, -, -, hrun, -⟩ := update_keeps_rules noBase64 noFiles hload hparse hclass
  exact ⟨z, hload, hrun.mpr hchanges 1⟩

def dnameToAdd : ResourceRecord := ⟨ex, .IN, ⟨60⟩, ⟨DNAME, wwwEx.wire⟩⟩

theorem dnameToAdd_not_reloads :
    ¬ ∀ (b64 : Base64) (fs : FileSystem) (base : Option fs.Path) (content apexText : Text)
      (z : Zone) (msg : DnsMessage) (req : UpdateRequest),
      parseZoneFile b64 fs base content apexText = .ok z → parseUpdate msg = .ok req →
      req.zone.same z.origin = true → Reloads (applyUpdate z req.changes).zone := by
  intro h
  obtain ⟨z, hload, horigin, hrecords⟩ := smallText_loads
  have hparse : parseUpdate (oneAdd dnameToAdd) = .ok ⟨ex, [], [.add dnameToAdd]⟩ := by
    decide +kernel
  have hreloads := h noBase64 noFiles none _ _ z _ _ hload hparse (by rw [horigin]; rfl)
  have hrefused : checkDnameRules (applyUpdate z [.add dnameToAdd]).zone ≠ .ok () := by
    rw [applyUpdate, Working.new, horigin, hrecords]
    decide +kernel
  exact hrefused hreloads.dname

end Rdns.Zones
