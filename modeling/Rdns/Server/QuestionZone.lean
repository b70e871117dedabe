import Rdns.Answer.Sections
import Rdns.Server.ZoneInstalls

/-!
# Rdns — Which of the zones held answers a question

`Zones` of `rdnsd/src/zones.rs` with its depth hint, `for_query`, and `answer_question` of
`rdnsd/src/answer.rs`. The zone is chosen by the name alone. Above it is the choice the DNS
makes: the deepest zone at or above the name, but for the DS of an apex, which is the
parent's (RFC 4035 §3.1.4.1).
-/

namespace Rdns.Server

open Rdns.Lib Rdns.Core Rdns.Present Rdns.Zones Rdns.Dnssec Rdns.Answer RecordTypes

/-! ## The zones held -/

def deepestOrigin (zones : ZoneMap) : Nat := ((zones.map fun entry => entry.1.labelCount).max?).getD 0

/-- `Zones`, with the deepest origin held, in labels, where `for_query` starts. -/
structure HeldZones extends Zones where
  deepest : Nat

namespace HeldZones

def new (byName : ZoneMap) : HeldZones := ⟨⟨byName, 0⟩, deepestOrigin byName⟩

def insert (zones : HeldZones) (zone : Zone) : HeldZones :=
  ⟨zones.toZones.insert zone, max zones.deepest zone.origin.labelCount⟩

def remove (zones : HeldZones) (name : Name) : Bool × HeldZones :=
  match zones.byName.get name.toFolded with
  | none => (false, zones)
  | some _ => (true, ⟨⟨zones.byName.remove name.toFolded, zones.generation + 1⟩, zones.deepest⟩)

def replaceAll (zones : HeldZones) (byName : ZoneMap) : HeldZones :=
  ⟨⟨byName, zones.generation + 1⟩, deepestOrigin byName⟩

def forQuery (zones : HeldZones) (qname : Name) : Option Zone :=
  (qname.ancestors.drop (qname.labelCount - min zones.deepest qname.labelCount)).findSome? fun candidate =>
    zones.byName.get candidate.toFolded

end HeldZones

/-! ## The one question -/

def NOT_AUTHORITATIVE : UInt16 := 20
def NOT_SUPPORTED : UInt16 := 21

def UNSERVED_CLASS : ExtendedError :=
  ⟨NOT_SUPPORTED, "this class is not served".toList.map fun c => UInt8.ofNat c.toNat, by decide +kernel⟩

def NOT_OUR_ZONE : ExtendedError :=
  ⟨NOT_AUTHORITATIVE, "no zone here is at or above this name".toList.map fun c => UInt8.ofNat c.toNat,
    by decide +kernel⟩

def refusal (error : ExtendedError) : List Action :=
  [.setRcode .refused, .setAuthoritative false, .setExtendedError error]

def singleSoa (zone : Zone) : List Action :=
  (zone.query zone.origin (.of SOA)).map fun soa => .push .answer (written soa zone.origin soa.ttl)

section

variable (sha1 : Octets → Nsec3Hash)

def answerQuestion (query : QuerySection) (zones : HeldZones) (dnssecOk : Bool) :
    Except WireError (List Action) :=
  if query.qclass ≠ .in ∧ query.qclass ≠ .any then .ok (refusal UNSERVED_CLASS)
  else if query.qtype = .AXFR then .ok [.setRcode .formatError]
  else if query.qtype = .IXFR then
    match zones.forQuery query.qname with
    | some zone => .ok (singleSoa zone)
    | none => .ok (refusal NOT_OUR_ZONE)
  else
    match zones.forQuery query.qname with
    | none => .ok (refusal NOT_OUR_ZONE)
    | some zone => write sha1 zone query.qname query.qtype dnssecOk

def zoneUsed (query : QuerySection) (zones : HeldZones) : Option Zone :=
  if (query.qclass ≠ .in ∧ query.qclass ≠ .any) ∨ query.qtype = .AXFR then none
  else zones.forQuery query.qname

def answerOf (query : QuerySection) (dnssecOk : Bool) : Option Zone → Except WireError (List Action)
  | none => .ok (refusal NOT_OUR_ZONE)
  | some zone =>
    if query.qtype = .IXFR then .ok (singleSoa zone)
    else write sha1 zone query.qname query.qtype dnssecOk

end

def AnsweredBy (query : QuerySection) (zones : HeldZones) (zone : Option Zone) : Prop :=
  zoneUsed query zones = zone ∧
    ∀ sha1 dnssecOk, answerQuestion sha1 query zones dnssecOk = answerOf sha1 query dnssecOk zone

/-! ## The zone that owes the answer -/

def Keyed (byName : ZoneMap) : Prop := ∀ entry ∈ byName, entry.1 = zoneKey entry.2

/-- **What any inserts, removals and swaps lead to.** -/
inductive HeldZones.Reached : HeldZones → Prop where
  | new {byName : ZoneMap} (h : Keyed byName) : Reached (.new byName)
  | insert {zones : HeldZones} (h : Reached zones) (zone : Zone) : Reached (zones.insert zone)
  | remove {zones : HeldZones} (h : Reached zones) (name : Name) : Reached (zones.remove name).2
  | replaceAll {zones : HeldZones} (h : Reached zones) {byName : ZoneMap} (hkeyed : Keyed byName) :
      Reached (zones.replaceAll byName)

def HeldZones.Holds (zones : HeldZones) (zone : Zone) : Prop := zones.byName.get (zoneKey zone) = some zone

def Deepest (zones : HeldZones) (above : Name → Prop) : Option Zone → Prop
  | none => ∀ zone, zones.Holds zone → ¬ above zone.origin
  | some zone => zones.Holds zone ∧ above zone.origin ∧
      ∀ other, zones.Holds other → above other.origin → zone.origin.isAtOrUnder other.origin = true

def AtOrAbove (name origin : Name) : Prop := name.isAtOrUnder origin = true

def StrictlyAbove (name origin : Name) : Prop := name.isAtOrUnder origin = true ∧ name.same origin = false

structure OfParent (query : QuerySection) (zones : HeldZones) : Prop where
  ds : query.qtype = .of DS
  apex : ∃ child, zones.Holds child ∧ query.qname.same child.origin = true
  parent : ∃ zone, zones.Holds zone ∧ StrictlyAbove query.qname zone.origin

/-- **The zone that owes the answer**: the deepest one held at or above the name, and for such
a DS the deepest one strictly above. -/
structure Owing (query : QuerySection) (zones : HeldZones) (zone : Option Zone) : Prop where
  parent : OfParent query zones → Deepest zones (StrictlyAbove query.qname) zone
  ordinary : ¬ OfParent query zones → Deepest zones (AtOrAbove query.qname) zone

/-! ## What the hint may not hide -/

/-- Every zone held is filed under its origin, and none is deeper than the hint. -/
structure HeldZones.Consistent (zones : HeldZones) : Prop where
  keyed : Keyed zones.byName
  depth : ∀ entry ∈ zones.byName, entry.1.labelCount ≤ zones.deepest

theorem le_deepestOrigin {zones : ZoneMap} {entry : Name × Zone} (h : entry ∈ zones) :
    entry.1.labelCount ≤ deepestOrigin zones := by
  have hmem : entry.1.labelCount ∈ zones.map fun entry => entry.1.labelCount := List.mem_map_of_mem h
  rw [deepestOrigin]
  cases hmax : (zones.map fun entry => entry.1.labelCount).max? with
  | none =>
    rw [List.max?_eq_none_iff.mp hmax] at hmem
    cases hmem
  | some deepest => exact (List.max?_eq_some_iff.mp hmax).2 _ hmem

theorem consistent_swap {byName : ZoneMap} (h : Keyed byName) (generation : Nat) :
    HeldZones.Consistent ⟨⟨byName, generation⟩, deepestOrigin byName⟩ :=
  ⟨h, fun _ hentry => le_deepestOrigin hentry⟩

theorem labelCount_zoneKey (zone : Zone) : (zoneKey zone).labelCount = zone.origin.labelCount := by
  rw [zoneKey, Name.labelCount, Name.toFolded_labels, foldLabels, List.length_map, Name.labelCount]

namespace HeldZones

variable {zones : HeldZones}

theorem Consistent.insert (h : zones.Consistent) (zone : Zone) :
    (zones.insert zone).Consistent := by
  refine ⟨fun entry hentry => ?_, fun entry hentry => ?_⟩
  · rcases Entries.mem_insert.mp hentry with ⟨hkey, hzone⟩ | ⟨hold, -⟩
    · rw [hkey, hzone]
    · exact h.keyed entry hold
  · show entry.1.labelCount ≤ max zones.deepest zone.origin.labelCount
    rcases Entries.mem_insert.mp hentry with ⟨hkey, -⟩ | ⟨hold, -⟩
    · rw [hkey, labelCount_zoneKey]
      exact le_max_right _ _
    · exact le_max_of_le_left (h.depth entry hold)

theorem Consistent.remove (h : zones.Consistent) (name : Name) :
    (zones.remove name).2.Consistent := by
  rw [HeldZones.remove]
  cases zones.byName.get name.toFolded with
  | none => exact h
  | some _ =>
    exact ⟨fun entry hentry => h.keyed entry (List.mem_filter.mp hentry).1,
      fun entry hentry => h.depth entry (List.mem_filter.mp hentry).1⟩

theorem Reached.consistent (h : zones.Reached) : zones.Consistent := by
  induction h with
  | new hkeyed => exact consistent_swap hkeyed 0
  | insert _ zone ih => exact ih.insert zone
  | remove _ name ih => exact ih.remove name
  | replaceAll _ hkeyed _ => exact consistent_swap hkeyed _

theorem Consistent.of_get (h : zones.Consistent) {key : Name} {zone : Zone}
    (hget : zones.byName.get key = some zone) :
    key = zoneKey zone ∧ zones.Holds zone ∧ key.labelCount ≤ zones.deepest := by
  have hmem := Entries.mem_of_get hget
  have hkey := h.keyed _ hmem
  refine ⟨hkey, ?_, h.depth _ hmem⟩
  rw [Holds, ← hkey]
  exact hget

/-- **The hint hides nothing**: the ancestors it skips are deeper than every origin. -/
theorem Consistent.forQuery_eq (h : zones.Consistent) (qname : Name) :
    zones.forQuery qname = qname.ancestors.findSome? fun candidate => zones.byName.get candidate.toFolded := by
  set skipped := qname.labelCount - min zones.deepest qname.labelCount with hskipped
  have hnone : (qname.ancestors.take skipped).findSome?
      (fun candidate => zones.byName.get candidate.toFolded) = none := by
    refine List.findSome?_eq_none_iff.mpr fun candidate hcandidate => ?_
    rw [Name.ancestors, ← List.map_take, List.take_range] at hcandidate
    obtain ⟨dropped, hdropped, rfl⟩ := List.mem_map.mp hcandidate
    rw [List.mem_range] at hdropped
    by_contra hsome
    obtain ⟨zone, hzone⟩ := Option.ne_none_iff_exists'.mp hsome
    have hdepth := (h.of_get hzone).2.2
    have hcount : (qname.dropLabels dropped).toFolded.labelCount = qname.labelCount - dropped := by simp [Name.labelCount, foldLabels]
    have hlength : qname.labels.length = qname.labelCount := rfl
    omega
  rw [← List.take_append_drop skipped qname.ancestors, List.findSome?_append, hnone, Option.none_or]
  rfl

/-- **The walk up finds the deepest zone** at or above the name. -/
theorem Consistent.forQuery_deepest (h : zones.Consistent) (qname : Name) :
    Deepest zones (AtOrAbove qname) (zones.forQuery qname) := by
  have hpath : ∀ zone : Zone, AtOrAbove qname zone.origin →
      ∃ candidate ∈ qname.ancestors, candidate.toFolded = zoneKey zone := by
    intro zone habove
    have hmem : zone.origin.toFolded ∈ qname.toFolded.ancestors :=
      Name.mem_ancestors.mpr (Name.isAtOrUnder_toFolded.mp habove)
    rw [Name.ancestors_toFolded] at hmem
    exact List.mem_map.mp hmem
  rw [h.forQuery_eq]
  cases hfound : qname.ancestors.findSome? fun candidate => zones.byName.get candidate.toFolded with
  | none =>
    intro zone hheld habove
    obtain ⟨candidate, hcandidate, hkey⟩ := hpath zone habove
    have hget := List.findSome?_eq_none_iff.mp hfound candidate hcandidate
    rw [hkey, hheld] at hget
    cases hget
  | some zone =>
    obtain ⟨before, at_, after, hsplit, hget, hbefore⟩ := List.findSome?_eq_some_iff.mp hfound
    obtain ⟨hkey, hheld, -⟩ := h.of_get hget
    have hunder : qname.isAtOrUnder at_ = true := by
      refine Name.isAtOrUnder_iff.mpr ?_
      have hmem : at_.toFolded ∈ qname.toFolded.ancestors := by grind [Name.ancestors_toFolded]
      exact Name.mem_ancestors.mp hmem
    have hsame : at_.same zone.origin = true := Name.same_iff.mpr hkey
    refine ⟨hheld, ?_, fun other hother habove => ?_⟩
    · rw [AtOrAbove, ← isAtOrUnder_congr hsame]
      exact hunder
    · obtain ⟨candidate, hcandidate, hother'⟩ := hpath other habove
      have hlen : candidate.wire.length ≤ at_.wire.length := by
        rw [hsplit, List.mem_append, List.mem_cons] at hcandidate
        rcases hcandidate with hfirst | rfl | hlater
        · have hmissed := hbefore candidate hfirst
          rw [hother', hother] at hmissed
          cases hmissed
        · exact le_refl _
        · have hfalls := qname.pairwise_ancestors
          rw [hsplit, List.pairwise_append] at hfalls
          exact ((List.pairwise_cons.mp hfalls.2.1).1 candidate hlater).le
      have hsame' : candidate.same other.origin = true := Name.same_iff.mpr hother'
      rw [← isAtOrUnder_congr hsame', ← isAtOrUnder_congr_left hsame]
      refine Name.isAtOrUnder_of_length_le hunder ?_ hlen
      rw [isAtOrUnder_congr hsame']
      exact habove

end HeldZones

/-! ## One zone owes the answer -/

variable {zones : HeldZones}

theorem Deepest.unique {above : Name → Prop} {a b : Option Zone} (ha : Deepest zones above a)
    (hb : Deepest zones above b) : a = b := by
  cases a with
  | none =>
    cases b with
    | none => rfl
    | some zone => exact absurd hb.2.1 (ha zone hb.1)
  | some zone =>
    cases b with
    | none => exact absurd ha.2.1 (hb zone ha.1)
    | some other =>
      have hsame := same_of_under (ha.2.2 other hb.1 hb.2.1) (hb.2.2 zone ha.1 ha.2.1)
      have hkey : zoneKey zone = zoneKey other := Name.same_iff.mp hsame
      have hget := ha.1
      rw [HeldZones.Holds, hkey, hb.1] at hget
      exact hget.symm

theorem holds_remove_iff {qname : Name} {zone : Zone} :
    (zones.remove qname).2.Holds zone ↔ zones.Holds zone ∧ qname.same zone.origin = false := by
  have hsame : qname.same zone.origin = false ↔ zoneKey zone ≠ qname.toFolded := by
    rw [← Bool.not_eq_true, Name.same_iff]
    exact not_congr eq_comm
  rw [HeldZones.remove, hsame]
  cases hget : zones.byName.get qname.toFolded with
  | none =>
    refine ⟨fun hheld => ⟨hheld, fun hkey => ?_⟩, fun hheld => hheld.1⟩
    have hheld' : zones.byName.get (zoneKey zone) = some zone := hheld
    rw [hkey, hget] at hheld'
    cases hheld'
  | some _ =>
    show (zones.byName.remove qname.toFolded).get (zoneKey zone) = some zone ↔ _
    rw [Entries.get_remove]
    split
    · next hkey => exact ⟨fun h => (by cases h), fun h => absurd hkey h.2⟩
    · next hkey => exact ⟨fun h => ⟨h, hkey⟩, fun h => h.1⟩

/-- **The deepest zone strictly above a name** is what answers where the zone at the name is
not held. -/
theorem deepest_remove_iff {qname : Name} {zone : Option Zone} :
    Deepest (zones.remove qname).2 (AtOrAbove qname) zone ↔ Deepest zones (StrictlyAbove qname) zone := by
  cases zone with
  | none =>
    refine forall_congr' fun zone => ?_
    rw [holds_remove_iff, and_imp]
    exact forall_congr' fun _ => ⟨fun h habove => h habove.2 habove.1, fun h hne habove => h ⟨habove, hne⟩⟩
  | some zone => grind [Deepest, holds_remove_iff, StrictlyAbove, AtOrAbove]

theorem exists_owing (h : zones.Consistent) (query : QuerySection) :
    ∃ zone, ∀ other, Owing query zones other ↔ other = zone := by
  by_cases hparent : OfParent query zones
  · refine ⟨(zones.remove query.qname).2.forQuery query.qname, fun other => ?_⟩
    have hdeepest := deepest_remove_iff.mp ((h.remove query.qname).forQuery_deepest query.qname)
    constructor
    · exact fun howing => (howing.parent hparent).unique hdeepest
    · rintro rfl
      exact ⟨fun _ => hdeepest, fun hno => absurd hparent hno⟩
  · refine ⟨zones.forQuery query.qname, fun other => ?_⟩
    have hdeepest := h.forQuery_deepest query.qname
    constructor
    · exact fun howing => (howing.ordinary hparent).unique hdeepest
    · rintro rfl
      exact ⟨fun hyes => absurd hyes hparent, fun _ => hdeepest⟩

/-! ## And whether it answers -/

section

variable {zones : HeldZones} {query : QuerySection} {zone : Option Zone}

theorem answeredBy_forQuery (hclass : query.qclass = .in) (hqtype : query.qtype ≠ .AXFR) :
    AnsweredBy query zones (zones.forQuery query.qname) := by
  have hserved : ¬ (query.qclass ≠ .in ∧ query.qclass ≠ .any) := fun h => h.1 hclass
  refine ⟨if_neg (not_or.mpr ⟨hserved, hqtype⟩), fun sha1 dnssecOk => ?_⟩
  rw [answerQuestion, if_neg hserved, if_neg hqtype]
  cases zones.forQuery query.qname with
  | none =>
    split
    · rfl
    · rfl
  | some zone => rfl

theorem not_answeredBy_axfr (hclass : query.qclass = .in) (hqtype : query.qtype = .AXFR) :
    ¬ AnsweredBy query zones zone := by
  rintro ⟨hused, hreply⟩
  rw [zoneUsed, if_pos (.inr hqtype)] at hused
  have hserved : ¬ (query.qclass ≠ .in ∧ query.qclass ≠ .any) := fun h => h.1 hclass
  have heq := hreply unusedSha1 false
  rw [answerQuestion, if_neg hserved, if_pos hqtype, ← hused] at heq
  cases heq

/-- **The child answers for its parent**: the zone at the name is at or above it. -/
theorem not_answeredBy_parent (h : zones.Consistent) (hparent : OfParent query zones)
    (howing : Owing query zones zone) : ¬ AnsweredBy query zones zone := by
  rintro ⟨hused, -⟩
  obtain ⟨child, hheld, hapex⟩ := hparent.apex
  obtain ⟨above, habove, hstrict⟩ := hparent.parent
  rw [zoneUsed] at hused
  split at hused
  · -- no zone is used, and one owes the answer
    rw [← hused] at howing
    exact howing.parent hparent above habove hstrict
  · have hfound := h.forQuery_deepest query.qname
    rw [hused] at hfound
    cases zone with
    | none => exact howing.parent hparent above habove hstrict
    | some zone =>
      have hchild : AtOrAbove query.qname child.origin := by
        rw [AtOrAbove, isAtOrUnder_congr_left hapex]
        exact Name.isAtOrUnder_refl _
      have hunder := hfound.2.2 child hheld hchild
      have hstrict' := (howing.parent hparent).2.1
      rw [← isAtOrUnder_congr hapex] at hunder
      have hsame := same_of_under hstrict'.1 hunder
      rw [hstrict'.2] at hsame
      cases hsame

end

/-- **The zone that owes the answer gives it**, unless the question is AXFR or the DS of an
apex whose parent is held too. -/
theorem answered_by_owing_zone_iff {zones : HeldZones} (h : zones.Reached) {query : QuerySection}
    (hclass : query.qclass = .in) :
    ∃ zone, (∀ other, Owing query zones other ↔ other = zone) ∧
      (AnsweredBy query zones zone ↔ query.qtype ≠ .AXFR ∧ ¬ OfParent query zones) := by
  obtain ⟨zone, hzone⟩ := exists_owing h.consistent query
  have howing := (hzone zone).mpr rfl
  refine ⟨zone, hzone, fun hanswered => ⟨fun hqtype => ?_, fun hparent => ?_⟩, ?_⟩
  · exact not_answeredBy_axfr hclass hqtype hanswered
  · exact not_answeredBy_parent h.consistent hparent howing hanswered
  · rintro ⟨hqtype, hparent⟩
    have hdeepest := h.consistent.forQuery_deepest query.qname
    rw [(howing.ordinary hparent).unique hdeepest]
    exact answeredBy_forQuery hclass hqtype

/-! ## A parent and its child -/

def familyZones : HeldZones := ((HeldZones.new []).insert (Zone.new ex)).insert (Zone.new wwwEx)

theorem familyZones_reached : familyZones.Reached :=
  .insert (.insert (.new fun _ hentry => absurd hentry List.not_mem_nil) _) _

def keysOfChild : QuerySection := ⟨wwwEx, .of DNSKEY, .in⟩
def dsOfChild : QuerySection := ⟨wwwEx, .of DS, .in⟩

theorem answered_by_owing_zone_child : ∃ zone, (∀ other, Owing keysOfChild familyZones other ↔ other = zone) ∧
    AnsweredBy keysOfChild familyZones zone := by
  obtain ⟨zone, howing, hanswered⟩ := answered_by_owing_zone_iff familyZones_reached
    (show keysOfChild.qclass = .in from rfl)
  refine ⟨zone, howing, hanswered.mpr ⟨by decide, fun hparent => ?_⟩⟩
  exact absurd hparent.ds (by decide)

theorem ds_of_child : OfParent dsOfChild familyZones where
  ds := rfl
  apex := ⟨Zone.new wwwEx, rfl, by decide +kernel⟩
  parent := ⟨Zone.new ex, rfl, by decide +kernel, by decide +kernel⟩

/-- **The child answers its own DS**, which its parent, held beside it, owes. -/
theorem child_answers_ds : familyZones.Reached ∧ dsOfChild.qclass = .in ∧
    zoneUsed dsOfChild familyZones = some (Zone.new wwwEx) ∧
    ∃ zone, Owing dsOfChild familyZones zone ∧ ¬ AnsweredBy dsOfChild familyZones zone := by
  obtain ⟨zone, hzone⟩ := exists_owing familyZones_reached.consistent dsOfChild
  have howing := (hzone zone).mpr rfl
  exact ⟨familyZones_reached, rfl, rfl, zone, howing,
    not_answeredBy_parent familyZones_reached.consistent ds_of_child howing⟩

end Rdns.Server
