import Rdns.Dnssec.SignerLaws
import Rdns.Resolver.CacheHits

/-!
# Rdns — What a cached wildcard answers with

`insert_validated_wildcard` and `synthesize_wildcard` of `rdns/src/nsec_cache.rs`, over any sequence of
responses made of the signed RRsets of one zone. The signature of a record says which wildcard its RRset
came from; the records that are kept are those at the first name of the answers that has the type. And the
NSEC that covers a name does not say that nothing is below it.
-/

namespace Rdns.Resolver

open Rdns.Lib Rdns.Core Rdns.Present Rdns.Zones Rdns.Dnssec RecordTypes

/-! ## RRsets -/

def answerRrset (answers : List ResourceRecord) (owner : Name) (rtype : Rtype) : List (Core.Class × RecordData) :=
  (answers.filter fun rr => rr.name.same owner && rr.rdata.rtype == rtype).map fun rr => (rr.cls, rr.rdata)

def zoneRrset (records : List ZoneRecord) (owner : Name) (rtype : Rtype) : List (Core.Class × RecordData) :=
  (records.filter fun r => r.name.same owner && r.rtype == rtype).map fun r => (r.cls, r.rdata)

def plain (records : List ResourceRecord) : List ResourceRecord :=
  records.filter fun rr => rr.rdata.rtype != RRSIG

theorem rtype_of_coveredType {data : RecordData} {covered : Rtype} (h : coveredType data = some covered) :
    data.rtype = RRSIG := by
  rw [coveredType] at h
  split at h
  · rename_i hparse
    rcases ParsedRecord.decode_cases hparse with ⟨hunknown, -⟩ | ⟨-, hrtype, -⟩
    · cases hunknown
    · exact hrtype.symm
  · cases h

theorem rtype_of_fromRecord {rr : ResourceRecord} {sig : Rrsig} (h : Rrsig.fromRecord rr = some sig) :
    rr.rdata.rtype = RRSIG := by
  by_contra hrtype
  rw [Rrsig.fromRecord, if_pos hrtype] at h
  cases h

/-- **What is kept for a type** is the RRset at the first name that has it, and RRSIGs. -/
theorem plain_wildcardRecords {answers : List ResourceRecord} {rtype : Rtype} {first : ResourceRecord}
    (hplain : rtype ≠ RRSIG)
    (hfind : (answers.find? fun rr => rr.rdata.rtype == rtype) = some first) :
    (plain (wildcardRecords answers rtype)).map (fun rr => (rr.cls, rr.rdata)) =
      answerRrset answers first.name rtype := by
  have hrecords : plain (recordsCovering answers first.name.toFolded rtype) =
      answers.filter fun rr => rr.name.same first.name && rr.rdata.rtype == rtype := by
    rw [plain, recordsCovering, List.filter_filter, List.filter_filter]
    refine List.filter_congr fun rr _ => ?_
    rw [same_toFolded_right, Bool.eq_iff_iff]
    simp only [Bool.and_eq_true, Bool.or_eq_true, beq_iff_eq, bne_iff_ne]
    constructor
    · grind [rtype_of_coveredType]
    · rintro ⟨hname, htype⟩
      exact ⟨⟨htype ▸ hplain, .inl htype⟩, hname⟩
  rw [wildcardRecords, hfind, answerRrset, ← hrecords, plain, List.filter_append]
  dsimp only
  refine congrArg (List.map _) ((congrArg _ (List.filter_eq_nil_iff.mpr fun rr hrr hnot => ?_)).trans (List.append_nil _))
  -- the other half is RRSIGs
  have hsig := (List.mem_filter.mp hrr).2
  split at hsig
  · grind [rtype_of_fromRecord]
  · cases hsig

/-! ## Responses of a zone -/

section Zone

variable {origin : Name} {records : List ZoneRecord}

/-- **A response made of signed RRsets of a zone**: each RRSIG is the zone's, made over an RRset that is not
below a delegation or a DNAME, at the name itself or at the wildcard that its count of labels says, and what
the answers have at its owner is that RRset. The NSECs are those of the zone's chain. -/
structure GenuineAnswer (origin : Name) (records : List ZoneRecord) (response : DnsMessage) : Prop where
  signed : ∀ rr ∈ response.answers, ∀ sig, Rrsig.fromRecord rr = some sig → sig.signerName.same origin = true ∧
    ∃ source, signedOwnerName rr.name sig.labels = .ok source ∧ isOccluded origin records source = false ∧
      ownsType records source sig.typeCovered = true ∧
      (answerRrset response.answers rr.name sig.typeCovered).Perm (zoneRrset records source sig.typeCovered)
  nsec : ∀ rr ∈ response.authorities, ∀ nsec, Nsec.fromRecord rr = some nsec → nsec ∈ standardChain origin records

/-- **The first name that has a type came from the same wildcard** as the RRset whose signature is looked at. -/
def FirstFromWildcard (response : DnsMessage) : Prop :=
  ∀ rr ∈ response.answers, ∀ pending, pendingOf rr = some pending →
    synthesizableQtype (Qtype.of pending.rtype) = true →
    ∀ first, (response.answers.find? fun a => a.rdata.rtype == pending.rtype) = some first →
      ∃ rr' ∈ response.answers, rr'.name.same first.name = true ∧ ∃ pending', pendingOf rr' = some pending' ∧
        pending'.wildcard.same pending.wildcard = true ∧ pending'.rtype = pending.rtype

variable {response : DnsMessage} {parent q : Name} {rr : ResourceRecord} {pending : PendingWildcard}
  {proofs : ZoneProofs}

theorem of_pendingOf (h : pendingOf rr = some pending) :
    ∃ sig, Rrsig.fromRecord rr = some sig ∧ signedOwnerName rr.name sig.labels = .ok pending.wildcard ∧
      pending.zone = sig.signerName ∧ pending.rtype = sig.typeCovered := by
  obtain ⟨sig, hsig, h⟩ := Option.bind_eq_some_iff.mp h
  obtain ⟨wildcard, hwildcard, h⟩ := Option.bind_eq_some_iff.mp h
  split at h
  · cases h
  · grind [wildcardForExpansion]

/-- **A wildcard RRset that is held is the zone's.** -/
structure HeldWildcard (origin : Name) (records : List ZoneRecord) (wildcard : Name) (qtype : Qtype)
    (held : List ResourceRecord) : Prop where
  clear : isOccluded origin records wildcard = false
  owned : ownsType records wildcard ⟨qtype.code⟩ = true
  rrset : ((plain held).map fun rr => (rr.cls, rr.rdata)).Perm (zoneRrset records wildcard ⟨qtype.code⟩)

structure HoldsWildcards (origin : Name) (records : List ZoneRecord) (proofs : ZoneProofs) : Prop where
  nsec : ∀ entry ∈ proofs.nsecs, entry.2.proof ∈ standardChain origin records
  wildcards : ∀ entry ∈ proofs.wildcards, HeldWildcard origin records entry.1.1 entry.1.2 entry.2.records

theorem HoldsWildcards.default : HoldsWildcards origin records .default :=
  ⟨fun _ h => (by cases h), fun _ h => (by cases h)⟩

theorem zoneRrset_congr {a b : Name} (h : a.same b = true) (rtype : Rtype) :
    zoneRrset records a rtype = zoneRrset records b rtype := by
  rw [zoneRrset, zoneRrset]
  congr 1
  exact List.filter_congr fun r _ => by rw [same_congr h]

theorem heldWildcard_wildcardRecords (hgenuine : GenuineAnswer origin records response)
    (hfirst : FirstFromWildcard response) (hrr : rr ∈ response.answers)
    (hpending : pendingOf rr = some pending)
    (hsynthesizable : synthesizableQtype (Qtype.of pending.rtype) = true) :
    HeldWildcard origin records pending.wildcard.toFolded (Qtype.of pending.rtype)
      (wildcardRecords response.answers pending.rtype) := by
  obtain ⟨sig, hsig, hsource, -, hrtype⟩ := of_pendingOf hpending
  obtain ⟨-, source, hsource', hclear, howned, hrrset⟩ := hgenuine.signed rr hrr sig hsig
  obtain rfl : source = pending.wildcard := Except.ok.inj (hsource'.symm.trans hsource)
  rw [← hrtype] at howned hrrset
  have hplain : pending.rtype ≠ RRSIG := by
    intro heq
    rw [heq] at hsynthesizable
    exact absurd hsynthesizable (by decide)
  have hfolded : pending.wildcard.toFolded.same pending.wildcard = true := by
    rw [same_toFolded_left]
    exact Name.same_self _
  -- the RRset is there, so some name has the type
  obtain ⟨r, hr, hr'⟩ := List.any_eq_true.mp howned
  have hin : (r.cls, r.rdata) ∈ zoneRrset records pending.wildcard pending.rtype :=
    List.mem_map_of_mem (List.mem_filter.mpr ⟨hr, hr'⟩)
  obtain ⟨a, ha, -⟩ := List.mem_map.mp (hrrset.mem_iff.mpr hin)
  obtain ⟨hain, hatype⟩ := List.mem_filter.mp ha
  rw [Bool.and_eq_true] at hatype
  obtain ⟨first, hfind⟩ : ∃ first, (response.answers.find? fun x => x.rdata.rtype == pending.rtype) = some first :=
    Option.isSome_iff_exists.mp (List.find?_isSome.mpr ⟨a, hain, hatype.2⟩)
  obtain ⟨rr', hrr', hname', pending', hpending', hwildcard', hrtype'⟩ :=
    hfirst rr hrr pending hpending hsynthesizable first hfind
  obtain ⟨sig', hsig', hsigned', -, hcovers'⟩ := of_pendingOf hpending'
  obtain ⟨-, source', hsource', -, -, hrrset'⟩ := hgenuine.signed rr' hrr' sig' hsig'
  obtain rfl : source' = pending'.wildcard := Except.ok.inj (hsource'.symm.trans hsigned')
  rw [← hcovers', hrtype'] at hrrset'
  refine ⟨(isOccluded_congr hfolded).trans hclear, (ownsType_congr hfolded _).trans howned, ?_⟩
  rw [plain_wildcardRecords hplain hfind]
  have hsame : answerRrset response.answers first.name pending.rtype =
      answerRrset response.answers rr'.name pending.rtype := by
    rw [answerRrset, answerRrset]
    congr 1
    exact List.filter_congr fun x _ => by rw [same_congr hname']
  rw [hsame]
  exact hrrset'.trans (List.Perm.of_eq ((zoneRrset_congr hwildcard' _).trans (zoneRrset_congr hfolded _).symm))

theorem HoldsWildcards.takeIn (h : HoldsWildcards origin records proofs)
    (hgenuine : GenuineAnswer origin records response) (hrr : rr ∈ response.authorities)
    (hnsec : rr.rdata.rtype = NSEC) (zone : Name) (now : Nat) :
    HoldsWildcards origin records (proofs.takeIn response.authorities zone now rr) := by
  rw [ZoneProofs.takeIn]
  dsimp only
  rw [if_pos hnsec]
  split
  · exact h
  · rename_i nsec hfrom
    split
    · exact h
    · refine ⟨fun entry hentry => ?_, h.wildcards⟩
      rcases mem_insertBounded hentry with rfl | hold
      · exact hgenuine.nsec rr hrr nsec hfrom
      · exact h.nsec entry hold

theorem HoldsWildcards.foldl_takeIn (hgenuine : GenuineAnswer origin records response) (zone : Name)
    (now : Nat) {taken : List ResourceRecord}
    (hsub : ∀ rr ∈ taken, rr ∈ response.authorities ∧ rr.rdata.rtype = NSEC)
    (h : HoldsWildcards origin records proofs) :
    HoldsWildcards origin records (taken.foldl (ZoneProofs.takeIn response.authorities zone now) proofs) := by
  induction taken generalizing proofs with
  | nil => exact h
  | cons rr rest ih =>
    obtain ⟨hin, hnsec⟩ := hsub rr List.mem_cons_self
    exact ih (fun r hr => hsub r (List.mem_cons_of_mem _ hr)) (h.takeIn hgenuine hin hnsec zone now)

theorem HoldsWildcards.takeWildcard (h : HoldsWildcards origin records proofs)
    (hgenuine : GenuineAnswer origin records response) (hfirst : FirstFromWildcard response)
    (hrr : rr ∈ response.answers) (hpending : pendingOf rr = some pending)
    (hsynthesizable : synthesizableQtype (Qtype.of pending.rtype) = true) (now : Nat) :
    HoldsWildcards origin records (ZoneProofs.takeWildcard response now pending proofs) := by
  rw [ZoneProofs.takeWildcard]
  dsimp only
  split
  · exact h
  · split
    · exact h
    · refine .foldl_takeIn hgenuine _ now (fun r hr => ?_) ⟨h.nsec, fun entry hentry => ?_⟩
      · obtain ⟨hin, hnsec⟩ := List.mem_filter.mp hr
        exact ⟨hin, beq_iff_eq.mp hnsec⟩
      · rcases mem_insertBoundedMap hentry with rfl | hold
        · exact heldWildcard_wildcardRecords hgenuine hfirst hrr hpending hsynthesizable
        · exact h.wildcards entry hold

def AllHold (origin : Name) (records : List ZoneRecord) (zones : HeldZones) : Prop :=
  ∀ entry ∈ zones, entry.1.same origin = true ∧ HoldsWildcards origin records entry.2

/-- **One more response adds the wildcards' own RRsets.** -/
theorem AllHold.insert {zones : HeldZones} (h : AllHold origin records zones)
    (hgenuine : GenuineAnswer origin records response) (hfirst : FirstFromWildcard response)
    (maxZones now : Nat) :
    AllHold origin records (insertValidatedWildcard maxZones now response zones) := by
  have hstep : ∀ pendings : List PendingWildcard,
      (∀ p ∈ pendings, ∃ rr ∈ response.answers, pendingOf rr = some p) → ∀ zones : HeldZones,
        AllHold origin records zones → AllHold origin records (pendings.foldl (takePending maxZones now response) zones) := by
    intro pendings
    induction pendings with
    | nil => exact fun _ _ hzones => hzones
    | cons pending rest ih =>
      intro hmade zones hzones
      obtain ⟨rr, hrr, hpending⟩ := hmade pending List.mem_cons_self
      refine ih (fun p hp => hmade p (List.mem_cons_of_mem _ hp)) _ fun entry hentry => ?_
      rw [takePending] at hentry
      split at hentry
      · exact hzones entry hentry
      · rename_i hsynthesizable
        rw [Bool.not_eq_true', Bool.not_eq_false] at hsynthesizable
        obtain ⟨sig, hsig, -, hzone, -⟩ := of_pendingOf hpending
        have horigin : pending.zone.same origin = true := hzone ▸ (hgenuine.signed rr hrr sig hsig).1
        rcases same_of_mem_alter hentry with hold | ⟨name, proofs, hsame, rfl, hproofs⟩
        · exact hzones entry (mem_of_mem_evicted hold)
        · refine ⟨by rw [Name.same_comm, ← same_congr hsame, Name.same_comm] at horigin; exact horigin, ?_⟩
          refine HoldsWildcards.takeWildcard ?_ hgenuine hfirst hrr hpending hsynthesizable now
          rcases hproofs with hmem | rfl
          · exact (hzones _ (mem_of_mem_evicted hmem)).2
          · exact .default
  rw [insertValidatedWildcard]
  split
  · exact h
  · exact hstep _ (fun p hp => List.mem_filterMap.mp hp) zones h

inductive WildcardRun (maxZones : Nat) (accepted : DnsMessage → Prop) : HeldZones → Prop
  | empty : WildcardRun maxZones accepted []
  | insert {zones met : HeldZones} {response : DnsMessage} (now : Nat) :
      WildcardRun maxZones accepted zones → met.Perm zones → accepted response →
        WildcardRun maxZones accepted (insertValidatedWildcard maxZones now response met)

/-- **Whatever the order, the times and the evictions, only the wildcards' own RRsets are held.** -/
theorem WildcardRun.holds {maxZones : Nat} {zones : HeldZones}
    (h : WildcardRun maxZones (fun response => GenuineAnswer origin records response ∧ FirstFromWildcard response) zones) :
    AllHold origin records zones := by
  induction h with
  | empty => exact fun _ h => (by cases h)
  | insert now _ hperm haccepted ih =>
    exact AllHold.insert (fun entry hentry => ih entry (hperm.mem_iff.mp hentry)) haccepted.1 haccepted.2 _ now

/-! ## The name that is asked for -/

theorem canonicalLabels_parent (h : q.parent = some parent) :
    ∃ label, canonicalLabels q = canonicalLabels parent ++ [label] := by
  obtain ⟨label, hlabels⟩ := parent_labels h
  refine ⟨foldCase label, ?_⟩
  rw [canonicalLabels_eq, canonicalLabels_eq, hlabels, foldLabels, foldLabels, List.map_cons, List.reverse_cons]

theorem parent_isAtOrUnder {d : Name} (hparent : q.parent = some parent)
    (hunder : q.isAtOrUnder d = true) (hne : q.same d = false) : parent.isAtOrUnder d = true := by
  obtain ⟨label, hlabels⟩ := canonicalLabels_parent hparent
  rw [isAtOrUnder_iff_isPrefix, hlabels, List.prefix_concat_iff] at hunder
  rcases hunder with hwhole | habove
  · rw [canonicalLabels_inj.mp (hlabels.trans hwhole.symm)] at hne
    cases hne
  · exact isAtOrUnder_iff_isPrefix.mpr habove

theorem ancestors_parent (h : q.parent = some parent) : q.ancestors.drop 1 = parent.ancestors := by
  obtain ⟨label, hlabels⟩ := parent_labels h
  rw [Name.ancestors, Name.ancestors, hlabels, List.length_cons, List.range_succ_eq_map, List.map_cons, List.map_map,
    List.drop_one, List.tail_cons]
  refine List.map_congr_left fun k _ => Name.ext ?_
  show q.labels.drop (k + 1) = parent.labels.drop k
  rw [hlabels, List.drop_succ_cons]

theorem star_below {star d : Name} (hstar : Name.prefixed STAR parent = .ok star)
    (hunder : parent.isAtOrUnder d = true) : star.isAtOrUnder d = true ∧ star.same d = false := by
  have hlabels := canonicalLabels_prefixed hstar
  have hbelow : star.isAtOrUnder parent = true := by
    rw [isAtOrUnder_iff_isPrefix, hlabels]
    exact List.prefix_append _ _
  refine ⟨Name.isAtOrUnder_trans hbelow hunder, not_same_of_above hbelow ?_ hunder⟩
  rw [← Bool.not_eq_true, ← canonicalLabels_inj, hlabels]
  exact fun heq => absurd (congrArg List.length heq) (by simp)

/-- **The wildcard's own data**: the closest encloser of the name that was asked for is its parent, the name is
no node, the wildcard below the parent owns the type, and its RRset is the answer, under the name. -/
def IsWildcardsOwn (origin : Name) (records : List ZoneRecord) (q : Name) (rtype : Rtype)
    (answers : List ResourceRecord) : Prop :=
  ∃ parent star, q.parent = some parent ∧ closestEncloser origin records q = some parent ∧
    isNode records q = false ∧ Name.prefixed STAR parent = .ok star ∧ ownsType records star rtype = true ∧
    (∀ rr ∈ plain answers, rr.name = q) ∧
    ((plain answers).map fun rr => (rr.cls, rr.rdata)).Perm (zoneRrset records star rtype)

theorem isWildcardsOwn_of_not_isNode {star : Name} {qtype : Qtype} {held : List ResourceRecord}
    {ttl : Nat} (hzone : InZone origin records) (hunder : q.isAtOrUnder origin = true)
    (hparent : q.parent = some parent) (hstar : Name.prefixed STAR parent = .ok star)
    (hheld : HeldWildcard origin records star.toFolded qtype held)
    (hnode : isNode records q = false) :
    IsWildcardsOwn origin records q ⟨qtype.code⟩ ((withTtl held ttl).map fun rr => { rr with name := q }) := by
  have hfolded : star.toFolded.same star = true := by
    rw [same_toFolded_left]
    exact Name.same_self _
  have howned := (ownsType_congr hfolded _).symm.trans hheld.owned
  have hne : q.same origin = false := by
    by_contra hsame
    rw [Bool.not_eq_false] at hsame
    rw [isNode_congr hsame, isNode, hzone.apex] at hnode
    cases hnode
  have hparentUnder := parent_isAtOrUnder hparent hunder hne
  have hparentNode : isNode records parent = true := by
    obtain ⟨r, hr, hr'⟩ := List.any_eq_true.mp howned
    rw [Bool.and_eq_true] at hr'
    have hstarNode : isNode records star = true := isNode_of_owns (List.any_eq_true.mpr ⟨r, hr, hr'.1⟩)
    exact isNode_of_isAtOrUnder hstarNode
      (star_below hstar (isAtOrUnder_iff_isPrefix.mpr (List.prefix_refl (canonicalLabels parent)))).1
  refine ⟨parent, star, hparent, ?_, hnode, hstar, howned, fun rr hrr => ?_, ?_⟩
  · rw [closestEncloser, ancestors_parent hparent, Name.ancestors_eq_cons,
      List.find?_cons_of_pos (by rw [hparentUnder, hparentNode]; rfl)]
  · obtain ⟨other, -, rfl⟩ := List.mem_map.mp (List.mem_filter.mp hrr).1
    rfl
  · have hsame : (plain ((withTtl held ttl).map fun rr => { rr with name := q })).map (fun rr => (rr.cls, rr.rdata)) =
        (plain held).map fun rr => (rr.cls, rr.rdata) := by
      rw [plain, plain, withTtl, List.map_map, List.filter_map, List.map_map]
      rfl
    rw [hsame]
    exact hheld.rrset.trans (List.Perm.of_eq (zoneRrset_congr hfolded _))

/-- **What is synthesized is the wildcard's own data exactly when** the name that was asked for is no empty
non-terminal, after any sequence of responses of the zone in each of which the first name that has a type came
from the wildcard whose signature is looked at. -/
theorem synthesized_wildcard_iff {maxZones : Nat} {zones : HeldZones} (hzone : InZone origin records)
    (hrun : WildcardRun maxZones (fun response => GenuineAnswer origin records response ∧ FirstFromWildcard response) zones)
    {now : Nat} {q : Name} {qtype : Qtype} {w : WildcardSynthesis} (h : synthesizeWildcard zones now q qtype = some w) :
    IsWildcardsOwn origin records q ⟨qtype.code⟩ w.answers ↔ ¬ (isNode records q = true ∧ owns records q = false) := by
  obtain ⟨zoneName, proofs, wildcard, cached, denial, ttl, hin, hunder, hwildcard, hcached, ⟨key, hdenial⟩, hcovers,
    -, -, -, -, hanswers, -⟩ := of_synthesizeWildcard h
  obtain ⟨hname, hholds⟩ := hrun.holds _ hin
  rw [isAtOrUnder_congr hname] at hunder
  obtain ⟨parent, hparent, hstar⟩ : ∃ parent, q.parent = some parent ∧ Name.prefixed STAR parent = .ok wildcard := by
    rw [wildcardForParentOf] at hwildcard
    split at hwildcard
    · cases hwildcard
    · rename_i parent hparent
      split at hwildcard
      · cases hwildcard
      · refine ⟨parent, hparent, ?_⟩
        cases hmade : Name.prefixed STAR parent with
        | error e =>
          rw [hmade] at hwildcard
          cases hwildcard
        | ok star =>
          rw [hmade] at hwildcard
          rw [Option.some.inj hwildcard]
  have hheld : HeldWildcard origin records wildcard.toFolded qtype cached.records := hholds.wildcards _ hcached
  have hclear : isOccluded origin records wildcard = false := by
    rw [← hheld.clear]
    exact isOccluded_congr (by rw [Name.same_comm, same_toFolded_left]; exact Name.same_self _)
  constructor
  · rintro ⟨-, -, -, -, hnode, -⟩ ⟨hent, -⟩
    rw [hnode] at hent
    cases hent
  · intro hent
    rw [hanswers]
    refine isWildcardsOwn_of_not_isNode hzone hunder hparent hstar hheld ?_
    -- a node that is no empty non-terminal owns something, and the chain lists it
    by_contra hnode
    rw [Bool.not_eq_false] at hnode
    have howns : owns records q = true := by grind
    have hqclear : isOccluded origin records q = false := by
      by_contra hocc
      rw [Bool.not_eq_false] at hocc
      obtain ⟨d, hd, hbelow, hne⟩ := isOccluded_iff.mp hocc
      obtain ⟨hstarBelow, hstarNe⟩ := star_below hstar (parent_isAtOrUnder hparent hbelow hne)
      rw [isOccluded_iff.mpr ⟨d, hd, hstarBelow, hstarNe⟩] at hclear
      cases hclear
    have hlisted : isListedOwner origin records false q = true := by
      rw [isListedOwner, howns, hqclear]
      rfl
    rw [not_isListedOwner_of_covers (hholds.nsec _ hdenial) hcovers] at hlisted
    cases hlisted

end Zone

/-! ## Two zones -/

def exRrsig (owner : Name) (covered : Rtype) (labels : UInt8) : Rrsig :=
  ⟨owner.toFolded, covered, 15, labels, 300, 0, 0, 0, ex, [0]⟩

def rrsigAt (owner : Name) (covered : Rtype) (labels : UInt8) : ResourceRecord :=
  ⟨owner, .IN, ⟨300⟩, ⟨RRSIG, be16 covered.code ++ [15, labels] ++ be32 300 ++ be32 0 ++ be32 0 ++ be16 0 ++
    ex.wire ++ [0]⟩⟩

theorem fromRecord_rrsigAt (owner : Name) (covered : Rtype) (labels : UInt8) :
    Rrsig.fromRecord (rrsigAt owner covered labels) = some (exRrsig owner covered labels) := by
  obtain ⟨rdata, hrdata, -, hparse⟩ := fromParsed_rrsig (exRrsig owner covered labels)
  have hmade : RecordData.fromParsed (exRrsig owner covered labels).parsed = .ok (rrsigAt owner covered labels).rdata := rfl
  rw [hmade] at hrdata
  have hrtype : (rrsigAt owner covered labels).rdata.rtype = RRSIG := rfl
  rw [Rrsig.fromRecord, if_neg (not_not.mpr hrtype), Except.ok.inj hrdata, hparse]
  rfl

def wildcardAnswer (answers : List ResourceRecord) (authorities : List ResourceRecord) : DnsMessage where
  id := 0
  response := true
  opcode := .query
  authoritive := true
  truncation := false
  recursion := false
  recursionOk := false
  ad := false
  cd := false
  rcode := .ok
  queries := []
  answers
  authorities
  additionals := []
  edns := none

def nsecAt (records : List ZoneRecord) (owner next : Name) : ResourceRecord :=
  ⟨owner, .IN, ⟨300⟩, ⟨NSEC, next.wire ++ buildTypeBitmap (standardTypes ex records owner)⟩⟩

def aliasAt (owner target : Name) : ZoneRecord := ⟨owner, ⟨300⟩, .IN, ⟨CNAME, target.wire⟩⟩

def aliasZone : List ZoneRecord := [minuteSoa, aliasAt starEx ex, aliasAt wwwEx bEx]

def aliasAnswer : DnsMessage :=
  wildcardAnswer [asRecord (aliasAt wwwEx bEx), rrsigAt wwwEx CNAME 2, asRecord (aliasAt bEx ex),
    rrsigAt bEx CNAME 1] [nsecAt aliasZone starEx wwwEx]

def starZone : List ZoneRecord := [minuteSoa, addressAt starEx, addressAt aWwwEx]

def starAnswer : DnsMessage :=
  wildcardAnswer [asRecord (addressAt bEx), rrsigAt bEx A 1] [nsecAt starZone starEx aWwwEx]

theorem standardNames_of_sorted {records : List ZoneRecord} {names : List Name}
    (hnames : ((records.map fun r => r.name.toFolded).filter (isListedOwner ex records false)).dedup = names)
    (hsorted : names.Pairwise fun a b => canonicalLabels a ≤ canonicalLabels b) : standardNames ex records = names := by
  rw [standardNames, hnames]
  exact List.mergeSort_of_pairwise (hsorted.imp fun h => decide_eq_true h)

theorem nsecAt_genuine {records : List ZoneRecord} {names : List Name} {owner next : Name}
    (hnames : standardNames ex records = names) (hpair : (owner, next) ∈ ring names) {rr : ResourceRecord}
    (hrr : rr ∈ [nsecAt records owner next]) {nsec : Nsec} (hnsec : Nsec.fromRecord rr = some nsec)
    (hfrom : Nsec.fromRecord (nsecAt records owner next) =
      some ⟨owner, next, buildTypeBitmap (standardTypes ex records owner)⟩) :
    nsec ∈ standardChain ex records := by
  rw [List.mem_singleton.mp hrr, hfrom] at hnsec
  rw [← Option.some.inj hnsec, standardChain, hnames]
  exact List.mem_map.mpr ⟨_, hpair, rfl⟩

theorem starAnswer_genuine : GenuineAnswer ex starZone starAnswer ∧ FirstFromWildcard starAnswer := by
  have hanswers : ∀ rr ∈ starAnswer.answers, ∀ sig, Rrsig.fromRecord rr = some sig →
      rr = rrsigAt bEx A 1 ∧ sig = exRrsig bEx A 1 := by
    intro rr hrr sig hsig
    rcases List.mem_cons.mp hrr with rfl | hrr
    · exact absurd (rtype_of_fromRecord hsig) (by decide)
    · obtain rfl := List.mem_singleton.mp hrr
      rw [fromRecord_rrsigAt] at hsig
      exact ⟨rfl, (Option.some.inj hsig).symm⟩
  refine ⟨⟨fun rr hrr sig hsig => ?_, fun rr hrr nsec hnsec => ?_⟩, fun rr hrr pending hpending _ first hfirst => ?_⟩
  · obtain ⟨rfl, rfl⟩ := hanswers rr hrr sig hsig
    exact ⟨by decide +kernel, starEx, rfl, by decide +kernel, by decide +kernel, by decide +kernel⟩
  · have hnames := @standardNames_of_sorted starZone [ex, starEx, aWwwEx] (by decide +kernel) (by decide +kernel)
    exact nsecAt_genuine hnames (by decide +kernel) hrr hnsec (by decide +kernel)
  · obtain ⟨sig, hsig, -, -, hrtype⟩ := of_pendingOf hpending
    obtain ⟨rfl, rfl⟩ := hanswers rr hrr sig hsig
    have hfound : (starAnswer.answers.find? fun a => a.rdata.rtype == A) = some (asRecord (addressAt bEx)) := rfl
    have hcovered : pending.rtype = A := hrtype
    rw [hcovered, hfound] at hfirst
    rw [← Option.some.inj hfirst]
    exact ⟨_, hrr, Name.same_self _, pending, hpending, Name.same_self _, rfl⟩

theorem aliasAnswer_genuine : GenuineAnswer ex aliasZone aliasAnswer := by
  refine ⟨fun rr hrr sig hsig => ?_, fun rr hrr nsec hnsec => ?_⟩
  · rcases List.mem_cons.mp hrr with rfl | hrr
    · exact absurd (rtype_of_fromRecord hsig) (by decide)
    · rcases List.mem_cons.mp hrr with rfl | hrr
      · rw [fromRecord_rrsigAt] at hsig
        obtain rfl := Option.some.inj hsig
        exact ⟨by decide +kernel, wwwEx, rfl, by decide +kernel, by decide +kernel, by decide +kernel⟩
      · rcases List.mem_cons.mp hrr with rfl | hrr
        · exact absurd (rtype_of_fromRecord hsig) (by decide)
        · obtain rfl := List.mem_singleton.mp hrr
          rw [fromRecord_rrsigAt] at hsig
          obtain rfl := Option.some.inj hsig
          exact ⟨by decide +kernel, starEx, rfl, by decide +kernel, by decide +kernel, by decide +kernel⟩
  · have hnames := @standardNames_of_sorted aliasZone [ex, starEx, wwwEx] (by decide +kernel) (by decide +kernel)
    exact nsecAt_genuine hnames (by decide +kernel) hrr hnsec (by decide +kernel)

theorem inZone_starZone : InZone ex starZone := ⟨by decide +kernel, by decide +kernel⟩

def starCache : HeldZones := insertValidatedWildcard 1 0 starAnswer []

def aliasCache : HeldZones := insertValidatedWildcard 1 0 aliasAnswer []

/-- **The cached wildcard answers `b.ex.` with its own address.** -/
theorem synthesized_wildcard_bEx :
    ∃ w, synthesizeWildcard starCache 1 bEx (.of A) = some w ∧
      IsWildcardsOwn ex starZone bEx A w.answers := by
  have hsome : (synthesizeWildcard starCache 1 bEx (.of A)).isSome = true := by decide +kernel
  obtain ⟨w, hw⟩ := Option.isSome_iff_exists.mp hsome
  have hrun : WildcardRun 1 (fun response => GenuineAnswer ex starZone response ∧ FirstFromWildcard response) starCache :=
    .insert 0 .empty .nil starAnswer_genuine
  refine ⟨w, hw, (synthesized_wildcard_iff inZone_starZone hrun hw).mpr ?_⟩
  decide +kernel

/-- **The alias of `www.ex.` is answered for `b.ex.`**, whose wildcard has another; and an empty non-terminal is
answered for as if it were not there. -/
theorem synthesized_wildcard_wrong :
    (∃ zones w, WildcardRun 1 (GenuineAnswer ex aliasZone) zones ∧
      synthesizeWildcard zones 1 bEx (.of CNAME) = some w ∧
      ¬ IsWildcardsOwn ex aliasZone bEx CNAME w.answers) ∧
    ∃ zones w, WildcardRun 1 (fun response => GenuineAnswer ex starZone response ∧ FirstFromWildcard response) zones ∧
      synthesizeWildcard zones 1 wwwEx (.of A) = some w ∧
      ¬ IsWildcardsOwn ex starZone wwwEx A w.answers := by
  constructor
  · have hrdata : (synthesizeWildcard aliasCache 1 bEx (.of CNAME)).map
        (fun w => (plain w.answers).map fun rr => (rr.cls, rr.rdata)) = some [(.IN, ⟨CNAME, bEx.wire⟩)] := by
      decide +kernel
    obtain ⟨w, hw, hanswers⟩ := Option.map_eq_some_iff.mp hrdata
    refine ⟨aliasCache, w, .insert 0 .empty .nil aliasAnswer_genuine, hw, ?_⟩
    rintro ⟨parent, star, hparent, -, -, hstar, -, -, hrrset⟩
    rw [hanswers] at hrrset
    have hex : parent = bEx.dropLabels 1 := (Option.some.inj hparent).symm
    have hwild : star.same starEx = true := by
      rw [← canonicalLabels_inj, canonicalLabels_prefixed hstar, hex]
      decide +kernel
    rw [zoneRrset_congr hwild] at hrrset
    revert hrrset
    decide +kernel
  · have hsome : (synthesizeWildcard starCache 1 wwwEx (.of A)).isSome = true := by decide +kernel
    obtain ⟨w, hw⟩ := Option.isSome_iff_exists.mp hsome
    refine ⟨starCache, w, .insert 0 .empty .nil starAnswer_genuine, hw, ?_⟩
    rintro ⟨-, -, -, -, hnode, -⟩
    revert hnode
    decide +kernel

end Rdns.Resolver
