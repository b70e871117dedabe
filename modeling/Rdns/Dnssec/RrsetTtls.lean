import Rdns.Core.RdataInverse
import Rdns.Dnssec.SignedZone

/-!
# Rdns — One TTL for an RRset

The TTLs `sign_zone` of `rdns/src/zone_signer.rs` gives the records it serves. What is carried over
gets the smallest TTL of its RRset (`carry_over_records`), and the RRSIG over an RRset takes on the TTL
of its first record (`rrsets_of`). The records added later join the DNSKEY RRset at the TTL it has; the
chain and NSEC3PARAM are made anew, at a TTL of their own.
-/

namespace Rdns.Dnssec

open Rdns.Lib Rdns.Core Rdns.Present Rdns.Zones RecordTypes

/-! ## The smallest TTL -/

theorem foldl_ttlMin_le (ttls : List Ttl) (first : Ttl) :
    (ttls.foldl Ttl.min first).secs ≤ first.secs ∧ ∀ ttl ∈ ttls, (ttls.foldl Ttl.min first).secs ≤ ttl.secs := by
  induction ttls generalizing first with
  | nil => exact ⟨UInt32.le_refl _, fun ttl httl => by cases httl⟩
  | cons next rest ih =>
    obtain ⟨hfirst, hrest⟩ := ih (Ttl.min first next)
    have hmin : (Ttl.min first next).secs ≤ first.secs ∧ (Ttl.min first next).secs ≤ next.secs := by
      rw [Ttl.min]
      split
      · rename_i hless
        exact ⟨UInt32.le_of_lt hless, UInt32.le_refl _⟩
      · rename_i hnot
        exact ⟨UInt32.le_refl _, UInt32.not_lt.mp hnot⟩
    refine ⟨UInt32.le_trans hfirst hmin.1, List.forall_mem_cons.mpr ⟨UInt32.le_trans hfirst hmin.2, hrest⟩⟩

theorem foldl_ttlMin_mem (ttls : List Ttl) (first : Ttl) : ttls.foldl Ttl.min first ∈ first :: ttls := by
  induction ttls generalizing first with
  | nil => exact List.mem_singleton_self _
  | cons next rest ih =>
    have hmem := ih (Ttl.min first next)
    have hmin : Ttl.min first next = first ∨ Ttl.min first next = next := by grind [Ttl.min]
    show rest.foldl Ttl.min (Ttl.min first next) ∈ _
    rcases List.mem_cons.mp hmem with heq | hrest
    · grind
    · exact List.mem_cons_of_mem _ (List.mem_cons_of_mem _ hrest)

section Carried

variable {carried : List ZoneRecord}

variable {a : ZoneRecord}

theorem rrsetTtl_le {s : ZoneRecord} (hs : s ∈ carried) (hrtype : s.rtype = a.rtype)
    (hname : s.name.same a.name = true) :
    (rrsetTtl carried a.name a.rtype a.ttl).secs ≤ s.ttl.secs := by
  refine (foldl_ttlMin_le _ _).2 _ (List.mem_map_of_mem (List.mem_filter.mpr ⟨hs, ?_⟩))
  rw [hname, hrtype, Bool.true_and, beq_self_eq_true]

theorem exists_rrsetTtl (ha : a ∈ carried) :
    ∃ s ∈ carried, s.rtype = a.rtype ∧ s.name.same a.name = true ∧ rrsetTtl carried a.name a.rtype a.ttl = s.ttl := by
  rcases List.mem_cons.mp (foldl_ttlMin_mem
    ((carried.filter fun r => r.name.same a.name && r.rtype == a.rtype).map ZoneRecord.ttl) a.ttl) with heq | hmem
  · exact ⟨a, ha, rfl, Name.same_self _, heq⟩
  · obtain ⟨s, hs, heq⟩ := List.mem_map.mp hmem
    obtain ⟨hin, hgroup⟩ := List.mem_filter.mp hs
    rw [Bool.and_eq_true, beq_iff_eq] at hgroup
    exact ⟨s, hin, hgroup.2, hgroup.1, heq.symm⟩

/-- **What is carried over has one TTL for each RRset.** -/
theorem withRrsetTtls_same {b : ZoneRecord} (ha : a ∈ withRrsetTtls carried)
    (hb : b ∈ withRrsetTtls carried) (hrtype : b.rtype = a.rtype)
    (hname : b.name.same a.name = true) : b.ttl = a.ttl := by
  obtain ⟨a₀, ha₀, rfl⟩ := List.mem_map.mp ha
  obtain ⟨b₀, hb₀, rfl⟩ := List.mem_map.mp hb
  have hrtype : b₀.rtype = a₀.rtype := hrtype
  have hname : b₀.name.same a₀.name = true := hname
  -- each is at most the TTL of the record the other has its own from
  have hle : ∀ x y : ZoneRecord, y ∈ carried → y.rtype = x.rtype → y.name.same x.name = true →
      (rrsetTtl carried x.name x.rtype x.ttl).secs ≤ (rrsetTtl carried y.name y.rtype y.ttl).secs := by
    intro x y hy htype hsame
    obtain ⟨s, hs, hstype, hsname, heq⟩ := exists_rrsetTtl hy
    rw [heq]
    exact rrsetTtl_le hs (hstype.trans htype) (by rw [← same_congr hsame]; exact hsname)
  have hsecs := UInt32.le_antisymm (hle b₀ a₀ ha₀ hrtype.symm (by rw [Name.same_comm]; exact hname))
    (hle a₀ b₀ hb₀ hrtype hname)
  show rrsetTtl carried b₀.name b₀.rtype b₀.ttl = rrsetTtl carried a₀.name a₀.rtype a₀.ttl
  generalize rrsetTtl carried b₀.name b₀.rtype b₀.ttl = left at hsecs
  generalize rrsetTtl carried a₀.name a₀.rtype a₀.ttl = right at hsecs
  obtain ⟨left⟩ := left
  obtain ⟨right⟩ := right
  exact congrArg Ttl.mk hsecs

end Carried

/-! ## The zone before it is signed -/

section Unsigned

variable {crypto : Crypto} {zone : Zone} {keys : List SigningKey} {policy : SigningPolicy} {layout : Layout}
  {signed : List ZoneRecord}

variable {a b : ZoneRecord} {origin : Name} {soaTtl : Ttl} {carried : List ZoneRecord}

theorem carryOverRecords_eq {minimum : UInt32}
    (h : carryOverRecords zone origin policy = .ok (carried, soaTtl, minimum)) :
    ∃ all kept, zone.records.mapM (carryOne origin policy) = .ok all ∧ kept = (all.filterMap id).map Prod.fst ∧
      carried = withRrsetTtls kept := by
  obtain ⟨all, hall, h⟩ := except_bind_eq_ok.mp h
  dsimp only at h
  split at h
  · cases h
  · cases h
    exact ⟨all, _, hall, rfl, rfl⟩

/-- What is carried over has one TTL for each RRset and a source, and carries every record of the source that
is not of this signer's own types. -/
structure CarriedFrom (zone : Zone) (origin : Name) (policy : SigningPolicy) (carried : List ZoneRecord) : Prop where
  same : ∀ a ∈ carried, ∀ b ∈ carried, b.rtype = a.rtype → b.name.same a.name = true → b.ttl = a.ttl
  source : ∀ a ∈ carried, ∃ s ∈ zone.records, s.rtype = a.rtype ∧ s.name = a.name ∧
    (isSignerOutput a.rtype = true → isImportedDnskeyRrsig s origin policy = true ∧ s.rdata = a.rdata)
  carries : ∀ s ∈ zone.records, isSignerOutput s.rtype = false → ∃ a ∈ carried, a.rtype = s.rtype ∧ a.name = s.name ∧
    a.ttl.secs ≤ s.ttl.secs

theorem carriedFrom_carryOverRecords {minimum : UInt32}
    (h : carryOverRecords zone origin policy = .ok (carried, soaTtl, minimum)) :
    CarriedFrom zone origin policy carried := by
  obtain ⟨all, kept, hall, hkept, rfl⟩ := carryOverRecords_eq h
  have hmem : ∀ r, r ∈ kept ↔ ∃ info, some (r, info) ∈ all := by
    intro r
    rw [hkept, List.mem_map]
    constructor
    · rintro ⟨⟨r', info⟩, hpair, rfl⟩
      obtain ⟨found, hfound, hsome⟩ := List.mem_filterMap.mp hpair
      obtain rfl : found = some (r', info) := hsome
      exact ⟨info, hfound⟩
    · rintro ⟨info, hin⟩
      exact ⟨(r, info), List.mem_filterMap.mpr ⟨_, hin, rfl⟩, rfl⟩
  refine ⟨fun a ha b hb => withRrsetTtls_same ha hb, fun a ha => ?_, fun s hs hours => ?_⟩
  · obtain ⟨r, hr, rfl⟩ := List.mem_map.mp ha
    obtain ⟨info, hin⟩ := (hmem r).mp hr
    obtain ⟨s, hs, hcarry⟩ := mem_of_mapM_ok hall hin
    obtain ⟨hname, hrtype, -, hplain, -⟩ := of_carryOne hcarry
    refine ⟨s, hs, hrtype.symm, hname.symm, fun houtput => ?_⟩
    have houtput : isSignerOutput s.rtype = true := hrtype ▸ houtput
    have himported : isImportedDnskeyRrsig s origin policy = true := by
      by_contra hnot
      rw [Bool.not_eq_true] at hnot
      rw [carryOne, houtput, hnot] at hcarry
      cases hcarry
    have hnotSoa : isSoaAt origin s = false := by
      rw [isSoaAt, Bool.and_eq_false_iff, beq_eq_false_iff_ne]
      refine .inl fun hsoa => ?_
      rw [hsoa] at houtput
      exact absurd houtput (by decide)
    refine ⟨himported, ?_⟩
    rw [(hplain hnotSoa).1]
  · obtain ⟨found, hfound, hcarry⟩ := exists_of_mapM_ok hall hs
    cases found with
    | none =>
      rw [carryOne, hours, Bool.false_and, if_neg (by decide)] at hcarry
      split at hcarry
      · cases hcarry
      · grind
    | some pair =>
      obtain ⟨r, info⟩ := pair
      obtain ⟨hname, hrtype, httl, -⟩ := of_carryOne hcarry
      have hr : r ∈ kept := (hmem r).mpr ⟨info, hfound⟩
      refine ⟨_, List.mem_map_of_mem hr, hrtype, hname, ?_⟩
      rw [← httl]
      exact rrsetTtl_le hr rfl (Name.same_self _)

def Joined (zone : Zone) (keys : List SigningKey) (policy : SigningPolicy) (a : ZoneRecord) : Prop :=
  a.name.same zone.origin = true ∧ (a.rtype = CDS ∨ a.rtype = CDNSKEY) ∧
    (∃ s ∈ zone.records, s.rtype = a.rtype ∧ s.name.same zone.origin = true) ∧
    ∃ key ∈ keys, key.timing.isSyncPublished policy.signedAt = true

inductive Origin (zone : Zone) (keys : List SigningKey) (policy : SigningPolicy) (carried : List ZoneRecord)
    (keyTtl denialTtl : Ttl) (a : ZoneRecord) : Prop where
  | carried (h : a ∈ carried)
  | key (hname : a.name = zone.origin.toFolded) (hrtype : a.rtype = DNSKEY) (httl : a.ttl = keyTtl)
  | sync (hname : a.name = zone.origin.toFolded) (hrtype : a.rtype = CDS ∨ a.rtype = CDNSKEY)
      (httl : a.ttl = keyTtl) (hwanted : ∃ key ∈ keys, key.timing.isSyncPublished policy.signedAt = true)
  | param (hrtype : a.rtype = NSEC3PARAM) (httl : a.ttl = keyTtl)
  | chain (hrtype : a.rtype = NSEC ∨ a.rtype = NSEC3) (httl : a.ttl = denialTtl)

/-- **Where each TTL of the zone before it is signed is from.** -/
theorem origin_of_unsigned (h : unsigned crypto zone keys policy = .ok (layout, signed)) :
    ∃ carried soaTtl denialTtl, CarriedFrom zone zone.origin.toFolded policy carried ∧
      ∀ a ∈ signed, Origin zone keys policy carried (dnskeyTtl carried zone.origin.toFolded soaTtl) denialTtl a := by
  obtain ⟨-, -, -, base, ttl, chain, hpublished, -, hchain, rfl⟩ := of_unsigned h
  obtain ⟨carried, soaTtl, minimum, synced, hcarried, hsynced, rfl, -⟩ := of_published hpublished
  refine ⟨carried, soaTtl, ttl, carriedFrom_carryOverRecords hcarried, fun a ha => ?_⟩
  have hsync : a ∈ synced →
      Origin zone keys policy carried (dnskeyTtl carried zone.origin.toFolded soaTtl) ttl a := by
    intro ha
    rcases mem_publishSyncRecords hsynced ha with ha | ⟨hname, httl, -, key, hkey, hwanted, hrdata⟩
    · rcases mem_publishDnskeys.mp ha with ha | ⟨key, -, -, -, rfl⟩
      · exact .carried ha
      · exact .key rfl rfl rfl
    · refine .sync hname ?_ httl ⟨key, hkey, hwanted⟩
      rw [syncRdatas, List.mem_cons, List.mem_singleton] at hrdata
      rw [ZoneRecord.rtype]
      rcases hrdata with hrdata | hrdata
      · rw [hrdata]
        exact .inl rfl
      · rw [hrdata]
        exact .inr rfl
  rcases List.mem_append.mp ha with ha | ha
  · rw [publishNsec3param.eq_def] at ha
    split at ha
    · exact hsync ha
    · rcases List.mem_append.mp ha with ha | ha
      · exact hsync ha
      · rw [List.mem_singleton.mp ha]
        exact .param rfl rfl
  · refine .chain ?_ (of_mem_denialChain hchain ha).1
    have hrtype := (of_mem_denialChain hchain ha).2
    split at hrtype
    · exact .inl hrtype
    · exact .inr hrtype

theorem dnskeyTtl_of_mem (hfrom : CarriedFrom zone origin policy carried) (ha : a ∈ carried)
    (hrtype : a.rtype = DNSKEY) (hname : a.name.same origin = true) :
    dnskeyTtl carried origin soaTtl = a.ttl := by
  have hat : a ∈ atApex carried origin DNSKEY :=
    List.mem_filter.mpr ⟨ha, by rw [hname, hrtype]; rfl⟩
  rw [dnskeyTtl]
  cases hhead : (atApex carried origin DNSKEY).head? with
  | none =>
    rw [List.head?_eq_none_iff.mp hhead] at hat
    cases hat
  | some first =>
    obtain ⟨hfirst, hgroup⟩ := List.mem_filter.mp (List.mem_of_head? hhead)
    rw [Bool.and_eq_true, beq_iff_eq] at hgroup
    exact hfrom.same a ha first hfirst (hgroup.2.trans hrtype.symm)
      (by rw [same_congr hname]; exact hgroup.1)

theorem CarriedFrom.rrsig_of_output (hfrom : CarriedFrom zone origin policy carried)
    (ha : a ∈ carried) (houtput : isSignerOutput a.rtype = true) : a.rtype = RRSIG := by
  obtain ⟨s, -, hrtype, -, himported⟩ := hfrom.source a ha
  have himported := (himported houtput).1
  rw [isImportedDnskeyRrsig, Bool.and_eq_true, Bool.and_eq_true, Bool.and_eq_true, decide_eq_true_eq,
    decide_eq_true_eq] at himported
  rw [← hrtype]
  exact himported.1.1.2

theorem joined_congr (hrtype : b.rtype = a.rtype) (hname : b.name.same a.name = true) :
    Joined zone keys policy a ↔ Joined zone keys policy b := by
  rw [Joined, Joined, hrtype, Name.same_comm b.name zone.origin, same_congr hname, Name.same_comm zone.origin a.name]

/-- **A record that joins an RRset takes on its TTL.** -/
theorem Origin.ttl_eq {denialTtl : Ttl}
    (hfrom : CarriedFrom zone zone.origin.toFolded policy carried)
    (hb : Origin zone keys policy carried (dnskeyTtl carried zone.origin.toFolded soaTtl) denialTtl b)
    (ha : a ∈ carried) (hnot : a.rtype ≠ RRSIG) (hjoined : ¬ Joined zone keys policy a)
    (hrtype : b.rtype = a.rtype) (hname : b.name.same a.name = true) : b.ttl = a.ttl := by
  cases hb with
  | carried hb => exact hfrom.same a ha b hb hrtype hname
  | key hapex htype httl => grind [dnskeyTtl_of_mem, Name.same_comm]
  | sync hapex htype httl hwanted =>
    obtain ⟨s, hs, hstype, hsname, -⟩ := hfrom.source a ha
    have hat : a.name.same zone.origin = true := by
      rw [hapex, same_toFolded_left, Name.same_comm] at hname
      exact hname
    exact absurd ⟨hat, hrtype ▸ htype, ⟨s, hs, hstype, by rw [hsname]; exact hat⟩, hwanted⟩ hjoined
  | param htype httl =>
    refine absurd (hfrom.rrsig_of_output ha ?_) hnot
    rw [← hrtype, htype]
    decide
  | chain htype httl =>
    refine absurd (hfrom.rrsig_of_output ha ?_) hnot
    rw [← hrtype]
    rcases htype with htype | htype
    · rw [htype]
      decide
    · rw [htype]
      decide

theorem Origin.added {keyTtl denialTtl : Ttl}
    (h : Origin zone keys policy carried keyTtl denialTtl a) :
    a ∈ carried ∨ (a.ttl = keyTtl ∧ isKeyRecord a.rtype) ∨
      (a.ttl = denialTtl ∧ (a.rtype = NSEC ∨ a.rtype = NSEC3)) := by
  cases h with
  | carried h => exact .inl h
  | key hapex htype httl => exact .inr (.inl ⟨httl, .inl htype⟩)
  | sync hapex htype httl hwanted => exact .inr (.inl ⟨httl, .inr (htype.imp id .inl)⟩)
  | param htype httl => exact .inr (.inl ⟨httl, .inr (.inr (.inr htype))⟩)
  | chain htype httl => exact .inr (.inr ⟨httl, htype⟩)

theorem not_chain_of_isKeyRecord {rtype : Rtype} (h : isKeyRecord rtype) :
    ¬ (rtype = NSEC ∨ rtype = NSEC3) := by
  rcases h with rfl | rfl | rfl | rfl
  · decide
  · decide
  · decide
  · decide

/-- **Before it is signed the zone has one TTL for each RRset**, but for one that is joined. -/
theorem one_ttl_unsigned (h : unsigned crypto zone keys policy = .ok (layout, signed))
    (ha : a ∈ signed) (hb : b ∈ signed) (hnot : a.rtype ≠ RRSIG)
    (hjoined : ¬ Joined zone keys policy a) (hrtype : b.rtype = a.rtype)
    (hname : b.name.same a.name = true) : b.ttl = a.ttl := by
  obtain ⟨carried, soaTtl, denialTtl, hfrom, horigin⟩ := origin_of_unsigned h
  rcases (horigin a ha).added with hcarried | ⟨httl, htype⟩ | ⟨httl, htype⟩
  · exact (horigin b hb).ttl_eq hfrom hcarried hnot hjoined hrtype hname
  all_goals rcases (horigin b hb).added with hcarried' | ⟨httl', htype'⟩ | ⟨httl', htype'⟩
  · exact ((horigin a ha).ttl_eq hfrom hcarried' (hrtype ▸ hnot) (fun hb => hjoined ((joined_congr hrtype hname).mpr hb))
      hrtype.symm (by rw [Name.same_comm]; exact hname)).symm
  · rw [httl, httl']
  · exact absurd (hrtype ▸ htype') (not_chain_of_isKeyRecord htype)
  · exact ((horigin a ha).ttl_eq hfrom hcarried' (hrtype ▸ hnot) (fun hb => hjoined ((joined_congr hrtype hname).mpr hb))
      hrtype.symm (by rw [Name.same_comm]; exact hname)).symm
  · exact absurd (hrtype.symm ▸ htype) (not_chain_of_isKeyRecord htype')
  · rw [httl, httl']

/-- **No RRset's TTL is larger than one the source gave it**, where it is one this signer does not make anew. -/
theorem ttl_le_source (h : unsigned crypto zone keys policy = .ok (layout, signed)) {s : ZoneRecord}
    (ha : a ∈ signed) (hs : s ∈ zone.records) (hours : isSignerOutput a.rtype = false)
    (hjoined : ¬ Joined zone keys policy a) (hrtype : s.rtype = a.rtype)
    (hname : s.name.same a.name = true) : a.ttl.secs ≤ s.ttl.secs := by
  obtain ⟨carried, soaTtl, denialTtl, hfrom, horigin⟩ := origin_of_unsigned h
  obtain ⟨c, hc, hctype, hcname, hle⟩ := hfrom.carries s hs (hrtype ▸ hours)
  have hgroup : c.rtype = a.rtype ∧ c.name.same a.name = true := ⟨hctype.trans hrtype, hcname ▸ hname⟩
  have hnot : c.rtype ≠ RRSIG := by
    rw [hgroup.1]
    intro heq
    rw [heq] at hours
    exact absurd hours (by decide)
  rw [(horigin a ha).ttl_eq hfrom hc hnot (fun hc => hjoined ((joined_congr hgroup.1 hgroup.2).mpr hc)) hgroup.1.symm
    (by rw [Name.same_comm]; exact hgroup.2)]
  exact hle

end Unsigned

/-! ## The zone that is served -/

/-- **One TTL for an RRset after signing**: its records have it, it is no larger than any the source gave, and
the RRSIGs this run made over it have it and say it. An RRSIG that was imported is not one this run made.
Of some records nothing is said, and of some types nothing about the source. -/
structure OneTtl (leftOut : ZoneRecord → Prop) (anew : Rtype → Bool) (zone served : Zone) (policy : SigningPolicy) :
    Prop where
  same : ∀ a ∈ served.records, a.rtype ≠ RRSIG → ¬ leftOut a →
    ∀ b ∈ served.records, b.rtype = a.rtype → b.name.same a.name = true → b.ttl = a.ttl
  smallest : ∀ a ∈ served.records, a.rtype ≠ RRSIG → ¬ leftOut a → anew a.rtype = false →
    ∀ s ∈ zone.records, s.rtype = a.rtype → s.name.same a.name = true → a.ttl.secs ≤ s.ttl.secs
  signatures : ∀ a ∈ served.records, a.rtype ≠ RRSIG → ¬ leftOut a →
    ∀ r ∈ served.records, ∀ sig : Rrsig, r.rtype = RRSIG →
      isImportedDnskeyRrsig r zone.origin.toFolded policy = false → r.rdata.parse = .ok sig.parsed →
      sig.typeCovered = a.rtype → r.name.same a.name = true → r.ttl = a.ttl ∧ sig.originalTtl = a.ttl.secs

theorem be32_injective {a b : UInt32} (h : be32 a = be32 b) : a = b := by
  have hword := congrArg (fun octets : Octets =>
    ofBe32 (octets.getD 0 0) (octets.getD 1 0) (octets.getD 2 0) (octets.getD 3 0)) h
  exact (ofBe32_be32 a).symm.trans (hword.trans (ofBe32_be32 b))

variable {data : RecordData} {sig : Rrsig}

theorem rrsig_head (h : data.parse = .ok sig.parsed) :
    ∃ rest, data.rdata = (be16 sig.typeCovered.code ++ ([sig.algorithm, sig.labels] ++ be32 sig.originalTtl)) ++ rest := by
  rcases ParsedRecord.decode_cases h with ⟨hunknown, -⟩ | ⟨hne, hrtype, -⟩
  · cases hunknown
  have hrrsig : data.rtype = RRSIG := hrtype.symm
  have hread : decodeRrsig data.rdata data.rdata = .ok sig.parsed := by
    rw [RecordData.parse, hrrsig, ParsedRecord.decode, if_neg (by rwa [List.isEmpty_iff])] at h
    exact h
  obtain ⟨⟨covered, r₁⟩, hcovered, h⟩ := except_bind_eq_ok.mp hread
  obtain ⟨⟨algorithm, labels, r₂⟩, hpair, h⟩ := except_bind_eq_ok.mp h
  obtain ⟨⟨ttl, r₃⟩, httl, h⟩ := except_bind_eq_ok.mp h
  obtain ⟨⟨expiration, r₄⟩, -, h⟩ := except_bind_eq_ok.mp h
  obtain ⟨⟨inception, r₅⟩, -, h⟩ := except_bind_eq_ok.mp h
  obtain ⟨⟨keyTag, r₆⟩, -, h⟩ := except_bind_eq_ok.mp h
  obtain ⟨⟨signer, signature⟩, -, h⟩ := except_bind_eq_ok.mp h
  have hfields := ParsedRecord.rrsig.inj (Except.ok.inj h)
  obtain ⟨hcode, halgorithm, hlabels, hottl, -⟩ := hfields
  unfold readPair at hpair
  split at hpair
  · cases hpair
    refine ⟨r₃, ?_⟩
    rw [← hcode, ← halgorithm, ← hlabels, ← hottl, readU16_consumed hcovered, readU32_consumed httl]
    simp
  · cases hpair

theorem rrsig_stored {kept : Rrsig} (h : data.parse = .ok sig.parsed)
    (hkept : (stored data).parse = .ok kept.parsed) :
    kept.typeCovered = sig.typeCovered ∧ kept.originalTtl = sig.originalTtl := by
  obtain ⟨rest, hdata⟩ := rrsig_head h
  obtain ⟨rest', hstored⟩ := rrsig_head hkept
  obtain ⟨tail, htail⟩ : ∃ tail, data.rdata = (stored data).rdata ++ tail := ⟨_, (List.take_append_drop _ _).symm⟩
  have hheads : (be16 sig.typeCovered.code ++ ([sig.algorithm, sig.labels] ++ be32 sig.originalTtl)) ++ rest =
      (be16 kept.typeCovered.code ++ ([kept.algorithm, kept.labels] ++ be32 kept.originalTtl)) ++ (rest' ++ tail) := by
    rw [← hdata, htail, hstored, List.append_assoc _ rest' tail]
  obtain ⟨hhead, -⟩ := List.append_inj hheads rfl
  obtain ⟨hcode, hafter⟩ := List.append_inj hhead rfl
  obtain ⟨-, httl⟩ := List.append_inj hafter rfl
  exact ⟨congrArg Rtype.mk (be16_injective hcode.symm), be32_injective httl.symm⟩

theorem first_of_rrsetsOf {signed : List ZoneRecord} {key : Octets ×ₗ Nat} {rrset : ZoneRrset}
    (h : (key, rrset) ∈ rrsetsOf signed) :
    ∃ first ∈ signed, rrset.name = first.name ∧ rrset.rtype = first.rtype ∧ rrset.ttl = first.ttl := by
  obtain ⟨first, rest, hrecords, hname, hrtype, httl, -⟩ := asRrset_eq_some (mem_rrsetsOf.mp h)
  have hfirst : first ∈ rrsetRecords signed key := hrecords ▸ List.mem_cons_self
  exact ⟨first, (List.mem_filter.mp hfirst).1, hname, hrtype, httl⟩

theorem parse_of_coveredType {covered : Rtype} (h : coveredType data = some covered) :
    ∃ sig : Rrsig, data.parse = .ok sig.parsed ∧ sig.typeCovered = covered := by
  rw [coveredType] at h
  split at h
  · rename_i typeCovered algorithm labels originalTtl inception expiration keyTag signerName signature hparse
    exact ⟨⟨Name.root, typeCovered, algorithm, labels, originalTtl, inception, expiration, keyTag, signerName,
      signature⟩, hparse, Option.some.inj h⟩
  · cases h

theorem imported_of_unsigned {crypto : Crypto} {zone : Zone} {keys : List SigningKey}
    {policy : SigningPolicy} {layout : Layout} {signed : List ZoneRecord}
    (h : unsigned crypto zone keys policy = .ok (layout, signed)) {r : ZoneRecord} (hr : r ∈ signed)
    (hrrsig : r.rtype = RRSIG) (hparse : (stored r.rdata).parse = .ok sig.parsed) :
    isImportedDnskeyRrsig (storedRecord r) zone.origin.toFolded policy = true := by
  obtain ⟨carried, soaTtl, denialTtl, hfrom, horigin⟩ := origin_of_unsigned h
  rcases (horigin r hr).added with hcarried | ⟨-, htype⟩ | ⟨-, htype⟩
  · obtain ⟨s, -, -, hsname, himported⟩ := hfrom.source r hcarried
    obtain ⟨himported, hrdata⟩ := himported (by rw [hrrsig]; decide)
    rw [isImportedDnskeyRrsig, Bool.and_eq_true, Bool.and_eq_true, Bool.and_eq_true, decide_eq_true_eq,
      decide_eq_true_eq, decide_eq_true_eq] at himported ⊢
    obtain ⟨⟨⟨hpolicy, -⟩, hname⟩, hcovers⟩ := himported
    refine ⟨⟨⟨hpolicy, hrrsig⟩, hsname ▸ hname⟩, ?_⟩
    obtain ⟨whole, hwhole, hdnskey⟩ := parse_of_coveredType hcovers
    rw [hrdata] at hwhole
    show coveredType (stored r.rdata) = _
    rw [coveredType, hparse, ← hdnskey, ← (rrsig_stored hwhole hparse).1]
    rfl
  · rw [hrrsig] at htype
    exact absurd htype (by simp only [isKeyRecord]; decide)
  · rw [hrrsig] at htype
    exact absurd htype (by decide)

/-- **One TTL for an RRset after signing**, in the records and in the RRSIGs over them: no larger than any the
source gave it, where it is not one that is made anew. Nothing is said of a CDS or CDNSKEY RRset that was there
and is added to. -/
theorem signedZone_oneTtl {crypto : Crypto} {zone served : Zone} {keys : List SigningKey} {policy : SigningPolicy}
    (h : signZone crypto zone keys policy = .ok served) :
    OneTtl (Joined zone keys policy) isSignerOutput zone served policy := by
  obtain ⟨⟨out, fresh⟩, hout, hserved⟩ := except_bind_eq_ok.mp h
  obtain rfl : zoneOf zone.origin out = served := Except.ok.inj hserved
  obtain ⟨layout, signed, hunsigned, hsigned⟩ := of_signRecords hout
  have hserved : ∀ a ∈ (zoneOf zone.origin out).records, a.rtype ≠ RRSIG →
      ∃ a₀ ∈ signed, a₀.name = a.name ∧ a₀.rtype = a.rtype ∧ a₀.ttl = a.ttl := by
    intro a ha hnot
    rw [zoneOf_records] at ha
    obtain ⟨a₀, ha₀, rfl⟩ := List.mem_map.mp ha
    rcases (mem_signEverything hsigned).mp ha₀ with ha₀ | ⟨key, rrset, made, names, -, hover, hmade⟩
    · exact ⟨a₀, ha₀, rfl, rfl, rfl⟩
    · exact absurd (rtype_of_signaturesOver hover hmade) hnot
  have hjoined : ∀ {a a₀ : ZoneRecord}, a₀.name = a.name → a₀.rtype = a.rtype → ¬ Joined zone keys policy a →
      ¬ Joined zone keys policy a₀ :=
    fun hname hrtype hnot hj => hnot ((joined_congr hrtype (hname ▸ Name.same_self _)).mpr hj)
  refine ⟨fun a ha hnot hleft b hb hrtype hname => ?_, fun a ha hnot hleft hours s hs hrtype hname => ?_,
    fun a ha hnot hleft r hr sig hrrsig hmine hparse hcovers hname => ?_⟩
  · obtain ⟨a₀, ha₀, haname, hatype, hattl⟩ := hserved a ha hnot
    obtain ⟨b₀, hb₀, hbname, hbtype, hbttl⟩ := hserved b hb (hrtype ▸ hnot)
    rw [← hattl, ← hbttl]
    exact one_ttl_unsigned hunsigned ha₀ hb₀ (hatype ▸ hnot) (hjoined haname hatype hleft)
      (by rw [hbtype, hatype, hrtype]) (by rw [hbname, haname]; exact hname)
  · obtain ⟨a₀, ha₀, haname, hatype, hattl⟩ := hserved a ha hnot
    rw [← hattl]
    exact ttl_le_source hunsigned ha₀ hs (hatype ▸ hours) (hjoined haname hatype hleft) (hrtype.trans hatype.symm)
      (by rw [haname]; exact hname)
  · obtain ⟨a₀, ha₀, haname, hatype, hattl⟩ := hserved a ha hnot
    rw [zoneOf_records] at hr
    obtain ⟨r₀, hr₀, rfl⟩ := List.mem_map.mp hr
    rcases (mem_signEverything hsigned).mp hr₀ with hold | ⟨key, rrset, made, names, hrrset, hover, hmade⟩
    · -- an RRSIG that was carried over was imported
      rw [imported_of_unsigned hunsigned hold hrrsig hparse] at hmine
      cases hmine
    · rcases of_signaturesOver hover with ⟨-, rfl⟩ | ⟨-, ⟨carried, hcarried, -⟩ | ⟨-, hsignatures⟩⟩
      · cases hmade
      · cases hcarried
      · obtain ⟨signer, -, hby⟩ := mem_of_mapM_ok hsignatures hmade
        obtain ⟨fresh, hfresh, hrname, hrttl, -, -, hfreshParse⟩ := of_signatureBy hby
        obtain ⟨data, signature, -, -, rfl⟩ := of_signRrset hfresh
        obtain ⟨hcovered, hottl⟩ := rrsig_stored hfreshParse hparse
        obtain ⟨first, hfirst, hfname, hftype, hfttl⟩ := first_of_rrsetsOf hrrset
        have hftype : first.rtype = a₀.rtype := by
          rw [← hftype, hatype, ← hcovers, hcovered]
          rfl
        have hfname : first.name.same a₀.name = true := by
          rw [← hfname, ← hrname, haname]
          exact hname
        have hsame := one_ttl_unsigned hunsigned ha₀ hfirst (hatype ▸ hnot) (hjoined haname hatype hleft) hftype hfname
        have hottl : sig.originalTtl = rrset.ttl.secs := hottl
        rw [hottl]
        show r₀.ttl = a.ttl ∧ _
        rw [hrttl, hfttl, hsame, hattl]
        exact ⟨rfl, rfl⟩

/-! ## Zones that are signed -/

theorem exists_served {crypto : Crypto} {zone served : Zone} {keys : List SigningKey} {policy : SigningPolicy}
    (h : signZone crypto zone keys policy = .ok served) (name : Name) (rtype : Rtype) (ttl : Ttl)
    (hmade : ((unsigned crypto zone keys policy).toOption.any fun made =>
      made.2.any fun r => r.rtype == rtype && (r.name == name && r.ttl == ttl)) = true) :
    ∃ a ∈ served.records, a.rtype = rtype ∧ a.name = name ∧ a.ttl = ttl := by
  obtain ⟨⟨out, fresh⟩, hout, hserved⟩ := except_bind_eq_ok.mp h
  obtain rfl : zoneOf zone.origin out = served := Except.ok.inj hserved
  obtain ⟨layout, signed, hunsigned, hsigned⟩ := of_signRecords hout
  rw [hunsigned] at hmade
  obtain ⟨r, hr, hshape⟩ := List.any_eq_true.mp hmade
  rw [Bool.and_eq_true, Bool.and_eq_true, beq_iff_eq, beq_iff_eq, beq_iff_eq] at hshape
  refine ⟨storedRecord r, ?_, hshape.1, hshape.2.1, hshape.2.2⟩
  rw [zoneOf_records]
  exact List.mem_map_of_mem ((mem_signEverything hsigned).mpr (.inl hr))

def negativeSoa : ZoneRecord :=
  ⟨ex, ⟨300⟩, .IN, ⟨SOA, wireOf [] ++ wireOf [] ++ List.replicate 16 0 ++ [0, 0, 1, 44]⟩⟩

def oldNsec : ZoneRecord := ⟨ex, ⟨60⟩, .IN, ⟨NSEC, ex.wire ++ [0, 1, 2]⟩⟩

def handWritten : ZoneRecord := ⟨ex, ⟨60⟩, .IN, ⟨CDNSKEY, (secondKey 257 .default).dnskeyRdata⟩⟩

def syncedKey : SigningKey := firstKey 257 { KeyTiming.default with syncPublish := some 0 }

def syncRun : SigningRun where
  crypto := ed25519Crypto
  zone := zoneOf ex [exSoa, handWritten]
  keys := [syncedKey]
  policy := .validFor 1754197300 2592000 .nsec .local
  previous := none

theorem syncRun_signed :
    ∃ served, signZone syncRun.crypto syncRun.zone syncRun.keys syncRun.policy = .ok served := by
  have hkeys : ∀ key ∈ syncRun.keys, Signs ed25519Sign key := by
    intro key hkey
    rw [List.mem_singleton.mp hkey]
    exact signs_firstKey _ _
  exact served_isOk hkeys (by decide +kernel)

theorem signedZone_oneTtl_ex :
    ∃ served, signZone ed25519Crypto (zoneOf ex [exSoa, wwwA]) [firstKey 257 .default]
        (.validFor 1754197300 2592000 .nsec .local) = .ok served ∧
      OneTtl (Joined (zoneOf ex [exSoa, wwwA]) [firstKey 257 .default] (.validFor 1754197300 2592000 .nsec .local))
        isSignerOutput (zoneOf ex [exSoa, wwwA]) served (.validFor 1754197300 2592000 .nsec .local) := by
  obtain ⟨served, hserved⟩ := exZone_signed [exSoa, wwwA] (by decide +kernel)
  exact ⟨served, hserved, signedZone_oneTtl hserved⟩

/-- **A chain made anew outlives the one it replaces**, and a CDNSKEY RRset that is added to has two TTLs. -/
theorem signedZone_otherTtls :
    (¬ ∀ (crypto : Crypto) (zone served : Zone) (keys : List SigningKey) (policy : SigningPolicy),
      signZone crypto zone keys policy = .ok served → OneTtl (fun _ => False) (fun _ => false) zone served policy) ∧
    ¬ ∀ (crypto : Crypto) (zone served : Zone) (keys : List SigningKey) (policy : SigningPolicy),
      signZone crypto zone keys policy = .ok served → OneTtl (fun _ => False) isSignerOutput zone served policy := by
  constructor
  · intro hall
    obtain ⟨served, hserved⟩ := exZone_signed [negativeSoa, oldNsec] (by decide +kernel)
    obtain ⟨a, ha, hrtype, hname, httl⟩ :=
      exists_served hserved ex NSEC ⟨300⟩ (by decide +kernel)
    have hsource : oldNsec ∈ (zoneOf ex [negativeSoa, oldNsec]).records := by decide +kernel
    have hle := (hall _ _ _ _ _ hserved).smallest a ha (by rw [hrtype]; decide) not_false rfl oldNsec hsource
      hrtype.symm (by rw [hname]; decide +kernel)
    rw [httl] at hle
    exact absurd hle (by decide)
  · intro hall
    obtain ⟨served, hserved⟩ := syncRun_signed
    obtain ⟨a, ha, hrtype, hname, httl⟩ :=
      exists_served hserved ex CDNSKEY ⟨60⟩ (by decide +kernel)
    obtain ⟨b, hb, hrtype', hname', httl'⟩ :=
      exists_served hserved ex CDNSKEY ⟨300⟩ (by decide +kernel)
    have hsame := (hall _ _ _ _ _ hserved).same a ha (by rw [hrtype]; decide) not_false b hb
      (hrtype'.trans hrtype.symm) (by rw [hname, hname']; decide +kernel)
    rw [httl, httl'] at hsame
    exact absurd hsame (by decide)

end Rdns.Dnssec
