import Rdns.Dnssec.NsecProofs
import Rdns.Dnssec.Signer
import Rdns.Lib.Ed25519
import Rdns.Lib.SortedSet
import Rdns.Zones.Built

/-!
# Rdns — What a signing run does

The shape every successful run of `sign_zone_inner` has, for the proofs about it.
-/

namespace Rdns.Dnssec

open Rdns.Lib Rdns.Core Rdns.Present Rdns.Zones RecordTypes

/-! ## The RRsets of a zone -/

def rrsetRecords (signed : List ZoneRecord) (key : Octets ×ₗ Nat) : List ZoneRecord :=
  signed.filter fun r => rrsetKey r = key

def asRrset : List ZoneRecord → Option ZoneRrset
  | [] => none
  | first :: rest => some ⟨first.name, first.rtype, first.ttl, (first :: rest).map ZoneRecord.rdata⟩

theorem ordered_rrsetsOf (signed : List ZoneRecord) : (rrsetsOf signed).Ordered :=
  SortedMap.ordered_nil.collect _ _ _

theorem foldl_noteRrset (records : List ZoneRecord) (rrset : ZoneRrset) :
    records.foldl (fun value x => some (noteRrset x value)) (some rrset)
      = some { rrset with rdatas := rrset.rdatas ++ records.map ZoneRecord.rdata } := by
  induction records generalizing rrset with
  | nil => simp
  | cons r records ih =>
    rw [List.foldl_cons, noteRrset, ih]
    simp

theorem get_rrsetsOf (signed : List ZoneRecord) (key : Octets ×ₗ Nat) :
    (rrsetsOf signed).get key = asRrset (rrsetRecords signed key) := by
  rw [rrsetsOf, SortedMap.get_collect_filter SortedMap.ordered_nil]
  -- the same test, whichever way it is decided
  refine (congrArg _ (List.filter_congr (q := fun r => decide (rrsetKey r = key))
    fun _ _ => decide_eq_decide.mpr Iff.rfl)).trans ?_
  show (rrsetRecords signed key).foldl _ none = _
  cases rrsetRecords signed key with
  | nil => rfl
  | cons first rest =>
    rw [List.foldl_cons, noteRrset, foldl_noteRrset]
    rfl

variable {zone : Zone} {signed : List ZoneRecord}

/-- **An RRset is the records of its key**, under the first one's name and TTL. -/
theorem mem_rrsetsOf {key : Octets ×ₗ Nat} {rrset : ZoneRrset} :
    (key, rrset) ∈ rrsetsOf signed ↔ asRrset (rrsetRecords signed key) = some rrset := by
  rw [SortedMap.mem_iff_get (ordered_rrsetsOf signed), get_rrsetsOf]

theorem asRrset_eq_some {records : List ZoneRecord} {rrset : ZoneRrset}
    (h : asRrset records = some rrset) :
    ∃ first rest, records = first :: rest ∧ rrset.name = first.name ∧ rrset.rtype = first.rtype ∧
      rrset.ttl = first.ttl ∧ rrset.rdatas = records.map ZoneRecord.rdata := by
  cases records with
  | nil => cases h
  | cons first rest =>
    cases h
    exact ⟨first, rest, rfl, rfl, rfl, rfl, rfl⟩

variable {key : SigningKey} {r record : ZoneRecord} {rtype : Rtype}

theorem exists_rrset_of_mem (hr : r ∈ signed) :
    ∃ rrset, (rrsetKey r, rrset) ∈ rrsetsOf signed ∧ r.rdata ∈ rrset.rdatas := by
  have hmem : r ∈ rrsetRecords signed (rrsetKey r) := List.mem_filter.mpr ⟨hr, by simp⟩
  cases hrecords : rrsetRecords signed (rrsetKey r) with
  | nil =>
    rw [hrecords] at hmem
    cases hmem
  | cons first rest =>
    refine ⟨_, mem_rrsetsOf.mpr (by rw [hrecords, asRrset]), ?_⟩
    rw [hrecords] at hmem
    exact List.mem_map_of_mem hmem

/-! ## One signature -/

def Rrsig.parsed (sig : Rrsig) : ParsedRecord :=
  .rrsig sig.typeCovered sig.algorithm sig.labels sig.originalTtl sig.inception sig.expiration sig.keyTag
    sig.signerName sig.signature

theorem fromParsed_rrsig (sig : Rrsig) :
    ∃ rdata, RecordData.fromParsed sig.parsed = .ok rdata ∧ rdata.rtype = RRSIG ∧
      rdata.parse = .ok sig.parsed := by
  refine ⟨_, rfl, rfl, ?_⟩
  have hok : RecordData.fromParsed sig.parsed = .ok _ := rfl
  exact RecordData.fromParsed_parse hok (by
    show be16 sig.typeCovered.code ++ _ ≠ []
    exact List.append_ne_nil_of_left_ne_nil (by simp [be16]) _)

variable {sign : Sign} {layout : Layout} {keys : List SigningKey} {policy : SigningPolicy}
  {previous : Option (List ZoneRecord)} {rrset : ZoneRrset}

def ZoneRrset.toRrset (rrset : ZoneRrset) : Rrset := ⟨rrset.name, rrset.rtype, .IN, rrset.rdatas⟩

/-- **The record of a signature** holds what `sign_rrset` made, at the RRset's name and TTL. -/
theorem of_signatureBy (h : signatureBy sign policy rrset key = .ok record) :
    ∃ sig, key.signRrset sign rrset.toRrset rrset.ttl.secs policy.inception
        (policy.expiryFor rrset.name rrset.rtype) = .ok sig ∧
      record.name = rrset.name ∧ record.ttl = rrset.ttl ∧ record.cls = .IN ∧
      record.rtype = RRSIG ∧ record.rdata.parse = .ok sig.parsed := by
  rw [signatureBy] at h
  split at h
  · cases h
  · rename_i sig hsig
    obtain ⟨rdata, hrdata, hrtype, hparse⟩ := fromParsed_rrsig sig
    rw [Rrsig.parsed] at hrdata
    rw [hrdata] at h
    cases h
    exact ⟨sig, hsig, rfl, rfl, rfl, hrtype, hparse⟩

theorem of_signRrset {set : Rrset} {ttl inception expiration : UInt32} {sig : Rrsig}
    (h : key.signRrset sign set ttl inception expiration = .ok sig) :
    ∃ data signature, signedData (key.unsignedRrsig set ttl inception expiration) set = .ok data ∧
      sign key.algorithm key.publicKey data = .ok signature ∧
      sig = { key.unsignedRrsig set ttl inception expiration with signature } := by
  rw [SigningKey.signRrset] at h
  obtain ⟨data, hdata, h⟩ := except_bind_eq_ok.mp h
  obtain ⟨signature, hsignature, h⟩ := except_bind_eq_ok.mp h
  cases h
  refine ⟨data, signature, ?_, hsignature, rfl⟩
  cases hsigned : signedData (key.unsignedRrsig set ttl inception expiration) set with
  | error e =>
    rw [hsigned] at hdata
    cases hdata
  | ok found =>
    rw [hsigned] at hdata
    cases hdata
    rfl

/-! ## The signatures over one RRset -/

def leftUnsigned (layout : Layout) (policy : SigningPolicy) (key : Octets) (rrset : ZoneRrset) : Prop :=
  signable (layout.at key) rrset.name rrset.rtype layout.origin = false ∨
    rrset.rtype = DNSKEY ∧ policy.dnskeySignature = .imported

/-- **Where the RRSIGs over one RRset come from**: there are none, they are carried, or the
active keys of its role made them. -/
theorem of_signaturesOver {key : Octets} {made : List ZoneRecord} {fresh : List (Name × Rtype)}
    (h : signaturesOver sign layout keys policy previous key rrset = .ok (made, fresh)) :
    (leftUnsigned layout policy key rrset ∧ made = []) ∨
    (¬ leftUnsigned layout policy key rrset ∧
      ((∃ carried, carriedFor previous layout keys policy rrset = some carried ∧
        made = carried.map fun s => ⟨rrset.name, rrset.ttl, .IN, s.rdata⟩) ∨
      carriedFor previous layout keys policy rrset = none ∧
        (signersFor keys policy.signedAt rrset.rtype).mapM (signatureBy sign policy rrset) = .ok made)) := by
  rw [signaturesOver] at h
  split at h
  · rename_i hnot
    cases h
    exact .inl ⟨.inl (by simpa using hnot), rfl⟩
  · rename_i hsignable
    split at h
    · rename_i himported
      cases h
      exact .inl ⟨.inr himported, rfl⟩
    · rename_i hours
      have hnot : ¬ leftUnsigned layout policy key rrset := by
        rintro (hl | hl)
        · exact hsignable (by simpa using hl)
        · exact hours hl
      refine .inr ⟨hnot, ?_⟩
      split at h
      · grind
      · rename_i hnone
        obtain ⟨signatures, hsignatures, h⟩ := except_bind_eq_ok.mp h
        cases h
        exact .inr ⟨hnone, hsignatures⟩

theorem of_carriedFor {carried : List CarriedSignature}
    (h : carriedFor previous layout keys policy rrset = some carried) :
    ∃ was tags, previous = some was ∧
      tagsNaming was layout.origin (signersFor keys policy.signedAt rrset.rtype) = some tags ∧
      reuse was rrset.name rrset.rtype rrset.ttl rrset.rdatas tags policy.signedAt = some carried := by
  cases previous with
  | none => cases h
  | some was =>
    rw [carriedFor] at h
    simp only [Option.bind_eq_bind, Option.bind_some] at h
    obtain ⟨tags, htags, h⟩ := Option.bind_eq_some_iff.mp h
    exact ⟨was, tags, rfl, htags, h⟩

theorem mem_previousSignatures {was : List ZoneRecord} {name : Name} {s : CarriedSignature}
    (h : s ∈ previousSignatures was name rtype) :
    ∃ r ∈ was, r.name.same name = true ∧ r.rtype = RRSIG ∧ s.rdata = r.rdata ∧
      ∃ sig : Rrsig, r.rdata.parse = .ok sig.parsed ∧ sig.typeCovered = rtype ∧
        sig.expiration = s.expiration ∧ sig.keyTag = s.keyTag := by
  obtain ⟨r, hr, hcarried⟩ := List.mem_filterMap.mp h
  obtain ⟨hmem, hname⟩ := List.mem_filter.mp hr
  rw [carriedOf] at hcarried
  split at hcarried
  · cases hcarried
  · rename_i hrtype
    split at hcarried
    · rename_i covered algorithm labels ttl inception expiration keyTag signer signature hparse
      split at hcarried
      · rename_i hcovered
        cases hcarried
        exact ⟨r, hmem, hname, by simpa using hrtype, rfl,
          ⟨r.name, covered, algorithm, labels, ttl, inception, expiration, keyTag, signer, signature⟩,
          hparse, hcovered, rfl, rfl⟩
      · cases hcarried
    · cases hcarried

theorem of_reuse {was : List ZoneRecord} {name : Name} {ttl : Ttl} {rdatas : List RecordData}
    {tags : List UInt16} {signedAt : Nat} {carried : List CarriedSignature}
    (h : reuse was name rtype ttl rdatas tags signedAt = some carried) :
    carried = previousSignatures was name rtype ∧
      (∃ old, previousRrset was name rtype = some (ttl, old) ∧ old.length = rdatas.length ∧
        sameSet old rdatas = true) ∧
      carried ≠ [] ∧ (∀ s ∈ carried, signedAt < s.expiration.toNat) ∧
      sameSet (carried.map CarriedSignature.keyTag) tags = true := by
  rw [reuse] at h
  split at h
  · cases h
  · rename_i wasTtl old hprevious
    split at h
    · cases h
    · rename_i hsame
      obtain ⟨httl, hlength⟩ := not_or.mp hsame
      split at h
      · cases h
      · rename_i hset
        dsimp only at h
        split at h
        · cases h
        · rename_i hempty
          split at h
          · cases h
          · rename_i hexpired
            split at h
            · cases h
            · rename_i htags
              cases h
              refine ⟨rfl, ⟨old, ?_, not_not.mp hlength, by simpa using hset⟩, by simpa using hempty,
                ?_, by simpa using htags⟩
              · rw [hprevious, not_not.mp httl]
              · intro s hs
                have hlate := hexpired
                simp only [List.any_eq_true, decide_eq_true_eq, not_exists, not_and] at hlate
                exact Nat.lt_of_not_le (hlate s hs)

theorem rtype_of_signaturesOver {key : Octets} {made : List ZoneRecord}
    {fresh : List (Name × Rtype)}
    (h : signaturesOver sign layout keys policy previous key rrset = .ok (made, fresh))
    (hr : r ∈ made) : r.rtype = RRSIG := by
  rcases of_signaturesOver h with ⟨-, rfl⟩ | ⟨-, ⟨carried, hcarried, rfl⟩ | ⟨-, hmade⟩⟩
  · cases hr
  · obtain ⟨s, hs, rfl⟩ := List.mem_map.mp hr
    obtain ⟨was, tags, -, -, hreuse⟩ := of_carriedFor hcarried
    rw [(of_reuse hreuse).1] at hs
    obtain ⟨old, -, -, hrtype, hrdata, -⟩ := mem_previousSignatures hs
    show s.rdata.rtype = _
    rw [hrdata]
    exact hrtype
  · obtain ⟨signer, -, hsigned⟩ := mem_of_mapM_ok hmade hr
    obtain ⟨sig, -, -, -, -, hrtype, -⟩ := of_signatureBy hsigned
    exact hrtype

/-! ## The run -/

section Run

variable {signed out : List ZoneRecord} {fresh : List (Name × Rtype)}

section

variable (h : signEverything sign layout keys policy previous signed = .ok (out, fresh))
include h

theorem of_signEverything :
    dataSigners keys policy.signedAt ≠ [] ∧ ∃ made,
      (rrsetsOf signed).mapM (fun entry =>
        signaturesOver sign layout keys policy previous (ofLex entry.1).1 entry.2) = .ok made ∧
      out = signed ++ made.flatMap Prod.fst := by
  rw [signEverything] at h
  split at h
  · cases h
  · rename_i hactive
    obtain ⟨made, hmade, h⟩ := except_bind_eq_ok.mp h
    cases h
    exact ⟨by simpa using hactive, made, hmade, rfl⟩

/-- **What is in the signed zone**: the unsigned zone, and RRSIGs over its RRsets. -/
theorem mem_signEverything :
    r ∈ out ↔ r ∈ signed ∨ ∃ key rrset made names, (key, rrset) ∈ rrsetsOf signed ∧
      signaturesOver sign layout keys policy previous (ofLex key).1 rrset = .ok (made, names) ∧
      r ∈ made := by
  obtain ⟨-, all, hall, rfl⟩ := of_signEverything h
  rw [List.mem_append, List.mem_flatMap]
  refine or_congr_right ⟨?_, ?_⟩
  · rintro ⟨⟨made, names⟩, hmade, hr⟩
    obtain ⟨⟨key, rrset⟩, hentry, hover⟩ := mem_of_mapM_ok hall hmade
    exact ⟨key, rrset, made, names, hentry, hover, hr⟩
  · rintro ⟨key, rrset, made, names, hentry, hover, hr⟩
    obtain ⟨pair, hpair, heq⟩ := exists_of_mapM_ok hall hentry
    dsimp only at heq
    rw [hover] at heq
    cases heq
    exact ⟨_, hpair, hr⟩

theorem filter_notRrsig :
    out.filter (fun r => r.rtype ≠ RRSIG) = signed.filter fun r => r.rtype ≠ RRSIG := by
  obtain ⟨-, all, hall, rfl⟩ := of_signEverything h
  rw [List.filter_append, List.append_right_eq_self, List.filter_eq_nil_iff]
  intro r hr
  obtain ⟨⟨made, names⟩, hmade, hr⟩ := List.mem_flatMap.mp hr
  obtain ⟨entry, -, hover⟩ := mem_of_mapM_ok hall hmade
  simpa using rtype_of_signaturesOver hover hr

end

end Run

theorem of_signRecords {crypto : Crypto} {out : List ZoneRecord × List (Name × Rtype)}
    (h : signRecords crypto zone keys policy previous = .ok out) :
    ∃ layout signed, unsigned crypto zone keys policy = .ok (layout, signed) ∧
      signEverything crypto.sign layout keys policy previous signed = .ok out := by
  obtain ⟨⟨layout, signed⟩, hunsigned, h⟩ := except_bind_eq_ok.mp h
  exact ⟨layout, signed, hunsigned, h⟩

section Unsigned

variable {crypto : Crypto} {zone : Zone} {signed : List ZoneRecord}

variable {ttl : Ttl} {r : ZoneRecord} {origin : Name} {now : Nat}

theorem of_published (h : published crypto zone keys policy = .ok (signed, ttl)) :
    ∃ carried soaTtl minimum synced,
      carryOverRecords zone zone.origin.toFolded policy = .ok (carried, soaTtl, minimum) ∧
      publishSyncRecords crypto.sha256 keys zone.origin.toFolded
        (dnskeyTtl carried zone.origin.toFolded soaTtl) policy.signedAt
        (publishDnskeys keys zone.origin.toFolded soaTtl policy.signedAt carried) = .ok synced ∧
      signed = publishNsec3param policy.chain zone.origin.toFolded
        (dnskeyTtl carried zone.origin.toFolded soaTtl) synced ∧
      ttl = Ttl.negativeAnswer soaTtl minimum := by
  obtain ⟨⟨carried, soaTtl, minimum⟩, hcarried, h⟩ := except_bind_eq_ok.mp h
  obtain ⟨synced, hsynced, h⟩ := except_bind_eq_ok.mp h
  dsimp only at h
  split at h
  · cases h
  · cases h
    exact ⟨carried, soaTtl, minimum, synced, hcarried, hsynced, rfl, rfl⟩

theorem of_unsigned (h : unsigned crypto zone keys policy = .ok (layout, signed)) :
    policy.chain.check = .ok () ∧ checkKeys keys zone.origin.toFolded = .ok () ∧
      policy.inception < policy.expiration ∧ ∃ base ttl chain,
        published crypto zone keys policy = .ok (base, ttl) ∧
        layout = Layout.of base zone.origin.toFolded ∧
        denialChain crypto layout policy.chain ttl = .ok chain ∧ signed = base ++ chain := by
  obtain ⟨u, hcheck, h⟩ := except_bind_eq_ok.mp h
  obtain ⟨u', hkeys, h⟩ := except_bind_eq_ok.mp h
  dsimp only at h
  split at h
  · cases h
  · rename_i hwindow
    obtain ⟨⟨base, ttl⟩, hpublished, h⟩ := except_bind_eq_ok.mp h
    obtain ⟨chain, hchain, h⟩ := except_bind_eq_ok.mp h
    cases h
    exact ⟨hcheck, hkeys, by simpa using hwindow, base, ttl, chain, hpublished, rfl, hchain, rfl⟩

theorem publishSyncRecords_leads {sha256 : Octets → Octets} {synced : List ZoneRecord}
    (h : publishSyncRecords sha256 keys origin ttl now signed = .ok synced) :
    signed <+: synced := by
  rw [publishSyncRecords] at h
  dsimp only at h
  split at h
  · cases h
    exact List.prefix_refl _
  · grind

theorem publishNsec3param_leads (chain : DenialChain) (origin : Name) (ttl : Ttl) :
    signed <+: publishNsec3param chain origin ttl signed := by
  cases chain with
  | nsec => exact List.prefix_refl _
  | nsec3 salt iterations optOut => exact List.prefix_append ..

theorem mem_carryOverRecords {carried : List ZoneRecord} {soaTtl : Ttl} {minimum : UInt32}
    (h : carryOverRecords zone origin policy = .ok (carried, soaTtl, minimum)) (hr : r ∈ carried) :
    ∃ record ∈ zone.records, ∃ kept info ttl, carryOne origin policy record = .ok (some (kept, info)) ∧
      r = { kept with ttl } := by
  obtain ⟨all, hall, h⟩ := except_bind_eq_ok.mp h
  dsimp only at h
  split at h
  · cases h
  · cases h
    obtain ⟨kept, hkept, rfl⟩ := List.mem_map.mp hr
    obtain ⟨⟨kept, info⟩, hpair, rfl⟩ := List.mem_map.mp hkept
    obtain ⟨found, hfound, hsome⟩ := List.mem_filterMap.mp hpair
    obtain rfl : found = some (kept, info) := hsome
    obtain ⟨record, hrecord, hcarry⟩ := mem_of_mapM_ok hall hfound
    exact ⟨record, hrecord, kept, info, _, hcarry, rfl⟩

theorem mem_publishDnskeys {soaTtl : Ttl} :
    r ∈ publishDnskeys keys origin soaTtl now signed ↔ r ∈ signed ∨
      ∃ key ∈ keys, key.isPublished now = true ∧
        (∀ old ∈ atApex signed origin DNSKEY, old.rdata ≠ ⟨DNSKEY, key.dnskeyRdata⟩) ∧
        r = ⟨origin, dnskeyTtl signed origin soaTtl, .IN, ⟨DNSKEY, key.dnskeyRdata⟩⟩ := by
  rw [publishDnskeys, List.mem_append]
  refine or_congr_right ?_
  rw [List.mem_map]
  constructor
  · rintro ⟨rdata, hrdata, rfl⟩
    obtain ⟨hnew, hfresh⟩ := List.mem_filter.mp hrdata
    obtain ⟨key, hkey, rfl⟩ := List.mem_map.mp hnew
    obtain ⟨hmem, hpublished⟩ := List.mem_filter.mp hkey
    refine ⟨key, hmem, hpublished, fun old hold heq => ?_, rfl⟩
    simp only [Bool.not_eq_true', List.contains_eq_mem, decide_eq_false_iff_not] at hfresh
    exact hfresh (List.mem_map.mpr ⟨old, hold, heq⟩)
  · rintro ⟨key, hmem, hpublished, hfresh, rfl⟩
    refine ⟨_, List.mem_filter.mpr ⟨List.mem_map.mpr ⟨key, List.mem_filter.mpr ⟨hmem, hpublished⟩, rfl⟩, ?_⟩, rfl⟩
    simp only [Bool.not_eq_true', List.contains_eq_mem, decide_eq_false_iff_not]
    intro hold
    obtain ⟨old, hmem, heq⟩ := List.mem_map.mp hold
    exact hfresh old hmem heq

theorem mem_publishSyncRecords {sha256 : Octets → Octets} {synced : List ZoneRecord}
    (h : publishSyncRecords sha256 keys origin ttl now signed = .ok synced) (hr : r ∈ synced) :
    r ∈ signed ∨ r.name = origin ∧ r.ttl = ttl ∧ r.cls = .IN ∧
      ∃ key ∈ keys, key.timing.isSyncPublished now = true ∧ r.rdata ∈ syncRdatas sha256 key := by
  rw [publishSyncRecords] at h
  dsimp only at h
  split at h
  · cases h
    exact .inl hr
  · split at h
    · cases h
    · cases h
      rcases List.mem_append.mp hr with hold | hnew
      · exact .inl hold
      · obtain ⟨rdata, hrdata, rfl⟩ := List.mem_map.mp hnew
        obtain ⟨key, hkey, hsync⟩ := List.mem_flatMap.mp (List.mem_filter.mp hrdata).1
        obtain ⟨hmem, hpublished⟩ := List.mem_filter.mp hkey
        exact .inr ⟨rfl, rfl, rfl, key, hmem, hpublished, hsync⟩

theorem of_mem_denialChain {chainKind : DenialChain} {chain : List ZoneRecord}
    (h : denialChain crypto layout chainKind ttl = .ok chain) (hr : r ∈ chain) :
    r.ttl = ttl ∧ r.rtype = (match chainKind with
      | .nsec => NSEC
      | .nsec3 _ _ _ => NSEC3) := by
  cases chainKind with
  | nsec =>
    obtain ⟨⟨name, next⟩, -, hrecord⟩ := mem_of_mapM_ok h hr
    dsimp only at hrecord
    rw [nsecRecord, fromParsed_nsec] at hrecord
    cases hrecord
    exact ⟨rfl, rfl⟩
  | nsec3 salt iterations optOut =>
    obtain ⟨hashed, -, h⟩ := except_bind_eq_ok.mp h
    dsimp only at h
    split at h
    · cases h
    · obtain ⟨⟨⟨hash, name⟩, next⟩, -, hrecord⟩ := mem_of_mapM_ok h hr
      dsimp only at hrecord
      rw [nsec3Record] at hrecord
      split at hrecord
      · cases hrecord
      · rename_i rdata hrdata
        split at hrecord
        · cases hrecord
        · cases hrecord
          exact ⟨rfl, (RecordData.fromParsed_eq_ok hrdata).1⟩

def isKeyRecord (rtype : Rtype) : Prop :=
  rtype = DNSKEY ∨ rtype = CDS ∨ rtype = CDNSKEY ∨
    rtype = NSEC3PARAM

/-- **Where a record before the chain comes from**: the zone, or the keys and the policy. -/
theorem mem_published (h : published crypto zone keys policy = .ok (signed, ttl)) (hr : r ∈ signed) :
    (∃ record ∈ zone.records, ∃ kept info ttl,
      carryOne zone.origin.toFolded policy record = .ok (some (kept, info)) ∧ r = { kept with ttl }) ∨
    (r.name = zone.origin.toFolded ∧ r.cls = .IN ∧ isKeyRecord r.rtype) := by
  obtain ⟨carried, soaTtl, minimum, synced, hcarried, hsynced, rfl, -⟩ := of_published h
  have hsync : r ∈ synced ∨ (r.name = zone.origin.toFolded ∧ r.cls = .IN ∧ isKeyRecord r.rtype) := by
    rw [publishNsec3param.eq_def] at hr
    split at hr
    · exact .inl hr
    · rcases List.mem_append.mp hr with hr | hr
      · exact .inl hr
      · rw [List.mem_singleton.mp hr]
        exact .inr ⟨rfl, rfl, .inr (.inr (.inr rfl))⟩
  rcases hsync with hr | hr
  · rcases mem_publishSyncRecords hsynced hr with hr | ⟨hname, -, hcls, key, -, -, hrdata⟩
    · rcases mem_publishDnskeys.mp hr with hr | ⟨key, -, -, -, rfl⟩
      · exact .inl (mem_carryOverRecords hcarried hr)
      · exact .inr ⟨rfl, rfl, .inl rfl⟩
    · refine .inr ⟨hname, hcls, .inr ?_⟩
      rw [syncRdatas, List.mem_cons, List.mem_singleton] at hrdata
      rw [ZoneRecord.rtype]
      rcases hrdata with hrdata | hrdata
      · rw [hrdata]
        exact .inl rfl
      · rw [hrdata]
        exact .inr (.inl rfl)
  · exact .inr hr

theorem carried_of_unsigned (h : unsigned crypto zone keys policy = .ok (layout, signed)) :
    ∃ carried soaTtl minimum,
      carryOverRecords zone zone.origin.toFolded policy = .ok (carried, soaTtl, minimum) ∧
      carried <+: signed := by
  obtain ⟨-, -, -, base, ttl, chain, hpublished, -, -, rfl⟩ := of_unsigned h
  obtain ⟨carried, soaTtl, minimum, synced, hcarried, hsynced, rfl, -⟩ := of_published hpublished
  refine ⟨carried, soaTtl, minimum, hcarried, ?_⟩
  have hkeys : carried <+: publishDnskeys keys zone.origin.toFolded soaTtl policy.signedAt carried :=
    List.prefix_append ..
  have hsync : carried <+: synced := hkeys.trans (publishSyncRecords_leads hsynced)
  exact (hsync.trans (publishNsec3param_leads ..)).trans (List.prefix_append ..)

end Unsigned

/-! ## Runs that succeed -/

def ZoneRrset.encodes (rrset : ZoneRrset) : Bool :=
  !rrset.rdatas.isEmpty && (signedOwnerName rrset.name (rrsigLabelsOf rrset.name)).isOk &&
    match rrset.rdatas.mapM canonicalRdata with
    | .ok canonical => canonical.all fun rdata => rdata.length ≤ 65535
    | .error _ => false

theorem bind_isOk {α β ε : Type} {x : Except ε α} {f : α → Except ε β} {a : α} (hx : x = .ok a)
    (hf : ∃ b, f a = .ok b) : ∃ b, (x >>= f) = .ok b := by
  obtain ⟨b, hb⟩ := hf
  exact ⟨b, except_bind_eq_ok.mpr ⟨a, hx, hb⟩⟩

theorem canonicalRdatas_eq {rdatas : List RecordData} {canonical : List Octets}
    (h : rdatas.mapM canonicalRdata = .ok canonical) :
    canonicalRdatas rdatas = .ok (sortedSet (fun a b => a ≤ b) canonical) := by
  rw [canonicalRdatas, h]
  rfl

theorem signedData_isOk (h : rrset.encodes = true) (sig : Rrsig)
    (hlabels : sig.labels = rrsigLabelsOf rrset.name) :
    ∃ data, signedData sig rrset.toRrset = .ok data := by
  rw [ZoneRrset.encodes, Bool.and_eq_true, Bool.and_eq_true] at h
  obtain ⟨⟨hempty, howner⟩, hrdatas⟩ := h
  have hnonempty : ¬ rrset.toRrset.rdatas.isEmpty = true := by
    show ¬ rrset.rdatas.isEmpty = true
    simpa using hempty
  cases hname : signedOwnerName rrset.name (rrsigLabelsOf rrset.name) with
  | error e =>
    rw [hname] at howner
    cases howner
  | ok name =>
    cases hcanonical : rrset.rdatas.mapM canonicalRdata with
    | error e =>
      rw [hcanonical] at hrdatas
      cases hrdatas
    | ok canonical =>
      rw [hcanonical] at hrdatas
      obtain ⟨records, hrecords⟩ : ∃ records, (sortedSet (fun a b => a ≤ b) canonical).mapM
          (signedRecord sig name.wire rrset.toRrset.cls) = .ok records := by
        refine mapM_isOk fun rdata hrdata => ?_
        have hlen : rdata.length ≤ 65535 := by
          simpa using List.all_eq_true.mp hrdatas rdata (mem_sortedSet.mp hrdata)
        exact ⟨_, if_neg (by omega)⟩
      have hname' : signedOwnerName rrset.toRrset.owner sig.labels = .ok name := hlabels ▸ hname
      have hsorted : canonicalRdatas rrset.rdatas = .ok (sortedSet (fun a b => a ≤ b) canonical) :=
        canonicalRdatas_eq hcanonical
      rw [signedData, if_neg hnonempty]
      refine bind_isOk (a := name) (by rw [hname']; rfl) ?_
      refine bind_isOk (by rw [ZoneRrset.toRrset, hsorted]; rfl) ?_
      exact bind_isOk hrecords ⟨_, rfl⟩

theorem signatureBy_of_signRrset {sig : Rrsig}
    (h : key.signRrset sign rrset.toRrset rrset.ttl.secs policy.inception
      (policy.expiryFor rrset.name rrset.rtype) = .ok sig) :
    ∃ record, signatureBy sign policy rrset key = .ok record := by
  obtain ⟨rdata, hrdata, -, -⟩ := fromParsed_rrsig sig
  rw [ZoneRrset.toRrset] at h
  rw [Rrsig.parsed] at hrdata
  rw [signatureBy, h]
  dsimp only
  rw [hrdata]
  exact ⟨_, rfl⟩

theorem mem_active_of_mem_signersFor {now : Nat} (h : key ∈ signersFor keys now rtype) :
    key ∈ activeSigningKeys keys now := by
  rw [signersFor] at h
  split at h
  · grind [dnskeySigners]
  · grind [dataSigners]

def Signs (sign : Sign) (key : SigningKey) : Prop :=
  ∀ data, ∃ signature, sign key.algorithm key.publicKey data = .ok signature

theorem signatureBy_isOk (hsign : Signs sign key) (h : rrset.encodes = true) :
    ∃ record, signatureBy sign policy rrset key = .ok record := by
  obtain ⟨data, hdata⟩ := signedData_isOk h (key.unsignedRrsig rrset.toRrset rrset.ttl.secs
    policy.inception (policy.expiryFor rrset.name rrset.rtype)) rfl
  obtain ⟨signature, hsignature⟩ := hsign data
  have hsig : key.signRrset sign rrset.toRrset rrset.ttl.secs policy.inception
      (policy.expiryFor rrset.name rrset.rtype) = .ok { key.unsignedRrsig rrset.toRrset rrset.ttl.secs
        policy.inception (policy.expiryFor rrset.name rrset.rtype) with signature } := by
    exact except_bind_eq_ok.mpr ⟨data, by rw [hdata]; rfl, except_bind_eq_ok.mpr ⟨signature, hsignature, rfl⟩⟩
  exact signatureBy_of_signRrset hsig

/-- **A run succeeds** once its records can be put into canonical form and a key is active. -/
theorem signRecords_isOk {crypto : Crypto} (hsign : ∀ key ∈ keys, Signs crypto.sign key)
    (hunsigned : unsigned crypto zone keys policy = .ok (layout, signed))
    (hactive : dataSigners keys policy.signedAt ≠ [])
    (hencodes : ∀ entry ∈ rrsetsOf signed, entry.2.encodes = true)
    (previous : Option (List ZoneRecord)) :
    ∃ out, signRecords crypto zone keys policy previous = .ok out := by
  obtain ⟨made, hmade⟩ : ∃ made, (rrsetsOf signed).mapM (fun entry =>
      signaturesOver crypto.sign layout keys policy previous (ofLex entry.1).1 entry.2) = .ok made := by
    refine mapM_isOk fun entry hentry => ?_
    rw [signaturesOver]
    split
    · exact ⟨_, rfl⟩
    · split
      · exact ⟨_, rfl⟩
      · split
        · exact ⟨_, rfl⟩
        · obtain ⟨signatures, hsignatures⟩ : ∃ signatures, (signersFor keys policy.signedAt entry.2.rtype).mapM
              (signatureBy crypto.sign policy entry.2) = .ok signatures :=
            mapM_isOk fun key hkey =>
              signatureBy_isOk (hsign key (List.mem_filter.mp (mem_active_of_mem_signersFor hkey)).1) (hencodes entry hentry)
          rw [hsignatures]
          exact ⟨_, rfl⟩
  refine bind_isOk hunsigned ?_
  show ∃ out, signEverything crypto.sign layout keys policy previous signed = .ok out
  rw [signEverything, if_neg (by simpa using hactive)]
  exact bind_isOk hmade ⟨_, rfl⟩

/-! ## Runs -/

structure SigningRun where
  crypto : Crypto
  zone : Zone
  keys : List SigningKey
  policy : SigningPolicy
  previous : Option Zone

def SigningRun.served (run : SigningRun) : Except DnssecError Zone :=
  match run.previous with
  | none => signZone run.crypto run.zone run.keys run.policy
  | some previous => do
    let (zone, _) ← signZoneIncrementally run.crypto previous run.zone run.keys run.policy
    return zone

variable {run : SigningRun}

theorem of_served (h : run.served = .ok zone) :
    ∃ out fresh, signRecords run.crypto run.zone run.keys run.policy (run.previous.map Zone.records)
      = .ok (out, fresh) ∧ zone = zoneOf run.zone.origin out := by
  rw [SigningRun.served] at h
  cases hprevious : run.previous with
  | none =>
    rw [hprevious] at h
    obtain ⟨⟨out, fresh⟩, hout, h⟩ := except_bind_eq_ok.mp h
    cases h
    exact ⟨out, fresh, hout, rfl⟩
  | some previous =>
    rw [hprevious] at h
    obtain ⟨⟨signed, fresh⟩, hsigned, h⟩ := except_bind_eq_ok.mp h
    obtain ⟨⟨out, names⟩, hout, hzone⟩ := except_bind_eq_ok.mp hsigned
    cases hzone
    cases h
    exact ⟨out, fresh, hout, rfl⟩

/-! ## The zone of some records -/

def storedRecord (record : ZoneRecord) : ZoneRecord := { record with rdata := stored record.rdata }

section

variable (origin : Name) (records : List ZoneRecord)
include origin records

theorem zoneOf_eq :
    zoneOf origin records = (records.map storedRecord).foldl Zone.takeIn (Zone.new origin.toFolded) := by
  rw [zoneOf, List.foldl_map]
  rfl

theorem zoneOf_records : (zoneOf origin records).records = records.map storedRecord := by
  rw [zoneOf_eq, (Zone.foldl_takeIn _ _).1]
  rfl

theorem zoneOf_origin : (zoneOf origin records).origin = origin.toFolded := by
  rw [zoneOf_eq, (Zone.foldl_takeIn _ _).2]
  rfl

theorem zoneOk_zoneOf : Zone.ZoneOk (zoneOf origin records) := by
  rw [zoneOf_eq]
  exact (Zone.zoneOk_new _).foldl_takeIn _

theorem inOrder_zoneOf : (zoneOf origin records).InOrder := by
  rw [zoneOf_eq]
  exact (Zone.inOrder_new _).foldl_takeIn (Zone.zoneOk_new _) _

end

/-! ## Carrying a record over -/

def isSoaAt (origin : Name) (record : ZoneRecord) : Bool :=
  record.rtype == SOA && record.name.same origin

theorem of_carryOne {origin : Name} {carried : ZoneRecord} {soa : Option (Ttl × UInt32)}
    (h : carryOne origin policy record = .ok (some (carried, soa))) :
    carried.name = record.name ∧ carried.rtype = record.rtype ∧ carried.ttl = record.ttl ∧
      (isSoaAt origin record = false → carried = record ∧ soa = none) ∧
      (isSoaAt origin record = true → ∃ mname rname serial refresh retry expire minimum,
        record.rdata.parse = .ok (.soa mname rname serial refresh retry expire minimum) ∧
        RecordData.fromParsed (.soa mname rname (policy.serialFor serial) refresh retry expire minimum)
          = .ok carried.rdata ∧ soa = some (record.ttl, minimum)) := by
  rw [carryOne] at h
  split at h
  · cases h
  · split at h
    · cases h
    · split at h
      · cases h
      · split at h
        · rename_i hsoa
          have hat : isSoaAt origin record = true := by
            rw [isSoaAt, hsoa.1, hsoa.2]
            rfl
          split at h
          · rename_i mname rname serial refresh retry expire minimum hparse
            split at h
            · rename_i rdata hrdata
              cases h
              refine ⟨rfl, ?_, rfl, fun hnot => absurd (hat.symm.trans hnot) (by decide), fun _ =>
                ⟨mname, rname, serial, refresh, retry, expire, minimum, hparse, hrdata, rfl⟩⟩
              exact (RecordData.fromParsed_eq_ok hrdata).1.trans hsoa.1.symm
            · cases h
          · cases h
          · cases h
        · rename_i hnot
          cases h
          refine ⟨rfl, rfl, rfl, fun _ => ⟨rfl, rfl⟩, fun hat => absurd ?_ hnot⟩
          rw [isSoaAt, Bool.and_eq_true, beq_iff_eq] at hat
          exact hat

theorem carryOne_soa_ne_none {origin : Name} (h : isSoaAt origin record = true) :
    carryOne origin policy record ≠ .ok none := by
  intro hnone
  rw [isSoaAt, Bool.and_eq_true, beq_iff_eq] at h
  have hours : isSignerOutput SOA = false := by decide
  rw [carryOne, h.1, hours] at hnone
  simp only [Bool.false_and, Bool.false_eq_true, ↓reduceIte, true_and] at hnone
  split at hnone
  · cases hnone
  · grind

/-! ## What is served -/

theorem storedRecord_rtype (record : ZoneRecord) : (storedRecord record).rtype = record.rtype := rfl

theorem mem_served_iff (h : run.served = .ok zone) (hr : r.rtype ≠ RRSIG) :
    ∃ layout signed, unsigned run.crypto run.zone run.keys run.policy = .ok (layout, signed) ∧
      (r ∈ zone.records ↔ r ∈ signed.map storedRecord) := by
  obtain ⟨out, fresh, hout, rfl⟩ := of_served h
  obtain ⟨layout, signed, hunsigned, hsigned⟩ := of_signRecords hout
  refine ⟨layout, signed, hunsigned, ?_⟩
  rw [zoneOf_records, List.mem_map, List.mem_map]
  constructor
  · rintro ⟨r', hr', rfl⟩
    have hkept : r' ∈ out.filter fun r => r.rtype ≠ RRSIG :=
      List.mem_filter.mpr ⟨hr', decide_eq_true hr⟩
    rw [filter_notRrsig hsigned] at hkept
    exact ⟨r', (List.mem_filter.mp hkept).1, rfl⟩
  · rintro ⟨r', hr', rfl⟩
    exact ⟨r', (mem_signEverything hsigned).mpr (.inl hr'), rfl⟩

def SigningRun.encodes (run : SigningRun) : Bool :=
  match unsigned run.crypto run.zone run.keys run.policy with
  | .ok (_, signed) =>
    !(dataSigners run.keys run.policy.signedAt).isEmpty && (rrsetsOf signed).all fun entry => entry.2.encodes
  | .error _ => false

theorem served_isOk (hsign : ∀ key ∈ run.keys, Signs run.crypto.sign key) (h : run.encodes = true) :
    ∃ zone, run.served = .ok zone := by
  rw [SigningRun.encodes] at h
  split at h
  · rename_i layout signed hunsigned
    rw [Bool.and_eq_true, List.all_eq_true] at h
    obtain ⟨hactive, hencodes⟩ := h
    obtain ⟨⟨out, fresh⟩, hout⟩ := signRecords_isOk hsign hunsigned (by simpa using hactive) hencodes
      (run.previous.map Zone.records)
    refine ⟨zoneOf run.zone.origin out, ?_⟩
    rw [SigningRun.served]
    cases hprevious : run.previous with
    | none =>
      rw [hprevious] at hout
      exact except_bind_eq_ok.mpr ⟨_, hout, rfl⟩
    | some previous =>
      rw [hprevious] at hout
      exact except_bind_eq_ok.mpr ⟨_, except_bind_eq_ok.mpr ⟨_, hout, rfl⟩, rfl⟩
  · cases h

/-! ## Keys to sign with -/

/-- Two Ed25519 key pairs (RFC 8032 §7.1), public half first. -/
def ed25519Pairs : List (Octets × Octets) :=
  [(bigEndianOctets 32 0x3d4017c3e843895a92b70aa74d1b7ebc9c982ccf2ec4968cc0cd55f12af4660c,
    bigEndianOctets 32 0x4ccd089b28ff96da9db6c346ec114e0f5b8a319f35aba624da8cf6ed4fb8a6fb),
   (bigEndianOctets 32 0xd75a980182b10ab7d54bfed3c964073a0ee172f3daa62325af021a68f707511a,
    bigEndianOctets 32 0x9d61b19deffd5a60ba844af492ec2cc44449c5697b326919703bac031cae7f60)]

def ed25519Sign : Sign := fun _ publicKey data =>
  match ed25519Pairs.lookup publicKey with
  | some secret => .ok (Ed25519.sign secret data)
  | none => .error (.key "no private half for this key")

/-- A zone without NSEC3 and without keys to sync hashes nothing. -/
def ed25519Crypto : Crypto := ⟨unusedSha1, fun _ => [], ed25519Sign⟩

def firstKey (flags : UInt16) (timing : KeyTiming) : SigningKey :=
  ⟨ex, flags, .ed25519, bigEndianOctets 32 0x3d4017c3e843895a92b70aa74d1b7ebc9c982ccf2ec4968cc0cd55f12af4660c,
    timing, false⟩

def secondKey (flags : UInt16) (timing : KeyTiming) : SigningKey :=
  ⟨ex, flags, .ed25519, bigEndianOctets 32 0xd75a980182b10ab7d54bfed3c964073a0ee172f3daa62325af021a68f707511a,
    timing, false⟩

theorem signs_firstKey (flags : UInt16) (timing : KeyTiming) : Signs ed25519Sign (firstKey flags timing) :=
  fun _ => ⟨_, rfl⟩

theorem signs_secondKey (flags : UInt16) (timing : KeyTiming) : Signs ed25519Sign (secondKey flags timing) :=
  fun _ => ⟨_, rfl⟩

end Rdns.Dnssec
