import Rdns.Dnssec.SignerLaws

/-!
# Rdns — Incremental signing

`sign_zone_incrementally` keeps the RRSIGs of an RRset that has not moved. A carried RRSIG
names its key by a 16-bit tag, so what makes the carrying sound is an invariant of the
whole run: every RRSIG of a served zone was made by a key whose DNSKEY the zone publishes
(`SignedNow`). A tag that names one published key then names the maker.
-/

namespace Rdns.Dnssec

open Rdns.Lib Rdns.Core Rdns.Present Rdns.Zones RecordTypes

/-! ## A signature is over a set -/

theorem toAsciiLowercase_star (x : UInt8) : toAsciiLowercase x = 42 ↔ x = 42 := by
  rw [toAsciiLowercase]
  split
  · rename_i hletter
    constructor
    · intro h
      have hnat := congrArg UInt8.toNat h
      rw [UInt8.toNat_ofNat'] at hnat
      have : (42 : UInt8).toNat = 42 := rfl
      omega
    · rintro rfl
      exact absurd hletter.1 (by decide)
  · exact Iff.rfl

theorem foldCase_eq_star {label : Octets} : foldCase label = STAR ↔ label = STAR := by
  constructor
  · intro h
    obtain ⟨x, rfl⟩ : ∃ x, label = [x] := by
      rw [← List.length_eq_one_iff]
      have hlength := congrArg List.length h
      rwa [foldCase, List.length_map] at hlength
    rw [(toAsciiLowercase_star x).mp (List.cons.inj h).1]
    rfl
  · rintro rfl
    decide

variable {a b : Name} {α : Type} {key : SigningKey} {validity : Nat}

theorem head?_star_congr (h : a.same b = true) :
    a.labels.head? = some STAR ↔ b.labels.head? = some STAR := by
  have hstar : ∀ name : Name, name.labels.head? = some STAR ↔
      name.labels.head?.map foldCase = some STAR := by
    intro name
    rw [Option.map_eq_some_iff]
    constructor
    · intro hname
      exact ⟨STAR, hname, foldCase_eq_star.mpr rfl⟩
    · rintro ⟨label, hlabel, hfold⟩
      rw [hlabel, foldCase_eq_star.mp hfold]
  have hfold : a.labels.head?.map foldCase = b.labels.head?.map foldCase := by
    rw [← List.head?_map, ← List.head?_map]
    exact congrArg List.head? (Name.same_iff_foldLabels.mp h)
  rw [hstar, hstar, hfold]

theorem rrsigLabelsOf_congr (h : a.same b = true) : rrsigLabelsOf a = rrsigLabelsOf b := by
  have hlength : a.labels.length = b.labels.length := by
    have hlabels := congrArg List.length (Name.same_iff_foldLabels.mp h)
    rwa [foldLabels, foldLabels, List.length_map, List.length_map] at hlabels
  rw [rrsigLabelsOf, rrsigLabelsOf]
  simp only [head?_star_congr h, Name.labelCount, hlength]

theorem mapM_ok_of_subset {β ε : Type} {f : α → Except ε β} {xs ys : List α} {out : List β}
    (h : xs.mapM f = .ok out) (hsub : ∀ y ∈ ys, y ∈ xs) : ∃ out', ys.mapM f = .ok out' := by
  refine mapM_isOk fun y hy => ?_
  obtain ⟨z, -, hz⟩ := exists_of_mapM_ok h (hsub y hy)
  exact ⟨z, hz⟩

theorem canonicalRdatas_congr {xs ys : List RecordData} (h : ∀ x, x ∈ xs ↔ x ∈ ys) {out : List Octets}
    (hout : canonicalRdatas xs = .ok out) : canonicalRdatas ys = .ok out := by
  obtain ⟨canonical, hcanonical, -⟩ := except_bind_eq_ok.mp hout
  obtain ⟨canonical', hcanonical'⟩ := mapM_ok_of_subset hcanonical fun y hy => (h y).mpr hy
  rw [canonicalRdatas_eq hcanonical] at hout
  rw [canonicalRdatas_eq hcanonical', ← Except.ok.inj hout]
  congr 1
  refine sortedSet_eq_of_mem_iff (fun a b => decide_eq_true_iff) fun x => ?_
  constructor
  · intro hx
    obtain ⟨y, hy, hyx⟩ := mem_of_mapM_ok hcanonical' hx
    obtain ⟨z, hz, hyz⟩ := exists_of_mapM_ok hcanonical ((h y).mpr hy)
    rw [hyx] at hyz
    exact Except.ok.inj hyz ▸ hz
  · intro hx
    obtain ⟨y, hy, hyx⟩ := mem_of_mapM_ok hcanonical hx
    obtain ⟨z, hz, hyz⟩ := exists_of_mapM_ok hcanonical' ((h y).mp hy)
    rw [hyx] at hyz
    exact Except.ok.inj hyz ▸ hz

theorem signedData_congr {sig : Rrsig} {a b : Rrset} (howner : a.owner.same b.owner = true)
    (hcls : a.cls = b.cls) (hset : ∀ x, x ∈ a.rdatas ↔ x ∈ b.rdatas) {data : Octets}
    (h : signedData sig a = .ok data) : signedData sig b = .ok data := by
  rw [signedData] at h
  split at h
  · cases h
  · rename_i hnonempty
    obtain ⟨name, hname, h⟩ := except_bind_eq_ok.mp h
    obtain ⟨canonical, hcanonical, h⟩ := except_bind_eq_ok.mp h
    obtain ⟨records, hrecords, h⟩ := except_bind_eq_ok.mp h
    have hempty : ¬ b.rdatas.isEmpty = true := by
      rw [List.isEmpty_iff] at hnonempty ⊢
      obtain ⟨x, hx⟩ := List.exists_mem_of_ne_nil _ hnonempty
      exact List.ne_nil_of_mem ((hset x).mp hx)
    have hsame : signedOwnerName b.owner sig.labels = signedOwnerName a.owner sig.labels := by
      rw [signedOwnerName, signedOwnerName, Name.same_iff.mp howner]
    rw [signedData, if_neg hempty]
    refine except_bind_eq_ok.mpr ⟨name, by rw [hsame]; exact hname, ?_⟩
    refine except_bind_eq_ok.mpr ⟨canonical, ?_, ?_⟩
    · exact mapError_eq_ok.mpr (canonicalRdatas_congr hset (mapError_eq_ok.mp hcanonical))
    · exact except_bind_eq_ok.mpr ⟨records, by rw [← hcls]; exact hrecords, h⟩

/-- **A signature is over the RRset as a set**, under its name in any case. -/
theorem signRrset_congr {sign : Sign} {a b : Rrset} {ttl inception expiration : UInt32}
    {sig : Rrsig} (howner : a.owner.same b.owner = true) (hrtype : a.rtype = b.rtype)
    (hcls : a.cls = b.cls) (hset : ∀ x, x ∈ a.rdatas ↔ x ∈ b.rdatas)
    (h : key.signRrset sign a ttl inception expiration = .ok sig) :
    key.signRrset sign b ttl inception expiration = .ok sig := by
  obtain ⟨data, signature, hdata, hsignature, rfl⟩ := of_signRrset h
  have hunsigned : key.unsignedRrsig b ttl inception expiration = key.unsignedRrsig a ttl inception expiration := by
    rw [SigningKey.unsignedRrsig, SigningKey.unsignedRrsig, Name.same_iff.mp howner, hrtype,
      rrsigLabelsOf_congr howner]
  rw [SigningKey.signRrset, hunsigned]
  refine except_bind_eq_ok.mpr ⟨data, ?_, except_bind_eq_ok.mpr ⟨signature, hsignature, rfl⟩⟩
  exact mapError_eq_ok.mpr (signedData_congr howner hcls hset hdata)

/-! ## The RRset of a name and a type -/

def rrsetAt (records : List ZoneRecord) (name : Name) (rtype : Rtype) : List ZoneRecord :=
  records.filter fun r => r.name.same name && r.rtype == rtype

def OwnersApart (records : List ZoneRecord) : Prop :=
  ∀ a ∈ records, ∀ b ∈ records, canonicalSortKey a.name = canonicalSortKey b.name → a.name.same b.name = true

/-- The records of an RRset have one TTL (RFC 2181 §5.2). -/
def UniformTtls (records : List ZoneRecord) : Prop :=
  ∀ a ∈ records, ∀ b ∈ records, a.name.same b.name = true → a.rtype = b.rtype → a.ttl = b.ttl

theorem mem_rrsetAt {records : List ZoneRecord} {name : Name} {rtype : Rtype} {r : ZoneRecord} :
    r ∈ rrsetAt records name rtype ↔ r ∈ records ∧ r.name.same name = true ∧ r.rtype = rtype := by
  rw [rrsetAt, List.mem_filter, Bool.and_eq_true, beq_iff_eq]

theorem rrsetAt_congr (h : a.same b = true) (records : List ZoneRecord) (rtype : Rtype) :
    rrsetAt records a rtype = rrsetAt records b rtype := by
  refine List.filter_congr fun r _ => ?_
  rw [same_congr h]

variable {zone : Zone} {signed : List ZoneRecord}

/-- **What is in an RRset of the signer**: the records of its name and type, all of them. -/
theorem rrset_of_mem (hapart : OwnersApart signed) {key : Octets ×ₗ Nat} {rrset : ZoneRrset}
    (h : (key, rrset) ∈ rrsetsOf signed) :
    (ofLex key).1 = canonicalSortKey rrset.name ∧
      rrset.rdatas = (rrsetAt signed rrset.name rrset.rtype).map ZoneRecord.rdata ∧
      ∃ first ∈ signed, first.name = rrset.name ∧ first.rtype = rrset.rtype ∧ first.ttl = rrset.ttl := by
  obtain ⟨first, rest, hrecords, hname, hrtype, httl, hrdatas⟩ := asRrset_eq_some (mem_rrsetsOf.mp h)
  have hfirst : first ∈ rrsetRecords signed key := by
    rw [hrecords]
    exact List.mem_cons_self
  obtain ⟨hmem, hkey⟩ := List.mem_filter.mp hfirst
  have hkey : rrsetKey first = key := of_decide_eq_true hkey
  refine ⟨?_, ?_, first, hmem, hname.symm, hrtype.symm, httl.symm⟩
  · rw [← hkey, hname]
    rfl
  · rw [hrdatas, rrsetRecords, rrsetAt]
    congr 1
    refine List.filter_congr fun r hr => ?_
    rw [← hkey, hname, hrtype, Bool.eq_iff_iff, decide_eq_true_eq, Bool.and_eq_true, beq_iff_eq]
    constructor
    · intro heq
      have heq := congrArg ofLex heq
      refine ⟨hapart r hr first hmem (congrArg Prod.fst heq), ?_⟩
      have hcode : r.rtype.code.toNat = first.rtype.code.toNat := congrArg Prod.snd heq
      exact congrArg Rtype.mk (UInt16.toNat_inj.mp hcode)
    · rintro ⟨hsame, htype⟩
      rw [rrsetKey, rrsetKey, canonicalSortKey_congr hsame, htype]

/-! ## Runs -/

/-- The runs over one zone, the last one first, and what the last one serves: a full signing
and then any number of incremental ones, at times that do not go back. -/
inductive Reached : List SigningRun → Zone → Prop where
  | first {run : SigningRun} {zone : Zone} (hprevious : run.previous = none)
      (hserved : run.served = .ok zone) : Reached [run] zone
  | next {run last : SigningRun} {earlier : List SigningRun} {previous zone : Zone}
      (h : Reached (last :: earlier) previous) (hprevious : run.previous = some previous)
      (horigin : run.zone.origin.same last.zone.origin = true)
      (htime : last.policy.signedAt ≤ run.policy.signedAt)
      (hserved : run.served = .ok zone) : Reached (run :: last :: earlier) zone

def SigningRun.now (run : SigningRun) : Nat := run.policy.signedAt

def SigningRun.signers (run : SigningRun) (rtype : Rtype) : List SigningKey :=
  signersFor run.keys run.now rtype

def IsSigned (zone : Zone) (name : Name) (rtype : Rtype) : Prop :=
  ∃ r ∈ zone.records, r.rtype = RRSIG ∧ r.name.same name = true ∧
    coveredType r.rdata = some rtype

/-- An RRSIG record that `sign_rrset` of a key made in one of the runs, over the RRset that is
in the zone now and under its TTL, and that has not expired. -/
def MadeBy (runs : List SigningRun) (zone : Zone) (now : Nat) (key : SigningKey) (rtype : Rtype)
    (r : ZoneRecord) : Prop :=
  (∀ x ∈ rrsetAt zone.records r.name rtype, x.ttl = r.ttl) ∧
  ∃ run ∈ runs, ∃ maker ∈ run.keys, maker.dnskeyRdata = key.dnskeyRdata ∧
    ∃ inception expiration sig,
      maker.signRrset run.crypto.sign
        ⟨r.name, rtype, .IN, (rrsetAt zone.records r.name rtype).map ZoneRecord.rdata⟩
        r.ttl.secs inception expiration = .ok sig ∧
      r.rdata.parse = .ok sig.parsed ∧ now < expiration.toNat

structure SignedNow (runs : List SigningRun) (run : SigningRun) (zone : Zone) : Prop where
  only : ∀ r ∈ zone.records, r.rtype = RRSIG → ∃ rtype,
    ∃ key ∈ run.signers rtype, MadeBy runs zone run.now key rtype r
  each : ∀ name rtype, IsSigned zone name rtype → ∀ key ∈ run.signers rtype,
    ∃ r ∈ zone.records, r.rtype = RRSIG ∧ r.name.same name = true ∧
      MadeBy runs zone run.now key rtype r

/-- What a run serves is what signing the zone in full serves: the same records but for the
RRSIGs, and the same RRsets signed, in both by exactly the keys of their role. -/
structure Refines (runs : List SigningRun) (run : SigningRun) (zone : Zone) : Prop where
  signed : SignedNow runs run zone
  full : ∀ full, { run with previous := none }.served = .ok full →
    SignedNow [{ run with previous := none }] run full ∧
    (zone.records.filter fun r => r.rtype ≠ RRSIG)
      = (full.records.filter fun r => r.rtype ≠ RRSIG) ∧
    ∀ name rtype, IsSigned zone name rtype ↔ IsSigned full name rtype

/-- A run as the server makes them with signatures of its own: the policy of some moment and
some validity inside the 32 bits an RRSIG has for times, RRsets with one TTL, owner names
that sort apart, and RDATA that fits in 16 bits. -/
structure Ordinary (run : SigningRun) : Prop where
  policy : ∃ now validity chain, run.policy = .validFor now validity chain .local ∧
    0 < validity ∧ now + validity < 2 ^ 32
  apart : ∀ layout signed, unsigned run.crypto run.zone run.keys run.policy = .ok (layout, signed) →
    OwnersApart signed
  uniform : ∀ layout signed, unsigned run.crypto run.zone run.keys run.policy = .ok (layout, signed) →
    UniformTtls signed
  sized : ∀ layout signed, unsigned run.crypto run.zone run.keys run.policy = .ok (layout, signed) →
    ∀ r ∈ signed, r.rdata.rdata.length ≤ 65535
  short : ∀ algorithm key data signature, run.crypto.sign algorithm key data = .ok signature →
    signature.length ≤ 65000

/-! ## Facts about one run -/

theorem toNat_expiration {now : Nat} (hfits : now + validity < 2 ^ 32) (chain : DenialChain)
    (source : DnskeySignature) :
    (SigningPolicy.validFor now validity chain source).expiration.toNat = now + validity := by
  show (UInt32.ofNat (saturatingAdd64 now validity)).toNat = _
  rw [UInt32.toNat_ofNat', saturatingAdd64]
  omega

/-- **A signature lives for four fifths of the validity** at least: expiry is spread over the
last fifth. -/
theorem le_expiryFor {now : Nat} (hfits : now + validity < 2 ^ 32) (chain : DenialChain)
    (source : DnskeySignature) (name : Name) (rtype : Rtype) :
    now + validity - validity / EXPIRY_JITTER_FRACTION
      ≤ ((SigningPolicy.validFor now validity chain source).expiryFor name rtype).toNat := by
  have hexpiration := toNat_expiration hfits chain source
  rw [SigningPolicy.expiryFor]
  split
  · rw [hexpiration]
    exact Nat.sub_le _ _
  · rename_i hspread
    dsimp only
    generalize (foldedHash (name.wire ++ be16 rtype.code)).toNat = hash
    have hspread' : 0 < validity / EXPIRY_JITTER_FRACTION := Nat.pos_of_ne_zero hspread
    have hback : hash % (validity / EXPIRY_JITTER_FRACTION) < validity / EXPIRY_JITTER_FRACTION :=
      Nat.mod_lt _ hspread'
    have hle : validity / EXPIRY_JITTER_FRACTION ≤ validity := Nat.div_le_self _ _
    have hnat : (UInt32.ofNat (hash % (validity / EXPIRY_JITTER_FRACTION))).toNat
        = hash % (validity / EXPIRY_JITTER_FRACTION) := by
      rw [UInt32.toNat_ofNat']
      omega
    generalize hpolicy : SigningPolicy.validFor now validity chain source = policy at hexpiration
    have hvalidity : policy.validity = validity := by
      rw [← hpolicy]
      rfl
    rw [hvalidity]
    generalize UInt32.ofNat (hash % (validity / EXPIRY_JITTER_FRACTION)) = back at hnat
    have hnot : ¬ policy.expiration < back := by
      rw [UInt32.lt_iff_toNat_lt]
      omega
    have hspreadBack : (policy.expiration - back).toNat = now + validity - back.toNat := by
      rw [UInt32.toNat_sub_of_le _ _ (UInt32.not_lt.mp hnot), hexpiration]
    rw [if_neg hnot]
    generalize (if policy.inception = 0xffffffff then policy.inception else policy.inception + 1) = first
    split
    · grind [UInt32.lt_iff_toNat_lt]
    · omega

theorem lt_expiryFor {now : Nat} (hvalid : 0 < validity) (hfits : now + validity < 2 ^ 32)
    (chain : DenialChain) (source : DnskeySignature) (name : Name) (rtype : Rtype) :
    now < ((SigningPolicy.validFor now validity chain source).expiryFor name rtype).toNat := by
  have hle := le_expiryFor hfits chain source name rtype
  rw [EXPIRY_JITTER_FRACTION] at hle
  omega

theorem unsigned_noRrsig {crypto : Crypto} {keys : List SigningKey} {policy : SigningPolicy}
    {layout : Layout} (hlocal : policy.dnskeySignature = .local)
    (h : unsigned crypto zone keys policy = .ok (layout, signed)) :
    ∀ r ∈ signed, r.rtype ≠ RRSIG := by
  obtain ⟨-, -, -, base, ttl, chain, hpublished, -, hchain, rfl⟩ := of_unsigned h
  intro r hr hrrsig
  rcases List.mem_append.mp hr with hr | hr
  · rcases mem_published hpublished hr with ⟨record, -, kept, info, ttl, hcarry, rfl⟩ | ⟨-, -, hkind⟩
    · have hrtype : record.rtype = RRSIG := (of_carryOne hcarry).2.1 ▸ hrrsig
      have hown : isSignerOutput record.rtype && !isImportedDnskeyRrsig record zone.origin.toFolded policy := by
        rw [hrtype, isImportedDnskeyRrsig, hlocal]
        rfl
      rw [carryOne, if_pos hown] at hcarry
      cases hcarry
    · rw [hrrsig] at hkind
      revert hkind
      unfold isKeyRecord
      decide
  · have hrtype := (of_mem_denialChain hchain hr).2
    rw [hrrsig] at hrtype
    split at hrtype
    · exact absurd hrtype (by decide)
    · exact absurd hrtype (by decide)

theorem unsigned_dnskey {crypto : Crypto} {keys : List SigningKey} {policy : SigningPolicy}
    {layout : Layout} (h : unsigned crypto zone keys policy = .ok (layout, signed))
    (hkey : key ∈ keys) (hactive : key.isActive policy.signedAt = true) :
    ∃ r ∈ signed, r.name.same zone.origin = true ∧ r.rdata = ⟨DNSKEY, key.dnskeyRdata⟩ := by
  obtain ⟨-, -, -, base, ttl, chain, hpublished, -, -, rfl⟩ := of_unsigned h
  obtain ⟨carried, soaTtl, minimum, synced, -, hsynced, rfl, -⟩ := of_published hpublished
  have hpublish : key.isPublished policy.signedAt = true := by
    rw [SigningKey.isActive, KeyTiming.isActive, Bool.and_eq_true, Bool.and_eq_true] at hactive
    exact hactive.1.1
  have hlater : ∀ r, r ∈ publishDnskeys keys zone.origin.toFolded soaTtl policy.signedAt carried →
      r ∈ publishNsec3param policy.chain zone.origin.toFolded (dnskeyTtl carried zone.origin.toFolded soaTtl)
        synced ++ chain := fun r hr =>
    List.mem_append_left _ ((publishNsec3param_leads ..).subset ((publishSyncRecords_leads hsynced).subset hr))
  by_cases hold : ∃ old ∈ atApex carried zone.origin.toFolded DNSKEY,
      old.rdata = ⟨DNSKEY, key.dnskeyRdata⟩
  · obtain ⟨old, hmem, hrdata⟩ := hold
    obtain ⟨hcarried, hat⟩ := List.mem_filter.mp hmem
    rw [Bool.and_eq_true, same_toFolded_right] at hat
    exact ⟨old, hlater old (mem_publishDnskeys.mpr (.inl hcarried)), hat.1, hrdata⟩
  · refine ⟨_, hlater _ (mem_publishDnskeys.mpr (.inr ⟨key, hkey, hpublish, ?_, rfl⟩)), ?_, rfl⟩
    · intro old hmem heq
      exact hold ⟨old, hmem, heq⟩
    · simp

section Run

variable {run : SigningRun} {zone : Zone}

theorem length_signatureBy {sign : Sign} {policy : SigningPolicy} {rrset : ZoneRrset}
    (hshort : ∀ algorithm key data signature, sign algorithm key data = .ok signature →
      signature.length ≤ 65000) {r : ZoneRecord} (h : signatureBy sign policy rrset key = .ok r) :
    r.rdata.rdata.length ≤ 65535 := by
  rw [signatureBy] at h
  split at h
  · cases h
  · rename_i sig hsig
    obtain ⟨data, signature, -, hsignature, rfl⟩ := of_signRrset hsig
    split at h
    · cases h
    · rename_i rdata hrdata
      cases h
      have hencoded := Except.ok.inj (RecordData.fromParsed_eq_ok hrdata).2
      have hsigner := Name.length_wire_le key.owner
      have hlength := hshort _ _ _ _ hsignature
      rw [← hencoded]
      simp only [List.length_append, length_be16, length_be32, List.length_cons, List.length_nil]
      show 2 + (0 + 1 + 1) + 4 + 4 + 4 + 2 + key.owner.wire.length + signature.length ≤ 65535
      omega

theorem Ordinary.records (hrun : Ordinary run) (hprevious : ∀ p, run.previous = some p → p.Fits)
    (hserved : run.served = .ok zone) :
    ∃ layout signed fresh, unsigned run.crypto run.zone run.keys run.policy = .ok (layout, signed) ∧
      signEverything run.crypto.sign layout run.keys run.policy (run.previous.map Zone.records) signed
        = .ok (zone.records, fresh) := by
  obtain ⟨out, fresh, hout, rfl⟩ := of_served hserved
  obtain ⟨layout, signed, hunsigned, hsigned⟩ := of_signRecords hout
  have hsized : ∀ r ∈ out, r.rdata.rdata.length ≤ 65535 := by
    intro r hr
    rcases (mem_signEverything hsigned).mp hr with hr | ⟨key, rrset, made, names, -, hover, hr⟩
    · exact hrun.sized layout signed hunsigned r hr
    · rcases of_signaturesOver hover with ⟨-, rfl⟩ | ⟨-, ⟨carried, hcarried, rfl⟩ | ⟨-, hmade⟩⟩
      · cases hr
      · obtain ⟨s, hs, rfl⟩ := List.mem_map.mp hr
        obtain ⟨was, tags, hwas, -, hreuse⟩ := of_carriedFor hcarried
        rw [(of_reuse hreuse).1] at hs
        obtain ⟨old, hold, -, -, hrdata, -⟩ := mem_previousSignatures hs
        obtain ⟨p, hp, rfl⟩ := Option.map_eq_some_iff.mp hwas
        show s.rdata.rdata.length ≤ 65535
        rw [hrdata]
        exact hprevious p hp old hold
      · obtain ⟨signer, -, hsignature⟩ := mem_of_mapM_ok hmade hr
        exact length_signatureBy hrun.short hsignature
  have hstored : out.map storedRecord = out := by
    refine (List.map_congr_left fun r hr => ?_).trans (List.map_id out)
    show ({ r with rdata := stored r.rdata } : ZoneRecord) = r
    rw [stored_eq_self (hsized r hr)]
  refine ⟨layout, signed, fresh, hunsigned, ?_⟩
  rw [zoneOf_records, hstored]
  exact hsigned

theorem fits_of_served (hserved : run.served = .ok zone) : zone.Fits := by
  obtain ⟨out, fresh, -, rfl⟩ := of_served hserved
  intro r hr
  rw [zoneOf_records] at hr
  obtain ⟨r', -, rfl⟩ := List.mem_map.mp hr
  exact Zone.length_stored_le _

theorem rrsetAt_signEverything {sign : Sign} {layout : Layout} {keys : List SigningKey} {policy : SigningPolicy}
    {previous : Option (List ZoneRecord)} {signed out : List ZoneRecord} {fresh : List (Name × Rtype)}
    (h : signEverything sign layout keys policy previous signed = .ok (out, fresh)) {rtype : Rtype}
    (hrtype : rtype ≠ RRSIG) (name : Name) : rrsetAt out name rtype = rrsetAt signed name rtype := by
  have hplain : ∀ records : List ZoneRecord, rrsetAt records name rtype
      = rrsetAt (records.filter fun r => r.rtype ≠ RRSIG) name rtype := by
    intro records
    rw [rrsetAt, rrsetAt, List.filter_filter]
    refine List.filter_congr fun r _ => ?_
    by_cases hr : r.rtype = rtype
    · simp [hr, hrtype]
    · simp [hr]
  rw [hplain out, hplain signed, filter_notRrsig h]

end Run

/-! ## What is carried -/

theorem sameSet_iff [BEq α] [LawfulBEq α] {a b : List α} :
    sameSet a b = true ↔ ∀ x, x ∈ a ↔ x ∈ b := by
  rw [sameSet, Bool.and_eq_true, List.all_eq_true, List.all_eq_true]
  simp only [List.contains_iff_mem]
  constructor
  · rintro ⟨hab, hba⟩ x
    exact ⟨hab x, hba x⟩
  · intro h
    exact ⟨fun x => (h x).mp, fun x => (h x).mpr⟩

theorem of_previousRrset {was : List ZoneRecord} {name : Name} {rtype : Rtype} {ttl : Ttl}
    {rdatas : List RecordData} (h : previousRrset was name rtype = some (ttl, rdatas)) :
    rdatas = (rrsetAt was name rtype).map ZoneRecord.rdata ∧ ∃ x ∈ rrsetAt was name rtype, x.ttl = ttl := by
  rw [previousRrset] at h
  obtain ⟨last, hlast, hpair⟩ := Option.map_eq_some_iff.mp h
  have hmem := List.mem_of_getLast? hlast
  have hkind : rtype ≠ RRSIG := by
    have hboth := (List.mem_filter.mp hmem).2
    simp only [Bool.and_eq_true, decide_eq_true_eq, beq_iff_eq] at hboth
    exact hboth.2 ▸ hboth.1.1
  have hfilter : (was.filter fun r => r.rtype ≠ RRSIG && r.name.same name && r.rtype == rtype)
      = rrsetAt was name rtype := by
    refine List.filter_congr fun r _ => ?_
    by_cases hr : r.rtype = rtype
    · simp [hr, hkind]
    · rw [beq_eq_false_iff_ne.mpr hr, Bool.and_false, Bool.and_false]
  rw [hfilter] at hpair hmem
  cases hpair
  exact ⟨rfl, last, hmem, rfl⟩

theorem mapM_option_mem {β : Type} {f : α → Option β} {xs : List α} {ys : List β}
    (h : xs.mapM f = some ys) :
    (∀ x ∈ xs, ∃ y ∈ ys, f x = some y) ∧ ∀ y ∈ ys, ∃ x ∈ xs, f x = some y := by
  induction xs generalizing ys with
  | nil => grind
  | cons first xs ih =>
    rw [List.mapM_cons] at h
    obtain ⟨y, hy, h⟩ := Option.bind_eq_some_iff.mp h
    obtain ⟨rest, hrest, h⟩ := Option.bind_eq_some_iff.mp h
    cases h
    obtain ⟨hthere, hback⟩ := ih hrest
    constructor
    · intro x hx
      rcases List.mem_cons.mp hx with rfl | hx
      · exact ⟨y, List.mem_cons_self, hy⟩
      · obtain ⟨z, hz, hxz⟩ := hthere x hx
        exact ⟨z, List.mem_cons_of_mem _ hz, hxz⟩
    · intro z hz
      rcases List.mem_cons.mp hz with rfl | hz
      · exact ⟨first, List.mem_cons_self, hy⟩
      · obtain ⟨x, hx, hxz⟩ := hback z hz
        exact ⟨x, List.mem_cons_of_mem _ hx, hxz⟩

theorem of_tagNaming {published : List RecordData} {tag : UInt16}
    (h : tagNaming published key = some tag) :
    tag = key.keyTag ∧ ∀ d ∈ published, keyTagOfRdata d.rdata = key.keyTag → d.rdata = key.dnskeyRdata := by
  rw [tagNaming] at h
  split at h
  · rename_i only honly
    split at h
    · rename_i hrdata
      cases h
      refine ⟨rfl, fun d hd htag => ?_⟩
      have hmem : d ∈ published.filter fun r => keyTagOfRdata r.rdata == key.keyTag :=
        List.mem_filter.mpr ⟨hd, by simpa using htag⟩
      rw [honly, List.mem_singleton] at hmem
      rw [hmem, hrdata]
    · cases h
  · cases h

/-- **Tags that name every signer** are those of the signers, and no other published key has
one of them. -/
theorem of_tagsNaming {was : List ZoneRecord} {origin : Name} {signers : List SigningKey} {tags : List UInt16}
    (h : tagsNaming was origin signers = some tags) :
    (∀ key ∈ signers, key.keyTag ∈ tags ∧ ∀ r ∈ rrsetAt was origin DNSKEY,
      keyTagOfRdata r.rdata.rdata = key.keyTag → r.rdata.rdata = key.dnskeyRdata) ∧
    ∀ tag ∈ tags, ∃ key ∈ signers, key.keyTag = tag := by
  rw [tagsNaming] at h
  split at h
  · cases h
  · rename_i ttl published hpublished
    obtain ⟨rfl, -⟩ := of_previousRrset hpublished
    obtain ⟨hthere, hback⟩ := mapM_option_mem h
    constructor
    · intro key hkey
      obtain ⟨tag, htag, hnaming⟩ := hthere key hkey
      obtain ⟨rfl, honly⟩ := of_tagNaming hnaming
      exact ⟨htag, fun r hr => honly r.rdata (List.mem_map_of_mem hr)⟩
    · intro tag htag
      obtain ⟨key, hkey, hnaming⟩ := hback tag htag
      exact ⟨key, hkey, (of_tagNaming hnaming).1.symm⟩

/-! ## One step -/

structure Taken (run : SigningRun) (zone : Zone) (layout : Layout) (signed : List ZoneRecord) : Prop where
  ordinary : Ordinary run
  unsigned : unsigned run.crypto run.zone run.keys run.policy = .ok (layout, signed)
  signed : ∃ fresh, signEverything run.crypto.sign layout run.keys run.policy
    (run.previous.map Zone.records) signed = .ok (zone.records, fresh)

section Step

variable {run : SigningRun} {zone : Zone} {layout : Layout} {signed : List ZoneRecord}

theorem Taken.local (h : Taken run zone layout signed) : run.policy.dnskeySignature = .local := by
  obtain ⟨now, validity, chain, hpolicy, -⟩ := h.ordinary.policy
  rw [hpolicy]
  rfl

theorem Taken.lt_expiry (h : Taken run zone layout signed) (name : Name) (rtype : Rtype) :
    run.now < (run.policy.expiryFor name rtype).toNat := by
  obtain ⟨now, validity, chain, hpolicy, hvalid, hfits⟩ := h.ordinary.policy
  rw [SigningRun.now, hpolicy]
  exact lt_expiryFor hvalid hfits _ _ _ _

theorem Taken.origin (h : Taken run zone layout signed) : layout.origin = run.zone.origin.toFolded := by
  obtain ⟨-, -, -, base, ttl, chain, -, rfl, -⟩ := of_unsigned h.unsigned
  exact Name.toFolded_toFolded _

variable {rtype : Rtype} {r : ZoneRecord} {key : Octets ×ₗ Nat}

theorem Taken.rrsetAt_eq (h : Taken run zone layout signed) (hrtype : rtype ≠ RRSIG)
    (name : Name) : rrsetAt zone.records name rtype = rrsetAt signed name rtype := by
  obtain ⟨fresh, hsigned⟩ := h.signed
  exact rrsetAt_signEverything hsigned hrtype name

theorem Taken.rrset (h : Taken run zone layout signed) {key : Octets ×ₗ Nat} {rrset : ZoneRrset}
    (hmem : (key, rrset) ∈ rrsetsOf signed) :
    rrset.rtype ≠ RRSIG ∧
      rrset.rdatas = (rrsetAt zone.records rrset.name rrset.rtype).map ZoneRecord.rdata ∧
      ∀ x ∈ rrsetAt zone.records rrset.name rrset.rtype, x.ttl = rrset.ttl := by
  obtain ⟨-, hrdatas, first, hfirst, hname, hrtype, httl⟩ :=
    rrset_of_mem (h.ordinary.apart _ _ h.unsigned) hmem
  have hkind : rrset.rtype ≠ RRSIG := hrtype ▸ unsigned_noRrsig h.local h.unsigned first hfirst
  rw [h.rrsetAt_eq hkind]
  refine ⟨hkind, hrdatas, fun x hx => ?_⟩
  obtain ⟨hx, hsame, htype⟩ := mem_rrsetAt.mp hx
  rw [← httl]
  exact h.ordinary.uniform _ _ h.unsigned x hx first hfirst (hname ▸ hsame) (htype.trans hrtype.symm)

theorem Taken.mem_rrsig (h : Taken run zone layout signed) (hr : r ∈ zone.records)
    (hrrsig : r.rtype = RRSIG) :
    ∃ key rrset made names, (key, rrset) ∈ rrsetsOf signed ∧
      signaturesOver run.crypto.sign layout run.keys run.policy (run.previous.map Zone.records)
        (ofLex key).1 rrset = .ok (made, names) ∧ r ∈ made := by
  obtain ⟨fresh, hsigned⟩ := h.signed
  rcases (mem_signEverything hsigned).mp hr with hr | hmade
  · exact absurd hrrsig (unsigned_noRrsig h.local h.unsigned r hr)
  · exact hmade

theorem Taken.madeBy_fresh (h : Taken run zone layout signed) {rrset : ZoneRrset}
    (hmem : (key, rrset) ∈ rrsetsOf signed) {signer : SigningKey}
    (hsigner : signer ∈ run.signers rrset.rtype)
    (hr : signatureBy run.crypto.sign run.policy rrset signer = .ok r) (earlier : List SigningRun) :
    MadeBy (run :: earlier) zone run.now signer rrset.rtype r := by
  obtain ⟨sig, hsig, hname, httl, -, -, hparse⟩ := of_signatureBy hr
  obtain ⟨hkind, hrdatas, huniform⟩ := h.rrset hmem
  refine ⟨fun x hx => ?_, run, List.mem_cons_self, signer, ?_, rfl, run.policy.inception, _, sig, ?_, hparse,
    h.lt_expiry rrset.name rrset.rtype⟩
  · rw [hname] at hx
    rw [httl]
    exact huniform x hx
  · exact (List.mem_filter.mp (mem_active_of_mem_signersFor hsigner)).1
  · rw [hname, httl, ← hrdatas]
    exact hsig

/-- **A signature that is carried** was made by the key its tag names now: the zone it comes
from publishes its maker's DNSKEY, and no other published key has the tag. -/
theorem Taken.madeBy_carried {last : SigningRun} {earlier : List SigningRun} {previous : Zone}
    {layout' : Layout} {signed' : List ZoneRecord} (h : Taken run zone layout signed)
    (hlast : Taken last previous layout' signed') (hnow : SignedNow (last :: earlier) last previous)
    (horigin : run.zone.origin.same last.zone.origin = true) {rrset : ZoneRrset}
    (hmem : (key, rrset) ∈ rrsetsOf signed) {carried : List CarriedSignature}
    (hcarried : carriedFor (some previous.records) layout run.keys run.policy rrset = some carried) :
    (∀ s ∈ carried, ∃ signer ∈ run.signers rrset.rtype,
      MadeBy (run :: last :: earlier) zone run.now signer rrset.rtype ⟨rrset.name, rrset.ttl, .IN, s.rdata⟩) ∧
    ∀ signer ∈ run.signers rrset.rtype, ∃ s ∈ carried,
      MadeBy (run :: last :: earlier) zone run.now signer rrset.rtype ⟨rrset.name, rrset.ttl, .IN, s.rdata⟩ := by
  obtain ⟨was, tags, hwas, htags, hreuse⟩ := of_carriedFor hcarried
  cases hwas
  obtain ⟨hsigners, hnames⟩ := of_tagsNaming htags
  obtain ⟨rfl, ⟨old, hold, -, hset⟩, -, hlive, hsame⟩ := of_reuse hreuse
  obtain ⟨rfl, x, hx, httl⟩ := of_previousRrset hold
  obtain ⟨hkind, hrdatas, huniform⟩ := h.rrset hmem
  have hset := sameSet_iff.mp hset
  have hsame := sameSet_iff.mp hsame
  have hmade : ∀ s ∈ previousSignatures previous.records rrset.name rrset.rtype,
      ∀ signer ∈ run.signers rrset.rtype, signer.keyTag = s.keyTag →
        MadeBy (run :: last :: earlier) zone run.now signer rrset.rtype
          ⟨rrset.name, rrset.ttl, .IN, s.rdata⟩ := by
    intro s hs signer hsigner htagSigner
    obtain ⟨r, hr, hname, hrrsig, hrdata, sig, hparse, hcovered, hexpires, hkeyTag⟩ := mem_previousSignatures hs
    obtain ⟨rtype, key', hkey', huniform', run', hrun', maker, hmaker, hdnskey, inception, expiration, sig',
      hsig', hparse', -⟩ := hnow.only r hr hrrsig
    -- the record is one signature, so its fields are those `sign_rrset` wrote
    have hparsed : sig'.parsed = sig.parsed := Except.ok.inj (hparse'.symm.trans hparse)
    obtain ⟨data, signature, -, -, hfields⟩ := of_signRrset hsig'
    rw [hfields] at hparsed
    simp only [Rrsig.parsed, SigningKey.unsignedRrsig, ParsedRecord.rrsig.injEq] at hparsed
    obtain ⟨hrtype, -, -, -, -, hexpiration, htag, -, -⟩ := hparsed
    obtain rfl : rtype = rrset.rtype := hrtype.trans hcovered
    have htag' : key'.keyTag = s.keyTag := by
      rw [← hkeyTag, ← htag, SigningKey.keyTag, SigningKey.keyTag, hdnskey]
    -- the maker's DNSKEY is published under a tag that names the signer
    have hactive := List.mem_filter.mp (mem_active_of_mem_signersFor hkey')
    obtain ⟨d, hd, hdname, hdrdata⟩ := unsigned_dnskey hlast.unsigned hactive.1 hactive.2
    have hpublished : d ∈ rrsetAt previous.records layout.origin DNSKEY := by
      rw [hlast.rrsetAt_eq (by decide), mem_rrsetAt]
      refine ⟨hd, ?_, by rw [ZoneRecord.rtype, hdrdata]⟩
      rw [h.origin, same_toFolded_right, same_congr horigin]
      exact hdname
    have hmaker' : maker.dnskeyRdata = signer.dnskeyRdata := by
      have hd' := (hsigners signer hsigner).2 d hpublished (by rw [hdrdata, htagSigner, ← htag']; rfl)
      rw [hdrdata] at hd'
      exact hdnskey.trans hd'
    -- the RRset has not moved since
    have hrrsetAt := rrsetAt_congr hname previous.records rrset.rtype
    have hold' : r.ttl = rrset.ttl := by grind
    refine ⟨fun y hy => huniform y hy, run', List.mem_cons_of_mem _ hrun', maker, hmaker, hmaker', inception,
      expiration, sig', ?_, ?_, ?_⟩
    · show maker.signRrset run'.crypto.sign
        ⟨rrset.name, rrset.rtype, .IN, (rrsetAt zone.records rrset.name rrset.rtype).map ZoneRecord.rdata⟩
        rrset.ttl.secs inception expiration = _
      rw [hold'] at hsig'
      refine signRrset_congr ?_ ?_ ?_ (fun y => ?_) hsig'
      · exact hname
      · rfl
      · rfl
      show y ∈ (rrsetAt previous.records r.name rrset.rtype).map ZoneRecord.rdata ↔ _
      rw [hrrsetAt, hset y, hrdatas]
    · show s.rdata.parse = _
      rw [hrdata]
      exact hparse'
    · rw [hexpiration, hexpires]
      exact hlive s hs
  constructor
  · intro s hs
    obtain ⟨signer, hsigner, htag⟩ := hnames _ ((hsame _).mp (List.mem_map_of_mem hs))
    exact ⟨signer, hsigner, hmade s hs signer hsigner htag⟩
  · intro signer hsigner
    obtain ⟨s, hs, htag⟩ := List.mem_map.mp ((hsame _).mpr (hsigners signer hsigner).1)
    exact ⟨s, hs, hmade s hs signer hsigner htag.symm⟩

def CarriesNow (earlier : List SigningRun) (run : SigningRun) (zone : Zone) (layout : Layout)
    (signed : List ZoneRecord) : Prop :=
  ∀ key rrset carried, (key, rrset) ∈ rrsetsOf signed →
    carriedFor (run.previous.map Zone.records) layout run.keys run.policy rrset = some carried →
    (∀ s ∈ carried, ∃ signer ∈ run.signers rrset.rtype,
      MadeBy (run :: earlier) zone run.now signer rrset.rtype ⟨rrset.name, rrset.ttl, .IN, s.rdata⟩) ∧
    ∀ signer ∈ run.signers rrset.rtype, ∃ s ∈ carried,
      MadeBy (run :: earlier) zone run.now signer rrset.rtype ⟨rrset.name, rrset.ttl, .IN, s.rdata⟩

variable {earlier : List SigningRun}

theorem Taken.signaturesOver (h : Taken run zone layout signed)
    (hcarry : CarriesNow earlier run zone layout signed) {rrset : ZoneRrset}
    (hmem : (key, rrset) ∈ rrsetsOf signed) {made : List ZoneRecord} {names : List (Name × Rtype)}
    (hover : Dnssec.signaturesOver run.crypto.sign layout run.keys run.policy (run.previous.map Zone.records)
      (ofLex key).1 rrset = .ok (made, names)) :
    (∀ r ∈ made, r.name = rrset.name ∧ r.rtype = RRSIG ∧ ∃ signer ∈ run.signers rrset.rtype,
      MadeBy (run :: earlier) zone run.now signer rrset.rtype r) ∧
    (¬ leftUnsigned layout run.policy (ofLex key).1 rrset → ∀ signer ∈ run.signers rrset.rtype, ∃ r ∈ made,
      MadeBy (run :: earlier) zone run.now signer rrset.rtype r) := by
  rcases of_signaturesOver hover with ⟨hleft, rfl⟩ | ⟨-, ⟨carried, hcarried, rfl⟩ | ⟨-, hmade⟩⟩
  · exact ⟨fun r hr => (by cases hr), fun hnot => absurd hleft hnot⟩
  · obtain ⟨honly, heach⟩ := hcarry key rrset carried hmem hcarried
    refine ⟨fun r hr => ?_, fun _ signer hsigner => ?_⟩
    · have hrtype := rtype_of_signaturesOver hover hr
      obtain ⟨s, hs, rfl⟩ := List.mem_map.mp hr
      exact ⟨rfl, hrtype, honly s hs⟩
    · obtain ⟨s, hs, hmadeBy⟩ := heach signer hsigner
      exact ⟨_, List.mem_map_of_mem hs, hmadeBy⟩
  · refine ⟨fun r hr => ?_, fun _ signer hsigner => ?_⟩
    · obtain ⟨signer, hsigner, hsignature⟩ := mem_of_mapM_ok hmade hr
      obtain ⟨-, -, hname, -, -, hrtype, -⟩ := of_signatureBy hsignature
      exact ⟨hname, hrtype, signer, hsigner, h.madeBy_fresh hmem hsigner hsignature earlier⟩
    · obtain ⟨r, hr, hsignature⟩ := exists_of_mapM_ok hmade hsigner
      exact ⟨r, hr, h.madeBy_fresh hmem hsigner hsignature earlier⟩

theorem MadeBy.coveredType {runs : List SigningRun} {now : Nat} {signer : SigningKey}
    (h : MadeBy runs zone now signer rtype r) : coveredType r.rdata = some rtype := by
  obtain ⟨-, run', -, maker, -, -, inception, expiration, sig, hsig, hparse, -⟩ := h
  obtain ⟨data, signature, -, -, rfl⟩ := of_signRrset hsig
  rw [Dnssec.coveredType, hparse]
  rfl

theorem Taken.signers_ne_nil (h : Taken run zone layout signed) (rtype : Rtype) : run.signers rtype ≠ [] := by
  obtain ⟨fresh, hsigned⟩ := h.signed
  have hdata := (of_signEverything hsigned).1
  have hactive : activeSigningKeys run.keys run.now ≠ [] := by
    intro hnil
    apply hdata
    show (if ((activeSigningKeys run.keys run.now).filter fun key => !key.isSep).isEmpty = true then
      activeSigningKeys run.keys run.now else _) = []
    rw [hnil]
    rfl
  rw [SigningRun.signers, signersFor]
  split
  · show (if ((activeSigningKeys run.keys run.now).filter SigningKey.isSep).isEmpty = true then
      activeSigningKeys run.keys run.now else (activeSigningKeys run.keys run.now).filter SigningKey.isSep) ≠ []
    split
    · exact hactive
    · rename_i hsome
      simpa using hsome
  · exact hdata

/-- **Which RRsets a run signs** is settled by the unsigned zone, whatever is carried. -/
theorem Taken.isSigned_iff (h : Taken run zone layout signed)
    (hcarry : CarriesNow earlier run zone layout signed) {name : Name} :
    IsSigned zone name rtype ↔ ∃ key rrset, (key, rrset) ∈ rrsetsOf signed ∧ rrset.name.same name = true ∧
      rrset.rtype = rtype ∧ ¬ leftUnsigned layout run.policy (ofLex key).1 rrset := by
  constructor
  · rintro ⟨r, hr, hrrsig, hname, hcovered⟩
    obtain ⟨key, rrset, made, names, hmem, hover, hmade⟩ := h.mem_rrsig hr hrrsig
    obtain ⟨hrname, -, signer, -, hmadeBy⟩ := (h.signaturesOver hcarry hmem hover).1 r hmade
    refine ⟨key, rrset, hmem, hrname ▸ hname, ?_, fun hleft => ?_⟩
    · exact Option.some.inj (hmadeBy.coveredType.symm.trans hcovered)
    · rcases of_signaturesOver hover with ⟨-, rfl⟩ | ⟨hnot, -⟩
      · cases hmade
      · exact hnot hleft
  · rintro ⟨key, rrset, hmem, hname, rfl, hnot⟩
    obtain ⟨fresh, hsigned⟩ := h.signed
    obtain ⟨-, all, hall, -⟩ := of_signEverything hsigned
    obtain ⟨⟨made, names⟩, -, hover⟩ := exists_of_mapM_ok hall hmem
    obtain ⟨signer, hsigner⟩ := List.exists_mem_of_ne_nil _ (h.signers_ne_nil rrset.rtype)
    obtain ⟨honly, heach⟩ := h.signaturesOver hcarry hmem hover
    obtain ⟨r, hr, hmadeBy⟩ := heach hnot signer hsigner
    obtain ⟨hrname, hrrsig, -⟩ := honly r hr
    exact ⟨r, (mem_signEverything hsigned).mpr (.inr ⟨key, rrset, made, names, hmem, hover, hr⟩), hrrsig,
      hrname ▸ hname, hmadeBy.coveredType⟩

theorem Taken.signedNow (h : Taken run zone layout signed) (hcarry : CarriesNow earlier run zone layout signed) :
    SignedNow (run :: earlier) run zone where
  only := by
    intro r hr hrrsig
    obtain ⟨key, rrset, made, names, hmem, hover, hmade⟩ := h.mem_rrsig hr hrrsig
    obtain ⟨-, -, signer, hsigner, hmadeBy⟩ := (h.signaturesOver hcarry hmem hover).1 r hmade
    exact ⟨rrset.rtype, signer, hsigner, hmadeBy⟩
  each := by
    intro name rtype hsigned signer hsigner
    obtain ⟨key, rrset, hmem, hname, rfl, hnot⟩ := (h.isSigned_iff hcarry).mp hsigned
    obtain ⟨fresh, hout⟩ := h.signed
    obtain ⟨-, all, hall, -⟩ := of_signEverything hout
    obtain ⟨⟨made, names⟩, -, hover⟩ := exists_of_mapM_ok hall hmem
    obtain ⟨honly, heach⟩ := h.signaturesOver hcarry hmem hover
    obtain ⟨r, hr, hmadeBy⟩ := heach hnot signer hsigner
    obtain ⟨hrname, hrrsig, -⟩ := honly r hr
    exact ⟨r, (mem_signEverything hout).mpr (.inr ⟨key, rrset, made, names, hmem, hover, hr⟩), hrrsig,
      hrname ▸ hname, hmadeBy⟩

theorem carriesNow_first (hprevious : run.previous = none) : CarriesNow earlier run zone layout signed := by
  intro key rrset carried _ hcarried
  rw [hprevious] at hcarried
  cases hcarried

end Step

/-! ## The run -/

theorem Ordinary.taken {run : SigningRun} (hrun : Ordinary run)
    (hprevious : ∀ p, run.previous = some p → p.Fits) (hserved : run.served = .ok zone) :
    ∃ layout signed, Taken run zone layout signed := by
  obtain ⟨layout, signed, fresh, hunsigned, hsigned⟩ := hrun.records hprevious hserved
  exact ⟨layout, signed, hrun, hunsigned, fresh, hsigned⟩

theorem Reached.fits {runs : List SigningRun} (h : Reached runs zone) : zone.Fits := by
  cases h with
  | first _ hserved => exact fits_of_served hserved
  | next _ _ _ _ hserved => exact fits_of_served hserved

/-- **The invariant of a run**: the step lemma at every step. -/
theorem Reached.carriesNow {runs : List SigningRun} (h : Reached runs zone)
    (hordinary : ∀ run ∈ runs, Ordinary run) :
    ∃ run earlier layout signed, runs = run :: earlier ∧ Taken run zone layout signed ∧
      CarriesNow earlier run zone layout signed := by
  induction h with
  | @first run zone hprevious hserved =>
    obtain ⟨layout, signed, htaken⟩ := (hordinary run List.mem_cons_self).taken
      (fun p hp => by cases hprevious.symm.trans hp) hserved
    exact ⟨run, [], layout, signed, rfl, htaken, carriesNow_first hprevious⟩
  | @next run last earlier previous zone h hprevious horigin htime hserved ih =>
    obtain ⟨_, _, layout', signed', heq, hlast, hcarry⟩ :=
      ih fun r hr => hordinary r (List.mem_cons_of_mem _ hr)
    cases heq
    obtain ⟨layout, signed, htaken⟩ := (hordinary run List.mem_cons_self).taken
      (fun p hp => Option.some.inj (hprevious.symm.trans hp) ▸ h.fits) hserved
    refine ⟨run, last :: earlier, layout, signed, rfl, htaken, fun key rrset carried hmem hcarried => ?_⟩
    rw [hprevious] at hcarried
    exact htaken.madeBy_carried hlast (hlast.signedNow hcarry) horigin hmem hcarried

/-- **Incremental signing refines full signing.** -/
theorem incremental_refines {run : SigningRun} {earlier : List SigningRun} {zone : Zone}
    (h : Reached (run :: earlier) zone) (hordinary : ∀ r ∈ run :: earlier, Ordinary r) :
    Refines (run :: earlier) run zone := by
  obtain ⟨_, _, layout, signed, heq, htaken, hcarry⟩ := h.carriesNow hordinary
  cases heq
  refine ⟨htaken.signedNow hcarry, fun full hfull => ?_⟩
  have hrun := hordinary run List.mem_cons_self
  have hfirst : Ordinary { run with previous := none } :=
    ⟨hrun.policy, hrun.apart, hrun.uniform, hrun.sized, hrun.short⟩
  obtain ⟨layout', signed', hfullTaken⟩ := hfirst.taken (fun p hp => (by cases hp)) hfull
  -- the unsigned zone is the same, so what is in it and what of it is signed are too
  obtain ⟨rfl, rfl⟩ : layout' = layout ∧ signed' = signed := by
    have hboth := Except.ok.inj (hfullTaken.unsigned.symm.trans htaken.unsigned)
    exact ⟨congrArg Prod.fst hboth, congrArg Prod.snd hboth⟩
  have hnone : CarriesNow [] { run with previous := none } full layout' signed' := carriesNow_first rfl
  have hfullNow := hfullTaken.signedNow hnone
  refine ⟨⟨hfullNow.only, hfullNow.each⟩, ?_, fun name rtype => ?_⟩
  · obtain ⟨fresh, hsigned⟩ := htaken.signed
    obtain ⟨fresh', hsigned'⟩ := hfullTaken.signed
    rw [filter_notRrsig hsigned, filter_notRrsig hsigned']
  · rw [htaken.isSigned_iff hcarry, hfullTaken.isSigned_iff hnone]

/-! ## Two runs over `ex.`, and an imported signature -/

instance (records : List ZoneRecord) : Decidable (OwnersApart records) :=
  inferInstanceAs (Decidable (∀ a ∈ records, ∀ b ∈ records,
    canonicalSortKey a.name = canonicalSortKey b.name → a.name.same b.name = true))

instance (records : List ZoneRecord) : Decidable (UniformTtls records) :=
  inferInstanceAs (Decidable (∀ a ∈ records, ∀ b ∈ records,
    a.name.same b.name = true → a.rtype = b.rtype → a.ttl = b.ttl))

def SigningRun.isPlain (run : SigningRun) : Bool :=
  match unsigned run.crypto run.zone run.keys run.policy with
  | .ok (_, signed) => decide (OwnersApart signed) && decide (UniformTtls signed) &&
    signed.all fun r => r.rdata.rdata.length ≤ 65535
  | .error _ => true

theorem ordinary_of_isPlain {run : SigningRun} (hplain : run.isPlain = true)
    (hpolicy : ∃ now validity chain, run.policy = .validFor now validity chain .local ∧ 0 < validity ∧
      now + validity < 2 ^ 32)
    (hshort : ∀ algorithm key data signature, run.crypto.sign algorithm key data = .ok signature →
      signature.length ≤ 65000) : Ordinary run := by
  have hall : ∀ layout signed, unsigned run.crypto run.zone run.keys run.policy = .ok (layout, signed) →
      OwnersApart signed ∧ UniformTtls signed ∧ ∀ r ∈ signed, r.rdata.rdata.length ≤ 65535 := by
    intro layout signed hunsigned
    rw [SigningRun.isPlain, hunsigned] at hplain
    simp only [Bool.and_eq_true, decide_eq_true_eq, List.all_eq_true] at hplain
    exact ⟨hplain.1.1, hplain.1.2, hplain.2⟩
  exact ⟨hpolicy, fun layout signed h => (hall layout signed h).1, fun layout signed h => (hall layout signed h).2.1,
    fun layout signed h => (hall layout signed h).2.2, hshort⟩

theorem length_ed25519Sign (algorithm : SigningAlgorithm) {key data signature : Octets}
    (h : ed25519Sign algorithm key data = .ok signature) : signature.length ≤ 65000 := by
  rw [ed25519Sign] at h
  split at h
  · cases h
    simp [Ed25519.sign, Ed25519.Point.compress, littleEndianOctets]
  · cases h

def exRun (records : List ZoneRecord) (signedAt : Nat) (source : DnskeySignature) (previous : Option Zone) :
    SigningRun where
  crypto := ed25519Crypto
  zone := zoneOf ex records
  keys := [firstKey 257 .default]
  policy := SigningPolicy.validFor signedAt 2592000 .nsec source
  previous

theorem exRun_served (records : List ZoneRecord) (signedAt : Nat) (source : DnskeySignature)
    (previous : Option Zone) (h : (exRun records signedAt source none).encodes = true) :
    ∃ zone, (exRun records signedAt source previous).served = .ok zone := by
  have hkeys : ∀ key ∈ (exRun records signedAt source previous).keys, Signs ed25519Sign key := by
    intro key hkey
    rw [List.mem_singleton.mp hkey]
    exact signs_firstKey _ _
  exact served_isOk hkeys h

theorem exRun_ordinary {records : List ZoneRecord} {signedAt : Nat} (previous : Option Zone)
    (hplain : (exRun records signedAt .local none).isPlain = true) (htime : signedAt + 2592000 < 2 ^ 32) :
    Ordinary (exRun records signedAt .local previous) :=
  ordinary_of_isPlain hplain ⟨signedAt, 2592000, .nsec, rfl, by decide, htime⟩
    fun algorithm _ _ _ => length_ed25519Sign algorithm

def wwwA : ZoneRecord := ⟨wwwEx, ⟨300⟩, .IN, ⟨A, [192, 0, 2, 1]⟩⟩

theorem incremental_refines_ex :
    ∃ first second zone, Reached [second, first] zone ∧ Refines [second, first] second zone := by
  obtain ⟨zone₁, hzone₁⟩ := exRun_served [exSoa] 1754197300 .local none (by decide +kernel)
  obtain ⟨zone₂, hzone₂⟩ := exRun_served [exSoa, wwwA] 1754197360 .local (some zone₁) (by decide +kernel)
  have horigin : (zoneOf ex [exSoa, wwwA]).origin.same (zoneOf ex [exSoa]).origin = true := by decide +kernel
  have hreached : Reached [exRun [exSoa, wwwA] 1754197360 .local (some zone₁), exRun [exSoa] 1754197300 .local none]
      zone₂ := by
    refine (Reached.first rfl hzone₁).next rfl horigin ?_ hzone₂
    show 1754197300 ≤ 1754197360
    decide
  refine ⟨_, _, zone₂, hreached, incremental_refines hreached fun run hrun => ?_⟩
  rcases List.mem_cons.mp hrun with rfl | hrun
  · exact exRun_ordinary _ (by decide +kernel) (by decide)
  · rw [List.mem_singleton.mp hrun]
    exact exRun_ordinary _ (by decide +kernel) (by decide)

def importedRrsig : ZoneRecord :=
  ⟨ex, ⟨300⟩, .IN, ⟨RRSIG, be16 48 ++ [15, 1] ++ be32 300 ++ be32 1756789300 ++ be32 1754193700
    ++ be16 1 ++ ex.wire ++ List.replicate 64 7⟩⟩

def importsRrsig (run : SigningRun) : Bool :=
  match unsigned run.crypto run.zone run.keys run.policy with
  | .ok (_, signed) => (signed.map storedRecord).contains importedRrsig
  | .error _ => false

/-- **An imported signature is served as it came** (RFC 8901 Model 1): no key here made it. -/
theorem imported_rrsig_served :
    ¬ ∀ (run : SigningRun) (earlier : List SigningRun) (zone : Zone), Reached (run :: earlier) zone →
      Refines (run :: earlier) run zone := by
  intro h
  obtain ⟨zone, hzone⟩ := exRun_served [exSoa, importedRrsig] 1754197300 .imported none (by decide +kernel)
  have hserved : importedRrsig ∈ zone.records := by
    obtain ⟨out, fresh, hout, rfl⟩ := of_served hzone
    obtain ⟨layout, signed, hunsigned, hsigned⟩ := of_signRecords hout
    have himports : importsRrsig (exRun [exSoa, importedRrsig] 1754197300 .imported none) = true := by
      decide +kernel
    rw [importsRrsig, hunsigned] at himports
    obtain ⟨r, hr, hstored⟩ := List.mem_map.mp (List.contains_iff_mem.mp himports)
    rw [zoneOf_records]
    exact List.mem_map.mpr ⟨r, (mem_signEverything hsigned).mpr (.inl hr), hstored⟩
  obtain ⟨rtype, key, hkey, -, run, hrun, maker, hmaker, -, inception, expiration, sig, hsig, hparse, -⟩ :=
    (h _ [] zone (.first rfl hzone)).signed.only importedRrsig hserved rfl
  obtain rfl := List.mem_singleton.mp hrun
  obtain rfl := List.mem_singleton.mp hmaker
  obtain ⟨data, signature, -, -, rfl⟩ := of_signRrset hsig
  have htag : ∀ found, importedRrsig.rdata.parse = .ok found → ∀ sig : Rrsig, found = sig.parsed →
      sig.keyTag = 1 := by
    intro found hfound sig hsig
    have hparse : importedRrsig.rdata.parse = .ok (.rrsig DNSKEY 15 1 300 1754193700 1756789300 1 ex
        (List.replicate 64 7)) := by decide +kernel
    rw [Except.ok.inj (hfound.symm.trans hparse), Rrsig.parsed, ParsedRecord.rrsig.injEq] at hsig
    exact hsig.2.2.2.2.2.2.1.symm
  have hone := htag _ hparse _ rfl
  revert hone
  show ¬ (firstKey 257 .default).keyTag = 1
  decide +kernel

end Rdns.Dnssec
