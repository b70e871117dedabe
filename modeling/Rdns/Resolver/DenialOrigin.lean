import Rdns.Dnssec.DenialRelevance
import Rdns.Resolver.HonestServers
import Rdns.Resolver.Verdicts

/-!
# Rdns — Which zone a denial comes from

A denial is checked in three steps: every record is signed by some zone at or above it, the keys
of that zone are established, and the records deny the name. No step asks whether the zone is
one that may speak of the name, and an NSEC of a zone's last name speaks of every name after it
and before the apex, whatever zone that is in.
-/

namespace Rdns.Resolver

open Rdns.Lib Rdns.Lib.Fallible Rdns.Core Rdns.Present Rdns.Zones Rdns.Dnssec RecordTypes

/-! ## Zones and their names -/

structure Owns (cuts : List Name) (qtype : Qtype) (name zone : Name) : Prop where
  above : name.isAtOrUnder zone = true
  nearest : ∀ cut ∈ cuts, cut.isAtOrUnder zone = true → name.isAtOrUnder cut = true →
    cut.same zone = true ∨ (qtype.is DS = true ∧ name.same cut = true)

def IsSigned (signing : Crypto) (z : Zone) : Prop := ∃ source keys policy, signZone signing source keys policy = .ok z

def replayed (sets : List (Zone × Name × Rtype)) : List ResourceRecord :=
  sets.flatMap fun (z, name, rtype) =>
    (rrsetAt z.records name rtype ++ rrsigsOver z.records name rtype).map asRecord

/-! ## What a denial rests on -/

section

variable (crypto : Primitives) (query : QuerySection) (response : DnsMessage)

def denialBy (name : Name) (records : List ResourceRecord) : Denial :=
  let zone := ((response.authorities.find? fun rr => rr.rdata.rtype == SOA).map
    ResourceRecord.name).getD name
  if response.rcode == .noSuchDomain then provesNxdomain crypto.sha1 name zone (nsecsIn records) (nsec3sIn records)
  else provesNodata crypto.sha1 name zone ⟨query.qtype.code⟩ (nsecsIn records) (nsec3sIn records)

/-- **These records are what the denial rests on, and the zones that own the name signed them**: they
alone prove it, and each is vouched for by such a zone. -/
structure DenialFrom (cuts : List Name) (now : Nat) (keys : KeyStore) (records : List ResourceRecord) :
    Prop where
  sub : records ⊆ response.authorities
  proves : denialBy crypto query response (deniedName query response) records = .proved
  signed : ∀ rr ∈ records, ∃ set zone rrsig, set.holds rr = true ∧ rr.rdata ∈ set.rdatas ∧
    Vouched crypto.verify now (rrsigsIn (recordsToCheck query response)) keys set zone rrsig ∧
    Owns cuts query.qtype (deniedName query response) rrsig.signerName

def bears (name : Name) (rr : ResourceRecord) : Bool :=
  (Nsec.fromRecord rr).any (·.bearsOn name) || (Nsec3.fromRecord rr).any (·.bearsOn crypto.sha1 name)

def SpokenForByOwners (cuts : List Name) : Prop :=
  ∀ rr ∈ response.authorities, bears crypto (deniedName query response) rr = true →
    ∀ rrsig ∈ rrsigsIn (recordsToCheck query response), rrsig.owner.same rr.name = true →
      rrsig.typeCovered = rr.rdata.rtype → Owns cuts query.qtype (deniedName query response) rrsig.signerName

end

section

variable {crypto : Primitives} {query : QuerySection} {response : DnsMessage} {name : Name}

variable {rr : ResourceRecord}

theorem bears_of_nsec {nsec : Nsec} (h : Nsec.fromRecord rr = some nsec) :
    bears crypto name rr = nsec.bearsOn name := by
  have hnone : Nsec3.fromRecord rr = none := by
    cases h3 : Nsec3.fromRecord rr with
    | none => rfl
    | some nsec3 =>
      have hboth := (Nsec.rtype_of_fromRecord h).symm.trans (Nsec3.rtype_of_fromRecord h3)
      exact absurd hboth (by decide)
  rw [bears, h, hnone]
  simp

theorem bears_of_nsec3 {nsec3 : Nsec3} (h : Nsec3.fromRecord rr = some nsec3) :
    bears crypto name rr = nsec3.bearsOn crypto.sha1 name := by
  have hnone : Nsec.fromRecord rr = none := by
    cases h1 : Nsec.fromRecord rr with
    | none => rfl
    | some nsec =>
      have hboth := (Nsec.rtype_of_fromRecord h1).symm.trans (Nsec3.rtype_of_fromRecord h)
      exact absurd hboth (by decide)
  rw [bears, h, hnone]
  simp

theorem isValidated_of_bears (h : bears crypto name rr = true) : isValidated rr = true := by
  have hrtype : rr.rdata.rtype = NSEC ∨ rr.rdata.rtype = NSEC3 := by
    rw [bears, Bool.or_eq_true, Option.any_eq_true, Option.any_eq_true] at h
    rcases h with ⟨nsec, hnsec, -⟩ | ⟨nsec3, hnsec3, -⟩
    · exact .inl (Nsec.rtype_of_fromRecord hnsec)
    · exact .inr (Nsec3.rtype_of_fromRecord hnsec3)
  rw [isValidated]
  rcases hrtype with hrtype | hrtype
  · rw [hrtype]
    rfl
  · rw [hrtype]
    rfl

theorem nsecsIn_bearing (records : List ResourceRecord) :
    nsecsIn (records.filter (bears crypto name)) = (nsecsIn records).filter (·.bearsOn name) := by
  induction records with
  | nil => rfl
  | cons rr rest ih =>
    rw [nsecsIn, nsecsIn, List.filterMap_cons, List.filter_cons]
    cases hrr : Nsec.fromRecord rr with
    | none =>
      dsimp only
      split
      · rw [List.filterMap_cons, hrr]
        exact ih
      · exact ih
    | some nsec =>
      dsimp only
      rw [bears_of_nsec hrr, List.filter_cons]
      split
      · rw [List.filterMap_cons, hrr]
        exact congrArg (nsec :: ·) ih
      · exact ih

theorem nsec3sIn_bearing (records : List ResourceRecord) :
    nsec3sIn (records.filter (bears crypto name)) = (nsec3sIn records).filter (·.bearsOn crypto.sha1 name) := by
  induction records with
  | nil => rfl
  | cons rr rest ih =>
    rw [nsec3sIn, nsec3sIn, List.filterMap_cons, List.filter_cons]
    cases hrr : Nsec3.fromRecord rr with
    | none =>
      dsimp only
      split
      · rw [List.filterMap_cons, hrr]
        exact ih
      · exact ih
    | some nsec3 =>
      dsimp only
      rw [bears_of_nsec3 hrr, List.filter_cons]
      split
      · rw [List.filterMap_cons, hrr]
        exact congrArg (nsec3 :: ·) ih
      · exact ih

/-- **A denial rests on the records that bear on the name.** -/
theorem denialBy_bearing {records : List ResourceRecord}
    (h : denialBy crypto query response name records = .proved) :
    denialBy crypto query response name (records.filter (bears crypto name)) = .proved := by
  rw [denialBy] at h ⊢
  rw [nsecsIn_bearing, nsec3sIn_bearing]
  split at h
  · grind [provesNxdomain_bearing]
  · grind [provesNodata_bearing]

theorem denialBy_nil : denialBy crypto query response name [] ≠ .proved := by
  rw [denialBy]
  split <;> exact fun h => by cases h

theorem of_checkDenial (h : checkDenial crypto query name response = .secure) :
    denialBy crypto query response name response.authorities = .proved := by
  rw [checkDenial] at h
  dsimp only at h
  split at h
  · cases h
  · split at h
    · assumption
    · cases h

end

section

variable {σ : Type} {world : World σ} {config : ResolverConfig} {probe : Probe} {crypto : Primitives}
  {query : QuerySection} {response : DnsMessage} {anchors : TrustAnchors} {s t : Progress σ}

/-- **A secure denial comes from the zones that own the name**, where no other zone's NSEC or NSEC3
says anything of it: the records that do prove the denial alone, and each is vouched for by the
established keys of such a zone. -/
theorem secure_denial_origin {cuts : List Name} (hnegative : isNegative query response = true)
    (howners : SpokenForByOwners crypto query response cuts)
    (hsecure : (validate world config probe crypto query response anchors).out s = (.ok .secure, t)) :
    ∃ keys, (chainsOf world config probe crypto query response anchors (world.now s.outside)).out s
        = (.ok (.secure, keys), t) ∧
      DenialFrom crypto query response cuts (world.now s.outside) keys
        (response.authorities.filter (bears crypto (deniedName query response))) := by
  obtain ⟨keys, hchains, hjudge⟩ := of_validate hsecure
  obtain ⟨hrecords, finalName, hshape, hdenied⟩ := of_judge hjudge
  rw [if_pos hnegative] at hdenied
  have hname : deniedName query response = finalName := by
    rw [deniedName, hshape]
  refine ⟨keys, hchains, List.filter_subset_self _, ?_, fun rr hrr => ?_⟩
  · rw [hname]
    exact denialBy_bearing (of_checkDenial hdenied)
  · obtain ⟨hauthority, hbears⟩ := List.mem_filter.mp hrr
    have hcheck : rr ∈ recordsToCheck query response := by grind [recordsToCheck]
    obtain ⟨set, hset, hholds, hdata⟩ := mem_groupRrsets hcheck (isValidated_of_bears hbears)
    obtain ⟨zone, rrsig, -, hvouched, -, -⟩ := ChainValidator.of_validateRecords hrecords set hset
    obtain ⟨_, _, -, -, hsigned⟩ := hvouched.signed
    refine ⟨set, zone, rrsig, hholds, hdata, hvouched, ?_⟩
    rw [Rrset.holds, Bool.and_eq_true, Bool.and_eq_true, beq_iff_eq] at hholds
    refine howners rr hauthority hbears rrsig hvouched.mem ?_ (hsigned.covers.1.trans hholds.1.2)
    have hfolded := (Name.same_iff.mp hsigned.covers.2).trans (Name.same_iff.mp hholds.1.1)
    rw [Name.same_iff, hfolded, Name.toFolded_toFolded]

end

/-! ## `b.ex.` and `b.org.`, denied by `ex.` -/

def orgSigned : Except DnssecError Zone :=
  signZone rememberedCrypto (zoneOf org [{ exSoa with name := org }, addressAt bOrg])
    [{ firstKey 257 .default with owner := org }] (.validFor 1754197300 2592000 .nsec .local)

def exAlone : Zone := (exSigned [exSoa]).toOption.getD (zoneOf ex [])
def orgZone : Zone := orgSigned.toOption.getD (zoneOf org [])

theorem exAlone_eq : exSigned [exSoa] = .ok exAlone := by
  have hsigned : (exSigned [exSoa]).toOption.isSome = true := by decide +kernel
  rw [exAlone]
  cases h : exSigned [exSoa] with
  | ok z => rfl
  | error e =>
    rw [h] at hsigned
    cases hsigned

theorem orgZone_eq : orgSigned = .ok orgZone := by
  have hsigned : orgSigned.toOption.isSome = true := by decide +kernel
  rw [orgZone]
  cases h : orgSigned with
  | ok z => rfl
  | error e =>
    rw [h] at hsigned
    cases hsigned

def deniedQuery (name : Name) : QuerySection := ⟨name, .of A, .in⟩

def deniedReply (name : Name) : DnsMessage :=
  { requestFor (deniedQuery name) with
    response := true, rcode := .noSuchDomain, authorities := replayed [(exAlone, ex, NSEC)] }

def twoZones : World Unit := honestWorld unusedSha1 (fun _ => [exAlone, orgZone]) exNow exAnchors

def deniedStart : Progress Unit := .begin exValidating exHints ()

def deniedVerdict (name : Name) : Except ResolveError ValidationState × Progress Unit :=
  (validate twoZones exValidating .none rememberedPrimitives (deniedQuery name) (deniedReply name) exAnchors).out
    deniedStart

theorem denied_secure {name : Name} (h : (deniedVerdict name).1.toOption.map ValidationState.isSecure = some true) :
    deniedVerdict name = (.ok .secure, (deniedVerdict name).2) := by
  obtain ⟨state, hrun, hsecure⟩ := eq_of_toOption h
  rwa [ValidationState.isSecure_iff.mp hsecure] at hrun

/-- `ex.` denies a name of its own. -/
theorem secure_denial_origin_ex : ∃ keys t,
    (chainsOf twoZones exValidating .none rememberedPrimitives (deniedQuery bEx) (deniedReply bEx) exAnchors exNow).out
      deniedStart = (.ok (.secure, keys), t) ∧
    DenialFrom rememberedPrimitives (deniedQuery bEx) (deniedReply bEx) [ex, org] exNow keys
      ((deniedReply bEx).authorities.filter
        (bears rememberedPrimitives (deniedName (deniedQuery bEx) (deniedReply bEx)))) := by
  have hown : ∀ rrsig ∈ rrsigsIn (recordsToCheck (deniedQuery bEx) (deniedReply bEx)),
      (deniedName (deniedQuery bEx) (deniedReply bEx)).isAtOrUnder rrsig.signerName = true ∧
      ∀ cut ∈ [ex, org], cut.isAtOrUnder rrsig.signerName = true → cut.same rrsig.signerName = true := by
    decide +kernel
  have howners : SpokenForByOwners rememberedPrimitives (deniedQuery bEx) (deniedReply bEx) [ex, org] :=
    fun _ _ _ rrsig hrrsig _ _ => ⟨(hown rrsig hrrsig).1, fun cut hcut habove _ =>
      .inl ((hown rrsig hrrsig).2 cut hcut habove)⟩
  have hsecure : deniedVerdict bEx = (.ok .secure, (deniedVerdict bEx).2) := denied_secure (by decide +kernel)
  obtain ⟨keys, hchains, hdenial⟩ := secure_denial_origin (by decide +kernel) howners hsecure
  exact ⟨keys, _, hchains, hdenial⟩

/-- **A zone denies the names of another**: not every secure denial made of signed RRsets comes from
the zones that own the name. -/
theorem denied_from_elsewhere :
    ¬ ∀ (σ : Type) (world : World σ) (config : ResolverConfig) (crypto : Primitives) (signing : Crypto)
      (zones : List Zone) (answered denied : List (Zone × Name × Rtype)) (query : QuerySection)
      (response : DnsMessage) (anchors : TrustAnchors) (s t : Progress σ),
      (∀ z ∈ zones, IsSigned signing z) → (∀ set ∈ answered ++ denied, set.1 ∈ zones) →
      response.answers = replayed answered → response.authorities = replayed denied →
      isNegative query response = true →
      (validate world config .none crypto query response anchors).out s = (.ok .secure, t) →
      ∃ keys records, DenialFrom crypto query response (zones.map Zone.origin) (world.now s.outside) keys records := by
  intro h
  obtain ⟨keys, records, hdenial⟩ := h Unit twoZones exValidating rememberedPrimitives rememberedCrypto
    [exAlone, orgZone] [] [(exAlone, ex, NSEC)] (deniedQuery bOrg) (deniedReply bOrg) exAnchors deniedStart _
    (by
      intro z hz
      rcases List.mem_pair.mp hz with rfl | rfl
      · exact ⟨_, _, _, exAlone_eq⟩
      · exact ⟨_, _, _, orgZone_eq⟩)
    (fun set hset => by
      rw [List.mem_singleton.mp hset]
      exact List.mem_cons_self)
    rfl rfl (by decide +kernel) (denied_secure (by decide +kernel))
  -- some record that bears on the name is one of those it rests on
  obtain ⟨rr, hrr⟩ : ∃ rr, rr ∈ records.filter (bears rememberedPrimitives (deniedName (deniedQuery bOrg) (deniedReply bOrg))) := by
    refine List.exists_mem_of_ne_nil _ fun hnil => ?_
    have hproves := denialBy_bearing hdenial.proves
    rw [hnil] at hproves
    exact denialBy_nil hproves
  obtain ⟨_, _, rrsig, -, -, hvouched, howns⟩ := hdenial.signed rr (List.mem_of_mem_filter hrr)
  have hapart : ∀ rrsig ∈ rrsigsIn (recordsToCheck (deniedQuery bOrg) (deniedReply bOrg)),
      (deniedName (deniedQuery bOrg) (deniedReply bOrg)).isAtOrUnder rrsig.signerName = false := by decide +kernel
  have hnot := hapart rrsig hvouched.mem
  rw [howns.above] at hnot
  cases hnot

end Rdns.Resolver
