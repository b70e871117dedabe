import Rdns.Dnssec.DenialChains
import Rdns.Dnssec.SigningKeys
import Mathlib.Data.Prod.Lex

/-!
# Rdns — Signing a zone

`sign_zone` and `sign_zone_incrementally` of `rdns/src/zone_signer.rs`.

The zone under construction is its records, in the order they were added: the signer only
ever adds to it and asks for the records of one type at the apex.
-/

namespace Rdns.Dnssec

open Rdns.Lib Rdns.Core Rdns.Present Rdns.Zones RecordTypes

/-! ## The policy -/

inductive DnskeySignature where
  | local
  | imported
deriving DecidableEq

inductive DenialChain where
  | nsec
  | nsec3 (salt : Octets) (iterations : UInt16) (optOut : Bool)
deriving DecidableEq

def DenialChain.check : DenialChain → Except DnssecError Unit
  | .nsec => .ok ()
  | .nsec3 salt iterations _ =>
    if salt.length > 255 then .error (.signing "an NSEC3 salt cannot exceed 255 bytes")
    else if iterations > MAX_NSEC3_ITERATIONS then
      .error (.signing "the NSEC3 iterations exceed what RFC 9276 permits")
    else .ok ()

def EXPIRY_JITTER_FRACTION : Nat := 5

def RESIGN_FRACTION : Nat := 3

def resignAfter (validitySecs : Nat) : Nat := max (validitySecs / RESIGN_FRACTION) 1

def CLOCK_SKEW_ALLOWANCE : Nat := 3600

def saturatingAdd64 (a b : Nat) : Nat := min (a + b) (2 ^ 64 - 1)

/-- The choices a signing run makes that are not in the zone or in the keys. -/
structure SigningPolicy where
  inception : UInt32
  expiration : UInt32
  chain : DenialChain
  dnskeySignature : DnskeySignature
  validity : Nat
  signedAt : Nat

def foldedHash (octets : Octets) : UInt64 :=
  octets.foldl (fun hash octet => (hash ^^^ (toAsciiLowercase octet).toUInt64) * 0x00000100000001b3)
    0xcbf29ce484222325

def signedSerial (fileSerial : Serial) (signedAt : Nat) : Serial :=
  fileSerial.wrappingAdd (UInt32.ofNat (signedAt / 3600))

namespace SigningPolicy

def validFor (now validity : Nat) (chain : DenialChain) (dnskeySignature : DnskeySignature) :
    SigningPolicy where
  inception := UInt32.ofNat (now - CLOCK_SKEW_ALLOWANCE)
  expiration := UInt32.ofNat (saturatingAdd64 now validity)
  chain
  dnskeySignature
  validity
  signedAt := now

def expiryFor (policy : SigningPolicy) (name : Name) (rtype : Rtype) : UInt32 :=
  let spread := policy.validity / EXPIRY_JITTER_FRACTION
  if spread = 0 then policy.expiration
  else
    let hash := foldedHash (name.wire ++ be16 rtype.code)
    let back := UInt32.ofNat (hash.toNat % spread)
    let spreadBack := if policy.expiration < back then 0 else policy.expiration - back
    let first := if policy.inception = 0xffffffff then policy.inception else policy.inception + 1
    if spreadBack < first then first else spreadBack

def serialFor (policy : SigningPolicy) (fileSerial : Serial) : Serial :=
  signedSerial fileSerial policy.signedAt

end SigningPolicy

/-! ## The records that are carried over -/

def isSignerOutput (rtype : Rtype) : Bool :=
  rtype = RRSIG || rtype = NSEC || rtype = NSEC3 ||
    rtype = NSEC3PARAM

def coveredType (data : RecordData) : Option Rtype :=
  match data.parse with
  | .ok (.rrsig typeCovered _ _ _ _ _ _ _ _) => some typeCovered
  | _ => none

def isImportedDnskeyRrsig (record : ZoneRecord) (origin : Name) (policy : SigningPolicy) : Bool :=
  policy.dnskeySignature = .imported && record.rtype = RRSIG &&
    record.name.same origin && coveredType record.rdata = some DNSKEY

def carryOne (origin : Name) (policy : SigningPolicy) (record : ZoneRecord) :
    Except DnssecError (Option (ZoneRecord × Option (Ttl × UInt32))) :=
  if isSignerOutput record.rtype && !isImportedDnskeyRrsig record origin policy then .ok none
  else if record.cls ≠ .IN then
    .error (.signing "DNSSEC is defined per class, and this record is not of class IN")
  else if !record.name.isAtOrUnder origin then
    .error (.signing "this zone has no authority to sign a name outside it")
  else if record.rtype = SOA ∧ record.name.same origin = true then
    match record.rdata.parse with
    | .ok (.soa mname rname serial refresh retry expire minimum) =>
      -- the served serial is not the file's
      match RecordData.fromParsed
          (.soa mname rname (policy.serialFor serial) refresh retry expire minimum) with
      | .ok rdata => .ok (some ({ record with rdata }, some (record.ttl, minimum)))
      | .error _ => .error (.signing "re-encoding the apex SOA")
    | .ok _ => .error (.signing "the apex SOA does not parse as an SOA")
    | .error e => .error (.wire e)
  else .ok (some (record, none))

def Ttl.min (a b : Ttl) : Ttl := if b.secs < a.secs then b else a

def rrsetTtl (carried : List ZoneRecord) (name : Name) (rtype : Rtype) (first : Ttl) : Ttl :=
  ((carried.filter fun r => r.name.same name && r.rtype == rtype).map ZoneRecord.ttl).foldl Ttl.min first

def withRrsetTtls (carried : List ZoneRecord) : List ZoneRecord :=
  carried.map fun r => { r with ttl := rrsetTtl carried r.name r.rtype r.ttl }

def carryOverRecords (zone : Zone) (origin : Name) (policy : SigningPolicy) :
    Except DnssecError (List ZoneRecord × Ttl × UInt32) := do
  let carried ← zone.records.mapM (carryOne origin policy)
  let carried := carried.filterMap id
  match (carried.filterMap Prod.snd).getLast? with
  | none => throw (.signing "no SOA at the apex, so there is no zone here to sign")
  | some (soaTtl, minimum) => return (withRrsetTtls (carried.map Prod.fst), soaTtl, minimum)

/-! ## The records of the keys -/

def atApex (signed : List ZoneRecord) (origin : Name) (rtype : Rtype) : List ZoneRecord :=
  signed.filter fun r => r.name.same origin && r.rtype == rtype

def hasDnskeyRrsig (signed : List ZoneRecord) (origin : Name) : Bool :=
  (atApex signed origin RRSIG).any fun r => coveredType r.rdata = some DNSKEY

def dnskeyTtl (signed : List ZoneRecord) (origin : Name) (soaTtl : Ttl) : Ttl :=
  match (atApex signed origin DNSKEY).head? with
  | none => soaTtl
  | some r => r.ttl

def publishDnskeys (keys : List SigningKey) (origin : Name) (soaTtl : Ttl) (now : Nat)
    (signed : List ZoneRecord) : List ZoneRecord :=
  let existing := (atApex signed origin DNSKEY).map ZoneRecord.rdata
  let ttl := dnskeyTtl signed origin soaTtl
  let rdatas := (keys.filter (·.isPublished now)).map fun key =>
    (⟨DNSKEY, key.dnskeyRdata⟩ : RecordData)
  signed ++ (rdatas.filter fun rdata => !existing.contains rdata).map fun rdata => ⟨origin, ttl, .IN, rdata⟩

/-- RFC 8078 §4's "delete" signal: algorithm 0 in a CDS or CDNSKEY. -/
def isGoInsecure (data : RecordData) : Bool :=
  if data.rtype = CDS then data.rdata[2]? = some 0
  else if data.rtype = CDNSKEY then data.rdata[3]? = some 0
  else false

def syncRdatas (sha256 : Octets → Octets) (key : SigningKey) : List RecordData :=
  [⟨CDS, be16 key.keyTag ++ [key.algorithm.code, 2] ++ dsDigest sha256 key⟩,
   ⟨CDNSKEY, key.dnskeyRdata⟩]

def publishSyncRecords (sha256 : Octets → Octets) (keys : List SigningKey) (origin : Name) (ttl : Ttl)
    (now : Nat) (signed : List ZoneRecord) : Except DnssecError (List ZoneRecord) :=
  let existing := (atApex signed origin CDS ++ atApex signed origin CDNSKEY).map
    ZoneRecord.rdata
  let wanted := keys.filter fun key => key.timing.isSyncPublished now
  if wanted.isEmpty then .ok signed
  else if existing.any isGoInsecure then
    .error (.signing "the zone asks the parent to withdraw the DS and a key to publish one")
  else
    let rdatas := (wanted.flatMap (syncRdatas sha256)).filter fun rdata => !existing.contains rdata
    .ok (signed ++ rdatas.map fun rdata => ⟨origin, ttl, .IN, rdata⟩)

/-- NSEC3PARAM's RDATA (RFC 5155 §4.2). -/
def nsec3paramRdata (salt : Octets) (iterations : UInt16) : RecordData :=
  ⟨NSEC3PARAM, [1, 0] ++ be16 iterations ++ [UInt8.ofNat salt.length] ++ salt⟩

def publishNsec3param (chain : DenialChain) (origin : Name) (ttl : Ttl) (signed : List ZoneRecord) :
    List ZoneRecord :=
  match chain with
  | .nsec => signed
  | .nsec3 salt iterations _ => signed ++ [⟨origin, ttl, .IN, nsec3paramRdata salt iterations⟩]

def checkKeys (keys : List SigningKey) (origin : Name) : Except DnssecError Unit :=
  if keys.isEmpty then .error (.signing "no keys to sign with")
  else if keys.all fun key => key.owner.same origin then .ok ()
  else .error (.signing "a key is not published at the zone's apex")

/-! ## What a previous run signed -/

/-- One RRSIG from the previous run, with the two fields the reuse decision turns on. -/
structure CarriedSignature where
  rdata : RecordData
  expiration : UInt32
  keyTag : UInt16
deriving DecidableEq

def previousRrset (previous : List ZoneRecord) (name : Name) (rtype : Rtype) :
    Option (Ttl × List RecordData) :=
  let records := previous.filter fun r => r.rtype ≠ RRSIG && r.name.same name && r.rtype == rtype
  records.getLast?.map fun last => (last.ttl, records.map ZoneRecord.rdata)

def carriedOf (rtype : Rtype) (record : ZoneRecord) : Option CarriedSignature :=
  if record.rtype ≠ RRSIG then none
  else match record.rdata.parse with
    | .ok (.rrsig typeCovered _ _ _ _ expiration keyTag _ _) =>
      if typeCovered = rtype then some ⟨record.rdata, expiration, keyTag⟩ else none
    | _ => none

def previousSignatures (previous : List ZoneRecord) (name : Name) (rtype : Rtype) :
    List CarriedSignature :=
  (previous.filter fun r => r.name.same name).filterMap (carriedOf rtype)

def sameSet {α : Type} [BEq α] (a b : List α) : Bool :=
  a.all b.contains && b.all a.contains

def reuse (previous : List ZoneRecord) (name : Name) (rtype : Rtype) (ttl : Ttl)
    (rdatas : List RecordData) (keyTags : List UInt16) (signedAt : Nat) :
    Option (List CarriedSignature) :=
  match previousRrset previous name rtype with
  | none => none
  | some (wasTtl, was) =>
    if wasTtl ≠ ttl ∨ was.length ≠ rdatas.length then none
    else if !sameSet was rdatas then none
    else
      let carried := previousSignatures previous name rtype
      if carried.isEmpty then none
      else if carried.any fun s => s.expiration.toNat ≤ signedAt then none
      else if !sameSet (carried.map CarriedSignature.keyTag) keyTags then none
      else some carried

def tagNaming (published : List RecordData) (key : SigningKey) : Option UInt16 :=
  match published.filter fun r => keyTagOfRdata r.rdata == key.keyTag with
  | [only] => if only.rdata = key.dnskeyRdata then some key.keyTag else none
  | _ => none

def tagsNaming (previous : List ZoneRecord) (origin : Name) (signers : List SigningKey) :
    Option (List UInt16) :=
  match previousRrset previous origin DNSKEY with
  | none => none
  | some (_, published) => signers.mapM (tagNaming published)

/-! ## The signatures -/

/-- Whether this RRset is one the zone is authoritative for, and so must sign. -/
def signable (entry : Option NameEntry) (name : Name) (rtype : Rtype) (origin : Name) : Bool :=
  if rtype = RRSIG then false
  else match entry with
    | none => true
    | some entry =>
      if entry.occluded then false
      else if rtype = NSEC3 then true
      else if entry.isDelegation && !name.same origin then
        -- authority ends at the cut: the DS and its NSEC are ours
        rtype = DS || rtype = NSEC
      else true

structure ZoneRrset where
  name : Name
  rtype : Rtype
  ttl : Ttl
  rdatas : List RecordData
deriving DecidableEq

def noteRrset (record : ZoneRecord) : Option ZoneRrset → ZoneRrset
  | none => ⟨record.name, record.rtype, record.ttl, [record.rdata]⟩
  | some rrset => { rrset with rdatas := rrset.rdatas ++ [record.rdata] }

def rrsetKey (record : ZoneRecord) : Octets ×ₗ Nat :=
  toLex (canonicalSortKey record.name, record.rtype.code.toNat)

def rrsetsOf (signed : List ZoneRecord) : SortedMap (Octets ×ₗ Nat) ZoneRrset :=
  SortedMap.collect rrsetKey noteRrset signed []

def activeSigningKeys (keys : List SigningKey) (now : Nat) : List SigningKey :=
  keys.filter (·.isActive now)

def dnskeySigners (keys : List SigningKey) (now : Nat) : List SigningKey :=
  let active := activeSigningKeys keys now
  let sep := active.filter SigningKey.isSep
  if sep.isEmpty then active else sep

def dataSigners (keys : List SigningKey) (now : Nat) : List SigningKey :=
  let active := activeSigningKeys keys now
  let rest := active.filter fun key => !key.isSep
  if rest.isEmpty then active else rest

/-- DNSKEY, CDS and CDNSKEY are signed by the keys the DS names (RFC 7344 §4.1). -/
def signersFor (keys : List SigningKey) (now : Nat) (rtype : Rtype) : List SigningKey :=
  if rtype = DNSKEY ∨ rtype = CDS ∨ rtype = CDNSKEY then
    dnskeySigners keys now
  else dataSigners keys now

def signatureBy (sign : Sign) (policy : SigningPolicy) (rrset : ZoneRrset) (key : SigningKey) :
    Except DnssecError ZoneRecord :=
  let expiration := policy.expiryFor rrset.name rrset.rtype
  match key.signRrset sign ⟨rrset.name, rrset.rtype, .IN, rrset.rdatas⟩ rrset.ttl.secs policy.inception
      expiration with
  | .error _ => .error (.key "signing an RRset")
  | .ok sig =>
    match RecordData.fromParsed (.rrsig sig.typeCovered sig.algorithm sig.labels sig.originalTtl
        sig.inception sig.expiration sig.keyTag sig.signerName sig.signature) with
    | .error _ => .error (.key "encoding an RRSIG")
    | .ok rdata => .ok ⟨rrset.name, rrset.ttl, .IN, rdata⟩

def carriedFor (previous : Option (List ZoneRecord)) (layout : Layout) (keys : List SigningKey)
    (policy : SigningPolicy) (rrset : ZoneRrset) : Option (List CarriedSignature) := do
  let previous ← previous
  let tags ← tagsNaming previous layout.origin (signersFor keys policy.signedAt rrset.rtype)
  reuse previous rrset.name rrset.rtype rrset.ttl rrset.rdatas tags policy.signedAt

def signaturesOver (sign : Sign) (layout : Layout) (keys : List SigningKey) (policy : SigningPolicy)
    (previous : Option (List ZoneRecord)) (key : Octets) (rrset : ZoneRrset) :
    Except DnssecError (List ZoneRecord × List (Name × Rtype)) :=
  if !signable (layout.at key) rrset.name rrset.rtype layout.origin then .ok ([], [])
  else if rrset.rtype = DNSKEY ∧ policy.dnskeySignature = .imported then .ok ([], [])
  else match carriedFor previous layout keys policy rrset with
    | some carried =>
      .ok (carried.map fun s => ⟨rrset.name, rrset.ttl, .IN, s.rdata⟩, [])
    | none => do
      let signatures ← (signersFor keys policy.signedAt rrset.rtype).mapM (signatureBy sign policy rrset)
      return (signatures, if previous.isSome then [(rrset.name, rrset.rtype)] else [])

def signEverything (sign : Sign) (layout : Layout) (keys : List SigningKey) (policy : SigningPolicy)
    (previous : Option (List ZoneRecord)) (signed : List ZoneRecord) :
    Except DnssecError (List ZoneRecord × List (Name × Rtype)) := do
  if (dataSigners keys policy.signedAt).isEmpty then throw (.signing "no key is active to sign with")
  let made ← (rrsetsOf signed).mapM fun entry =>
    signaturesOver sign layout keys policy previous (ofLex entry.1).1 entry.2
  return (signed ++ made.flatMap Prod.fst, made.flatMap Prod.snd)

/-! ## The run -/

/-- What a signing run computes with: hashes for NSEC3 owners and for DS digests, and the
private keys. -/
structure Crypto where
  sha1 : Octets → Nsec3Hash
  sha256 : Octets → Octets
  sign : Sign

def published (crypto : Crypto) (zone : Zone) (keys : List SigningKey) (policy : SigningPolicy) :
    Except DnssecError (List ZoneRecord × Ttl) := do
  let origin := zone.origin.toFolded
  let (carried, soaTtl, minimum) ← carryOverRecords zone origin policy
  let ttl := dnskeyTtl carried origin soaTtl
  let signed := publishDnskeys keys origin soaTtl policy.signedAt carried
  let signed ← publishSyncRecords crypto.sha256 keys origin ttl policy.signedAt signed
  let signed := publishNsec3param policy.chain origin ttl signed
  if policy.dnskeySignature = .imported ∧ hasDnskeyRrsig signed origin = false then
    throw (.signing "configured for an imported DNSKEY signature and the zone file carries none")
  return (signed, Ttl.negativeAnswer soaTtl minimum)

def denialChain (crypto : Crypto) (layout : Layout) (chain : DenialChain) (ttl : Ttl) :
    Except DnssecError (List ZoneRecord) :=
  match chain with
  | .nsec => nsecChain layout ttl
  | .nsec3 salt iterations optOut => nsec3Chain crypto.sha1 layout salt iterations optOut ttl

def unsigned (crypto : Crypto) (zone : Zone) (keys : List SigningKey) (policy : SigningPolicy) :
    Except DnssecError (Layout × List ZoneRecord) := do
  policy.chain.check
  let origin := zone.origin.toFolded
  checkKeys keys origin
  if policy.expiration ≤ policy.inception then
    throw (.signing "a signature cannot expire before it was made")
  let (signed, ttl) ← published crypto zone keys policy
  let layout := Layout.of signed origin
  let chain ← denialChain crypto layout policy.chain ttl
  return (layout, signed ++ chain)

def signRecords (crypto : Crypto) (zone : Zone) (keys : List SigningKey) (policy : SigningPolicy)
    (previous : Option (List ZoneRecord)) :
    Except DnssecError (List ZoneRecord × List (Name × Rtype)) := do
  let (layout, signed) ← unsigned crypto zone keys policy
  signEverything crypto.sign layout keys policy previous signed

def zoneOf (origin : Name) (records : List ZoneRecord) : Zone :=
  records.foldl Zone.add (Zone.new origin.toFolded)

def signZone (crypto : Crypto) (zone : Zone) (keys : List SigningKey) (policy : SigningPolicy) :
    Except DnssecError Zone := do
  let (records, _) ← signRecords crypto zone keys policy none
  return zoneOf zone.origin records

/-- Sign `zone`, carrying forward any signature from `previous` that still covers exactly
what it covered before. -/
def signZoneIncrementally (crypto : Crypto) (previous zone : Zone) (keys : List SigningKey)
    (policy : SigningPolicy) : Except DnssecError (Zone × List (Name × Rtype)) := do
  let (records, fresh) ← signRecords crypto zone keys policy (some previous.records)
  return (zoneOf zone.origin records, fresh)

end Rdns.Dnssec
