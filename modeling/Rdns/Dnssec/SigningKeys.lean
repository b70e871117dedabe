import Rdns.Dnssec.Denial

/-!
# Rdns — Signing keys

`rdns/src/dnssec_key.rs` and what it takes from `rdns/src/dnssec.rs`: when a key is
published and when it signs (RFC 6781 §4.1.1.1), its tag (RFC 4034 Appendix B), and the
octets a signature is made over (RFC 4034 §3.1.8.1, RFC 4035 §5.3.2).

The private half is a parameter: what a public key's owner makes of some octets.
-/

namespace Rdns.Dnssec

open Rdns.Lib Rdns.Core Rdns.Present RecordTypes

/-! ## Keys -/

inductive SigningAlgorithm where
  | ecdsaP256Sha256
  | ecdsaP384Sha384
  | ed25519
  | rsaSha256
  | rsaSha512
deriving DecidableEq

def SigningAlgorithm.code : SigningAlgorithm → UInt8
  | .rsaSha256 => 8
  | .rsaSha512 => 10
  | .ecdsaP256Sha256 => 13
  | .ecdsaP384Sha384 => 14
  | .ed25519 => 15

/-- When a key is published in the DNSKEY RRset, and when it signs; absent means no
boundary. -/
structure KeyTiming where
  publish : Option Nat
  activate : Option Nat
  inactive : Option Nat
  delete : Option Nat
  syncPublish : Option Nat
  syncDelete : Option Nat
deriving DecidableEq

namespace KeyTiming

def default : KeyTiming := ⟨none, none, none, none, none, none⟩

def isPublished (timing : KeyTiming) (now : Nat) : Bool :=
  timing.publish.all (now ≥ ·) && timing.delete.all (now < ·)

/-- Whether a CDS and CDNSKEY for this key belong in the zone at `now` (RFC 7344 §4.1). -/
def isSyncPublished (timing : KeyTiming) (now : Nat) : Bool :=
  timing.syncPublish.any (now ≥ ·) && timing.syncDelete.all (now < ·)

def isActive (timing : KeyTiming) (now : Nat) : Bool :=
  timing.isPublished now && timing.activate.all (now ≥ ·) && timing.inactive.all (now < ·)

def nextChange (timing : KeyTiming) (now : Nat) : Option Nat :=
  ([timing.publish, timing.activate, timing.inactive, timing.delete, timing.syncPublish,
    timing.syncDelete].filterMap id |>.filter (· > now)).min?

end KeyTiming

structure SigningKey where
  owner : Name
  flags : UInt16
  algorithm : SigningAlgorithm
  publicKey : Octets
  fileTiming : KeyTiming
  held : Bool
deriving DecidableEq

def DNSKEY_FLAG_SEP : UInt16 := 0x0001

/-- The key tag over DNSKEY RDATA (RFC 4034 Appendix B). -/
def keyTagOfRdata (rdata : Octets) : UInt16 :=
  let sum := (rdata.zipIdx.map fun (octet, i) =>
    if i % 2 = 0 then octet.toNat * 256 else octet.toNat).sum
  UInt16.ofNat (sum + sum / 65536 % 65536)

namespace SigningKey

def timing (key : SigningKey) : KeyTiming :=
  if key.held then { key.fileTiming with inactive := none, delete := none } else key.fileTiming

def isPublished (key : SigningKey) (now : Nat) : Bool := key.timing.isPublished now

def isActive (key : SigningKey) (now : Nat) : Bool := key.timing.isActive now

def isSep (key : SigningKey) : Bool := key.flags &&& DNSKEY_FLAG_SEP != 0

def dnskeyRdata (key : SigningKey) : Octets :=
  be16 key.flags ++ [3, key.algorithm.code] ++ key.publicKey

def keyTag (key : SigningKey) : UInt16 := keyTagOfRdata key.dnskeyRdata

end SigningKey

/-- The digest a DS record holds for a key (RFC 4034 §5.1.4), under SHA-256. -/
def dsDigest (sha256 : Octets → Octets) (key : SigningKey) : Octets :=
  sha256 (key.owner.toFolded.wire ++ key.dnskeyRdata)

/-! ## Canonical form -/

/-- The owner name a signature was computed over (RFC 4035 §5.3.2). -/
def signedOwnerName (owner : Name) (rrsigLabels : UInt8) : Except WireError Name :=
  let folded := owner.toFolded
  if rrsigLabels.toNat ≥ folded.labelCount then .ok folded
  else Name.prefixed STAR (folded.suffix rrsigLabels.toNat)

def rrsigLabelsOf (owner : Name) : UInt8 :=
  let counted := if owner.labels.head? = some STAR then owner.labelCount - 1 else owner.labelCount
  UInt8.ofNat (min counted 255)

/-- The types of RFC 4034 §6.2 that are parsed here. -/
def holdsNames (rtype : Rtype) : Bool :=
  rtype = NS || rtype = CNAME || rtype = PTR ||
    rtype = SOA || rtype = MX || rtype = RRSIG ||
    rtype = NSEC

def canonicalRdata (data : RecordData) : Except WireError Octets :=
  if !holdsNames data.rtype then .ok data.rdata
  else do
    let parsed ← data.parse
    match parsed with
    | .ns .. | .cname .. | .ptr .. | .mx .. | .soa .. | .rrsig .. | .nsec .. =>
      return (← RecordData.fromParsed parsed.folded).rdata
    | _ => return data.rdata

/-! ## Signing an RRset -/

structure Rrset where
  owner : Name
  rtype : Rtype
  cls : Core.Class
  rdatas : List RecordData
deriving DecidableEq

structure Rrsig where
  owner : Name
  typeCovered : Rtype
  algorithm : UInt8
  labels : UInt8
  originalTtl : UInt32
  inception : UInt32
  expiration : UInt32
  keyTag : UInt16
  signerName : Name
  signature : Octets
deriving DecidableEq

def signedRecord (rrsig : Rrsig) (ownerWire : Octets) (cls : Core.Class) (rdata : Octets) :
    Except DnssecError Octets :=
  if rdata.length > 65535 then .error (.wire (.tooLong "RDATA" 65535 rdata.length))
  else .ok (ownerWire ++ be16 rrsig.typeCovered.code ++ be16 cls.code ++ be32 rrsig.originalTtl
    ++ be16 (UInt16.ofNat rdata.length) ++ rdata)

def canonicalRdatas (rdatas : List RecordData) : Except WireError (List Octets) := do
  let canonical ← rdatas.mapM canonicalRdata
  return (canonical.mergeSort fun a b => a ≤ b).eraseReps

def signedData (rrsig : Rrsig) (rrset : Rrset) : Except DnssecError Octets :=
  if rrset.rdatas.isEmpty then .error (.signing "cannot build signed data for an empty RRset")
  else do
    let head := be16 rrsig.typeCovered.code ++ [rrsig.algorithm, rrsig.labels]
      ++ be32 rrsig.originalTtl ++ be32 rrsig.expiration ++ be32 rrsig.inception
      ++ be16 rrsig.keyTag ++ rrsig.signerName.toFolded.wire
    let signedAt ← (signedOwnerName rrset.owner rrsig.labels).mapError DnssecError.wire
    let canonical ← (canonicalRdatas rrset.rdatas).mapError DnssecError.wire
    let records ← canonical.mapM (signedRecord rrsig signedAt.wire rrset.cls)
    return head ++ records.flatten

abbrev Sign := SigningAlgorithm → Octets → Octets → Except DnssecError Octets

def SigningKey.unsignedRrsig (key : SigningKey) (rrset : Rrset) (originalTtl inception expiration : UInt32) :
    Rrsig where
  owner := rrset.owner.toFolded
  typeCovered := rrset.rtype
  algorithm := key.algorithm.code
  labels := rrsigLabelsOf rrset.owner
  originalTtl
  inception
  expiration
  keyTag := key.keyTag
  signerName := key.owner
  signature := []

def SigningKey.signRrset (sign : Sign) (key : SigningKey) (rrset : Rrset)
    (originalTtl inception expiration : UInt32) : Except DnssecError Rrsig := do
  let rrsig := key.unsignedRrsig rrset originalTtl inception expiration
  let data ← (signedData rrsig rrset).mapError fun _ => DnssecError.key "building the bytes to sign"
  let signature ← sign key.algorithm key.publicKey data
  return { rrsig with signature }

end Rdns.Dnssec
