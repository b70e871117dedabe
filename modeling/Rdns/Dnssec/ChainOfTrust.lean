import Rdns.Dnssec.Verification
import Rdns.Lib.Entries

/-!
# Rdns — The chain of trust

`rdns/src/dnssec_chain.rs`: the trust anchors, what a referral says of its child, and the walk
from an anchor, or from a zone whose keys are already validated, down to one target zone. The
walk does no I/O: it says what it needs, and is fed it.

Insecure means the chain ends by right, a zone proved that it has no DS; Bogus means it was to
go on and did not.
-/

namespace Rdns.Dnssec

open Rdns.Lib Rdns.Core Rdns.Present RecordTypes

/-! ## Trust anchors -/

abbrev TrustAnchors := List Ds

namespace TrustAnchors

def forZone (anchors : TrustAnchors) (zone : Name) : List Ds := anchors.filter fun ds => ds.owner.same zone

def deepestEnclosing (anchors : TrustAnchors) (name : Name) : Option Name :=
  ((anchors.filter fun ds => name.isAtOrUnder ds.owner).reverse.maxOn? fun ds => ds.owner.labelCount).map
    Ds.owner

end TrustAnchors

/-! ## What a referral said -/

structure DelegationEvidence where
  zone : Name
  ds : List Ds
  rrsigs : List Rrsig
  nsecs : List Nsec
  nsec3s : List Nsec3
  cls : Core.Class
deriving DecidableEq

def DelegationEvidence.fromAuthority (zone : Name) (authorities : List ResourceRecord) :
    DelegationEvidence :=
  let relevant := authorities.filter fun rr => rr.name.same zone
  { zone
    ds := relevant.filterMap Ds.fromRecord
    rrsigs := rrsigsIn authorities
    nsecs := nsecsIn authorities
    nsec3s := nsec3sIn authorities
    cls := match relevant.head? with
      | some rr => rr.cls
      | none => .IN }

inductive DelegationVerdict where
  | secure (ds : List Ds)
  | insecure (why : String)
  | bogus (reason : Bogus)
deriving DecidableEq

abbrev KeyStore := Entries Name (List Dnskey)

def dnskeysAt (zone : Name) (records : List ResourceRecord) : List Dnskey :=
  (dnskeysIn records).filter fun key => key.owner.same zone

def dnskeyRrset (zone : Name) (records : List ResourceRecord) : Rrset where
  owner := zone
  rtype := DNSKEY
  cls := match records.head? with
    | some rr => rr.cls
    | none => .IN
  rdatas := (records.filter fun rr => rr.rdata.rtype == DNSKEY && rr.name.same zone).map
    ResourceRecord.rdata

def dsRrset (evidence : DelegationEvidence) : Rrset where
  owner := evidence.zone
  rtype := DS
  cls := evidence.cls
  rdatas := evidence.ds.filterMap fun ds =>
    (RecordData.fromParsed (.ds .ds ds.keyTag ds.algorithm ds.digestType ds.digest)).toOption

def pushRrset (cls : Core.Class) (sets : List Rrset) (owner : Name) (rtype : Rtype) (rdata : RecordData) :
    List Rrset :=
  if sets.any fun set => set.owner.same owner && set.rtype == rtype then
    updateFirst (fun set => set.owner.same owner && set.rtype == rtype)
      (fun set => { set with rdatas := set.rdatas ++ [rdata] }) sets
  else sets ++ [⟨owner.toFolded, rtype, cls, [rdata]⟩]

def denialRrsets (evidence : DelegationEvidence) : List Rrset :=
  let nsecs := evidence.nsecs.foldl (fun sets nsec =>
    match RecordData.fromParsed (.nsec nsec.next nsec.typeBitmap) with
    | .error _ => sets
    | .ok rdata => pushRrset evidence.cls sets nsec.owner NSEC rdata) []
  evidence.nsec3s.foldl (fun sets nsec3 =>
    match RecordData.fromParsed (.nsec3 nsec3.hashAlgorithm nsec3.flags nsec3.iterations nsec3.salt
        nsec3.nextHashedOwner.octets nsec3.typeBitmap) with
    | .error _ => sets
    | .ok rdata => pushRrset evidence.cls sets nsec3.owner NSEC3 rdata) nsecs

/-! ## Checking one step -/

structure Primitives where
  verify : Verify
  digests : DsDigests
  sha1 : Octets → Nsec3Hash

structure ChainValidator where
  anchors : TrustAnchors
  now : Nat

namespace ChainValidator

variable (crypto : Primitives) (validator : ChainValidator)

def start (name : Name) : Option (Name × List Ds) :=
  (validator.anchors.deepestEnclosing name).map fun zone => (zone, validator.anchors.forZone zone)

def readable (ds : Ds) : Bool := algorithmSupported ds.algorithm && digestTypeSupported ds.digestType

def vouched (dsSet : List Ds) (keys : List Dnskey) : List Dnskey :=
  (dsSet.filter readable).flatMap fun ds =>
    keys.filter fun key => key.isZoneKey && ds.matchesKey crypto.digests key

def validateDnskeys (zone : Name) (records : List ResourceRecord) (dsSet : List Ds) :
    Except ValidationState (List Dnskey) :=
  let keys := dnskeysAt zone records
  if keys.isEmpty then .error (.bogus ⟨.DNSKEY_MISSING, "a DS in the parent but no DNSKEY"⟩)
  else if !dsSet.any readable then .error .insecure
  else
    let vouched := vouched crypto dsSet keys
    if vouched.isEmpty then .error (.bogus ⟨.DNSKEY_MISSING, "no DNSKEY matches any DS"⟩)
    else match verifyRrset crypto.verify (dnskeyRrset zone records) (rrsigsIn records) vouched zone
        validator.now with
      | .verified _ _ => .ok keys
      | .unsigned => .error (.bogus ⟨.RRSIGS_MISSING, "the DNSKEY RRset is unsigned"⟩)
      | .unsupported _ => .error .insecure
      | .bogus reason => .error (.bogus ⟨reason.code, "the DNSKEY RRset did not verify"⟩)

def verifyDenialRecords (evidence : DelegationEvidence) (parentZone : Name) (parentKeys : List Dnskey) :
    Except ValidationState Unit := do
  let sets := denialRrsets evidence
  for set in sets do
    match verifyRrset crypto.verify set evidence.rrsigs parentKeys parentZone validator.now with
    | .verified _ _ => pure ()
    | .unsupported _ => throw .insecure
    | .unsigned => throw (.bogus ⟨.RRSIGS_MISSING, "the denial of a DS is unsigned"⟩)
    | .bogus reason => throw (.bogus ⟨reason.code, "the denial of a DS did not verify"⟩)
  -- a proof nobody signed proves nothing
  if sets.isEmpty then throw (.bogus ⟨.NSEC_MISSING, "nothing signed denies a DS"⟩)

def validateDelegation (evidence : DelegationEvidence) (parentZone : Name) (parentKeys : List Dnskey) :
    DelegationVerdict :=
  if evidence.ds.isEmpty then
    -- no DS: the parent must prove it
    match provesNoDs crypto.sha1 evidence.zone evidence.nsecs evidence.nsec3s with
    | .notProved _ => .bogus ⟨.NSEC_MISSING, "no DS and the parent did not prove it"⟩
    | .proved =>
      match validator.verifyDenialRecords crypto evidence parentZone parentKeys with
      | .ok () => .insecure "provably unsigned"
      | .error .insecure => .insecure "could not be judged"
      | .error (.bogus reason) => .bogus reason
      | .error _ => .bogus ⟨.DNSSEC_BOGUS, "no code to name"⟩
  else match verifyRrset crypto.verify (dsRrset evidence) evidence.rrsigs parentKeys parentZone
      validator.now with
    | .verified _ _ => .secure evidence.ds
    | .unsigned => .bogus ⟨.RRSIGS_MISSING, "the DS is unsigned, inside the signed zone"⟩
    | .unsupported why => .insecure why
    | .bogus reason => .bogus ⟨reason.code, "the DS did not verify"⟩

end ChainValidator

/-! ## The walk -/

inductive ChainNeed where
  | keys (zone : Name)
  | cutBelow (zone : Name)
  | done (state : ValidationState)
deriving DecidableEq

structure ChainWalk where
  validator : ChainValidator
  target : Name
  zone : Name
  dsSet : List Ds
  stepsLeft : Nat
  established : KeyStore

/-- A zone whose keys were already validated, and the keys as they were read. -/
structure TrustedStart where
  zone : Name
  keys : List Dnskey

namespace ChainWalk

def takeStep (walk : ChainWalk) : Option ChainNeed × ChainWalk :=
  match walk.stepsLeft with
  | 0 => (some (.done (.bogus ⟨.DNSSEC_BOGUS, "the chain of trust does not terminate"⟩)), walk)
  | left + 1 => (none, { walk with stepsLeft := left })

def needKeys (walk : ChainWalk) : ChainWalk × ChainNeed :=
  match walk.takeStep with
  | (some done, walk) => (walk, done)
  | (none, walk) => (walk, .keys walk.zone)

def establish (walk : ChainWalk) (keys : List Dnskey) : ChainWalk × ChainNeed :=
  ({ walk with established := walk.established.insert walk.zone.toFolded keys },
    if walk.zone.same walk.target then .done .secure else .cutBelow walk.zone)

def start (anchors : TrustAnchors) (now : Nat) (target : Name) (trusted : List TrustedStart) :
    ChainWalk × ChainNeed :=
  let validator : ChainValidator := ⟨anchors, now⟩
  -- a chain is at most one cut a label, and the anchor
  let walk : ChainWalk := ⟨validator, target, Name.root, [], target.labelCount + 2, []⟩
  match validator.start target with
  | none => (walk, .done (.indeterminate "no trust anchor covers the target"))
  | some (anchorZone, anchorDs) =>
    match (trusted.filter fun start =>
        target.isAtOrUnder start.zone && start.zone.isAtOrUnder anchorZone).reverse.maxOn?
          fun start => start.zone.labelCount with
    | some resume =>
      match ({ walk with zone := resume.zone }).takeStep with
      | (some done, walk) => (walk, done)
      | (none, walk) => walk.establish resume.keys
    | none => ({ walk with zone := anchorZone, dsSet := anchorDs }).needKeys

def heldKeys (walk : ChainWalk) (keys : List Dnskey) : ChainWalk × ChainNeed := walk.establish keys

section

variable (crypto : Primitives)

def fetchedKeys (walk : ChainWalk) (records : List ResourceRecord) :
    Option (List Dnskey) × ChainWalk × ChainNeed :=
  match walk.validator.validateDnskeys crypto walk.zone records walk.dsSet with
  | .ok validated => (some validated, walk.establish validated)
  | .error state => (none, walk, .done state)

def fetchFailed (walk : ChainWalk) : ChainWalk × ChainNeed :=
  (walk, .done (.bogus ⟨.DNSKEY_MISSING, "could not fetch the DNSKEY RRset"⟩))

def cut (walk : ChainWalk) (evidence : Option DelegationEvidence) : ChainWalk × ChainNeed :=
  match evidence with
  | none => (walk, .done .secure)
  | some evidence =>
    let keys := (walk.established.get walk.zone.toFolded).getD []
    match walk.validator.validateDelegation crypto evidence walk.zone keys with
    | .secure ds => ({ walk with dsSet := ds, zone := evidence.zone }).needKeys
    | .insecure _ => (walk, .done .insecure)
    | .bogus reason => (walk, .done (.bogus reason))

end

def intoKeys (walk : ChainWalk) : KeyStore := walk.established

end ChainWalk

end Rdns.Dnssec
