import Rdns.Dnssec.ChainOfTrust

/-!
# Rdns — Checking a response

The rest of `rdns/src/dnssec_chain.rs`: every RRset of a response against the keys of the zone
that signed it, the proofs that wildcard expansions owe, and whether an answer section is the
CNAME chain that was asked for.
-/

namespace Rdns.Dnssec

open Rdns.Lib Rdns.Core Rdns.Present RecordTypes

/-! ## RRsets -/

def isValidated (rr : ResourceRecord) : Bool :=
  !(rr.rdata.rtype == RRSIG || rr.rdata.rtype == OPT)

def Rrset.holds (set : Rrset) (rr : ResourceRecord) : Bool :=
  set.owner.same rr.name.toFolded && set.rtype == rr.rdata.rtype && set.cls == rr.cls

def pushRecord (sets : List Rrset) (rr : ResourceRecord) : List Rrset :=
  if sets.any (·.holds rr) then
    updateFirst (·.holds rr) (fun set => { set with rdatas := set.rdatas ++ [rr.rdata] }) sets
  else sets ++ [⟨rr.name.toFolded, rr.rdata.rtype, rr.cls, [rr.rdata]⟩]

def groupRrsets (records : List ResourceRecord) : List Rrset := (records.filter isValidated).foldl pushRecord []

/-! ## Signatures -/

structure WildcardExpansion where
  owner : Name
  wildcard : Name
  /-- The zone that signed them, the only one whose denial of `owner` counts. -/
  signer : Name
deriving DecidableEq

/-- What validating a set of records established. -/
structure RecordsVerdict where
  state : ValidationState
  wildcards : List WildcardExpansion
deriving DecidableEq

def RecordsVerdict.of (state : ValidationState) : RecordsVerdict := ⟨state, []⟩

namespace ChainValidator

variable (crypto : Primitives) (validator : ChainValidator)

def validateRrset (rrsigs : List Rrsig) (keys : KeyStore) (set : Rrset) :
    Except ValidationState (Option WildcardExpansion) :=
  match rrsigs.find? fun s => s.owner.same set.owner && s.typeCovered == set.rtype with
  | none => .error (.bogus ⟨.RRSIGS_MISSING, "came back unsigned from a signed zone"⟩)
  | some rrsig =>
    let signer := rrsig.signerName
    -- a zone may only sign at or below itself
    if !set.owner.isAtOrUnder signer then
      .error (.bogus ⟨.DNSSEC_BOGUS, "is signed by a zone that is not above it"⟩)
    else match keys.get signer.toFolded with
      | none => .error (.bogus ⟨.DNSSEC_BOGUS, "is signed by a zone whose keys were never established"⟩)
      | some zoneKeys =>
        match verifyRrset crypto.verify set rrsigs zoneKeys signer validator.now with
        | .verified wildcard _ => .ok (wildcard.map fun wildcard => ⟨set.owner, wildcard, signer⟩)
        | .unsigned => .error (.bogus ⟨.RRSIGS_MISSING, "is unsigned"⟩)
        | .unsupported _ => .error .insecure
        | .bogus reason => .error (.bogus reason)

def validateRrsets (rrsigs : List Rrsig) (keys : KeyStore) :
    List Rrset → Except ValidationState (List WildcardExpansion)
  | [] => .ok []
  | set :: rest => do
    let expansion ← validator.validateRrset crypto rrsigs keys set
    let expansions ← validateRrsets rrsigs keys rest
    return expansion.toList ++ expansions

def validateRecords (records : List ResourceRecord) (keys : KeyStore) : RecordsVerdict :=
  let sets := groupRrsets records
  match validator.validateRrsets crypto (rrsigsIn records) keys sets with
  | .error state => .of state
  -- nothing to check is an empty answer: the caller decides whether a denial is owed
  | .ok expansions => ⟨if sets.isEmpty then .insecure else .secure, expansions⟩

def denialRrset (rr : ResourceRecord) : Rrset := ⟨rr.name, rr.rdata.rtype, rr.cls, [rr.rdata]⟩

def verifiedDenials (records : List ResourceRecord) (zone : Name) (keys : List Dnskey) :
    List Nsec × List Nsec3 :=
  let verified := records.filter fun rr =>
    (rr.rdata.rtype == NSEC || rr.rdata.rtype == NSEC3) &&
      match verifyRrset crypto.verify (denialRrset rr) (rrsigsIn records) keys zone validator.now with
      | .verified _ _ => true
      | _ => false
  (nsecsIn verified, nsec3sIn verified)

def validateWildcardProofs (proofs : List ResourceRecord) (keys : KeyStore) :
    List WildcardExpansion → ValidationState
  | [] => .secure
  | expansion :: rest =>
    match keys.get expansion.signer.toFolded with
    | none => .bogus ⟨.DNSSEC_BOGUS, "expanded by a zone whose keys were never established"⟩
    | some zoneKeys =>
      let denials := validator.verifiedDenials crypto proofs expansion.signer zoneKeys
      match provesWildcardExpansion crypto.sha1 expansion.owner expansion.wildcard denials.1 denials.2 with
      | .proved => validateWildcardProofs proofs keys rest
      -- not a proof, but not an accusation either
      | .unjudgeable _ => .insecure
      | .notProved _ =>
        .bogus ⟨.NSEC_MISSING, "answered from a wildcard without proof that it has no records of its own"⟩

end ChainValidator

/-! ## The shape of an answer -/

inductive ChainShape where
  | intact (finalName : Name)
  | broken (why : String)
deriving DecidableEq

def MAX_CNAME_CHAIN : Nat := 16

def cnameLinks : List ResourceRecord → List (Name × Name) → Except String (List (Name × Name))
  | [], links => .ok links
  | rr :: rest, links =>
    if rr.rdata.rtype ≠ CNAME then cnameLinks rest links
    else match rr.rdata.parse with
      | .ok (.cname target) =>
        if links.any (·.1.same rr.name) then .error "more than one CNAME, which cannot be a chain"
        else cnameLinks rest (links ++ [(rr.name, target)])
      | _ => .error "a CNAME does not parse"

def followLinks (links : List (Name × Name)) : Nat → Name → List Name → Except String (Name × List Name)
  | more, current, followed =>
    match links.find? (·.1.same current) with
    | none => .ok (current, followed)
    | some link =>
      match more with
      | 0 => .error "the chain is longer than MAX_CNAME_CHAIN links"
      | more + 1 =>
        if followed.any (·.same current) then .error "the chain loops"
        else followLinks links more link.2 (followed ++ [current])

def onThePath (following : Bool) (current : Name) (followed : List Name) (rr : ResourceRecord) : Bool :=
  if rr.rdata.rtype == RRSIG then true
  else if rr.rdata.rtype == CNAME then
    followed.any (·.same rr.name) || (!following && rr.name.same current)
  else rr.name.same current

def cnameChainShape (qname : Name) (qtype : Qtype) (answers : List ResourceRecord) : ChainShape :=
  -- a query for a CNAME is answered by the CNAME
  let following := !qtype.is CNAME
  let walked := do
    let links ← cnameLinks answers []
    if following then followLinks links MAX_CNAME_CHAIN qname [] else .ok (qname, [])
  match walked with
  | .error why => .broken why
  | .ok (current, followed) =>
    if answers.all (onThePath following current followed) then .intact current
    else .broken "a record is in the answer but not on the path"

end Rdns.Dnssec
