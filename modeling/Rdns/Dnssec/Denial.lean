import Rdns.Core.Message
import Rdns.Present.DenialWire

/-!
# Rdns — Denial of existence

`rdns/src/dnssec_denial.rs`: what NSEC and NSEC3 records prove. A record speaks for the
gap between two names that exist, in canonical order (RFC 4034 §6.1), or between two
hashes (RFC 5155 §5).

SHA-1 is a parameter; everything around it, the salting, the iterations and their cap, is
here.
-/

namespace Rdns.Dnssec

open Rdns.Lib Rdns.Core Rdns.Present RecordTypes

inductive DnssecError where
  | bogus (detail : String)
  | unsupportedAlgorithm (what : String) (algorithm : UInt8)
  | key (detail : String)
  | signing (detail : String)
  | parse (detail : String)
  | wire (source : WireError)
deriving DecidableEq

/-- The most NSEC3 iterations we will compute before refusing (RFC 9276). -/
def MAX_NSEC3_ITERATIONS : UInt16 := 150

def base32hexLower (octets : Octets) : Octets := foldCase (toBytes (base32hexEncode octets))

def nsec3OwnerNameAt (hash : Nsec3Hash) (origin : Name) : Except WireError Name :=
  Name.prefixed (base32hexLower hash.octets) origin

section Hash

variable (sha1 : Octets → Nsec3Hash)

/-- `IH(salt, x, k)` of RFC 5155 §5, from the digest of round zero. -/
def iteratedHash (salt : Octets) (digest : Nsec3Hash) : Nat → Nsec3Hash
  | 0 => digest
  | rounds + 1 => iteratedHash salt (sha1 (digest.octets ++ salt)) rounds

def hashWire (wire salt : Octets) (iterations : UInt16) : Except DnssecError Nsec3Hash :=
  if iterations > MAX_NSEC3_ITERATIONS then .error (.parse "NSEC3 iteration count exceeds the cap")
  else .ok (iteratedHash sha1 salt (sha1 (foldCase wire ++ salt)) iterations.toNat)

/-- The NSEC3 hash of `name` (RFC 5155 §5). -/
def nsec3HashName (name : Name) (salt : Octets) (iterations : UInt16) :
    Except DnssecError Nsec3Hash :=
  hashWire sha1 name.wire salt iterations

end Hash

/-! ## NSEC records -/

structure Nsec where
  owner : Name
  next : Name
  typeBitmap : Octets
deriving DecidableEq

namespace Nsec

def fromRecord (rr : ResourceRecord) : Option Nsec :=
  if rr.rdata.rtype ≠ NSEC then none
  else match rr.rdata.parse with
    | .ok (.nsec next typeBitmap) => some ⟨rr.name.toFolded, next.toFolded, typeBitmap⟩
    | _ => none

def «matches» (nsec : Nsec) (name : Name) : Bool := nsec.owner.same name

/-- Whether `name` falls strictly inside the gap this NSEC describes; a `next` at or below
`owner` means that the range wraps. -/
def covers (nsec : Nsec) (name : Name) : Bool :=
  let afterOwner := canonicalNameCmp name nsec.owner == .gt
  let beforeNext := canonicalNameCmp name nsec.next == .lt
  if canonicalNameCmp nsec.next nsec.owner == .gt then afterOwner && beforeNext
  else afterOwner || beforeNext

def hasType (nsec : Nsec) (rtype : Rtype) : Bool := bitmapHasType nsec.typeBitmap rtype

end Nsec

def nsecsIn (records : List ResourceRecord) : List Nsec := records.filterMap Nsec.fromRecord

/-! ## NSEC3 records -/

def SHA1_HASH_ALGORITHM : UInt8 := 1

/-- The three fields an NSEC3 hash is a function of. -/
structure Nsec3Params where
  hashAlgorithm : UInt8
  iterations : UInt16
  salt : Octets
deriving DecidableEq

def Nsec3Params.hash (sha1 : Octets → Nsec3Hash) (params : Nsec3Params) (name : Name) :
    Except DnssecError Nsec3Hash :=
  if params.hashAlgorithm ≠ SHA1_HASH_ALGORITHM then
    .error (.parse "unsupported NSEC3 hash algorithm")
  else nsec3HashName sha1 name params.salt params.iterations

/-- An NSEC3 record, with its owner hash decoded out of the first label. -/
structure Nsec3 where
  owner : Name
  ownerHash : Nsec3Hash
  zone : Name
  hashAlgorithm : UInt8
  flags : UInt8
  iterations : UInt16
  salt : Octets
  nextHashedOwner : Nsec3Hash
  typeBitmap : Octets
deriving DecidableEq

namespace Nsec3

def fromRecord (rr : ResourceRecord) : Option Nsec3 := do
  if rr.rdata.rtype ≠ NSEC3 then none
  let owner := rr.name.toFolded
  let first ← owner.labels.head?
  let zone ← owner.parent
  let decoded ← (base32hexDecode first).toOption
  let ownerHash ← Nsec3Hash.fromWire decoded
  match rr.rdata.parse with
  | .ok (.nsec3 hashAlgorithm flags iterations salt next typeBitmap) =>
    if hashAlgorithm = SHA1_HASH_ALGORITHM then do
      let nextHashedOwner ← Nsec3Hash.fromWire next
      return ⟨owner, ownerHash, zone, hashAlgorithm, flags, iterations, salt, nextHashedOwner,
        typeBitmap⟩
    else none
  | _ => none

/-- The Opt-Out flag (RFC 5155 §6): the span may hold unsigned delegations it says nothing
about. -/
def optOut (nsec3 : Nsec3) : Bool := nsec3.flags &&& 1 != 0

def params (nsec3 : Nsec3) : Nsec3Params := ⟨nsec3.hashAlgorithm, nsec3.iterations, nsec3.salt⟩

def matchesHash (nsec3 : Nsec3) (hash : Nsec3Hash) : Bool := hash == nsec3.ownerHash

def coversHash (nsec3 : Nsec3) (hash : Nsec3Hash) : Bool :=
  let after := decide (nsec3.ownerHash.octets < hash.octets)
  let before := decide (hash.octets < nsec3.nextHashedOwner.octets)
  if nsec3.ownerHash.octets < nsec3.nextHashedOwner.octets then after && before
  else after || before

def hasType (nsec3 : Nsec3) (rtype : Rtype) : Bool := bitmapHasType nsec3.typeBitmap rtype

variable (sha1 : Octets → Nsec3Hash)

def «matches» (nsec3 : Nsec3) (name : Name) : Except DnssecError Bool := do
  return nsec3.matchesHash (← nsec3.params.hash sha1 name)

def covers (nsec3 : Nsec3) (name : Name) : Except DnssecError Bool := do
  return nsec3.coversHash (← nsec3.params.hash sha1 name)

end Nsec3

def nsec3sIn (records : List ResourceRecord) : List Nsec3 := records.filterMap Nsec3.fromRecord

def orFalse (result : Except DnssecError Bool) : Bool :=
  match result with
  | .ok answer => answer
  | .error _ => false

section Hashed

variable (sha1 : Octets → Nsec3Hash)

def matchedBy (name : Name) (nsec3s : List Nsec3) : Bool :=
  nsec3s.any fun nsec3 => orFalse (nsec3.matches sha1 name)

def coveredBy (name : Name) (nsec3s : List Nsec3) : Bool :=
  nsec3s.any fun nsec3 => orFalse (nsec3.covers sha1 name)

def unusable (name : Name) (nsec3s : List Nsec3) : Option DnssecError :=
  nsec3s.findSome? fun nsec3 =>
    match nsec3.matches sha1 name with
    | .ok _ => none
    | .error e => some e

end Hashed

/-! ## Proofs -/

/-- The outcome of asking a set of records to prove something; the text is for the log. -/
inductive Denial where
  | proved
  | notProved (why : String)
deriving DecidableEq

def commonSuffix (a b : Name) : Name :=
  a.suffix (((canonicalLabels a).zip (canonicalLabels b)).takeWhile fun pair => pair.1 == pair.2).length

def closestEncloserNsec (qname : Name) (covering : Nsec) : Name :=
  let fromOwner := commonSuffix qname covering.owner
  let fromNext := commonSuffix qname covering.next
  if fromOwner.labelCount ≥ fromNext.labelCount then fromOwner else fromNext

def STAR : Octets := [42]

def nodataBitmap (qtype : Rtype) (hasType : Rtype → Bool) : Denial :=
  if hasType qtype then .notProved "the denial says the type exists"
  else if hasType CNAME then .notProved "there is a CNAME, which is not NODATA"
  else .proved

def nsecWildcardNodata (qname : Name) (qtype : Rtype) (nsecs : List Nsec) : Denial :=
  match nsecs.find? (·.covers qname) with
  | none => .notProved "no NSEC matches or covers the name"
  | some covering =>
    match Name.prefixed STAR (closestEncloserNsec qname covering) with
    | .error _ => .notProved "the encloser is too long to carry a wildcard label"
    | .ok wildcard =>
      match nsecs.find? (·.matches wildcard) with
      | none => .notProved "no NSEC at the wildcard says what it would have answered"
      | some found => nodataBitmap qtype found.hasType

inductive WildcardVerdict where
  | proved
  | unjudgeable (why : String)
  | notProved (why : String)
deriving DecidableEq

def wildcardEncloser (wildcard : Name) : Option Name :=
  if wildcard.labels.head? = some STAR then wildcard.parent else none

section Proofs

variable (sha1 : Octets → Nsec3Hash)

/-- Whether these records prove that `zone` has no DS (RFC 4035 §5.2, RFC 5155 §8.9). -/
def provesNoDs (zone : Name) (nsecs : List Nsec) (nsec3s : List Nsec3) : Denial :=
  match nsecs.find? (·.matches zone) with
  | some nsec =>
    if nsec.hasType DS then .notProved "the NSEC says a DS does exist"
    else if !nsec.hasType NS then .notProved "the NSEC is not at a delegation"
    else if nsec.hasType SOA then .notProved "the NSEC is the zone apex"
    else .proved
  | none =>
    match nsec3s.find? fun nsec3 => orFalse (nsec3.matches sha1 zone) with
    | some nsec3 =>
      if nsec3.hasType DS then .notProved "the NSEC3 says a DS does exist"
      else if !nsec3.hasType NS then .notProved "the NSEC3 is not at a delegation"
      else .proved
    | none =>
      -- one covering with Opt-Out allows insecure delegations, which is the claim needed
      if nsec3s.any fun nsec3 => nsec3.optOut && orFalse (nsec3.covers sha1 zone) then .proved
      else match unusable sha1 zone nsec3s with
        | some _ => .notProved "NSEC3 unusable"
        | none => .notProved "no NSEC or NSEC3 record covers the DS"

/-- RFC 5155 §8.3's walk, from `candidate` at `depth` labels up to the zone. -/
def encloserWalk (nsec3s : List Nsec3) (qlabels zlabels : Nat) (depth : Nat) (candidate : Name)
    (below : Option Name) : Except String Name :=
  if matchedBy sha1 candidate nsec3s then
    if depth = qlabels then .error "an NSEC3 matches the name, so it exists"
    else match below with
      | none => .error "below the top of the walk, one was visited"
      | some nextCloser =>
        if !coveredBy sha1 nextCloser nsec3s then .error "no NSEC3 covers the next closer name"
        else .ok candidate
  else if depth = zlabels then .error "no NSEC3 matches any ancestor"
  else match depth, candidate.parent with
    | depth + 1, some up => encloserWalk nsec3s qlabels zlabels depth up (some candidate)
    | _, _ => .error "no NSEC3 matches any ancestor"

def nsec3ClosestEncloser (qname zone : Name) (nsec3s : List Nsec3) : Except String Name :=
  encloserWalk sha1 nsec3s qname.labelCount zone.labelCount qname.labelCount qname none

/-- The RFC 5155 §8.4 closest-encloser proof. -/
def nsec3ClosestEncloserProof (qname zone : Name) (nsec3s : List Nsec3) : Denial :=
  match nsec3ClosestEncloser sha1 qname zone nsec3s with
  | .error why => .notProved why
  | .ok encloser =>
    match Name.prefixed STAR encloser with
    | .error _ => .notProved "the encloser is too long to carry a wildcard label"
    | .ok wildcard =>
      if coveredBy sha1 wildcard nsec3s || matchedBy sha1 wildcard nsec3s then .proved
      else .notProved "no NSEC3 accounts for the wildcard"

def provesNxdomain (qname zone : Name) (nsecs : List Nsec) (nsec3s : List Nsec3) : Denial :=
  if !nsecs.isEmpty then
    match nsecs.find? (·.covers qname) with
    | none => .notProved "no NSEC covers the name"
    | some covering =>
      match Name.prefixed STAR (closestEncloserNsec qname covering) with
      | .error _ => .notProved "the encloser is too long to carry a wildcard label"
      | .ok wildcard =>
        if nsecs.any (·.covers wildcard) then .proved
        else .notProved "no NSEC covers the wildcard that could have answered"
  else if !nsec3s.isEmpty then nsec3ClosestEncloserProof sha1 qname zone nsec3s
  else .notProved "nothing was offered"

/-- Wildcard NODATA with NSEC3 (RFC 5155 §8.7). -/
def nsec3WildcardNodata (qname zone : Name) (qtype : Rtype) (nsec3s : List Nsec3) : Denial :=
  match nsec3ClosestEncloser sha1 qname zone nsec3s with
  | .error why => .notProved why
  | .ok encloser =>
    match Name.prefixed STAR encloser with
    | .error _ => .notProved "the encloser is too long to carry a wildcard label"
    | .ok wildcard =>
      match nsec3s.find? fun nsec3 => orFalse (nsec3.matches sha1 wildcard) with
      | none => .notProved "no NSEC3 matches the wildcard"
      | some found => nodataBitmap qtype found.hasType

def provesNodata (qname zone : Name) (qtype : Rtype) (nsecs : List Nsec) (nsec3s : List Nsec3) :
    Denial :=
  match nsecs.find? (·.matches qname) with
  | some nsec => nodataBitmap qtype nsec.hasType
  | none =>
    match nsec3s.find? fun nsec3 => orFalse (nsec3.matches sha1 qname) with
    | some nsec3 => nodataBitmap qtype nsec3.hasType
    | none =>
      -- nothing is at the name, so a wildcard is taken to be what answered
      if !nsecs.isEmpty then nsecWildcardNodata qname qtype nsecs
      else if !nsec3s.isEmpty then
        match nsec3WildcardNodata sha1 qname zone qtype nsec3s, unusable sha1 qname nsec3s with
        | .notProved _, some _ => .notProved "NSEC3 unusable"
        | proof, _ => proof
      else .notProved "no NSEC or NSEC3 record denies the type"

/-- Whether these records prove that `owner`, answered out of `wildcard`, had nothing of its
own (RFC 4035 §5.3.4, RFC 5155 §8.8). -/
def provesWildcardExpansion (owner wildcard : Name) (nsecs : List Nsec) (nsec3s : List Nsec3) :
    WildcardVerdict :=
  match wildcardEncloser wildcard with
  | none => .notProved "not a wildcard name"
  | some encloser =>
    if owner.labelCount ≤ encloser.labelCount then .notProved "the wildcard cannot have expanded to it"
    else if !nsecs.isEmpty then
      match nsecs.find? (·.covers owner) with
      | none => .notProved "nothing rules out records of its own"
      | some covering =>
        if !(closestEncloserNsec owner covering).same encloser then
          .notProved "the covering NSEC puts the closest encloser elsewhere"
        else .proved
    else if !nsec3s.isEmpty then
      let nextCloser := owner.suffix (encloser.labelCount + 1)
      if nsec3s.any fun nsec3 => !nsec3.optOut && orFalse (nsec3.covers sha1 nextCloser) then .proved
      else if coveredBy sha1 nextCloser nsec3s then .unjudgeable "Opt-Out set"
      else .notProved "no NSEC3 covers the next closer name"
    else .notProved "answered with no denial at all"

end Proofs

end Rdns.Dnssec
