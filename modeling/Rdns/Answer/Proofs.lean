import Rdns.Answer.Resolve
import Rdns.Core.OffsetAccessors
import Rdns.Dnssec.Denial

/-!
# Rdns — Which DNSSEC records a reply owes

`rdns/src/zone_answer/dnssec_answer.rs`, given the zone and the question. Nothing is
synthesized: a wildcard's RRSIG is re-owned by writing it under another name, and a negative
answer's TTLs are capped as they are written.
-/

namespace Rdns.Answer

open Rdns.Lib Rdns.Core Rdns.Present Rdns.Zones Rdns.Zones.Zone Rdns.Dnssec RecordTypes

/-! ## Lookups of the chains -/

def spanning (z : Zone) (chain : Chain) (key : Octets) : Option ZoneRecord := do
  let entry ← (chain.filter fun entry => entry.1 < key).getLast?.or chain.getLast?
  z.records[entry.2]?

def nsecCovering (z : Zone) (name : Name) : Option ZoneRecord :=
  spanning z z.nsecChain (canonicalSortKey name)

def nsec3Covering (z : Zone) (hash : Nsec3Hash) : Option ZoneRecord := spanning z z.nsec3Chain hash.octets

def hasNsec3Chain (z : Zone) : Bool := !z.nsec3Chain.isEmpty

def anyNsec3 (z : Zone) : Option ZoneRecord := z.nsec3Chain.head?.bind fun entry => z.records[entry.2]?

def isSigned (z : Zone) : Bool := !(z.ofType (z.locate z.origin) (.of DNSKEY)).isEmpty

/-! ## Signatures -/

def written (record : ZoneRecord) (name : Name) (ttl : Ttl) : ResourceRecord :=
  ⟨name, record.cls, ttl, record.rdata⟩

def answerSignatures (z : Zone) (located : Located) (qname : Name) (qtype : Qtype) :
    List ResourceRecord × Bool :=
  if !isSigned z then ([], false)
  else
    let signatures := (z.ofType located (.of RRSIG)).filter fun record =>
      record.rdata.rrsigTypeCovered.any qtype.matches
    (signatures.map fun record => written record qname record.ttl, signatures.any fun record => !record.name.same qname)

def negativeTtlCap (z : Zone) : Option Ttl := do
  let soa ← (z.ofType (z.locate z.origin) (.of SOA)).head?
  let minimum ← soa.rdata.soaMinimum
  return Ttl.negativeAnswer soa.ttl minimum

def capped (cap : Option Ttl) (ttl : Ttl) : Ttl :=
  match cap with
  | none => ttl
  | some cap => ⟨min ttl.secs cap.secs⟩

def signaturesAt (z : Zone) (name : Name) (rtype : Rtype) (cap : Option Ttl) : List ResourceRecord :=
  let located := z.locate name
  if located.kind ≠ .exact then []
  else
    ((z.ofType located (.of RRSIG)).filter fun record =>
      record.rdata.rrsigTypeCovered == some rtype).map fun record =>
        written record record.name (capped cap record.ttl)

/-! ## Denial records -/

/-- What a proof has written so far: the denial records among it are not written twice. -/
structure Written where
  seen : List ZoneRecord
  cap : Option Ttl
  records : List ResourceRecord

def Written.forZone (z : Zone) : Written := ⟨[], negativeTtlCap z, []⟩

def sameRecord (a b : ZoneRecord) : Bool :=
  a.name.same b.name && decide (a.ttl = b.ttl ∧ a.cls = b.cls ∧ a.rdata = b.rdata)

def TRACKED : Nat := 3

def pushWithSignatures (z : Zone) (record : ZoneRecord) (w : Written) : Bool × Written :=
  if w.seen.any (sameRecord record) then (false, w)
  else
    (true, { w with
      seen := if w.seen.length < TRACKED then w.seen ++ [record] else w.seen
      records := w.records ++ written record record.name (capped w.cap record.ttl)
        :: signaturesAt z record.name record.rtype w.cap })

def pushAll (z : Zone) : List ZoneRecord → Bool × Written → Bool × Written
  | [], w => w
  | record :: rest, (found, w) =>
    let (fresh, w) := pushWithSignatures z record w
    pushAll z rest (found || fresh, w)

def pushCovering (z : Zone) (covering : Option ZoneRecord) (w : Written) : Written :=
  match covering with
  | none => w
  | some record => (pushWithSignatures z record w).2

def childTowards (qname encloser : Name) : Option Name :=
  if qname.same encloser then none
  else qname.ancestors.find? fun name => name.parent.any (·.same encloser)

def closestHeld (z : Zone) (held : Name → Bool) : List Name → Option Name
  | [] => none
  | name :: rest =>
    if held name then some name
    else if name.same z.origin then none
    else closestHeld z held rest

def nsecClosestEncloser (z : Zone) (qname : Name) : Option Name := closestHeld z z.holdsName qname.ancestors

structure Nsec3Chain where
  salt : Octets
  iterations : UInt16

def Nsec3Chain.of (z : Zone) : Option Nsec3Chain := do
  let record ← anyNsec3 z
  let (iterations, salt) ← record.rdata.nsec3Parameters
  return ⟨salt, iterations⟩

section Proofs

variable (sha1 : Octets → Nsec3Hash) (z : Zone)

namespace Nsec3Chain

def hash (chain : Nsec3Chain) (name : Name) : Option Nsec3Hash :=
  (nsec3HashName sha1 name chain.salt chain.iterations).toOption

def owner (chain : Nsec3Chain) (name : Name) : Option Name := do
  let hash ← chain.hash sha1 name
  (nsec3OwnerNameAt hash z.origin).toOption

def closestEncloser (chain : Nsec3Chain) (qname : Name) : Option Name :=
  closestHeld z (fun name => (chain.owner sha1 z name).any z.holdsName) qname.ancestors

def andEncloser (qname : Name) : Option (Nsec3Chain × Name) := do
  let chain ← Nsec3Chain.of z
  let encloser ← chain.closestEncloser sha1 z qname
  return (chain, encloser)

def pushMatching (chain : Nsec3Chain) (name : Name) (w : Written) : Bool × Written :=
  match chain.owner sha1 z name with
  | none => (false, w)
  | some owner => pushAll z (z.ofType (z.locate owner) (.of NSEC3)) (false, w)

def pushCovering (chain : Nsec3Chain) (name : Name) (w : Written) : Written :=
  Answer.pushCovering z ((chain.hash sha1 name).bind (nsec3Covering z)) w

def pushAbsence (chain : Nsec3Chain) (qname encloser : Name) (w : Written) : Written :=
  let w := (chain.pushMatching sha1 z encloser w).2
  match childTowards qname encloser with
  | none => w
  | some nextCloser => chain.pushCovering sha1 z nextCloser w

def pushWildcardDenial (chain : Nsec3Chain) (encloser : Name) (w : Written) : Written :=
  match Name.prefixed ASTERISK encloser with
  | .error _ => w
  | .ok wildcard => chain.pushCovering sha1 z wildcard w

end Nsec3Chain

def absence (qname : Name) (w : Written) : Written :=
  if hasNsec3Chain z then
    match Nsec3Chain.andEncloser sha1 z qname with
    | none => w
    | some (chain, encloser) => chain.pushAbsence sha1 z qname encloser w
  else pushCovering z (nsecCovering z qname) w

def denyTheNameAndItsWildcard (qname : Name) (w : Written) : Written :=
  if hasNsec3Chain z then
    match Nsec3Chain.andEncloser sha1 z qname with
    | none => w
    | some (chain, encloser) =>
      chain.pushWildcardDenial sha1 z encloser (chain.pushAbsence sha1 z qname encloser w)
  else
    let w := pushCovering z (nsecCovering z qname) w
    match nsecClosestEncloser z qname with
    | none => w
    | some encloser =>
      match Name.prefixed ASTERISK encloser with
      | .error _ => w
      | .ok wildcard => pushCovering z (nsecCovering z wildcard) w

def matchAtName (name : Name) (w : Written) : Bool × Written :=
  if hasNsec3Chain z then
    match Nsec3Chain.of z with
    | none => (false, w)
    | some chain => chain.pushMatching sha1 z name w
  else
    -- a wildcard's NSEC says nothing about the name asked for
    let located := z.locate name
    if located.kind ≠ .exact then (false, w)
    else pushAll z (z.ofType located (.of NSEC)) (false, w)

/-! ## What each reply owes -/

def proofOfAbsence (qname : Name) : List ResourceRecord :=
  if !isSigned z then [] else (absence sha1 z qname.toFolded (.forZone z)).records

def negativeProof (qname : Name) (kind : NameKind) : List ResourceRecord :=
  if !isSigned z then []
  else
    let qname := qname.toFolded
    let w := Written.forZone z
    let w := { w with records := signaturesAt z z.origin SOA w.cap }
    match kind with
    | .notFound => (denyTheNameAndItsWildcard sha1 z qname w).records
    | .exact | .emptyNonTerminal => (matchAtName sha1 z qname w).2.records
    | .wildcard wildcard => (absence sha1 z qname (matchAtName sha1 z wildcard w).2).records

def delegationProof (cut : Name) : List ResourceRecord :=
  if !isSigned z then []
  else
    let cut := cut.toFolded
    let ds := z.ofType (z.locate cut) (.of DS)
    if !ds.isEmpty then
      ds.map (fun record => written record record.name record.ttl) ++ signaturesAt z cut DS none
    else
      let (found, w) := matchAtName sha1 z cut (.forZone z)
      -- under opt-out an insecure delegation has no NSEC3 of its own
      if !found && hasNsec3Chain z then (absence sha1 z cut w).records else w.records

end Proofs

end Rdns.Answer
