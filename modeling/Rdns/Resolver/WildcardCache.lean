import Rdns.Dnssec.Verification
import Rdns.Resolver.NsecCache

/-!
# Rdns — Aggressive use of validated wildcards

The positive half of `rdns/src/nsec_cache.rs` (RFC 8198 §5.3): an RRset that a wildcard
answered with is kept under the wildcard, with the NSEC that denied the name it answered,
and answers for the next name beside it.
-/

namespace Rdns.Resolver

open Rdns.Lib Rdns.Core Rdns.Dnssec

def MAX_WILDCARDS_PER_ZONE : Nat := 64

def wildcardForExpansion (owner : Name) (labels : UInt8) : Option Name :=
  match signedOwnerName owner labels with
  | .error _ => none
  | .ok signed => if signed.same owner then none else some signed

def wildcardForParentOf (name : Name) : Option Name :=
  match name.parent with
  | none => none
  | some rest => if rest.isRoot then none else (Name.prefixed STAR rest).toOption

def wildcardKey (wildcard : Name) (qtype : Qtype) : Name × Qtype := (wildcard.toFolded, qtype)

def insertBoundedMap (m : Entries (Name × Qtype) CachedWildcard) (key : Name × Qtype)
    (value : CachedWildcard) (now : Nat) : Entries (Name × Qtype) CachedWildcard :=
  if (m.get key).isNone ∧ m.length ≥ MAX_WILDCARDS_PER_ZONE then
    let unexpired : Entries (Name × Qtype) CachedWildcard := m.filter fun entry => entry.2.expiresAt.isLive now
    if unexpired.length ≥ MAX_WILDCARDS_PER_ZONE then
      match unexpired.minOn? fun entry => entry.2.expiresAt.unixSecs with
      | some victim => Entries.insert (Entries.remove unexpired victim.1) key value
      | none => Entries.insert unexpired key value
    else Entries.insert unexpired key value
  else m.insert key value

/-- An RRset that a wildcard answered with: the zone that signed it, the wildcard, and the
type. -/
structure PendingWildcard where
  zone : Name
  wildcard : Name
  rtype : Rtype

def pendingOf (rr : ResourceRecord) : Option PendingWildcard := do
  let rrsig ← Rrsig.fromRecord rr
  let wildcard ← wildcardForExpansion rr.name rrsig.labels
  -- not this zone's to keep
  if !wildcard.isAtOrUnder rrsig.signerName then none
  else return ⟨rrsig.signerName, wildcard, rrsig.typeCovered⟩

def wildcardRecords (answers : List ResourceRecord) (rtype : Rtype) : List ResourceRecord :=
  let owner := match answers.find? fun rr => rr.rdata.rtype == rtype with
    | some rr => rr.name.toFolded
    | none => Name.root
  recordsCovering answers owner rtype ++ answers.filter fun rr =>
    match Rrsig.fromRecord rr with
    | some s => s.typeCovered == rtype && s.owner.same owner
    | none => false

def wildcardTtl (records : List ResourceRecord) : Nat :=
  ((records.map fun rr => min rr.ttl.secs.toNat MAX_PROOF_TTL).min?).getD 0

def ZoneProofs.takeWildcard (response : DnsMessage) (now : Nat) (pending : PendingWildcard)
    (proofs : ZoneProofs) : ZoneProofs :=
  let records := wildcardRecords response.answers pending.rtype
  if records.isEmpty then proofs
  else
    let ttl := wildcardTtl records
    if ttl = 0 then proofs
    else
      let kept := { proofs with
        wildcards := insertBoundedMap proofs.wildcards
          (wildcardKey pending.wildcard (Qtype.of pending.rtype)) ⟨records, .after now ttl⟩ now }
      (response.authorities.filter fun rr => rr.rdata.rtype == RecordTypes.NSEC).foldl
        (ZoneProofs.takeIn response.authorities pending.zone now) kept

def takePending (maxZones now : Nat) (response : DnsMessage) (zones : HeldZones)
    (pending : PendingWildcard) : HeldZones :=
  if !synthesizableQtype (Qtype.of pending.rtype) then zones
  else
    let zones :=
      if !(zones.any fun entry => entry.1.same pending.zone) && zones.length ≥ maxZones then
        evictZone zones maxZones now
      else zones
    HeldZones.alter pending.zone (ZoneProofs.takeWildcard response now pending) zones

def insertValidatedWildcard (maxZones now : Nat) (response : DnsMessage) (zones : HeldZones) : HeldZones :=
  if maxZones = 0 then zones
  else (response.answers.filterMap pendingOf).foldl (takePending maxZones now response) zones

/-- A positive answer built from a cached wildcard, and the NSEC that makes it apply. -/
structure WildcardSynthesis where
  answers : List ResourceRecord
  authority : List ResourceRecord
  ttl : Nat

def synthesizeWildcard (zones : HeldZones) (now : Nat) (qname : Name) (qtype : Qtype) :
    Option WildcardSynthesis :=
  if !synthesizableQtype qtype then none
  else do
    let wildcard ← wildcardForParentOf qname
    let (_, zone) ← enclosing zones qname
    let cached ← (zone.wildcards.get (wildcardKey wildcard qtype)).filter fun w => w.expiresAt.isLive now
    let denial ← zone.coveringNsec now qname
    let expiresAt : Deadline := ⟨min cached.expiresAt.unixSecs denial.expiresAt.unixSecs⟩
    let ttl := expiresAt.remainingTtl now
    if ttl = 0 then none
    return ⟨(withTtl cached.records ttl).map fun rr => { rr with name := qname },
      withTtl denial.records ttl, ttl⟩

def HeldZones.forgetAtOrBelow (zones : HeldZones) (node : Name) : HeldZones :=
  zones.filter fun entry => !entry.1.isAtOrUnder node

end Rdns.Resolver
