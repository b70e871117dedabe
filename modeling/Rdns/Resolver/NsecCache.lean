import Rdns.Dnssec.Signer
import Rdns.Lib.Entries

/-!
# Rdns — Aggressive use of validated denials

`rdns/src/nsec_cache.rs` (RFC 8198), with the `Deadline` and the `Halving` it shares with the
other caches: a validated NSEC answers for every name in its gap, so the gap is kept and
not the question. Keys are the octets the source's trees are ordered by.

The zones are kept in the order a walk over their hash map would meet them; a run may
shuffle them before every call.
-/

namespace Rdns.Resolver

open Rdns.Lib Rdns.Core Rdns.Present Rdns.Zones Rdns.Dnssec RecordTypes

/-! ## Moments -/

structure Deadline where
  unixSecs : Nat
deriving DecidableEq

def MAX_SECS : Nat := 2 ^ 64 - 1

namespace Deadline

def after (now secs : Nat) : Deadline := ⟨min (now + secs) MAX_SECS⟩

def isLive (deadline : Deadline) (now : Nat) : Bool := decide (now < deadline.unixSecs)

def remainingTtl (deadline : Deadline) (now : Nat) : Nat :=
  min (deadline.unixSecs - now) (2 ^ 32 - 1)

end Deadline

/-! ## Halving a full table -/

/-- Which entries survive: those that expire after the cutoff, and so many of those that
expire at it. -/
structure Halving where
  cutoff : Nat
  tiesToKeep : Nat

namespace Halving

def plan (expiries : List Nat) (target : Nat) : Option Halving :=
  if expiries.length ≤ target then none
  else if target = 0 then some ⟨MAX_SECS, 0⟩
  else
    let cutoff := (expiries.mergeSort (· ≤ ·)).getD (expiries.length - target) 0
    let strictlyNewer := (expiries.filter fun e => e > cutoff).length
    some ⟨cutoff, target - strictlyNewer⟩

def retain {α : Type} (expiry : α → Nat) : Halving → List α → List α
  | _, [] => []
  | plan, entry :: rest =>
    if expiry entry > plan.cutoff then entry :: retain expiry plan rest
    else if expiry entry = plan.cutoff ∧ plan.tiesToKeep > 0 then
      entry :: retain expiry ⟨plan.cutoff, plan.tiesToKeep - 1⟩ rest
    else retain expiry plan rest

end Halving

/-! ## What is kept -/

/-- A proof, the record and its RRSIGs as they came, and how long they may be used. -/
structure CachedProof (α : Type) where
  proof : α
  records : List ResourceRecord
  expiresAt : Deadline

namespace CachedProof

variable {α : Type}

def live (cached : CachedProof α) (now : Nat) : Bool := cached.expiresAt.isLive now

def remaining (cached : CachedProof α) (now : Nat) : Nat := cached.expiresAt.remainingTtl now

end CachedProof

/-- The SOA and its signatures, with `min(SOA TTL, SOA MINIMUM)` (RFC 2308 §5). -/
structure CachedSoa where
  records : List ResourceRecord
  negativeTtl : Nat
  expiresAt : Deadline

/-- An RRset a wildcard answered with, and its RRSIGs, under the name they came with. -/
structure CachedWildcard where
  records : List ResourceRecord
  expiresAt : Deadline

/-- One zone's validated denials, NSEC by the sort key of the owner and NSEC3 by owner hash,
and the RRsets that came from a wildcard, by the wildcard, down-cased, and their type. -/
structure ZoneProofs where
  nsecs : SortedMap Octets (CachedProof Nsec)
  nsec3s : SortedMap Octets (CachedProof Nsec3)
  soa : Option CachedSoa
  wildcards : Entries (Name × Qtype) CachedWildcard

def ZoneProofs.default : ZoneProofs := ⟨[], [], none, []⟩

abbrev HeldZones := List (Name × ZoneProofs)

def MAX_PROOFS_PER_ZONE : Nat := 256

def MAX_PROOF_TTL : Nat := 3600

def synthesizableQtype (qtype : Qtype) : Bool :=
  qtype != Qtype.ANY && !qtype.is RRSIG

def recordsCovering (records : List ResourceRecord) (owner : Name) (rtype : Rtype) :
    List ResourceRecord :=
  (records.filter fun rr => rr.name.same owner).filter fun rr =>
    rr.rdata.rtype == rtype || coveredType rr.rdata == some rtype

def soonest {α : Type} (m : SortedMap Octets (CachedProof α)) : Option Octets :=
  (m.minOn? fun entry => entry.2.expiresAt.unixSecs).map Prod.fst

def insertBounded {α : Type} (m : SortedMap Octets (CachedProof α)) (key : Octets)
    (value : CachedProof α) (now : Nat) : SortedMap Octets (CachedProof α) :=
  if (m.get key).isNone ∧ m.length ≥ MAX_PROOFS_PER_ZONE then
    let unexpired := m.filter fun entry => entry.2.live now
    if unexpired.length ≥ MAX_PROOFS_PER_ZONE then
      match soonest unexpired with
      | some victim => SortedMap.insert key value (unexpired.filter fun entry => entry.1 ≠ victim)
      | none => SortedMap.insert key value unexpired
    else SortedMap.insert key value unexpired
  else SortedMap.insert key value m

def zoneExpiry (entry : Name × ZoneProofs) : Nat :=
  match entry.2.soa with
  | some soa => soa.expiresAt.unixSecs
  | none => 0

def evictZone (zones : HeldZones) (maxZones now : Nat) : HeldZones :=
  let unexpired := zones.filter fun entry =>
    match entry.2.soa with
    | some soa => soa.expiresAt.isLive now
    | none => false
  if unexpired.length < zones.length then unexpired
  else match Halving.plan (unexpired.map zoneExpiry) (maxZones / 2) with
    | some plan => plan.retain zoneExpiry unexpired
    | none => unexpired

/-! ## Storing a denial -/

def ZoneProofs.takeIn (authorities : List ResourceRecord) (zone : Name) (now : Nat)
    (proofs : ZoneProofs) (rr : ResourceRecord) : ZoneProofs :=
  let ttl := min rr.ttl.secs.toNat MAX_PROOF_TTL
  if rr.rdata.rtype = NSEC then
    match Nsec.fromRecord rr with
    | none => proofs
    | some nsec =>
      -- from outside the zone that signed the SOA it is not this zone's to make
      if !nsec.owner.isAtOrUnder zone then proofs
      else
        let records := recordsCovering authorities nsec.owner NSEC
        { proofs with
          nsecs := insertBounded proofs.nsecs (canonicalSortKey nsec.owner)
            ⟨nsec, records, .after now ttl⟩ now }
  else if rr.rdata.rtype = NSEC3 then
    match Nsec3.fromRecord rr with
    | none => proofs
    | some nsec3 =>
      if !nsec3.zone.isAtOrUnder zone then proofs
      -- RFC 8198 §5.2: an opt-out span denies nothing
      else if nsec3.optOut then proofs
      else
        let records := recordsCovering authorities nsec3.owner NSEC3
        { proofs with
          nsec3s := insertBounded proofs.nsec3s nsec3.ownerHash.octets
            ⟨nsec3, records, .after now ttl⟩ now }
  else proofs

def HeldZones.alter (zone : Name) (f : ZoneProofs → ZoneProofs) : HeldZones → HeldZones
  | [] => [(zone, f .default)]
  | (name, proofs) :: rest =>
    if name.same zone then (name, f proofs) :: rest else (name, proofs) :: alter zone f rest

def insertValidated (maxZones now : Nat) (response : DnsMessage) (zones : HeldZones) : HeldZones :=
  if maxZones = 0 then zones
  else match response.authorities.find? fun rr => rr.rdata.rtype == SOA with
    | none => zones
    | some soaRr =>
      match soaRr.rdata.parse with
      | .ok (.soa _ _ _ _ _ _ minimum) =>
        let zone := soaRr.name.toFolded
        let negativeTtl := (Ttl.negativeAnswer soaRr.ttl minimum).secs.toNat
        let soa : CachedSoa :=
          ⟨recordsCovering response.authorities zone SOA, negativeTtl,
            .after now (min negativeTtl MAX_PROOF_TTL)⟩
        let zones :=
          if !(zones.any fun entry => entry.1.same zone) && zones.length ≥ maxZones then
            evictZone zones maxZones now
          else zones
        HeldZones.alter zone (fun proofs =>
          response.authorities.foldl (ZoneProofs.takeIn response.authorities zone now)
            { proofs with soa := some soa }) zones
      | _ => zones

/-! ## Looking proofs up -/

def isDelegation (nsec : Nsec) : Bool := nsec.hasType NS && !nsec.hasType SOA

def isBelowDelegation (nsec : Nsec) (name : Name) : Bool :=
  isDelegation nsec && name.isAtOrUnder nsec.owner && !name.same nsec.owner

def distinctParams (sets : List Nsec3Params) : List Nsec3Params :=
  sets.foldl (fun seen params => if seen.contains params then seen else seen ++ [params]) []

namespace ZoneProofs

variable (proofs : ZoneProofs) (sha1 : Octets → Nsec3Hash) (now : Nat)

/-- The NSEC whose range could contain `name`: the greatest owner at or below it, or the
last record, which wraps to the apex. -/
def coveringNsec (name : Name) : Option (CachedProof Nsec) :=
  let key := canonicalSortKey name
  match (proofs.nsecs.filter fun entry => entry.1 ≤ key).getLast?.or proofs.nsecs.getLast? with
  | none => none
  | some (_, candidate) =>
    if !candidate.live now || !candidate.proof.covers name then none
    else if isBelowDelegation candidate.proof name then none
    else some candidate

def matchingNsec (name : Name) : Option (CachedProof Nsec) :=
  (proofs.nsecs.get (canonicalSortKey name)).filter fun cached => cached.live now

def nsec3Params : List Nsec3Params :=
  distinctParams (((proofs.nsec3s.map Prod.snd).filter fun c => c.live now).map fun c => c.proof.params)

def matchingNsec3 (hash : Nsec3Hash) (params : Nsec3Params) : Option (CachedProof Nsec3) :=
  (proofs.nsec3s.get hash.octets).filter fun c => c.live now && c.proof.params == params

/-- The live NSEC3 whose span contains `hash`: the predecessor, or the last record. -/
def coveringNsec3 (hash : Nsec3Hash) (params : Nsec3Params) : Option (CachedProof Nsec3) :=
  let usable := fun (c : CachedProof Nsec3) => c.live now && c.proof.params == params
  let below := (proofs.nsec3s.filter fun entry => entry.1 < hash.octets).map Prod.snd
  match (below.reverse.find? usable).or ((proofs.nsec3s.map Prod.snd).reverse.find? usable) with
  | none => none
  | some candidate => if candidate.proof.coversHash hash then some candidate else none

end ZoneProofs

/-! ## Gathering a proof -/

/-- What a lookup found, before the proof logic has been asked whether it stands. -/
structure Gathered where
  rcode : ResponseCode
  nsecs : List Nsec
  nsec3s : List Nsec3
  records : List ResourceRecord
  ttl : Nat

def shortest {α : Type} (candidates : List (CachedProof α)) (now : Nat) : Nat :=
  ((candidates.map fun c => c.remaining now).min?).getD 0

def pushUnique {α κ : Type} [BEq κ] (key : α → κ) (candidates : List (CachedProof α))
    (cached : CachedProof α) : List (CachedProof α) :=
  if candidates.any fun c => key c.proof == key cached.proof then candidates
  else candidates ++ [cached]

/-- Whether an NSEC3 sits at a delegation point. -/
def isDelegation3 (nsec3 : Nsec3) : Bool :=
  nsec3.hasType NS && !nsec3.hasType SOA

namespace ZoneProofs

variable (proofs : ZoneProofs) (sha1 : Octets → Nsec3Hash) (now : Nat)

/-- The NSEC3 half of `gather_nodata`: the first parameters under which the name has a
record decide. -/
def gatherNodata3 (qname : Name) (qtype : Qtype) : List Nsec3Params → Option Gathered
  | [] => none
  | params :: rest =>
    match params.hash sha1 qname with
    | .error _ => gatherNodata3 qname qtype rest
    | .ok hash =>
      match proofs.matchingNsec3 now hash params with
      | none => gatherNodata3 qname qtype rest
      | some cached =>
        if isDelegation3 cached.proof && !qtype.is DS then none
        else some ⟨.ok, [], [cached.proof], cached.records, cached.remaining now⟩

def gatherNodata (qname : Name) (qtype : Qtype) : Option Gathered :=
  match proofs.matchingNsec now qname with
  | some cached =>
    -- at a delegation the parent holds only the DS
    if isDelegation cached.proof && !qtype.is DS then none
    else some ⟨.ok, [cached.proof], [], cached.records, cached.remaining now⟩
  | none => proofs.gatherNodata3 sha1 now qname qtype (proofs.nsec3Params now)

/-- The walk up from `candidate`, at `depth` labels, to the first ancestor with a record:
that ancestor, the name below it, and the record. -/
def encloserOf (qlabels zlabels : Nat) (params : Nsec3Params) (depth : Nat) (candidate : Name)
    (below : Option Name) : Option (Name × Name × CachedProof Nsec3) :=
  match params.hash sha1 candidate with
  | .error _ => none
  | .ok hash =>
    match proofs.matchingNsec3 now hash params with
    | some cached =>
      -- a record at the name itself says it exists
      if depth = qlabels then none
      else below.map fun nextCloser => (nextCloser, candidate, cached)
    | none =>
      if depth = zlabels then none
      else match depth, candidate.parent with
        | depth + 1, some up => encloserOf qlabels zlabels params depth up (some candidate)
        | _, _ => none

/-- One chain's attempt at the proof of RFC 5155 §8.4. -/
def gatherNxdomainUnder (qname zone : Name) (params : Nsec3Params) : Option Gathered := do
  let (nextCloser, encloser, matching) ←
    proofs.encloserOf sha1 now qname.labelCount zone.labelCount params qname.labelCount qname none
  -- below a delegation the names are the child's
  if isDelegation3 matching.proof then none
  let hash ← (params.hash sha1 nextCloser).toOption
  let covering ← proofs.coveringNsec3 now hash params
  let wildcard ← (Name.prefixed STAR encloser).toOption
  let hash ← (params.hash sha1 wildcard).toOption
  let accounted ← (proofs.matchingNsec3 now hash params).or (proofs.coveringNsec3 now hash params)
  let candidates := pushUnique Nsec3.ownerHash (pushUnique Nsec3.ownerHash [matching] covering) accounted
  return ⟨.noSuchDomain, [], candidates.map CachedProof.proof, candidates.flatMap CachedProof.records,
    shortest candidates now⟩

def withWildcards (qname zone : Name) (covering : CachedProof Nsec) : List (CachedProof Nsec) :=
  (List.range' zone.labelCount (qname.labelCount - zone.labelCount)).foldl (fun candidates depth =>
    match Name.prefixed STAR (qname.suffix depth) with
    | .error _ => candidates
    | .ok wildcard =>
      match proofs.coveringNsec now wildcard with
      | none => candidates
      | some c => pushUnique (fun nsec => nsec.owner.toFolded) candidates c) [covering]

def gatherNxdomain (qname zone : Name) : Option Gathered :=
  match proofs.coveringNsec now qname with
  | some covering =>
    let candidates := proofs.withWildcards now qname zone covering
    some ⟨.noSuchDomain, candidates.map CachedProof.proof, [], candidates.flatMap CachedProof.records,
      shortest candidates now⟩
  | none =>
    if proofs.nsecs.isEmpty then
      (proofs.nsec3Params now).findSome? fun params => proofs.gatherNxdomainUnder sha1 now qname zone params
    else none

end ZoneProofs

/-! ## Answering from what is kept -/

structure Synthesis where
  rcode : ResponseCode
  authority : List ResourceRecord
  ttl : Nat

def withTtl (records : List ResourceRecord) (ttl : Nat) : List ResourceRecord :=
  records.map fun rr => { rr with ttl := ⟨UInt32.ofNat ttl⟩ }

def Gathered.proved (gathered : Gathered) (sha1 : Octets → Nsec3Hash) (qname zone : Name)
    (qtype : Qtype) : Bool :=
  if gathered.rcode = .noSuchDomain then
    provesNxdomain sha1 qname zone gathered.nsecs gathered.nsec3s == .proved
  else provesNodata sha1 qname zone ⟨qtype.code⟩ gathered.nsecs gathered.nsec3s == .proved

def enclosing (zones : HeldZones) (qname : Name) : Option (Name × ZoneProofs) :=
  (zones.filter fun entry => qname.isAtOrUnder entry.1).reverse.maxOn? fun entry => entry.1.labelCount

def synthesize (sha1 : Octets → Nsec3Hash) (zones : HeldZones) (now : Nat) (qname : Name)
    (qtype : Qtype) : Option Synthesis :=
  if !synthesizableQtype qtype then none
  else do
    let (zoneName, zone) ← enclosing zones qname
    let soa ← zone.soa.filter fun soa => soa.expiresAt.isLive now
    let gathered ← (zone.gatherNodata sha1 now qname qtype).or (zone.gatherNxdomain sha1 now qname zoneName)
    let soaTtl := min soa.negativeTtl (soa.expiresAt.remainingTtl now)
    if !gathered.proved sha1 qname zoneName qtype then none
    let ttl := min gathered.ttl soaTtl
    if ttl = 0 then none
    return ⟨gathered.rcode, withTtl soa.records ttl ++ withTtl gathered.records ttl, ttl⟩

end Rdns.Resolver
