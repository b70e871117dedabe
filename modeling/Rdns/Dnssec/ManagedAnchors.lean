import Rdns.Dnssec.SigningKeys
import Rdns.Present.Presentation

/-!
# Rdns — Following a trust anchor as it rolls

`ManagedAnchors` of `rdns/src/rfc5011.rs`: the keys a zone publishes are followed through
its own DNSKEY RRset. A new one is trusted when it has stayed for the hold-down, a trusted
one stays trusted though it goes missing, and a key is revoked by itself alone.

The digests a DS is made with are parameters.
-/

namespace Rdns.Dnssec

open Rdns.Lib Rdns.Core Rdns.Present

/-! ## Keys and the DS records that vouch for them -/

def DNSKEY_FLAG_ZONE : UInt16 := 0x0100
def DNSKEY_FLAG_REVOKE : UInt16 := 0x0080
def DNSKEY_PROTOCOL_DNSSEC : UInt8 := 3
def DS_DIGEST_SHA256 : UInt8 := 2

/-- How long a new key must be present before it is trusted (RFC 5011 §2.4.1). -/
def ADD_HOLD_DOWN : Nat := 30 * 86400
/-- How long a revoked key is remembered (§2.4.2). -/
def REMOVE_HOLD_DOWN : Nat := 30 * 86400

structure Dnskey where
  owner : Name
  flags : UInt16
  protocol : UInt8
  algorithm : UInt8
  publicKey : Octets
deriving DecidableEq

namespace Dnskey

def rdata (key : Dnskey) : Octets := be16 key.flags ++ [key.protocol, key.algorithm] ++ key.publicKey

def keyTag (key : Dnskey) : UInt16 := keyTagOfRdata key.rdata

def isZoneKey (key : Dnskey) : Bool :=
  key.flags &&& DNSKEY_FLAG_ZONE != 0 && key.protocol == DNSKEY_PROTOCOL_DNSSEC

def isSep (key : Dnskey) : Bool := key.flags &&& DNSKEY_FLAG_SEP != 0

/-- The REVOKE bit (RFC 5011 §3). -/
def isRevoked (key : Dnskey) : Bool := key.flags &&& DNSKEY_FLAG_REVOKE != 0

def isCandidateAnchor (key : Dnskey) : Bool := key.isZoneKey && key.isSep

def sameKey (a b : Dnskey) : Bool :=
  a.algorithm == b.algorithm && a.protocol == b.protocol && a.publicKey == b.publicKey &&
    a.owner.same b.owner

def digestInput (key : Dnskey) : Octets := key.owner.toFolded.wire ++ key.rdata

end Dnskey

/-- The digests of RFC 4034, RFC 4509 and RFC 6605. -/
structure DsDigests where
  sha1 : Octets → Octets
  sha256 : Octets → Octets
  sha384 : Octets → Octets

def DsDigests.digest (digests : DsDigests) (key : Dnskey) (digestType : UInt8) : Option Octets :=
  if digestType = 1 then some (digests.sha1 key.digestInput)
  else if digestType = 2 then some (digests.sha256 key.digestInput)
  else if digestType = 4 then some (digests.sha384 key.digestInput)
  else none

structure Ds where
  owner : Name
  keyTag : UInt16
  algorithm : UInt8
  digestType : UInt8
  digest : Octets
deriving DecidableEq

def Ds.same (a b : Ds) : Bool :=
  a.owner.same b.owner && a.keyTag == b.keyTag && a.algorithm == b.algorithm &&
    a.digestType == b.digestType && a.digest == b.digest

def Ds.matchesKey (digests : DsDigests) (ds : Ds) (key : Dnskey) : Bool :=
  if ds.keyTag ≠ key.keyTag ∨ ds.algorithm ≠ key.algorithm then false
  else digests.digest key ds.digestType == some ds.digest

/-! ## Tracked keys -/

/-- Where a key is in its life as a trust anchor (RFC 5011 §4). -/
inductive KeyState where
  | addPend
  | valid
  | missing
  | revoked
deriving DecidableEq

def KeyState.isAnchor : KeyState → Bool
  | .valid | .missing => true
  | .addPend | .revoked => false

structure TrackedKey where
  key : Dnskey
  state : KeyState
  since : Nat
deriving DecidableEq

def TrackedKey.holdDownElapsed (tracked : TrackedKey) (now : Nat) : Bool :=
  now - tracked.since ≥ ADD_HOLD_DOWN

inductive ChangeKind where
  | pending | trusted | withdrawn | absent | returned | revoked | forgotten
deriving DecidableEq

structure AnchorChange where
  kind : ChangeKind
  zone : Text
  keyTag : UInt16
deriving DecidableEq

structure ManagedAnchors where
  ds : List Ds
  keys : List TrackedKey
deriving DecidableEq

/-! ## One observation -/

/-- A validated DNSKEY RRset, the keys whose signature over it was verified, and when. -/
structure Observation where
  seen : List Dnskey
  selfSigners : List Dnskey
  now : Nat
deriving DecidableEq

def updateFirst {α : Type} (p : α → Bool) (f : α → α) : List α → List α
  | [] => []
  | x :: rest => if p x then f x :: rest else x :: updateFirst p f rest

def sweep (step : List TrackedKey → Dnskey → List TrackedKey × Option ChangeKind × UInt16) (zone : Text)
    (acc : List TrackedKey × List AnchorChange) (seen : List Dnskey) : List TrackedKey × List AnchorChange :=
  seen.foldl (fun acc key =>
    let (keys, kind, tag) := step acc.1 key
    (keys, acc.2 ++ (kind.map fun kind => ⟨kind, zone, tag⟩).toList)) acc

namespace ManagedAnchors

section

variable (digests : DsDigests)

def trustAnchors (m : ManagedAnchors) : List Ds :=
  let revoked := m.keys.filter fun k => k.state = .revoked
  let configured := m.ds.filter fun ds => !revoked.any fun r => ds.matchesKey digests r.key
  (m.keys.filter fun k => k.state.isAnchor).foldl (fun anchors tracked =>
    match digests.digest tracked.key DS_DIGEST_SHA256 with
    | none => anchors
    | some digest =>
      let ds : Ds := ⟨tracked.key.owner, tracked.key.keyTag, tracked.key.algorithm, DS_DIGEST_SHA256, digest⟩
      if anchors.any (·.same ds) then anchors else anchors ++ [ds]) configured

def hasAnchorFor (m : ManagedAnchors) (zone : Name) : Bool :=
  m.ds.any (·.owner.same zone) || m.keys.any fun k => k.state.isAnchor && k.key.owner.same zone

def revokeKey (signers : List Dnskey) (now : Nat) (keys : List TrackedKey) (key : Dnskey) :
    List TrackedKey × Option ChangeKind × UInt16 :=
  if !key.isRevoked then (keys, none, 0)
  else if !signers.any (·.sameKey key) then (keys, none, 0)
  else match keys.find? fun t => t.key.sameKey key with
    | none => (keys, none, 0)
    | some tracked =>
      if tracked.state = .revoked then (keys, none, 0)
      else
        (updateFirst (fun t => t.key.sameKey key) (fun t => { t with state := .revoked, since := now }) keys,
          some .revoked, tracked.key.keyTag)

def isAnchored (ds : List Ds) (key : Dnskey) : Bool :=
  ds.any fun d => d.owner.same key.owner && d.matchesKey digests key

def meetKey (ds : List Ds) (now : Nat) (keys : List TrackedKey) (key : Dnskey) :
    List TrackedKey × Option ChangeKind × UInt16 :=
  if key.isRevoked then (keys, none, 0)
  else if !key.isCandidateAnchor then (keys, none, 0)
  else match keys.find? fun t => t.key.sameKey key with
    | none =>
      let anchored := isAnchored digests ds key
      (keys ++ [⟨key, if anchored then .valid else .addPend, now⟩],
        some (if anchored then .trusted else .pending), key.keyTag)
    | some tracked =>
      let validate := updateFirst (fun t => t.key.sameKey key)
        (fun t => { t with state := .valid, since := now }) keys
      match tracked.state with
      | .addPend =>
        if tracked.holdDownElapsed now then (validate, some .trusted, key.keyTag)
        -- `since` is not refreshed, or the hold-down would never elapse
        else (keys, none, 0)
      | .missing => (validate, some .returned, key.keyTag)
      | .valid => (keys, none, 0)
      | .revoked => (keys, none, 0)

def missKey (now : Nat) (tracked : TrackedKey) : TrackedKey × Bool × Option ChangeKind :=
  match tracked.state with
  -- it never completed its hold-down, so it was never an anchor
  | .addPend => (tracked, true, some .withdrawn)
  | .valid => ({ tracked with state := .missing, since := now }, false, some .absent)
  | .missing => (tracked, false, none)
  | .revoked =>
    if now - tracked.since ≥ REMOVE_HOLD_DOWN then (tracked, true, some .forgotten)
    else (tracked, false, none)

def passOver (zone : Name) (seen : List Dnskey) (now : Nat) (tracked : TrackedKey) :
    TrackedKey × Bool × Option ChangeKind :=
  if !tracked.key.owner.same zone then (tracked, false, none)
  else if seen.any (·.sameKey tracked.key) then (tracked, false, none)
  else missKey now tracked

def observe (m : ManagedAnchors) (zone : Name) (o : Observation) : ManagedAnchors × List AnchorChange :=
  if !m.hasAnchorFor zone then (m, [])
  else
    let text := toPresentation zone
    let inZone := o.seen.filter fun k => k.owner.same zone
    -- revocations first, or a revoked key would also be read as present and healthy
    let revoked := sweep (revokeKey o.selfSigners o.now) text (m.keys, []) inZone
    let met := sweep (meetKey digests m.ds o.now) text revoked inZone
    let passed := met.1.map (passOver zone o.seen o.now)
    let forgotten := (passed.filter fun p => p.2.1).map fun p => p.1.key
    let changes := passed.flatMap fun p => (p.2.2.map fun kind => ⟨kind, text, p.1.key.keyTag⟩).toList
    (⟨m.ds, (passed.map Prod.fst).filter fun t => !forgotten.any (·.sameKey t.key)⟩, met.2 ++ changes)

def observeAll (m : ManagedAnchors) (zone : Name) (history : List Observation) : ManagedAnchors :=
  history.foldl (fun m o => (m.observe digests zone o).1) m

end

end ManagedAnchors

end Rdns.Dnssec
