import Rdns.Dnssec.ManagedAnchors

/-!
# Rdns — Checking an RRset against its signatures

The leaf validator of `rdns/src/dnssec.rs`, `verify_rrset`, and the verdicts
`rdns/src/dnssec_chain.rs` passes on. Whether a signature verifies under a key is a
parameter; which signature may be tried under which key is decided here.
-/

namespace Rdns.Dnssec

open Rdns.Lib Rdns.Core RecordTypes

/-! ## Verdicts -/

/-- An RFC 8914 INFO-CODE. -/
structure InfoCode where
  code : UInt16
deriving DecidableEq

def InfoCode.DNSSEC_BOGUS : InfoCode := ⟨6⟩
def InfoCode.SIGNATURE_EXPIRED : InfoCode := ⟨7⟩
def InfoCode.SIGNATURE_NOT_YET_VALID : InfoCode := ⟨8⟩
def InfoCode.DNSKEY_MISSING : InfoCode := ⟨9⟩
def InfoCode.RRSIGS_MISSING : InfoCode := ⟨10⟩
def InfoCode.NSEC_MISSING : InfoCode := ⟨12⟩

structure Bogus where
  code : InfoCode
  why : String
deriving DecidableEq

/-- How much authentication an answer carries (RFC 4035 §4.3). -/
inductive ValidationState where
  | secure
  | insecure
  | bogus (reason : Bogus)
  | indeterminate (why : String)
deriving DecidableEq

inductive Outcome where
  | secure
  | insecure
  | bogus
  | indeterminate
deriving DecidableEq

def Outcome.isSecure (outcome : Outcome) : Bool := outcome == .secure

namespace ValidationState

def isSecure : ValidationState → Bool
  | .secure => true
  | _ => false

def isBogus : ValidationState → Bool
  | .bogus _ => true
  | _ => false

def outcome : ValidationState → Outcome
  | .secure => .secure
  | .insecure => .insecure
  | .bogus _ => .bogus
  | .indeterminate _ => .indeterminate

variable {state : ValidationState}

theorem outcome_isSecure : state.outcome.isSecure = true ↔ state = .secure := by
  cases state <;> simp [outcome, Outcome.isSecure]

theorem isSecure_iff : state.isSecure = true ↔ state = .secure := by
  cases state <;> simp [isSecure]

theorem isBogus_iff : state.isBogus = true ↔ ∃ reason, state = .bogus reason := by
  cases state <;> simp [isBogus]

end ValidationState

/-- Why a signature could not be checked, as opposed to checked and rejected. -/
inductive CryptoError where
  | unsupportedAlgorithm (algorithm : UInt8)
  | malformedKey (why : String)
deriving DecidableEq

inductive RrsetProof where
  | verified (wildcard : Option Name) (expires : UInt32)
  | unsigned
  | bogus (reason : Bogus)
  | unsupported (why : String)
deriving DecidableEq

/-! ## Typed views of records -/

/-- The algorithms we can verify (RFC 8624 §3.1). -/
def algorithmSupported (algorithm : UInt8) : Bool :=
  ([5, 7, 8, 10, 13, 14, 15] : List UInt8).contains algorithm

def digestTypeSupported (digestType : UInt8) : Bool := ([1, 2, 4] : List UInt8).contains digestType

def Dnskey.fromRecord (rr : ResourceRecord) : Option Dnskey :=
  if rr.rdata.rtype ≠ DNSKEY then none
  else match rr.rdata.parse with
    | .ok (.dnskey _ flags protocol algorithm publicKey) =>
      some ⟨rr.name.toFolded, flags, protocol, algorithm, publicKey⟩
    | _ => none

def Ds.fromRecord (rr : ResourceRecord) : Option Ds :=
  if rr.rdata.rtype ≠ DS then none
  else match rr.rdata.parse with
    | .ok (.ds _ keyTag algorithm digestType digest) =>
      some ⟨rr.name.toFolded, keyTag, algorithm, digestType, digest⟩
    | _ => none

namespace Rrsig

def fromRecord (rr : ResourceRecord) : Option Rrsig :=
  if rr.rdata.rtype ≠ RRSIG then none
  else match rr.rdata.parse with
    | .ok (.rrsig typeCovered algorithm labels originalTtl inception expiration keyTag signer signature) =>
      some ⟨rr.name.toFolded, typeCovered, algorithm, labels, originalTtl, inception, expiration, keyTag,
        signer.toFolded, signature⟩
    | _ => none

def isCurrent (rrsig : Rrsig) (now : Nat) : Bool :=
  decide (rrsig.inception.toNat ≤ now) && decide (now ≤ rrsig.expiration.toNat)

end Rrsig

def dnskeysIn (records : List ResourceRecord) : List Dnskey := records.filterMap Dnskey.fromRecord

def rrsigsIn (records : List ResourceRecord) : List Rrsig := records.filterMap Rrsig.fromRecord

/-! ## One RRset -/

abbrev Verify := UInt8 → Octets → Octets → Octets → Except CryptoError Bool

structure Tried where
  unsupported : Option String
  lastFailure : Option Bogus

def mayCheck (zone : Name) (rrsig : Rrsig) (key : Dnskey) : Bool :=
  key.owner.same zone && key.isZoneKey && key.algorithm == rrsig.algorithm && key.keyTag == rrsig.keyTag

section Verify

variable (verify : Verify)

def tryKeys (rrsig : Rrsig) (data : Octets) : List Dnskey → Tried → Tried ⊕ Unit
  | [], tried => .inl tried
  | key :: rest, tried =>
    match verify key.algorithm key.publicKey data rrsig.signature with
    | .ok true => .inr ()
    | .ok false =>
      tryKeys rrsig data rest
        { tried with lastFailure := some ⟨.DNSSEC_BOGUS, "signature did not verify under the key"⟩ }
    | .error _ => tryKeys rrsig data rest { tried with unsupported := some "unreadable algorithm or key" }

def wildcardOf (owner : Name) (rrsig : Rrsig) : Except WireError (Option Name) :=
  if rrsig.labels.toNat < owner.labelCount then do
    -- a leading `*` is never counted (RFC 4034 §3.1.3)
    let signed ← signedOwnerName owner rrsig.labels
    return if signed.same owner then none else some signed
  else return none

def trySignature (rrset : Rrset) (keys : List Dnskey) (zone : Name) (now : Nat) (rrsig : Rrsig)
    (tried : Tried) : Tried ⊕ RrsetProof :=
  let failed (code : InfoCode) (why : String) : Tried ⊕ RrsetProof :=
    .inl { tried with lastFailure := some ⟨code, why⟩ }
  -- the signer must be the zone whose keys we hold
  if !rrsig.signerName.same zone then failed .DNSSEC_BOGUS "the RRSIG names another signer"
  else if rrsig.labels.toNat > rrset.owner.labelCount ∨ rrsig.labels.toNat < zone.labelCount then
    failed .DNSSEC_BOGUS "the RRSIG claims labels its owner and zone do not allow"
  else if !rrsig.isCurrent now then
    failed (if now > rrsig.expiration.toNat then .SIGNATURE_EXPIRED else .SIGNATURE_NOT_YET_VALID)
      "the RRSIG is not valid now"
  else match wildcardOf rrset.owner rrsig with
    | .error _ => failed .DNSSEC_BOGUS "could not name the signer"
    | .ok wildcard =>
      match signedData rrsig rrset with
      | .error _ => failed .DNSSEC_BOGUS "could not build signed data"
      | .ok data =>
        match tryKeys verify rrsig data (keys.filter (mayCheck zone rrsig)) tried with
        | .inr () => .inr (.verified wildcard rrsig.expiration)
        | .inl tried =>
          if tried.lastFailure.isNone then
            .inl { tried with lastFailure := some ⟨.DNSKEY_MISSING, "no DNSKEY matches the RRSIG"⟩ }
          else .inl tried

def trySignatures (rrset : Rrset) (keys : List Dnskey) (zone : Name) (now : Nat) :
    List Rrsig → Tried → RrsetProof
  | [], tried =>
    -- "cannot read" only where nothing was actually rejected
    match tried.unsupported, tried.lastFailure with
    | some why, none => .unsupported why
    | _, some failure => .bogus failure
    | none, none => .bogus ⟨.DNSSEC_BOGUS, "no RRSIG could be checked"⟩
  | rrsig :: rest, tried =>
    match trySignature verify rrset keys zone now rrsig tried with
    | .inr proof => proof
    | .inl tried => trySignatures rrset keys zone now rest tried

def verifyRrset (rrset : Rrset) (rrsigs : List Rrsig) (keys : List Dnskey) (zone : Name) (now : Nat) :
    RrsetProof :=
  let covering := rrsigs.filter fun s => s.typeCovered == rrset.rtype && s.owner.same rrset.owner
  if covering.isEmpty then .unsigned
  else trySignatures verify rrset keys zone now covering ⟨none, none⟩

end Verify

end Rdns.Dnssec
