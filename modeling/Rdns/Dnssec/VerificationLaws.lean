import Rdns.Dnssec.ChainOfTrust

/-!
# Rdns — What a verified RRset was signed by

`verify_rrset` has one way to a proof: a signature of the zone asked for, over this RRset and
current, that verifies under one of the zone keys it was given.
-/

namespace Rdns.Dnssec

open Rdns.Lib Rdns.Core

/-- `rrsig` is a current signature of `zone` over `rrset` that verifies under `key`, a zone key
of that zone. -/
structure SignedBy (verify : Verify) (zone : Name) (rrset : Rrset) (now : Nat) (rrsig : Rrsig)
    (key : Dnskey) : Prop where
  covers : rrsig.typeCovered = rrset.rtype ∧ rrsig.owner.same rrset.owner = true
  signer : rrsig.signerName.same zone = true
  labels : zone.labelCount ≤ rrsig.labels.toNat ∧ rrsig.labels.toNat ≤ rrset.owner.labelCount
  current : rrsig.isCurrent now = true
  usable : mayCheck zone rrsig key = true
  verifies : ∃ data, signedData rrsig rrset = .ok data ∧
    verify key.algorithm key.publicKey data rrsig.signature = .ok true

section Verify

variable {verify : Verify} {rrset : Rrset} {rrsigs : List Rrsig} {keys : List Dnskey} {zone : Name}
  {now : Nat}

variable {rrsig : Rrsig} {tried : Tried}

theorem of_tryKeys {data : Octets} (h : tryKeys verify rrsig data keys tried = .inr ()) :
    ∃ key ∈ keys, verify key.algorithm key.publicKey data rrsig.signature = .ok true := by
  induction keys generalizing tried with
  | nil => cases h
  | cons key rest ih =>
    rw [tryKeys] at h
    split at h
    · rename_i hok
      exact ⟨key, List.mem_cons_self, hok⟩
    · obtain ⟨found, hfound, hok⟩ := ih h
      exact ⟨found, List.mem_cons_of_mem _ hfound, hok⟩
    · obtain ⟨found, hfound, hok⟩ := ih h
      exact ⟨found, List.mem_cons_of_mem _ hfound, hok⟩

theorem of_trySignature {proof : RrsetProof}
    (hcovers : rrsig.typeCovered = rrset.rtype ∧ rrsig.owner.same rrset.owner = true)
    (h : trySignature verify rrset keys zone now rrsig tried = .inr proof) :
    ∃ wildcard, proof = .verified wildcard rrsig.expiration ∧ wildcardOf rrset.owner rrsig = .ok wildcard ∧
      ∃ key ∈ keys, SignedBy verify zone rrset now rrsig key := by
  rw [trySignature] at h
  dsimp only at h
  split at h
  · cases h
  · rename_i hsigner
    split at h
    · cases h
    · rename_i hlabels
      split at h
      · cases h
      · rename_i hcurrent
        split at h
        · cases h
        · rename_i wildcard hwildcard
          split at h
          · cases h
          · rename_i data hdata
            split at h
            · rename_i htry
              cases h
              obtain ⟨key, hkey, hok⟩ := of_tryKeys htry
              obtain ⟨hkey, hmay⟩ := List.mem_filter.mp hkey
              refine ⟨wildcard, rfl, hwildcard, key, hkey, hcovers, ?_, ?_, ?_, hmay, data, hdata, hok⟩
              · rwa [Bool.not_eq_true', Bool.not_eq_false] at hsigner
              · omega
              · rwa [Bool.not_eq_true', Bool.not_eq_false] at hcurrent
            · split at h
              · cases h
              · cases h

theorem lastFailure_of_trySignature {left : Tried}
    (h : trySignature verify rrset keys zone now rrsig tried = .inl left) :
    left.lastFailure.isSome = true := by
  rw [trySignature] at h
  dsimp only at h
  split at h
  · cases h
    rfl
  · split at h
    · cases h
      rfl
    · split at h
      · cases h
        rfl
      · split at h
        · cases h
          rfl
        · split at h
          · cases h
            rfl
          · split at h
            · cases h
            · split at h
              · cases h
                rfl
              · rename_i hsome
                cases h
                rwa [Option.isNone_iff_eq_none, ← ne_eq, Option.ne_none_iff_isSome] at hsome

/-- **A proof rests on one signature and one key.** -/
theorem of_verifyRrset {wildcard : Option Name} {expires : UInt32}
    (h : verifyRrset verify rrset rrsigs keys zone now = .verified wildcard expires) :
    ∃ rrsig ∈ rrsigs, wildcardOf rrset.owner rrsig = .ok wildcard ∧
      ∃ key ∈ keys, SignedBy verify zone rrset now rrsig key := by
  have hall : ∀ (covering : List Rrsig) (tried : Tried),
      (∀ s ∈ covering, s ∈ rrsigs ∧ s.typeCovered = rrset.rtype ∧ s.owner.same rrset.owner = true) →
      trySignatures verify rrset keys zone now covering tried = .verified wildcard expires →
      ∃ rrsig ∈ rrsigs, wildcardOf rrset.owner rrsig = .ok wildcard ∧
        ∃ key ∈ keys, SignedBy verify zone rrset now rrsig key := by
    intro covering
    induction covering with
    | nil => grind [trySignatures]
    | cons rrsig rest ih =>
      intro tried hcovering h
      obtain ⟨hmem, hcovers⟩ := hcovering rrsig List.mem_cons_self
      rw [trySignatures] at h
      split at h
      · rename_i proof htry
        obtain ⟨found, hproof, hwildcard, hkey⟩ := of_trySignature hcovers htry
        rw [h] at hproof
        cases hproof
        exact ⟨rrsig, hmem, hwildcard, hkey⟩
      · exact ih _ (fun s hs => hcovering s (List.mem_cons_of_mem _ hs)) h
  rw [verifyRrset] at h
  split at h
  · cases h
  · refine hall _ _ (fun s hs => ?_) h
    obtain ⟨hmem, hcovers⟩ := List.mem_filter.mp hs
    rw [Bool.and_eq_true, beq_iff_eq] at hcovers
    exact ⟨hmem, hcovers⟩

end Verify

/-! ## One step of the chain -/

def SelfSigned (crypto : Primitives) (zone : Name) (records : List ResourceRecord) (ds : Ds) (now : Nat) :
    Prop :=
  ∃ key ∈ dnskeysAt zone records, key.isZoneKey = true ∧ ds.matchesKey crypto.digests key = true ∧
    ∃ rrsig ∈ rrsigsIn records, SignedBy crypto.verify zone (dnskeyRrset zone records) now rrsig key

/-- **A DNSKEY set is taken for a key of its own that one of the DS records commits to.** -/
theorem of_validateDnskeys {crypto : Primitives} {validator : ChainValidator} {zone : Name}
    {records : List ResourceRecord} {dsSet : List Ds} {keys : List Dnskey}
    (h : validator.validateDnskeys crypto zone records dsSet = .ok keys) :
    keys = dnskeysAt zone records ∧ ∃ ds ∈ dsSet, SelfSigned crypto zone records ds validator.now := by
  rw [ChainValidator.validateDnskeys] at h
  dsimp only at h
  split at h
  · cases h
  · split at h
    · cases h
    · split at h
      · cases h
      · split at h
        · rename_i hverified
          cases h
          obtain ⟨rrsig, hrrsig, -, key, hkey, hsigned⟩ := of_verifyRrset hverified
          rw [ChainValidator.vouched, List.mem_flatMap] at hkey
          obtain ⟨ds, hds, hkey⟩ := hkey
          obtain ⟨hkey, hmatch⟩ := List.mem_filter.mp hkey
          rw [Bool.and_eq_true] at hmatch
          exact ⟨rfl, ds, (List.mem_filter.mp hds).1, key, hkey, hmatch.1, hmatch.2, rrsig, hrrsig, hsigned⟩
        · cases h
        · cases h
        · cases h

/-- **A DS set is taken for a signature of the parent's.** -/
theorem of_validateDelegation {crypto : Primitives} {validator : ChainValidator}
    {evidence : DelegationEvidence} {parent : Name} {parentKeys : List Dnskey} {ds : List Ds}
    (h : validator.validateDelegation crypto evidence parent parentKeys = .secure ds) :
    ds = evidence.ds ∧ ∃ rrsig ∈ evidence.rrsigs, ∃ key ∈ parentKeys,
      SignedBy crypto.verify parent (dsRrset evidence) validator.now rrsig key := by
  rw [ChainValidator.validateDelegation] at h
  split at h
  · split at h
    · cases h
    · split at h <;> cases h
  · split at h
    · rename_i hverified
      cases h
      obtain ⟨rrsig, hrrsig, -, key, hkey, hsigned⟩ := of_verifyRrset hverified
      exact ⟨rfl, rrsig, hrrsig, key, hkey, hsigned⟩
    · cases h
    · cases h
    · cases h

end Rdns.Dnssec
