import Rdns.Dnssec.VerificationLaws
import Rdns.Dnssec.SignedOctets

/-!
# Rdns — What an RRset's signatures come to

`verify_rrset` of `rdns/src/dnssec.rs` over any mix of signatures and keys, in any order. A
signature that verifies is found, and an RRset without one is unsigned; but a signature that
cannot be read leaves "no DNSKEY matches" behind, so that the verdict "unsupported" is never given.
-/

namespace Rdns.Dnssec

open Rdns.Lib Rdns.Core RecordTypes

def covering (rrset : Rrset) (rrsigs : List Rrsig) : List Rrsig :=
  rrsigs.filter fun s => s.typeCovered == rrset.rtype && s.owner.same rrset.owner

structure PassesGates (rrset : Rrset) (zone : Name) (now : Nat) (rrsig : Rrsig) : Prop where
  signer : rrsig.signerName.same zone = true
  labels : zone.labelCount ≤ rrsig.labels.toNat ∧ rrsig.labels.toNat ≤ rrset.owner.labelCount
  current : rrsig.isCurrent now = true

def checked (verify : Verify) (rrset : Rrset) (rrsig : Rrsig) (key : Dnskey) : Option Bool :=
  match signedData rrsig rrset with
  | .ok data => (verify key.algorithm key.publicKey data rrsig.signature).toOption
  | .error _ => none

structure CannotBeRead (verify : Verify) (rrset : Rrset) (keys : List Dnskey) (zone : Name) (now : Nat)
    (rrsig : Rrsig) : Prop where
  gates : PassesGates rrset zone now rrsig
  hasKey : ∃ key ∈ keys, mayCheck zone rrsig key = true
  errors : ∀ key ∈ keys, mayCheck zone rrsig key = true → checked verify rrset rrsig key = none

def Unreadable (verify : Verify) (rrset : Rrset) (rrsigs : List Rrsig) (keys : List Dnskey) (zone : Name)
    (now : Nat) : Prop :=
  covering rrset rrsigs ≠ [] ∧ ∀ rrsig ∈ covering rrset rrsigs, CannotBeRead verify rrset keys zone now rrsig

/-- **What a verdict should be**: verified by a signature that verifies, unsigned without a signature,
and unsupported where no signature can be read. -/
structure VerdictRight (verify : Verify) (rrset : Rrset) (rrsigs : List Rrsig) (keys : List Dnskey)
    (zone : Name) (now : Nat) : Prop where
  verified : (∃ wildcard expires, verifyRrset verify rrset rrsigs keys zone now = .verified wildcard expires) ↔
    ∃ rrsig ∈ covering rrset rrsigs, PassesGates rrset zone now rrsig ∧
      ∃ key ∈ keys, mayCheck zone rrsig key = true ∧ checked verify rrset rrsig key = some true
  unsigned : verifyRrset verify rrset rrsigs keys zone now = .unsigned ↔ covering rrset rrsigs = []
  unsupported : Unreadable verify rrset rrsigs keys zone now →
    ∃ why, verifyRrset verify rrset rrsigs keys zone now = .unsupported why

section Verify

variable {verify : Verify} {rrset : Rrset} {rrsigs : List Rrsig} {keys : List Dnskey} {zone : Name}
  {now : Nat}

variable {rrsig : Rrsig}

theorem checked_eq_true {key : Dnskey} : checked verify rrset rrsig key = some true ↔
    ∃ data, signedData rrsig rrset = .ok data ∧ verify key.algorithm key.publicKey data rrsig.signature = .ok true := by
  unfold checked
  cases signedData rrsig rrset with
  | error e => exact ⟨fun h => (by cases h), fun ⟨_, hdata, _⟩ => (by cases hdata)⟩
  | ok data =>
    refine ⟨fun h => ⟨data, rfl, ?_⟩, fun ⟨_, hdata, hverify⟩ => ?_⟩
    · dsimp only at h
      cases hverify : verify key.algorithm key.publicKey data rrsig.signature with
      | error e => rw [hverify] at h; cases h
      | ok outcome =>
        rw [hverify] at h
        cases h
        rfl
    · cases hdata
      dsimp only
      rw [hverify]
      rfl

/-! ## One signature -/

theorem tryKeys_verified {data : Octets} (tried : Tried)
    (h : ∃ key ∈ keys, verify key.algorithm key.publicKey data rrsig.signature = .ok true) :
    tryKeys verify rrsig data keys tried = .inr () := by
  induction keys generalizing tried with
  | nil =>
    obtain ⟨key, hkey, -⟩ := h
    cases hkey
  | cons first rest ih =>
    obtain ⟨key, hkey, hverify⟩ := h
    rw [tryKeys]
    split
    · rfl
    · rename_i hfalse
      rcases List.mem_cons.mp hkey with rfl | hkey
      · rw [hverify] at hfalse
        cases hfalse
      · exact ih _ ⟨key, hkey, hverify⟩
    · rename_i herror
      rcases List.mem_cons.mp hkey with rfl | hkey
      · rw [hverify] at herror
        cases herror
      · exact ih _ ⟨key, hkey, hverify⟩

theorem wildcardOf_ok {data : Octets} (h : signedData rrsig rrset = .ok data) :
    ∃ wildcard, wildcardOf rrset.owner rrsig = .ok wildcard := by
  obtain ⟨-, signedAt, -, -, hsignedAt, -⟩ := of_signedData h
  unfold wildcardOf
  split
  · rw [hsignedAt]
    exact ⟨_, rfl⟩
  · exact ⟨none, rfl⟩

theorem trySignature_verified (tried : Tried) (hgates : PassesGates rrset zone now rrsig)
    (hkey : ∃ key ∈ keys, mayCheck zone rrsig key = true ∧ checked verify rrset rrsig key = some true) :
    ∃ proof, trySignature verify rrset keys zone now rrsig tried = .inr proof := by
  obtain ⟨key, hmem, hmay, hchecked⟩ := hkey
  obtain ⟨data, hdata, hverify⟩ := checked_eq_true.mp hchecked
  obtain ⟨wildcard, hwildcard⟩ := wildcardOf_ok hdata
  have hlabels : ¬ (rrsig.labels.toNat > rrset.owner.labelCount ∨ rrsig.labels.toNat < zone.labelCount) := by
    have := hgates.labels
    omega
  have htry := @tryKeys_verified verify (keys.filter (mayCheck zone rrsig)) rrsig data tried
    ⟨key, List.mem_filter.mpr ⟨hmem, hmay⟩, hverify⟩
  refine ⟨.verified wildcard rrsig.expiration, ?_⟩
  unfold trySignature
  dsimp only
  rw [if_neg (by rw [hgates.signer]; decide), if_neg hlabels, if_neg (by rw [hgates.current]; decide), hwildcard]
  dsimp only
  rw [hdata]
  dsimp only
  rw [htry]

/-! ## All of them -/

/-- **Signatures that were tried are a proof, or bogus.** -/
theorem trySignatures_kind {signatures : List Rrsig} {tried : Tried}
    (hcovers : ∀ s ∈ signatures, s.typeCovered = rrset.rtype ∧ s.owner.same rrset.owner = true)
    (hstarted : signatures ≠ [] ∨ tried.lastFailure.isSome = true) :
    (∃ wildcard expires, trySignatures verify rrset keys zone now signatures tried = .verified wildcard expires) ∨
      ∃ reason, trySignatures verify rrset keys zone now signatures tried = .bogus reason := by
  induction signatures generalizing tried with
  | nil =>
    obtain ⟨failure, hfailure⟩ := Option.isSome_iff_exists.mp (hstarted.resolve_left (fun h => h rfl))
    rw [trySignatures, hfailure]
    cases tried.unsupported with
    | none => exact .inr ⟨failure, rfl⟩
    | some why => exact .inr ⟨failure, rfl⟩
  | cons rrsig rest ih =>
    rw [trySignatures]
    cases htry : trySignature verify rrset keys zone now rrsig tried with
    | inr proof =>
      obtain ⟨wildcard, rfl, -⟩ := of_trySignature (hcovers rrsig List.mem_cons_self) htry
      exact .inl ⟨wildcard, rrsig.expiration, rfl⟩
    | inl tried' =>
      exact ih (fun s hs => hcovers s (List.mem_cons_of_mem _ hs)) (.inr (lastFailure_of_trySignature htry))

theorem trySignatures_verified {signatures : List Rrsig} {tried : Tried}
    (hcovers : ∀ s ∈ signatures, s.typeCovered = rrset.rtype ∧ s.owner.same rrset.owner = true)
    (hgood : ∃ rrsig ∈ signatures, PassesGates rrset zone now rrsig ∧
      ∃ key ∈ keys, mayCheck zone rrsig key = true ∧ checked verify rrset rrsig key = some true) :
    ∃ wildcard expires, trySignatures verify rrset keys zone now signatures tried = .verified wildcard expires := by
  induction signatures generalizing tried with
  | nil =>
    obtain ⟨rrsig, hmem, -⟩ := hgood
    cases hmem
  | cons first rest ih =>
    rw [trySignatures]
    cases htry : trySignature verify rrset keys zone now first tried with
    | inr proof =>
      obtain ⟨wildcard, rfl, -⟩ := of_trySignature (hcovers first List.mem_cons_self) htry
      exact ⟨wildcard, first.expiration, rfl⟩
    | inl tried' =>
      obtain ⟨rrsig, hmem, hgates, hkey⟩ := hgood
      rcases List.mem_cons.mp hmem with rfl | hmem
      · obtain ⟨proof, hproof⟩ := trySignature_verified tried hgates hkey
        rw [htry] at hproof
        cases hproof
      · exact ih (fun s hs => hcovers s (List.mem_cons_of_mem _ hs)) ⟨rrsig, hmem, hgates, hkey⟩

theorem covers_of_mem (h : rrsig ∈ covering rrset rrsigs) :
    rrsig.typeCovered = rrset.rtype ∧ rrsig.owner.same rrset.owner = true := by
  have hcovers := (List.mem_filter.mp h).2
  rwa [Bool.and_eq_true, beq_iff_eq] at hcovers

theorem verifyRrset_eq : verifyRrset verify rrset rrsigs keys zone now =
    if covering rrset rrsigs = [] then .unsigned
    else trySignatures verify rrset keys zone now (covering rrset rrsigs) ⟨none, none⟩ := by
  unfold verifyRrset
  dsimp only
  rw [show (rrsigs.filter fun s => s.typeCovered == rrset.rtype && s.owner.same rrset.owner) =
    covering rrset rrsigs from rfl]
  simp only [List.isEmpty_iff]

/-- **An RRset is verified by exactly the signatures that verify.** -/
theorem verdict_verified_iff :
    (∃ wildcard expires, verifyRrset verify rrset rrsigs keys zone now = .verified wildcard expires) ↔
      ∃ rrsig ∈ covering rrset rrsigs, PassesGates rrset zone now rrsig ∧
        ∃ key ∈ keys, mayCheck zone rrsig key = true ∧ checked verify rrset rrsig key = some true := by
  constructor
  · rintro ⟨wildcard, expires, h⟩
    obtain ⟨rrsig, hmem, -, key, hkey, hsigned⟩ := of_verifyRrset h
    refine ⟨rrsig, List.mem_filter.mpr ⟨hmem, ?_⟩, ⟨hsigned.signer, hsigned.labels, hsigned.current⟩, key, hkey,
      hsigned.usable, checked_eq_true.mpr hsigned.verifies⟩
    rw [Bool.and_eq_true, beq_iff_eq]
    exact hsigned.covers
  · intro hgood
    have hsome : covering rrset rrsigs ≠ [] := by
      obtain ⟨rrsig, hmem, -⟩ := hgood
      exact List.ne_nil_of_mem hmem
    rw [verifyRrset_eq, if_neg hsome]
    exact trySignatures_verified (fun _ => covers_of_mem) hgood

theorem verdict_kind (h : covering rrset rrsigs ≠ []) :
    (∃ wildcard expires, verifyRrset verify rrset rrsigs keys zone now = .verified wildcard expires) ∨
      ∃ reason, verifyRrset verify rrset rrsigs keys zone now = .bogus reason := by
  rw [verifyRrset_eq, if_neg h]
  exact trySignatures_kind (fun _ => covers_of_mem) (.inl h)

end Verify

/-- **When the verdict is the right one**: unless the RRset is signed, and by nothing that can be
read. -/
theorem verdicts_right_iff (verify : Verify) (rrset : Rrset) (rrsigs : List Rrsig) (keys : List Dnskey)
    (zone : Name) (now : Nat) : VerdictRight verify rrset rrsigs keys zone now ↔
      ¬ Unreadable verify rrset rrsigs keys zone now := by
  constructor
  · intro hright hunreadable
    obtain ⟨why, hwhy⟩ := hright.unsupported hunreadable
    rcases verdict_kind hunreadable.1 with ⟨wildcard, expires, h⟩ | ⟨reason, h⟩
    · rw [h] at hwhy
      cases hwhy
    · rw [h] at hwhy
      cases hwhy
  · intro hreadable
    refine ⟨verdict_verified_iff, ?_, fun h => absurd h hreadable⟩
    constructor
    · intro hunsigned
      by_contra hsome
      rcases verdict_kind hsome with ⟨wildcard, expires, h⟩ | ⟨reason, h⟩
      · rw [h] at hunsigned
        cases hunsigned
      · rw [h] at hunsigned
        cases hunsigned
    · intro hnone
      rw [verifyRrset_eq, if_pos hnone]

/-! ## A key that cannot be read -/

def shortKey : Dnskey := ⟨Name.root, 257, 3, 8, [1]⟩

def rootAddresses : Rrset := ⟨Name.root, A, .IN, [⟨A, [192, 0, 2, 1]⟩]⟩

def shortKeySignature : Rrsig :=
  ⟨Name.root, A, 8, 0, 300, 1600000000, 1800000000, shortKey.keyTag, Name.root, [0]⟩

def malformed : Verify := fun _ _ _ _ => .error (.malformedKey "RSA exponent is missing")

/-- **A signature that cannot be read is called forged.** -/
theorem unreadable_is_bogus : ¬ ∀ (verify : Verify) (rrset : Rrset) (rrsigs : List Rrsig) (keys : List Dnskey)
    (zone : Name) (now : Nat), VerdictRight verify rrset rrsigs keys zone now := by
  intro h
  have hcovering : covering rootAddresses [shortKeySignature] = [shortKeySignature] := by decide
  have herror : ∀ key, checked malformed rootAddresses shortKeySignature key = none := by
    intro key
    unfold checked
    cases signedData shortKeySignature rootAddresses <;> rfl
  have hunreadable : Unreadable malformed rootAddresses [shortKeySignature] [shortKey] Name.root 1700000000 := by
    refine ⟨by rw [hcovering]; exact List.cons_ne_nil _ _, fun rrsig hmem => ?_⟩
    rw [hcovering, List.mem_singleton] at hmem
    subst hmem
    exact ⟨⟨by decide, by decide, by decide⟩, ⟨shortKey, List.mem_singleton_self _, by decide⟩, fun key _ _ => herror key⟩
  obtain ⟨why, hwhy⟩ := (h malformed rootAddresses [shortKeySignature] [shortKey] Name.root 1700000000).unsupported
    hunreadable
  rcases @verdict_kind malformed rootAddresses [shortKeySignature] [shortKey] Name.root 1700000000
      hunreadable.1 with ⟨wildcard, expires, hverified⟩ | ⟨reason, hbogus⟩
  · rw [hverified] at hwhy
    cases hwhy
  · rw [hbogus] at hwhy
    cases hwhy

end Rdns.Dnssec
