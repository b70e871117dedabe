import Rdns.Dnssec.SignedRecords
import Rdns.Dnssec.VerificationLaws

/-!
# Rdns — What a checked response rests on

Every record of a response is in one of its RRsets, and each RRset is held to the zone that its
first covering RRSIG names.
-/

namespace Rdns.Dnssec

open Rdns.Lib Rdns.Core

/-! ## RRsets -/

def HeldIn (sets : List Rrset) (rr : ResourceRecord) : Prop :=
  ∃ set ∈ sets, set.holds rr = true ∧ rr.rdata ∈ set.rdatas

theorem holds_self (rr : ResourceRecord) :
    (⟨rr.name.toFolded, rr.rdata.rtype, rr.cls, [rr.rdata]⟩ : Rrset).holds rr = true := by
  rw [Rrset.holds]
  simp only [Name.same_self, beq_self_eq_true, Bool.and_self]

variable {rr : ResourceRecord} {sets : List Rrset}

theorem HeldIn.updateFirst {p : Rrset → Bool} {data : RecordData} (h : HeldIn sets rr) :
    HeldIn (updateFirst p (fun set => { set with rdatas := set.rdatas ++ [data] }) sets) rr := by
  induction sets with
  | nil =>
    obtain ⟨set, hset, -⟩ := h
    cases hset
  | cons first rest ih =>
    obtain ⟨set, hset, hholds, hdata⟩ := h
    rw [Dnssec.updateFirst]
    rcases List.mem_cons.mp hset with rfl | hset
    · split
      · exact ⟨_, List.mem_cons_self, hholds, List.mem_append_left _ hdata⟩
      · exact ⟨set, List.mem_cons_self, hholds, hdata⟩
    · split
      · exact ⟨set, List.mem_cons_of_mem _ hset, hholds, hdata⟩
      · obtain ⟨found, hfound, hrest⟩ := ih ⟨set, hset, hholds, hdata⟩
        exact ⟨found, List.mem_cons_of_mem _ hfound, hrest⟩

theorem heldIn_updateFirst (h : sets.any (·.holds rr) = true) :
    HeldIn (updateFirst (·.holds rr) (fun set => { set with rdatas := set.rdatas ++ [rr.rdata] }) sets) rr := by
  induction sets with
  | nil => cases h
  | cons first rest ih =>
    rw [Dnssec.updateFirst]
    split
    · rename_i hfirst
      exact ⟨_, List.mem_cons_self, hfirst, List.mem_append_right _ (List.mem_singleton_self _)⟩
    · rename_i hfirst
      rw [List.any_cons, Bool.or_eq_true] at h
      obtain ⟨found, hfound, hheld⟩ := ih (h.resolve_left hfirst)
      exact ⟨found, List.mem_cons_of_mem _ hfound, hheld⟩

theorem HeldIn.pushRecord (h : HeldIn sets rr) (other : ResourceRecord) :
    HeldIn (pushRecord sets other) rr := by
  rw [Dnssec.pushRecord]
  split
  · exact h.updateFirst
  · obtain ⟨set, hset, hheld⟩ := h
    exact ⟨set, List.mem_append_left _ hset, hheld⟩

theorem heldIn_pushRecord (sets : List Rrset) (rr : ResourceRecord) : HeldIn (pushRecord sets rr) rr := by
  rw [Dnssec.pushRecord]
  split
  · rename_i hany
    exact heldIn_updateFirst hany
  · exact ⟨_, List.mem_append_right _ (List.mem_singleton_self _), holds_self rr, List.mem_singleton_self _⟩

/-- **No record escapes its RRset.** -/
theorem mem_groupRrsets {records : List ResourceRecord} (h : rr ∈ records)
    (hvalidated : isValidated rr = true) : HeldIn (groupRrsets records) rr := by
  have hkept : ∀ (records : List ResourceRecord) (sets : List Rrset), HeldIn sets rr →
      HeldIn (records.foldl pushRecord sets) rr := by
    intro records
    induction records with
    | nil => exact fun _ h => h
    | cons other rest ih => exact fun sets h => ih _ (h.pushRecord other)
  have hmem : ∀ (records : List ResourceRecord) (sets : List Rrset), rr ∈ records →
      HeldIn (records.foldl pushRecord sets) rr := by
    intro records
    induction records with
    | nil => exact fun _ h => by cases h
    | cons other rest ih =>
      intro sets h
      rcases List.mem_cons.mp h with rfl | h
      · exact hkept rest _ (heldIn_pushRecord sets rr)
      · exact ih _ h
  exact hmem _ _ (List.mem_filter.mpr ⟨h, hvalidated⟩)

/-! ## One RRset -/

/-- What a secure verdict says of an RRset: `zone` is at or above it, its keys are established,
and `rrsig` is a signature under one of them. -/
structure Vouched (verify : Verify) (now : Nat) (rrsigs : List Rrsig) (keys : KeyStore) (set : Rrset)
    (zone : Name) (rrsig : Rrsig) : Prop where
  mem : rrsig ∈ rrsigs
  under : set.owner.isAtOrUnder zone = true
  signed : ∃ zoneKeys key, keys.get zone.toFolded = some zoneKeys ∧ key ∈ zoneKeys ∧
    SignedBy verify zone set now rrsig key

theorem bogus_of_trySignatures {verify : Verify} {rrset : Rrset} {keys : List Dnskey} {zone : Name} {now : Nat}
    {covering : List Rrsig} {tried : Tried} (h : covering ≠ [] ∨ tried.lastFailure.isSome = true) :
    (∃ wildcard expires, trySignatures verify rrset keys zone now covering tried = .verified wildcard expires) ∨
      ∃ reason, trySignatures verify rrset keys zone now covering tried = .bogus reason := by
  induction covering generalizing tried with
  | nil =>
    obtain ⟨failure, hfailure⟩ := Option.isSome_iff_exists.mp (h.resolve_left (not_not.mpr rfl))
    refine .inr ⟨failure, ?_⟩
    rw [trySignatures, hfailure]
    cases tried.unsupported <;> rfl
  | cons rrsig rest ih =>
    rw [trySignatures]
    split
    · rename_i proof htry
      have hverified : ∃ wildcard expires, proof = .verified wildcard expires := by
        rw [trySignature] at htry
        dsimp only at htry
        split at htry
        · cases htry
        · grind
      exact .inl hverified
    · rename_i left htry
      exact ih (.inr (lastFailure_of_trySignature htry))

theorem verifyRrset_cases {verify : Verify} {rrset : Rrset} {rrsigs : List Rrsig} {keys : List Dnskey}
    {zone : Name} {now : Nat} :
    (∃ wildcard expires, verifyRrset verify rrset rrsigs keys zone now = .verified wildcard expires) ∨
      verifyRrset verify rrset rrsigs keys zone now = .unsigned ∨
      ∃ reason, verifyRrset verify rrset rrsigs keys zone now = .bogus reason := by
  rw [verifyRrset]
  split
  · exact .inr (.inl rfl)
  · rename_i hsome
    rw [List.isEmpty_iff] at hsome
    rcases bogus_of_trySignatures (.inl hsome) with hverified | hbogus
    · exact .inl hverified
    · exact .inr (.inr hbogus)

namespace ChainValidator

variable {crypto : Primitives} {validator : ChainValidator} {rrsigs : List Rrsig} {keys : KeyStore}

theorem bogus_of_validateRrset {set : Rrset} {state : ValidationState}
    (h : validator.validateRrset crypto rrsigs keys set = .error state) : state.isBogus = true := by
  rw [validateRrset] at h
  split at h
  · cases h
    rfl
  · dsimp only at h
    split at h
    · cases h
      rfl
    · split at h
      · cases h
        rfl
      · rename_i rrsig _ _ _ zoneKeys _
        rcases @verifyRrset_cases crypto.verify set rrsigs zoneKeys rrsig.signerName validator.now with
          ⟨_, _, hproof⟩ | hproof | ⟨_, hproof⟩
        · rw [hproof] at h
          cases h
        · rw [hproof] at h
          cases h
          rfl
        · rw [hproof] at h
          cases h
          rfl

/-- **A secure RRset is vouched for**, and is an expansion exactly where its signature says so. -/
theorem of_validateRrset {set : Rrset} {expansion : Option WildcardExpansion}
    (h : validator.validateRrset crypto rrsigs keys set = .ok expansion) :
    ∃ zone rrsig wildcard, Vouched crypto.verify validator.now rrsigs keys set zone rrsig ∧
      wildcardOf set.owner rrsig = .ok wildcard ∧
      expansion = wildcard.map fun star => ⟨set.owner, star, zone⟩ := by
  rw [validateRrset] at h
  split at h
  · cases h
  · rename_i first hfirst
    dsimp only at h
    split at h
    · cases h
    · rename_i hunder
      rw [Bool.not_eq_true', Bool.not_eq_false] at hunder
      split at h
      · cases h
      · rename_i zoneKeys hkeys
        split at h
        · rename_i wildcard expires hverified
          cases h
          obtain ⟨rrsig, hmem, hwildcard, key, hkey, hsigned⟩ := of_verifyRrset hverified
          exact ⟨_, rrsig, wildcard, ⟨hmem, hunder, zoneKeys, key, hkeys, hkey, hsigned⟩, hwildcard, rfl⟩
        · cases h
        · cases h
        · cases h

/-! ## All of them -/

theorem bogus_of_validateRrsets {state : ValidationState}
    (h : validator.validateRrsets crypto rrsigs keys sets = .error state) :
    state.isBogus = true := by
  induction sets with
  | nil => cases h
  | cons set rest ih =>
    rw [validateRrsets] at h
    cases hset : validator.validateRrset crypto rrsigs keys set with
    | error e =>
      rw [hset] at h
      cases h
      exact bogus_of_validateRrset hset
    | ok expansion =>
      rw [hset] at h
      cases hrest : validator.validateRrsets crypto rrsigs keys rest with
      | error e =>
        rw [hrest] at h
        cases h
        exact ih hrest
      | ok expansions =>
        rw [hrest] at h
        cases h

theorem of_validateRrsets {expansions : List WildcardExpansion}
    (h : validator.validateRrsets crypto rrsigs keys sets = .ok expansions) :
    ∀ set ∈ sets, ∃ expansion, validator.validateRrset crypto rrsigs keys set = .ok expansion ∧
      expansion.toList ⊆ expansions := by
  induction sets generalizing expansions with
  | nil => exact fun set hset => by cases hset
  | cons first rest ih =>
    rw [validateRrsets] at h
    obtain ⟨expansion, hfirst, h⟩ := except_bind_eq_ok.mp h
    obtain ⟨more, hrest, h⟩ := except_bind_eq_ok.mp h
    cases h
    intro set hset
    rcases List.mem_cons.mp hset with rfl | hset
    · exact ⟨expansion, hfirst, List.subset_append_left _ _⟩
    · obtain ⟨found, hfound, hsub⟩ := ih hrest set hset
      exact ⟨found, hfound, List.Subset.trans hsub (List.subset_append_right _ _)⟩

variable {records : List ResourceRecord}

/-- **Every RRset of a secure response is vouched for**, and what it was expanded from is among
the verdict's wildcards. -/
theorem of_validateRecords (h : (validator.validateRecords crypto records keys).state = .secure) :
    ∀ set ∈ groupRrsets records, ∃ zone rrsig wildcard,
      Vouched crypto.verify validator.now (rrsigsIn records) keys set zone rrsig ∧
      wildcardOf set.owner rrsig = .ok wildcard ∧
      ∀ star, wildcard = some star →
        ⟨set.owner, star, zone⟩ ∈ (validator.validateRecords crypto records keys).wildcards := by
  intro set hset
  rw [validateRecords] at h ⊢
  split at h
  · rename_i state herror
    obtain rfl : state = .secure := h
    have hbogus := bogus_of_validateRrsets herror
    cases hbogus
  · rename_i expansions hok
    obtain ⟨expansion, hvalid, hsub⟩ := of_validateRrsets hok set hset
    obtain ⟨zone, rrsig, wildcard, hvouched, hwildcard, hexpansion⟩ := of_validateRrset hvalid
    refine ⟨zone, rrsig, wildcard, hvouched, hwildcard, fun star hstar => ?_⟩
    subst hstar
    subst hexpansion
    exact hsub (List.mem_singleton_self _)

/-- **One record that nothing vouches for** makes a response bogus. -/
theorem bogus_of_unvouched (hmem : rr ∈ records) (hvalidated : isValidated rr = true)
    (hunvouched : ∀ set ∈ groupRrsets records, set.holds rr = true → ∀ zone rrsig,
      ¬ Vouched crypto.verify validator.now (rrsigsIn records) keys set zone rrsig) :
    (validator.validateRecords crypto records keys).state.isBogus = true := by
  obtain ⟨set, hset, hholds, -⟩ := mem_groupRrsets hmem hvalidated
  rw [validateRecords]
  split
  · rename_i state herror
    exact bogus_of_validateRrsets herror
  · rename_i expansions hok
    obtain ⟨expansion, hvalid, -⟩ := of_validateRrsets hok set hset
    obtain ⟨zone, rrsig, _, hvouched, -⟩ := of_validateRrset hvalid
    exact absurd hvouched (hunvouched set hset hholds zone rrsig)

/-- **One record without a signature** makes a response bogus. -/
theorem bogus_of_unsigned (hmem : rr ∈ records) (hvalidated : isValidated rr = true)
    (hunsigned : ∀ rrsig ∈ rrsigsIn records, rrsig.owner.same rr.name = true →
      rrsig.typeCovered ≠ rr.rdata.rtype) :
    (validator.validateRecords crypto records keys).state.isBogus = true := by
  refine bogus_of_unvouched hmem hvalidated fun set hset hholds zone rrsig hvouched => ?_
  rw [Rrset.holds, Bool.and_eq_true, Bool.and_eq_true, beq_iff_eq] at hholds
  obtain ⟨_, _, -, -, hsigned⟩ := hvouched.signed
  have howner : rrsig.owner.same rr.name = true := by
    have hfolded := (Name.same_iff.mp hsigned.covers.2).trans (Name.same_iff.mp hholds.1.1)
    rw [Name.same_iff, hfolded, Name.toFolded_toFolded]
  exact absurd (hsigned.covers.1.trans hholds.1.2) (hunsigned rrsig hvouched.mem howner)

end ChainValidator

end Rdns.Dnssec
