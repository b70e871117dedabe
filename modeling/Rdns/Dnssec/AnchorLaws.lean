import Rdns.Dnssec.ManagedAnchors
import Rdns.Dnssec.SignerLayout

/-!
# Rdns — What a followed trust anchor is worth

A key that no configured DS vouches for is to be trusted after a hold-down in which it was
published all along, and one that has revoked itself is never to be trusted again. The
tracker sees the REVOKE bit only on a key it already follows, keeps a pending key that is
published with REVOKE but not signed by it, and forgets a revoked key in the end.
-/

namespace Rdns.Dnssec

open Rdns.Lib Rdns.Core Rdns.Present Rdns.Zones

/-! ## Keys -/

namespace Dnskey

theorem sameKey_iff {a b : Dnskey} : a.sameKey b = true ↔ a.algorithm = b.algorithm ∧
    a.protocol = b.protocol ∧ a.publicKey = b.publicKey ∧ a.owner.toFolded = b.owner.toFolded := by
  simp only [sameKey, Bool.and_eq_true, beq_iff_eq, and_assoc, Name.same_iff]

theorem sameKey_refl (a : Dnskey) : a.sameKey a = true := sameKey_iff.mpr ⟨rfl, rfl, rfl, rfl⟩

theorem sameKey_symm {a b : Dnskey} (h : a.sameKey b = true) : b.sameKey a = true := by
  obtain ⟨halg, hproto, hkey, howner⟩ := sameKey_iff.mp h
  exact sameKey_iff.mpr ⟨halg.symm, hproto.symm, hkey.symm, howner.symm⟩

theorem sameKey_trans {a b c : Dnskey} (hab : a.sameKey b = true) (hbc : b.sameKey c = true) :
    a.sameKey c = true := by
  obtain ⟨halg, hproto, hkey, howner⟩ := sameKey_iff.mp hab
  obtain ⟨halg', hproto', hkey', howner'⟩ := sameKey_iff.mp hbc
  exact sameKey_iff.mpr ⟨halg.trans halg', hproto.trans hproto', hkey.trans hkey', howner.trans howner'⟩

theorem owner_of_sameKey {a b : Dnskey} {zone : Name} (h : a.sameKey b = true)
    (hzone : a.owner.same zone = true) : b.owner.same zone = true := by
  obtain ⟨-, -, -, howner⟩ := sameKey_iff.mp h
  rw [Name.same_iff] at hzone ⊢
  rw [← howner, hzone]

/-- **What a DS digests says which key it is**, flags and all. -/
theorem of_digestInput {a b : Dnskey} (h : a.digestInput = b.digestInput) :
    a.sameKey b = true ∧ a.flags = b.flags ∧ a.rdata = b.rdata := by
  obtain ⟨hlabels, hrdata⟩ := wireOf_append_injective a.owner.toFolded.labels_ok b.owner.toFolded.labels_ok h
  have hsplit : be16 a.flags ++ ([a.protocol, a.algorithm] ++ a.publicKey) =
      be16 b.flags ++ ([b.protocol, b.algorithm] ++ b.publicKey) := by
    rw [← List.append_assoc, ← List.append_assoc]
    exact hrdata
  obtain ⟨hflags, hrest⟩ := List.append_inj hsplit rfl
  simp only [List.cons_append, List.nil_append, List.cons.injEq] at hrest
  refine ⟨sameKey_iff.mpr ⟨hrest.2.1, hrest.1, hrest.2.2, Name.ext hlabels⟩, ?_, hrdata⟩
  simp only [be16, List.cons.injEq] at hflags
  rw [← ofBe16_be16 a.flags, ← ofBe16_be16 b.flags, hflags.1, hflags.2.1]

end Dnskey

theorem matchesKey_congr {digests : DsDigests} {d : Ds} {a b : Dnskey} (h : a.digestInput = b.digestInput) :
    d.matchesKey digests a = d.matchesKey digests b := by
  obtain ⟨hsame, -, hrdata⟩ := Dnskey.of_digestInput h
  rw [Ds.matchesKey, Ds.matchesKey, Dnskey.keyTag, Dnskey.keyTag, hrdata, (Dnskey.sameKey_iff.mp hsame).1,
    DsDigests.digest, DsDigests.digest, h]

/-! ## What is asked of the tracker -/

def Observation.ShowsPlain (o : Observation) (key : Dnskey) : Prop :=
  ∃ k ∈ o.seen, k.sameKey key = true ∧ k.isRevoked = false

def Observation.Revokes (o : Observation) (r : Dnskey) : Prop :=
  r ∈ o.seen ∧ r.isRevoked = true ∧ ∃ signer ∈ o.selfSigners, signer.sameKey r = true

def HeldFor (history : List Observation) (key : Dnskey) : Prop :=
  ∃ before span after first last, history = before ++ span ++ after ∧ span.head? = some first ∧
    span.getLast? = some last ∧ first.now + ADD_HOLD_DOWN ≤ last.now ∧ ∀ o ∈ span, o.ShowsPlain key

def ManagedAnchors.Trusts (digests : DsDigests) (m : ManagedAnchors) (key : Dnskey) : Prop :=
  ∃ d ∈ m.trustAnchors digests, d.matchesKey digests key = true

/-- **An observation the tracker is up to**, given those before it and the keys tracked. -/
structure Unbroken (digests : DsDigests) (m : ManagedAnchors) (history : List Observation) (o : Observation) :
    Prop where
  held : ∀ t ∈ m.keys, t.state = .addPend → (∃ k ∈ o.seen, k.sameKey t.key = true) →
    o.ShowsPlain t.key ∨ ∃ r, o.Revokes r ∧ t.key.sameKey r = true
  tracked : ∀ r, o.Revokes r → ∀ d ∈ m.ds, ∀ k : Dnskey, k.sameKey r = true →
    d.matchesKey digests k = true → ∃ t ∈ m.keys, t.key.sameKey r = true ∧ d.matchesKey digests t.key = true
  remembered : ∀ t ∈ m.keys, t.state = .revoked → (∃ d ∈ m.ds, d.matchesKey digests t.key = true) →
    (∃ k ∈ o.seen, k.sameKey t.key = true) ∨ o.now - t.since < REMOVE_HOLD_DOWN
  final : ∀ k ∈ o.seen, k.isRevoked = false → k.isCandidateAnchor = true →
    (∃ o' ∈ history ++ [o], ∃ r, o'.Revokes r ∧ k.sameKey r = true) →
    ∃ t ∈ m.keys, t.key.sameKey k = true

/-! ## Lists of tracked keys -/

section Lists

variable {keys : List TrackedKey} {p : TrackedKey → Bool} {f : TrackedKey → TrackedKey}

theorem of_mem_updateFirst {t : TrackedKey} (h : t ∈ updateFirst p f keys) :
    t ∈ keys ∨ ∃ u, keys.find? p = some u ∧ t = f u := by
  induction keys with
  | nil => cases h
  | cons u rest ih =>
    rw [updateFirst] at h
    rw [List.find?_cons]
    split at h
    next hp =>
      rw [hp]
      rcases List.mem_cons.mp h with rfl | h
      · exact .inr ⟨u, rfl, rfl⟩
      · exact .inl (List.mem_cons_of_mem _ h)
    next hp =>
      rw [Bool.not_eq_true] at hp
      rw [hp]
      rcases List.mem_cons.mp h with rfl | h
      · exact .inl List.mem_cons_self
      · rcases ih h with h | h
        · exact .inl (List.mem_cons_of_mem _ h)
        · exact .inr h

theorem mem_updateFirst {t : TrackedKey} (h : t ∈ keys) : t ∈ updateFirst p f keys ∨ keys.find? p = some t := by
  induction keys with
  | nil => cases h
  | cons u rest ih =>
    rw [updateFirst, List.find?_cons]
    split
    next hp =>
      rw [hp]
      rcases List.mem_cons.mp h with rfl | h
      · exact .inr rfl
      · exact .inl (List.mem_cons_of_mem _ h)
    next hp =>
      rw [Bool.not_eq_true] at hp
      rw [hp]
      rcases List.mem_cons.mp h with rfl | h
      · exact .inl List.mem_cons_self
      · rcases ih h with h | h
        · exact .inl (List.mem_cons_of_mem _ h)
        · exact .inr h

theorem updated_mem {u : TrackedKey} (h : keys.find? p = some u) : f u ∈ updateFirst p f keys := by
  induction keys with
  | nil => cases h
  | cons v rest ih =>
    rw [List.find?_cons] at h
    rw [updateFirst]
    split at h
    next hp =>
      rw [if_pos hp]
      exact Option.some.inj h ▸ List.mem_cons_self
    next hp =>
      rw [if_neg (by rw [hp]; decide)]
      exact List.mem_cons_of_mem _ (ih h)

theorem keys_updateFirst (hf : ∀ t, (f t).key = t.key) :
    (updateFirst p f keys).map TrackedKey.key = keys.map TrackedKey.key := by
  induction keys with
  | nil => rfl
  | cons u rest ih =>
    rw [updateFirst]
    split
    · rw [List.map_cons, List.map_cons, hf]
    · rw [List.map_cons, List.map_cons, ih]

def Distinct (keys : List TrackedKey) : Prop :=
  (keys.map TrackedKey.key).Pairwise fun a b => a.sameKey b = false

theorem Distinct.eq (h : Distinct keys) {t u : TrackedKey} (ht : t ∈ keys) (hu : u ∈ keys)
    (hsame : t.key.sameKey u.key = true) : t = u := by
  rw [Distinct] at h
  induction keys with
  | nil => cases ht
  | cons v rest ih =>
    obtain ⟨hfirst, hrest⟩ := List.pairwise_cons.mp h
    rcases List.mem_cons.mp ht with rfl | htrest
    · rcases List.mem_cons.mp hu with rfl | hurest
      · rfl
      · rw [hfirst _ (List.mem_map_of_mem hurest)] at hsame
        cases hsame
    · rcases List.mem_cons.mp hu with rfl | hurest
      · exact absurd (Dnskey.sameKey_symm hsame) (by rw [hfirst _ (List.mem_map_of_mem htrest)]; decide)
      · exact ih hrest htrest hurest

theorem sweep_fst {step : List TrackedKey → Dnskey → List TrackedKey × Option ChangeKind × UInt16} {zone : Text}
    (seen : List Dnskey) (acc : List TrackedKey × List AnchorChange) :
    (sweep step zone acc seen).1 = seen.foldl (fun keys key => (step keys key).1) acc.1 := by
  induction seen generalizing acc with
  | nil => rfl
  | cons key seen ih => exact ih _

end Lists

/-! ## In the middle of an observation -/

def Pending (history : List Observation) (t : TrackedKey) : Prop :=
  ∃ before span first, history = before ++ span ∧ span.head? = some first ∧ first.now = t.since ∧
    ∀ o ∈ span, o.ShowsPlain t.key

def RevokedIn (history : List Observation) (r : Dnskey) : Prop := ∃ o ∈ history, o.Revokes r

/-- What the tracked keys say while an observation is taken in, `gone` being the revocations
that have been. -/
structure Mid (digests : DsDigests) (zone : Name) (m : ManagedAnchors) (history : List Observation)
    (o : Observation) (gone : Dnskey → Prop) (keys : List TrackedKey) : Prop where
  in_zone : ∀ t ∈ keys, t.key.owner.same zone = true
  distinct : Distinct keys
  seen : ∀ t ∈ keys, ∃ o' ∈ history ++ [o], t.key ∈ o'.seen
  keeps : ∀ t ∈ m.keys, ∃ t' ∈ keys, t'.key = t.key
  pending : ∀ t ∈ keys, t.state = .addPend →
    (t ∈ m.keys ∧ Pending history t) ∨ (t.since = o.now ∧ o.ShowsPlain t.key)
  trusted : ∀ t ∈ keys, t.state.isAnchor = true →
    (∃ d ∈ m.ds, d.matchesKey digests t.key = true) ∨ HeldFor (history ++ [o]) t.key
  revoked : ∀ t ∈ keys, t.state = .revoked → t ∈ m.keys ∨ t.since = o.now
  final : ∀ r, gone r → ∀ t ∈ keys, t.key.sameKey r = true → t.state = .revoked
  kept : ∀ r, gone r → ∀ d ∈ m.ds, ∀ k : Dnskey, k.sameKey r = true → d.matchesKey digests k = true →
    ∃ t ∈ keys, t.state = .revoked ∧ t.key.sameKey r = true ∧ d.matchesKey digests t.key = true

section Passes

variable {digests : DsDigests} {zone : Name} {m : ManagedAnchors} {history : List Observation} {o : Observation}
  {gone : Dnskey → Prop} {keys : List TrackedKey}

theorem Mid.update (h : Mid digests zone m history o gone keys) {key : Dnskey} {u : TrackedKey}
    (hu : keys.find? (fun t => t.key.sameKey key) = some u) (hne : u.state ≠ .revoked) {state : KeyState}
    (hstate : state ≠ .addPend) (htrusted : state.isAnchor = true →
      (∃ d ∈ m.ds, d.matchesKey digests u.key = true) ∨ HeldFor (history ++ [o]) u.key) :
    Mid digests zone m history o gone
      (updateFirst (fun t => t.key.sameKey key) (fun t => { t with state := state, since := o.now }) keys) := by
  have hmem := List.mem_of_find?_eq_some hu
  have hold : ∀ t ∈ updateFirst (fun t => t.key.sameKey key)
      (fun t => { t with state := state, since := o.now }) keys,
      t ∈ keys ∨ t = { u with state := state, since := o.now } := by
    intro t ht
    rcases of_mem_updateFirst ht with ht | ⟨v, hv, rfl⟩
    · exact .inl ht
    · obtain rfl := Option.some.inj (hu.symm.trans hv)
      exact .inr rfl
  have hkeys := @keys_updateFirst keys (fun t => t.key.sameKey key)
    (fun t => { t with state := state, since := o.now }) fun t => rfl
  refine ⟨fun t ht => ?_, ?_, fun t ht => ?_, fun t ht => ?_, fun t ht hpend => ?_, fun t ht hanchor => ?_,
    fun t ht hrev => ?_, fun r hr t ht hsame => ?_, fun r hr d hd k hk hmatch => ?_⟩
  · rcases hold t ht with ht | rfl
    · exact h.in_zone t ht
    · exact h.in_zone u hmem
  · rw [Distinct, hkeys]
    exact h.distinct
  · rcases hold t ht with ht | rfl
    · exact h.seen t ht
    · exact h.seen u hmem
  · obtain ⟨t', ht', hkey⟩ := h.keeps t ht
    have hin : t.key ∈ (updateFirst (fun t => t.key.sameKey key)
        (fun t => { t with state := state, since := o.now }) keys).map TrackedKey.key := by
      rw [hkeys, ← hkey]
      exact List.mem_map_of_mem ht'
    obtain ⟨t'', ht'', hkey''⟩ := List.mem_map.mp hin
    exact ⟨t'', ht'', hkey''⟩
  · rcases hold t ht with ht | rfl
    · exact h.pending t ht hpend
    · exact absurd hpend hstate
  · rcases hold t ht with ht | rfl
    · exact h.trusted t ht hanchor
    · exact htrusted hanchor
  · rcases hold t ht with ht | rfl
    · exact h.revoked t ht hrev
    · exact .inr rfl
  · rcases hold t ht with ht | rfl
    · exact h.final r hr t ht hsame
    · exact absurd (h.final r hr u hmem hsame) hne
  · obtain ⟨t, ht, hrev, hsame, htmatch⟩ := h.kept r hr d hd k hk hmatch
    refine ⟨t, ?_, hrev, hsame, htmatch⟩
    rcases mem_updateFirst ht with ht | ht
    · exact ht
    · obtain rfl := Option.some.inj (hu.symm.trans ht)
      exact absurd hrev hne

theorem Mid.revokeKey (h : Mid digests zone m history o gone keys) (hunbroken : Unbroken digests m history o)
    {key : Dnskey} (hseen : key ∈ o.seen) :
    Mid digests zone m history o (fun r => gone r ∨ (r = key ∧ o.Revokes r))
      (ManagedAnchors.revokeKey o.selfSigners o.now keys key).1 := by
  -- with every tracked form revoked, the revocation counts
  have hcount : ∀ {keys' : List TrackedKey}, Mid digests zone m history o gone keys' →
      (o.Revokes key → ∀ t ∈ keys', t.key.sameKey key = true → t.state = .revoked) →
      Mid digests zone m history o (fun r => gone r ∨ (r = key ∧ o.Revokes r)) keys' := by
    intro keys' h' hall
    refine { h' with final := fun r hr t ht hsame => ?_, kept := fun r hr d hd k hk hmatch => ?_ }
    · rcases hr with hr | ⟨rfl, hrev⟩
      · exact h'.final r hr t ht hsame
      · exact hall hrev t ht hsame
    · rcases hr with hr | ⟨rfl, hrev⟩
      · exact h'.kept r hr d hd k hk hmatch
      · obtain ⟨t, ht, hsame, htmatch⟩ := hunbroken.tracked r hrev d hd k hk hmatch
        obtain ⟨t', ht', hkey⟩ := h'.keeps t ht
        rw [← hkey] at hsame htmatch
        exact ⟨t', ht', hall hrev t' ht' hsame, hsame, htmatch⟩
  rw [ManagedAnchors.revokeKey]
  split
  next hplain =>
    refine hcount h fun hrev => ?_
    rw [hrev.2.1] at hplain
    cases hplain
  · split
    next hsigners =>
      refine hcount h fun hrev => ?_
      rw [List.any_eq_true.mpr hrev.2.2] at hsigners
      cases hsigners
    · split
      next hnone =>
        refine hcount h fun _ t ht hsame => ?_
        exact absurd hsame (List.find?_eq_none.mp hnone t ht)
      next u hu =>
        have husame := List.find?_some hu
        have humem := List.mem_of_find?_eq_some hu
        split
        next hstate =>
          refine hcount h fun _ t ht hsame => ?_
          rw [h.distinct.eq ht humem (Dnskey.sameKey_trans hsame (Dnskey.sameKey_symm husame)), hstate]
        next hstate =>
          have hupdated := @Mid.update _ _ _ _ _ _ _ h _ _ hu hstate .revoked (by decide) nofun
          refine hcount hupdated fun _ t ht hsame => ?_
          have hmoved := @updated_mem keys (fun t => t.key.sameKey key)
            (fun t => { t with state := .revoked, since := o.now }) u hu
          rw [hupdated.distinct.eq ht hmoved (Dnskey.sameKey_trans hsame (Dnskey.sameKey_symm husame))]

theorem Pending.concat {t : TrackedKey} (h : Pending history t) (hplain : o.ShowsPlain t.key) :
    Pending (history ++ [o]) t := by
  obtain ⟨before, span, first, rfl, hfirst, hnow, hall⟩ := h
  refine ⟨before, span ++ [o], first, List.append_assoc .., ?_, hnow, fun o' ho' => ?_⟩
  · rw [List.head?_append, hfirst]
    rfl
  · rcases List.mem_append.mp ho' with ho' | ho'
    · exact hall o' ho'
    · exact List.mem_singleton.mp ho' ▸ hplain

theorem HeldFor.concat {key : Dnskey} (h : HeldFor history key) : HeldFor (history ++ [o]) key := by
  obtain ⟨before, span, after, first, last, rfl, hrest⟩ := h
  exact ⟨before, span, after ++ [o], first, last, List.append_assoc .., hrest⟩

theorem heldFor_of_elapsed {t : TrackedKey} (h : Pending history t) (hplain : o.ShowsPlain t.key)
    (helapsed : t.holdDownElapsed o.now = true) : HeldFor (history ++ [o]) t.key := by
  obtain ⟨before, span, first, hsplit, hfirst, hnow, hall⟩ := h.concat hplain
  rw [TrackedKey.holdDownElapsed, decide_eq_true_eq] at helapsed
  have hlast : span.getLast? = some o := by
    have hend := congrArg List.getLast? hsplit
    rw [List.getLast?_concat, List.getLast?_append] at hend
    cases hspan : span.getLast? with
    | none =>
      rw [List.getLast?_eq_none_iff.mp hspan] at hfirst
      cases hfirst
    | some last =>
      rw [hspan, Option.some_or] at hend
      exact hend.symm
  have hhold : 0 < ADD_HOLD_DOWN := by decide
  exact ⟨before, span, [], first, o, by rw [List.append_nil]; exact hsplit, hfirst, hlast, by omega, hall⟩

theorem Mid.meetKey (h : Mid digests zone m history o (RevokedIn (history ++ [o])) keys)
    (hunbroken : Unbroken digests m history o) {key : Dnskey} (hseen : key ∈ o.seen)
    (hzone : key.owner.same zone = true) :
    Mid digests zone m history o (RevokedIn (history ++ [o]))
      (ManagedAnchors.meetKey digests m.ds o.now keys key).1 := by
  rw [ManagedAnchors.meetKey]
  split
  · exact h
  next hplain =>
    rw [Bool.not_eq_true] at hplain
    split
    · exact h
    next hcandidate =>
      rw [Bool.not_eq_true, Bool.not_eq_false'] at hcandidate
      split
      next hnone =>
        -- a key that is not tracked yet
        have hnew : ∀ t ∈ keys, t.key.sameKey key = false :=
          fun t ht => Bool.not_eq_true _ ▸ List.find?_eq_none.mp hnone t ht
        have hcases : ∀ {P : TrackedKey → Prop}, (∀ t ∈ keys, P t) →
            P ⟨key, if ManagedAnchors.isAnchored digests m.ds key then .valid else .addPend, o.now⟩ →
            ∀ t ∈ keys ++ [⟨key, if ManagedAnchors.isAnchored digests m.ds key then .valid else .addPend, o.now⟩],
              P t := by
          intro P hold hlast t ht
          rcases List.mem_append.mp ht with ht | ht
          · exact hold t ht
          · exact List.mem_singleton.mp ht ▸ hlast
        refine ⟨hcases h.in_zone hzone, ?_, hcases h.seen ?_, fun t ht => ?_, hcases h.pending fun _ => ?_,
          hcases h.trusted fun hanchor => ?_, hcases h.revoked fun _ => .inr rfl,
          fun r hr => hcases (h.final r hr) fun hsame => ?_, fun r hr d hd k hk hmatch => ?_⟩
        · rw [Distinct, List.map_append, List.pairwise_append]
          refine ⟨h.distinct, List.pairwise_singleton .., fun a ha b hb => ?_⟩
          obtain ⟨t, ht, rfl⟩ := List.mem_map.mp ha
          rw [List.mem_singleton.mp hb]
          exact hnew t ht
        · exact ⟨o, List.mem_append_right _ List.mem_cons_self, hseen⟩
        · obtain ⟨t', ht', hkey⟩ := h.keeps t ht
          exact ⟨t', List.mem_append_left _ ht', hkey⟩
        · exact .inr ⟨rfl, key, hseen, Dnskey.sameKey_refl key, hplain⟩
        · split at hanchor
          next hanchored =>
            obtain ⟨d, hd, hmatch⟩ := List.any_eq_true.mp hanchored
            exact .inl ⟨d, hd, (Bool.and_eq_true_iff.mp hmatch).2⟩
          · cases hanchor
        · -- it would have revoked itself and been forgotten, or never been followed
          obtain ⟨o', ho', hrev⟩ := hr
          obtain ⟨t, ht, htsame⟩ := hunbroken.final key hseen hplain hcandidate ⟨o', ho', r, hrev, hsame⟩
          obtain ⟨t', ht', hkey⟩ := h.keeps t ht
          rw [← hkey, hnew t' ht'] at htsame
          cases htsame
        · obtain ⟨t, ht, hrest⟩ := h.kept r hr d hd k hk hmatch
          exact ⟨t, List.mem_append_left _ ht, hrest⟩
      next u hu =>
        have husame := List.find?_some hu
        have humem := List.mem_of_find?_eq_some hu
        have hshows : o.ShowsPlain u.key := ⟨key, hseen, Dnskey.sameKey_symm husame, hplain⟩
        dsimp only
        split
        next hstate =>
          split
          next helapsed =>
            refine h.update hu (by rw [hstate]; decide) (by decide) fun _ => .inr ?_
            rcases h.pending u humem hstate with ⟨-, hpending⟩ | ⟨hsince, -⟩
            · exact heldFor_of_elapsed hpending hshows helapsed
            · rw [TrackedKey.holdDownElapsed, hsince, Nat.sub_self] at helapsed
              cases helapsed
          · exact h
        next hstate =>
          exact h.update hu (by rw [hstate]; decide) (by decide) fun _ => h.trusted u humem (by rw [hstate]; rfl)
        · exact h
        · exact h

theorem Mid.revokePass (hunbroken : Unbroken digests m history o) {seen : List Dnskey}
    (hseen : ∀ key ∈ seen, key ∈ o.seen) (h : Mid digests zone m history o gone keys) :
    Mid digests zone m history o (fun r => gone r ∨ (r ∈ seen ∧ o.Revokes r))
      (seen.foldl (fun keys key => (ManagedAnchors.revokeKey o.selfSigners o.now keys key).1) keys) := by
  induction seen generalizing gone keys with
  | nil =>
    have hgone : (fun r => gone r ∨ (r ∈ ([] : List Dnskey) ∧ o.Revokes r)) = gone :=
      funext fun r => propext ⟨fun hr => hr.resolve_right fun hin => List.not_mem_nil hin.1, .inl⟩
    rw [hgone]
    exact h
  | cons key seen ih =>
    have hstep := ih (fun k hk => hseen k (List.mem_cons_of_mem _ hk))
      (h.revokeKey hunbroken (hseen key List.mem_cons_self))
    have hgone : (fun r => (gone r ∨ (r = key ∧ o.Revokes r)) ∨ (r ∈ seen ∧ o.Revokes r)) =
        fun r => gone r ∨ (r ∈ key :: seen ∧ o.Revokes r) := by
      funext r
      rw [List.mem_cons, or_and_right, or_assoc]
    rw [hgone] at hstep
    exact hstep

theorem Mid.allRevoked (hunbroken : Unbroken digests m history o)
    (h : Mid digests zone m history o (fun r => RevokedIn history r ∨
      (r ∈ o.seen.filter (fun k => k.owner.same zone) ∧ o.Revokes r)) keys) :
    Mid digests zone m history o (RevokedIn (history ++ [o])) keys := by
  have hcases : ∀ r, RevokedIn (history ++ [o]) r → (RevokedIn history r ∨
      (r ∈ o.seen.filter (fun k => k.owner.same zone) ∧ o.Revokes r)) ∨
      (o.Revokes r ∧ r.owner.same zone = false) := by
    rintro r ⟨o', ho', hrev⟩
    rcases List.mem_append.mp ho' with ho' | ho'
    · exact .inl (.inl ⟨o', ho', hrev⟩)
    · rw [List.mem_singleton.mp ho'] at hrev
      cases hzone : r.owner.same zone with
      | true => exact .inl (.inr ⟨List.mem_filter.mpr ⟨hrev.1, hzone⟩, hrev⟩)
      | false => exact .inr ⟨hrev, rfl⟩
  have hforeign : ∀ {r : Dnskey} {t : TrackedKey}, t ∈ keys → r.owner.same zone = false →
      t.key.sameKey r = true → False := by
    intro r t ht hzone hsame
    rw [Dnskey.owner_of_sameKey hsame (h.in_zone t ht)] at hzone
    cases hzone
  refine { h with final := fun r hr t ht hsame => ?_, kept := fun r hr d hd k hk hmatch => ?_ }
  · rcases hcases r hr with hr | ⟨-, hzone⟩
    · exact h.final r hr t ht hsame
    · exact (hforeign ht hzone hsame).elim
  · rcases hcases r hr with hr | ⟨hrev, hzone⟩
    · exact h.kept r hr d hd k hk hmatch
    · obtain ⟨t, ht, hsame, -⟩ := hunbroken.tracked r hrev d hd k hk hmatch
      obtain ⟨t', ht', hkey⟩ := h.keeps t ht
      rw [← hkey] at hsame
      exact (hforeign ht' hzone hsame).elim

theorem Mid.meetPass (hunbroken : Unbroken digests m history o) {seen : List Dnskey}
    (hseen : ∀ key ∈ seen, key ∈ o.seen ∧ key.owner.same zone = true)
    (h : Mid digests zone m history o (RevokedIn (history ++ [o])) keys) :
    Mid digests zone m history o (RevokedIn (history ++ [o]))
      (seen.foldl (fun keys key => (ManagedAnchors.meetKey digests m.ds o.now keys key).1) keys) := by
  induction seen generalizing keys with
  | nil => exact h
  | cons key seen ih =>
    obtain ⟨hin, hzone⟩ := hseen key List.mem_cons_self
    exact ih (fun k hk => hseen k (List.mem_cons_of_mem _ hk)) (h.meetKey hunbroken hin hzone)

/-! ## Between observations -/

structure Tracks (digests : DsDigests) (ds : List Ds) (zone : Name) (history : List Observation)
    (m : ManagedAnchors) : Prop where
  ds_eq : m.ds = ds
  in_zone : ∀ t ∈ m.keys, t.key.owner.same zone = true
  distinct : Distinct m.keys
  seen : ∀ t ∈ m.keys, ∃ o ∈ history, t.key ∈ o.seen
  anchored : m.keys ≠ [] → m.ds.any (·.owner.same zone) = true
  pending : ∀ t ∈ m.keys, t.state = .addPend → Pending history t
  trusted : ∀ t ∈ m.keys, t.state.isAnchor = true →
    (∃ d ∈ m.ds, d.matchesKey digests t.key = true) ∨ HeldFor history t.key
  final : ∀ r, RevokedIn history r → ∀ t ∈ m.keys, t.key.sameKey r = true → t.state = .revoked
  kept : ∀ r, RevokedIn history r → ∀ d ∈ m.ds, ∀ k : Dnskey, k.sameKey r = true →
    d.matchesKey digests k = true →
    ∃ t ∈ m.keys, t.state = .revoked ∧ t.key.sameKey r = true ∧ d.matchesKey digests t.key = true

variable {ds : List Ds}

theorem Tracks.mid (h : Tracks digests ds zone history m) (o : Observation) :
    Mid digests zone m history o (RevokedIn history) m.keys where
  in_zone := h.in_zone
  distinct := h.distinct
  seen t ht := by
    obtain ⟨o', ho', hseen⟩ := h.seen t ht
    exact ⟨o', List.mem_append_left _ ho', hseen⟩
  keeps t ht := ⟨t, ht, rfl⟩
  pending t ht hpend := .inl ⟨ht, h.pending t ht hpend⟩
  trusted t ht hanchor := (h.trusted t ht hanchor).imp_right HeldFor.concat
  revoked t ht _ := .inl ht
  final := h.final
  kept := h.kept

theorem key_missKey (now : Nat) (t : TrackedKey) : (ManagedAnchors.missKey now t).1.key = t.key := by
  rw [ManagedAnchors.missKey]
  split
  · rfl
  · rfl
  · rfl
  · split <;> rfl

theorem key_passOver (t : TrackedKey) :
    (ManagedAnchors.passOver zone o.seen o.now t).1.key = t.key := by
  rw [ManagedAnchors.passOver]
  split
  · rfl
  · split
    · rfl
    · exact key_missKey _ t

theorem passOver_cases (hzone : ∀ t ∈ keys, t.key.owner.same zone = true) {t : TrackedKey} (ht : t ∈ keys) :
    ((ManagedAnchors.passOver zone o.seen o.now t).1 = t ∧
      ((∃ k ∈ o.seen, k.sameKey t.key = true) ∨ (ManagedAnchors.passOver zone o.seen o.now t).2.1 = true ∨
        t.state = .missing ∨ t.state = .revoked)) ∨
    (t.state = .valid ∧ (ManagedAnchors.passOver zone o.seen o.now t).1.state = .missing) := by
  rw [ManagedAnchors.passOver, hzone t ht, if_neg (by decide)]
  split
  next hseen =>
    exact .inl ⟨rfl, .inl (List.any_eq_true.mp hseen)⟩
  · rw [ManagedAnchors.missKey]
    split
    · exact .inl ⟨rfl, .inr (.inl rfl)⟩
    next hstate => exact .inr ⟨hstate, rfl⟩
    next hstate => exact .inl ⟨rfl, .inr (.inr (.inl hstate))⟩
    next hstate =>
      split
      · exact .inl ⟨rfl, .inr (.inl rfl)⟩
      · exact .inl ⟨rfl, .inr (.inr (.inr hstate))⟩

def settle (zone : Name) (o : Observation) (keys : List TrackedKey) : List TrackedKey :=
  let passed := keys.map (ManagedAnchors.passOver zone o.seen o.now)
  let forgotten := (passed.filter fun p => p.2.1).map fun p => p.1.key
  (passed.map Prod.fst).filter fun t => !forgotten.any (·.sameKey t.key)

theorem mem_settle (hdistinct : Distinct keys) {t : TrackedKey} : t ∈ settle zone o keys ↔
    ∃ u ∈ keys, (ManagedAnchors.passOver zone o.seen o.now u).1 = t ∧
      (ManagedAnchors.passOver zone o.seen o.now u).2.1 = false := by
  have hforgotten : ∀ u ∈ keys, (((keys.map (ManagedAnchors.passOver zone o.seen o.now)).filter
      fun p => p.2.1).map fun p => p.1.key).any (·.sameKey u.key) =
        (ManagedAnchors.passOver zone o.seen o.now u).2.1 := by
    intro u hu
    rw [Bool.eq_iff_iff, List.any_eq_true]
    constructor
    · rintro ⟨key, hkey, hsame⟩
      obtain ⟨p, hp, rfl⟩ := List.mem_map.mp hkey
      obtain ⟨hp, hgone⟩ := List.mem_filter.mp hp
      obtain ⟨v, hv, rfl⟩ := List.mem_map.mp hp
      rw [key_passOver] at hsame
      rw [hdistinct.eq hv hu hsame] at hgone
      exact hgone
    · intro hgone
      refine ⟨u.key, List.mem_map.mpr ⟨_, List.mem_filter.mpr ⟨List.mem_map_of_mem hu, hgone⟩, key_passOver u⟩,
        Dnskey.sameKey_refl _⟩
  rw [settle, List.mem_filter, List.map_map, List.mem_map]
  constructor
  · rintro ⟨⟨u, hu, rfl⟩, hstay⟩
    rw [Function.comp_apply, key_passOver, hforgotten u hu, Bool.not_eq_true'] at hstay
    exact ⟨u, hu, rfl, hstay⟩
  · rintro ⟨u, hu, rfl, hstay⟩
    refine ⟨⟨u, hu, rfl⟩, ?_⟩
    rw [key_passOver, hforgotten u hu, hstay]
    rfl

theorem distinct_settle (hdistinct : Distinct keys) : Distinct (settle zone o keys) := by
  have hkeys : ((keys.map (ManagedAnchors.passOver zone o.seen o.now)).map Prod.fst).map TrackedKey.key =
      keys.map TrackedKey.key := by
    rw [List.map_map, List.map_map]
    exact List.map_congr_left fun t _ => key_passOver t
  rw [Distinct, ← hkeys] at hdistinct
  rw [Distinct, settle]
  exact hdistinct.sublist (List.filter_sublist.map _)

theorem passOver_revoked (h : Mid digests zone m history o (RevokedIn (history ++ [o])) keys)
    (hunbroken : Unbroken digests m history o) {u : TrackedKey} (hu : u ∈ keys) (hstate : u.state = .revoked)
    (hds : ∃ d ∈ m.ds, d.matchesKey digests u.key = true) :
    ManagedAnchors.passOver zone o.seen o.now u = (u, false, none) := by
  rw [ManagedAnchors.passOver, h.in_zone u hu, if_neg (by decide)]
  split
  · rfl
  next hseen =>
    have hlate : ¬ o.now - u.since ≥ REMOVE_HOLD_DOWN := by
      have hhold : 0 < REMOVE_HOLD_DOWN := by decide
      rcases h.revoked u hu hstate with hin | hsince
      · rcases hunbroken.remembered u hin hstate hds with hin | hlate
        · exact absurd (List.any_eq_true.mpr hin) hseen
        · omega
      · omega
    rw [ManagedAnchors.missKey, hstate]
    exact if_neg hlate

/-- **The third pass keeps what the tracked keys say.** -/
theorem Mid.settled (h : Mid digests zone m history o (RevokedIn (history ++ [o])) keys)
    (hunbroken : Unbroken digests m history o) (hds : m.ds = ds)
    (hanchored : m.ds.any (·.owner.same zone) = true) :
    Tracks digests ds zone (history ++ [o]) ⟨m.ds, settle zone o keys⟩ := by
  have hkey : ∀ {t u : TrackedKey}, (ManagedAnchors.passOver zone o.seen o.now u).1 = t → t.key = u.key :=
    fun heq => heq ▸ key_passOver _
  refine ⟨hds, fun t ht => ?_, distinct_settle h.distinct, fun t ht => ?_, fun _ => hanchored,
    fun t ht hpend => ?_, fun t ht hanchor => ?_, fun r hr t ht hsame => ?_, fun r hr d hd k hk hmatch => ?_⟩
  · obtain ⟨u, hu, heq, -⟩ := (mem_settle h.distinct).mp ht
    rw [hkey heq]
    exact h.in_zone u hu
  · obtain ⟨u, hu, heq, -⟩ := (mem_settle h.distinct).mp ht
    rw [hkey heq]
    exact h.seen u hu
  · obtain ⟨u, hu, heq, hstay⟩ := (mem_settle h.distinct).mp ht
    rcases passOver_cases h.in_zone hu (o := o) with ⟨hsame, hseen⟩ | ⟨-, hmissing⟩
    · obtain rfl : u = t := hsame.symm.trans heq
      rcases hseen with hseen | hgone | hmissing | hrevoked
      · rcases h.pending u hu hpend with ⟨hin, hpending⟩ | ⟨hsince, hplain⟩
        · rcases hunbroken.held u hin hpend hseen with hplain | ⟨r, hrev, hsame⟩
          · exact hpending.concat hplain
          · rw [h.final r ⟨o, List.mem_append_right _ List.mem_cons_self, hrev⟩ u hu hsame] at hpend
            cases hpend
        · exact ⟨history, [o], o, rfl, rfl, hsince.symm, fun o' ho' => List.mem_singleton.mp ho' ▸ hplain⟩
      · rw [hgone] at hstay
        cases hstay
      · rw [hmissing] at hpend
        cases hpend
      · rw [hrevoked] at hpend
        cases hpend
    · rw [heq, hpend] at hmissing
      cases hmissing
  · obtain ⟨u, hu, heq, -⟩ := (mem_settle h.distinct).mp ht
    rw [hkey heq]
    refine h.trusted u hu ?_
    rcases passOver_cases h.in_zone hu (o := o) with ⟨hsame, -⟩ | ⟨hvalid, -⟩
    · rw [← hsame, heq]
      exact hanchor
    · rw [hvalid]
      rfl
  · obtain ⟨u, hu, heq, -⟩ := (mem_settle h.distinct).mp ht
    rw [hkey heq] at hsame
    have hrevoked := h.final r hr u hu hsame
    rcases passOver_cases h.in_zone hu (o := o) with ⟨hstill, -⟩ | ⟨hvalid, -⟩
    · rw [← heq, hstill]
      exact hrevoked
    · rw [hrevoked] at hvalid
      cases hvalid
  · obtain ⟨u, hu, hrevoked, hsame, humatch⟩ := h.kept r hr d hd k hk hmatch
    have hpass := passOver_revoked h hunbroken hu hrevoked ⟨d, hd, humatch⟩
    exact ⟨u, (mem_settle h.distinct).mpr ⟨u, hu, by rw [hpass], by rw [hpass]⟩, hrevoked, hsame, humatch⟩

theorem observe_keys (hanchor : m.hasAnchorFor zone = true) :
    (m.observe digests zone o).1 = ⟨m.ds, settle zone o
      ((o.seen.filter fun k => k.owner.same zone).foldl
        (fun keys key => (ManagedAnchors.meetKey digests m.ds o.now keys key).1)
        ((o.seen.filter fun k => k.owner.same zone).foldl
          (fun keys key => (ManagedAnchors.revokeKey o.selfSigners o.now keys key).1) m.keys))⟩ := by
  rw [ManagedAnchors.observe, hanchor, if_neg (by decide)]
  dsimp only
  rw [sweep_fst, sweep_fst, settle]

/-- **One observation.** -/
theorem Tracks.observe (h : Tracks digests ds zone history m) (hunbroken : Unbroken digests m history o) :
    Tracks digests ds zone (history ++ [o]) (m.observe digests zone o).1 := by
  cases hanchor : m.hasAnchorFor zone with
  | true =>
    rw [observe_keys hanchor]
    have hseen : ∀ key ∈ o.seen.filter (fun k => k.owner.same zone), key ∈ o.seen ∧ key.owner.same zone = true :=
      fun key hkey => List.mem_filter.mp hkey
    have hds : m.ds.any (·.owner.same zone) = true := by
      rw [ManagedAnchors.hasAnchorFor, Bool.or_eq_true] at hanchor
      rcases hanchor with hds | hkeys
      · exact hds
      · refine h.anchored fun hnil => ?_
        rw [hnil] at hkeys
        cases hkeys
    have hrevoked := ((h.mid o).revokePass hunbroken fun key hkey => (hseen key hkey).1).allRevoked hunbroken
    exact (hrevoked.meetPass hunbroken hseen).settled hunbroken h.ds_eq hds
  | false =>
    -- no anchor for the zone, so no key is tracked and none can be
    have hobserve : (m.observe digests zone o).1 = m := by
      rw [ManagedAnchors.observe, hanchor]
      rfl
    have hnil : m.keys = [] := by
      by_contra hne
      rw [ManagedAnchors.hasAnchorFor, h.anchored hne, Bool.true_or] at hanchor
      cases hanchor
    have hnone : ∀ {P : TrackedKey → Prop}, ∀ t ∈ m.keys, P t := by
      intro P t ht
      rw [hnil] at ht
      cases ht
    have habsurd : ∀ t ∈ m.keys, False := hnone
    rw [hobserve]
    refine ⟨h.ds_eq, hnone, h.distinct, hnone, h.anchored, hnone, hnone, fun r _ => hnone,
      fun r hr d hd k hk hmatch => ?_⟩
    obtain ⟨o', ho', hrev⟩ := hr
    rcases List.mem_append.mp ho' with ho' | ho'
    · obtain ⟨t, ht, -⟩ := h.kept r ⟨o', ho', hrev⟩ d hd k hk hmatch
      exact (habsurd t ht).elim
    · rw [List.mem_singleton.mp ho'] at hrev
      obtain ⟨t, ht, -⟩ := hunbroken.tracked r hrev d hd k hk hmatch
      exact (habsurd t ht).elim

end Passes

/-! ## Whole histories -/

section Runs

variable {digests : DsDigests} {ds : List Ds} {zone : Name}

def UnbrokenRun (digests : DsDigests) (ds : List Ds) (zone : Name) (history : List Observation) : Prop :=
  ∀ before o after, history = before ++ o :: after →
    Unbroken digests (ManagedAnchors.observeAll digests ⟨ds, []⟩ zone before) before o

theorem unbrokenRun_nil : UnbrokenRun digests ds zone [] := by
  intro before o after h
  exact absurd h.symm (List.append_ne_nil_of_right_ne_nil before (List.cons_ne_nil o after))

theorem UnbrokenRun.concat {history : List Observation} (h : UnbrokenRun digests ds zone history)
    {o : Observation}
    (ho : Unbroken digests (ManagedAnchors.observeAll digests ⟨ds, []⟩ zone history) history o) :
    UnbrokenRun digests ds zone (history ++ [o]) := by
  intro before o' after hsplit
  rcases List.eq_nil_or_concat after with rfl | ⟨after, last, rfl⟩
  · obtain ⟨rfl, heq⟩ := List.append_inj' hsplit rfl
    obtain rfl := (List.cons.inj heq).1
    exact ho
  · rw [List.concat_eq_append, ← List.cons_append, ← List.append_assoc] at hsplit
    obtain ⟨hbefore, -⟩ := List.append_inj' hsplit rfl
    exact h before o' after hbefore

/-- **The tracked keys say so after every run**, by induction on its observations. -/
theorem tracks_of_unbroken {history : List Observation} (hrun : UnbrokenRun digests ds zone history) :
    Tracks digests ds zone history (ManagedAnchors.observeAll digests ⟨ds, []⟩ zone history) := by
  induction history using List.reverseRecOn with
  | nil => exact ⟨rfl, nofun, .nil, nofun, fun h => absurd rfl h, nofun, nofun, nofun, fun r ⟨o, ho, _⟩ => by cases ho⟩
  | append_singleton history o ih =>
    have hbefore : UnbrokenRun digests ds zone history := by
      rintro before o' after rfl
      exact hrun before o' (after ++ [o]) (by rw [List.append_assoc, List.cons_append])
    rw [ManagedAnchors.observeAll, List.foldl_concat]
    exact (ih hbefore).observe (hrun history o [] rfl)

/-- **Where the anchors come from**: they are configured and no revoked key outranks them, or
made for a tracked key that is trusted. -/
theorem of_mem_trustAnchors {m : ManagedAnchors} {d : Ds} (h : d ∈ m.trustAnchors digests) :
    (d ∈ m.ds ∧ ∀ t ∈ m.keys, t.state = .revoked → d.matchesKey digests t.key = false) ∨
    ∃ t ∈ m.keys, t.state.isAnchor = true ∧ d.digestType = DS_DIGEST_SHA256 ∧
      d.digest = digests.sha256 t.key.digestInput := by
  have hfold : ∀ (tracked : List TrackedKey) (anchors : List Ds),
      d ∈ tracked.foldl (fun anchors t =>
        (digests.digest t.key DS_DIGEST_SHA256).elim anchors fun digest =>
          let ds : Ds := ⟨t.key.owner, t.key.keyTag, t.key.algorithm, DS_DIGEST_SHA256, digest⟩
          if anchors.any (·.same ds) then anchors else anchors ++ [ds]) anchors →
      d ∈ anchors ∨ ∃ t ∈ tracked, d.digestType = DS_DIGEST_SHA256 ∧
        d.digest = digests.sha256 t.key.digestInput := by
    intro tracked
    induction tracked with
    | nil => exact fun anchors hd => .inl hd
    | cons t tracked ih =>
      intro anchors hd
      rcases ih _ hd with hd | ⟨u, hu, hfacts⟩
      · have hdigest : digests.digest t.key DS_DIGEST_SHA256 = some (digests.sha256 t.key.digestInput) := rfl
        dsimp only at hd
        rw [hdigest, Option.elim_some] at hd
        split at hd
        · exact .inl hd
        · rcases List.mem_append.mp hd with hd | hd
          · exact .inl hd
          · rw [List.mem_singleton.mp hd]
            exact .inr ⟨t, List.mem_cons_self, rfl, rfl⟩
      · exact .inr ⟨u, List.mem_cons_of_mem _ hu, hfacts⟩
  rcases hfold _ _ h with hd | ⟨t, ht, hfacts⟩
  · obtain ⟨hd, hfree⟩ := List.mem_filter.mp hd
    rw [Bool.not_eq_true', List.any_eq_false] at hfree
    refine .inl ⟨hd, fun t ht hstate => ?_⟩
    rw [← Bool.not_eq_true]
    exact hfree t (List.mem_filter.mpr ⟨ht, decide_eq_true hstate⟩)
  · obtain ⟨ht, hanchor⟩ := List.mem_filter.mp ht
    exact .inr ⟨t, ht, hanchor, hfacts⟩

theorem ShowsPlain.congr {o : Observation} {a b : Dnskey} (h : o.ShowsPlain a) (hsame : a.sameKey b = true) :
    o.ShowsPlain b := by
  obtain ⟨k, hk, hka, hplain⟩ := h
  exact ⟨k, hk, Dnskey.sameKey_trans hka hsame, hplain⟩

theorem HeldFor.congr {history : List Observation} {a b : Dnskey} (h : HeldFor history a)
    (hsame : a.sameKey b = true) : HeldFor history b := by
  obtain ⟨before, span, after, first, last, hsplit, hfirst, hlast, hlong, hall⟩ := h
  exact ⟨before, span, after, first, last, hsplit, hfirst, hlast, hlong, fun o ho => ShowsPlain.congr (hall o ho) hsame⟩

/-- **A run the tracker is up to trusts no key too early, and none that revoked itself.**
For any configured DS records, any observations of a zone and any key that shares its SHA-256
digest with no other key that was seen: if an anchor vouches for the key then a configured DS
does or it was held for the hold-down, and no observation had it revoke itself. -/
theorem anchors_lawful {history : List Observation} (hrun : UnbrokenRun digests ds zone history) {key : Dnskey}
    (hapart : ∀ o ∈ history, ∀ k ∈ o.seen,
      digests.sha256 k.digestInput = digests.sha256 key.digestInput → k.digestInput = key.digestInput)
    (htrusts : (ManagedAnchors.observeAll digests ⟨ds, []⟩ zone history).Trusts digests key) :
    ((∀ d ∈ ds, d.matchesKey digests key = false) → HeldFor history key) ∧
      ∀ o ∈ history, ∀ r, o.Revokes r → key.sameKey r = false := by
  have htracks := tracks_of_unbroken hrun
  obtain ⟨d, hd, hmatch⟩ := htrusts
  rcases of_mem_trustAnchors hd with ⟨hconfigured, hfree⟩ | ⟨t, ht, hanchor, htype, hdigest⟩
  · constructor
    · intro hnone
      rw [htracks.ds_eq] at hconfigured
      rw [hnone d hconfigured] at hmatch
      cases hmatch
    · intro o ho r hrev
      by_contra hsame
      rw [Bool.not_eq_false] at hsame
      obtain ⟨t, ht, hstate, -, htmatch⟩ := htracks.kept r ⟨o, ho, hrev⟩ d hconfigured key hsame hmatch
      rw [hfree t ht hstate] at htmatch
      cases htmatch
  · -- the anchor was made for the key itself
    obtain ⟨o, ho, hseen⟩ := htracks.seen t ht
    have hinput : t.key.digestInput = key.digestInput := by
      refine hapart o ho t.key hseen ?_
      rw [Ds.matchesKey] at hmatch
      split at hmatch
      · cases hmatch
      · rw [htype, beq_iff_eq] at hmatch
        have hkey : digests.digest key DS_DIGEST_SHA256 = some (digests.sha256 key.digestInput) := rfl
        rw [hkey, Option.some.injEq] at hmatch
        rw [hmatch, hdigest]
    obtain ⟨hsame, -⟩ := Dnskey.of_digestInput hinput
    constructor
    · intro hnone
      rcases htracks.trusted t ht hanchor with ⟨d', hd', hmatch'⟩ | hheld
      · rw [htracks.ds_eq] at hd'
        rw [matchesKey_congr hinput, hnone d' hd'] at hmatch'
        cases hmatch'
      · exact hheld.congr hsame
    · intro o' ho' r hrev
      by_contra hr
      rw [Bool.not_eq_false] at hr
      rw [htracks.final r ⟨o', ho', hrev⟩ t ht (Dnskey.sameKey_trans hsame hr)] at hanchor
      cases hanchor

end Runs

/-! ## Two keys of a zone -/

def configuredKey : Dnskey := ⟨ex, 257, 3, 15, [215, 90, 152, 1, 130, 177, 10, 183, 213, 75, 254, 211, 201, 100,
  7, 58, 14, 225, 114, 243, 218, 166, 35, 37, 175, 2, 26, 104, 247, 7, 81, 26]⟩
def successorKey : Dnskey := ⟨ex, 257, 3, 15, [61, 64, 23, 195, 232, 67, 137, 90, 146, 183, 10, 167, 77, 27, 126,
  188, 156, 152, 44, 207, 46, 196, 150, 140, 192, 205, 85, 241, 42, 244, 102, 12]⟩

def configuredRevoked : Dnskey := { configuredKey with flags := 385 }

def configuredDigest : Octets := [0, 169, 155, 245, 63, 165, 9, 55, 170, 90, 119, 13, 22, 187, 183, 224, 181, 32,
  202, 112, 193, 237, 155, 110, 214, 246, 100, 13, 230, 132, 227, 49]
def successorDigest : Octets := [174, 54, 84, 128, 158, 231, 118, 69, 102, 249, 111, 64, 180, 142, 107, 9, 190,
  171, 169, 16, 204, 138, 145, 151, 84, 118, 235, 93, 114, 26, 66, 95]

def twoDigests : DsDigests where
  sha1 _ := List.replicate 20 0
  sha256 input := if input = configuredKey.digestInput then configuredDigest
    else if input = successorKey.digestInput then successorDigest else List.replicate 32 0
  sha384 _ := List.replicate 48 0

def configuredDs : Ds := ⟨ex, 14017, 15, 2, configuredDigest⟩

def firstSeen : Observation := ⟨[configuredKey, successorKey], [configuredKey], 1700000000⟩
def seenAgain : Observation := ⟨[configuredKey, successorKey], [configuredKey], 1702592000⟩
def rolledOver : Observation := ⟨[configuredRevoked, successorKey], [configuredRevoked, successorKey], 1702678400⟩

theorem not_revokes_of_plain {o : Observation} (h : ∀ k ∈ o.seen, k.isRevoked = false) (r : Dnskey) :
    ¬ o.Revokes r := by
  intro hrev
  have hset := hrev.2.1
  rw [h r hrev.1] at hset
  cases hset

theorem keys_firstSeen : (ManagedAnchors.observeAll twoDigests ⟨[configuredDs], []⟩ ex [firstSeen]).keys =
    [⟨configuredKey, .valid, 1700000000⟩, ⟨successorKey, .addPend, 1700000000⟩] := by
  decide +kernel

theorem keys_seenAgain :
    (ManagedAnchors.observeAll twoDigests ⟨[configuredDs], []⟩ ex [firstSeen, seenAgain]).keys =
      [⟨configuredKey, .valid, 1700000000⟩, ⟨successorKey, .valid, 1702592000⟩] := by
  decide +kernel

theorem unbrokenRun_rollover :
    UnbrokenRun twoDigests [configuredDs] ex [firstSeen, seenAgain, rolledOver] := by
  have hfirst := not_revokes_of_plain (o := firstSeen) (by decide +kernel)
  have hagain := not_revokes_of_plain (o := seenAgain) (by decide +kernel)
  have hrolled : ∀ r, rolledOver.Revokes r → r = configuredRevoked := by
    rintro r ⟨hin, hset, -⟩
    rcases List.mem_cons.mp hin with rfl | hin
    · rfl
    · rw [List.mem_singleton.mp hin] at hset
      exact absurd hset (by decide +kernel)
  refine ((unbrokenRun_nil.concat (o := firstSeen) ?_).concat (o := seenAgain) ?_).concat (o := rolledOver) ?_
  · refine ⟨nofun, fun r hrev => (hfirst r hrev).elim, nofun, fun k _ _ _ ⟨o, ho, r, hrev, _⟩ => ?_⟩
    obtain rfl := List.mem_singleton.mp ho
    exact (hfirst r hrev).elim
  · refine ⟨fun t ht hpend _ => .inl ?_, fun r hrev => (hagain r hrev).elim, fun t ht hrev => ?_,
      fun k _ _ _ ⟨o, ho, r, hrev, _⟩ => ?_⟩
    · rw [List.nil_append, keys_firstSeen] at ht
      rcases List.mem_cons.mp ht with rfl | ht
      · cases hpend
      · rw [List.mem_singleton.mp ht]
        exact ⟨successorKey, List.mem_cons_of_mem _ List.mem_cons_self, Dnskey.sameKey_refl _, by decide +kernel⟩
    · rw [List.nil_append, keys_firstSeen] at ht
      rcases List.mem_cons.mp ht with rfl | ht
      · cases hrev
      · rw [List.mem_singleton.mp ht] at hrev
        cases hrev
    · rcases List.mem_cons.mp ho with rfl | ho
      · exact (hfirst r hrev).elim
      · obtain rfl := List.mem_singleton.mp ho
        exact (hagain r hrev).elim
  · have hkeys : ∀ t ∈ (ManagedAnchors.observeAll twoDigests ⟨[configuredDs], []⟩ ex
        ([] ++ [firstSeen] ++ [seenAgain])).keys, t.state = .valid := by
      intro t ht
      rw [List.nil_append, List.singleton_append, keys_seenAgain] at ht
      rcases List.mem_cons.mp ht with rfl | ht
      · rfl
      · rw [List.mem_singleton.mp ht]
    refine ⟨fun t ht hpend => ?_, fun r hrev d hd _ _ _ => ?_, fun t ht hrev => ?_,
      fun k hk hplain _ ⟨o, ho, r, hrev, hsame⟩ => ?_⟩
    · rw [hkeys t ht] at hpend
      cases hpend
    · rw [hrolled r hrev, List.mem_singleton.mp hd, List.nil_append, List.singleton_append, keys_seenAgain]
      exact ⟨_, List.mem_cons_self, by decide +kernel, by decide +kernel⟩
    · rw [hkeys t ht] at hrev
      cases hrev
    · rcases List.mem_cons.mp ho with rfl | ho
      · exact (hfirst r hrev).elim
      · rcases List.mem_cons.mp ho with rfl | ho
        · exact (hagain r hrev).elim
        · rw [List.mem_singleton.mp ho] at hrev
          rw [hrolled r hrev] at hsame
          rcases List.mem_cons.mp hk with rfl | hk
          · exact absurd hplain (by decide +kernel)
          · rw [List.mem_singleton.mp hk] at hsame
            exact absurd hsame (by decide +kernel)

theorem anchors_lawful_rollover :
    HeldFor [firstSeen, seenAgain, rolledOver] successorKey ∧
      ∀ o ∈ [firstSeen, seenAgain, rolledOver], ∀ r, o.Revokes r → successorKey.sameKey r = false := by
  have hlawful := @anchors_lawful _ _ _ _ unbrokenRun_rollover successorKey
    (by decide +kernel) (by
      refine ⟨⟨ex, 27232, 15, 2, successorDigest⟩, ?_, by decide +kernel⟩
      decide +kernel)
  exact ⟨hlawful.1 (by decide +kernel), hlawful.2⟩

/-- **A key that is first seen as it revokes itself is still trusted**: nothing is tracked, and
its DS stays in place. -/
theorem anchors_keep_revoked :
    ¬ ∀ (digests : DsDigests) (ds : List Ds) (zone : Name) (history : List Observation) (key : Dnskey),
      (∀ o ∈ history, ∀ k ∈ o.seen,
        digests.sha256 k.digestInput = digests.sha256 key.digestInput → k.digestInput = key.digestInput) →
      (ManagedAnchors.observeAll digests ⟨ds, []⟩ zone history).Trusts digests key →
      ((∀ d ∈ ds, d.matchesKey digests key = false) → HeldFor history key) ∧
        ∀ o ∈ history, ∀ r, o.Revokes r → key.sameKey r = false := by
  intro h
  have htrusts : (ManagedAnchors.observeAll twoDigests ⟨[configuredDs], []⟩ ex [rolledOver]).Trusts twoDigests
      configuredKey :=
    ⟨configuredDs, by decide +kernel, by decide +kernel⟩
  have hno := (h twoDigests [configuredDs] ex [rolledOver] configuredKey (by decide +kernel) htrusts).2
    rolledOver List.mem_cons_self configuredRevoked
    ⟨List.mem_cons_self, by decide +kernel, configuredRevoked, List.mem_cons_self, Dnskey.sameKey_refl _⟩
  exact absurd hno (by decide +kernel)

end Rdns.Dnssec
