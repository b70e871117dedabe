import Rdns.Dnssec.AnchorLaws

/-!
# Rdns — When the last anchor is gone

`has_anchor_for` of `rdns/src/rfc5011.rs` decides whether an observation is acted on, and
`trust_anchors` what is exported. RFC 5011 §5 asks that a zone without an anchor does not get one
from its own data. The two part where a DS is configured and every key it names is revoked: the
DS is no longer exported, and still counts as an anchor held.

Here the observations are of any zones, in any order.
-/

namespace Rdns.Dnssec

open Rdns.Lib Rdns.Core Rdns.Present Rdns.Zones

namespace ManagedAnchors

def observeEach (digests : DsDigests) (m : ManagedAnchors) (history : List (Name × Observation)) : ManagedAnchors :=
  history.foldl (fun m seen => (m.observe digests seen.1 seen.2).1) m

def NoAnchor (digests : DsDigests) (m : ManagedAnchors) (zone : Name) : Prop :=
  ∀ d ∈ m.trustAnchors digests, d.owner.same zone = false

def NoKeyTrusted (m : ManagedAnchors) (zone : Name) : Prop :=
  ∀ t ∈ m.keys, t.key.owner.same zone = true → t.state.isAnchor = false

def NoDs (m : ManagedAnchors) (zone : Name) : Prop := ∀ d ∈ m.ds, d.owner.same zone = false

/-- **What RFC 5011 §5 asks**: once no anchor of the zone is exported, no key of it is trusted ever
again. -/
def NeverBootstraps (digests : DsDigests) (m : ManagedAnchors) (zone : Name) : Prop :=
  ∀ before after, (m.observeEach digests before).NoAnchor digests zone →
    (m.observeEach digests (before ++ after)).NoKeyTrusted zone

structure Without (m : ManagedAnchors) (zone : Name) : Prop where
  noDs : m.NoDs zone
  noKey : m.NoKeyTrusted zone

end ManagedAnchors

open ManagedAnchors

section Steps

variable {digests : DsDigests} {m : ManagedAnchors} {zone other : Name} {o : Observation}
  {keys : List TrackedKey} {key : Dnskey} {t : TrackedKey}

/-! ## What an observation touches -/

variable {now : Nat}

theorem of_mem_update {state : KeyState} (h : t ∈ updateFirst (fun t => t.key.sameKey key)
    (fun t => { t with state := state, since := now }) keys) :
    t ∈ keys ∨ t.key.sameKey key = true := by
  rcases of_mem_updateFirst h with h | ⟨u, hu, rfl⟩
  · exact .inl h
  · have hsame := List.find?_some hu
    exact .inr hsame

theorem of_mem_revokeKey {signers : List Dnskey} (h : t ∈ (revokeKey signers now keys key).1) :
    t ∈ keys ∨ t.key.sameKey key = true := by
  unfold revokeKey at h
  split at h
  · exact .inl h
  split at h
  · exact .inl h
  split at h
  · exact .inl h
  · split at h
    · exact .inl h
    · exact of_mem_update h

theorem of_mem_meetKey {ds : List Ds} (h : t ∈ (meetKey digests ds now keys key).1) :
    t ∈ keys ∨ t.key.sameKey key = true := by
  unfold meetKey at h
  split at h
  · exact .inl h
  split at h
  · exact .inl h
  split at h
  · grind [Dnskey.sameKey_refl]
  · dsimp only at h
    split at h
    · split at h
      · exact of_mem_update h
      · exact .inl h
    · exact of_mem_update h
    · exact .inl h
    · exact .inl h

theorem of_mem_foldl {step : List TrackedKey → Dnskey → List TrackedKey}
    (hstep : ∀ {keys key t}, t ∈ step keys key → t ∈ keys ∨ t.key.sameKey key = true) {seen : List Dnskey}
    (h : t ∈ seen.foldl step keys) : t ∈ keys ∨ ∃ key ∈ seen, t.key.sameKey key = true := by
  induction seen generalizing keys with
  | nil => exact .inl h
  | cons key rest ih =>
    rcases ih h with h | ⟨k, hk, hsame⟩
    · rcases hstep h with h | hsame
      · exact .inl h
      · exact .inr ⟨key, List.mem_cons_self, hsame⟩
    · exact .inr ⟨k, List.mem_cons_of_mem _ hk, hsame⟩

theorem passOver_other (h : t.key.owner.same zone = false) : passOver zone o.seen o.now t = (t, false, none) := by
  unfold passOver
  rw [h]
  rfl

theorem ds_observe : (m.observe digests zone o).1.ds = m.ds := by
  unfold observe
  split <;> rfl

theorem ds_observeEach (history : List (Name × Observation)) : (m.observeEach digests history).ds = m.ds := by
  induction history generalizing m with
  | nil => rfl
  | cons first rest ih => exact (@ih (m.observe digests first.1 first.2).1).trans ds_observe

theorem observeEach_append (before after : List (Name × Observation)) :
    m.observeEach digests (before ++ after) = (m.observeEach digests before).observeEach digests after :=
  List.foldl_append

theorem of_mem_settle (h : t ∈ settle zone o keys) : ∃ u ∈ keys, (passOver zone o.seen o.now u).1 = t := by
  obtain ⟨hmem, -⟩ := List.mem_filter.mp h
  obtain ⟨p, hp, rfl⟩ := List.mem_map.mp hmem
  obtain ⟨u, hu, rfl⟩ := List.mem_map.mp hp
  exact ⟨u, hu, rfl⟩

theorem owner_of_seen {seen : List Dnskey}
    (h : ∃ key ∈ seen.filter fun k => k.owner.same zone, t.key.sameKey key = true) :
    t.key.owner.same zone = true := by
  obtain ⟨key, hkey, hsame⟩ := h
  exact Dnskey.owner_of_sameKey (Dnskey.sameKey_symm hsame) (List.mem_filter.mp hkey).2

theorem of_mem_observe (h : t ∈ (m.observe digests zone o).1.keys) :
    t ∈ m.keys ∨ t.key.owner.same zone = true := by
  cases hanchor : m.hasAnchorFor zone with
  | false => grind [observe]
  | true =>
    rw [observe_keys hanchor] at h
    obtain ⟨u, hu, rfl⟩ := of_mem_settle h
    rw [key_passOver]
    cases hzone : u.key.owner.same zone with
    | true => exact .inr rfl
    | false =>
      rw [passOver_other hzone]
      rcases of_mem_foldl (fun h => of_mem_meetKey h) hu with hu | hmet
      · rcases of_mem_foldl (fun h => of_mem_revokeKey h) hu with hu | hrevoked
        · exact .inl hu
        · rw [owner_of_seen hrevoked] at hzone
          cases hzone
      · rw [owner_of_seen hmet] at hzone
        cases hzone

/-! ## A zone without an anchor -/

/-- **A zone with no anchor held keeps none.** -/
theorem ManagedAnchors.Without.observe (h : m.Without zone) : (m.observe digests other o).1.Without zone := by
  cases hother : other.same zone with
  | true =>
    -- an observation of the zone itself is not acted on
    have hfold := Name.same_iff.mp hother
    have hnone : m.hasAnchorFor other = false := by
      have hcongr : ∀ owner : Name, owner.same other = owner.same zone := by
        intro owner
        rw [Bool.eq_iff_iff, Name.same_iff, Name.same_iff, hfold]
      rw [hasAnchorFor, Bool.or_eq_false_iff, List.any_eq_false, List.any_eq_false]
      refine ⟨fun d hd => ?_, fun t ht => ?_⟩
      · rw [hcongr, h.noDs d hd]
        decide
      · rw [Bool.and_eq_true, hcongr, not_and]
        intro hanchor hzone
        rw [h.noKey t ht hzone] at hanchor
        cases hanchor
    rw [ManagedAnchors.observe, hnone, if_pos (by decide)]
    exact h
  | false =>
    refine ⟨?_, fun t ht hzone => ?_⟩
    · rw [NoDs, ds_observe]
      exact h.noDs
    · rcases of_mem_observe ht with ht | howner
      · exact h.noKey t ht hzone
      · rw [Name.same_iff] at howner hzone
        rw [Bool.eq_false_iff] at hother
        exact absurd (Name.same_iff.mpr (howner.symm.trans hzone)) hother

theorem ManagedAnchors.Without.observeEach (h : m.Without zone) (history : List (Name × Observation)) :
    (m.observeEach digests history).Without zone := by
  induction history generalizing m with
  | nil => exact h
  | cons first rest ih => exact ih h.observe

theorem noKeyTrusted_of_noAnchor (h : m.NoAnchor digests zone) : m.NoKeyTrusted zone := by
  have hfold : ∀ (tracked : List TrackedKey) (anchors : List Ds),
      (∀ d ∈ tracked.foldl (fun anchors t =>
        (digests.digest t.key DS_DIGEST_SHA256).elim anchors fun digest =>
          let ds : Ds := ⟨t.key.owner, t.key.keyTag, t.key.algorithm, DS_DIGEST_SHA256, digest⟩
          if anchors.any (·.same ds) then anchors else anchors ++ [ds]) anchors, d.owner.same zone = false) →
      (∀ d ∈ anchors, d.owner.same zone = false) ∧ ∀ t ∈ tracked, t.key.owner.same zone = false := by
    intro tracked
    induction tracked with
    | nil => exact fun anchors hall => ⟨hall, fun t ht => (by cases ht)⟩
    | cons t rest ih =>
      intro anchors hall
      obtain ⟨hanchors, hrest⟩ := ih _ hall
      have hdigest : digests.digest t.key DS_DIGEST_SHA256 = some (digests.sha256 t.key.digestInput) := rfl
      dsimp only at hanchors
      rw [hdigest, Option.elim_some] at hanchors
      split at hanchors
      · rename_i hany
        obtain ⟨d, hd, hsame⟩ := List.any_eq_true.mp hany
        simp only [Ds.same, Bool.and_eq_true] at hsame
        have howner := Name.same_iff.mp hsame.1.1.1.1
        have hfalse := hanchors d hd
        refine ⟨hanchors, List.forall_mem_cons.mpr ⟨?_, hrest⟩⟩
        rw [Bool.eq_false_iff] at hfalse ⊢
        intro hzone
        exact hfalse (Name.same_iff.mpr (howner.trans (Name.same_iff.mp hzone)))
      · refine ⟨fun d hd => hanchors d (List.mem_append_left _ hd), List.forall_mem_cons.mpr ⟨?_, hrest⟩⟩
        exact hanchors _ (List.mem_append_right _ (List.mem_singleton_self _))
  intro t ht hzone
  by_contra hanchor
  rw [Bool.not_eq_false] at hanchor
  have hnot := (hfold _ _ h).2 t (List.mem_filter.mpr ⟨ht, hanchor⟩)
  rw [hzone] at hnot
  cases hnot

/-! ## A new key -/

theorem passOver_seen (h : ∃ k ∈ o.seen, k.sameKey t.key = true) : passOver zone o.seen o.now t = (t, false, none) := by
  unfold passOver
  split
  · rfl
  · rw [if_pos (List.any_eq_true.mpr h)]

theorem mem_settle_of_seen (ht : t ∈ keys) (hseen : ∃ k ∈ o.seen, k.sameKey t.key = true) : t ∈ settle zone o keys := by
  refine List.mem_filter.mpr ⟨List.mem_map.mpr ⟨_, List.mem_map_of_mem ht, by rw [passOver_seen hseen]⟩, ?_⟩
  rw [Bool.not_eq_true', List.any_eq_false]
  intro forgotten hforgotten hsame
  obtain ⟨p, hp, rfl⟩ := List.mem_map.mp hforgotten
  obtain ⟨hp, hgone⟩ := List.mem_filter.mp hp
  obtain ⟨u, -, rfl⟩ := List.mem_map.mp hp
  rw [key_passOver] at hsame
  obtain ⟨k, hk, hkt⟩ := hseen
  rw [passOver_seen ⟨k, hk, Dnskey.sameKey_trans hkt (Dnskey.sameKey_symm hsame)⟩] at hgone
  cases hgone

def alone (key : Dnskey) (now : Nat) : Observation := ⟨[key], [], now⟩

structure Eligible (zone : Name) (key : Dnskey) : Prop where
  owner : key.owner.same zone = true
  plain : key.isRevoked = false
  candidate : key.isCandidateAnchor = true

theorem observe_alone (hanchor : m.hasAnchorFor zone = true) (hkey : Eligible zone key) (now : Nat) :
    (m.observe digests zone (alone key now)).1.keys =
      settle zone (alone key now) (meetKey digests m.ds now m.keys key).1 := by
  have hfilter : (alone key now).seen.filter (fun k => k.owner.same zone) = [key] := by
    simp only [alone, List.filter_cons, hkey.owner, if_true, List.filter_nil]
  have hrevoke : (revokeKey (alone key now).selfSigners (alone key now).now m.keys key).1 = m.keys := by
    unfold revokeKey
    rw [hkey.plain]
    rfl
  rw [observe_keys hanchor, hfilter, List.foldl_cons, List.foldl_nil, List.foldl_cons, List.foldl_nil, hrevoke]
  rfl

theorem hasAnchorFor_of_ds (h : ∃ d ∈ m.ds, d.owner.same zone = true) : m.hasAnchorFor zone = true := by
  rw [hasAnchorFor, Bool.or_eq_true]
  exact .inl (List.any_eq_true.mpr h)

theorem tracked_of_fresh (hds : ∃ d ∈ m.ds, d.owner.same zone = true) (hkey : Eligible zone key)
    (hfresh : ∀ t ∈ m.keys, t.key.sameKey key = false) (now : Nat) :
    ∃ state, (state = .valid ∨ state = .addPend) ∧
      (⟨key, state, now⟩ : TrackedKey) ∈ (m.observe digests zone (alone key now)).1.keys ∧
      ∀ t ∈ (m.observe digests zone (alone key now)).1.keys, t.key.sameKey key = true → t = ⟨key, state, now⟩ := by
  have hfind : m.keys.find? (fun t => t.key.sameKey key) = none := by
    rw [List.find?_eq_none]
    intro t ht
    rw [hfresh t ht]
    decide
  have hmeet : ∃ state, (state = .valid ∨ state = .addPend) ∧
      (meetKey digests m.ds now m.keys key).1 = m.keys ++ [⟨key, state, now⟩] := by
    unfold meetKey
    rw [hkey.plain, hkey.candidate, hfind]
    dsimp only
    cases isAnchored digests m.ds key with
    | true => exact ⟨.valid, .inl rfl, rfl⟩
    | false => exact ⟨.addPend, .inr rfl, rfl⟩
  obtain ⟨state, hstate, hmeet⟩ := hmeet
  have hseen : ∃ k ∈ (alone key now).seen, k.sameKey key = true :=
    ⟨key, List.mem_singleton_self _, Dnskey.sameKey_refl key⟩
  rw [observe_alone (hasAnchorFor_of_ds hds) hkey, hmeet]
  refine ⟨state, hstate, mem_settle_of_seen (List.mem_append_right _ (List.mem_singleton_self _)) hseen,
    fun t ht hsame => ?_⟩
  obtain ⟨u, hu, rfl⟩ := of_mem_settle ht
  rw [key_passOver] at hsame
  rcases List.mem_append.mp hu with hu | hu
  · rw [hfresh u hu] at hsame
    cases hsame
  · obtain rfl := List.mem_singleton.mp hu
    rw [passOver_seen hseen]

/-- **While a DS is configured, a new key is trusted** after two observations, the hold-down apart. -/
theorem trusted_after_fresh (hds : ∃ d ∈ m.ds, d.owner.same zone = true) (hkey : Eligible zone key)
    (hfresh : ∀ t ∈ m.keys, t.key.sameKey key = false) :
    ¬ (m.observeEach digests [(zone, alone key 0), (zone, alone key ADD_HOLD_DOWN)]).NoKeyTrusted zone := by
  obtain ⟨state, hstate, hmem, honly⟩ := @tracked_of_fresh digests m zone key hds hkey hfresh 0
  have hds' : ∃ d ∈ (m.observe digests zone (alone key 0)).1.ds, d.owner.same zone = true := by
    rw [ds_observe]
    exact hds
  rw [show m.observeEach digests [(zone, alone key 0), (zone, alone key ADD_HOLD_DOWN)] =
    ((m.observe digests zone (alone key 0)).1.observe digests zone (alone key ADD_HOLD_DOWN)).1 from rfl]
  generalize (m.observe digests zone (alone key 0)).1 = held at hmem honly hds'
  have hfind : held.keys.find? (fun t => t.key.sameKey key) = some ⟨key, state, 0⟩ := by
    cases hfind : held.keys.find? fun t => t.key.sameKey key with
    | none => exact absurd (Dnskey.sameKey_refl key) (List.find?_eq_none.mp hfind _ hmem)
    | some found =>
      have hsame := List.find?_some hfind
      rw [honly found (List.mem_of_find?_eq_some hfind) hsame]
  have hmeet : ∃ since, (⟨key, .valid, since⟩ : TrackedKey) ∈ (meetKey digests held.ds ADD_HOLD_DOWN held.keys key).1 := by
    unfold meetKey
    rw [hkey.plain, hkey.candidate, hfind]
    dsimp only
    rcases hstate with rfl | rfl
    · exact ⟨0, hmem⟩
    · have helapsed : (⟨key, .addPend, 0⟩ : TrackedKey).holdDownElapsed ADD_HOLD_DOWN = true :=
        decide_eq_true (Nat.le_refl ADD_HOLD_DOWN)
      rw [if_neg (by decide), if_neg (by decide), if_pos helapsed]
      exact ⟨ADD_HOLD_DOWN, updated_mem hfind⟩
  obtain ⟨since, hvalid⟩ := hmeet
  have hkept := @mem_settle_of_seen zone (alone key ADD_HOLD_DOWN) _ _ hvalid
    ⟨key, List.mem_singleton_self _, Dnskey.sameKey_refl key⟩
  rw [← observe_alone (hasAnchorFor_of_ds hds') hkey] at hkept
  intro hnone
  have hnot := hnone _ hkept hkey.owner
  cases hnot

theorem exists_fresh (m : ManagedAnchors) (zone : Name) :
    ∃ key, Eligible zone key ∧ ∀ t ∈ m.keys, t.key.sameKey key = false := by
  let lengths := m.keys.map fun t => t.key.publicKey.length
  refine ⟨⟨zone, 257, 3, 8, List.replicate (lengths.sum + 1) 0⟩, ⟨Name.same_iff.mpr rfl, ?_, ?_⟩, fun t ht => ?_⟩
  · show ((257 : UInt16) &&& DNSKEY_FLAG_REVOKE != 0) = false
    decide
  · show (((257 : UInt16) &&& DNSKEY_FLAG_ZONE != 0 && (3 : UInt8) == DNSKEY_PROTOCOL_DNSSEC) &&
      ((257 : UInt16) &&& DNSKEY_FLAG_SEP != 0)) = true
    decide
  rw [Bool.eq_false_iff]
  intro hsame
  have hkey := congrArg List.length (Dnskey.sameKey_iff.mp hsame).2.2.1
  rw [List.length_replicate] at hkey
  have hle : t.key.publicKey.length ≤ lengths.sum :=
    List.single_le_sum (fun _ _ => Nat.zero_le _) _ (List.mem_map_of_mem ht)
  omega

end Steps

/-- **When a zone that lost its anchors never gets one**: no DS is configured for it, whenever none of
its anchors is exported. -/
theorem never_bootstraps_iff (digests : DsDigests) (m : ManagedAnchors) (zone : Name) :
    m.NeverBootstraps digests zone ↔
      ∀ before, (m.observeEach digests before).NoAnchor digests zone → m.NoDs zone := by
  constructor
  · intro hnever before hnone d hd
    by_contra hzone
    rw [Bool.not_eq_false] at hzone
    obtain ⟨key, hkey, hfresh⟩ := exists_fresh (m.observeEach digests before) zone
    have htrusted := hnever before [(zone, alone key 0), (zone, alone key ADD_HOLD_DOWN)] hnone
    rw [observeEach_append] at htrusted
    exact trusted_after_fresh ⟨d, by rw [ds_observeEach]; exact hd, hzone⟩ hkey hfresh htrusted
  · intro hds before after hnone
    rw [observeEach_append]
    have hwithout : (m.observeEach digests before).Without zone := by
      refine ⟨?_, noKeyTrusted_of_noAnchor hnone⟩
      rw [NoDs, ds_observeEach]
      exact hds before hnone
    exact (hwithout.observeEach after).noKey

/-! ## The one anchor revoked -/

def lastRevoked : List (Name × Observation) :=
  [(ex, alone configuredKey 1700000000), (ex, ⟨[configuredRevoked], [configuredRevoked], 1700086400⟩)]

def thenFollowed : List (Name × Observation) :=
  [(ex, alone successorKey 1700172800), (ex, alone successorKey 1702764800)]

/-- **A zone whose one anchor is revoked gets another from its own data.** -/
theorem bootstraps_after_revocation : ¬ ∀ (digests : DsDigests) (m : ManagedAnchors) (zone : Name),
    m.NeverBootstraps digests zone := by
  intro h
  have hnone : (ManagedAnchors.observeEach twoDigests ⟨[configuredDs], []⟩ lastRevoked).NoAnchor twoDigests ex := by
    have hanchors : (ManagedAnchors.observeEach twoDigests ⟨[configuredDs], []⟩ lastRevoked).trustAnchors twoDigests
        = [] := by
      decide +kernel
    rw [NoAnchor, hanchors]
    exact fun d hd => (by cases hd)
  have hkeys : (⟨successorKey, .valid, 1702764800⟩ : TrackedKey) ∈
      (ManagedAnchors.observeEach twoDigests ⟨[configuredDs], []⟩ (lastRevoked ++ thenFollowed)).keys := by
    decide +kernel
  have hnot := h twoDigests ⟨[configuredDs], []⟩ ex lastRevoked thenFollowed hnone _ hkeys (by decide +kernel)
  cases hnot

end Rdns.Dnssec
