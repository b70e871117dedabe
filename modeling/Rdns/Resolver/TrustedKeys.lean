import Rdns.Dnssec.VerificationLaws
import Rdns.Resolver.NsecCacheLaws
import Rdns.Resolver.Resolution

/-!
# Rdns — Which keys are trusted

`establish_chain` of `rdns/src/resolver/validate.rs`, with any number of resolutions at once:
each records what referrals said, starts where it holds keys, walks the chain of trust and
shares the key sets it validated. Whatever is fetched and whatever referrals say is up to the
servers.
-/

namespace Rdns.Resolver

open Rdns.Lib Rdns.Core Rdns.Dnssec RecordTypes

/-! ## What trust means -/

/-- The key sets a chain of trust leads to: the DNSKEYs at a zone, verified by one of them that
a trust anchor for the zone commits to, or a DS for it that keys established for a zone
strictly above signed. -/
inductive Established (crypto : Primitives) (anchors : TrustAnchors) : Name → List Dnskey → Prop
  | anchored {zone name : Name} {records : List ResourceRecord} {ds : Ds} {now : Nat} :
      zone.same name = true → ds ∈ anchors → ds.owner.same zone = true →
      SelfSigned crypto zone records ds now → Established crypto anchors name (dnskeysAt zone records)
  | delegated {zone name parent : Name} {parentKeys : List Dnskey} {evidence : DelegationEvidence} {ds : Ds}
      {rrsig : Rrsig} {key : Dnskey} {records : List ResourceRecord} {now later : Nat} :
      zone.same name = true → Established crypto anchors parent parentKeys →
      zone.isAtOrUnder parent = true → zone.same parent = false →
      evidence.zone = zone → ds ∈ evidence.ds → ds.owner.same zone = true →
      rrsig ∈ evidence.rrsigs → key ∈ parentKeys →
      SignedBy crypto.verify parent (dsRrset evidence) now rrsig key →
      SelfSigned crypto zone records ds later → Established crypto anchors name (dnskeysAt zone records)

/-! ## Resolutions and the cache they share -/

inductive ChainInput where
  | held
  | fetched
  | failed
  | cut
deriving DecidableEq

structure Walking where
  walk : ChainWalk
  need : ChainNeed
  inputs : List ChainInput

def Walking.of (next : ChainWalk × ChainNeed) (inputs : List ChainInput) : Walking :=
  ⟨next.1, next.2, inputs⟩

structure Resolving where
  state : Resolution
  keys : KeyStore
  walking : Option Walking

def KeyStore.extend (keys : KeyStore) (more : KeyStore) : KeyStore :=
  more.foldl (fun keys entry => Entries.insert keys entry.1 entry.2) keys

inductive Advance (crypto : Primitives) (anchors : TrustAnchors) (now : Nat) :
    KeyCache → Resolving → KeyCache → Resolving → Prop
  | referral {cache : KeyCache} {r : Resolving} (zone : Name) (authorities : List ResourceRecord) :
      Advance crypto anchors now cache r cache { r with state := r.state.recordCut zone authorities }
  | trust {cache : KeyCache} {r : Resolving} (zone : Name) (keys : List Dnskey) :
      (cache.get now zone).1 = some keys →
      Advance crypto anchors now cache r (cache.get now zone).2
        { r with state := r.state.recordTrustedStart zone keys }
  | start {cache : KeyCache} {r : Resolving} (target : Name) : r.walking = none →
      Advance crypto anchors now cache r cache
        { r with walking := some (.of (ChainWalk.start anchors now target r.state.trusted) []) }
  | held {cache : KeyCache} {r : Resolving} {w : Walking} {zone : Name} {keys : List Dnskey} :
      r.walking = some w → w.need = .keys zone → (cache.get now zone).1 = some keys →
      Advance crypto anchors now cache r (cache.get now zone).2
        { r with walking := some (.of (w.walk.heldKeys keys) (.held :: w.inputs)) }
  | fetched {cache : KeyCache} {r : Resolving} {w : Walking} {zone : Name} (records : List ResourceRecord)
      (ttl : Nat) : r.walking = some w → w.need = .keys zone →
      Advance crypto anchors now cache r
        (match (w.walk.fetchedKeys crypto records).1 with
          | some validated => cache.insert now zone validated ttl
          | none => cache)
        { r with walking := some (.of (w.walk.fetchedKeys crypto records).2 (.fetched :: w.inputs)) }
  | failed {cache : KeyCache} {r : Resolving} {w : Walking} {zone : Name} :
      r.walking = some w → w.need = .keys zone →
      Advance crypto anchors now cache r cache
        { r with walking := some (.of w.walk.fetchFailed (.failed :: w.inputs)) }
  | cut {cache : KeyCache} {r : Resolving} {w : Walking} {zone : Name} :
      r.walking = some w → w.need = .cutBelow zone →
      Advance crypto anchors now cache r cache
        { r with
          walking := some (.of (w.walk.cut crypto (r.state.nextCutBelow zone w.walk.target))
            (.cut :: w.inputs)) }
  | finish {cache : KeyCache} {r : Resolving} {w : Walking} {state : ValidationState} :
      r.walking = some w → w.need = .done state →
      Advance crypto anchors now cache r cache
        { r with keys := KeyStore.extend r.keys w.walk.intoKeys, walking := none }

structure Resolvers where
  cache : KeyCache
  resolutions : List Resolving

inductive KeysRan (crypto : Primitives) (anchors : TrustAnchors) (capacity : Nat) :
    Nat → Resolvers → Prop
  | start (now : Nat) : KeysRan crypto anchors capacity now ⟨⟨[], capacity⟩, []⟩
  | wait {now later : Nat} {s : Resolvers} : now ≤ later → KeysRan crypto anchors capacity now s →
      KeysRan crypto anchors capacity later s
  | shuffle {now : Nat} {s : Resolvers} {met : Entries Name CachedKeys} :
      KeysRan crypto anchors capacity now s → met.Perm s.cache.entries →
      KeysRan crypto anchors capacity now { s with cache := { s.cache with entries := met } }
  | forget {now : Nat} {s : Resolvers} (node : Name) : KeysRan crypto anchors capacity now s →
      KeysRan crypto anchors capacity now { s with cache := s.cache.forgetAtOrBelow node }
  | ask {now : Nat} {s : Resolvers} (zone : Name) : KeysRan crypto anchors capacity now s →
      KeysRan crypto anchors capacity now { s with cache := (s.cache.get now zone).2 }
  | begin {now : Nat} {s : Resolvers} (budget : Nat) : KeysRan crypto anchors capacity now s →
      KeysRan crypto anchors capacity now
        { s with resolutions := ⟨.new budget, [], none⟩ :: s.resolutions }
  | advance {now : Nat} {cache cache' : KeyCache} {before after : List Resolving} {r r' : Resolving} :
      KeysRan crypto anchors capacity now ⟨cache, before ++ r :: after⟩ →
      Advance crypto anchors now cache r cache' r' →
      KeysRan crypto anchors capacity now ⟨cache', before ++ r' :: after⟩
  | drop {now : Nat} {cache : KeyCache} {before after : List Resolving} {r : Resolving} :
      KeysRan crypto anchors capacity now ⟨cache, before ++ r :: after⟩ →
      KeysRan crypto anchors capacity now ⟨cache, before ++ after⟩

def Walking.keySteps (w : Walking) : Nat := w.inputs.countP fun input => input ≠ .cut

/-! ## What is kept -/

section Invariant

variable {crypto : Primitives} {anchors : TrustAnchors}

variable {keys : List Dnskey} {c : KeyCache} {now : Nat} {walk : ChainWalk} {zone : Name}
  {inputs : List ChainInput}

theorem Established.congr {name : Name} (h : Established crypto anchors zone keys)
    (hsame : zone.same name = true) :
    Established crypto anchors name keys := by
  have htrans : ∀ {z : Name}, z.same zone = true → z.same name = true := fun hz =>
    Name.same_iff.mpr ((Name.same_iff.mp hz).trans (Name.same_iff.mp hsame))
  cases h with
  | anchored hz hds howner hself => exact .anchored (htrans hz) hds howner hself
  | delegated hz hparent hunder hne hevidence hds howner hrrsig hkey hsigned hself =>
    exact .delegated (htrans hz) hparent hunder hne hevidence hds howner hrrsig hkey hsigned hself

theorem same_toFolded (name : Name) : name.same name.toFolded = true :=
  Name.same_iff.mpr (Name.toFolded_toFolded name).symm

theorem toFolded_same (name : Name) : name.toFolded.same name = true :=
  Name.same_iff.mpr (Name.toFolded_toFolded name)

def Committed (crypto : Primitives) (anchors : TrustAnchors) (zone : Name) (dsSet : List Ds) : Prop :=
  ∀ ds ∈ dsSet, ∀ records now, SelfSigned crypto zone records ds now →
    Established crypto anchors zone (dnskeysAt zone records)

/-- Every key set of a walk is established, what it waits for is about the zone it is at, and
it has not been fed more than its steps. -/
structure Walking.Ok (crypto : Primitives) (anchors : TrustAnchors) (w : Walking) : Prop where
  established : ∀ entry ∈ w.walk.established, Established crypto anchors entry.1 entry.2
  keys : ∀ zone, w.need = .keys zone → zone = w.walk.zone ∧
    Committed crypto anchors w.walk.zone w.walk.dsSet ∧
      w.keySteps + 1 + w.walk.stepsLeft ≤ w.walk.target.labelCount + 2
  cutBelow : ∀ zone, w.need = .cutBelow zone → zone = w.walk.zone ∧ w.inputs.length ≤ 2 * w.keySteps
  steps : w.keySteps + w.walk.stepsLeft ≤ w.walk.target.labelCount + 2
  inputs : w.inputs.length ≤ 2 * w.keySteps + 1

/-- Every key set a resolution holds is established, and what it knows of a cut is what an
authority section said. -/
structure Resolving.Ok (crypto : Primitives) (anchors : TrustAnchors) (r : Resolving) : Prop where
  cuts : ∀ evidence ∈ r.state.cuts, ∃ zone authorities, evidence = .fromAuthority zone authorities
  trusted : ∀ start ∈ r.state.trusted, Established crypto anchors start.zone start.keys
  keys : ∀ entry ∈ r.keys, Established crypto anchors entry.1 entry.2
  walking : ∀ w, r.walking = some w → w.Ok crypto anchors

def KeyCache.Ok (crypto : Primitives) (anchors : TrustAnchors) (c : KeyCache) : Prop :=
  ∀ entry ∈ c.entries, Established crypto anchors entry.1 entry.2.keys

/-! ## The cache -/

theorem KeyCache.Ok.of_subset {left : KeyCache} (h : c.Ok crypto anchors)
    (hsub : ∀ entry ∈ left.entries, entry ∈ c.entries) : left.Ok crypto anchors :=
  fun entry hentry => h entry (hsub entry hentry)

theorem KeyCache.Ok.get (h : c.Ok crypto anchors) (now : Nat) (zone : Name) :
    (c.get now zone).2.Ok crypto anchors ∧
      ∀ keys, (c.get now zone).1 = some keys → Established crypto anchors zone keys := by
  rw [KeyCache.get]
  split
  · exact ⟨h, fun keys heq => (by cases heq)⟩
  · rename_i entry hget
    split
    · refine ⟨h, fun keys heq => ?_⟩
      cases heq
      exact (h _ (Entries.mem_of_get hget)).congr (toFolded_same zone)
    · exact ⟨h.of_subset fun e he => (List.mem_filter.mp he).1, fun keys heq => (by cases heq)⟩

theorem KeyCache.mem_makeRoom {entry : Name × CachedKeys} (h : entry ∈ (c.makeRoom now).entries) :
    entry ∈ c.entries := by
  rw [KeyCache.makeRoom] at h
  split at h
  · exact (List.mem_filter.mp h).1
  · exact (List.mem_filter.mp (mem_retain h)).1

theorem KeyCache.Ok.insert (h : c.Ok crypto anchors) (hkeys : Established crypto anchors zone keys)
    (now ttl : Nat) :
    (c.insert now zone keys ttl).Ok crypto anchors := by
  rw [KeyCache.insert]
  split
  · exact h
  · intro entry hentry
    rcases List.mem_cons.mp hentry with rfl | hold
    · exact hkeys.congr (same_toFolded zone)
    · have hmem := (List.mem_filter.mp hold).1
      split at hmem
      · exact h entry (KeyCache.mem_makeRoom hmem)
      · exact h entry hmem

/-! ## A walk -/

theorem ok_establish
    (hwalk : ∀ entry ∈ walk.established, Established crypto anchors entry.1 entry.2)
    (hkeys : Established crypto anchors walk.zone keys)
    (hsteps : inputs.countP (fun input => input ≠ .cut) + walk.stepsLeft ≤ walk.target.labelCount + 2)
    (hinputs : inputs.length ≤ 2 * inputs.countP fun input => input ≠ .cut) :
    (Walking.of (walk.establish keys) inputs).Ok crypto anchors where
  established := fun entry hentry => by
    rcases List.mem_cons.mp hentry with rfl | hold
    · exact hkeys.congr (same_toFolded walk.zone)
    · exact hwalk entry (List.mem_filter.mp hold).1
  keys := fun zone hneed => by
    have hneed' : (if walk.zone.same walk.target then ChainNeed.done .secure else .cutBelow walk.zone)
      = .keys zone := hneed
    split at hneed' <;> cases hneed'
  cutBelow := fun zone hneed => by
    have hneed' : (if walk.zone.same walk.target then ChainNeed.done .secure else .cutBelow walk.zone)
      = .cutBelow zone := hneed
    refine ⟨?_, hinputs⟩
    split at hneed'
    · cases hneed'
    · cases hneed'
      rfl
  steps := hsteps
  inputs := hinputs.trans (Nat.le_succ _)

theorem ok_needKeys (hwalk : ∀ entry ∈ walk.established, Established crypto anchors entry.1 entry.2)
    (hcommitted : Committed crypto anchors walk.zone walk.dsSet)
    (hsteps : inputs.countP (fun input => input ≠ .cut) + walk.stepsLeft ≤ walk.target.labelCount + 2)
    (hinputs : inputs.length ≤ 2 * (inputs.countP fun input => input ≠ .cut) + 1) :
    (Walking.of walk.needKeys inputs).Ok crypto anchors := by
  rw [ChainWalk.needKeys, ChainWalk.takeStep]
  split
  · rename_i heq
    split at heq
    · cases heq
      exact ⟨hwalk, fun _ hneed => (by cases hneed), fun _ hneed => (by cases hneed), hsteps, hinputs⟩
    · cases heq
  · rename_i heq
    split at heq
    · cases heq
    · rename_i left hleft
      cases heq
      refine ⟨hwalk, fun zone hneed => ?_, fun _ hneed => (by cases hneed), ?_, hinputs⟩
      · cases hneed
        refine ⟨rfl, hcommitted, ?_⟩
        show List.countP (fun input => input ≠ ChainInput.cut) inputs + 1 + left ≤ walk.target.labelCount + 2
        omega
      · show List.countP (fun input => input ≠ ChainInput.cut) inputs + left ≤ walk.target.labelCount + 2
        omega

theorem ok_done {state : ValidationState}
    (hwalk : ∀ entry ∈ walk.established, Established crypto anchors entry.1 entry.2)
    (hsteps : inputs.countP (fun input => input ≠ .cut) + walk.stepsLeft ≤ walk.target.labelCount + 2)
    (hinputs : inputs.length ≤ 2 * (inputs.countP fun input => input ≠ .cut) + 1) :
    (Walking.of (walk, .done state) inputs).Ok crypto anchors :=
  ⟨hwalk, fun _ hneed => (by cases hneed), fun _ hneed => (by cases hneed), hsteps, hinputs⟩

theorem ok_start {target : Name} {trusted : List TrustedStart}
    (htrusted : ∀ start ∈ trusted, Established crypto anchors start.zone start.keys) :
    (Walking.of (ChainWalk.start anchors now target trusted) []).Ok crypto anchors := by
  rw [ChainWalk.start]
  dsimp only
  split
  · exact ok_done (fun _ h => (by cases h)) (by simp) (by simp)
  · rename_i anchorZone anchorDs hstart
    split
    · rename_i resume hresume
      have hmem := (List.mem_filter.mp (List.mem_reverse.mp (List.maxOn?_mem hresume))).1
      exact ok_establish (fun _ h => (by cases h)) (htrusted resume hmem) (by simp) (by simp)
    · refine ok_needKeys (fun _ h => (by cases h)) ?_ (by simp) (by simp)
      rw [ChainValidator.start] at hstart
      obtain ⟨zone, hzone, heq⟩ := Option.map_eq_some_iff.mp hstart
      cases heq
      intro ds hds records later hself
      obtain ⟨hanchor, howner⟩ := List.mem_filter.mp hds
      exact .anchored (Name.same_self _) hanchor howner hself

theorem committed_of_validateDelegation {validator : ChainValidator} {child : Name}
    {authorities : List ResourceRecord} {ds : List Ds}
    (hkeys : keys = [] ∨ Established crypto anchors zone keys)
    (hunder : child.isAtOrUnder zone = true) (hne : child.same zone = false)
    (h : validator.validateDelegation crypto (.fromAuthority child authorities) zone keys = .secure ds) :
    Committed crypto anchors child ds := by
  obtain ⟨rfl, rrsig, hrrsig, key, hkey, hsigned⟩ := of_validateDelegation h
  intro d hd records later hself
  have hparent : Established crypto anchors zone keys := by
    rcases hkeys with rfl | hkeys
    · cases hkey
    · exact hkeys
  have howner : d.owner.same child = true := by
    obtain ⟨rr, hrr, hfrom⟩ := List.mem_filterMap.mp hd
    have hat := (List.mem_filter.mp hrr).2
    rw [Ds.fromRecord] at hfrom
    split at hfrom
    · cases hfrom
    · grind [Name.same_iff, Name.toFolded_toFolded]
  exact .delegated (Name.same_self child) hparent hunder hne rfl hd howner hrrsig hkey hsigned hself

/-! ## A resolution -/

theorem of_mem_extend {keys more : KeyStore} {entry : Name × List Dnskey}
    (h : entry ∈ KeyStore.extend keys more) : entry ∈ keys ∨ entry ∈ more := by
  induction more generalizing keys with
  | nil => exact .inl h
  | cons first rest ih =>
    rcases ih h with hinserted | hrest
    · rcases List.mem_cons.mp hinserted with rfl | hold
      · exact .inr List.mem_cons_self
      · exact .inl (List.mem_filter.mp hold).1
    · exact .inr (List.mem_cons_of_mem _ hrest)

theorem established_of_extend {keys more : KeyStore}
    (hkeys : ∀ entry ∈ keys, Established crypto anchors entry.1 entry.2)
    (hmore : ∀ entry ∈ more, Established crypto anchors entry.1 entry.2) :
    ∀ entry ∈ KeyStore.extend keys more, Established crypto anchors entry.1 entry.2 := fun entry hentry =>
  (of_mem_extend hentry).elim (hkeys entry) (hmore entry)

theorem established_of_fetchedKeys {records : List ResourceRecord}
    (hcommitted : Committed crypto anchors walk.zone walk.dsSet)
    (h : walk.validator.validateDnskeys crypto walk.zone records walk.dsSet = .ok keys) :
    Established crypto anchors walk.zone keys := by
  obtain ⟨rfl, ds, hds, hself⟩ := of_validateDnskeys h
  exact hcommitted ds hds records _ hself

theorem countP_key {input : ChainInput} (h : input ≠ .cut) (inputs : List ChainInput) :
    (input :: inputs).countP (fun input => input ≠ .cut) = inputs.countP (fun input => input ≠ .cut) + 1 :=
  List.countP_cons_of_pos (by simpa using h)

theorem countP_cut (inputs : List ChainInput) :
    (ChainInput.cut :: inputs).countP (fun input => input ≠ .cut)
      = inputs.countP fun input => input ≠ .cut :=
  List.countP_cons_of_neg (by simp)

/-- **One step of one resolution** keeps every key set established, its own and those in the
cache. -/
theorem Advance.good {cache cache' : KeyCache} {r r' : Resolving}
    (h : Advance crypto anchors now cache r cache' r') (hcache : cache.Ok crypto anchors)
    (hr : r.Ok crypto anchors) : cache'.Ok crypto anchors ∧ r'.Ok crypto anchors := by
  cases h with
  | referral zone authorities =>
    refine ⟨hcache, fun evidence hevidence => ?_, fun start hstart => ?_, hr.keys, hr.walking⟩
    · rcases Resolution.of_mem_recordCut hevidence with hold | rfl
      · exact hr.cuts evidence hold
      · exact ⟨zone, authorities, rfl⟩
    · rw [Resolution.recordCut_trusted] at hstart
      exact hr.trusted start hstart
  | trust zone keys hget =>
    obtain ⟨hcache', hkeys⟩ := hcache.get now zone
    refine ⟨hcache', hr.cuts, fun start hstart => ?_, hr.keys, hr.walking⟩
    rcases List.mem_append.mp hstart with hold | hnew
    · exact hr.trusted start hold
    · rw [List.mem_singleton.mp hnew]
      exact hkeys keys hget
  | start target _ =>
    refine ⟨hcache, hr.cuts, hr.trusted, hr.keys, fun w hw => ?_⟩
    cases hw
    exact ok_start hr.trusted
  | @held w zone keys hwalking hneed hget =>
    obtain ⟨hcache', hkeys⟩ := hcache.get now zone
    have hw := hr.walking w hwalking
    obtain ⟨rfl, -, hsteps⟩ := hw.keys zone hneed
    have hinputs := hw.inputs
    rw [Walking.keySteps] at hsteps hinputs
    refine ⟨hcache', hr.cuts, hr.trusted, hr.keys, fun w' hw' => ?_⟩
    cases hw'
    refine ok_establish hw.established (hkeys keys hget) ?_ ?_
    · rw [countP_key (by decide)]
      exact hsteps
    · rw [countP_key (by decide), List.length_cons]
      omega
  | @fetched w zone records ttl hwalking hneed =>
    have hw := hr.walking w hwalking
    obtain ⟨rfl, hcommitted, hsteps⟩ := hw.keys zone hneed
    have hinputs := hw.inputs
    rw [Walking.keySteps] at hsteps hinputs
    have hsteps' : (ChainInput.fetched :: w.inputs).countP (fun input => input ≠ .cut) + w.walk.stepsLeft
        ≤ w.walk.target.labelCount + 2 := by
      rw [countP_key (by decide)]
      exact hsteps
    have hinputs' : (ChainInput.fetched :: w.inputs).length
        ≤ 2 * (ChainInput.fetched :: w.inputs).countP fun input => input ≠ .cut := by
      rw [countP_key (by decide), List.length_cons]
      omega
    rw [ChainWalk.fetchedKeys]
    cases hvalidated : w.walk.validator.validateDnskeys crypto w.walk.zone records w.walk.dsSet with
    | ok validated =>
      have hkeys := established_of_fetchedKeys hcommitted hvalidated
      refine ⟨hcache.insert hkeys now ttl, hr.cuts, hr.trusted, hr.keys, fun w' hw' => ?_⟩
      cases hw'
      exact ok_establish hw.established hkeys hsteps' hinputs'
    | error state =>
      refine ⟨hcache, hr.cuts, hr.trusted, hr.keys, fun w' hw' => ?_⟩
      cases hw'
      exact ok_done hw.established hsteps' (hinputs'.trans (Nat.le_succ _))
  | @failed w zone hwalking hneed =>
    have hw := hr.walking w hwalking
    obtain ⟨-, -, hsteps⟩ := hw.keys zone hneed
    have hinputs := hw.inputs
    rw [Walking.keySteps] at hsteps hinputs
    refine ⟨hcache, hr.cuts, hr.trusted, hr.keys, fun w' hw' => ?_⟩
    cases hw'
    refine ok_done hw.established ?_ ?_
    · rw [countP_key (by decide)]
      exact hsteps
    · rw [countP_key (by decide), List.length_cons]
      omega
  | @cut w zone hwalking hneed =>
    have hw := hr.walking w hwalking
    obtain ⟨rfl, hinputs⟩ := hw.cutBelow zone hneed
    have hsteps := hw.steps
    rw [Walking.keySteps] at hsteps hinputs
    have hsteps' : (ChainInput.cut :: w.inputs).countP (fun input => input ≠ .cut) + w.walk.stepsLeft
        ≤ w.walk.target.labelCount + 2 := by
      rw [countP_cut]
      exact hsteps
    have hinputs' : (ChainInput.cut :: w.inputs).length
        ≤ 2 * ((ChainInput.cut :: w.inputs).countP fun input => input ≠ .cut) + 1 := by
      rw [countP_cut, List.length_cons]
      omega
    refine ⟨hcache, hr.cuts, hr.trusted, hr.keys, fun w' hw' => ?_⟩
    cases hw'
    cases hnext : r.state.nextCutBelow w.walk.zone w.walk.target with
    | none => exact ok_done hw.established hsteps' hinputs'
    | some evidence =>
      obtain ⟨hmem, hne, hunder, -⟩ := Resolution.of_nextCutBelow hnext
      obtain ⟨child, authorities, rfl⟩ := hr.cuts evidence hmem
      rw [ChainWalk.cut]
      split
      · rename_i ds hverdict
        refine ok_needKeys hw.established (committed_of_validateDelegation ?_ hunder hne hverdict) hsteps'
          hinputs'
        cases hget : w.walk.established.get w.walk.zone.toFolded with
        | none => exact .inl rfl
        | some keys =>
          exact .inr ((hw.established _ (Entries.mem_of_get hget)).congr (toFolded_same w.walk.zone))
      · exact ok_done hw.established hsteps' hinputs'
      · exact ok_done hw.established hsteps' hinputs'
  | @finish w state hwalking _ =>
    exact ⟨hcache, hr.cuts, hr.trusted, established_of_extend hr.keys (hr.walking w hwalking).established,
      fun _ hw' => (by cases hw')⟩

/-- **Whatever the servers send**, every key set in the cache and in every resolution is
established. -/
theorem KeysRan.ok {capacity : Nat} {s : Resolvers} (hrun : KeysRan crypto anchors capacity now s) :
    s.cache.Ok crypto anchors ∧ ∀ r ∈ s.resolutions, r.Ok crypto anchors := by
  induction hrun with
  | start => exact ⟨fun _ h => (by cases h), fun _ h => (by cases h)⟩
  | wait _ _ ih => exact ih
  | shuffle _ hperm ih => exact ⟨fun entry hentry => ih.1 entry (hperm.mem_iff.mp hentry), ih.2⟩
  | forget node _ ih => exact ⟨ih.1.of_subset fun _ h => (List.mem_filter.mp h).1, ih.2⟩
  | ask zone _ ih => exact ⟨(ih.1.get _ zone).1, ih.2⟩
  | begin budget _ ih =>
    refine ⟨ih.1, fun r hr => ?_⟩
    rcases List.mem_cons.mp hr with rfl | hr
    · exact ⟨fun _ h => (by cases h), fun _ h => (by cases h), fun _ h => (by cases h), fun _ h => (by cases h)⟩
    · exact ih.2 r hr
  | @advance _ _ _ before after r r' _ hstep ih =>
    obtain ⟨hcache, hr⟩ := hstep.good ih.1 (ih.2 r (List.mem_append_right _ List.mem_cons_self))
    refine ⟨hcache, fun other hother => ?_⟩
    rcases List.mem_append.mp hother with hmem | hmem
    · exact ih.2 other (List.mem_append_left _ hmem)
    · rcases List.mem_cons.mp hmem with rfl | hmem
      · exact hr
      · exact ih.2 other (List.mem_append_right _ (List.mem_cons_of_mem _ hmem))
  | @drop _ _ before after r _ ih =>
    refine ⟨ih.1, fun other hother => ih.2 other ?_⟩
    rcases List.mem_append.mp hother with hmem | hmem
    · exact List.mem_append_left _ hmem
    · exact List.mem_append_right _ (List.mem_cons_of_mem _ hmem)

end Invariant

/-- **Keys are trusted only through the chain**: whatever records, signatures and referrals are
sent, every key set in the shared cache, in a key store and in a walk is established, and a
walk is over by the time it has been fed so much. -/
theorem keys_established_by_chain {crypto : Primitives} {anchors : TrustAnchors} {capacity now : Nat}
    {s : Resolvers} (hrun : KeysRan crypto anchors capacity now s) :
    (∀ entry ∈ s.cache.entries, Established crypto anchors entry.1 entry.2.keys) ∧
      ∀ r ∈ s.resolutions, (∀ entry ∈ r.keys, Established crypto anchors entry.1 entry.2) ∧
        ∀ w, r.walking = some w →
          (∀ entry ∈ w.walk.intoKeys, Established crypto anchors entry.1 entry.2) ∧
            w.keySteps ≤ w.walk.target.labelCount + 2 ∧
            w.inputs.length ≤ 2 * (w.walk.target.labelCount + 2) + 1 := by
  obtain ⟨hcache, hresolutions⟩ := hrun.ok
  refine ⟨hcache, fun r hr => ⟨(hresolutions r hr).keys, fun w hw => ?_⟩⟩
  have hok := (hresolutions r hr).walking w hw
  have hsteps := hok.steps
  have hinputs := hok.inputs
  exact ⟨hok.established, by omega, by omega⟩

/-! ## The root -/

def rootKey : Dnskey := ⟨Name.root, 257, 3, 15, [215, 90, 152, 1, 130, 177, 10, 183, 213, 75, 254, 211,
  201, 100, 7, 58, 14, 225, 114, 243, 218, 166, 35, 37, 175, 2, 26, 104, 247, 7, 81, 26]⟩

def rootDigest : Octets := [114, 96, 51, 189, 102, 70, 214, 41, 147, 180, 16, 119, 24, 134, 192, 97, 104,
  194, 2, 194, 54, 201, 48, 225, 40, 148, 174, 40, 74, 253, 127, 170]

def rootSignature : Octets := [33, 219, 149, 209, 235, 206, 191, 70, 159, 222, 141, 235, 192, 58, 57, 202,
  123, 14, 65, 34, 90, 9, 26, 116, 14, 170, 235, 86, 15, 53, 192, 172, 109, 140, 150, 148, 42, 155, 62,
  111, 105, 172, 156, 183, 168, 155, 20, 198, 119, 206, 142, 127, 165, 149, 102, 187, 246, 139, 26, 83,
  144, 61, 199, 6]

def rootRecords : List ResourceRecord :=
  [⟨Name.root, .IN, ⟨3600⟩, ⟨DNSKEY, rootKey.rdata⟩⟩,
    ⟨Name.root, .IN, ⟨3600⟩, ⟨RRSIG, be16 48 ++ [15, 0] ++ be32 3600 ++ be32 2000000000 ++
      be32 1000000000 ++ be16 14017 ++ [0] ++ rootSignature⟩⟩]

def rootSigned : Octets :=
  be16 48 ++ [15, 0] ++ be32 3600 ++ be32 2000000000 ++ be32 1000000000 ++ be16 14017 ++ [0] ++
    [0] ++ be16 48 ++ be16 1 ++ be32 3600 ++ be16 36 ++ rootKey.rdata

def rootCrypto : Primitives where
  verify algorithm key data signature := .ok <|
    algorithm = 15 && key = rootKey.publicKey && data = rootSigned && signature = rootSignature
  digests :=
    { sha1 := fun _ => List.replicate 20 0
      sha256 := fun input => if input = rootKey.digestInput then rootDigest else List.replicate 32 0
      sha384 := fun _ => List.replicate 48 0 }
  sha1 := unusedSha1

def rootAnchor : Ds := ⟨Name.root, 14017, 15, 2, rootDigest⟩

theorem keysRan_root : ∃ s, KeysRan rootCrypto [rootAnchor] 10 1500000000 s ∧
    s.cache.entries.map Prod.fst = [Name.root] := by
  have hbegin : KeysRan rootCrypto [rootAnchor] 10 1500000000 ⟨⟨[], 10⟩, [] ++ [⟨.new 5, [], none⟩]⟩ :=
    .begin 5 (.start 1500000000)
  have hstart := KeysRan.advance hbegin (.start Name.root rfl)
  have hfetched := KeysRan.advance hstart (.fetched rootRecords 3600 rfl rfl)
  exact ⟨_, hfetched, by decide +kernel⟩

theorem keys_established_at_root : ∃ s : Resolvers, s.cache.entries.map Prod.fst = [Name.root] ∧
    ∀ entry ∈ s.cache.entries, Established rootCrypto [rootAnchor] entry.1 entry.2.keys := by
  obtain ⟨s, hrun, hroot⟩ := keysRan_root
  exact ⟨s, hroot, (keys_established_by_chain hrun).1⟩

end Rdns.Resolver
