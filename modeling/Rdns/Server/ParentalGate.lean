import Rdns.Dnssec.ManagedAnchors

/-!
# Rdns — Holding a key until the parent shows its successor

`rdnsd/src/parental.rs`: a SEP key that is past its retirement keeps signing until every parental
agent has shown the DS of a successor, and for the TTL of the DS. The times are seconds, far from
the end of their range.

The gate remembers since when every agent has shown some successor, and not which. A key that
all of them come to show inside a span is taken for one they showed from its start.

Main results:

* `released_after_successor` — a key is released behind one successor, while checks agree.
-/

namespace Rdns.Server

open Rdns.Lib Rdns.Core Rdns.Present Rdns.Dnssec

/-! ## Keys under the gate -/

def CHECK_INTERVAL : Nat := 3600

structure DsAnswer where
  ds : List Ds
  ttl : UInt32
deriving DecidableEq

structure Agent where
  master : String
deriving DecidableEq

abbrev Answers := List (String × Except String DsAnswer)

def signingDnskey (key : SigningKey) : Dnskey := ⟨key.owner, key.flags, 3, key.algorithm.code, key.publicKey⟩

def signingDs (digests : DsDigests) (key : SigningKey) (digestType : UInt8) : Option Ds :=
  (digests.digest (signingDnskey key) digestType).map fun digest =>
    ⟨key.owner, key.keyTag, key.algorithm.code, digestType, digest⟩

structure GatedKey where
  key : SigningKey
  ds : List Ds
  released : Bool
  logged : Option String
deriving DecidableEq

namespace GatedKey

def timing (k : GatedKey) : KeyTiming := k.key.fileTiming

def retiring (k : GatedKey) (now : Nat) : Bool :=
  k.timing.inactive.any (now ≥ ·) || k.timing.delete.any (now ≥ ·)

def «matches» (k : GatedKey) (ds : Ds) : Bool :=
  k.ds.any fun own =>
    own.keyTag == ds.keyTag && own.algorithm == ds.algorithm && own.digestType == ds.digestType &&
      own.digest == ds.digest

def isWaiting (k : GatedKey) (now : Nat) : Bool := k.retiring now && !k.released

def isSuccessor (k : GatedKey) (now : Nat) : Bool := k.timing.isActive now && !k.retiring now

def new (digests : DsDigests) (key : SigningKey) : GatedKey :=
  let gated := key.fileTiming.inactive.isSome || key.fileTiming.delete.isSome
  ⟨{ key with held := gated }, [1, 2, 4].filterMap (signingDs digests key), !gated, none⟩

def release (k : GatedKey) : GatedKey := { k with key := { k.key with held := false }, released := true, logged := none }

end GatedKey

structure GatedZone where
  origin : Name
  agents : List Agent
  keys : List GatedKey
  shownSince : Option Nat
deriving DecidableEq

structure Checked where
  released : Bool
  next : Nat
deriving DecidableEq

/-! ## A check -/

namespace GatedZone

variable (zone : GatedZone)

def needsAsking (now : Nat) : Bool := zone.keys.any fun k => k.timing.isSyncPublished now || k.isWaiting now

def upcoming (now : Nat) : Option Nat :=
  ((zone.keys.filter fun k => !k.released).flatMap fun k =>
    [k.timing.inactive, k.timing.delete].filterMap id |>.filter (· > now)).min?

def shows (now : Nat) (answer : DsAnswer) : Bool :=
  answer.ds.any fun ds => zone.keys.any fun k => k.isSuccessor now && k.matches ds

def firstObjection (now : Nat) (answers : Answers) : Option String :=
  answers.findSome? fun (agent, answer) =>
    match answer with
    | .error e => some s!"parental agent {agent} did not answer: {e}"
    | .ok answer =>
      if zone.shows now answer then none
      else
        let tags := ", ".intercalate (answer.ds.map fun ds => toString ds.keyTag)
        some s!"parental agent {agent} holds DS for key tag(s) [{tags}], none for an active successor"

end GatedZone

def largestTtl (answers : Answers) : Nat :=
  answers.foldl (fun ttl answered =>
    match answered.2 with
    | .ok answer => max ttl answer.ttl.toNat
    | .error _ => ttl) 0

namespace GatedZone

variable (zone : GatedZone)

def hold (now : Nat) (why : String) : List GatedKey :=
  zone.keys.map fun k => if k.isWaiting now then { k with logged := some why } else k

def letGo (now : Nat) : List GatedKey := zone.keys.map fun k => if k.isWaiting now then k.release else k

def decide (now : Nat) (answers : Option Answers) : Checked × GatedZone :=
  let next := min ((zone.upcoming now).getD (now + CHECK_INTERVAL)) (now + CHECK_INTERVAL)
  match answers with
  | none => (⟨false, next⟩, zone)
  | some answers =>
    match zone.firstObjection now answers with
    | some why => (⟨false, next⟩, { zone with shownSince := none, keys := zone.hold now why })
    | none =>
      let since := zone.shownSince.getD now
      let zone := { zone with shownSince := some since }
      let ttl := largestTtl answers
      let until_ := since + ttl
      if now ≥ until_ then (⟨zone.keys.any (·.isWaiting now), next⟩, { zone with keys := zone.letGo now })
      else
        (⟨false, min next until_⟩,
          { zone with keys := zone.hold now s!"waiting out the DS TTL of {ttl}s, until {until_}" })

end GatedZone

abbrev DsSource := Agent → Name → Except String DsAnswer

def GatedZone.ask (zone : GatedZone) (source : DsSource) (now : Nat) : Option Answers :=
  if zone.needsAsking now then some (zone.agents.map fun agent => (agent.master, source agent zone.origin)) else none

abbrev ParentalGate := List GatedZone

namespace ParentalGate

def new (digests : DsDigests) (agents : List (Name × List Agent)) (keysFor : Name → Option (List SigningKey)) :
    Except String ParentalGate :=
  agents.mapM fun (origin, agents) =>
    match keysFor origin with
    | none => .error "this server does not sign the zone, so it has no key whose retirement the parent's DS could hold"
    | some keys => .ok ⟨origin, agents, (keys.filter SigningKey.isSep).map (GatedKey.new digests), none⟩

def check (gate : ParentalGate) (source : DsSource) (now : Nat) : Checked × ParentalGate :=
  let checked := gate.map fun zone => zone.decide now (zone.ask source now)
  (⟨checked.any (·.1.released), checked.foldl (fun next c => min next c.1.next) (now + CHECK_INTERVAL)⟩,
    checked.map Prod.snd)

end ParentalGate

/-! ## Histories -/

/-- One check of a zone: when, and what its agents answered if they were asked. -/
structure Heard where
  now : Nat
  answers : Option Answers

def Heard.Shows (heard : Heard) (k : GatedKey) : Prop :=
  ∃ answers, heard.answers = some answers ∧
    ∀ answered ∈ answers, ∃ answer, answered.2 = .ok answer ∧ answer.ds.any k.matches = true

structure Watched where
  zone : GatedZone
  heard : List Heard

def Watched.check (w : Watched) (source : DsSource) (now : Nat) : Watched :=
  ⟨(w.zone.decide now (w.zone.ask source now)).2, ⟨now, w.zone.ask source now⟩ :: w.heard⟩

/-- The states of a gate after some checks at non-decreasing times, each of which `meets` something. -/
inductive GateRan (digests : DsDigests) (keep : Watched → DsSource → Nat → Prop) : Nat → List Watched → Prop
  | start {gate : ParentalGate} (now : Nat) (agents : List (Name × List Agent))
      (keysFor : Name → Option (List SigningKey)) : ParentalGate.new digests agents keysFor = .ok gate →
      GateRan digests keep now (gate.map (⟨·, []⟩))
  | check {now later : Nat} {gate : List Watched} (source : DsSource) : GateRan digests keep now gate →
      now ≤ later → (∀ w ∈ gate, keep w source later) → GateRan digests keep later (gate.map (·.check source later))

/-- **What the agents keep to at a check**: inside a span they are asked; where each shows some
successor, there is one that they all show; and inside a span no key comes to be shown by all that
was not at the check before. -/
structure Agreed (w : Watched) (source : DsSource) (now : Nat) : Prop where
  asked : w.zone.shownSince.isSome = true → w.zone.needsAsking now = true
  common : ∀ answers, w.zone.ask source now = some answers → w.zone.firstObjection now answers = none →
    ∃ k ∈ w.zone.keys, k.isSuccessor now = true ∧ (Heard.mk now (some answers)).Shows k
  same : ∀ answers, w.zone.ask source now = some answers → w.zone.firstObjection now answers = none →
    w.zone.shownSince.isSome = true → ∀ last ∈ w.heard.head?, ∀ k ∈ w.zone.keys,
      (Heard.mk now (some answers)).Shows k → last.Shows k

/-- **A successor can carry the zone**: another SEP key that is active and not retiring, whose DS
every agent showed at every check of a span that ends now and began the DS TTL ago. -/
def Succeeded (keys : List GatedKey) (heard : List Heard) (now ttl : Nat) (k : GatedKey) : Prop :=
  ∃ other ∈ keys, other.key ≠ k.key ∧ other.isSuccessor now = true ∧
    ∃ span, span <+: heard ∧ (∀ h ∈ span, h.Shows other) ∧ ∃ first ∈ span, first.now + ttl ≤ now

/-! ## What a check does -/

theorem decide_cases (zone : GatedZone) (now : Nat) (answers : Option Answers) :
    (answers = none ∧ (zone.decide now answers).2 = zone) ∨
      (∃ why, (zone.decide now answers).2 = { zone with shownSince := none, keys := zone.hold now why }) ∨
      ∃ given, answers = some given ∧ zone.firstObjection now given = none ∧
        (zone.decide now answers).2.shownSince = some (zone.shownSince.getD now) ∧
        ((∃ why, (zone.decide now answers).2.keys = zone.hold now why) ∨
          (zone.shownSince.getD now + largestTtl given ≤ now ∧ (zone.decide now answers).2.keys = zone.letGo now)) := by
  unfold GatedZone.decide
  dsimp only
  split
  · exact .inl ⟨rfl, rfl⟩
  · rename_i given
    split
    · rename_i why _
      exact .inr (.inl ⟨why, rfl⟩)
    · rename_i hnone
      refine .inr (.inr ⟨given, rfl, hnone, ?_⟩)
      split
      · rename_i htime
        exact ⟨rfl, .inr ⟨htime, rfl⟩⟩
      · exact ⟨rfl, .inl ⟨_, rfl⟩⟩

variable {now : Nat} {k k' : GatedKey} {w : Watched}

theorem getElem?_hold {zone : GatedZone} {i : Nat} {why : String} (h : zone.keys[i]? = some k)
    (h' : (zone.hold now why)[i]? = some k') :
    k'.released = k.released ∧ k'.key = k.key := by
  rw [GatedZone.hold, List.getElem?_map, h] at h'
  obtain rfl := Option.some.inj h'
  dsimp only
  split
  · exact ⟨rfl, rfl⟩
  · exact ⟨rfl, rfl⟩

theorem of_released {zone : GatedZone} {i : Nat} {answers : Option Answers}
    (h : zone.keys[i]? = some k) (h' : (zone.decide now answers).2.keys[i]? = some k')
    (hold : k.released = false) (hnew : k'.released = true) :
    k.retiring now = true ∧ ∃ given, answers = some given ∧ zone.firstObjection now given = none ∧
      zone.shownSince.getD now + largestTtl given ≤ now := by
  rcases decide_cases zone now answers with ⟨-, hsame⟩ | ⟨why, hheld⟩ | ⟨given, hgiven, hnone, -, hheld | ⟨htime, hgo⟩⟩
  · grind
  · grind [getElem?_hold]
  · obtain ⟨why, hheld⟩ := hheld
    rw [hheld] at h'
    rw [(getElem?_hold h h').1, hold] at hnew
    cases hnew
  · rw [hgo, GatedZone.letGo, List.getElem?_map, h] at h'
    obtain rfl := Option.some.inj h'
    dsimp only at hnew
    by_cases hwaits : k.isWaiting now = true
    · rw [GatedKey.isWaiting, Bool.and_eq_true] at hwaits
      exact ⟨hwaits.1, given, hgiven, hnone, htime⟩
    · rw [if_neg hwaits, hold] at hnew
      cases hnew

/-- A check changes no key's DS. -/
theorem ds_decide (zone : GatedZone) (now : Nat) (answers : Option Answers) :
    (zone.decide now answers).2.keys.map GatedKey.ds = zone.keys.map GatedKey.ds := by
  have hhold : ∀ why, (zone.hold now why).map GatedKey.ds = zone.keys.map GatedKey.ds := fun why => by
    rw [GatedZone.hold, List.map_map]
    refine List.map_congr_left fun k _ => ?_
    rw [Function.comp_apply]
    split <;> rfl
  rcases decide_cases zone now answers with ⟨-, hsame⟩ | ⟨why, hheld⟩ | ⟨-, -, -, -, ⟨why, hheld⟩ | ⟨-, hgo⟩⟩
  · rw [hsame]
  · rw [hheld]
    exact hhold why
  · rw [hheld]
    exact hhold why
  · rw [hgo, GatedZone.letGo, List.map_map]
    refine List.map_congr_left fun k _ => ?_
    rw [Function.comp_apply]
    split <;> rfl

theorem Heard.Shows.congr {heard : Heard} (hds : k.ds = k'.ds) (h : heard.Shows k) :
    heard.Shows k' := by
  have hmatches : k.matches = k'.matches := by
    funext ds
    rw [GatedKey.matches, GatedKey.matches, hds]
  rwa [Heard.Shows, ← hmatches]

theorem ne_of_successor {other : GatedKey} (hretiring : k.retiring now = true)
    (hsuccessor : other.isSuccessor now = true) : other.key ≠ k.key := by
  intro heq
  have hsame : other.retiring now = k.retiring now := by
    rw [GatedKey.retiring, GatedKey.retiring, GatedKey.timing, GatedKey.timing, heq]
  rw [GatedKey.isSuccessor, hsame, hretiring, Bool.not_true, Bool.and_false] at hsuccessor
  cases hsuccessor

/-! ## What a run keeps -/

/-- **A span that began at `since`**: what every agent showed at the last check, it showed throughout. -/
def Spans (keys : List GatedKey) (heard : List Heard) (since : Nat) : Prop :=
  ∃ span, span <+: heard ∧ (∃ first ∈ span, first.now = since) ∧
    ∀ last ∈ heard.head?, ∀ k ∈ keys, last.Shows k → ∀ h ∈ span, h.Shows k

theorem Spans.congr {keys keys' : List GatedKey} {heard : List Heard} {since : Nat} (h : Spans keys heard since)
    (hds : keys'.map GatedKey.ds = keys.map GatedKey.ds) : Spans keys' heard since := by
  obtain ⟨span, hleads, hfirst, hkept⟩ := h
  refine ⟨span, hleads, hfirst, fun last hlast k hk hshows h hmem => ?_⟩
  have hmap : k.ds ∈ keys.map GatedKey.ds := hds ▸ List.mem_map_of_mem hk
  obtain ⟨k', hk', hsame⟩ := List.mem_map.mp hmap
  exact (hkept last hlast k' hk' (hshows.congr hsame.symm) h hmem).congr hsame

/-- A key that was not let go is held, and `shown_since` is the start of a span. -/
structure Watched.Ok (w : Watched) : Prop where
  held : ∀ k ∈ w.zone.keys, k.released = false → k.key.held = true
  spans : ∀ since, w.zone.shownSince = some since → Spans w.zone.keys w.heard since

/-- **A check to which no agent objects** goes on with the span, or begins one. -/
theorem Watched.Ok.goesOn (h : w.Ok) {source : DsSource} (hagreed : Agreed w source now)
    {given : Answers} (hasked : w.zone.ask source now = some given)
    (hnone : w.zone.firstObjection now given = none) :
    Spans w.zone.keys (⟨now, some given⟩ :: w.heard) (w.zone.shownSince.getD now) := by
  cases hsince : w.zone.shownSince with
  | none =>
    refine ⟨[⟨now, some given⟩], ⟨w.heard, rfl⟩, ⟨_, List.mem_singleton_self _, rfl⟩, fun last hlast k _ hshows h hmem => ?_⟩
    cases hlast
    rwa [List.mem_singleton.mp hmem]
  | some since =>
    obtain ⟨span, hleads, ⟨first, hfirst, hbegan⟩, hkept⟩ := h.spans since hsince
    refine ⟨⟨now, some given⟩ :: span, (List.prefix_cons_inj _).mpr hleads,
      ⟨first, List.mem_cons_of_mem _ hfirst, hbegan⟩, fun last hlast k hk hshows h hmem => ?_⟩
    cases hlast
    rcases List.mem_cons.mp hmem with rfl | hmem
    · exact hshows
    · -- what they all show now they all showed at the check before, and so throughout
      obtain ⟨before, hbefore⟩ : ∃ before, w.heard.head? = some before :=
        ⟨_, List.head?_eq_some_head (List.ne_nil_of_mem (hleads.subset hfirst))⟩
      have hopen : w.zone.shownSince.isSome = true := by rw [hsince]; rfl
      exact hkept before hbefore k hk (hagreed.same given hasked hnone hopen before hbefore k hk hshows) h hmem

theorem Watched.Ok.check {later : Nat} (h : w.Ok) {source : DsSource}
    (hagreed : Agreed w source later) :
    (w.check source later).Ok where
  held := by
    have hhold : ∀ why : String, ∀ k ∈ w.zone.hold later why, k.released = false → k.key.held = true := by
      intro why k hk hreleased
      obtain ⟨i, hi⟩ := List.getElem?_of_mem hk
      have hlength : i < w.zone.keys.length := by
        obtain ⟨hlt, -⟩ := List.getElem?_eq_some_iff.mp hi
        rwa [GatedZone.hold, List.length_map] at hlt
      have hat := List.getElem?_eq_getElem hlength
      obtain ⟨hsame, hkey⟩ := getElem?_hold hat hi
      rw [hkey]
      exact h.held _ (List.getElem_mem hlength) (hsame ▸ hreleased)
    intro k hk hreleased
    have hk' : k ∈ (w.zone.decide later (w.zone.ask source later)).2.keys := hk
    rcases decide_cases w.zone later (w.zone.ask source later) with
      ⟨-, hsame⟩ | ⟨why, hheld⟩ | ⟨given, -, -, -, ⟨why, hheld⟩ | ⟨-, hgo⟩⟩
    · rw [hsame] at hk'
      exact h.held k hk' hreleased
    · rw [hheld] at hk'
      exact hhold why k hk' hreleased
    · rw [hheld] at hk'
      exact hhold why k hk' hreleased
    · rw [hgo] at hk'
      obtain ⟨before, hbefore, rfl⟩ := List.mem_map.mp hk'
      by_cases hwaits : before.isWaiting later = true
      · rw [if_pos hwaits] at hreleased
        cases hreleased
      · rw [if_neg hwaits] at hreleased ⊢
        exact h.held before hbefore hreleased
  spans := by
    intro since hsince
    refine Spans.congr ?_ (ds_decide w.zone later (w.zone.ask source later))
    have hsince' : (w.zone.decide later (w.zone.ask source later)).2.shownSince = some since := hsince
    rcases decide_cases w.zone later (w.zone.ask source later) with
      ⟨hunasked, hsame⟩ | ⟨why, hheld⟩ | ⟨given, hasked, hnone, hshown, -⟩
    · -- inside a span they are asked
      rw [hsame] at hsince'
      rw [GatedZone.ask, if_pos (hagreed.asked (by rw [hsince']; rfl))] at hunasked
      cases hunasked
    · rw [hheld] at hsince'
      cases hsince'
    · rw [hshown] at hsince'
      rw [Watched.check, hasked, ← Option.some.inj hsince']
      exact h.goesOn hagreed hasked hnone

theorem GateRan.ok {digests : DsDigests} {gate : List Watched}
    (hrun : GateRan digests Agreed now gate) :
    ∀ w ∈ gate, w.Ok := by
  induction hrun with
  | start now agents keysFor hnew =>
    intro w hw
    obtain ⟨zone, hzone, rfl⟩ := List.mem_map.mp hw
    obtain ⟨⟨origin, _⟩, -, hmade⟩ := mem_of_mapM_ok hnew hzone
    dsimp only at hmade
    split at hmade
    · cases hmade
    · cases hmade
      refine ⟨fun k hk hreleased => ?_, fun _ hsince => (by cases hsince)⟩
      obtain ⟨key, -, rfl⟩ := List.mem_map.mp hk
      rw [GatedKey.new] at hreleased ⊢
      dsimp only at hreleased ⊢
      rwa [Bool.not_eq_false'] at hreleased
  | check source _ _ hagreed ih =>
    intro w hw
    obtain ⟨before, hbefore, rfl⟩ := List.mem_map.mp hw
    exact (ih before hbefore).check (hagreed before hbefore)

theorem isActive_of_held {key : SigningKey} (h : key.held = true) (now : Nat) :
    key.isActive now = (key.fileTiming.publish.all (now ≥ ·) && key.fileTiming.activate.all (now ≥ ·)) := by
  rw [SigningKey.isActive, SigningKey.timing, if_pos h, KeyTiming.isActive, KeyTiming.isPublished]
  simp

/-- **A key-signing key is let go when a successor can carry the zone**, in every run whose checks
the agents keep to; until then it is active whenever its Publish and Activate allow. -/
theorem released_after_successor {digests : DsDigests} {now : Nat} {gate : List Watched}
    (hrun : GateRan digests Agreed now gate) :
    ∀ w ∈ gate, (∀ k ∈ w.zone.keys, k.released = false → ∀ moment, k.key.isActive moment =
        (k.timing.publish.all (moment ≥ ·) && k.timing.activate.all (moment ≥ ·))) ∧
      ∀ source later, now ≤ later → Agreed w source later → ∀ (i : Nat) (k k' : GatedKey), w.zone.keys[i]? = some k →
        (w.check source later).zone.keys[i]? = some k' → k.released = false → k'.released = true →
          ∃ answers, w.zone.ask source later = some answers ∧
            Succeeded w.zone.keys (w.check source later).heard later (largestTtl answers) k := by
  intro w hw
  have hok := hrun.ok w hw
  refine ⟨fun k hk hreleased moment => isActive_of_held (hok.held k hk hreleased) moment, ?_⟩
  intro source later hlater hagreed i k k' hk hk' hreleased hgone
  obtain ⟨hretiring, answers, hasked, hnone, htime⟩ := of_released hk hk' hreleased hgone
  obtain ⟨other, hother, hsuccessor, hshows⟩ := hagreed.common answers hasked hnone
  obtain ⟨span, hleads, ⟨first, hfirst, hbegan⟩, hkept⟩ := hok.goesOn hagreed hasked hnone
  refine ⟨answers, hasked, other, hother, ne_of_successor hretiring hsuccessor, hsuccessor, span, ?_,
    fun h hmem => hkept _ rfl other hother hshows h hmem, first, hfirst, ?_⟩
  · rwa [Watched.check, hasked]
  · rwa [hbegan]

/-! ## One key retires, and two follow it -/

def rollKey (octet : UInt8) (inactive : Option Nat) : SigningKey :=
  ⟨Name.root, 257, .ed25519, [octet], { KeyTiming.default with inactive }, false⟩

def plainDigests : DsDigests := ⟨id, id, id⟩

def rollKeys : List SigningKey := [rollKey 1 (some 10), rollKey 2 none, rollKey 3 none]

def twoAgents : List (Name × List Agent) := [(Name.root, [⟨"a"⟩, ⟨"b"⟩])]

def rollZone : GatedZone := ⟨Name.root, [⟨"a"⟩, ⟨"b"⟩], rollKeys.map (GatedKey.new plainDigests), none⟩

theorem rollZone_eq : ParentalGate.new plainDigests twoAgents (fun _ => some rollKeys) = .ok [rollZone] := by
  rw [ParentalGate.new, twoAgents, List.mapM_cons, List.mapM_nil]
  rfl

def shownBy (a b : UInt8) (ttl : UInt32) : DsSource := fun agent _ =>
  .ok ⟨(signingDs plainDigests (rollKey (if agent.master = "a" then a else b) none) 2).toList, ttl⟩

def secondShown : Answers :=
  [("a", shownBy 2 2 5 ⟨"a"⟩ .root), ("b", shownBy 2 2 5 ⟨"b"⟩ .root)]

theorem shows_second :
    (Heard.mk now (some secondShown)).Shows (.new plainDigests (rollKey 2 none)) := by
  refine ⟨_, rfl, fun answered hanswered => ?_⟩
  rcases List.mem_pair.mp hanswered with rfl | rfl
  · exact ⟨_, rfl, by decide +kernel⟩
  · exact ⟨_, rfl, by decide +kernel⟩

theorem agreed_second (hask : w.zone.ask (shownBy 2 2 5) now = some secondShown)
    (hkey : (GatedKey.new plainDigests (rollKey 2 none)) ∈ w.zone.keys)
    (hlast : ∀ last ∈ w.heard.head?, last.answers = some secondShown) :
    Agreed w (shownBy 2 2 5) now where
  asked _ := by
    by_contra hnot
    rw [GatedZone.ask, if_neg hnot] at hask
    cases hask
  common answers hasked _ := by
    cases hask.symm.trans hasked
    exact ⟨_, hkey, rfl, shows_second⟩
  same answers hasked _ _ last hmem k _ hshows := by
    cases hask.symm.trans hasked
    obtain ⟨given, hgiven, hall⟩ := hshows
    exact ⟨given, (hlast last hmem).trans hgiven, hall⟩

/-- The zone after two checks that found the second key with both agents. -/
def rolling : Watched := (Watched.check ⟨rollZone, []⟩ (shownBy 2 2 5) 20).check (shownBy 2 2 5) 23

theorem released_after_successor_roll : rolling.zone.shownSince = some 20 ∧
    (rolling.check (shownBy 2 2 5) 25).zone.keys.map GatedKey.released = [true, true, true] ∧
    ∃ k, rolling.zone.keys.head? = some k ∧ k.released = false ∧
      Succeeded rolling.zone.keys (rolling.check (shownBy 2 2 5) 25).heard 25 5 k := by
  have hstart : GateRan plainDigests Agreed 0 [⟨rollZone, []⟩] := .start 0 _ _ rollZone_eq
  have hfirst : GateRan plainDigests Agreed 20 [Watched.check ⟨rollZone, []⟩ (shownBy 2 2 5) 20] :=
    .check _ hstart (by decide) (List.forall_mem_singleton.mpr
      (agreed_second rfl (by decide +kernel) fun _ h => by cases h))
  have hsecond : GateRan plainDigests Agreed 23 [rolling] :=
    .check _ hfirst (by decide) (List.forall_mem_singleton.mpr
      (agreed_second rfl (by decide +kernel) fun _ h => by cases h; rfl))
  have hthird : Agreed rolling (shownBy 2 2 5) 25 := agreed_second rfl (by decide +kernel) fun _ h => by cases h; rfl
  refine ⟨by decide +kernel, by decide +kernel, _, rfl, rfl, ?_⟩
  obtain ⟨answers, hasked, hsucceeded⟩ := (released_after_successor hsecond _ List.mem_cons_self).2 (shownBy 2 2 5) 25
    (by decide) hthird 0 _ _ rfl rfl rfl (by decide +kernel)
  cases hasked
  exact hsucceeded

/-- **A key is let go without a successor**: one agent shows one key's DS, the other another's, and
neither key's DS is with both. -/
theorem released_without_successor :
    ¬ ∀ (digests : DsDigests) (now : Nat) (gate : List Watched), GateRan digests (fun _ _ _ => True) now gate →
      ∀ w ∈ gate, ∀ source later, now ≤ later → ∀ (i : Nat) (k k' : GatedKey), w.zone.keys[i]? = some k →
        (w.check source later).zone.keys[i]? = some k' → k.released = false → k'.released = true →
          ∃ answers, w.zone.ask source later = some answers ∧
            Succeeded w.zone.keys (w.check source later).heard later (largestTtl answers) k := by
  intro h
  have hstart : GateRan plainDigests (fun _ _ _ => True) 0 [⟨rollZone, []⟩] := .start 0 _ _ rollZone_eq
  obtain ⟨answers, hasked, other, hother, -, -, span, hleads, hshows, first, hfirst, -⟩ :=
    h _ _ _ hstart _ List.mem_cons_self (shownBy 2 3 0) 20 (Nat.zero_le _) 0 _ _ rfl rfl rfl (by decide +kernel)
  cases hasked
  have hlast := List.mem_singleton.mp (hleads.subset hfirst)
  obtain ⟨given, hgiven, hall⟩ := hshows first hfirst
  rw [hlast] at hgiven
  cases hgiven
  obtain ⟨a, ha, hmatchA⟩ := hall _ List.mem_cons_self
  obtain ⟨b, hb, hmatchB⟩ := hall _ (List.mem_cons_of_mem _ List.mem_cons_self)
  cases ha
  cases hb
  have hnone : ∀ other ∈ rollKeys.map (GatedKey.new plainDigests),
      (signingDs plainDigests (rollKey 2 none) 2).toList.any other.matches = true →
        (signingDs plainDigests (rollKey 3 none) 2).toList.any other.matches = false := by decide +kernel
  have hclash := hnone other hother hmatchA
  rw [show (signingDs plainDigests (rollKey 3 none) 2).toList.any other.matches = true from hmatchB] at hclash
  cases hclash

end Rdns.Server
