import Rdns.Resolver.CacheRuns

/-!
# Rdns — What a hit is made of

What each of the three caches hands out, and the entries it is taken from: an unexpired "no",
an unexpired answer, an RRset of a wildcard with the record that denies the name, or a denial
put together from proofs of one zone.
-/

namespace Rdns.Resolver

open Rdns.Lib Rdns.Core Rdns.Present Rdns.Dnssec

/-! ## Which cache -/

variable {name : Name} {prefetching synthesizing : Bool} {c : Caches}

variable {now : Nat} {qtype : Qtype} {sha1 : Octets → Nsec3Hash}

/-- **A hit is a "no", an answer, a wildcard's answer or a synthesized denial.** -/
theorem of_lookup {held : Held}
    (h : (c.lookup sha1 now name qtype synthesizing prefetching).1 = some held) :
    (∃ n, c.negatives.get now name qtype = some n ∧ held = .reply n.rcode [] n.authority n.outcome) ∨
    (∃ hit, (c.answers.lookup now name qtype prefetching).1 = some hit ∧ held = .answer hit) ∨
    (∃ w, synthesizeWildcard c.denials now name qtype = some w ∧
      held = .reply .ok w.answers w.authority .secure) ∨
    ∃ s, synthesize sha1 c.denials now name qtype = some s ∧ held = .reply s.rcode [] s.authority .secure := by
  rw [Caches.lookup] at h
  split at h
  · rename_i n hget
    exact .inl ⟨n, hget, (Option.some.inj h).symm⟩
  · split at h
    · rename_i hit answers hlookup
      exact .inr (.inl ⟨hit, by rw [hlookup], (Option.some.inj h).symm⟩)
    · dsimp only at h
      split at h
      · cases h
      · split at h
        · rename_i w hw
          exact .inr (.inr (.inl ⟨w, hw, (Option.some.inj h).symm⟩))
        · obtain ⟨s, hs, rfl⟩ := Option.map_eq_some_iff.mp h
          exact .inr (.inr (.inr ⟨s, hs, rfl⟩))

theorem Caches.lookup_negative {n : NegativeAnswer}
    (hnegative : c.negatives.get now name qtype = some n) :
    (c.lookup sha1 now name qtype synthesizing prefetching).1
      = some (.reply n.rcode [] n.authority n.outcome) := by
  rw [Caches.lookup, hnegative]

theorem Caches.lookup_answer {hit : Cached} (hnegative : c.negatives.get now name qtype = none)
    (hhit : (c.answers.lookup now name qtype prefetching).1 = some hit) :
    (c.lookup sha1 now name qtype synthesizing prefetching).1 = some (.answer hit) := by
  rw [Caches.lookup, hnegative]
  generalize c.answers.lookup now name qtype prefetching = found at hhit
  obtain ⟨answer, answers⟩ := found
  cases hhit
  rfl

theorem NegativeCache.of_get {n : NegativeCache} {answer : NegativeAnswer}
    (h : n.get now name qtype = some answer) :
    ∃ entry, entry.live now = true ∧ answer = entry.answer now ∧
      ((∃ key, (key, entry) ∈ n.nxdomain) ∨ ∃ key, (key, entry) ∈ n.nodata) := by
  rw [NegativeCache.get] at h
  split at h
  · cases h
  · dsimp only at h
    split at h
    · rename_i entry hdenied
      obtain ⟨ancestor, -, hfound⟩ := List.exists_of_findSome?_eq_some hdenied
      obtain ⟨hget, hlive⟩ := Option.filter_eq_some_iff.mp hfound
      exact ⟨entry, hlive, (Option.some.inj h).symm, .inl ⟨ancestor, Entries.mem_of_get hget⟩⟩
    · obtain ⟨entry, hfound, rfl⟩ := Option.map_eq_some_iff.mp h
      obtain ⟨hget, hlive⟩ := Option.filter_eq_some_iff.mp hfound
      exact ⟨entry, hlive, rfl, .inr ⟨_, Entries.mem_of_get hget⟩⟩

theorem DnsCache.of_lookup {d : DnsCache} {hit : Cached}
    (h : (d.lookup now name qtype prefetching).1 = some hit) :
    ∃ entry, d.cache.get (nameTypeKey name qtype) = some entry ∧ entry.expiresAt.isLive now = true ∧
      hit.records = entry.records ∧ hit.outcome = entry.outcome ∧ hit.learnedAt = entry.learnedAt := by
  rw [DnsCache.lookup] at h
  dsimp only at h
  split at h
  · cases h
  · rename_i entry hget
    split at h
    · rename_i hlive
      rw [CacheEntry.isExpired, Bool.not_not] at hlive
      cases h
      exact ⟨entry, hget, hlive, rfl, rfl, rfl⟩
    · split at h
      · cases h
      · cases h

/-! ## From a wildcard -/

/-- **A wildcard's answer is its RRset under the name asked for**, with the NSEC that covers
the name, and no TTL beyond either of them. -/
theorem of_synthesizeWildcard {zones : HeldZones} {q : Name} {w : WildcardSynthesis}
    (h : synthesizeWildcard zones now q qtype = some w) :
    ∃ zoneName proofs wildcard cached denial ttl, (zoneName, proofs) ∈ zones ∧
      q.isAtOrUnder zoneName = true ∧ wildcardForParentOf q = some wildcard ∧
      (wildcardKey wildcard qtype, cached) ∈ proofs.wildcards ∧
      (∃ key, (key, denial) ∈ proofs.nsecs) ∧ denial.proof.covers q = true ∧
      ttl ≤ cached.expiresAt.unixSecs - now ∧ ttl ≤ denial.expiresAt.unixSecs - now ∧ ttl < 2 ^ 32 ∧
      ttl ≠ 0 ∧
      w.answers = (withTtl cached.records ttl).map (fun rr => { rr with name := q }) ∧
      w.authority = withTtl denial.records ttl := by
  rw [synthesizeWildcard] at h
  split at h
  · cases h
  · obtain ⟨wildcard, hwildcard, h⟩ := Option.bind_eq_some_iff.mp h
    obtain ⟨⟨zoneName, proofs⟩, henclosing, h⟩ := Option.bind_eq_some_iff.mp h
    obtain ⟨cached, hcached, h⟩ := Option.bind_eq_some_iff.mp h
    obtain ⟨denial, hdenial, h⟩ := Option.bind_eq_some_iff.mp h
    dsimp only at h
    split at h
    · cases h
    · rename_i hpos
      cases h
      refine ⟨zoneName, proofs, wildcard, cached, denial, _, (of_enclosing henclosing).1, (of_enclosing henclosing).2, hwildcard,
        Entries.mem_of_get (Option.filter_eq_some_iff.mp hcached).1, (of_coveringNsec hdenial).1,
        (of_coveringNsec hdenial).2.1, ?_, ?_, ?_, hpos, rfl, rfl⟩
      · rw [Deadline.remainingTtl]
        dsimp only
        omega
      · rw [Deadline.remainingTtl]
        dsimp only
        omega
      · rw [Deadline.remainingTtl]
        omega

/-! ## From proofs -/

structure Gathered.RestsOn (proofs : ZoneProofs) (now : Nat) (g : Gathered)
    (used : List (CachedProof Nsec)) (used3 : List (CachedProof Nsec3)) : Prop where
  heldNsecs : ∀ c ∈ used, (∃ key, (key, c) ∈ proofs.nsecs) ∧ g.ttl ≤ c.remaining now
  heldNsec3s : ∀ c ∈ used3, (∃ key, (key, c) ∈ proofs.nsec3s) ∧ g.ttl ≤ c.remaining now
  nsecs : g.nsecs = used.map CachedProof.proof
  nsec3s : g.nsec3s = used3.map CachedProof.proof
  records : g.records = used.flatMap CachedProof.records ++ used3.flatMap CachedProof.records

theorem shortest_le {α : Type} {candidates : List (CachedProof α)} {c : CachedProof α} (now : Nat)
    (h : c ∈ candidates) : shortest candidates now ≤ c.remaining now := by
  have hmem := List.mem_map_of_mem (f := fun c : CachedProof α => c.remaining now) h
  rw [shortest]
  cases hmin : (candidates.map fun c => c.remaining now).min? with
  | none => exact Nat.zero_le _
  | some least => exact (List.min?_eq_some_iff.mp hmin).2 _ hmem

section Gathering

variable {sha1 : Octets → Nsec3Hash} {proofs : ZoneProofs} {now : Nat} {q zone : Name} {qtype : Qtype}
  {g : Gathered}

theorem restsOn_one_nsec {rcode : ResponseCode} {c : CachedProof Nsec} {key : Octets}
    (h : (key, c) ∈ proofs.nsecs) :
    Gathered.RestsOn proofs now ⟨rcode, [c.proof], [], c.records, c.remaining now⟩ [c] [] where
  heldNsecs := fun c' hc' => by
    rw [List.mem_singleton.mp hc']
    exact ⟨⟨key, h⟩, le_rfl⟩
  heldNsec3s := fun _ hc' => (by cases hc')
  nsecs := rfl
  nsec3s := rfl
  records := by simp

theorem restsOn_one_nsec3 {rcode : ResponseCode} {c : CachedProof Nsec3} {key : Octets}
    (h : (key, c) ∈ proofs.nsec3s) :
    Gathered.RestsOn proofs now ⟨rcode, [], [c.proof], c.records, c.remaining now⟩ [] [c] where
  heldNsecs := fun _ hc' => (by cases hc')
  heldNsec3s := fun c' hc' => by
    rw [List.mem_singleton.mp hc']
    exact ⟨⟨key, h⟩, le_rfl⟩
  nsecs := rfl
  nsec3s := rfl
  records := by simp

theorem restsOn_gatherNodata3 {sets : List Nsec3Params}
    (h : proofs.gatherNodata3 sha1 now q qtype sets = some g) :
    ∃ used used3, g.RestsOn proofs now used used3 := by
  induction sets with
  | nil => cases h
  | cons params rest ih =>
    rw [ZoneProofs.gatherNodata3] at h
    split at h
    · exact ih h
    · split at h
      · exact ih h
      · rename_i c hmatch
        split at h
        · cases h
        · cases h
          exact ⟨[], [c], restsOn_one_nsec3 (of_matchingNsec3 hmatch).1⟩

theorem restsOn_gatherNodata (h : proofs.gatherNodata sha1 now q qtype = some g) :
    ∃ used used3, g.RestsOn proofs now used used3 := by
  rw [ZoneProofs.gatherNodata] at h
  split at h
  · rename_i c hmatch
    split at h
    · cases h
    · cases h
      exact ⟨[c], [], restsOn_one_nsec (of_matchingNsec hmatch)⟩
  · exact restsOn_gatherNodata3 h

theorem mem_of_encloserOf {params : Nsec3Params} {qlabels zlabels depth : Nat} {candidate : Name}
    {below : Option Name} {nextCloser encloser : Name} {c : CachedProof Nsec3}
    (h : proofs.encloserOf sha1 now qlabels zlabels params depth candidate below
      = some (nextCloser, encloser, c)) : ∃ key, (key, c) ∈ proofs.nsec3s := by
  induction depth generalizing candidate below with
  | zero =>
    rw [ZoneProofs.encloserOf.eq_def] at h
    split at h
    · cases h
    · split at h
      · rename_i hmatch
        split at h
        · cases h
        · obtain ⟨_, -, heq⟩ := Option.map_eq_some_iff.mp h
          cases heq
          exact ⟨_, (of_matchingNsec3 hmatch).1⟩
      · split at h
        · cases h
        · cases h
  | succ depth ih =>
    rw [ZoneProofs.encloserOf.eq_def] at h
    split at h
    · cases h
    · split at h
      · rename_i hmatch
        split at h
        · cases h
        · obtain ⟨_, -, heq⟩ := Option.map_eq_some_iff.mp h
          cases heq
          exact ⟨_, (of_matchingNsec3 hmatch).1⟩
      · split at h
        · cases h
        · cases hup : candidate.parent with
          | none =>
            rw [hup] at h
            cases h
          | some up =>
            rw [hup] at h
            exact ih h

theorem rcode_gatherNxdomain (hunder : q.isAtOrUnder zone = true)
    (h : proofs.gatherNxdomain sha1 now q zone = some g) : g.rcode = .noSuchDomain := by
  rw [ZoneProofs.gatherNxdomain] at h
  split at h
  · cases h
    rfl
  · split at h
    · obtain ⟨params, -, hfound⟩ := List.exists_of_findSome?_eq_some h
      exact (of_gatherNxdomainUnder hunder hfound).1
    · cases h

theorem restsOn_gatherNxdomainUnder {params : Nsec3Params}
    (h : proofs.gatherNxdomainUnder sha1 now q zone params = some g) :
    ∃ used used3, g.RestsOn proofs now used used3 := by
  rw [ZoneProofs.gatherNxdomainUnder] at h
  obtain ⟨⟨nextCloser, encloser, matching⟩, hwalk, h⟩ := Option.bind_eq_some_iff.mp h
  dsimp only at h
  split at h
  · cases h
  · obtain ⟨hash', -, h⟩ := Option.bind_eq_some_iff.mp h
    obtain ⟨covering, hcovering, h⟩ := Option.bind_eq_some_iff.mp h
    obtain ⟨wildcard, -, h⟩ := Option.bind_eq_some_iff.mp h
    obtain ⟨starHash, -, h⟩ := Option.bind_eq_some_iff.mp h
    obtain ⟨accounted, haccounted, h⟩ := Option.bind_eq_some_iff.mp h
    cases h
    have hmatching := mem_of_encloserOf hwalk
    have hcoveringMem := (of_coveringNsec3 hcovering).1
    have haccountedMem : ∃ key, (key, accounted) ∈ proofs.nsec3s := by
      rcases Option.or_eq_some_iff.mp haccounted with hmatch | ⟨-, hcover⟩
      · exact ⟨_, (of_matchingNsec3 hmatch).1⟩
      · exact (of_coveringNsec3 hcover).1
    refine ⟨[], _, ⟨fun _ hc => (by cases hc), fun c hc => ⟨?_, shortest_le now hc⟩, rfl, rfl, by simp⟩⟩
    rcases mem_pushUnique hc with hc | rfl
    · rcases mem_pushUnique hc with hc | rfl
      · rw [List.mem_singleton.mp hc]
        exact hmatching
      · exact hcoveringMem
    · exact haccountedMem

theorem restsOn_gatherNxdomain (h : proofs.gatherNxdomain sha1 now q zone = some g) :
    ∃ used used3, g.RestsOn proofs now used used3 := by
  rw [ZoneProofs.gatherNxdomain] at h
  split at h
  · rename_i covering hcovering
    cases h
    refine ⟨_, [], ⟨fun c hc => ⟨?_, shortest_le now hc⟩, fun _ hc => (by cases hc), rfl, rfl, by simp⟩⟩
    exact (of_withWildcards (of_coveringNsec hcovering).1).2 c hc
  · split at h
    · obtain ⟨params, -, hunder⟩ := List.exists_of_findSome?_eq_some h
      exact restsOn_gatherNxdomainUnder hunder
    · cases h

/-- **A denial rests on proofs of one zone, and on its SOA**, and carries no TTL beyond any of
them. -/
theorem of_synthesize_rests {zones : HeldZones} {s : Synthesis}
    (h : synthesize sha1 zones now q qtype = some s) :
    ∃ (zoneName : Name) (proofs : ZoneProofs) (soa : CachedSoa) (g : Gathered)
        (used : List (CachedProof Nsec)) (used3 : List (CachedProof Nsec3)),
      (zoneName, proofs) ∈ zones ∧ proofs.soa = some soa ∧
      g.RestsOn proofs now used used3 ∧ g.proved sha1 q zoneName qtype = true ∧ s.rcode = g.rcode ∧
      (g.rcode = .noSuchDomain ∨ g.rcode = .ok) ∧
      s.ttl ≠ 0 ∧ s.ttl ≤ g.ttl ∧ s.ttl ≤ soa.expiresAt.remainingTtl now ∧
      s.authority = withTtl soa.records s.ttl ++ withTtl g.records s.ttl := by
  rw [synthesize] at h
  split at h
  · cases h
  · obtain ⟨⟨zoneName, proofs⟩, henclosing, h⟩ := Option.bind_eq_some_iff.mp h
    obtain ⟨soa, hsoa, h⟩ := Option.bind_eq_some_iff.mp h
    obtain ⟨g, hgathered, h⟩ := Option.bind_eq_some_iff.mp h
    dsimp only at h
    split at h
    · cases h
    · rename_i hproved
      split at h
      · cases h
      · rename_i hpos
        cases h
        rw [Bool.not_eq_true', Bool.not_eq_false] at hproved
        have hunder := (of_enclosing henclosing).2
        have hrests : ∃ used used3, g.RestsOn proofs now used used3 := by grind [Option.or_eq_some_iff, restsOn_gatherNodata, restsOn_gatherNxdomain]
        have hrcode : g.rcode = .noSuchDomain ∨ g.rcode = .ok := by grind [Option.or_eq_some_iff, of_gatherNodata, rcode_gatherNxdomain]
        obtain ⟨used, used3, hrests⟩ := hrests
        exact ⟨zoneName, proofs, soa, g, used, used3, (of_enclosing henclosing).1,
          (Option.filter_eq_some_iff.mp hsoa).1, hrests, hproved, rfl, hrcode, hpos, min_le_left _ _,
          (min_le_right _ _).trans (min_le_right _ _), rfl⟩

end Gathering

end Rdns.Resolver
