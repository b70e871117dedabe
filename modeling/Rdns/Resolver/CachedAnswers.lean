import Rdns.Resolver.CacheHits

/-!
# Rdns — A hit and the answer that was stored

One response is split over three caches by the shape of its sections, and a hit is rebuilt
from whichever cache is asked first. An answer's RCODE is not stored: a hit on the answer
cache says NOERROR. What is rebuilt from proofs says what the proofs say, and what is rebuilt
from a wildcard is the wildcard's RRset alone.
-/

namespace Rdns.Resolver

open Rdns.Lib Rdns.Core Rdns.Present Rdns.Zones Rdns.Dnssec RecordTypes

/-! ## What a store left -/

structure Caches.PartOf (part c : Caches) : Prop where
  answers : ∀ entry ∈ part.answers.cache, entry ∈ c.answers.cache
  nxdomain : ∀ entry ∈ part.negatives.nxdomain, entry ∈ c.negatives.nxdomain
  nodata : ∀ entry ∈ part.negatives.nodata, entry ∈ c.negatives.nodata
  denials : ∀ entry ∈ part.denials, ∃ held ∈ c.denials, entry.1 = held.1 ∧
    (∀ proof ∈ entry.2.nsecs, proof ∈ held.2.nsecs) ∧ (∀ proof ∈ entry.2.nsec3s, proof ∈ held.2.nsec3s) ∧
    (∀ soa, entry.2.soa = some soa → held.2.soa = some soa) ∧
    ∀ wildcard ∈ entry.2.wildcards, wildcard ∈ held.2.wildcards

/-- A lookup of the question `call` stored, which what `call` left in the caches answers: the
entries among them that `call` made give the same hit alone. -/
structure AnsweredBy (sha1 : Octets → Nsec3Hash) (call : StoreCall) (c : Caches) (now : Nat) (name : Name)
    (synthesizing prefetching : Bool) (held : Held) : Prop where
  question : name.same call.query.qname = true
  found : (c.lookup sha1 now name call.query.qtype synthesizing prefetching).1 = some held
  left : ∃ part : Caches, part.PartOf c ∧ part.From [call] ∧
    (part.lookup sha1 now name call.query.qtype synthesizing prefetching).1 = some held

def alike (a b : ResourceRecord) : Prop :=
  a.name.same b.name = true ∧ a.cls = b.cls ∧ a.rdata = b.rdata

def SameRecords (a b : List ResourceRecord) : Prop :=
  (∀ x ∈ a, ∃ y ∈ b, alike x y) ∧ ∀ y ∈ b, ∃ x ∈ a, alike x y

structure SameReply (call : StoreCall) (reply : Reply) : Prop where
  rcode : reply.rcode = call.response.rcode
  answers : SameRecords reply.answers call.response.answers
  outcome : reply.outcome = call.state.outcome

/-! ## When a hit is what was stored -/

/-- `rtype` at `name` was expanded from the wildcard beside it, and a record denies the name:
what a later answer may be synthesized from. -/
def ExpandsBeside (call : StoreCall) (name : Name) (rtype : Rtype) : Prop :=
  (∃ rr ∈ call.response.answers, ∃ pending wildcard, pendingOf rr = some pending ∧
    pending.rtype = rtype ∧ wildcardForParentOf name = some wildcard ∧
    wildcard.same pending.wildcard = true) ∧
  ∃ nsec ∈ nsecsIn call.response.authorities, nsec.covers name = true

/-- A response that every part of the caches it is kept in gives back.

* A response with records in its answer section is a NOERROR, unless it is not kept for a
  second.
* Of a validated denial, no choice of its records proves another denial of the question.
* A validated answer that can be synthesized again is nothing but the RRset asked for, at the
  name asked for, and its signatures. -/
structure Rebuilds (sha1 : Octets → Nsec3Hash) (call : StoreCall) (name : Name) : Prop where
  answer : call.state.isBogus = false → call.response.answers ≠ [] → 0 < cacheTtl call.response.answers →
    call.response.rcode = .ok
  denial : call.state = .secure → call.response.answers = [] →
    ∀ soaRr minimum zone nsecs nsec3s, StoreCall.soaOf call.response = some (soaRr, minimum) →
      zone.same soaRr.name = true → nsecs ⊆ nsecsIn call.response.authorities →
      nsec3s ⊆ nsec3sIn call.response.authorities →
        (provesNxdomain sha1 name zone nsecs nsec3s = .proved → call.response.rcode = .noSuchDomain) ∧
          (provesNodata sha1 name zone ⟨call.query.qtype.code⟩ nsecs nsec3s = .proved →
            call.response.rcode = .ok)
  wildcard : call.state = .secure → ExpandsBeside call name ⟨call.query.qtype.code⟩ →
    call.response.rcode = .ok ∧ ∀ rr ∈ call.response.answers, rr.name.same name = true ∧
      (rr.rdata.rtype = ⟨call.query.qtype.code⟩ ∨ coveredType rr.rdata = some ⟨call.query.qtype.code⟩)

theorem alike_refl (rr : ResourceRecord) : alike rr rr := ⟨Name.same_self _, rfl, rfl⟩

theorem sameRecords_refl (records : List ResourceRecord) : SameRecords records records :=
  ⟨fun x hx => ⟨x, hx, alike_refl x⟩, fun y hy => ⟨y, hy, alike_refl y⟩⟩

theorem after_le_of_live {now later secs : Nat} (hlater : now ≤ later)
    (hlive : (Deadline.after now secs).isLive later = true) : 0 < secs := by
  have hlt := of_decide_eq_true hlive
  rw [Deadline.after] at hlt
  dsimp only at hlt
  omega

theorem mem_of_madeProof_nsec {call : StoreCall} {c : CachedProof Nsec}
    (h : call.MadeProof NSEC Nsec.fromRecord Nsec.owner c) :
    c.proof ∈ nsecsIn call.response.authorities := by
  obtain ⟨rr, hrr, hfrom, -⟩ := h.record
  exact List.mem_filterMap.mpr ⟨rr, hrr, hfrom⟩

theorem mem_of_madeProof_nsec3 {call : StoreCall} {c : CachedProof Nsec3}
    (h : call.MadeProof NSEC3 Nsec3.fromRecord Nsec3.owner c) :
    c.proof ∈ nsec3sIn call.response.authorities := by
  obtain ⟨rr, hrr, hfrom, -⟩ := h.record
  exact List.mem_filterMap.mpr ⟨rr, hrr, hfrom⟩

theorem mem_wildcardRecords_iff {answers : List ResourceRecord} {name : Name} {rtype : Rtype}
    (hname : name.isRoot = false) (hsome : wildcardRecords answers rtype ≠ [])
    (hall : ∀ rr ∈ answers, rr.name.same name = true ∧
      (rr.rdata.rtype = rtype ∨ coveredType rr.rdata = some rtype)) (rr : ResourceRecord) :
    rr ∈ wildcardRecords answers rtype ↔ rr ∈ answers := by
  constructor
  · intro h
    rcases List.mem_append.mp h with h | h
    · exact (List.mem_filter.mp (List.mem_filter.mp h).1).1
    · exact (List.mem_filter.mp h).1
  · intro h
    cases hfind : answers.find? fun rr => rr.rdata.rtype == rtype with
    | some first =>
      have hfirst := hall first (List.mem_of_find?_eq_some hfind)
      rw [wildcardRecords, hfind]
      refine List.mem_append_left _ (List.mem_filter.mpr ⟨List.mem_filter.mpr ⟨h, ?_⟩, ?_⟩)
      · rw [Name.same_iff, Name.toFolded_toFolded, Name.same_iff.mp (hall rr h).1,
          Name.same_iff.mp hfirst.1]
      · rw [Bool.or_eq_true, beq_iff_eq, beq_iff_eq]
        exact (hall rr h).2
    | none =>
      -- no record of the type: then what is looked for is at the root, and nothing is there
      have hnoRoot : ∀ rr ∈ answers, rr.name.same Name.root = false := by
        intro rr hrr
        rw [← Bool.not_eq_true, Name.same_iff, Name.same_iff.mp (hall rr hrr).1]
        intro hroot
        have hlabels : foldLabels name.labels = [] := congrArg Name.labels hroot
        have hempty : name.labels = [] := List.map_eq_nil_iff.mp hlabels
        rw [Name.isRoot, hempty] at hname
        cases hname
      refine absurd ?_ hsome
      rw [wildcardRecords, hfind]
      dsimp only
      rw [List.append_eq_nil_iff]
      constructor
      · rw [recordsCovering, List.filter_filter, List.filter_eq_nil_iff]
        intro rr hrr hkept
        rw [Bool.and_eq_true, hnoRoot rr hrr] at hkept
        cases hkept.2
      · rw [List.filter_eq_nil_iff]
        intro rr hrr hkept
        split at hkept
        · rename_i s hfrom
          have howner : s.owner = rr.name.toFolded := by grind [Rrsig.fromRecord]
          rw [Bool.and_eq_true, howner, Name.same_iff, Name.toFolded_toFolded, ← Name.same_iff,
            hnoRoot rr hrr] at hkept
          cases hkept.2
        · cases hkept

theorem not_isRoot_of_parent {name wildcard : Name} (h : wildcardForParentOf name = some wildcard) :
    name.isRoot = false := by
  rw [wildcardForParentOf] at h
  split at h
  · cases h
  · rename_i rest hparent
    rw [Name.parent] at hparent
    split at hparent
    · cases hparent
    · rename_i hroot
      exact Bool.not_eq_true _ ▸ hroot

/-- **A hit is the answer that was stored**, whatever was stored, looked up and forgotten in
between, where every part of the caches gives it back. -/
theorem cached_reply_is_stored {sha1 : Octets → Nsec3Hash} {capacity denialZones : Nat} {stale : StalePolicy}
    {now : Nat} {history : List StoreCall} {c : Caches}
    (hrun : Ran sha1 (.new capacity denialZones stale) now history c) {call : StoreCall}
    (hcall : call ∈ history) {name : Name} {synthesizing prefetching : Bool} {held : Held}
    (hrebuilds : Rebuilds sha1 call name)
    (hfrom : AnsweredBy sha1 call c now name synthesizing prefetching held) :
    SameReply call held.built := by
  have hlater := hrun.past call hcall
  obtain ⟨-, -, part, -, hmade, hfound⟩ := hfrom
  rcases of_lookup hfound with ⟨n, hget, rfl⟩ | ⟨hit, hhit, rfl⟩ | ⟨w, hw, rfl⟩ | ⟨s, hs, rfl⟩
  · -- a "no" holds the response it was made of
    have hnegative : ∃ entry, n = entry.answer now ∧ call.MadeNegative entry := by
      obtain ⟨entry, -, rfl, ⟨key, hmem⟩ | ⟨key, hmem⟩⟩ := NegativeCache.of_get hget
      · obtain ⟨other, hother, hentry, -⟩ := hmade.nxdomain _ hmem
        rw [List.mem_singleton] at hother
        exact ⟨entry, rfl, hother ▸ hentry⟩
      · obtain ⟨other, hother, hentry, -⟩ := hmade.nodata _ hmem
        rw [List.mem_singleton] at hother
        exact ⟨entry, rfl, hother ▸ hentry⟩
    obtain ⟨entry, rfl, hentry⟩ := hnegative
    refine ⟨hentry.rcode, ?_, hentry.outcome⟩
    rw [hentry.none]
    exact sameRecords_refl []
  · -- an answer holds the records, and its RCODE is assumed
    obtain ⟨entry, hget, hlive, hrecords, houtcome, -⟩ := DnsCache.of_lookup hhit
    obtain ⟨other, hother, hentry⟩ := hmade.answers _ (Entries.mem_of_get hget)
    obtain rfl := List.mem_singleton.mp hother
    refine ⟨?_, ?_, houtcome.trans hentry.outcome⟩
    · rw [hentry.expiresAt] at hlive
      exact (hrebuilds.answer hentry.believed hentry.some (after_le_of_live hlater hlive)).symm
    · show SameRecords hit.records _
      rw [hrecords, hentry.records]
      exact sameRecords_refl _
  · -- a wildcard holds one RRset
    obtain ⟨zoneName, proofs, wildcard, cached, denial, ttl, hzone, -, hparent, hcached, ⟨key, hdenial⟩,
      hcovers, -, -, -, -, hanswers, -⟩ := of_synthesizeWildcard hw
    obtain ⟨other, hother, hentry⟩ := (hmade.denials _ hzone).wildcards _ hcached
    obtain rfl := List.mem_singleton.mp hother
    obtain ⟨nsecCall, hnsecCall, hnsec⟩ := (hmade.denials _ hzone).nsecs _ hdenial
    obtain rfl := List.mem_singleton.mp hnsecCall
    obtain ⟨rr, hrr, pending, hpending, hkey, rfl⟩ := hentry.made
    obtain ⟨hwildcard, hqtype⟩ := Prod.mk.inj hkey
    have hrtype : pending.rtype = ⟨nsecCall.query.qtype.code⟩ := by
      rw [hqtype]
      rfl
    have hexpands : ExpandsBeside nsecCall name ⟨nsecCall.query.qtype.code⟩ :=
      ⟨⟨rr, hrr, pending, wildcard, hpending, hrtype, hparent, Name.same_iff.mpr hwildcard⟩,
        denial.proof, mem_of_madeProof_nsec hnsec, hcovers⟩
    obtain ⟨hrcode, hall⟩ := hrebuilds.wildcard hentry.secure hexpands
    have hrecords : ∀ r, r ∈ wildcardRecords nsecCall.response.answers pending.rtype ↔
        r ∈ nsecCall.response.answers := by
      refine mem_wildcardRecords_iff (not_isRoot_of_parent hparent) hentry.some fun r hr => ?_
      rw [hrtype]
      exact hall r hr
    refine ⟨hrcode.symm, ?_, by rw [hentry.secure]; rfl⟩
    show SameRecords w.answers _
    rw [hanswers]
    constructor
    · intro x hx
      obtain ⟨kept, hkept, rfl⟩ := List.mem_map.mp hx
      obtain ⟨r, hr, rfl⟩ := List.mem_map.mp hkept
      refine ⟨r, (hrecords r).mp hr, ?_, rfl, rfl⟩
      rw [Name.same_iff, Name.same_iff.mp (hall r ((hrecords r).mp hr)).1]
    · intro y hy
      refine ⟨_, List.mem_map_of_mem (List.mem_map_of_mem ((hrecords y).mpr hy)), ?_, rfl, rfl⟩
      rw [Name.same_iff, Name.same_iff.mp (hall y hy).1]
  · -- a synthesized denial says what its proofs prove
    obtain ⟨zoneName, proofs, soa, g, used, used3, hzone, hsoa, hrests, hproved, hrcode, hkind, -⟩ :=
      of_synthesize_rests hs
    have hzoneFrom := hmade.denials _ hzone
    obtain ⟨other, hother, hsoaMade⟩ := hzoneFrom.soa soa hsoa
    obtain rfl := List.mem_singleton.mp hother
    obtain ⟨soaRr, minimum, hsoaOf, hsame, -⟩ := hsoaMade.made
    have hnsecs : g.nsecs ⊆ nsecsIn other.response.authorities := by
      intro nsec hnsec
      rw [hrests.nsecs] at hnsec
      obtain ⟨cached, hcached, rfl⟩ := List.mem_map.mp hnsec
      obtain ⟨key, hheld⟩ := (hrests.heldNsecs cached hcached).1
      obtain ⟨maker, hmaker, hproof⟩ := hzoneFrom.nsecs _ hheld
      obtain rfl := List.mem_singleton.mp hmaker
      exact mem_of_madeProof_nsec hproof
    have hnsec3s : g.nsec3s ⊆ nsec3sIn other.response.authorities := by
      intro nsec3 hnsec3
      rw [hrests.nsec3s] at hnsec3
      obtain ⟨cached, hcached, rfl⟩ := List.mem_map.mp hnsec3
      obtain ⟨key, hheld⟩ := (hrests.heldNsec3s cached hcached).1
      obtain ⟨maker, hmaker, hproof⟩ := hzoneFrom.nsec3s _ hheld
      obtain rfl := List.mem_singleton.mp hmaker
      exact mem_of_madeProof_nsec3 hproof
    have hdenial := hrebuilds.denial hsoaMade.secure hsoaMade.none soaRr minimum zoneName g.nsecs g.nsec3s
      hsoaOf hsame hnsecs hnsec3s
    refine ⟨?_, ?_, by rw [hsoaMade.secure]; rfl⟩
    · show s.rcode = _
      rw [hrcode]
      rw [Gathered.proved] at hproved
      rcases hkind with hkind | hkind
      · rw [hkind, if_pos rfl, beq_iff_eq] at hproved
        rw [hkind, hdenial.1 hproved]
      · rw [hkind, if_neg (by decide), beq_iff_eq] at hproved
        rw [hkind, hdenial.2 hproved]
    · show SameRecords [] _
      rw [hsoaMade.none]
      exact sameRecords_refl []

/-! ## An alias -/

def aliasRecord : ResourceRecord := ⟨bEx, .IN, ⟨300⟩, ⟨CNAME, ex.wire⟩⟩

def aliasCall (rcode : ResponseCode) : StoreCall where
  now := 0
  query := ⟨bEx, .of A, .in⟩
  response := { denialFrom [] with rcode, answers := [aliasRecord], authorities := [] }
  state := .insecure

def aliasCaches (rcode : ResponseCode) : Caches := (Caches.new 10 10 .OFF).store (aliasCall rcode)

def aliasHit : Held := .answer ⟨[aliasRecord], .insecure, false, 0⟩

theorem ran_aliasCaches (sha1 : Octets → Nsec3Hash) (rcode : ResponseCode) :
    Ran sha1 (.new 10 10 .OFF) 0 [aliasCall rcode] (aliasCaches rcode) :=
  .store (aliasCall rcode) (.start 0)

theorem lookup_aliasCaches (sha1 : Octets → Nsec3Hash) (rcode : ResponseCode) :
    ((aliasCaches rcode).lookup sha1 0 bEx (.of A) true false).1 = some aliasHit :=
  Caches.lookup_answer rfl rfl

theorem answeredBy_aliasCall (sha1 : Octets → Nsec3Hash) (rcode : ResponseCode) :
    AnsweredBy sha1 (aliasCall rcode) (aliasCaches rcode) 0 bEx true false aliasHit where
  question := Name.same_self _
  found := lookup_aliasCaches sha1 rcode
  left := ⟨aliasCaches rcode,
    ⟨fun _ h => h, fun _ h => h, fun _ h => h, fun held hheld =>
      ⟨held, hheld, rfl, fun _ h => h, fun _ h => h, fun _ h => h, fun _ h => h⟩⟩,
    (ran_aliasCaches sha1 rcode).from fun _ => Caches.from_new 10 10 .OFF,
    lookup_aliasCaches sha1 rcode⟩

theorem cached_reply_is_stored_alias : SameReply (aliasCall .ok) aliasHit.built :=
  cached_reply_is_stored (ran_aliasCaches unusedSha1 .ok) List.mem_cons_self
    ⟨fun _ _ _ => rfl, fun h => (by cases h), fun h => (by cases h)⟩ (answeredBy_aliasCall unusedSha1 .ok)

/-- **An alias that ends in a name error is handed out as a NOERROR.** -/
theorem alias_to_nowhere_found :
    ¬ ∀ (sha1 : Octets → Nsec3Hash) (capacity denialZones : Nat) (stale : StalePolicy) (now : Nat)
      (history : List StoreCall) (c : Caches) (call : StoreCall) (name : Name)
      (synthesizing prefetching : Bool) (held : Held),
      Ran sha1 (.new capacity denialZones stale) now history c → call ∈ history →
      AnsweredBy sha1 call c now name synthesizing prefetching held → SameReply call held.built := by
  intro h
  have hsame := h unusedSha1 10 10 .OFF 0 _ _ _ bEx true false aliasHit
    (ran_aliasCaches unusedSha1 .noSuchDomain) List.mem_cons_self (answeredBy_aliasCall _ .noSuchDomain)
  exact absurd hsame.rcode (by decide)

end Rdns.Resolver
