import Rdns.Resolver.CacheHits

/-!
# Rdns — What is left of a TTL

A cached record has to count down, or each cache in a chain restarts its clock. The negative
cache and the denial cache count down: they put what is left of one TTL on every record of a
section, which is right for a record whose own TTL is no shorter. The answer cache hands its
records out with the TTLs they came with.
-/

namespace Rdns.Resolver

open Rdns.Lib Rdns.Core Rdns.Present Rdns.Zones Rdns.Dnssec RecordTypes

/-! ## Records that were stored -/

/-- `rr`, handed out at `now`, is a record that one of the calls stored, under its own name
unless it may be `renamed`, with no more TTL than is left of that record's, capped. -/
def Backed (history : List StoreCall) (now cap : Nat) (renamed : Bool) (rr : ResourceRecord) : Prop :=
  ∃ call ∈ history, ∃ stored ∈ call.response.answers ++ call.response.authorities,
    (renamed = false → rr.name = stored.name) ∧ rr.cls = stored.cls ∧ rr.rdata = stored.rdata ∧
      rr.ttl.secs.toNat + (now - call.now) ≤ min stored.ttl.secs.toNat cap

def KeepsLife (history : List StoreCall) (now : Nat) : Held → Prop
  | .answer hit => ∀ rr ∈ hit.records, Backed history now MAX_CACHE_TTL false rr
  | .reply _ answers authority _ =>
    (∀ rr ∈ answers, Backed history now MAX_PROOF_TTL true rr) ∧
      ∀ rr ∈ authority, Backed history now MAX_PROOF_TTL false rr

/-- A response in which the record a section's TTL is taken from is the shortest-lived.

* Of a "no" that is kept, no record has a TTL below the negative TTL.
* Beside an NSEC or an NSEC3 of a validated response, no other of its type and no signature
  over it has a TTL below its own, as that is capped. -/
structure TtlsAgree (call : StoreCall) : Prop where
  negative : call.state.isBogus = false → call.response.answers = [] →
    ∀ ttl, negativeTtl call.response = some ttl → ∀ rr ∈ call.response.authorities, ttl ≤ rr.ttl.secs.toNat
  proofs : call.state = .secure → ∀ rr ∈ call.response.authorities,
    rr.rdata.rtype = NSEC ∨ rr.rdata.rtype = NSEC3 →
      ∀ beside ∈ call.response.authorities, beside.name.same rr.name = true →
        beside.rdata.rtype = rr.rdata.rtype ∨ coveredType beside.rdata = some rr.rdata.rtype →
          min rr.ttl.secs.toNat MAX_PROOF_TTL ≤ beside.ttl.secs.toNat

def AnswersAreNew (c : Caches) (now : Nat) (name : Name) (qtype : Qtype) : Prop :=
  c.negatives.get now name qtype = none → ∀ entry, c.answers.cache.get (nameTypeKey name qtype) = some entry →
    entry.expiresAt.isLive now = true →
      entry.learnedAt = now ∧ ∀ rr ∈ entry.records, rr.ttl.secs.toNat ≤ MAX_CACHE_TTL

/-! ## What is left -/

variable {now secs ttl : Nat}

theorem remaining_le {stored : Nat} (hpast : stored ≤ now) (hpos : ttl ≠ 0)
    (h : ttl ≤ (Deadline.after stored secs).unixSecs - now) : ttl + (now - stored) ≤ secs := by
  rw [Deadline.after] at h
  dsimp only at h
  omega

theorem remaining_pos {stored : Nat} (h : (Deadline.after stored secs).isLive now = true) :
    (Deadline.after stored secs).remainingTtl now ≠ 0 := by
  have hlt := of_decide_eq_true h
  rw [Deadline.remainingTtl]
  omega

theorem remainingTtl_le (deadline : Deadline) (now : Nat) :
    deadline.remainingTtl now ≤ deadline.unixSecs - now := min_le_left _ _

theorem backed_withTtl {history : List StoreCall} {cap : Nat} {call : StoreCall}
    (hcall : call ∈ history) (hpast : call.now ≤ now) {records : List ResourceRecord}
    (hsub : ∀ rr ∈ records, rr ∈ call.response.answers ++ call.response.authorities)
    (hpos : ttl ≠ 0) (hleft : ttl ≤ (Deadline.after call.now secs).unixSecs - now)
    (hsecs : ∀ rr ∈ records, secs ≤ rr.ttl.secs.toNat) (hcap : secs ≤ cap) (renamed : Bool) :
    ∀ rr ∈ withTtl records ttl, Backed history now cap renamed rr := by
  intro rr hrr
  obtain ⟨stored, hstored, rfl⟩ := List.mem_map.mp hrr
  refine ⟨call, hcall, stored, hsub stored hstored, fun _ => rfl, rfl, rfl, ?_⟩
  have hle : (UInt32.ofNat ttl).toNat ≤ ttl := Nat.mod_le _ _
  have hbound := remaining_le hpast hpos hleft
  have hown := hsecs stored hstored
  show (UInt32.ofNat ttl).toNat + (now - call.now) ≤ _
  omega

theorem negativeTtl_of_soaOf {response : DnsMessage} {soaRr : ResourceRecord} {minimum : UInt32}
    (h : StoreCall.soaOf response = some (soaRr, minimum))
    (hpos : min (Ttl.negativeAnswer soaRr.ttl minimum).secs.toNat MAX_NEGATIVE_TTL ≠ 0) :
    negativeTtl response = some (min (Ttl.negativeAnswer soaRr.ttl minimum).secs.toNat MAX_NEGATIVE_TTL) := by
  rw [StoreCall.soaOf] at h
  split at h
  · cases h
  · grind [negativeTtl]

theorem negativeTtl_le {response : DnsMessage} (h : negativeTtl response = some ttl) :
    ttl ≤ MAX_NEGATIVE_TTL := by
  rw [negativeTtl] at h
  split at h
  · cases h
  · grind

variable {rr : ResourceRecord}

theorem mem_of_mem_recordsCovering {records : List ResourceRecord} {owner : Name} {rtype : Rtype}
    (h : rr ∈ recordsCovering records owner rtype) :
    rr ∈ records ∧ rr.name.same owner = true ∧
      (rr.rdata.rtype = rtype ∨ coveredType rr.rdata = some rtype) := by
  obtain ⟨h, hcovers⟩ := List.mem_filter.mp h
  obtain ⟨hmem, hsame⟩ := List.mem_filter.mp h
  rw [Bool.or_eq_true, beq_iff_eq, beq_iff_eq] at hcovers
  exact ⟨hmem, hsame, hcovers⟩

theorem rtype_of_nsec {nsec : Nsec} (h : Nsec.fromRecord rr = some nsec) :
    rr.rdata.rtype = NSEC ∧ nsec.owner = rr.name.toFolded := by
  rw [Nsec.fromRecord] at h
  split at h
  · cases h
  · grind

theorem rtype_of_nsec3 {nsec3 : Nsec3} (h : Nsec3.fromRecord rr = some nsec3) :
    rr.rdata.rtype = NSEC3 ∧ nsec3.owner = rr.name.toFolded := by
  rw [Nsec3.fromRecord] at h
  split at h
  · cases h
  · rename_i hrtype
    refine ⟨not_not.mp hrtype, ?_⟩
    obtain ⟨first, -, h⟩ := Option.bind_eq_some_iff.mp h
    obtain ⟨zone, -, h⟩ := Option.bind_eq_some_iff.mp h
    obtain ⟨decoded, -, h⟩ := Option.bind_eq_some_iff.mp h
    obtain ⟨hash, -, h⟩ := Option.bind_eq_some_iff.mp h
    split at h
    · split at h
      · obtain ⟨next, -, h⟩ := Option.bind_eq_some_iff.mp h
        cases h
        rfl
      · cases h
    · cases h

/-! ## Each cache -/

section Hits

variable {history : List StoreCall} {now : Nat}

variable {call : StoreCall} {ttl : Nat}

section

variable (hcall : call ∈ history) (hpast : call.now ≤ now) (hagree : TtlsAgree call)
include hcall hpast hagree

theorem backed_of_negative {entry : NegativeEntry} (hmade : call.MadeNegative entry)
    (hlive : entry.live now = true) :
    ∀ rr ∈ (entry.answer now).authority, Backed history now MAX_PROOF_TTL false rr := by
  obtain ⟨ttl, httl, hexpires⟩ := hmade.expiresAt
  rw [NegativeEntry.live, hexpires] at hlive
  show ∀ rr ∈ withTtl entry.authority (entry.remaining now), _
  rw [hmade.authority, NegativeEntry.remaining, hexpires]
  exact backed_withTtl hcall hpast (fun rr hrr => List.mem_append_right _ hrr) (remaining_pos hlive)
    (remainingTtl_le _ _) (hagree.negative hmade.believed hmade.none ttl httl) (negativeTtl_le httl) false

theorem backed_of_proof {α : Type} {rtype : Rtype} {fromRecord : ResourceRecord → Option α}
    {owner : α → Name} {cached : CachedProof α}
    (hmade : call.MadeProof rtype fromRecord owner cached)
    (hrtype : rtype = NSEC ∨ rtype = NSEC3)
    (hread : ∀ rr proof, fromRecord rr = some proof →
      rr.rdata.rtype = rtype ∧ owner proof = rr.name.toFolded) (hpos : ttl ≠ 0)
    (hleft : ttl ≤ cached.expiresAt.unixSecs - now) :
    ∀ rr ∈ withTtl cached.records ttl, Backed history now MAX_PROOF_TTL false rr := by
  obtain ⟨proofRr, hproofRr, hfrom, hexpires⟩ := hmade.record
  obtain ⟨htype, howner⟩ := hread _ _ hfrom
  rw [hexpires] at hleft
  rw [hmade.records]
  refine backed_withTtl hcall hpast (fun rr hrr => ?_) hpos hleft (fun rr hrr => ?_) (min_le_right _ _) false
  · exact List.mem_append_right _ (mem_of_mem_recordsCovering hrr).1
  · obtain ⟨hmem, hsame, hkind⟩ := mem_of_mem_recordsCovering hrr
    rw [howner, Name.same_iff, Name.toFolded_toFolded, ← Name.same_iff] at hsame
    rw [← htype] at hrtype hkind
    exact hagree.proofs hmade.secure proofRr hproofRr hrtype rr hmem hsame hkind

theorem backed_of_soa {zone : Name} {soa : CachedSoa} (hmade : call.MadeSoa zone soa)
    (hpos : ttl ≠ 0) (hleft : ttl ≤ soa.expiresAt.unixSecs - now) :
    ∀ rr ∈ withTtl soa.records ttl, Backed history now MAX_PROOF_TTL false rr := by
  obtain ⟨soaRr, minimum, hsoaOf, -, rfl⟩ := hmade.made
  have hsecs := remaining_le hpast hpos hleft
  have hnegative := negativeTtl_of_soaOf hsoaOf (by
    rw [MAX_NEGATIVE_TTL]
    rw [MAX_PROOF_TTL] at hsecs
    omega)
  refine backed_withTtl hcall hpast (fun rr hrr => ?_) hpos hleft (fun rr hrr => ?_) (min_le_right _ _) false
  · exact List.mem_append_right _ (mem_of_mem_recordsCovering hrr).1
  · refine hagree.negative ?_ hmade.none _ hnegative rr (mem_of_mem_recordsCovering hrr).1
    rw [hmade.secure]
    rfl

end

theorem wildcardTtl_le {records : List ResourceRecord} :
    (∀ rr ∈ records, wildcardTtl records ≤ rr.ttl.secs.toNat) ∧ wildcardTtl records ≤ MAX_PROOF_TTL := by
  rw [wildcardTtl]
  cases hmin : (records.map fun rr => min rr.ttl.secs.toNat MAX_PROOF_TTL).min? with
  | none => exact ⟨fun _ _ => Nat.zero_le _, Nat.zero_le _⟩
  | some least =>
    obtain ⟨hmem, hleast⟩ := List.min?_eq_some_iff.mp hmin
    constructor
    · intro rr hrr
      exact (hleast _ (List.mem_map_of_mem hrr)).trans (min_le_left _ _)
    · obtain ⟨rr, -, rfl⟩ := List.mem_map.mp hmem
      exact min_le_right _ _

theorem mem_answers_of_mem_wildcardRecords {answers : List ResourceRecord} {rtype : Rtype}
    (h : rr ∈ wildcardRecords answers rtype) : rr ∈ answers := by
  rcases List.mem_append.mp h with h | h
  · exact (mem_of_mem_recordsCovering h).1
  · exact (List.mem_filter.mp h).1

theorem backed_of_wildcard (hcall : call ∈ history) (hpast : call.now ≤ now) {key : Name × Qtype}
    {cached : CachedWildcard} (hmade : call.MadeWildcard key cached) (hpos : ttl ≠ 0)
    (hleft : ttl ≤ cached.expiresAt.unixSecs - now) (name : Name) :
    ∀ rr ∈ (withTtl cached.records ttl).map (fun rr => { rr with name }),
      Backed history now MAX_PROOF_TTL true rr := by
  obtain ⟨_, -, pending, -, -, rfl⟩ := hmade.made
  intro rr hrr
  obtain ⟨kept, hkept, rfl⟩ := List.mem_map.mp hrr
  obtain ⟨call, hcall, stored, hstored, -, hcls, hrdata, hle⟩ := backed_withTtl hcall hpast
    (fun rr hrr => List.mem_append_left _ (mem_answers_of_mem_wildcardRecords hrr)) hpos hleft
    wildcardTtl_le.1 wildcardTtl_le.2 true kept hkept
  exact ⟨call, hcall, stored, hstored, fun h => (by cases h), hcls, hrdata, hle⟩

end Hits

/-! ## A lookup -/

/-- **No record is handed out for longer than it was stored for**, in a run that stores
responses whose TTLs agree, by a lookup that the answer cache does not answer from the past. -/
theorem handed_out_no_longer {sha1 : Octets → Nsec3Hash} {capacity denialZones : Nat} {stale : StalePolicy}
    {now : Nat} {history : List StoreCall} {c : Caches}
    (hrun : Ran sha1 (.new capacity denialZones stale) now history c)
    (hagree : ∀ call ∈ history, TtlsAgree call) {name : Name} {qtype : Qtype}
    {synthesizing prefetching : Bool} (hnew : AnswersAreNew c now name qtype) {held : Held}
    (hfound : (c.lookup sha1 now name qtype synthesizing prefetching).1 = some held) :
    KeepsLife history now held := by
  have hfrom := hrun.from fun _ => Caches.from_new capacity denialZones stale
  have hpast := hrun.past
  rcases of_lookup hfound with ⟨n, hget, rfl⟩ | ⟨hit, hhit, rfl⟩ | ⟨w, hw, rfl⟩ | ⟨s, hs, rfl⟩
  · -- a "no": one TTL for the section
    refine ⟨fun _ h => (by cases h), ?_⟩
    obtain ⟨entry, hlive, rfl, ⟨key, hmem⟩ | ⟨key, hmem⟩⟩ := NegativeCache.of_get hget
    · obtain ⟨call, hcall, hmade, -⟩ := hfrom.nxdomain _ hmem
      exact backed_of_negative hcall (hpast call hcall) (hagree call hcall) hmade hlive
    · obtain ⟨call, hcall, hmade, -⟩ := hfrom.nodata _ hmem
      exact backed_of_negative hcall (hpast call hcall) (hagree call hcall) hmade hlive
  · -- an answer: the TTLs it came with
    obtain ⟨entry, hget, hlive, hrecords, -⟩ := DnsCache.of_lookup hhit
    obtain ⟨call, hcall, hmade⟩ := hfrom.answers _ (Entries.mem_of_get hget)
    have hnone : c.negatives.get now name qtype = none := by grind [Caches.lookup]
    obtain ⟨hlearned, hcapped⟩ := hnew hnone entry hget hlive
    intro rr hrr
    rw [hrecords] at hrr
    refine ⟨call, hcall, rr, List.mem_append_left _ (hmade.records ▸ hrr), fun _ => rfl, rfl, rfl, ?_⟩
    have hle := hcapped rr hrr
    rw [← hlearned, hmade.learnedAt]
    omega
  · -- a wildcard's RRset, for no longer than the record that denies the name
    obtain ⟨zoneName, proofs, wildcard, cached, denial, ttl, hzone, -, -, hcached, ⟨key, hdenial⟩, -, hleft,
      hleftDenial, -, hpos, hanswers, hauthority⟩ := of_synthesizeWildcard hw
    have hzoneFrom := hfrom.denials _ hzone
    obtain ⟨call, hcall, hmade⟩ := hzoneFrom.wildcards _ hcached
    obtain ⟨nsecCall, hnsecCall, hnsec⟩ := hzoneFrom.nsecs _ hdenial
    constructor
    · rw [hanswers]
      exact backed_of_wildcard hcall (hpast call hcall) hmade hpos hleft name
    · rw [hauthority]
      exact backed_of_proof hnsecCall (hpast _ hnsecCall) (hagree _ hnsecCall) hnsec (.inl rfl)
        (fun _ _ => rtype_of_nsec) hpos hleftDenial
  · -- a denial, for no longer than any record it rests on
    obtain ⟨zoneName, proofs, soa, g, used, used3, hzone, hsoa, hrests, -, -, -, hpos, hleft, hleftSoa,
      hauthority⟩ := of_synthesize_rests hs
    have hzoneFrom := hfrom.denials _ hzone
    refine ⟨fun _ h => (by cases h), ?_⟩
    show ∀ rr ∈ s.authority, _
    rw [hauthority]
    intro rr hrr
    rcases List.mem_append.mp hrr with hrr | hrr
    · obtain ⟨call, hcall, hmade⟩ := hzoneFrom.soa soa hsoa
      exact backed_of_soa hcall (hpast call hcall) (hagree call hcall) hmade hpos
        (hleftSoa.trans (remainingTtl_le _ _)) rr hrr
    · obtain ⟨kept, hkept, rfl⟩ := List.mem_map.mp hrr
      rw [hrests.records] at hkept
      rcases List.mem_append.mp hkept with hkept | hkept
      · obtain ⟨cached, hcached, hrecord⟩ := List.mem_flatMap.mp hkept
        obtain ⟨⟨key, hheld⟩, hremaining⟩ := hrests.heldNsecs cached hcached
        obtain ⟨call, hcall, hmade⟩ := hzoneFrom.nsecs _ hheld
        exact backed_of_proof hcall (hpast call hcall) (hagree call hcall) hmade (.inl rfl)
          (fun _ _ => rtype_of_nsec) hpos ((hleft.trans hremaining).trans (remainingTtl_le _ _)) _
          (List.mem_map_of_mem hrecord)
      · obtain ⟨cached, hcached, hrecord⟩ := List.mem_flatMap.mp hkept
        obtain ⟨⟨key, hheld⟩, hremaining⟩ := hrests.heldNsec3s cached hcached
        obtain ⟨call, hcall, hmade⟩ := hzoneFrom.nsec3s _ hheld
        exact backed_of_proof hcall (hpast call hcall) (hagree call hcall) hmade (.inr rfl)
          (fun _ _ => rtype_of_nsec3) hpos ((hleft.trans hremaining).trans (remainingTtl_le _ _)) _
          (List.mem_map_of_mem hrecord)

def denialCall : StoreCall where
  now := 0
  query := ⟨bEx, .of A, .in⟩
  response := denialFrom [minuteSoa]
  state := .secure

theorem denialCall_get : ((Caches.new 10 10 .OFF).store denialCall).negatives.get 10 bEx (.of A)
    = some ⟨.noSuchDomain, withTtl (denialFrom [minuteSoa]).authorities 50, .secure, 50, false, 0⟩ := by
  decide +kernel

theorem handed_out_no_longer_denial :
    KeepsLife [denialCall] 10
      (.reply .noSuchDomain [] (withTtl (denialFrom [minuteSoa]).authorities 50) .secure) :=
  @handed_out_no_longer unusedSha1 10 10 .OFF 10 [denialCall] _
    (.wait (by decide) (.store denialCall (.start 0)))
    (fun call hcall => by
      rw [List.mem_singleton.mp hcall]
      exact ⟨fun _ _ ttl httl rr hrr => by
          have hminute : negativeTtl denialCall.response = some 60 := by decide +kernel
          cases hminute.symm.trans httl
          revert rr
          decide +kernel,
        fun _ => by decide +kernel⟩)
    bEx (.of A) true false (fun hnone => by cases denialCall_get.symm.trans hnone) _
    (Caches.lookup_negative denialCall_get)

/-! ## An answer -/

def addressRecord : ResourceRecord := ⟨ex, .IN, ⟨300⟩, ⟨A, [192, 0, 2, 1]⟩⟩

def addressCall : StoreCall where
  now := 0
  query := ⟨ex, .of A, .in⟩
  response := { denialFrom [] with rcode := .ok, answers := [addressRecord], authorities := [] }
  state := .insecure

/-- **A minute later the address has five minutes to live again.** -/
theorem answer_lives_again :
    ¬ ∀ (sha1 : Octets → Nsec3Hash) (capacity denialZones : Nat) (stale : StalePolicy) (now : Nat)
      (history : List StoreCall) (c : Caches) (name : Name) (qtype : Qtype)
      (synthesizing prefetching : Bool) (held : Held),
      Ran sha1 (.new capacity denialZones stale) now history c →
      (c.lookup sha1 now name qtype synthesizing prefetching).1 = some held → KeepsLife history now held := by
  intro h
  have hrun : Ran unusedSha1 (.new 10 10 .OFF) 60 [addressCall] ((Caches.new 10 10 .OFF).store addressCall) :=
    .wait (by decide) (.store addressCall (.start 0))
  have hkept := h _ _ _ _ _ _ _ ex (.of A) true false
    (.answer ⟨[addressRecord], .insecure, false, 0⟩) hrun (Caches.lookup_answer rfl rfl)
  obtain ⟨call, hcall, stored, hstored, -, -, -, hle⟩ := hkept addressRecord List.mem_cons_self
  rw [List.mem_singleton] at hcall
  subst hcall
  obtain rfl := List.mem_singleton.mp hstored
  exact absurd hle (by decide)

end Rdns.Resolver
