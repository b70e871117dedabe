import Rdns.Resolver.Caches

/-!
# Rdns — What a run leaves in the caches

Every entry of the three caches is one some `store` made: it holds that response's records
and lives from that moment. A lookup, a stale lookup, a shuffle, an eviction or a forgotten
name changes nothing of it but the flags of a refresh.

Main results:

* `Ran.from` — every entry comes from a store of the run.
-/

namespace Rdns.Resolver

open Rdns.Lib Rdns.Core Rdns.Present Rdns.Dnssec RecordTypes

/-! ## Entries and the call that made them -/

namespace StoreCall

variable (call : StoreCall)

/-- The entry is what this call stored under the key. -/
structure MadeAnswer (key : NameTypeKey) (entry : CacheEntry) : Prop where
  believed : call.state.isBogus = false
  some : call.response.answers ≠ []
  key : key = nameTypeKey call.query.qname call.query.qtype
  records : entry.records = call.response.answers
  outcome : entry.outcome = call.state.outcome
  expiresAt : entry.expiresAt = .after call.now (cacheTtl call.response.answers)
  learnedAt : entry.learnedAt = call.now

/-- The negative entry is what this call stored. -/
structure MadeNegative (entry : NegativeEntry) : Prop where
  believed : call.state.isBogus = false
  none : call.response.answers = []
  rcode : entry.rcode = call.response.rcode
  authority : entry.authority = call.response.authorities
  outcome : entry.outcome = call.state.outcome
  expiresAt : ∃ ttl, negativeTtl call.response = some ttl ∧ entry.expiresAt = .after call.now ttl

/-- The denial record is one of the proofs in the response of this call. -/
structure MadeProof {α : Type} (rtype : Rtype) (fromRecord : ResourceRecord → Option α)
    (owner : α → Name) (cached : CachedProof α) : Prop where
  secure : call.state = .secure
  record : ∃ rr ∈ call.response.authorities, fromRecord rr = some cached.proof ∧
    cached.expiresAt = .after call.now (min rr.ttl.secs.toNat MAX_PROOF_TTL)
  records : cached.records = recordsCovering call.response.authorities (owner cached.proof) rtype

def soaOf (response : DnsMessage) : Option (ResourceRecord × UInt32) :=
  match response.authorities.find? fun rr => rr.rdata.rtype == SOA with
  | Option.none => Option.none
  | Option.some soaRr =>
    match soaRr.rdata.parse with
    | .ok (.soa _ _ _ _ _ _ minimum) => Option.some (soaRr, minimum)
    | _ => Option.none

/-- The SOA kept for a zone is the one of this negative response. -/
structure MadeSoa (zone : Name) (soa : CachedSoa) : Prop where
  secure : call.state = .secure
  none : call.response.answers = []
  made : ∃ soaRr minimum, soaOf call.response = Option.some (soaRr, minimum) ∧
    zone.same soaRr.name = true ∧
    soa = ⟨recordsCovering call.response.authorities soaRr.name.toFolded SOA,
      (Ttl.negativeAnswer soaRr.ttl minimum).secs.toNat,
      .after call.now (min (Ttl.negativeAnswer soaRr.ttl minimum).secs.toNat MAX_PROOF_TTL)⟩

/-- The wildcard kept under a key is an answer of this call. -/
structure MadeWildcard (key : Name × Qtype) (cached : CachedWildcard) : Prop where
  secure : call.state = .secure
  some : cached.records ≠ []
  made : ∃ rr ∈ call.response.answers, ∃ pending, pendingOf rr = Option.some pending ∧
    key = wildcardKey pending.wildcard (Qtype.of pending.rtype) ∧
    cached = ⟨wildcardRecords call.response.answers pending.rtype,
      .after call.now (wildcardTtl (wildcardRecords call.response.answers pending.rtype))⟩

/-- The call may leave something in what is held for a zone. -/
def DeniesIn (zone : Name) : Prop :=
  call.state = .secure ∧
    ((∃ soaRr minimum, soaOf call.response = Option.some (soaRr, minimum) ∧ zone.same soaRr.name = true) ∨
      ∃ rr ∈ call.response.answers, ∃ pending, pendingOf rr = Option.some pending ∧ zone.same pending.zone = true)

/-- The call may leave something under a name of `inside`. -/
def Reaches (inside : Name → Prop) : Prop :=
  inside call.query.qname.toFolded ∨ ∃ zone, call.DeniesIn zone ∧ inside zone

end StoreCall

/-- The proofs held for `zone` were made by these calls. -/
structure ZoneProofs.From (calls : List StoreCall) (zone : Name) (proofs : ZoneProofs) : Prop where
  nsecs : ∀ entry ∈ proofs.nsecs, ∃ call ∈ calls,
    call.MadeProof NSEC Nsec.fromRecord Nsec.owner entry.2
  nsec3s : ∀ entry ∈ proofs.nsec3s, ∃ call ∈ calls,
    call.MadeProof NSEC3 Nsec3.fromRecord Nsec3.owner entry.2
  soa : ∀ soa, proofs.soa = some soa → ∃ call ∈ calls, call.MadeSoa zone soa
  wildcards : ∀ entry ∈ proofs.wildcards, ∃ call ∈ calls, call.MadeWildcard entry.1 entry.2

/-- Every entry of the caches comes from one of the calls. -/
structure Caches.From (calls : List StoreCall) (c : Caches) : Prop where
  answers : ∀ entry ∈ c.answers.cache, ∃ call ∈ calls, call.MadeAnswer entry.1 entry.2
  nxdomain : ∀ entry ∈ c.negatives.nxdomain, ∃ call ∈ calls,
    call.MadeNegative entry.2 ∧ entry.1 = call.query.qname.toFolded
  nodata : ∀ entry ∈ c.negatives.nodata, ∃ call ∈ calls,
    call.MadeNegative entry.2 ∧ entry.1 = nameTypeKey call.query.qname call.query.qtype
  denials : ∀ entry ∈ c.denials, entry.2.From calls entry.1

/-- What the caches hold at the names in `inside` was made by these calls. -/
structure Caches.FromIn (inside : Name → Prop) (calls : List StoreCall) (c : Caches) : Prop where
  answers : ∀ entry ∈ c.answers.cache, inside entry.1.1 → ∃ call ∈ calls, call.MadeAnswer entry.1 entry.2
  nxdomain : ∀ entry ∈ c.negatives.nxdomain, inside entry.1 → ∃ call ∈ calls,
    call.MadeNegative entry.2 ∧ entry.1 = call.query.qname.toFolded
  nodata : ∀ entry ∈ c.negatives.nodata, inside entry.1.1 → ∃ call ∈ calls,
    call.MadeNegative entry.2 ∧ entry.1 = nameTypeKey call.query.qname call.query.qtype
  denials : ∀ entry ∈ c.denials, inside entry.1 → entry.2.From calls entry.1

variable {c : Caches}

theorem Caches.from_iff {calls : List StoreCall} :
    c.From calls ↔ c.FromIn (fun _ => True) calls := by
  constructor
  · rintro ⟨hanswers, hnxdomain, hnodata, hdenials⟩
    exact ⟨fun entry h _ => hanswers entry h, fun entry h _ => hnxdomain entry h,
      fun entry h _ => hnodata entry h, fun entry h _ => hdenials entry h⟩
  · rintro ⟨hanswers, hnxdomain, hnodata, hdenials⟩
    exact ⟨fun entry h => hanswers entry h trivial, fun entry h => hnxdomain entry h trivial,
      fun entry h => hnodata entry h trivial, fun entry h => hdenials entry h trivial⟩

/-! ## Entries that stay -/

section Entries

variable {α β : Type} [DecidableEq α]

variable {m : Entries α β} {entry : α × β}

theorem mem_of_mem_remove {key : α} (h : entry ∈ m.remove key) :
    entry ∈ m := (List.mem_filter.mp h).1

theorem of_mem_entries_insert {key : α} {value : β} (h : entry ∈ m.insert key value) :
    entry = (key, value) ∨ entry ∈ m :=
  (List.mem_cons.mp h).imp_right mem_of_mem_remove

theorem mem_of_mem_foldl_remove {keys : List α} (h : entry ∈ keys.foldl Entries.remove m) :
    entry ∈ m := by
  induction keys generalizing m with
  | nil => exact h
  | cons key rest ih => exact mem_of_mem_remove (ih h)

end Entries

variable {now : Nat} {sha1 : Octets → Nsec3Hash}

theorem mem_insertBoundedMap {m : Entries (Name × Qtype) CachedWildcard} {key : Name × Qtype}
    {value : CachedWildcard} {entry : (Name × Qtype) × CachedWildcard}
    (h : entry ∈ insertBoundedMap m key value now) : entry = (key, value) ∨ entry ∈ m := by
  rw [insertBoundedMap] at h
  dsimp only at h
  split at h
  · split at h
    · split at h
      · refine (of_mem_entries_insert h).imp_right fun hmem => ?_
        exact (List.mem_filter.mp (mem_of_mem_remove hmem)).1
      · exact (of_mem_entries_insert h).imp_right fun hmem => (List.mem_filter.mp hmem).1
    · exact (of_mem_entries_insert h).imp_right fun hmem => (List.mem_filter.mp hmem).1
  · exact of_mem_entries_insert h

theorem same_of_mem_alter {zone : Name} {f : ZoneProofs → ZoneProofs} {zones : HeldZones}
    {entry : Name × ZoneProofs} (h : entry ∈ HeldZones.alter zone f zones) :
    entry ∈ zones ∨ ∃ name proofs, name.same zone = true ∧ entry = (name, f proofs) ∧
      ((name, proofs) ∈ zones ∨ proofs = .default) := by
  induction zones with
  | nil =>
    rw [HeldZones.alter, List.mem_singleton] at h
    exact .inr ⟨zone, .default, Name.same_self zone, h, .inr rfl⟩
  | cons first rest ih =>
    obtain ⟨name, proofs⟩ := first
    rw [HeldZones.alter] at h
    split at h
    · rename_i hsame
      rcases List.mem_cons.mp h with h | h
      · exact .inr ⟨name, proofs, hsame, h, .inl List.mem_cons_self⟩
      · exact .inl (List.mem_cons_of_mem _ h)
    · rcases List.mem_cons.mp h with h | h
      · exact .inl (h ▸ List.mem_cons_self)
      · rcases ih h with h | ⟨name', proofs', hsame, h, hproofs⟩
        · exact .inl (List.mem_cons_of_mem _ h)
        · exact .inr ⟨name', proofs', hsame, h, hproofs.imp_left (List.mem_cons_of_mem _)⟩

theorem mem_of_mem_evicted {zones : HeldZones} {zone : Name} {maxZones : Nat}
    {entry : Name × ZoneProofs}
    (h : entry ∈ (if (!(zones.any fun e => e.1.same zone) && decide (zones.length ≥ maxZones)) = true then
      evictZone zones maxZones now else zones)) : entry ∈ zones := by
  split at h
  · exact mem_evictZone h
  · exact h

theorem DnsCache.mem_evictOldest {c : DnsCache} {entry : NameTypeKey × CacheEntry}
    (h : entry ∈ (c.evictOldest now).cache) : entry ∈ c.cache := by
  rw [DnsCache.evictOldest] at h
  split at h
  · exact (List.mem_filter.mp h).1
  · exact (List.mem_filter.mp (mem_retain h)).1

theorem NegativeCache.mem_makeRoom {c : NegativeCache} :
    (∀ entry ∈ (c.makeRoom now).nxdomain, entry ∈ c.nxdomain) ∧
      ∀ entry ∈ (c.makeRoom now).nodata, entry ∈ c.nodata := by
  rw [NegativeCache.makeRoom]
  dsimp only
  split
  · exact ⟨fun entry h => (List.mem_filter.mp h).1, fun entry h => (List.mem_filter.mp h).1⟩
  · split
    · exact ⟨fun entry h => (List.mem_filter.mp h).1, fun entry h => (List.mem_filter.mp h).1⟩
    · constructor
      · intro entry h
        obtain ⟨kept, hkept, hleft⟩ := List.mem_filterMap.mp h
        rw [Sum.getLeft?_eq_some_iff.mp hleft] at hkept
        rcases List.mem_append.mp (mem_retain hkept) with hmem | hmem
        · obtain ⟨e, he, heq⟩ := List.mem_map.mp hmem
          cases heq
          exact (List.mem_filter.mp he).1
        · obtain ⟨_, -, heq⟩ := List.mem_map.mp hmem
          cases heq
      · intro entry h
        obtain ⟨kept, hkept, hright⟩ := List.mem_filterMap.mp h
        rw [Sum.getRight?_eq_some_iff.mp hright] at hkept
        rcases List.mem_append.mp (mem_retain hkept) with hmem | hmem
        · obtain ⟨_, -, heq⟩ := List.mem_map.mp hmem
          cases heq
        · obtain ⟨e, he, heq⟩ := List.mem_map.mp hmem
          cases heq
          exact (List.mem_filter.mp he).1

/-! ## The denials -/

section Denials

variable {inside : Name → Prop} {calls : List StoreCall} {zone : Name} {proofs : ZoneProofs}

theorem ZoneProofs.From.default : ZoneProofs.From calls zone .default where
  nsecs := fun _ h => (by cases h)
  nsec3s := fun _ h => (by cases h)
  soa := fun _ h => (by cases h)
  wildcards := fun _ h => (by cases h)

variable {call : StoreCall}

theorem ZoneProofs.From.takeIn (h : proofs.From calls zone) (hcall : call ∈ calls)
    (hsecure : call.state = .secure) {rr : ResourceRecord} (hrr : rr ∈ call.response.authorities)
    (signedZone : Name) :
    (proofs.takeIn call.response.authorities signedZone call.now rr).From calls zone := by
  rw [ZoneProofs.takeIn]
  dsimp only
  split
  · split
    · exact h
    · rename_i nsec hfrom
      split
      · exact h
      · refine { h with nsecs := fun entry hentry => ?_ }
        rcases mem_insertBounded hentry with rfl | hold
        · exact ⟨call, hcall, hsecure, ⟨rr, hrr, hfrom, rfl⟩, rfl⟩
        · exact h.nsecs entry hold
  · split
    · split
      · exact h
      · rename_i nsec3 hfrom
        split
        · exact h
        · split
          · exact h
          · refine { h with nsec3s := fun entry hentry => ?_ }
            rcases mem_insertBounded hentry with rfl | hold
            · exact ⟨call, hcall, hsecure, ⟨rr, hrr, hfrom, rfl⟩, rfl⟩
            · exact h.nsec3s entry hold
    · exact h

theorem ZoneProofs.From.foldl_takeIn (hcall : call ∈ calls) (hsecure : call.state = .secure)
    (signedZone : Name) {taken : List ResourceRecord}
    (hsub : ∀ rr ∈ taken, rr ∈ call.response.authorities) (h : proofs.From calls zone) :
    (taken.foldl (ZoneProofs.takeIn call.response.authorities signedZone call.now) proofs).From
      calls zone := by
  induction taken generalizing proofs with
  | nil => exact h
  | cons rr rest ih =>
    exact ih (fun r hr => hsub r (List.mem_cons_of_mem _ hr))
      (h.takeIn hcall hsecure (hsub rr List.mem_cons_self) signedZone)

theorem from_insertValidated (hcall : call.Reaches inside → call ∈ calls)
    (hsecure : call.state = .secure) (hnone : call.response.answers = []) {maxZones : Nat}
    {zones : HeldZones} (h : ∀ entry ∈ zones, inside entry.1 → entry.2.From calls entry.1) :
    ∀ entry ∈ insertValidated maxZones call.now call.response zones, inside entry.1 →
      entry.2.From calls entry.1 := by
  intro entry hentry hinside
  rw [insertValidated] at hentry
  split at hentry
  · exact h entry hentry hinside
  · split at hentry
    · exact h entry hentry hinside
    · rename_i soaRr hfind
      split at hentry
      · rename_i minimum hparse
        have hsoa : StoreCall.soaOf call.response = some (soaRr, minimum) := by grind [StoreCall.soaOf]
        rcases same_of_mem_alter hentry with hold | ⟨name, proofs, hsame, rfl, hproofs⟩
        · exact h entry (mem_of_mem_evicted hold) hinside
        · have hbefore : proofs.From calls name := by
            rcases hproofs with hmem | rfl
            · exact h _ (mem_of_mem_evicted hmem) hinside
            · exact .default
          have hname : name.same soaRr.name = true := by grind [Name.same_iff, Name.toFolded_toFolded]
          have hcall := hcall (.inr ⟨name, ⟨hsecure, .inl ⟨soaRr, minimum, hsoa, hname⟩⟩, hinside⟩)
          refine .foldl_takeIn hcall hsecure _ (fun _ hr => hr) { hbefore with soa := ?_ }
          intro soa heq
          cases heq
          exact ⟨call, hcall, hsecure, hnone, soaRr, minimum, hsoa, hname, rfl⟩
      · exact h entry hentry hinside

theorem from_insertValidatedWildcard (hcall : call.Reaches inside → call ∈ calls)
    (hsecure : call.state = .secure) {maxZones : Nat} {zones : HeldZones}
    (h : ∀ entry ∈ zones, inside entry.1 → entry.2.From calls entry.1) :
    ∀ entry ∈ insertValidatedWildcard maxZones call.now call.response zones, inside entry.1 →
      entry.2.From calls entry.1 := by
  have htaken : call ∈ calls → ∀ pending rr, rr ∈ call.response.answers → pendingOf rr = some pending →
      ∀ name proofs, ZoneProofs.From calls name proofs →
        (ZoneProofs.takeWildcard call.response call.now pending proofs).From calls name := by
    intro hcall pending rr hrr hpending name proofs hproofs
    rw [ZoneProofs.takeWildcard]
    dsimp only
    split
    · exact hproofs
    · rename_i hsome
      split
      · exact hproofs
      · refine .foldl_takeIn hcall hsecure _ (fun _ hr => (List.mem_filter.mp hr).1)
          { hproofs with wildcards := fun entry hentry => ?_ }
        rcases mem_insertBoundedMap hentry with rfl | hold
        · rw [List.isEmpty_iff] at hsome
          exact ⟨call, hcall, hsecure, hsome, rr, hrr, pending, hpending, rfl, rfl⟩
        · exact hproofs.wildcards entry hold
  have hstep : ∀ pendings : List PendingWildcard,
      (∀ p ∈ pendings, ∃ rr ∈ call.response.answers, pendingOf rr = some p) →
      ∀ zones : HeldZones, (∀ entry ∈ zones, inside entry.1 → entry.2.From calls entry.1) →
        ∀ entry ∈ pendings.foldl (takePending maxZones call.now call.response) zones, inside entry.1 →
          entry.2.From calls entry.1 := by
    intro pendings
    induction pendings with
    | nil => exact fun _ zones h => h
    | cons pending rest ih =>
      intro hmade zones hzones
      refine ih (fun p hp => hmade p (List.mem_cons_of_mem _ hp)) _ fun entry hentry hinside => ?_
      obtain ⟨rr, hrr, hpending⟩ := hmade pending List.mem_cons_self
      rw [takePending] at hentry
      split at hentry
      · exact hzones entry hentry hinside
      · rcases same_of_mem_alter hentry with hold | ⟨name, proofs, hsame, rfl, hproofs⟩
        · exact hzones entry (mem_of_mem_evicted hold) hinside
        · have hcall := hcall (.inr ⟨name, ⟨hsecure, .inr ⟨rr, hrr, pending, hpending, hsame⟩⟩, hinside⟩)
          refine htaken hcall pending rr hrr hpending name proofs ?_
          rcases hproofs with hmem | rfl
          · exact hzones _ (mem_of_mem_evicted hmem) hinside
          · exact .default
  rw [insertValidatedWildcard]
  split
  · exact h
  · exact hstep _ (fun p hp => List.mem_filterMap.mp hp) zones h

end Denials

/-! ## One step -/

section Steps

variable {inside : Name → Prop} {calls : List StoreCall} {c : Caches}

variable {now : Nat} {name : Name} {qtype : Qtype} {d : DnsCache} {entry : NameTypeKey × CacheEntry}
  {more : List StoreCall}

theorem DnsCache.of_mem_putValidated {records : List ResourceRecord} {outcome : Outcome}
    (h : entry ∈ (d.putValidated now name qtype records outcome).cache) :
    entry ∈ d.cache ∨ entry = (nameTypeKey name qtype,
      ⟨records, .after now (cacheTtl records), cacheTtl records, outcome, false, .default, now⟩) := by
  rw [DnsCache.putValidated] at h
  split at h
  · exact .inl h
  · grind [of_mem_entries_insert, DnsCache.mem_evictOldest]

theorem NegativeCache.of_mem_insert {n : NegativeCache} {now : Nat} {name : Name} {qtype : Qtype}
    {response : DnsMessage} {outcome : Outcome} :
    let made (entry : NegativeEntry) := ∃ ttl, negativeTtl response = some ttl ∧
      response.answers = [] ∧
      entry = ⟨response.rcode, response.authorities, outcome, .after now ttl, .default, now⟩
    (∀ entry ∈ (n.insert now name qtype response outcome).nxdomain,
        entry ∈ n.nxdomain ∨ entry.1 = name.toFolded ∧ made entry.2) ∧
      ∀ entry ∈ (n.insert now name qtype response outcome).nodata,
        entry ∈ n.nodata ∨ entry.1 = nameTypeKey name qtype ∧ made entry.2 := by
  intro made
  rw [NegativeCache.insert]
  split
  · exact ⟨fun _ h => .inl h, fun _ h => .inl h⟩
  · rename_i hanswers
    have hnone : response.answers = [] := by grind
    split
    · exact ⟨fun _ h => .inl h, fun _ h => .inl h⟩
    · split
      · exact ⟨fun _ h => .inl h, fun _ h => .inl h⟩
      · rename_i ttl httl
        dsimp only
        split
        · constructor
          · intro entry hentry
            rcases of_mem_entries_insert hentry with rfl | hold
            · exact .inr ⟨rfl, ttl, httl, hnone, rfl⟩
            · split at hold
              · exact .inl (NegativeCache.mem_makeRoom.1 _ hold)
              · exact .inl hold
          · intro entry hentry
            split at hentry
            · exact .inl (NegativeCache.mem_makeRoom.2 _ hentry)
            · exact .inl hentry
        · constructor
          · intro entry hentry
            split at hentry
            · exact .inl (NegativeCache.mem_makeRoom.1 _ hentry)
            · exact .inl hentry
          · intro entry hentry
            rcases of_mem_entries_insert hentry with rfl | hold
            · exact .inr ⟨rfl, ttl, httl, hnone, rfl⟩
            · split at hold
              · exact .inl (NegativeCache.mem_makeRoom.2 _ hold)
              · exact .inl hold

variable {call : StoreCall}

/-- A Bogus response leaves the caches alone. -/
theorem Caches.store_of_isBogus (h : call.state.isBogus = true) : c.store call = c := by
  unfold Caches.store
  exact if_pos h

/-- **A `store` adds entries it made itself**, where it reaches. -/
theorem Caches.FromIn.store (h : c.FromIn inside calls) (hcall : call.Reaches inside → call ∈ calls) :
    (c.store call).FromIn inside calls := by
  rw [Caches.store]
  dsimp only
  split
  · exact h
  · rename_i hbogus
    rw [Bool.not_eq_true] at hbogus
    -- the answers, and the "no" they refute
    have hanswered : Caches.FromIn inside calls (if call.response.answers.isEmpty = true then c else { c with
        answers := c.answers.putValidated call.now call.query.qname call.query.qtype call.response.answers
          call.state.outcome
        negatives := c.negatives.forgetRefuted call.query.qname call.query.qtype }) := by
      split
      · exact h
      · rename_i hsome
        refine ⟨fun entry hentry hinside => ?_, fun entry hentry => ?_, fun entry hentry => ?_, h.denials⟩
        · rcases DnsCache.of_mem_putValidated hentry with hold | rfl
          · exact h.answers entry hold hinside
          · refine ⟨call, hcall (.inl hinside), hbogus, ?_, rfl, rfl, rfl, rfl, rfl⟩
            intro hnone
            rw [hnone] at hsome
            exact hsome rfl
        · exact h.nxdomain entry (mem_of_mem_foldl_remove hentry)
        · exact h.nodata entry (mem_of_mem_remove hentry)
    generalize hc' : (if call.response.answers.isEmpty = true then c else { c with
        answers := c.answers.putValidated call.now call.query.qname call.query.qtype call.response.answers
          call.state.outcome
        negatives := c.negatives.forgetRefuted call.query.qname call.query.qtype }) = c' at hanswered
    have hnegative : Caches.FromIn inside calls { c' with
        negatives := c'.negatives.insert call.now call.query.qname call.query.qtype call.response
          call.state.outcome } := by
      refine ⟨hanswered.answers, fun entry hentry hinside => ?_, fun entry hentry hinside => ?_, hanswered.denials⟩
      · rcases NegativeCache.of_mem_insert.1 entry hentry with hold | ⟨hkey, ttl, httl, hnone, heq⟩
        · exact hanswered.nxdomain entry hold hinside
        · rw [heq]
          rw [hkey] at hinside
          exact ⟨call, hcall (.inl hinside), ⟨hbogus, hnone, rfl, rfl, rfl, ttl, httl, rfl⟩, hkey⟩
      · rcases NegativeCache.of_mem_insert.2 entry hentry with hold | ⟨hkey, ttl, httl, hnone, heq⟩
        · exact hanswered.nodata entry hold hinside
        · rw [heq]
          rw [hkey] at hinside
          exact ⟨call, hcall (.inl hinside), ⟨hbogus, hnone, rfl, rfl, rfl, ttl, httl, rfl⟩, hkey⟩
    split
    · exact hnegative
    · rename_i hsecure
      rw [Bool.not_eq_true', Bool.not_eq_false, ValidationState.outcome_isSecure] at hsecure
      split
      · rename_i hnone
        exact { hnegative with
          denials := from_insertValidated hcall hsecure (List.isEmpty_iff.mp hnone) hnegative.denials }
      · exact { hnegative with
          denials := from_insertValidatedWildcard hcall hsecure hnegative.denials }

/-- **A store keeps the origin of all entries**, if it is one of the calls. -/
theorem Caches.From.store (h : c.From calls) (hcall : call ∈ calls) : (c.store call).From calls :=
  Caches.from_iff.mpr ((Caches.from_iff.mp h).store fun _ => hcall)

theorem DnsCache.of_mem_lookup {prefetching : Bool}
    (h : entry ∈ (d.lookup now name qtype prefetching).2.cache) :
    entry ∈ d.cache ∨ ∃ held, (entry.1, held) ∈ d.cache ∧ entry.2 = { held with refreshing := true } := by
  rw [DnsCache.lookup] at h
  dsimp only at h
  split at h
  · exact .inl h
  · rename_i held hget
    split at h
    · dsimp only at h
      split at h
      · rcases of_mem_entries_insert h with rfl | hold
        · exact .inr ⟨held, Entries.mem_of_get hget, rfl⟩
        · exact .inl hold
      · exact .inl h
    · grind [mem_of_mem_remove]

theorem DnsCache.of_mem_getStale {refreshing : Bool}
    (h : entry ∈ (d.getStale now name qtype refreshing).2.cache) :
    entry ∈ d.cache ∨ ∃ held after, (entry.1, held) ∈ d.cache ∧
      entry.2 = { held with staleRefreshAfter := after } := by
  rw [DnsCache.getStale] at h
  dsimp only at h
  split at h
  · exact .inl h
  · split at h
    · exact .inl h
    · rename_i held hget
      rcases of_mem_entries_insert h with rfl | hold
      · refine .inr ⟨held, _, Entries.mem_of_get ?_, rfl⟩
        exact (Option.filter_eq_some_iff.mp hget).1
      · exact .inl hold

theorem NegativeCache.of_mem_getStale {n : NegativeCache} {refreshing : Bool} :
    (∀ entry ∈ (n.getStale now name qtype refreshing).2.nxdomain, entry ∈ n.nxdomain ∨
        ∃ held after, (entry.1, held) ∈ n.nxdomain ∧ entry.2 = { held with staleRefreshAfter := after }) ∧
      ∀ entry ∈ (n.getStale now name qtype refreshing).2.nodata, entry ∈ n.nodata ∨
        ∃ held after, (entry.1, held) ∈ n.nodata ∧ entry.2 = { held with staleRefreshAfter := after } := by
  rw [NegativeCache.getStale]
  split
  · exact ⟨fun _ h => .inl h, fun _ h => .inl h⟩
  · dsimp only
    split
    · rename_i ancestor held hdenied
      refine ⟨fun entry hentry => ?_, fun _ h => .inl h⟩
      rcases of_mem_entries_insert hentry with rfl | hold
      · obtain ⟨a, -, hfound⟩ := List.exists_of_findSome?_eq_some hdenied
        obtain ⟨e, he, heq⟩ := Option.map_eq_some_iff.mp hfound
        cases heq
        exact .inr ⟨_, _, Entries.mem_of_get (Option.filter_eq_some_iff.mp he).1, rfl⟩
      · exact .inl hold
    · split
      · exact ⟨fun _ h => .inl h, fun _ h => .inl h⟩
      · rename_i held hget
        refine ⟨fun _ h => .inl h, fun entry hentry => ?_⟩
        rcases of_mem_entries_insert hentry with rfl | hold
        · exact .inr ⟨held, _, Entries.mem_of_get (Option.filter_eq_some_iff.mp hget).1, rfl⟩
        · exact .inl hold

/-- What a lookup changes: the refreshing mark of one answer. -/
theorem Caches.lookup_snd (sha1 : Octets → Nsec3Hash) (c : Caches) (now : Nat) (name : Name) (qtype : Qtype)
    (synthesizing prefetching : Bool) :
    (c.lookup sha1 now name qtype synthesizing prefetching).2 = c ∨
      (c.lookup sha1 now name qtype synthesizing prefetching).2 =
        { c with answers := (c.answers.lookup now name qtype prefetching).2 } := by
  rw [Caches.lookup]
  split
  · exact .inl rfl
  · grind

/-- What a stale lookup changes: marks of refreshes, no contents. -/
theorem Caches.stale_snd (c : Caches) (now : Nat) (name : Name) (qtype : Qtype) (refreshing : Bool) :
    (c.stale now name qtype refreshing).2 = { c with
      answers := (c.answers.getStale now name qtype refreshing).2
      negatives := (c.negatives.getStale now name qtype refreshing).2 } := by
  rw [Caches.stale]
  dsimp only
  split <;> rfl

theorem StoreCall.MadeAnswer.refreshing {key : NameTypeKey} {entry : CacheEntry}
    (h : call.MadeAnswer key entry) : call.MadeAnswer key { entry with refreshing := true } :=
  ⟨h.believed, h.some, h.key, h.records, h.outcome, h.expiresAt, h.learnedAt⟩

theorem StoreCall.MadeAnswer.staleRefresh {key : NameTypeKey} {entry : CacheEntry}
    (h : call.MadeAnswer key entry) (after : Deadline) :
    call.MadeAnswer key { entry with staleRefreshAfter := after } :=
  ⟨h.believed, h.some, h.key, h.records, h.outcome, h.expiresAt, h.learnedAt⟩

theorem StoreCall.MadeNegative.staleRefresh {entry : NegativeEntry} (h : call.MadeNegative entry)
    (after : Deadline) :
    call.MadeNegative { entry with staleRefreshAfter := after } :=
  ⟨h.believed, h.none, h.rcode, h.authority, h.outcome, h.expiresAt⟩

/-- A lookup keeps the origin of all entries. -/
theorem Caches.FromIn.lookup (h : c.FromIn inside calls) (sha1 : Octets → Nsec3Hash) (now : Nat) (name : Name)
    (qtype : Qtype) (synthesizing prefetching : Bool) :
    (c.lookup sha1 now name qtype synthesizing prefetching).2.FromIn inside calls := by
  rcases Caches.lookup_snd sha1 c now name qtype synthesizing prefetching with heq | heq
  · rw [heq]
    exact h
  · rw [heq]
    refine { h with answers := fun entry hentry hinside => ?_ }
    rcases DnsCache.of_mem_lookup hentry with hold | ⟨held, hheld, hsame⟩
    · exact h.answers entry hold hinside
    · obtain ⟨call, hcall, hmade⟩ := h.answers _ hheld hinside
      rw [hsame]
      exact ⟨call, hcall, hmade.refreshing⟩

/-- A stale lookup keeps the origin of all entries. -/
theorem Caches.FromIn.stale (h : c.FromIn inside calls) (now : Nat) (name : Name) (qtype : Qtype)
    (refreshing : Bool) : (c.stale now name qtype refreshing).2.FromIn inside calls := by
  rw [Caches.stale_snd]
  refine ⟨fun entry hentry hinside => ?_, fun entry hentry hinside => ?_, fun entry hentry hinside => ?_, h.denials⟩
  · rcases DnsCache.of_mem_getStale hentry with hold | ⟨held, after, hheld, hsame⟩
    · exact h.answers entry hold hinside
    · obtain ⟨call, hcall, hmade⟩ := h.answers _ hheld hinside
      rw [hsame]
      exact ⟨call, hcall, hmade.staleRefresh after⟩
  · rcases NegativeCache.of_mem_getStale.1 entry hentry with hold | ⟨held, after, hheld, hsame⟩
    · exact h.nxdomain entry hold hinside
    · obtain ⟨call, hcall, hmade, hkey⟩ := h.nxdomain _ hheld hinside
      rw [hsame]
      exact ⟨call, hcall, hmade.staleRefresh after, hkey⟩
  · rcases NegativeCache.of_mem_getStale.2 entry hentry with hold | ⟨held, after, hheld, hsame⟩
    · exact h.nodata entry hold hinside
    · obtain ⟨call, hcall, hmade, hkey⟩ := h.nodata _ hheld hinside
      rw [hsame]
      exact ⟨call, hcall, hmade.staleRefresh after, hkey⟩

theorem Caches.FromIn.of_subset (h : c.FromIn inside calls) {left : Caches}
    (hanswers : ∀ entry ∈ left.answers.cache, entry ∈ c.answers.cache)
    (hnxdomain : ∀ entry ∈ left.negatives.nxdomain, entry ∈ c.negatives.nxdomain)
    (hnodata : ∀ entry ∈ left.negatives.nodata, entry ∈ c.negatives.nodata)
    (hdenials : ∀ entry ∈ left.denials, entry ∈ c.denials) : left.FromIn inside calls where
  answers := fun entry hentry => h.answers entry (hanswers entry hentry)
  nxdomain := fun entry hentry => h.nxdomain entry (hnxdomain entry hentry)
  nodata := fun entry hentry => h.nodata entry (hnodata entry hentry)
  denials := fun entry hentry => h.denials entry (hdenials entry hentry)

/-- The order a map hands its entries over in does not matter. -/
theorem Caches.FromIn.shuffle (h : c.FromIn inside calls) {met : Caches} (hmet : c.Shuffled met) :
    met.FromIn inside calls where
  answers := fun entry hentry => h.answers entry (hmet.answers.mem_iff.mp hentry)
  nxdomain := fun entry hentry => h.nxdomain entry (hmet.nxdomain.mem_iff.mp hentry)
  nodata := fun entry hentry => h.nodata entry (hmet.nodata.mem_iff.mp hentry)
  denials := fun entry hentry hinside => by
    obtain ⟨held, hheld, hname, hnsecs, hnsec3s, hsoa, hwildcards⟩ := hmet.denials entry hentry
    have hfrom := h.denials held hheld (hname ▸ hinside)
    rw [hname]
    exact ⟨hnsecs ▸ hfrom.nsecs, hnsec3s ▸ hfrom.nsec3s, hsoa ▸ hfrom.soa,
      fun w hw => hfrom.wildcards w (hwildcards.mem_iff.mp hw)⟩

theorem ZoneProofs.From.mono {zone : Name} {proofs : ZoneProofs} (h : proofs.From calls zone)
    (hsub : calls ⊆ more) : proofs.From more zone where
  nsecs := fun e he => (h.nsecs e he).imp fun _ => And.imp_left (@hsub _)
  nsec3s := fun e he => (h.nsec3s e he).imp fun _ => And.imp_left (@hsub _)
  soa := fun soa hsoa => (h.soa soa hsoa).imp fun _ => And.imp_left (@hsub _)
  wildcards := fun e he => (h.wildcards e he).imp fun _ => And.imp_left (@hsub _)

theorem Caches.FromIn.mono (h : c.FromIn inside calls) (hsub : calls ⊆ more) :
    c.FromIn inside more where
  answers := fun entry hentry hinside => (h.answers entry hentry hinside).imp fun _ => And.imp_left (@hsub _)
  nxdomain := fun entry hentry hinside => (h.nxdomain entry hentry hinside).imp fun _ => And.imp_left (@hsub _)
  nodata := fun entry hentry hinside => (h.nodata entry hentry hinside).imp fun _ => And.imp_left (@hsub _)
  denials := fun entry hentry hinside => (h.denials entry hentry hinside).mono hsub

theorem Caches.From.mono (h : c.From calls) (hsub : calls ⊆ more) : c.From more :=
  Caches.from_iff.mpr ((Caches.from_iff.mp h).mono hsub)

theorem Caches.from_new (capacity denialZones : Nat) (stale : StalePolicy) :
    (Caches.new capacity denialZones stale).From calls :=
  ⟨fun _ h => (by cases h), fun _ h => (by cases h), fun _ h => (by cases h), fun _ h => (by cases h)⟩

end Steps

/-- What may be done to the caches besides a `store`. -/
inductive Caches.Used (sha1 : Octets → Nsec3Hash) (now : Nat) (c : Caches) : Caches → Prop
  | shuffle {met : Caches} : c.Shuffled met → Used sha1 now c met
  | lookup (name : Name) (qtype : Qtype) (synthesizing prefetching : Bool) :
      Used sha1 now c (c.lookup sha1 now name qtype synthesizing prefetching).2
  | stale (name : Name) (qtype : Qtype) (refreshing : Bool) :
      Used sha1 now c (c.stale now name qtype refreshing).2
  | forgetAtOrBelow (node : Name) : Used sha1 now c (c.forgetAtOrBelow node)
  | clear : Used sha1 now c c.clear
  | forgetName (name : Name) : Used sha1 now c (c.forgetName name)

/-- **Nothing but a `store` makes an entry.** -/
theorem Caches.FromIn.used {inside : Name → Prop} {calls : List StoreCall} {left : Caches}
    (h : c.FromIn inside calls) (hused : c.Used sha1 now left) : left.FromIn inside calls := by
  cases hused with
  | shuffle hmet => exact h.shuffle hmet
  | lookup name qtype synthesizing prefetching => exact h.lookup sha1 now name qtype synthesizing prefetching
  | stale name qtype refreshing => exact h.stale now name qtype refreshing
  | forgetAtOrBelow node =>
    exact h.of_subset (fun _ h => (List.mem_filter.mp h).1) (fun _ h => (List.mem_filter.mp h).1)
      (fun _ h => (List.mem_filter.mp h).1) (fun _ h => (List.mem_filter.mp h).1)
  | clear =>
    exact h.of_subset (fun _ h => (by cases h)) (fun _ h => (by cases h)) (fun _ h => (by cases h))
      (fun _ h => (by cases h))
  | forgetName name =>
    exact h.of_subset (fun _ h => (List.mem_filter.mp h).1) (fun _ h => mem_of_mem_remove h)
      (fun _ h => (List.mem_filter.mp h).1) (fun _ h => h)

/-- **What a run leaves was made by the `store` calls of its history.** -/
theorem Ran.from {start : Caches} {history : List StoreCall} (hrun : Ran sha1 start now history c)
    (hstart : ∀ calls, start.From calls) : c.From history := by
  have hused : ∀ (now : Nat) {history : List StoreCall} {c left : Caches}, c.From history →
      c.Used sha1 now left → left.From history :=
    fun _ _ _ _ h hused => Caches.from_iff.mpr ((Caches.from_iff.mp h).used hused)
  induction hrun with
  | start => exact hstart []
  | wait _ _ ih => exact ih
  | shuffle _ hmet ih => exact hused 0 ih (.shuffle hmet)
  | store call _ ih => exact (ih.mono (List.subset_cons_self call _)).store List.mem_cons_self
  | lookup name qtype synthesizing prefetching _ ih =>
    exact hused _ ih (.lookup name qtype synthesizing prefetching)
  | stale name qtype refreshing _ ih => exact hused _ ih (.stale name qtype refreshing)
  | forgetAtOrBelow node _ ih => exact hused 0 ih (.forgetAtOrBelow node)
  | clear _ ih => exact hused 0 ih .clear
  | forgetName name _ ih => exact hused 0 ih (.forgetName name)

/-- The stores of a run are not later than its clock. -/
theorem Ran.past {start : Caches} {history : List StoreCall} (hrun : Ran sha1 start now history c) :
    ∀ call ∈ history, call.now ≤ now := by
  induction hrun with
  | start =>
    intro call h
    cases h
  | wait hle _ ih =>
    intro call h
    exact (ih call h).trans hle
  | shuffle _ _ ih => exact ih
  | store call _ ih =>
    intro other h
    rcases List.mem_cons.mp h with rfl | h
    · exact le_rfl
    · exact ih other h
  | lookup _ _ _ _ _ ih => exact ih
  | stale _ _ _ _ ih => exact ih
  | forgetAtOrBelow _ _ ih => exact ih
  | clear _ ih => exact ih
  | forgetName _ _ ih => exact ih

end Rdns.Resolver
