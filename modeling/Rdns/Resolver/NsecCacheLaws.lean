import Rdns.Dnssec.StandardChain
import Rdns.Dnssec.Nsec3Proofs
import Rdns.Resolver.NsecCache

/-!
# Rdns — What a cached denial is worth

A cache that was fed genuine records of one zone, at any times and in any order, holds
nothing else (`Run.holds`). What it then synthesizes is as good as the records it gathered,
and that is not always good enough.
-/

namespace Rdns.Resolver

open Rdns.Lib Rdns.Core Rdns.Present Rdns.Zones Rdns.Dnssec RecordTypes

/-! ## Genuine records -/

/-- An NSEC3 record of the chain RFC 5155 §7.1 gives a zone: it stands at the hash of a listed
name, has the types of that name, and no listed name's hash is in its span. -/
structure GenuineNsec3 (sha1 : Octets → Nsec3Hash) (origin : Name) (records : List ZoneRecord)
    (salt : Octets) (iterations : UInt16) (optOut : Bool) (nsec3 : Nsec3) : Prop where
  params : nsec3.params = ⟨SHA1_HASH_ALGORITHM, iterations, salt⟩
  flag : nsec3.optOut = optOut
  owner : ∃ name, Listed origin records optOut name ∧
    nsec3.ownerHash = nameHash sha1 salt iterations name ∧
    ∀ t, t ≠ RRSIG → (nsec3.hasType t = true ↔ ownsType records name t = true ∧
      (isCut origin records name = true → t = NS ∨ t = DS))
  between : ∀ name, Listed origin records optOut name →
    nsec3.coversHash (nameHash sha1 salt iterations name) = false

/-- What a zone denies by: the NSEC chain, and NSEC3 chains by salt, iterations and Opt-Out,
of which there are two while its NSEC3PARAM rolls over. -/
structure Denials where
  nsec : Bool
  nsec3 : List (Octets × UInt16 × Bool)

/-- **A response whose SOA, NSEC and NSEC3 records are the zone's.** -/
structure Genuine (sha1 : Octets → Nsec3Hash) (origin : Name) (records : List ZoneRecord)
    (denials : Denials) (response : DnsMessage) : Prop where
  soa : ∀ rr ∈ response.authorities, rr.rdata.rtype = SOA → rr.name.same origin = true
  nsec : ∀ rr ∈ response.authorities, ∀ nsec, Nsec.fromRecord rr = some nsec →
    denials.nsec = true ∧ nsec ∈ standardChain origin records
  nsec3 : ∀ rr ∈ response.authorities, ∀ nsec3, Nsec3.fromRecord rr = some nsec3 →
    ∃ salt iterations optOut, (salt, iterations, optOut) ∈ denials.nsec3 ∧
      GenuineNsec3 sha1 origin records salt iterations optOut nsec3

inductive Run (maxZones : Nat) (accepted : DnsMessage → Prop) : HeldZones → Prop
  | empty : Run maxZones accepted []
  | insert {zones met : HeldZones} {response : DnsMessage} (now : Nat) :
      Run maxZones accepted zones → met.Perm zones → accepted response →
        Run maxZones accepted (insertValidated maxZones now response met)

/-! ## What is held -/

section Held

variable {α : Type}

theorem of_mem_insert {m : SortedMap Octets α} {key : Octets} {value : α} {entry : Octets × α}
    (h : entry ∈ SortedMap.insert key value m) : entry = (key, value) ∨ entry ∈ m := by
  induction m with
  | nil => exact .inl (List.mem_singleton.mp h)
  | cons first rest ih =>
    obtain ⟨k, v⟩ := first
    rw [SortedMap.insert, SortedMap.alter] at h
    split at h
    · exact (List.mem_cons.mp h).imp_right (List.mem_cons_of_mem _)
    · split at h
      · exact List.mem_cons.mp h
      · rcases List.mem_cons.mp h with h | h
        · exact .inr (h ▸ List.mem_cons_self)
        · exact (ih h).imp_right (List.mem_cons_of_mem _)

theorem mem_insertBounded {m : SortedMap Octets (CachedProof α)} {key : Octets}
    {value : CachedProof α} {now : Nat} {entry : Octets × CachedProof α}
    (h : entry ∈ insertBounded m key value now) : entry = (key, value) ∨ entry ∈ m := by
  rw [insertBounded] at h
  split at h
  · dsimp only at h
    split at h
    · split at h
      · refine (of_mem_insert h).imp_right fun hmem => ?_
        exact (List.mem_filter.mp (List.mem_filter.mp hmem).1).1
      · exact (of_mem_insert h).imp_right fun hmem => (List.mem_filter.mp hmem).1
    · exact (of_mem_insert h).imp_right fun hmem => (List.mem_filter.mp hmem).1
  · exact of_mem_insert h

theorem mem_retain {expiry : α → Nat} {plan : Halving} {entries : List α} {entry : α}
    (h : entry ∈ plan.retain expiry entries) : entry ∈ entries := by
  induction entries generalizing plan with
  | nil => exact h
  | cons first rest ih =>
    rw [Halving.retain] at h
    split at h
    · exact (List.mem_cons.mp h).elim (fun h => h ▸ List.mem_cons_self) fun h =>
        List.mem_cons_of_mem _ (ih h)
    · split at h
      · exact (List.mem_cons.mp h).elim (fun h => h ▸ List.mem_cons_self) fun h =>
          List.mem_cons_of_mem _ (ih h)
      · exact List.mem_cons_of_mem _ (ih h)

theorem mem_evictZone {zones : HeldZones} {maxZones now : Nat} {entry : Name × ZoneProofs}
    (h : entry ∈ evictZone zones maxZones now) : entry ∈ zones := by
  rw [evictZone] at h
  split at h
  · exact (List.mem_filter.mp h).1
  · split at h
    · exact (List.mem_filter.mp (mem_retain h)).1
    · exact (List.mem_filter.mp h).1

theorem of_mem_alter {zone : Name} {f : ZoneProofs → ZoneProofs} {zones : HeldZones}
    {entry : Name × ZoneProofs} (h : entry ∈ HeldZones.alter zone f zones) :
    entry ∈ zones ∨ entry = (zone, f .default) ∨
      ∃ name proofs, (name, proofs) ∈ zones ∧ entry = (name, f proofs) := by
  induction zones with
  | nil => exact .inr (.inl (List.mem_singleton.mp h))
  | cons first rest ih =>
    obtain ⟨name, proofs⟩ := first
    rw [HeldZones.alter] at h
    split at h
    · rcases List.mem_cons.mp h with h | h
      · exact .inr (.inr ⟨name, proofs, List.mem_cons_self, h⟩)
      · exact .inl (List.mem_cons_of_mem _ h)
    · rcases List.mem_cons.mp h with h | h
      · exact .inl (h ▸ List.mem_cons_self)
      · rcases ih h with h | h | ⟨name', proofs', hmem, h⟩
        · exact .inl (List.mem_cons_of_mem _ h)
        · exact .inr (.inl h)
        · exact .inr (.inr ⟨name', proofs', List.mem_cons_of_mem _ hmem, h⟩)

end Held

section Zone

variable {sha1 : Octets → Nsec3Hash} {origin : Name} {records : List ZoneRecord} {denials : Denials}

/-- Proofs made of the zone's own records, each under its key; of NSEC3 only those without
Opt-Out. -/
structure Holds (sha1 : Octets → Nsec3Hash) (origin : Name) (records : List ZoneRecord)
    (denials : Denials) (proofs : ZoneProofs) : Prop where
  nsec : ∀ entry ∈ proofs.nsecs, entry.1 = canonicalSortKey entry.2.proof.owner ∧
    denials.nsec = true ∧ entry.2.proof ∈ standardChain origin records
  nsec3 : ∀ entry ∈ proofs.nsec3s, entry.1 = entry.2.proof.ownerHash.octets ∧
    ∃ salt iterations, (salt, iterations, false) ∈ denials.nsec3 ∧
      GenuineNsec3 sha1 origin records salt iterations false entry.2.proof

theorem Holds.default : Holds sha1 origin records denials .default :=
  ⟨fun _ h => (by cases h), fun _ h => (by cases h)⟩

variable {proofs : ZoneProofs} {now : Nat} {q zone name : Name} {params : Nsec3Params}
  {qtype : Qtype} {g : Gathered} {zones : HeldZones} {c : CachedProof Nsec3} {response : DnsMessage}
  {t : Rtype}

theorem Holds.takeIn (h : Holds sha1 origin records denials proofs)
    (hgenuine : Genuine sha1 origin records denials response) {rr : ResourceRecord}
    (hrr : rr ∈ response.authorities) (zone : Name) (now : Nat) :
    Holds sha1 origin records denials (proofs.takeIn response.authorities zone now rr) := by
  rw [ZoneProofs.takeIn]
  dsimp only
  split
  · split
    · exact h
    · rename_i nsec hfrom
      split
      · exact h
      · refine ⟨fun entry hentry => ?_, h.nsec3⟩
        rcases mem_insertBounded hentry with rfl | hold
        · exact ⟨rfl, hgenuine.nsec rr hrr nsec hfrom⟩
        · exact h.nsec entry hold
  · split
    · split
      · exact h
      · rename_i nsec3 hfrom
        split
        · exact h
        · split
          · exact h
          · rename_i hspan
            refine ⟨h.nsec, fun entry hentry => ?_⟩
            rcases mem_insertBounded hentry with rfl | hold
            · obtain ⟨salt, iterations, optOut, hmem, hrecord⟩ := hgenuine.nsec3 rr hrr nsec3 hfrom
              have hclear : optOut = false := by
                rw [← hrecord.flag]
                exact Bool.not_eq_true _ ▸ hspan
              subst hclear
              exact ⟨rfl, salt, iterations, hmem, hrecord⟩
            · exact h.nsec3 entry hold
    · exact h

theorem Holds.foldl_takeIn (hgenuine : Genuine sha1 origin records denials response) (zone : Name)
    (now : Nat) {taken : List ResourceRecord} (hsub : ∀ rr ∈ taken, rr ∈ response.authorities)
    (h : Holds sha1 origin records denials proofs) :
    Holds sha1 origin records denials
      (taken.foldl (ZoneProofs.takeIn response.authorities zone now) proofs) := by
  induction taken generalizing proofs with
  | nil => exact h
  | cons rr rest ih =>
    exact ih (fun r hr => hsub r (List.mem_cons_of_mem _ hr))
      (h.takeIn hgenuine (hsub rr List.mem_cons_self) zone now)

/-- **A genuine response adds nothing but the zone's own records.** -/
theorem holds_insertValidated {maxZones : Nat}
    (hgenuine : Genuine sha1 origin records denials response)
    (h : ∀ entry ∈ zones, entry.1.same origin = true ∧ Holds sha1 origin records denials entry.2) :
    ∀ entry ∈ insertValidated maxZones now response zones,
      entry.1.same origin = true ∧ Holds sha1 origin records denials entry.2 := by
  intro entry hentry
  rw [insertValidated] at hentry
  split at hentry
  · exact h entry hentry
  · split at hentry
    · exact h entry hentry
    · rename_i soaRr hfind
      split at hentry
      · have hsoa : soaRr.name.toFolded.same origin = true := by
          have hrtype : soaRr.rdata.rtype = SOA := by simpa using List.find?_some hfind
          rw [Name.same_iff, Name.toFolded_toFolded, ← Name.same_iff]
          exact hgenuine.soa soaRr (List.mem_of_find?_eq_some hfind) hrtype
        -- what is put at the zone's entry holds if what was there did
        have hput : ∀ proofs soa, Holds sha1 origin records denials proofs →
            Holds sha1 origin records denials (response.authorities.foldl
              (ZoneProofs.takeIn response.authorities soaRr.name.toFolded now)
              { proofs with soa := soa }) := fun proofs soa hproofs =>
          Holds.foldl_takeIn hgenuine _ now (fun _ hr => hr) ⟨hproofs.nsec, hproofs.nsec3⟩
        have hleft : ∀ e ∈ (if (!(zones.any fun e => e.1.same soaRr.name.toFolded) &&
            decide (zones.length ≥ maxZones)) = true then evictZone zones maxZones now else zones),
            e ∈ zones := by
          intro e he
          split at he
          · exact mem_evictZone he
          · exact he
        rcases of_mem_alter hentry with hold | hnew | ⟨name, proofs, hmem, hnew⟩
        · exact h entry (hleft entry hold)
        · subst hnew
          exact ⟨hsoa, hput _ _ Holds.default⟩
        · subst hnew
          obtain ⟨hname, hproofs⟩ := h _ (hleft _ hmem)
          exact ⟨hname, hput _ _ hproofs⟩
      · exact h entry hentry

/-- **Whatever the order, the times and the evictions, only the zone's own records are
held.** -/
theorem Run.holds {maxZones : Nat} (hrun : Run maxZones (Genuine sha1 origin records denials) zones) :
    ∀ entry ∈ zones, entry.1.same origin = true ∧ Holds sha1 origin records denials entry.2 := by
  induction hrun with
  | empty =>
    intro entry h
    cases h
  | insert now _ hperm hgenuine ih =>
    exact holds_insertValidated hgenuine fun entry hentry => ih entry (hperm.mem_iff.mp hentry)

/-! ## What a lookup finds -/

theorem of_coveringNsec {c : CachedProof Nsec} (h : proofs.coveringNsec now name = some c) :
    (∃ key, (key, c) ∈ proofs.nsecs) ∧ c.proof.covers name = true ∧
      isBelowDelegation c.proof name = false := by
  rw [ZoneProofs.coveringNsec] at h
  split at h
  · cases h
  · rename_i key candidate hfound
    have hmem : (key, candidate) ∈ proofs.nsecs := by
      rcases Option.or_eq_some_iff.mp hfound with hbelow | ⟨-, hlast⟩
      · exact (List.mem_filter.mp (List.mem_of_getLast? hbelow)).1
      · exact List.mem_of_getLast? hlast
    split at h
    · cases h
    · rename_i husable
      split at h
      · cases h
      · rename_i hdelegation
        cases h
        simp only [Bool.or_eq_true, Bool.not_eq_true', not_or, Bool.not_eq_false] at husable
        exact ⟨⟨key, hmem⟩, husable.2, Bool.not_eq_true _ ▸ hdelegation⟩

theorem of_matchingNsec {c : CachedProof Nsec} (h : proofs.matchingNsec now name = some c) :
    (canonicalSortKey name, c) ∈ proofs.nsecs := by
  obtain ⟨hget, -⟩ := Option.filter_eq_some_iff.mp h
  obtain ⟨entry, hfind, rfl⟩ := Option.map_eq_some_iff.mp hget
  have hkey : entry.1 = canonicalSortKey name := by simpa using List.find?_some hfind
  rw [← hkey]
  exact List.mem_of_find?_eq_some hfind

theorem of_matchingNsec3 {hash : Nsec3Hash} (h : proofs.matchingNsec3 now hash params = some c) :
    (hash.octets, c) ∈ proofs.nsec3s ∧ c.proof.params = params := by
  obtain ⟨hget, husable⟩ := Option.filter_eq_some_iff.mp h
  obtain ⟨entry, hfind, rfl⟩ := Option.map_eq_some_iff.mp hget
  have hkey : entry.1 = hash.octets := by simpa using List.find?_some hfind
  rw [Bool.and_eq_true, beq_iff_eq] at husable
  rw [← hkey]
  exact ⟨List.mem_of_find?_eq_some hfind, husable.2⟩

theorem of_coveringNsec3 {hash : Nsec3Hash} (h : proofs.coveringNsec3 now hash params = some c) :
    (∃ key, (key, c) ∈ proofs.nsec3s) ∧ c.proof.params = params ∧ c.proof.coversHash hash = true := by
  rw [ZoneProofs.coveringNsec3] at h
  split at h
  · cases h
  · rename_i candidate hfound
    have hfind : ∃ key, (key, candidate) ∈ proofs.nsec3s ∧ candidate.proof.params = params := by
      rcases Option.or_eq_some_iff.mp hfound with hbelow | ⟨-, hlast⟩
      · have husable := List.find?_some hbelow
        obtain ⟨entry, hentry, rfl⟩ :=
          List.mem_map.mp (List.mem_reverse.mp (List.mem_of_find?_eq_some hbelow))
        rw [Bool.and_eq_true, beq_iff_eq] at husable
        exact ⟨entry.1, (List.mem_filter.mp hentry).1, husable.2⟩
      · have husable := List.find?_some hlast
        obtain ⟨entry, hentry, rfl⟩ :=
          List.mem_map.mp (List.mem_reverse.mp (List.mem_of_find?_eq_some hlast))
        rw [Bool.and_eq_true, beq_iff_eq] at husable
        exact ⟨entry.1, hentry, husable.2⟩
    obtain ⟨key, hmem, hparams⟩ := hfind
    split at h
    · cases h
      exact ⟨⟨key, hmem⟩, hparams, by assumption⟩
    · cases h

theorem encloserOf_step {zlabels depth : Nat} {nextCloser encloser : Name}
    (hdepth : depth ≤ q.labelCount)
    (h : proofs.encloserOf sha1 now q.labelCount zlabels params depth (q.suffix depth) (cameFrom q depth)
      = some (nextCloser, encloser, c)) :
    (depth < q.labelCount ∧ encloser = q.suffix depth ∧ nextCloser = q.suffix (depth + 1) ∧
      ∃ hash, params.hash sha1 (q.suffix depth) = .ok hash ∧ proofs.matchingNsec3 now hash params = some c) ∨
    ∃ up, depth = up + 1 ∧ depth ≠ zlabels ∧
      proofs.encloserOf sha1 now q.labelCount zlabels params up (q.suffix up) (cameFrom q up)
        = some (nextCloser, encloser, c) := by
  rw [ZoneProofs.encloserOf.eq_def] at h
  cases hhash : params.hash sha1 (q.suffix depth) with
  | error e =>
    rw [hhash] at h
    cases h
  | ok hash =>
    rw [hhash] at h
    dsimp only at h
    cases hmatch : proofs.matchingNsec3 now hash params with
    | some cached =>
      rw [hmatch] at h
      by_cases htop : depth = q.labelCount
      · simp only [htop, if_true, reduceCtorEq] at h
      · have hlt : depth < q.labelCount := by omega
        simp only [htop, if_false, cameFrom, if_pos hlt, Option.map_some, Option.some.injEq,
          Prod.mk.injEq] at h
        obtain ⟨rfl, rfl, rfl⟩ := h
        exact .inl ⟨hlt, rfl, rfl, hash, rfl, hmatch⟩
    | none =>
      rw [hmatch] at h
      by_cases hend : depth = zlabels
      · simp only [hend, if_true, reduceCtorEq] at h
      · cases depth with
        | zero => simp only [hend, if_false, reduceCtorEq] at h
        | succ up =>
          have hcame : cameFrom q up = some (q.suffix (up + 1)) := if_pos (by omega)
          simp only [hend, if_false, parent_suffix hdepth, ← hcame] at h
          exact .inr ⟨up, rfl, hend, h⟩

theorem of_encloserOf {zlabels depth : Nat} {nextCloser encloser : Name}
    (hdepth : depth ≤ q.labelCount) (hzone : zlabels ≤ depth)
    (h : proofs.encloserOf sha1 now q.labelCount zlabels params depth (q.suffix depth) (cameFrom q depth)
      = some (nextCloser, encloser, c)) :
    ∃ k, zlabels ≤ k ∧ k < q.labelCount ∧ encloser = q.suffix k ∧ nextCloser = q.suffix (k + 1) ∧
      ∃ hash, params.hash sha1 (q.suffix k) = .ok hash ∧ proofs.matchingNsec3 now hash params = some c := by
  induction depth with
  | zero =>
    rcases encloserOf_step hdepth h with ⟨hlt, hencloser, hnext, hfound⟩ | ⟨up, hup, -⟩
    · exact ⟨0, hzone, hlt, hencloser, hnext, hfound⟩
    · omega
  | succ depth ih =>
    rcases encloserOf_step hdepth h with ⟨hlt, hencloser, hnext, hfound⟩ | ⟨up, hup, hne, hwalk⟩
    · exact ⟨depth + 1, hzone, hlt, hencloser, hnext, hfound⟩
    · obtain rfl : depth = up := by omega
      exact ih (by omega) (by omega) hwalk

/-! ## What is gathered -/

theorem of_gatherNodata3 {sets : List Nsec3Params}
    (h : proofs.gatherNodata3 sha1 now q qtype sets = some g) :
    ∃ params hash c, params.hash sha1 q = .ok hash ∧ proofs.matchingNsec3 now hash params = some c ∧
      (isDelegation3 c.proof && !qtype.is DS) = false ∧
      g.rcode = .ok ∧ g.nsecs = [] ∧ g.nsec3s = [c.proof] := by
  induction sets with
  | nil => cases h
  | cons params rest ih =>
    rw [ZoneProofs.gatherNodata3] at h
    split at h
    · exact ih h
    · rename_i hash hhash
      split at h
      · exact ih h
      · rename_i c hmatch
        split at h
        · cases h
        · rename_i hdelegation
          cases h
          exact ⟨params, hash, c, hhash, hmatch, Bool.not_eq_true _ ▸ hdelegation, rfl, rfl, rfl⟩

theorem of_gatherNodata (h : proofs.gatherNodata sha1 now q qtype = some g) :
    g.rcode = .ok ∧
      ((∃ c, proofs.matchingNsec now q = some c ∧
          (isDelegation c.proof && !qtype.is DS) = false ∧
          g.nsecs = [c.proof] ∧ g.nsec3s = []) ∨
        ∃ params hash c, params.hash sha1 q = .ok hash ∧ proofs.matchingNsec3 now hash params = some c ∧
          (isDelegation3 c.proof && !qtype.is DS) = false ∧
          g.nsecs = [] ∧ g.nsec3s = [c.proof]) := by
  rw [ZoneProofs.gatherNodata] at h
  split at h
  · grind
  · obtain ⟨params, hash, c, hhash, hmatch, hdelegation, hrcode, hnsecs, hnsec3s⟩ := of_gatherNodata3 h
    exact ⟨hrcode, .inr ⟨params, hash, c, hhash, hmatch, hdelegation, hnsecs, hnsec3s⟩⟩

theorem mem_pushUnique {α κ : Type} [BEq κ] {key : α → κ} {candidates : List (CachedProof α)}
    {cached c : CachedProof α} (h : c ∈ pushUnique key candidates cached) :
    c ∈ candidates ∨ c = cached := by
  rw [pushUnique] at h
  split at h
  · exact .inl h
  · exact (List.mem_append.mp h).imp_right List.mem_singleton.mp

theorem mem_pushUnique_of_mem {α κ : Type} [BEq κ] {key : α → κ} {candidates : List (CachedProof α)}
    {cached c : CachedProof α} (h : c ∈ candidates) : c ∈ pushUnique key candidates cached := by
  rw [pushUnique]
  split
  · exact h
  · exact List.mem_append_left _ h

theorem of_withWildcards {covering : CachedProof Nsec}
    (hmem : ∃ key, (key, covering) ∈ proofs.nsecs) :
    covering ∈ proofs.withWildcards now q zone covering ∧
      ∀ c ∈ proofs.withWildcards now q zone covering, ∃ key, (key, c) ∈ proofs.nsecs := by
  rw [ZoneProofs.withWildcards]
  refine List.foldlRecOn (motive := fun candidates => covering ∈ candidates ∧
    ∀ c ∈ candidates, ∃ key, (key, c) ∈ proofs.nsecs) _ _ ⟨List.mem_cons_self, fun c hc => ?_⟩ ?_
  · rw [List.mem_singleton.mp hc]
    exact hmem
  · rintro candidates ⟨hin, hall⟩ depth -
    split
    · exact ⟨hin, hall⟩
    · split
      · exact ⟨hin, hall⟩
      · rename_i c' hfound
        refine ⟨mem_pushUnique_of_mem hin, fun c hc => ?_⟩
        rcases mem_pushUnique hc with hc | rfl
        · exact hall c hc
        · exact (of_coveringNsec hfound).1

theorem of_gatherNxdomainUnder (hunder : q.isAtOrUnder zone = true)
    (h : proofs.gatherNxdomainUnder sha1 now q zone params = some g) :
    g.rcode = .noSuchDomain ∧ g.nsecs = [] ∧ ∃ k hash matching hash' covering, zone.labelCount ≤ k ∧ k < q.labelCount ∧
      params.hash sha1 (q.suffix k) = .ok hash ∧ proofs.matchingNsec3 now hash params = some matching ∧
      isDelegation3 matching.proof = false ∧
      params.hash sha1 (q.suffix (k + 1)) = .ok hash' ∧
      proofs.coveringNsec3 now hash' params = some covering := by
  rw [ZoneProofs.gatherNxdomainUnder] at h
  obtain ⟨⟨nextCloser, encloser, matching⟩, hwalk, h⟩ := Option.bind_eq_some_iff.mp h
  have hzone : zone.labelCount ≤ q.labelCount := by
    rw [← length_canonicalLabels, ← length_canonicalLabels]
    exact (isAtOrUnder_iff_isPrefix.mp hunder).length_le
  have hstart : cameFrom q q.labelCount = none := if_neg (lt_irrefl _)
  rw [← hstart] at hwalk
  have hwalk' : proofs.encloserOf sha1 now q.labelCount zone.labelCount params q.labelCount
      (q.suffix q.labelCount) (cameFrom q q.labelCount) = some (nextCloser, encloser, matching) := by
    rw [suffix_labelCount]
    exact hwalk
  obtain ⟨k, hk, hlt, rfl, rfl, hash, hhash, hmatch⟩ := of_encloserOf (le_refl _) hzone hwalk'
  dsimp only at h
  split at h
  · cases h
  · rename_i hdelegation
    obtain ⟨hash', hhash', h⟩ := Option.bind_eq_some_iff.mp h
    obtain ⟨covering, hcovering, h⟩ := Option.bind_eq_some_iff.mp h
    obtain ⟨wildcard, -, h⟩ := Option.bind_eq_some_iff.mp h
    obtain ⟨starHash, -, h⟩ := Option.bind_eq_some_iff.mp h
    obtain ⟨accounted, -, h⟩ := Option.bind_eq_some_iff.mp h
    cases h
    have hnext : params.hash sha1 (q.suffix (k + 1)) = .ok hash' := by
      cases hres : params.hash sha1 (q.suffix (k + 1)) with
      | error e =>
        rw [hres] at hhash'
        cases hhash'
      | ok other =>
        rw [hres] at hhash'
        cases hhash'
        rfl
    exact ⟨rfl, rfl, k, hash, matching, hash', covering, hk, hlt, hhash, hmatch,
      Bool.not_eq_true _ ▸ hdelegation, hnext, hcovering⟩

/-! ## No data -/

/-- **A name exists without the type**: it is no delegation, unless the type is DS, and has
neither the type nor a CNAME. -/
structure NoData (origin : Name) (records : List ZoneRecord) (q : Name) (t : Rtype) : Prop where
  exists_ : isNode records q = true
  noCut : t ≠ DS → isCut origin records q = false
  noType : ownsType records q t = false
  noCname : ownsType records q CNAME = false

theorem of_nodataBitmap {hasType : Rtype → Bool} (h : nodataBitmap t hasType = .proved) :
    hasType t = false ∧ hasType CNAME = false := by
  rw [nodataBitmap] at h
  split at h
  · cases h
  · grind

theorem not_cname_of_isCut (halone : CnameAlone records) (hcut : isCut origin records name = true) :
    ownsType records name CNAME = false := by
  rw [isCut, Bool.and_eq_true] at hcut
  obtain ⟨ns, hns, hnsAt⟩ := List.any_eq_true.mp hcut.2
  rw [Bool.and_eq_true, beq_iff_eq] at hnsAt
  by_contra hcname
  rw [Bool.not_eq_false] at hcname
  obtain ⟨c, hc, hcAt⟩ := List.any_eq_true.mp hcname
  rw [Bool.and_eq_true, beq_iff_eq] at hcAt
  have hsame : c.name.same ns.name = true := by
    rw [same_congr hnsAt.1]
    exact hcAt.1
  rcases halone c hc ns hns hcAt.2 hsame with h | h
  · rw [hnsAt.2] at h
    exact absurd h (by decide)
  · rw [hnsAt.2] at h
    exact absurd h (by decide)

theorem noData_of_types (halone : CnameAlone records) {hasType : Rtype → Bool}
    (hlisted : Listed origin records false q) (htypes : ∀ u, u ≠ RRSIG →
      ownsType records q u = true ∧
        (isCut origin records q = true → u = NS ∨ u = DS) → hasType u = true)
    (hrrsig : t ≠ RRSIG) (hcut : t ≠ DS → isCut origin records q = false)
    (h : nodataBitmap t hasType = .proved) : NoData origin records q t := by
  obtain ⟨hnone, hnoCname⟩ := of_nodataBitmap h
  have habsent : ∀ u, u ≠ RRSIG → hasType u = false →
      (isCut origin records q = true → u = NS ∨ u = DS) →
      ownsType records q u = false := by
    intro u hu hunset hat
    by_contra howns
    rw [htypes u hu ⟨Bool.not_eq_false _ ▸ howns, hat⟩] at hunset
    cases hunset
  refine ⟨hlisted.isNode, hcut, habsent t hrrsig hnone fun hc => ?_, ?_⟩
  · grind
  · by_cases hc : isCut origin records q = true
    · exact not_cname_of_isCut halone hc
    · exact habsent _ (by decide) hnoCname fun h => absurd h hc

theorem isDelegation_of_isCut {nsec : Nsec} (hmem : nsec ∈ standardChain origin records)
    (hcut : isCut origin records nsec.owner = true) : isDelegation nsec = true := by
  have hns : nsec.hasType NS = true :=
    (hasType_standardChain hmem _).mpr (mem_standardTypes.mpr
      (.inl ⟨ownsType_of_isCut hcut, fun _ => .inl rfl⟩))
  have hsoa : nsec.hasType SOA = false := by
    rw [← Bool.not_eq_true, hasType_standardChain hmem, mem_standardTypes]
    rintro (⟨-, h⟩ | h | h)
    · exact absurd (h hcut) (by decide)
    · exact absurd h (by decide)
    · exact absurd h (by decide)
  rw [isDelegation, hns, hsoa]
  rfl

theorem isDelegation3_of_isCut {nsec3 : Nsec3}
    (htypes : ∀ t, t ≠ RRSIG → (nsec3.hasType t = true ↔
      ownsType records name t = true ∧
        (isCut origin records name = true → t = NS ∨ t = DS)))
    (hcut : isCut origin records name = true) : isDelegation3 nsec3 = true := by
  have hns : nsec3.hasType NS = true :=
    (htypes _ (by decide)).mpr ⟨ownsType_of_isCut hcut, fun _ => .inl rfl⟩
  have hsoa : nsec3.hasType SOA = false := by
    rw [← Bool.not_eq_true, htypes _ (by decide)]
    rintro ⟨-, h⟩
    exact absurd (h hcut) (by decide)
  rw [isDelegation3, hns, hsoa]
  rfl

/-- **A wildcard has the sort key of no other name below its encloser**: no label is empty. -/
theorem same_of_sortKey {star : Name} {k : Nat} (hstar : Name.prefixed STAR (q.suffix k) = .ok star)
    (hkey : canonicalSortKey star = canonicalSortKey q) : q.same star = true := by
  have hlabels : canonicalLabels q = (canonicalLabels q).take k ++ (canonicalLabels q).drop k :=
    (List.take_append_drop k _).symm
  have hrest : ([42, 0] : Octets) = ((canonicalLabels q).drop k).flatMap fun l => l ++ [0] := by
    rw [canonicalSortKey_eq, canonicalSortKey_eq, canonicalLabels_prefixed hstar, canonicalLabels_suffix, hlabels,
      terminated_append, terminated_append] at hkey
    simpa [STAR, terminated] using hkey
  rw [← canonicalLabels_inj, canonicalLabels_prefixed hstar, canonicalLabels_suffix]
  have hdrop : (canonicalLabels q).drop k = [STAR] := by
    cases hcase : (canonicalLabels q).drop k with
    | nil =>
      rw [hcase] at hrest
      cases hrest
    | cons label rest =>
      have hlabel : label ≠ [] := by
        have hmem : label ∈ canonicalLabels q := List.mem_of_mem_drop (hcase ▸ List.mem_cons_self)
        obtain ⟨l, hl, rfl⟩ := List.mem_map.mp hmem
        have hpos := (q.labels_ok l (List.mem_reverse.mp hl)).1
        rw [← length_foldCase] at hpos
        exact List.ne_nil_of_length_pos hpos
      rw [hcase] at hrest
      obtain ⟨octet, more, rfl⟩ := List.exists_cons_of_ne_nil hlabel
      have hlen := congrArg List.length hrest
      simp only [List.flatMap_cons, List.length_append, List.length_cons, List.length_nil] at hlen
      have hmore : more = [] := List.length_eq_zero_iff.mp (by omega)
      subst hmore
      have hnone : rest = [] := by
        cases rest with
        | nil => rfl
        | cons l rest => grind
      subst hnone
      simp only [List.flatMap_cons, List.flatMap_nil, List.cons_append, List.nil_append,
        List.cons.injEq] at hrest
      rw [STAR, hrest.1]
  rw [hdrop] at hlabels
  exact hlabels

theorem not_isDelegation {delegation : Bool} (h : (delegation && !qtype.is DS) = false)
    (ht : (⟨qtype.code⟩ : Rtype) ≠ DS) :
    delegation = false := by
  have hother : qtype.is DS = false := by
    rw [Qtype.is, beq_eq_false_iff_ne]
    intro hcode
    exact ht (congrArg Rtype.mk hcode)
  rw [hother, Bool.not_false, Bool.and_true] at h
  exact h

theorem matches_of_provesNodata {nsec : Nsec}
    (hkey : canonicalSortKey q = canonicalSortKey nsec.owner)
    (h : provesNodata sha1 q zone t [nsec] [] = .proved) :
    nsec.owner.same q = true ∧ nodataBitmap t nsec.hasType = .proved := by
  cases hmatches : nsec.matches q with
  | true =>
    simp only [provesNodata, List.find?_cons, hmatches] at h
    exact ⟨hmatches, h⟩
  | false =>
    exfalso
    simp only [provesNodata, List.find?_cons, hmatches, List.find?_nil, List.isEmpty_cons,
      Bool.not_false, if_true, nsecWildcardNodata] at h
    cases hcovers : nsec.covers q with
    | false => simp [hcovers] at h
    | true =>
      simp only [hcovers] at h
      cases hstar : Name.prefixed STAR (closestEncloserNsec q nsec) with
      | error e => simp [hstar] at h
      | ok star =>
        simp only [hstar] at h
        cases hat : nsec.matches star with
        | false => simp [hat] at h
        | true =>
          rw [closestEncloserNsec_suffix] at hstar
          have hsame := same_of_sortKey hstar
            ((canonicalSortKey_congr hat).symm.trans hkey.symm)
          have hnsec : nsec.owner.same q = true := by
            rw [same_congr hsame]
            exact hat
          rw [Nsec.matches, hnsec] at hmatches
          cases hmatches

/-- **A NODATA is true of every name.** -/
theorem Holds.noData (h : Holds sha1 origin records denials proofs) (halone : CnameAlone records)
    (hapart : ∀ salt iterations optOut, (salt, iterations, optOut) ∈ denials.nsec3 →
      HashesApart (nameHash sha1 salt iterations) records q)
    (hrrsig : (⟨qtype.code⟩ : Rtype) ≠ RRSIG)
    (hg : proofs.gatherNodata sha1 now q qtype = some g)
    (hproved : provesNodata sha1 q zone ⟨qtype.code⟩ g.nsecs g.nsec3s = .proved) :
    NoData origin records q ⟨qtype.code⟩ := by
  rcases (of_gatherNodata hg).2 with ⟨c, hmatch, hdelegation, hnsecs, hnsec3s⟩ |
    ⟨params, hash, c, hhash, hmatch, hdelegation, hnsecs, hnsec3s⟩
  · obtain ⟨hkey, -, hmem⟩ := h.nsec _ (of_matchingNsec hmatch)
    rw [hnsecs, hnsec3s] at hproved
    obtain ⟨hat, hbitmap⟩ := matches_of_provesNodata hkey hproved
    have hlisted : Listed origin records false q :=
      .inl ((isListedOwner_congr hat).symm.trans (owner_standardChain hmem))
    refine noData_of_types halone hlisted (fun u _ hu => ?_) hrrsig (fun ht => ?_) hbitmap
    · rw [← ownsType_congr hat, ← isCut_congr hat] at hu
      exact (hasType_standardChain hmem u).mpr (mem_standardTypes.mpr (.inl hu))
    · by_contra hcut
      rw [Bool.not_eq_false, ← isCut_congr hat] at hcut
      have hnot := not_isDelegation hdelegation ht
      rw [isDelegation_of_isCut hmem hcut] at hnot
      cases hnot
  · obtain ⟨hin, hparams⟩ := of_matchingNsec3 hmatch
    obtain ⟨hkey, salt, iterations, hdenials, hgenuine⟩ := h.nsec3 _ hin
    obtain ⟨name, hlisted, howner, htypes⟩ := hgenuine.owner
    have hoctets : hash = c.proof.ownerHash := octets_inj hkey
    have hname : hash = nameHash sha1 salt iterations q := by
      rw [← hparams, hgenuine.params, Nsec3Params.hash, if_neg (fun hne => hne rfl)] at hhash
      exact (nsec3HashName_eq_ok.mp hhash).2
    have hsame : name.same q = true := hapart salt iterations false hdenials name q
      (.inl hlisted.isNode) (.inr (.inl (Name.isAtOrUnder_refl q)))
      (howner.symm.trans (hoctets.symm.trans hname))
    have hfound : c.proof.matches sha1 q = .ok true := by
      rw [Nsec3.matches, hparams, hhash]
      show Except.ok (hash == c.proof.ownerHash) = _
      rw [hoctets, beq_self_eq_true]
    rw [hnsecs, hnsec3s] at hproved
    simp only [provesNodata, List.find?_nil, List.find?_cons, hfound, orFalse] at hproved
    refine noData_of_types halone (hlisted.congr hsame) (fun u hu hhas => ?_) hrrsig (fun ht => ?_) hproved
    · rw [← ownsType_congr hsame, ← isCut_congr hsame] at hhas
      exact (htypes u hu).mpr hhas
    · by_contra hcut
      rw [Bool.not_eq_false, ← isCut_congr hsame] at hcut
      have hnot := not_isDelegation hdelegation ht
      rw [isDelegation3_of_isCut htypes hcut] at hnot
      cases hnot

/-! ## No such name -/

/-- **The names of which a cached name error is true**: no DNAME above the name that is not
itself below a cut; with an RFC 4035 chain, neither the name nor the wildcard that would
answer for it is an empty non-terminal; with an NSEC3 chain, there is no such wildcard. -/
structure Deniable (origin : Name) (records : List ZoneRecord) (denials : Denials) (q : Name) : Prop where
  dname : ∀ d, isOccluded origin records d = false → ownsType records d DNAME = true →
    q.isAtOrUnder d = true → q.same d = false → isCut origin records d = true
  ent : denials.nsec = true → isNode records q = true → owns records q = false →
    ∃ star, Name.prefixed STAR q = .ok star ∧ isListedOwner origin records false star = true
  starEnt : denials.nsec = true → isNode records q = false → ∀ encloser star,
    closestEncloser origin records q = some encloser → Name.prefixed ASTERISK encloser = .ok star →
      isNode records star = true → owns records star = true
  starNsec3 : (∃ salt iterations, (salt, iterations, false) ∈ denials.nsec3) →
    isNode records q = false → ∀ encloser star,
    closestEncloser origin records q = some encloser → Name.prefixed ASTERISK encloser = .ok star →
      isNode records star = false

theorem Deniable.isCut {d : Name} (h : Deniable origin records denials q)
    (hd : isOccluder origin records d = true) (hdocc : isOccluded origin records d = false)
    (hqd : q.isAtOrUnder d = true) (hqdne : q.same d = false) : isCut origin records d = true := by
  rw [isOccluder, Bool.or_eq_true] at hd
  exact hd.elim id fun hdname => h.dname d hdocc hdname hqd hqdne

theorem Holds.absent_of_nsecs (h : Holds sha1 origin records denials proofs)
    (hzone : InZone origin records) (hunder : q.isAtOrUnder origin = true)
    (hdeniable : Deniable origin records denials q) {c : CachedProof Nsec}
    (hcovering : proofs.coveringNsec now q = some c) {nsecs : List Nsec}
    (hheld : ∀ nsec ∈ nsecs, ∃ key cached, (key, cached) ∈ proofs.nsecs ∧ cached.proof = nsec)
    (hproved : provesNxdomain sha1 q zone nsecs [] = .proved) : Absent origin records q := by
  obtain ⟨⟨key, hin⟩, hcovers, hbeside⟩ := of_coveringNsec hcovering
  obtain ⟨-, hpublished, hmem⟩ := h.nsec _ hin
  have hocc : isOccluded origin records q = false := by
    by_contra hocc
    rw [Bool.not_eq_false] at hocc
    obtain ⟨d, hd, hdocc, hqd, hqdne, howner⟩ := owner_of_isOccluded hzone hunder hocc hmem hcovers
    have hcut : Zones.isCut origin records c.proof.owner = true :=
      (isCut_congr howner).trans (hdeniable.isCut hd hdocc hqd hqdne)
    rw [isBelowDelegation, isDelegation_of_isCut hmem hcut, isAtOrUnder_congr howner, hqd,
      same_congr howner, hqdne] at hbeside
    cases hbeside
  have hsub : ∀ nsec ∈ nsecs, nsec ∈ standardChain origin records := by
    intro nsec hnsec
    obtain ⟨key', cached, hcached, rfl⟩ := hheld nsec hnsec
    exact (h.nsec _ hcached).2.2
  exact absent_of_standardChain hzone hunder hocc (hdeniable.ent hpublished)
    (hdeniable.starEnt hpublished) hsub hproved

theorem Holds.absent_of_nsec3s (h : Holds sha1 origin records denials proofs)
    (hzone : InZone origin records) (hunder : q.isAtOrUnder origin = true)
    (hzoneName : zone.same origin = true) (hdeniable : Deniable origin records denials q)
    (hapart : ∀ salt iterations optOut, (salt, iterations, optOut) ∈ denials.nsec3 →
      HashesApart (nameHash sha1 salt iterations) records q)
    (hg : proofs.gatherNxdomainUnder sha1 now q zone params = some g) :
    Absent origin records q := by
  have hqzone : q.isAtOrUnder zone = true := (isAtOrUnder_congr hzoneName).trans hunder
  obtain ⟨-, -, k, hash, matching, hash', covering, hk, hlt, hhash, hmatch, hbeside, hhash', hcovering⟩ :=
    of_gatherNxdomainUnder hqzone hg
  obtain ⟨hin, hparams⟩ := of_matchingNsec3 hmatch
  obtain ⟨hkey, salt, iterations, hdenials, hgenuine⟩ := h.nsec3 _ hin
  obtain ⟨encloser, hlisted, howner, htypes⟩ := hgenuine.owner
  have hof : ∀ name value, params.hash sha1 name = .ok value → value = nameHash sha1 salt iterations name := by
    intro name value hvalue
    rw [← hparams, hgenuine.params, Nsec3Params.hash, if_neg (fun hne => hne rfl)] at hvalue
    exact (nsec3HashName_eq_ok.mp hvalue).2
  have hsame : encloser.same (q.suffix k) = true := by
    refine hapart salt iterations false hdenials encloser (q.suffix k) (.inl hlisted.isNode)
      (.inr (.inl (isAtOrUnder_suffix q k))) ?_
    exact howner.symm.trans ((octets_inj hkey).symm.trans (hof _ _ hhash))
  -- the name a label below the encloser is in a span, so it is not listed
  have hnext : ¬ Listed origin records false (q.suffix (k + 1)) := by
    obtain ⟨⟨key, hcoverIn⟩, hcoverParams, hcovers⟩ := of_coveringNsec3 hcovering
    obtain ⟨-, salt', iterations', -, hcoverGenuine⟩ := h.nsec3 _ hcoverIn
    intro hlisted'
    have hbetween := hcoverGenuine.between _ hlisted'
    rw [hcoverGenuine.params] at hcoverParams
    have hsets : (⟨SHA1_HASH_ALGORITHM, iterations', salt'⟩ : Nsec3Params)
        = ⟨SHA1_HASH_ALGORITHM, iterations, salt⟩ :=
      hcoverParams.trans (hparams.symm.trans hgenuine.params)
    cases hsets
    rw [hof _ _ hhash', hbetween] at hcovers
    cases hcovers
  have hunlisted : ∀ a, q.isAtOrUnder a = true → a.isAtOrUnder (q.suffix (k + 1)) = true →
      ¬ Listed origin records false a := by
    intro a _ ha hlisted'
    have hzoneLabels : origin.labelCount ≤ k := by
      have hlabels := congrArg List.length (canonicalLabels_inj.mpr hzoneName)
      rw [length_canonicalLabels, length_canonicalLabels] at hlabels
      omega
    refine hnext (hlisted'.up hzone ha ?_)
    rw [isAtOrUnder_iff_isPrefix, canonicalLabels_suffix,
      List.prefix_iff_eq_take.mp (isAtOrUnder_iff_isPrefix.mp hunder), length_canonicalLabels]
    exact List.take_prefix_take_left (by omega)
  have hocc : isOccluded origin records q = false := by
    by_contra hocc
    rw [Bool.not_eq_false] at hocc
    obtain ⟨d, hd, hdocc, hqd, hqdne⟩ := exists_top_occluder hocc
    have hcut := hdeniable.isCut hd hdocc hqd hqdne
    have hdlisted : Listed origin records false d := .inl (by
      simp [isListedOwner, owns_of_isOccluder hd, hdocc])
    have hencloserOcc : isOccluded origin records (q.suffix k) = false := by
      rw [← isOccluded_congr hsame]
      exact ((listed_iff hzone (hlisted.under hzone)).mp hlisted).2
    -- `d` is on the path, not below the encloser, and the encloser is not below `d`
    have hsuffix := isAtOrUnder_iff_isPrefix.mp (isAtOrUnder_suffix q k)
    have hdprefix := isAtOrUnder_iff_isPrefix.mp hqd
    have hdsame : (q.suffix k).same d = true := by
      rcases List.prefix_or_prefix_of_prefix hdprefix hsuffix with habove | hbelow
      · by_contra hne
        have := not_isOccluder_above hencloserOcc (isAtOrUnder_iff_isPrefix.mpr habove)
          (Bool.not_eq_true _ ▸ hne)
        rw [hd] at this
        cases this
      · by_contra hne
        refine hunlisted d hqd ?_ hdlisted
        rw [isAtOrUnder_iff_isPrefix]
        have hlonger : k + 1 ≤ (canonicalLabels d).length := by
          have hlt' := lt_of_le_of_ne hbelow.length_le fun heq =>
            hne (canonicalLabels_inj.mp (hbelow.eq_of_length heq))
          rw [canonicalLabels_suffix, List.length_take, length_canonicalLabels] at hlt'
          omega
        rw [canonicalLabels_suffix, List.prefix_iff_eq_take.mp hdprefix]
        exact List.take_prefix_take_left hlonger
    have hcut' : Zones.isCut origin records encloser = true := by
      rw [isCut_congr hsame, isCut_congr hdsame]
      exact hcut
    rw [isDelegation3_of_isCut htypes hcut'] at hbeside
    cases hbeside
  have hqnode : isNode records q = false := by
    by_contra hnode
    rw [Bool.not_eq_false] at hnode
    exact hunlisted q (Name.isAtOrUnder_refl q) (isAtOrUnder_suffix q (k + 1))
      ((listed_iff hzone hunder).mpr ⟨hnode, hocc⟩)
  exact absent_of_not_isOccluded hqnode hocc (hdeniable.starNsec3 ⟨salt, iterations, hdenials⟩ hqnode)

/-! ## What is synthesized -/

theorem of_enclosing {entry : Name × ZoneProofs} (h : enclosing zones q = some entry) :
    entry ∈ zones ∧ q.isAtOrUnder entry.1 = true := by
  obtain ⟨hin, hunder⟩ := List.mem_filter.mp (List.mem_reverse.mp (List.maxOn?_mem h))
  exact ⟨hin, hunder⟩

theorem of_synthesize {s : Synthesis} (h : synthesize sha1 zones now q qtype = some s) :
    (⟨qtype.code⟩ : Rtype) ≠ RRSIG ∧ ∃ zoneName proofs g, (zoneName, proofs) ∈ zones ∧
      q.isAtOrUnder zoneName = true ∧ g.proved sha1 q zoneName qtype = true ∧ s.rcode = g.rcode ∧
      (proofs.gatherNodata sha1 now q qtype = some g ∨ proofs.gatherNxdomain sha1 now q zoneName = some g) := by
  rw [synthesize] at h
  split at h
  · cases h
  · rename_i hqtype
    rw [Bool.not_eq_true', Bool.not_eq_false, synthesizableQtype, Bool.and_eq_true] at hqtype
    refine ⟨fun heq => ?_, ?_⟩
    · have hrrsig : qtype.is RRSIG = true := by
        rw [Qtype.is, beq_iff_eq]
        exact congrArg Rtype.code heq
      rw [hrrsig] at hqtype
      exact absurd hqtype.2 (by decide)
    · obtain ⟨⟨zoneName, proofs⟩, henclosing, h⟩ := Option.bind_eq_some_iff.mp h
      obtain ⟨soa, -, h⟩ := Option.bind_eq_some_iff.mp h
      obtain ⟨g, hgathered, h⟩ := Option.bind_eq_some_iff.mp h
      obtain ⟨hin, hunder⟩ := of_enclosing henclosing
      dsimp only at h
      split at h
      · cases h
      · rename_i hproved
        split at h
        · cases h
        · cases h
          rw [Bool.not_eq_true', Bool.not_eq_false] at hproved
          refine ⟨zoneName, proofs, g, hin, hunder, hproved, rfl, ?_⟩
          exact (Option.or_eq_some_iff.mp hgathered).imp_right And.right

theorem Holds.absent (h : Holds sha1 origin records denials proofs) (hzone : InZone origin records)
    (hqzone : q.isAtOrUnder zone = true) (hzoneName : zone.same origin = true)
    (hdeniable : Deniable origin records denials q)
    (hapart : ∀ salt iterations optOut, (salt, iterations, optOut) ∈ denials.nsec3 →
      HashesApart (nameHash sha1 salt iterations) records q)
    (hg : proofs.gatherNxdomain sha1 now q zone = some g)
    (hproved : g.proved sha1 q zone qtype = true) :
    g.rcode = .noSuchDomain ∧ Absent origin records q := by
  have hunder : q.isAtOrUnder origin = true := (isAtOrUnder_congr hzoneName).symm.trans hqzone
  rw [ZoneProofs.gatherNxdomain] at hg
  split at hg
  · rename_i c hcovering
    cases hg
    refine ⟨rfl, ?_⟩
    rw [Gathered.proved, if_pos rfl, beq_iff_eq] at hproved
    refine h.absent_of_nsecs hzone hunder hdeniable hcovering (fun nsec hnsec => ?_) hproved
    obtain ⟨cached, hcached, rfl⟩ := List.mem_map.mp hnsec
    obtain ⟨key, hheld⟩ := (of_withWildcards (of_coveringNsec hcovering).1).2 cached hcached
    exact ⟨key, cached, hheld, rfl⟩
  · split at hg
    · obtain ⟨params, -, hunderParams⟩ := List.exists_of_findSome?_eq_some hg
      exact ⟨(of_gatherNxdomainUnder hqzone hunderParams).1,
        h.absent_of_nsec3s hzone hunder hzoneName hdeniable hapart hunderParams⟩
    · cases hg

/-- **What a cache of genuine records synthesizes**: a name error that is true of every name
it may deny, and a NODATA that is true of every name. -/
theorem synthesized_denial_true {maxZones : Nat} {zones : HeldZones} (hzone : InZone origin records)
    (halone : CnameAlone records) (hrun : Run maxZones (Genuine sha1 origin records denials) zones)
    {now : Nat} {q : Name} {qtype : Qtype} {s : Synthesis}
    (hapart : ∀ salt iterations optOut, (salt, iterations, optOut) ∈ denials.nsec3 →
      HashesApart (nameHash sha1 salt iterations) records q)
    (h : synthesize sha1 zones now q qtype = some s) :
    (s.rcode = .noSuchDomain → Deniable origin records denials q → Absent origin records q) ∧
      (s.rcode ≠ .noSuchDomain → NoData origin records q ⟨qtype.code⟩) := by
  obtain ⟨hrrsig, zoneName, proofs, g, hin, hunder, hproved, hrcode, hg⟩ := of_synthesize h
  obtain ⟨hzoneName, hheld⟩ := hrun.holds _ hin
  rw [hrcode]
  rcases hg with hg | hg
  · have hok := (of_gatherNodata hg).1
    have hno : g.rcode ≠ .noSuchDomain := by
      rw [hok]
      decide
    rw [Gathered.proved, if_neg hno, beq_iff_eq] at hproved
    exact ⟨fun h => absurd h hno, fun _ => hheld.noData halone hapart hrrsig hg hproved⟩
  · constructor
    · intro _ hdeniable
      exact (hheld.absent hzone hunder hzoneName hdeniable hapart hg hproved).2
    · intro hno
      rw [ZoneProofs.gatherNxdomain] at hg
      split at hg
      · cases hg
        exact absurd rfl hno
      · split at hg
        · obtain ⟨params, -, hunderParams⟩ := List.exists_of_findSome?_eq_some hg
          exact absurd (of_gatherNxdomainUnder hunder hunderParams).1 hno
        · cases hg

end Zone

/-! ## A zone of one name -/

def minuteSoa : ZoneRecord :=
  ⟨ex, ⟨300⟩, .IN, ⟨SOA, wireOf [] ++ wireOf [] ++ List.replicate 19 0 ++ [60]⟩⟩

def dnameZone : List ZoneRecord := [minuteSoa, ⟨ex, ⟨300⟩, .IN, ⟨DNAME, wireOf []⟩⟩]

def denialFrom (records : List ZoneRecord) : DnsMessage where
  id := 0
  response := true
  opcode := .query
  authoritive := true
  truncation := false
  recursion := false
  recursionOk := false
  ad := false
  cd := false
  rcode := .noSuchDomain
  queries := []
  answers := []
  authorities := [asRecord minuteSoa,
    ⟨ex, .IN, ⟨60⟩, ⟨NSEC, ex.wire ++ buildTypeBitmap (standardTypes ex records ex)⟩⟩]
  additionals := []
  edns := none

def cachedFrom (records : List ZoneRecord) : HeldZones := insertValidated 1 0 (denialFrom records) []

theorem genuine_denialFrom {records : List ZoneRecord}
    (hnames : ((records.map fun r => r.name.toFolded).filter (isListedOwner ex records false)).dedup = [ex])
    (hfrom : (denialFrom records).authorities.filterMap Nsec.fromRecord
      = [⟨ex, ex, buildTypeBitmap (standardTypes ex records ex)⟩]) :
    Genuine unusedSha1 ex records ⟨true, []⟩ (denialFrom records) where
  soa rr hrr hsoa := by
    rcases List.mem_cons.mp hrr with rfl | hrr
    · rfl
    · cases List.mem_singleton.mp hrr
      cases hsoa
  nsec rr hrr nsec hnsec := by
    have hmem : nsec ∈ (denialFrom records).authorities.filterMap Nsec.fromRecord :=
      List.mem_filterMap.mpr ⟨rr, hrr, hnsec⟩
    rw [hfrom, List.mem_singleton] at hmem
    refine ⟨rfl, ?_⟩
    rw [hmem, standardChain, standardNames, hnames, List.mergeSort_singleton]
    exact List.mem_singleton.mpr rfl
  nsec3 rr hrr nsec3 hnsec3 := by
    rcases List.mem_cons.mp hrr with rfl | hrr
    · cases hnsec3
    · cases List.mem_singleton.mp hrr
      cases hnsec3

theorem run_cachedFrom {records : List ZoneRecord}
    (hgenuine : Genuine unusedSha1 ex records ⟨true, []⟩ (denialFrom records)) :
    Run 1 (Genuine unusedSha1 ex records ⟨true, []⟩) (cachedFrom records) :=
  .insert 0 .empty .nil hgenuine

theorem synthesized_denial_true_soa :
    ∃ s, synthesize unusedSha1 (cachedFrom [minuteSoa]) 1 bEx (.of A) = some s ∧
      s.rcode = .noSuchDomain ∧ Absent ex [minuteSoa] bEx := by
  have hrcode : (synthesize unusedSha1 (cachedFrom [minuteSoa]) 1 bEx (.of A)).map Synthesis.rcode
      = some .noSuchDomain := by
    decide +kernel
  obtain ⟨s, hs, hs'⟩ := Option.map_eq_some_iff.mp hrcode
  have hgenuine := @genuine_denialFrom [minuteSoa] (by decide +kernel) (by decide +kernel)
  refine ⟨s, hs, hs', ?_⟩
  refine (synthesized_denial_true ⟨by decide +kernel, by decide +kernel⟩ ?_ (run_cachedFrom hgenuine)
    (fun _ _ _ h => (by cases h)) hs).1 hs' ⟨?_, ?_, ?_, ?_⟩
  · intro a ha b hb hcname _
    cases List.mem_singleton.mp ha
    cases hcname
  · intro d _ hdname
    obtain ⟨r, hr, hrAt⟩ := List.any_eq_true.mp hdname
    cases List.mem_singleton.mp hr
    rw [Bool.and_eq_true] at hrAt
    exact absurd hrAt.2 (by decide)
  · intro _ hnode
    exact absurd hnode (by decide)
  · intro _ _ encloser star hencloser hstar hnode
    have hex : closestEncloser ex [minuteSoa] bEx = some (bEx.suffix 1) := by decide +kernel
    cases hex.symm.trans hencloser
    have hwild : (Name.prefixed ASTERISK (bEx.suffix 1)).toOption.map (isNode [minuteSoa]) = some false := by
      decide +kernel
    rw [hstar] at hwild
    exact absurd (Option.some.inj hwild) (by rw [hnode]; decide)
  · rintro ⟨salt, iterations, h⟩
    cases h

/-- **Below the DNAME a cached denial is not true**: the NSEC at `ex.` covers `b.ex.`. -/
theorem dnameZone_denied :
    ¬ ∀ (sha1 : Octets → Nsec3Hash) (origin : Name) (records : List ZoneRecord) (denials : Denials)
      (maxZones : Nat) (zones : HeldZones) (now : Nat) (q : Name) (qtype : Qtype) (s : Synthesis),
      InZone origin records → CnameAlone records →
      Run maxZones (Genuine sha1 origin records denials) zones →
      (∀ salt iterations optOut, (salt, iterations, optOut) ∈ denials.nsec3 →
        HashesApart (nameHash sha1 salt iterations) records q) →
      synthesize sha1 zones now q qtype = some s →
      (s.rcode = .noSuchDomain → Absent origin records q) ∧
        (s.rcode ≠ .noSuchDomain → NoData origin records q ⟨qtype.code⟩) := by
  intro h
  have hrcode : (synthesize unusedSha1 (cachedFrom dnameZone) 1 bEx (.of A)).map Synthesis.rcode
      = some .noSuchDomain := by
    decide +kernel
  obtain ⟨s, hs, hs'⟩ := Option.map_eq_some_iff.mp hrcode
  have hgenuine := @genuine_denialFrom dnameZone (by decide +kernel) (by decide +kernel)
  have habsent := (h _ ex dnameZone _ _ _ _ _ _ s ⟨by decide +kernel, by decide +kernel⟩
    (by unfold CnameAlone; decide +kernel) (run_cachedFrom hgenuine) (fun _ _ _ h => (by cases h)) hs).1 hs'
  have hdname := habsent.noDname ex (by decide) (by decide)
  revert hdname
  decide +kernel

end Rdns.Resolver
