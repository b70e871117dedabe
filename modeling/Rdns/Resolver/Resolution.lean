import Rdns.Dnssec.ChainOfTrust
import Rdns.Resolver.NsecCache

/-!
# Rdns — The state of one resolution, and the keys all of them share

`Resolution` of `rdns/src/resolver.rs`: the budget of one client query, the parent's side of
each zone cut it crossed, the denials earlier hops carried, and the zones it started from on
the strength of their cached keys. `KeyCache` of `rdns/src/resolver/caches.rs` is shared by
every resolution; one mutex guards it, so a call is one step.
-/

namespace Rdns.Resolver

open Rdns.Lib Rdns.Core Rdns.Dnssec RecordTypes

/-! ## One client query -/

structure Resolution where
  remaining : Nat
  cuts : List DelegationEvidence
  denials : List ResourceRecord
  trusted : List TrustedStart

namespace Resolution

def new (budget : Nat) : Resolution := ⟨budget, [], [], []⟩

def spend (state : Resolution) : Option Resolution :=
  match state.remaining with
  | 0 => none
  | left + 1 => some { state with remaining := left }

def recordTrustedStart (state : Resolution) (zone : Name) (keys : List Dnskey) : Resolution :=
  { state with trusted := state.trusted ++ [⟨zone, keys⟩] }

def recordDenials (state : Resolution) (authorities : List ResourceRecord) : Resolution :=
  { state with
    denials := state.denials ++ authorities.filter fun rr =>
      rr.rdata.rtype == NSEC || rr.rdata.rtype == NSEC3 ||
        rr.rdata.rtype == RRSIG }

/-- Remember what a referral to `zone` said about that zone's security: the first sighting
that carried evidence is kept. -/
def recordCut (state : Resolution) (zone : Name) (authorities : List ResourceRecord) : Resolution :=
  let evidence := DelegationEvidence.fromAuthority zone authorities
  if state.cuts.any fun c => c.zone.same evidence.zone then
    { state with
      cuts := updateFirst (fun c => c.zone.same evidence.zone)
        (fun existing =>
          if existing.ds.isEmpty && existing.nsecs.isEmpty && existing.nsec3s.isEmpty then evidence
          else existing) state.cuts }
  else { state with cuts := state.cuts ++ [evidence] }

@[simp] theorem recordCut_trusted (state : Resolution) (zone : Name) (authorities : List ResourceRecord) :
    (state.recordCut zone authorities).trusted = state.trusted := by
  rw [recordCut]
  split <;> rfl

@[simp] theorem recordCut_remaining (state : Resolution) (zone : Name) (authorities : List ResourceRecord) :
    (state.recordCut zone authorities).remaining = state.remaining := by
  rw [recordCut]
  split <;> rfl

def nextCutBelow (state : Resolution) (zone target : Name) : Option DelegationEvidence :=
  (state.cuts.filter fun c =>
    !c.zone.same zone && c.zone.isAtOrUnder zone && target.isAtOrUnder c.zone).minOn? fun c =>
      c.zone.labelCount

theorem of_nextCutBelow {state : Resolution} {zone target : Name} {evidence : DelegationEvidence}
    (h : state.nextCutBelow zone target = some evidence) :
    evidence ∈ state.cuts ∧ evidence.zone.same zone = false ∧ evidence.zone.isAtOrUnder zone = true ∧
      target.isAtOrUnder evidence.zone = true := by
  obtain ⟨hmem, hkept⟩ := List.mem_filter.mp (List.minOn?_mem h)
  rw [Bool.and_eq_true, Bool.and_eq_true, Bool.not_eq_true'] at hkept
  exact ⟨hmem, hkept.1.1, hkept.1.2, hkept.2⟩

theorem mem_updateFirst {α : Type} {p : α → Bool} {f : α → α} {xs : List α} {x : α}
    (h : x ∈ updateFirst p f xs) : x ∈ xs ∨ ∃ y ∈ xs, x = f y := by
  induction xs with
  | nil => exact .inl h
  | cons first rest ih =>
    rw [updateFirst] at h
    split at h
    · rcases List.mem_cons.mp h with rfl | h
      · exact .inr ⟨first, List.mem_cons_self, rfl⟩
      · exact .inl (List.mem_cons_of_mem _ h)
    · rcases List.mem_cons.mp h with rfl | h
      · exact .inl List.mem_cons_self
      · rcases ih h with h | ⟨y, hy, rfl⟩
        · exact .inl (List.mem_cons_of_mem _ h)
        · exact .inr ⟨y, List.mem_cons_of_mem _ hy, rfl⟩

theorem of_mem_recordCut {state : Resolution} {zone : Name} {authorities : List ResourceRecord}
    {evidence : DelegationEvidence} (h : evidence ∈ (state.recordCut zone authorities).cuts) :
    evidence ∈ state.cuts ∨ evidence = .fromAuthority zone authorities := by
  rw [recordCut] at h
  split at h
  · grind [mem_updateFirst]
  · exact (List.mem_append.mp h).imp_right List.mem_singleton.mp

end Resolution

/-! ## Validated keys -/

structure CachedKeys where
  keys : List Dnskey
  expiresAt : Deadline

def MAX_KEY_TTL : Nat := 86400

structure KeyCache where
  entries : Entries Name CachedKeys
  capacity : Nat

namespace KeyCache

def get (c : KeyCache) (now : Nat) (zone : Name) : Option (List Dnskey) × KeyCache :=
  match c.entries.get zone.toFolded with
  | none => (none, c)
  | some entry =>
    if entry.expiresAt.isLive now then (some entry.keys, c)
    else (none, { c with entries := c.entries.remove zone.toFolded })

def makeRoom (c : KeyCache) (now : Nat) : KeyCache :=
  let live := c.entries.filter fun e => e.2.expiresAt.isLive now
  match Halving.plan (live.map fun e => e.2.expiresAt.unixSecs) (c.capacity / 2) with
  | none => { c with entries := live }
  | some plan => { c with entries := plan.retain (fun e => e.2.expiresAt.unixSecs) live }

def insert (c : KeyCache) (now : Nat) (zone : Name) (keys : List Dnskey) (ttl : Nat) : KeyCache :=
  if c.capacity = 0 ∨ keys.isEmpty ∨ ttl = 0 then c
  else
    let c := if c.entries.length ≥ c.capacity then c.makeRoom now else c
    { c with entries := c.entries.insert zone.toFolded ⟨keys, .after now (min ttl MAX_KEY_TTL)⟩ }

def forgetAtOrBelow (c : KeyCache) (node : Name) : KeyCache :=
  { c with entries := c.entries.filter fun e => !e.1.isAtOrUnder node }

end KeyCache

end Rdns.Resolver
