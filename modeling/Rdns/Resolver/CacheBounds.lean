import Rdns.Resolver.NegativeCache
import Rdns.Resolver.Hints
import Rdns.Resolver.NsecCacheLaws

/-!
# Rdns — Halving a full cache

`rdns/src/eviction.rs` plans a pass before anything goes: the rank that is the boundary, and how
many entries on it may stay. The plan is then used up over one map after another. The caches of
`cache.rs`, `negative_cache.rs` and `resolver/caches.rs` make room with it before they insert.
-/

namespace Rdns.Resolver

open Rdns.Lib Rdns.Core Rdns.Dnssec

namespace Halving

variable {α : Type} (rank : α → Nat)

/-! ## Keeping -/

def keep (plan : Halving) (expiresAt : Nat) : Bool × Halving :=
  if expiresAt > plan.cutoff then (true, plan)
  else if expiresAt = plan.cutoff ∧ plan.tiesToKeep > 0 then (true, { plan with tiesToKeep := plan.tiesToKeep - 1 })
  else (false, plan)

def pass : Halving → List α → List (α × Bool) × Halving
  | plan, [] => ([], plan)
  | plan, entry :: rest =>
    let (kept, plan) := plan.keep (rank entry)
    let (said, plan) := pass plan rest
    ((entry, kept) :: said, plan)

def passes : Halving → List (List α) → List (List (α × Bool))
  | _, [] => []
  | plan, map :: rest =>
    let (said, plan) := plan.pass rank map
    said :: passes plan rest

variable {rank}

theorem pass_append (plan : Halving) (a b : List α) :
    plan.pass rank (a ++ b) =
      ((plan.pass rank a).1 ++ ((plan.pass rank a).2.pass rank b).1, ((plan.pass rank a).2.pass rank b).2) := by
  induction a generalizing plan with
  | nil => rfl
  | cons entry a ih => simp only [List.cons_append, pass, ih]

theorem flatten_passes (plan : Halving) (maps : List (List α)) :
    (plan.passes rank maps).flatten = (plan.pass rank maps.flatten).1 := by
  induction maps generalizing plan with
  | nil => rfl
  | cons map maps ih => simp only [passes, List.flatten_cons, ih, pass_append]

theorem entries_pass (plan : Halving) (entries : List α) : (plan.pass rank entries).1.map Prod.fst = entries := by
  induction entries generalizing plan with
  | nil => rfl
  | cons entry entries ih => simp only [pass, List.map_cons, ih]

theorem entries_passes (plan : Halving) (maps : List (List α)) :
    ((plan.passes rank maps).map fun said => said.map Prod.fst) = maps := by
  induction maps generalizing plan with
  | nil => rfl
  | cons map maps ih => simp only [passes, List.map_cons, entries_pass, ih]

theorem retain_eq (plan : Halving) (entries : List α) :
    plan.retain rank entries = ((plan.pass rank entries).1.filter Prod.snd).map Prod.fst := by
  induction entries generalizing plan with
  | nil => rfl
  | cons entry entries ih =>
    rw [retain, pass, keep]
    split
    · simp [ih]
    · split <;> simp [ih]

theorem length_pass (plan : Halving) (entries : List α) :
    ((plan.pass rank entries).1.filter Prod.snd).length =
      entries.countP (fun e => plan.cutoff < rank e) + min plan.tiesToKeep (entries.countP fun e => rank e = plan.cutoff) := by
  induction entries generalizing plan with
  | nil => simp [pass]
  | cons entry entries ih =>
    rw [pass, keep, List.countP_cons, List.countP_cons]
    by_cases habove : rank entry > plan.cutoff
    · have hne : rank entry ≠ plan.cutoff := Nat.ne_of_gt habove
      simp only [if_pos habove, List.filter_cons, if_true, List.length_cons, ih, decide_eq_true_eq, hne, if_false]
      omega
    · by_cases htie : rank entry = plan.cutoff ∧ plan.tiesToKeep > 0
      · rw [if_neg habove, if_pos htie]
        simp only [List.filter_cons, if_true, List.length_cons, ih, decide_eq_true_eq, htie.1, Nat.lt_irrefl, if_false]
        omega
      · simp only [if_neg habove, if_neg htie, List.filter_cons, Bool.false_eq_true, if_false, ih, decide_eq_true_eq]
        split <;> omega

variable {entries : List α}

theorem rank_le_of_pass {plan : Halving} {entry : α} {kept : Bool}
    (h : (entry, kept) ∈ (plan.pass rank entries).1) :
    if kept then plan.cutoff ≤ rank entry else rank entry ≤ plan.cutoff := by
  induction entries generalizing plan with
  | nil => cases h
  | cons first rest ih =>
    rw [pass] at h
    have hcutoff : (plan.keep (rank first)).2.cutoff = plan.cutoff := by
      unfold keep
      split
      · rfl
      · split <;> rfl
    rcases List.mem_cons.mp h with heq | hrest
    · obtain ⟨rfl, rfl⟩ := Prod.mk.inj heq
      unfold keep
      split
      · simp only [if_true]
        omega
      · split
        · simp only [if_true]
          omega
        · simp only [Bool.false_eq_true, if_false]
          omega
    · exact hcutoff ▸ ih hrest

/-! ## Planning -/

variable {target : Nat}

theorem plan_eq_none_iff {expiries : List Nat} :
    plan expiries target = none ↔ expiries.length ≤ target := by
  unfold plan
  split
  next hle => simpa using hle
  next hgt => split <;> simpa using hgt

theorem count_cutoff {expiries : List Nat} {cutoff : Nat} (hpos : 0 < target)
    (hlt : target < expiries.length)
    (hcutoff : (expiries.mergeSort (· ≤ ·)).getD (expiries.length - target) 0 = cutoff) :
    expiries.countP (fun e => cutoff < e) ≤ target ∧
      target ≤ expiries.countP (fun e => cutoff < e) + expiries.countP fun e => e = cutoff := by
  have hperm := List.mergeSort_perm expiries (· ≤ ·)
  have hsorted : (expiries.mergeSort (· ≤ ·)).Pairwise fun a b => decide (a ≤ b) = true :=
    List.pairwise_mergeSort (by simp; omega) (by simp; omega) expiries
  rw [← hperm.countP_eq, ← hperm.countP_eq (fun e => decide (e = cutoff))]
  have hlen := hperm.length_eq
  generalize expiries.mergeSort (· ≤ ·) = sorted at *
  have hat : expiries.length - target < sorted.length := by omega
  have hsplit : sorted = sorted.take (expiries.length - target) ++ sorted.drop (expiries.length - target) :=
    (List.take_append_drop _ _).symm
  rw [List.getD_eq_getElem?_getD, List.getElem?_eq_getElem hat, Option.getD_some] at hcutoff
  rw [List.drop_eq_getElem_cons hat, hcutoff] at hsplit
  have hdrop : (sorted.drop (expiries.length - target + 1)).length + 1 = target := by
    rw [List.length_drop]
    omega
  generalize sorted.drop (expiries.length - target + 1) = after at *
  generalize sorted.take (expiries.length - target) = before at *
  subst hsplit
  obtain ⟨-, hafter, hbefore⟩ := List.pairwise_append.mp hsorted
  obtain ⟨hrest, -⟩ := List.pairwise_cons.mp hafter
  have hnone : before.countP (fun e => cutoff < e) = 0 := by
    rw [List.countP_eq_zero]
    intro e he
    have hle := of_decide_eq_true (hbefore e he cutoff List.mem_cons_self)
    simpa using hle
  have hall : ∀ rest : List Nat, (∀ e ∈ rest, decide (cutoff ≤ e) = true) →
      rest.countP (fun e => cutoff < e) + rest.countP (fun e => e = cutoff) = rest.length := by
    intro rest hrest
    induction rest with
    | nil => rfl
    | cons e rest ih =>
      have hle := of_decide_eq_true (hrest e List.mem_cons_self)
      have ih := ih fun x hx => hrest x (List.mem_cons_of_mem _ hx)
      simp only [List.countP_cons, List.length_cons, decide_eq_true_eq]
      split <;> split <;> omega
  have hall := hall after hrest
  simp only [List.countP_append, List.countP_cons, hnone, Nat.lt_irrefl, decide_false, decide_true, if_true,
    Bool.false_eq_true, if_false]
  omega

/-- What a plan keeps of entries of these ranks, in whatever order and maps it meets them. -/
structure KeepsTheBest (rank : α → Nat) (target : Nat) (said : List (α × Bool)) : Prop where
  exactly : (said.filter Prod.snd).length = target
  best : ∀ dropped kept, (dropped, false) ∈ said → (kept, true) ∈ said → rank dropped ≤ rank kept

/-- **A plan keeps as many as it is to, and the best.** -/
theorem keepsTheBest_of_plan {ranks : List Nat} {halving : Halving}
    (hranks : ∀ r ∈ ranks, r ≤ MAX_SECS) (hplan : plan ranks target = some halving)
    (hperm : (entries.map rank).Perm ranks) :
    KeepsTheBest rank target (halving.pass rank entries).1 := by
  constructor
  · have habove : entries.countP (fun e => halving.cutoff < rank e) = ranks.countP (fun r => halving.cutoff < r) := by
      rw [← hperm.countP_eq, List.countP_map]
      rfl
    have hties : entries.countP (fun e => rank e = halving.cutoff) = ranks.countP (fun r => r = halving.cutoff) := by
      rw [← hperm.countP_eq, List.countP_map]
      rfl
    rw [length_pass, habove, hties]
    unfold plan at hplan
    split at hplan
    next => cases hplan
    next hlt =>
      split at hplan
      next hzero =>
        obtain rfl := Option.some.inj hplan
        have hnone : ranks.countP (fun r => MAX_SECS < r) = 0 := by
          rw [List.countP_eq_zero]
          intro r hr
          simpa using hranks r hr
        simp [hnone, hzero]
      next hpos =>
        obtain rfl := Option.some.inj hplan
        obtain ⟨hfew, hmany⟩ := count_cutoff (Nat.pos_of_ne_zero hpos) (Nat.not_le.mp hlt) rfl
        simp only [gt_iff_lt, ← List.countP_eq_length_filter]
        omega
  · intro dropped kept hdropped hkept
    have hlow := rank_le_of_pass hdropped
    have hhigh := rank_le_of_pass hkept
    simp only [Bool.false_eq_true, if_false, if_true] at hlow hhigh
    omega

theorem length_retain {halving : Halving} (hranks : ∀ e ∈ entries, rank e ≤ MAX_SECS)
    (hplan : plan (entries.map rank) target = some halving) :
    (halving.retain rank entries).length = target := by
  rw [retain_eq, List.length_map]
  exact (keepsTheBest_of_plan (List.forall_mem_map.mpr hranks) hplan (List.Perm.refl _)).exactly

end Halving

/-! ## A bounded table -/

/-- No more entries than the limit, and every rank a number of the source's. -/
structure Within {β : Type} (limit : Nat) (rank : β → Nat) (entries : List β) : Prop where
  length : entries.length ≤ limit
  ranks : ∀ e ∈ entries, rank e ≤ MAX_SECS

section

variable {κ β : Type} [DecidableEq κ] {limit now : Nat} {rank : κ × β → Nat} {entries : Entries κ β}

theorem ranks_insert {key : κ} {value : β} (h : ∀ e ∈ entries, rank e ≤ MAX_SECS) (hvalue : rank (key, value) ≤ MAX_SECS) :
    ∀ e ∈ entries.insert key value, rank e ≤ MAX_SECS := by
  intro e he
  rcases List.mem_cons.mp he with rfl | he
  · exact hvalue
  · exact h e (List.mem_filter.mp he).1

end

section

variable {β : Type} {limit : Nat} {rank : β → Nat} {entries : List β}

def halve (rank : β → Nat) (capacity : Nat) (entries : List β) : List β :=
  match Halving.plan (entries.map rank) (capacity / 2) with
  | none => entries
  | some halving => halving.retain rank entries

theorem mem_of_halve {entry : β} (h : entry ∈ halve rank limit entries) : entry ∈ entries := by
  unfold halve at h
  split at h
  · exact h
  · exact mem_retain h

theorem length_halve (hranks : ∀ e ∈ entries, rank e ≤ MAX_SECS) : (halve rank limit entries).length ≤ limit / 2 := by
  unfold halve
  split
  next hnone => simpa using Halving.plan_eq_none_iff.mp hnone
  next halving hsome => exact Nat.le_of_eq (Halving.length_retain hranks hsome)

end

theorem Within.inserted {κ β : Type} [DecidableEq κ] {limit : Nat} {rank : κ × β → Nat} {entries : Entries κ β} {key : κ}
    {value : β} (kept : κ × β → Bool) (h : Within limit rank entries) (hlimit : limit ≠ 0)
    (hvalue : rank (key, value) ≤ MAX_SECS) :
    Within limit rank (Entries.insert
      (if entries.length ≥ limit then halve rank limit (entries.filter kept) else entries) key value) := by
  have husable : ∀ e ∈ entries.filter kept, rank e ≤ MAX_SECS := fun e he => h.ranks e (List.mem_filter.mp he).1
  split
  · have hhalf : (halve rank limit (entries.filter kept)).length ≤ limit / 2 := length_halve husable
    have hinsert := Entries.length_insert_le (halve rank limit (entries.filter kept)) key value
    exact ⟨by omega, ranks_insert (fun e he => husable e (mem_of_halve he)) hvalue⟩
  · have hinsert := Entries.length_insert_le entries key value
    exact ⟨by omega, ranks_insert h.ranks hvalue⟩

/-! ## The caches -/

def expiry {κ β : Type} (deadline : β → Deadline) (e : κ × β) : Nat := (deadline e.2).unixSecs

theorem after_le (now secs : Nat) : (Deadline.after now secs).unixSecs ≤ MAX_SECS := Nat.min_le_right _ _

def DnsCache.Inserts (c c' : DnsCache) : Prop :=
  ∃ now name qtype records outcome, c' = c.putValidated now name qtype records outcome

def NegativeCache.Inserts (c c' : NegativeCache) : Prop :=
  ∃ now qname qtype response outcome, c' = c.insert now qname qtype response outcome

def DelegationCache.Inserts (c c' : DelegationCache) : Prop :=
  ∃ now zone servers nsNames ttl, c' = c.insert now zone servers nsNames ttl

def KeyCache.Inserts (c c' : KeyCache) : Prop := ∃ now zone keys ttl, c' = c.insert now zone keys ttl

section

variable {limit : Nat}

def DnsCache.Bounded (limit : Nat) (c : DnsCache) : Prop :=
  c.maxEntries = limit ∧ Within limit (expiry CacheEntry.expiresAt) c.cache

def DelegationCache.Bounded (limit : Nat) (c : DelegationCache) : Prop :=
  c.capacity = limit ∧ Within limit (expiry CachedDelegation.expiresAt) c.entries

def KeyCache.Bounded (limit : Nat) (c : KeyCache) : Prop :=
  c.capacity = limit ∧ Within limit (expiry CachedKeys.expiresAt) c.entries

structure NegativeCache.Bounded (limit : Nat) (c : NegativeCache) : Prop where
  limit_eq : c.maxEntries = limit
  length : c.len ≤ limit
  nxdomain : ∀ e ∈ c.nxdomain, expiry NegativeEntry.expiresAt e ≤ MAX_SECS
  nodata : ∀ e ∈ c.nodata, expiry NegativeEntry.expiresAt e ≤ MAX_SECS

theorem DnsCache.room_eq (c : DnsCache) (now : Nat) :
    (if c.cache.length ≥ c.maxEntries then c.evictOldest now else c) = { c with
      cache := if c.cache.length ≥ c.maxEntries then halve (expiry CacheEntry.expiresAt) c.maxEntries
        (c.cache.filter fun e => c.stale.keeps e.2.expiresAt now) else c.cache } := by
  split
  · unfold evictOldest halve expiry
    dsimp only
    generalize Halving.plan _ _ = plan
    cases plan <;> rfl
  · rfl

theorem DelegationCache.room_eq (c : DelegationCache) (now : Nat) :
    (if c.entries.length ≥ c.capacity then c.makeRoom now else c) = { c with
      entries := if c.entries.length ≥ c.capacity then halve (expiry CachedDelegation.expiresAt) c.capacity
        (c.entries.filter fun e => e.2.expiresAt.isLive now) else c.entries } := by
  split
  · unfold makeRoom halve expiry
    dsimp only
    generalize Halving.plan _ _ = plan
    cases plan <;> rfl
  · rfl

theorem KeyCache.room_eq (c : KeyCache) (now : Nat) :
    (if c.entries.length ≥ c.capacity then c.makeRoom now else c) = { c with
      entries := if c.entries.length ≥ c.capacity then halve (expiry CachedKeys.expiresAt) c.capacity
        (c.entries.filter fun e => e.2.expiresAt.isLive now) else c.entries } := by
  split
  · unfold makeRoom halve expiry
    dsimp only
    generalize Halving.plan _ _ = plan
    cases plan <;> rfl
  · rfl

theorem DnsCache.Bounded.inserts {c c' : DnsCache} (h : c.Bounded limit) (hinserts : c.Inserts c') : c'.Bounded limit := by
  obtain ⟨now, name, qtype, records, outcome, rfl⟩ := hinserts
  obtain ⟨rfl, hwithin⟩ := h
  unfold putValidated
  split
  · exact ⟨rfl, hwithin⟩
  · rename_i hskip
    rw [room_eq]
    exact ⟨rfl, hwithin.inserted _ (not_or.mp hskip).2 (after_le _ _)⟩

theorem DelegationCache.Bounded.inserts {c c' : DelegationCache} (h : c.Bounded limit) (hinserts : c.Inserts c') :
    c'.Bounded limit := by
  obtain ⟨now, zone, servers, nsNames, ttl, rfl⟩ := hinserts
  obtain ⟨rfl, hwithin⟩ := h
  unfold insert
  split
  · exact ⟨rfl, hwithin⟩
  · rename_i hskip
    rw [room_eq]
    exact ⟨rfl, hwithin.inserted _ (not_or.mp (not_or.mp hskip).2).2 (after_le _ _)⟩

theorem KeyCache.Bounded.inserts {c c' : KeyCache} (h : c.Bounded limit) (hinserts : c.Inserts c') : c'.Bounded limit := by
  obtain ⟨now, zone, keys, ttl, rfl⟩ := hinserts
  obtain ⟨rfl, hwithin⟩ := h
  unfold insert
  split
  · exact ⟨rfl, hwithin⟩
  · rename_i hskip
    rw [room_eq]
    exact ⟨rfl, hwithin.inserted _ (not_or.mp hskip).1 (after_le _ _)⟩

theorem length_kinds {α β : Type} (kept : List (α ⊕ β)) :
    (kept.filterMap Sum.getLeft?).length + (kept.filterMap Sum.getRight?).length = kept.length := by
  induction kept with
  | nil => rfl
  | cons e kept ih => cases e <;> simp [List.filterMap_cons] <;> omega

variable {c : NegativeCache}

theorem NegativeCache.Bounded.makeRoom (h : c.Bounded limit) (now : Nat) (hlimit : limit ≠ 0)
    (hfull : c.len ≥ limit) : (c.makeRoom now).Bounded limit ∧ (c.makeRoom now).len < limit := by
  obtain ⟨rfl, hlength, hnxdomain, hnodata⟩ := h
  have hnx : ∀ e ∈ c.nxdomain.filter fun e => c.stale.keeps e.2.expiresAt now,
      expiry NegativeEntry.expiresAt e ≤ MAX_SECS := fun e he => hnxdomain e (List.mem_filter.mp he).1
  have hno : ∀ e ∈ c.nodata.filter fun e => c.stale.keeps e.2.expiresAt now,
      expiry NegativeEntry.expiresAt e ≤ MAX_SECS := fun e he => hnodata e (List.mem_filter.mp he).1
  unfold NegativeCache.makeRoom
  dsimp only
  split
  next hfreed =>
    have hlt := Nat.lt_of_lt_of_le hfreed hlength
    exact ⟨⟨rfl, Nat.le_of_lt hlt, hnx, hno⟩, hlt⟩
  next hstuck =>
    have hranks : ∀ e ∈ (c.nxdomain.filter fun e => c.stale.keeps e.2.expiresAt now).map Sum.inl ++
        (c.nodata.filter fun e => c.stale.keeps e.2.expiresAt now).map Sum.inr,
        Sum.elim (expiry NegativeEntry.expiresAt) (expiry NegativeEntry.expiresAt) e ≤ MAX_SECS := by
      intro e he
      rcases List.mem_append.mp he with he | he
      · obtain ⟨held, hheld, rfl⟩ := List.mem_map.mp he
        exact hnx held hheld
      · obtain ⟨held, hheld, rfl⟩ := List.mem_map.mp he
        exact hno held hheld
    split
    next hnone =>
      have hhalf := Halving.plan_eq_none_iff.mp hnone
      simp only [List.length_map, List.length_append] at hhalf
      have hlt : (⟨_, _, c.maxEntries, c.stale⟩ : NegativeCache).len < c.maxEntries :=
        Nat.lt_of_le_of_lt hhalf (by omega)
      exact ⟨⟨rfl, Nat.le_of_lt hlt, hnx, hno⟩, hlt⟩
    next halving hsome =>
      have hhalf := Halving.length_retain hranks hsome
      have hkinds := length_kinds (halving.retain
        (Sum.elim (expiry NegativeEntry.expiresAt) (expiry NegativeEntry.expiresAt))
        ((c.nxdomain.filter fun e => c.stale.keeps e.2.expiresAt now).map Sum.inl ++
          (c.nodata.filter fun e => c.stale.keeps e.2.expiresAt now).map Sum.inr))
      have hlt : (⟨_, _, c.maxEntries, c.stale⟩ : NegativeCache).len < c.maxEntries :=
        Nat.lt_of_le_of_lt (hkinds.trans hhalf).le (by omega)
      refine ⟨⟨rfl, Nat.le_of_lt hlt, fun e he => ?_, fun e he => ?_⟩, hlt⟩
      · obtain ⟨kind, hkind, hleft⟩ := List.mem_filterMap.mp he
        obtain rfl := Sum.getLeft?_eq_some_iff.mp hleft
        exact hranks _ (mem_retain hkind)
      · obtain ⟨kind, hkind, hright⟩ := List.mem_filterMap.mp he
        obtain rfl := Sum.getRight?_eq_some_iff.mp hright
        exact hranks _ (mem_retain hkind)

theorem NegativeCache.Bounded.room {γ : Type} (h : c.Bounded limit) (now : Nat) (hlimit : limit ≠ 0)
    (held : Option γ) :
    let left := if held.isNone ∧ c.len ≥ c.maxEntries then c.makeRoom now else c
    left.Bounded limit ∧ (held.isSome = true ∧ left = c ∨ left.len < limit) := by
  dsimp only
  split
  next hfull =>
    obtain ⟨hbounded, hlt⟩ := h.makeRoom now hlimit (h.limit_eq ▸ hfull.2)
    exact ⟨hbounded, .inr hlt⟩
  next hroom =>
    cases held with
    | some value => exact ⟨h, .inl ⟨rfl, rfl⟩⟩
    | none =>
      have hmax := h.limit_eq
      exact ⟨h, .inr (by simp only [Option.isNone_none, true_and] at hroom; omega)⟩

theorem NegativeCache.Bounded.inserts {c' : NegativeCache} (h : c.Bounded limit)
    (hinserts : c.Inserts c') :
    c'.Bounded limit := by
  obtain ⟨now, qname, qtype, response, outcome, rfl⟩ := hinserts
  unfold insert
  split
  · exact h
  rename_i hskip
  split
  · exact h
  split
  · exact h
  next ttl httl =>
  have hlimit : limit ≠ 0 := h.limit_eq ▸ (not_or.mp hskip).1
  dsimp only
  split
  · obtain ⟨hbounded, hplace⟩ := h.room now hlimit (c.nxdomain.get qname.toFolded)
    generalize (if (c.nxdomain.get qname.toFolded).isNone ∧ c.len ≥ c.maxEntries then c.makeRoom now else c) = left at *
    refine ⟨hbounded.limit_eq, ?_, ranks_insert hbounded.nxdomain (after_le _ _), hbounded.nodata⟩
    have hlength := hbounded.length
    dsimp only [len] at hlength hplace ⊢
    rcases hplace with ⟨hheld, rfl⟩ | hlt
    · exact (Nat.add_le_add_right (Entries.length_insert_held _ hheld) _).trans hlength
    · exact (Nat.add_le_add_right (Entries.length_insert_le _ _ _) _).trans (by omega)
  · obtain ⟨hbounded, hplace⟩ := h.room now hlimit (c.nodata.get (nameTypeKey qname qtype))
    generalize (if (c.nodata.get (nameTypeKey qname qtype)).isNone ∧ c.len ≥ c.maxEntries then c.makeRoom now else c) =
      left at *
    refine ⟨hbounded.limit_eq, ?_, hbounded.nxdomain, ranks_insert hbounded.nodata (after_le _ _)⟩
    have hlength := hbounded.length
    dsimp only [len] at hlength hplace ⊢
    rcases hplace with ⟨hheld, rfl⟩ | hlt
    · exact (Nat.add_le_add_left (Entries.length_insert_held _ hheld) _).trans hlength
    · exact (Nat.add_le_add_left (Entries.length_insert_le _ _ _) _).trans (by omega)

end

theorem of_runs {σ : Type} {Step : σ → σ → Prop} {P : σ → Prop} (hstep : ∀ {a b}, P a → Step a b → P b) {start c : σ}
    (hruns : Relation.ReflTransGen Step start c) (hstart : P start) : P c := by
  induction hruns with
  | refl => exact hstart
  | tail _ hlast ih => exact hstep ih hlast

theorem within_nil {β : Type} (limit : Nat) (rank : β → Nat) : Within limit rank [] := ⟨Nat.zero_le _, fun _ h => by cases h⟩

/-- **Halving keeps exactly the best, and no cache outgrows its limit.** -/
theorem halving_bounds {α : Type} (rank : α → UInt64) (ranks : List UInt64) (target limit : Nat) (stale : StalePolicy) :
    (Halving.plan (ranks.map UInt64.toNat) target = none ↔ ranks.length ≤ target) ∧
    (∀ (halving : Halving) (maps : List (List α)), Halving.plan (ranks.map UInt64.toNat) target = some halving →
      (maps.flatten.map rank).Perm ranks →
      ((halving.passes (fun e => (rank e).toNat) maps).map fun said => said.map Prod.fst) = maps ∧
      Halving.KeepsTheBest (fun e => (rank e).toNat) target (halving.passes (fun e => (rank e).toNat) maps).flatten) ∧
    (∀ c, Relation.ReflTransGen DnsCache.Inserts ⟨[], limit, stale⟩ c → c.cache.length ≤ limit) ∧
    (∀ c, Relation.ReflTransGen NegativeCache.Inserts ⟨[], [], limit, stale⟩ c → c.len ≤ limit) ∧
    (∀ c, Relation.ReflTransGen DelegationCache.Inserts ⟨[], limit⟩ c → c.entries.length ≤ limit) ∧
    ∀ c, Relation.ReflTransGen KeyCache.Inserts ⟨[], limit⟩ c → c.entries.length ≤ limit := by
  refine ⟨?_, fun halving maps hplan hperm => ⟨?_, ?_⟩, fun c hruns => ?_, fun c hruns => ?_, fun c hruns => ?_,
    fun c hruns => ?_⟩
  · rw [Halving.plan_eq_none_iff, List.length_map]
  · exact Halving.entries_passes halving maps
  · have hranks : ∀ r ∈ ranks.map UInt64.toNat, r ≤ MAX_SECS := by
      intro r hr
      obtain ⟨value, -, rfl⟩ := List.mem_map.mp hr
      exact Nat.le_pred_of_lt value.toNat_lt
    rw [Halving.flatten_passes]
    refine Halving.keepsTheBest_of_plan hranks hplan ?_
    have hmapped := hperm.map UInt64.toNat
    rwa [List.map_map] at hmapped
  · exact (of_runs (P := DnsCache.Bounded limit) .inserts hruns ⟨rfl, within_nil _ _⟩).2.length
  · exact (of_runs (P := NegativeCache.Bounded limit) .inserts hruns
      ⟨rfl, Nat.zero_le _, (within_nil limit _).ranks, (within_nil limit _).ranks⟩).length
  · exact (of_runs (P := DelegationCache.Bounded limit) .inserts hruns ⟨rfl, within_nil _ _⟩).2.length
  · exact (of_runs (P := KeyCache.Bounded limit) .inserts hruns ⟨rfl, within_nil _ _⟩).2.length

theorem halving_bounds_one :
    Halving.KeepsTheBest (fun e : UInt64 => e.toNat) 1 ((⟨5, 1⟩ : Halving).passes (fun e : UInt64 => e.toNat) [[5], [5]]).flatten ∧
      (KeyCache.insert ⟨[], 1⟩ 0 .root [⟨.root, 257, 3, 15, []⟩] 300).entries.length ≤ 1 := by
  have hlaws := halving_bounds (fun e : UInt64 => e) [5, 5] 1 1 ⟨0⟩
  exact ⟨(hlaws.2.1 ⟨5, 1⟩ [[5], [5]] (by simp [Halving.plan, List.mergeSort]) (List.Perm.refl _)).2,
    hlaws.2.2.2.2.2 _ (.single ⟨0, .root, [⟨.root, 257, 3, 15, []⟩], 300, rfl⟩)⟩

end Rdns.Resolver
