import Rdns.Lib.Staging
import Rdns.Transfer.Deltas

/-!
# Rdns — Patching a zone

`Patch` of `rdns/src/ixfr.rs`: difference sequences staged against a base zone, deletions
withheld and additions appended, and the whole applied in one pass.

The two hash maps are association lists.

Main results:

* `removeWithheld_foldlM` — all that is withheld leaves the zone, as far as the zone has it.
-/

namespace Rdns.Transfer

open Rdns.Lib Rdns.Core Rdns.Zones

/-! ## Staging -/

/-- A record to leave out of the zone, and how many copies of it. -/
structure Withheld where
  cls : Core.Class
  ttl : Ttl
  rdata : RecordData
  count : Nat
deriving DecidableEq

def Withheld.matches (held : Withheld) (cls : Core.Class) (ttl : Ttl) (rdata : RecordData) : Bool :=
  0 < held.count && held.cls == cls && held.ttl == ttl && held.rdata == rdata

/-- What a chain of differences comes to, before it touches the zone. -/
structure Patch where
  withhold : Entries Octets (List Withheld)
  /-- What to append; `none` is an addition a later step deleted again. -/
  append : List (Option ResourceRecord)
  /-- Where each still-pending addition sits in `append`. -/
  pending : Entries Octets (List Nat)
  requested : Nat
  cancelled : Nat

def nameKey (name : Name) : Octets := name.toFolded.wire

/-- The last of the positions that passes: `Iterator::rposition`. -/
def rposition (passes : Nat → Bool) (positions : List Nat) : Option Nat :=
  (positions.reverse.findIdx? passes).map fun i => positions.length - 1 - i

def withholdOne (record : ResourceRecord) : List Withheld → List Withheld
  | [] => [⟨record.cls, record.ttl, record.rdata, 1⟩]
  | held :: rest =>
    if held.matches record.cls record.ttl record.rdata then { held with count := held.count + 1 } :: rest
    else held :: withholdOne record rest

def takeOne (cls : Core.Class) (ttl : Ttl) (rdata : RecordData) : List Withheld → Option (List Withheld)
  | [] => none
  | held :: rest =>
    if held.matches cls ttl rdata then some ({ held with count := held.count - 1 } :: rest)
    else (takeOne cls ttl rdata rest).map fun rest => held :: rest

namespace Patch

def new : Patch := ⟨[], [], [], 0, 0⟩

def pendingAt (p : Patch) (record : ResourceRecord) (position : Nat) : Bool :=
  match p.append[position]? with
  | some (some held) => held.cls == record.cls && held.ttl == record.ttl && held.rdata == record.rdata
  | _ => false

/-- A deletion takes back an addition of an earlier step, the latest one first. -/
def cancelPending (p : Patch) (record : ResourceRecord) : Option Patch := do
  let positions ← p.pending.get (nameKey record.name)
  let found ← rposition (p.pendingAt record) positions
  let position ← positions[found]?
  return { p with
    pending := p.pending.insert (nameKey record.name) (positions.eraseIdx found)
    append := p.append.set position none }

/-- A deletion takes back a pending addition, or is kept for the zone. -/
def stageDeletion (p : Patch) (record : ResourceRecord) : Patch :=
  match p.cancelPending record with
  | some p => { p with cancelled := p.cancelled + 1 }
  | none =>
    { p with
      withhold := p.withhold.insert (nameKey record.name)
        (withholdOne record ((p.withhold.get (nameKey record.name)).getD [])) }

def stageAddition (p : Patch) (record : ResourceRecord) : Patch :=
  { p with
    append := p.append ++ [some record]
    pending := p.pending.insert (nameKey record.name)
      ((p.pending.get (nameKey record.name)).getD [] ++ [p.append.length]) }

def step (p : Patch) (deleted added : List ResourceRecord) : Patch :=
  added.foldl stageAddition
    (deleted.foldl stageDeletion { p with requested := p.requested + deleted.length })

end Patch

/-! ## Applying -/

def apexSoaPosition (zone : Zone) : Option Nat :=
  (zone.index.positionsOf zone.originKey).find? fun i =>
    (zone.records[i]?.map fun r => r.rtype == RecordTypes.SOA).getD false

/-- One record of the owner: it is taken if a copy of it is still to be left out. -/
def doom (zone : Zone) (state : List Withheld × List Nat) (position : Nat) :
    Option (List Withheld × List Nat) := do
  let record ← zone.records[position]?
  match takeOne record.cls record.ttl record.rdata state.1 with
  | some bucket => return (bucket, state.2 ++ [position])
  | none => return state

def removeAt (state : Zone × Nat) (position : Nat) : Option (Zone × Nat) := do
  let (_, zone) ← state.1.removeRecord position
  return (zone, state.2 + 1)

/-- All that is withheld under one owner, from the highest position down. -/
def removeWithheld (state : Zone × Nat) (entry : Octets × List Withheld) : Option (Zone × Nat) := do
  let (_, doomed) ← (state.1.index.positionsOf entry.1).foldlM (doom state.1) (entry.2, [])
  (doomed.mergeSort fun a b => b ≤ a).foldlM removeAt state

/-- The zone patched, and how many of the requested deletions it did not have. -/
def Patch.apply (walk : Patch → Entries Octets (List Withheld)) (p : Patch) (base : Zone)
    (newSoa : ResourceRecord) : Option (Zone × Nat) := do
  let zone ← match apexSoaPosition base with
    | some position => (base.removeRecord position).map Prod.snd
    | none => some base
  let (zone, removed) ← (walk p).foldlM removeWithheld (zone, p.cancelled)
  let zone := zone.add (zoneRecord newSoa)
  let zone := (p.append.filterMap id).foldl (fun zone record => zone.add (zoneRecord record)) zone
  if p.requested < removed then none else some (zone, p.requested - removed)

def applyChanges (walk : Patch → Entries Octets (List Withheld)) (base : Zone)
    (deleted added : List ResourceRecord) (newSoa : ResourceRecord) : Option (Zone × Nat) := do
  let (zone, missing) ← (Patch.new.step deleted added).apply walk base newSoa
  return (zone, deleted.length - missing)

/-! ## Identities -/

/-- What a difference tells records apart by. -/
abbrev Identity := Octets × Core.Class × Ttl × RecordData

def identity (record : ResourceRecord) : Identity :=
  (nameKey record.name, record.cls, record.ttl, record.rdata)

def identities (zone : Zone) : Multiset Identity :=
  (zone.records.map fun record => identity (asRecord record) : List Identity)

def heldOf (key : Octets) (bucket : List Withheld) : Multiset Identity :=
  (bucket.map fun held => Multiset.replicate held.count ((key, held.cls, held.ttl, held.rdata) : Identity)).sum

def withheldOf (entries : Entries Octets (List Withheld)) : Multiset Identity :=
  (entries.map fun entry => heldOf entry.1 entry.2).sum

/-- What a patch says, as multisets of identities. -/
def Patch.staged (p : Patch) : Staged Identity where
  withheld := withheldOf p.withhold
  pending := ((p.append.filterMap id).map identity : List Identity)
  cancelled := p.cancelled

theorem identity_eq_iff (a b : ResourceRecord) : identity a = identity b ↔ recordKey a = recordKey b := by
  rw [← recordKey_eq_iff, identity, identity, folded, folded]
  simp only [Prod.mk.injEq, ResourceRecord.mk.injEq]
  constructor
  · rintro ⟨hname, hrest⟩
    exact ⟨Name.wire_injective hname, hrest⟩
  · rintro ⟨hname, hrest⟩
    exact ⟨congrArg Name.wire hname, hrest⟩

theorem Withheld.matches_iff {held : Withheld} {cls : Core.Class} {ttl : Ttl} {rdata : RecordData} :
    held.matches cls ttl rdata = true ↔
      0 < held.count ∧ held.cls = cls ∧ held.ttl = ttl ∧ held.rdata = rdata := by
  simp only [Withheld.matches, Bool.and_eq_true, decide_eq_true_eq, beq_iff_eq, and_assoc]

theorem heldOf_cons (key : Octets) (held : Withheld) (bucket : List Withheld) :
    heldOf key (held :: bucket) =
      Multiset.replicate held.count ((key, held.cls, held.ttl, held.rdata) : Identity) + heldOf key bucket := by
  rw [heldOf, List.map_cons, List.sum_cons]
  rfl

theorem heldOf_withholdOne (record : ResourceRecord) (bucket : List Withheld) :
    heldOf (nameKey record.name) (withholdOne record bucket) =
      identity record ::ₘ heldOf (nameKey record.name) bucket := by
  induction bucket with
  | nil => rw [withholdOne, heldOf_cons]; rfl
  | cons held rest ih =>
    rw [withholdOne]
    split
    · rename_i hmatches
      obtain ⟨-, hcls, httl, hrdata⟩ := Withheld.matches_iff.mp hmatches
      rw [heldOf_cons, heldOf_cons, Multiset.replicate_succ, Multiset.cons_add, hcls, httl, hrdata]
      rfl
    · rw [heldOf_cons, heldOf_cons, ih, Multiset.add_cons]

/-- `takeOne` takes one copy off a bucket, unless there is none. -/
theorem takeOne_eq (key : Octets) (cls : Core.Class) (ttl : Ttl) (rdata : RecordData)
    (bucket : List Withheld) :
    (takeOne cls ttl rdata bucket = none ∧ ((key, cls, ttl, rdata) : Identity) ∉ heldOf key bucket) ∨
    ∃ left, takeOne cls ttl rdata bucket = some left ∧
      heldOf key bucket = ((key, cls, ttl, rdata) : Identity) ::ₘ heldOf key left := by
  induction bucket with
  | nil => exact .inl ⟨rfl, Multiset.notMem_zero _⟩
  | cons held rest ih =>
    rw [takeOne]
    by_cases hmatches : held.matches cls ttl rdata = true
    · obtain ⟨hpos, rfl, rfl, rfl⟩ := Withheld.matches_iff.mp hmatches
      rw [if_pos hmatches]
      refine .inr ⟨_, rfl, ?_⟩
      rw [heldOf_cons, heldOf_cons, ← Multiset.cons_add, ← Multiset.replicate_succ]
      dsimp only
      rw [Nat.sub_add_cancel hpos]
    · rw [if_neg hmatches]
      rcases ih with ⟨hnone, hmem⟩ | ⟨left, hsome, hheld⟩
      · rw [hnone]
        refine .inl ⟨rfl, fun h => ?_⟩
        rw [heldOf_cons, Multiset.mem_add, Multiset.mem_replicate] at h
        rcases h with ⟨hcount, heq⟩ | h
        · simp only [Prod.mk.injEq, true_and] at heq
          exact hmatches (Withheld.matches_iff.mpr
            ⟨Nat.pos_of_ne_zero hcount, heq.1.symm, heq.2.1.symm, heq.2.2.symm⟩)
        · exact hmem h
      · grind [heldOf_cons, Multiset.add_cons]

theorem key_of_mem_heldOf {key : Octets} {bucket : List Withheld} {i : Identity} (h : i ∈ heldOf key bucket) :
    i.1 = key := by
  induction bucket with
  | nil => exact absurd h (Multiset.notMem_zero _)
  | cons held rest ih =>
    rw [heldOf_cons, Multiset.mem_add, Multiset.mem_replicate] at h
    rcases h with ⟨-, rfl⟩ | h
    · rfl
    · exact ih h

/-! ## What a patch keeps -/

def Patch.positionsFor (p : Patch) (key : Octets) : List Nat := (p.pending.get key).getD []

/-- **What every patch keeps**: a name has one bucket of records to withhold, and the pending map
has every addition not taken back, under its name, once. -/
structure Patch.Ok (p : Patch) : Prop where
  keys : (p.withhold.map Prod.fst).Nodup
  nodup : ∀ key, (p.positionsFor key).Nodup
  pending : ∀ key i, i ∈ p.positionsFor key ↔
    ∃ record, p.append[i]? = some (some record) ∧ nameKey record.name = key

theorem Patch.ok_new : Patch.new.Ok where
  keys := List.nodup_nil
  nodup := fun _ => List.nodup_nil
  pending := fun key i => by
    constructor
    · intro h
      cases h
    · rintro ⟨record, h, -⟩
      cases h

variable {zone : Zone} {positions : List Nat} {α : Type} {position : Nat}

theorem rposition_eq_none {passes : Nat → Bool} (h : rposition passes positions = none) :
    ∀ i ∈ positions, passes i = false := by
  rw [rposition, Option.map_eq_none_iff, List.findIdx?_eq_none_iff] at h
  exact fun i hi => h i (List.mem_reverse.mpr hi)

theorem rposition_eq_some {passes : Nat → Bool} {found : Nat}
    (h : rposition passes positions = some found) :
    ∃ hlt : found < positions.length, passes positions[found] = true := by
  obtain ⟨i, hi, rfl⟩ := Option.map_eq_some_iff.mp h
  obtain ⟨hlt, hpasses, -⟩ := List.findIdx?_eq_some_iff_getElem.mp hi
  rw [List.length_reverse] at hlt
  refine ⟨by omega, ?_⟩
  rwa [List.getElem_reverse] at hpasses

theorem positionsFor_insert (p : Patch) (key other : Octets) (positions : List Nat)
    (append : List (Option ResourceRecord)) :
    ({ p with append := append, pending := p.pending.insert key positions } : Patch).positionsFor other =
      if other = key then positions else p.positionsFor other := by
  rw [Patch.positionsFor, Entries.get_insert, Patch.positionsFor]
  split <;> rfl

theorem pending_set {append : List (Option ResourceRecord)} {i : Nat} {record : ResourceRecord}
    (h : append[i]? = some (some record)) :
    (((append.filterMap id).map identity : List Identity) : Multiset Identity) =
      identity record ::ₘ (((append.set i none).filterMap id).map identity : List Identity) := by
  induction append generalizing i with
  | nil => cases h
  | cons head rest ih =>
    cases i with
    | zero => grind [Multiset.cons_coe]
    | succ i =>
      rw [List.getElem?_cons_succ] at h
      rw [List.set_cons_succ]
      cases head with
      | none => exact ih h
      | some first =>
        rw [List.filterMap_cons_some (f := id) rfl, List.filterMap_cons_some (f := id) rfl, List.map_cons, List.map_cons,
          ← Multiset.cons_coe, ih h, ← Multiset.cons_coe, Multiset.cons_swap]

theorem mem_pending_iff {append : List (Option ResourceRecord)} {i : Identity} :
    i ∈ (((append.filterMap id).map identity : List Identity) : Multiset Identity) ↔
      ∃ (spot : Nat) (record : ResourceRecord), append[spot]? = some (some record) ∧ identity record = i := by
  rw [Multiset.mem_coe, List.mem_map]
  constructor
  · rintro ⟨record, hrecord, rfl⟩
    obtain ⟨_, hmem, rfl⟩ := List.mem_filterMap.mp hrecord
    obtain ⟨spot, hat⟩ := List.mem_iff_getElem?.mp hmem
    exact ⟨spot, record, hat, rfl⟩
  · rintro ⟨spot, record, hat, rfl⟩
    exact ⟨record, List.mem_filterMap.mpr ⟨some record, List.mem_of_getElem? hat, rfl⟩, rfl⟩

theorem pendingAt_iff {p : Patch} {record : ResourceRecord} {i : Nat} (h : p.Ok)
    (hi : i ∈ p.positionsFor (nameKey record.name)) :
    p.pendingAt record i = true ↔ ∃ held, p.append[i]? = some (some held) ∧ identity held = identity record := by
  obtain ⟨held, hheld, hkey⟩ := (h.pending _ i).mp hi
  rw [Patch.pendingAt, hheld]
  simp only [Bool.and_eq_true, beq_iff_eq, Option.some.injEq, exists_eq_left', identity, Prod.mk.injEq, hkey,
    true_and, and_assoc]

/-- A pending addition is taken back exactly where there is one. -/
theorem Patch.cancelPending_eq {p : Patch} (h : p.Ok) (record : ResourceRecord) :
    (p.cancelPending record = none ∧ identity record ∉ p.staged.pending) ∨
    ∃ p', p.cancelPending record = some p' ∧ p'.Ok ∧ p'.withhold = p.withhold ∧
      p'.requested = p.requested ∧ p'.cancelled = p.cancelled ∧
      p.staged.pending = identity record ::ₘ p'.staged.pending := by
  have habsent : (∀ i ∈ p.positionsFor (nameKey record.name), p.pendingAt record i = false) →
      identity record ∉ p.staged.pending := by
    intro hnone hmem
    obtain ⟨i, held, hheld, heq⟩ := mem_pending_iff.mp hmem
    have hi : i ∈ p.positionsFor (nameKey record.name) :=
      (h.pending _ i).mpr ⟨held, hheld, congrArg Prod.fst heq⟩
    have hpending := (pendingAt_iff h hi).mpr ⟨held, hheld, heq⟩
    rw [hnone i hi] at hpending
    cases hpending
  rw [Patch.cancelPending]
  cases hget : p.pending.get (nameKey record.name) with
  | none => grind [Patch.positionsFor]
  | some positions =>
    have hfor : p.positionsFor (nameKey record.name) = positions := by rw [Patch.positionsFor, hget]; rfl
    rw [Option.bind_eq_bind, Option.bind_some]
    cases hfind : rposition (p.pendingAt record) positions with
    | none => grind [rposition_eq_none]
    | some found =>
      obtain ⟨hlt, hpasses⟩ := rposition_eq_some hfind
      have hmem : positions[found] ∈ p.positionsFor (nameKey record.name) := hfor ▸ List.getElem_mem hlt
      obtain ⟨held, hheld, heq⟩ := (pendingAt_iff h hmem).mp hpasses
      have hnodup : positions.Nodup := hfor ▸ h.nodup (nameKey record.name)
      have herase : positions.eraseIdx found = positions.erase positions[found] :=
        (hnodup.erase_getElem found hlt).symm
      have hat : positions[found] < p.append.length := (List.getElem?_eq_some_iff.mp hheld).1
      refine .inr ⟨{ p with
        pending := p.pending.insert (nameKey record.name) (positions.eraseIdx found)
        append := p.append.set positions[found] none },
        by rw [Option.bind_eq_bind, Option.bind_some, List.getElem?_eq_getElem hlt]; rfl, ?_, rfl, rfl, rfl, ?_⟩
      · refine ⟨h.keys, fun key => ?_, fun key i => ?_⟩
        · rw [positionsFor_insert]
          split
          · rw [herase]
            exact hnodup.erase _
          · exact h.nodup key
        · rw [positionsFor_insert]
          -- the position taken back is in no bucket, every other where it was
          have hset : (∃ r, (p.append.set positions[found] none)[i]? = some (some r) ∧ nameKey r.name = key) ↔
              i ≠ positions[found] ∧ ∃ r, p.append[i]? = some (some r) ∧ nameKey r.name = key := by
            by_cases hi : i = positions[found]
            · grind
            · rw [List.getElem?_set_ne fun heq => hi heq.symm]
              exact (and_iff_right hi).symm
          rw [hset]
          split
          · rename_i hkey
            subst hkey
            have hbucket := h.pending (nameKey record.name) i
            rw [hfor] at hbucket
            rw [herase, hnodup.mem_erase_iff, hbucket]
          · rename_i hkey
            rw [h.pending]
            refine (and_iff_right_of_imp ?_).symm
            rintro ⟨r, hr, hrkey⟩ rfl
            rw [hheld] at hr
            cases hr
            exact hkey (hrkey.symm.trans (congrArg Prod.fst heq))
      · rw [← heq]
        exact pending_set hheld

/-! ## Staging is staging -/

theorem withheldOf_cons (entry : Octets × List Withheld) (rest : Entries Octets (List Withheld)) :
    withheldOf (entry :: rest) = heldOf entry.1 entry.2 + withheldOf rest := by
  rw [withheldOf, List.map_cons, List.sum_cons]
  rfl

theorem withheldOf_remove {entries : Entries Octets (List Withheld)} (h : (entries.map Prod.fst).Nodup)
    (key : Octets) :
    withheldOf entries = heldOf key ((entries.get key).getD []) + withheldOf (entries.remove key) := by
  induction entries with
  | nil => rfl
  | cons entry rest ih =>
    obtain ⟨key', bucket⟩ := entry
    rw [List.map_cons, List.nodup_cons] at h
    rw [Entries.get_cons, withheldOf_cons]
    by_cases hkey : key' = key
    · subst hkey
      have hfresh : Entries.remove ((key', bucket) :: rest) key' = rest := by
        rw [Entries.remove, List.filter_cons_of_neg (by simp), List.filter_eq_self]
        intro e he
        refine decide_eq_true fun heq => ?_
        have hin : e.1 ∈ rest.map Prod.fst := List.mem_map_of_mem he
        rw [heq] at hin
        exact h.1 hin
      rw [if_pos rfl, hfresh]
      rfl
    · have hkept : Entries.remove ((key', bucket) :: rest) key = (key', bucket) :: Entries.remove rest key := by
        rw [Entries.remove, List.filter_cons_of_pos (by simpa using hkey)]
        rfl
      rw [if_neg hkey, hkept, withheldOf_cons, ih h.2, ← add_assoc, ← add_assoc, add_comm (heldOf key' bucket)]

theorem withheldOf_insert (entries : Entries Octets (List Withheld)) (key : Octets) (bucket : List Withheld) :
    withheldOf (entries.insert key bucket) = heldOf key bucket + withheldOf (entries.remove key) :=
  withheldOf_cons _ _

theorem keys_insert {entries : Entries Octets (List Withheld)} (h : (entries.map Prod.fst).Nodup)
    (key : Octets) (bucket : List Withheld) : ((entries.insert key bucket).map Prod.fst).Nodup := by
  rw [Entries.insert, List.map_cons, List.nodup_cons]
  constructor
  · intro hmem
    obtain ⟨entry, hentry, hkey⟩ := List.mem_map.mp hmem
    exact of_decide_eq_true (List.mem_filter.mp hentry).2 hkey
  · exact h.sublist (List.filter_sublist.map _)

namespace Patch

variable {p : Patch}

/-- **A deletion staged is a deletion staged**: an addition taken back, or one more copy withheld. -/
theorem stageDeletion_staged (h : p.Ok) (record : ResourceRecord) :
    (p.stageDeletion record).Ok ∧ (p.stageDeletion record).requested = p.requested ∧
      (p.stageDeletion record).staged = p.staged.delete (identity record) := by
  rw [stageDeletion]
  rcases cancelPending_eq h record with ⟨hnone, hmem⟩ | ⟨p', hsome, hok, hwithhold, hrequested, hcancelled, hpending⟩
  · rw [hnone]
    refine ⟨⟨keys_insert h.keys _ _, h.nodup, h.pending⟩, rfl, ?_⟩
    have hone : withheldOf (p.withhold.insert (nameKey record.name)
        (withholdOne record ((p.withhold.get (nameKey record.name)).getD []))) =
        identity record ::ₘ withheldOf p.withhold := by
      rw [withheldOf_insert, heldOf_withholdOne, Multiset.cons_add,
        ← withheldOf_remove h.keys (nameKey record.name)]
    rw [Staged.delete, if_neg hmem, staged]
    dsimp only
    rw [hone]
    rfl
  · rw [hsome]
    have hmem : identity record ∈ p.staged.pending := by
      rw [hpending]
      exact Multiset.mem_cons_self _ _
    refine ⟨⟨hok.keys, hok.nodup, hok.pending⟩, hrequested, ?_⟩
    rw [Staged.delete, if_pos hmem, hpending, Multiset.erase_cons_head, staged]
    dsimp only
    rw [hwithhold, hcancelled]
    rfl

theorem stageAddition_staged (h : p.Ok) (record : ResourceRecord) :
    (p.stageAddition record).Ok ∧ (p.stageAddition record).requested = p.requested ∧
      (p.stageAddition record).staged = p.staged.add (identity record) := by
  have hfresh : ∀ key, p.append.length ∉ p.positionsFor key := by
    intro key hmem
    obtain ⟨r, hr, -⟩ := (h.pending key _).mp hmem
    rw [List.getElem?_eq_none (Nat.le_refl _)] at hr
    cases hr
  have hlast : ∀ i, (p.append ++ [some record])[i]? =
      if i = p.append.length then some (some record) else p.append[i]? := by
    intro i
    split
    · rename_i hi
      rw [hi, List.getElem?_concat_length]
    · grind
  have hfor : ∀ key, (p.stageAddition record).positionsFor key =
      if key = nameKey record.name then p.positionsFor (nameKey record.name) ++ [p.append.length]
      else p.positionsFor key := by
    intro key
    rw [stageAddition]
    exact positionsFor_insert p _ _ _ _
  refine ⟨⟨h.keys, fun key => ?_, fun key i => ?_⟩, rfl, ?_⟩
  · rw [hfor]
    split
    · refine List.Nodup.append (h.nodup _) (List.nodup_singleton _) ?_
      intro i hi hi'
      exact hfresh _ (List.mem_singleton.mp hi' ▸ hi)
    · exact h.nodup key
  · rw [hfor, show (p.stageAddition record).append = p.append ++ [some record] from rfl, hlast]
    have hbelow : ∀ k, i ∈ p.positionsFor k → i ≠ p.append.length := fun k hi heq => hfresh k (heq ▸ hi)
    by_cases hi : i = p.append.length
    · grind
    · rw [if_neg hi]
      split
      · rename_i hkey
        rw [List.mem_append, List.mem_singleton, or_iff_left hi, hkey]
        exact h.pending _ i
      · exact h.pending key i
  · have happended : (((p.append ++ [some record]).filterMap id).map identity : Multiset Identity) =
        identity record ::ₘ ((p.append.filterMap id).map identity : List Identity) := by
      rw [List.filterMap_append, List.filterMap_cons_some (f := id) rfl, List.filterMap_nil, List.map_append, List.map_cons,
        List.map_nil, ← Multiset.coe_add, Multiset.coe_singleton, add_comm, Multiset.singleton_add]
    exact congrArg (fun pending => (⟨withheldOf p.withhold, pending, p.cancelled⟩ : Staged Identity)) happended

/-- **A run of deletions** stages them in order. -/
theorem stageDeletions_staged (deleted : List ResourceRecord) (h : p.Ok) :
    (deleted.foldl stageDeletion p).Ok ∧ (deleted.foldl stageDeletion p).requested = p.requested ∧
      (deleted.foldl stageDeletion p).staged = (deleted.map identity).foldl Staged.delete p.staged := by
  induction deleted generalizing p with
  | nil => exact ⟨h, rfl, rfl⟩
  | cons record deleted ih =>
    obtain ⟨hok, hrequested, hstaged⟩ := stageDeletion_staged h record
    obtain ⟨hok', hrequested', hstaged'⟩ := ih hok
    rw [List.map_cons, List.foldl_cons, List.foldl_cons, ← hstaged]
    exact ⟨hok', hrequested'.trans hrequested, hstaged'⟩

/-- **A run of additions** stages them in order. -/
theorem stageAdditions_staged (added : List ResourceRecord) (h : p.Ok) :
    (added.foldl stageAddition p).Ok ∧ (added.foldl stageAddition p).requested = p.requested ∧
      (added.foldl stageAddition p).staged = (added.map identity).foldl Staged.add p.staged := by
  induction added generalizing p with
  | nil => exact ⟨h, rfl, rfl⟩
  | cons record added ih =>
    obtain ⟨hok, hrequested, hstaged⟩ := stageAddition_staged h record
    obtain ⟨hok', hrequested', hstaged'⟩ := ih hok
    rw [List.map_cons, List.foldl_cons, List.foldl_cons, ← hstaged]
    exact ⟨hok', hrequested'.trans hrequested, hstaged'⟩

/-- **Staging a step is the staging of its records' identities.** -/
theorem step_staged (h : p.Ok) (deleted added : List ResourceRecord) :
    (p.step deleted added).Ok ∧ (p.step deleted added).requested = p.requested + deleted.length ∧
      (p.step deleted added).staged = p.staged.step (deleted.map identity) (added.map identity) := by
  obtain ⟨hok, hrequested, hstaged⟩ := stageDeletions_staged deleted
    (show ({ p with requested := p.requested + deleted.length } : Patch).Ok from ⟨h.keys, h.nodup, h.pending⟩)
  obtain ⟨hok', hrequested', hstaged'⟩ := stageAdditions_staged added hok
  rw [step, Staged.step]
  refine ⟨hok', hrequested'.trans hrequested, ?_⟩
  rw [hstaged', hstaged]
  rfl

end Patch

/-! ## Removing by position -/

theorem perm_swapRemove {records : List α} {record : α} (h : records[position]? = some record) :
    records.Perm (record :: swapRemove records position) := by
  rcases List.eq_nil_or_concat' records with rfl | ⟨init, last, rfl⟩
  · cases h
  · rw [swapRemove, List.getLast?_concat]
    dsimp only
    by_cases hlast : position = init.length
    · subst hlast
      rw [List.getElem?_concat_length] at h
      cases h
      rw [List.set_append_right _ _ (Nat.le_refl _), Nat.sub_self, List.set_cons_zero, List.dropLast_concat]
      exact List.perm_append_singleton _ _
    · have hlt : position < init.length := by
        have hle := (List.getElem?_eq_some_iff.mp h).1
        rw [List.length_append, List.length_singleton] at hle
        omega
      rw [List.getElem?_append_left hlt] at h
      obtain ⟨_, hrecord⟩ := List.getElem?_eq_some_iff.mp h
      rw [List.set_append_left _ _ hlt, List.dropLast_concat, List.set_eq_take_append_cons_drop, if_pos hlt]
      conv_lhs => rw [← List.take_append_drop position init, List.drop_eq_getElem_cons hlt, hrecord]
      -- the record comes to the front, the last one into the gap
      refine (List.perm_append_singleton _ _).trans ?_
      refine (List.Perm.cons _ List.perm_middle).trans ((List.Perm.swap _ _ _).trans (List.Perm.cons _ ?_))
      exact List.perm_middle.symm

def recordsAt (zone : Zone) (positions : List Nat) : List ZoneRecord := positions.filterMap (zone.records[·]?)

def identitiesAt (zone : Zone) (positions : List Nat) : Multiset Identity :=
  ((recordsAt zone positions).map fun record => identity (asRecord record) : List Identity)

theorem identitiesAt_cons {record : ZoneRecord} (h : zone.records[position]? = some record)
    (rest : List Nat) :
    identitiesAt zone (position :: rest) = identity (asRecord record) ::ₘ identitiesAt zone rest := by
  rw [identitiesAt, recordsAt, List.filterMap_cons_some h, List.map_cons, ← Multiset.cons_coe]
  rfl

theorem identities_swapRemove {after : Zone} {record : ZoneRecord}
    (h : zone.records[position]? = some record)
    (hafter : after.records = swapRemove zone.records position) :
    identities zone = identity (asRecord record) ::ₘ identities after := by
  rw [identities, identities, hafter, Multiset.cons_coe]
  exact Multiset.coe_eq_coe.mpr ((perm_swapRemove h).map _)

/-- Positions in descending order are removed without moving one another. -/
theorem removeAt_foldlM (hok : Zone.ZoneOk zone) (hsorted : positions.Pairwise (· > ·))
    (hlt : ∀ i ∈ positions, i < zone.records.length) (removed : Nat) :
    ∃ after, positions.foldlM removeAt (zone, removed) = some (after, removed + positions.length) ∧
      Zone.ZoneOk after ∧ after.origin = zone.origin ∧
      positions.length + (identities after).card = (identities zone).card ∧
      identities zone = identitiesAt zone positions + identities after := by
  induction positions generalizing zone removed with
  | nil =>
    refine ⟨zone, rfl, hok, rfl, Nat.zero_add _, ?_⟩
    rw [identitiesAt, recordsAt, List.filterMap_nil, List.map_nil, Multiset.coe_nil, zero_add]
  | cons position rest ih =>
    obtain ⟨hbelow, hrest⟩ := List.pairwise_cons.mp hsorted
    have hposition := hlt position List.mem_cons_self
    obtain ⟨record, next, hremove, hrecord, horigin, hrecords, hnext⟩ := hok.removeRecord hposition
    -- what is below the position stays where it was
    have hsame : ∀ i ∈ rest, next.records[i]? = zone.records[i]? := by
      intro i hi
      have hlow := hbelow i hi
      rw [hrecords, Zone.getElem?_swapRemove hposition, if_pos (by omega), if_neg (by omega)]
    have hlen : next.records.length + 1 = zone.records.length := by
      have hperm := (perm_swapRemove hrecord).length_eq
      rw [← hrecords] at hperm
      exact hperm.symm
    obtain ⟨after, hrun, hafter, horigin', hcard, hids⟩ := ih hnext hrest
      (fun i hi => by have := hbelow i hi; omega) (removed + 1)
    have hsplit := identities_swapRemove hrecord hrecords
    refine ⟨after, ?_, hafter, horigin'.trans horigin, ?_, ?_⟩
    · grind [removeAt]
    · rw [hsplit, Multiset.card_cons, List.length_cons]
      omega
    · have hat : identitiesAt next rest = identitiesAt zone rest := by
        rw [identitiesAt, identitiesAt, recordsAt, recordsAt, List.filterMap_congr hsame]
      rw [identitiesAt_cons hrecord, Multiset.cons_add, ← hat, ← hids]
      exact hsplit

/-- The walk over one owner takes as many copies as both sides have. -/
theorem doom_foldlM {key : Octets} (hkey : ∀ i ∈ positions, Zone.ownerAt zone.records i = some key)
    (bucket : List Withheld) (before : List Nat) :
    ∃ left chosen, positions.foldlM (doom zone) (bucket, before) = some (left, before ++ chosen) ∧
      chosen.Sublist positions ∧
      identitiesAt zone chosen = heldOf key bucket ∩ identitiesAt zone positions := by
  induction positions generalizing bucket before with
  | nil =>
    refine ⟨bucket, [], by rw [List.append_nil]; rfl, .slnil, ?_⟩
    rw [show identitiesAt zone [] = 0 from rfl, Multiset.inter_zero]
  | cons position rest ih =>
    have howner := hkey position List.mem_cons_self
    rw [Zone.ownerAt, Option.map_eq_some_iff] at howner
    obtain ⟨record, hrecord, rfl⟩ := howner
    have hrest := fun i hi => hkey i (List.mem_cons_of_mem _ hi)
    have hid : identity (asRecord record) = (record.key, record.cls, record.ttl, record.rdata) := rfl
    rw [List.foldlM_cons, doom, hrecord]
    rcases takeOne_eq record.key record.cls record.ttl record.rdata bucket with
      ⟨hnone, hmem⟩ | ⟨left, hsome, hheld⟩
    · obtain ⟨left, chosen, hrun, hsub, hids⟩ := ih hrest bucket before
      refine ⟨left, chosen, ?_, hsub.cons position, ?_⟩
      · grind
      · rw [hids, identitiesAt_cons hrecord, hid]
        ext i
        rw [Multiset.count_inter, Multiset.count_inter, Multiset.count_cons]
        split
        · grind [Multiset.count_eq_zero_of_notMem]
        · rfl
    · obtain ⟨left', chosen, hrun, hsub, hids⟩ := ih hrest left (before ++ [position])
      refine ⟨left', position :: chosen, ?_, hsub.cons_cons position, ?_⟩
      · dsimp only [Option.bind_eq_bind, Option.bind_some]
        rw [hsome]
        rw [List.append_assoc, List.singleton_append] at hrun
        exact hrun
      · rw [identitiesAt_cons hrecord, hids, identitiesAt_cons hrecord, hheld, hid, Multiset.cons_inter_distrib]

theorem filterMap_of_filter {β : Type} {f : α → Option β} {p : α → Bool} {q : β → Bool}
    (xs : List α) (h : ∀ x y, f x = some y → p x = q y) :
    (xs.filter p).filterMap f = (xs.filterMap f).filter q := by
  induction xs with
  | nil => rfl
  | cons x xs ih =>
    cases hf : f x with
    | none =>
      rw [List.filterMap_cons_none hf, ← ih, List.filter_cons]
      split
      · rw [List.filterMap_cons_none hf]
      · rfl
    | some y =>
      rw [List.filterMap_cons_some hf, List.filter_cons, List.filter_cons, h x y hf, ← ih]
      split
      · rw [List.filterMap_cons_some hf]
      · rfl

theorem filterMap_range (xs : List α) : (List.range xs.length).filterMap (xs[·]?) = xs := by
  induction xs using List.reverseRecOn with
  | nil => rfl
  | append_singleton xs x ih =>
    have hsame : ∀ i ∈ List.range xs.length, (xs ++ [x])[i]? = xs[i]? :=
      fun i hi => List.getElem?_append_left (List.mem_range.mp hi)
    rw [List.length_append, List.length_singleton, List.range_succ, List.filterMap_append,
      List.filterMap_congr hsame, ih, List.filterMap_cons_some List.getElem?_concat_length, List.filterMap_nil]

/-- The index finds all the records of an owner. -/
theorem identitiesAt_positionsOf (h : Zone.ZoneOk zone) (key : Octets) :
    identitiesAt zone (zone.index.positionsOf key) = (identities zone).filter fun i => i.1 = key := by
  have hperm : (zone.index.positionsOf key).Perm
      ((List.range zone.records.length).filter fun i => Zone.ownerAt zone.records i = some key) := by
    rw [List.perm_ext_iff_of_nodup (h.index.nodup key) (List.nodup_range.filter _)]
    intro i
    rw [h.index.filed, List.mem_filter, List.mem_range, decide_eq_true_eq]
    refine (and_iff_right_of_imp fun howner => ?_).symm
    by_contra hge
    rw [Zone.ownerAt, List.getElem?_eq_none (Nat.not_lt.mp hge)] at howner
    cases howner
  have howner : ∀ i (r : ZoneRecord), zone.records[i]? = some r →
      decide (Zone.ownerAt zone.records i = some key) = decide (r.key = key) := by
    intro i r hr
    rw [Zone.ownerAt, hr, Option.map_some]
    exact decide_eq_decide.mpr Option.some_inj
  have hrecords := (hperm.filterMap (zone.records[·]?)).trans
    (List.Perm.of_eq (filterMap_of_filter _ howner))
  rw [filterMap_range] at hrecords
  rw [identitiesAt, identities, Multiset.filter_coe, List.filter_map]
  exact Multiset.coe_eq_coe.mpr (hrecords.map _)

/-- **A name's bucket is withheld**, as far as the zone holds it. -/
theorem removeWithheld_eq (hok : Zone.ZoneOk zone) (removed : Nat) (entry : Octets × List Withheld) :
    ∃ after total, removeWithheld (zone, removed) entry = some (after, total) ∧ Zone.ZoneOk after ∧
      after.origin = zone.origin ∧ identities after = identities zone - heldOf entry.1 entry.2 ∧
      total + (identities after).card = removed + (identities zone).card := by
  obtain ⟨key, bucket⟩ := entry
  obtain ⟨left, chosen, hdoomed, hsub, hids⟩ :=
    doom_foldlM (fun i hi => (hok.index.filed key i).mp hi) bucket []
  rw [List.nil_append] at hdoomed
  have hnodup : chosen.Nodup := (hok.index.nodup key).sublist hsub
  have hsort := List.mergeSort_perm chosen fun a b => decide (b ≤ a)
  have hdown : (chosen.mergeSort fun a b => decide (b ≤ a)).Pairwise (· > ·) := by
    have hge : (chosen.mergeSort fun a b => decide (b ≤ a)).Pairwise (fun a b => decide (b ≤ a) = true) := by
      apply List.pairwise_mergeSort
      · grind
      · grind
    refine (hge.and (hsort.nodup_iff.mpr hnodup)).imp ?_
    rintro a b ⟨hle, hne⟩
    exact Nat.lt_of_le_of_ne (of_decide_eq_true hle) (Ne.symm hne)
  have hlt : ∀ i ∈ chosen.mergeSort (fun a b => decide (b ≤ a)), i < zone.records.length := by
    intro i hi
    have howner := (hok.index.filed key i).mp (hsub.subset (hsort.mem_iff.mp hi))
    by_contra hge
    rw [Zone.ownerAt, List.getElem?_eq_none (Nat.not_lt.mp hge)] at howner
    cases howner
  obtain ⟨after, hrun, hafter, horigin, hcard, hsplit⟩ := removeAt_foldlM hok hdown hlt removed
  have hat : identitiesAt zone (chosen.mergeSort fun a b => decide (b ≤ a)) = identitiesAt zone chosen := by grind [identitiesAt, recordsAt, Multiset.coe_eq_coe]
  rw [hat] at hsplit
  refine ⟨after, removed + (chosen.mergeSort fun a b => decide (b ≤ a)).length, ?_, hafter, horigin, ?_, ?_⟩
  · rw [removeWithheld]
    dsimp only
    rw [hdoomed]
    exact hrun
  · -- of the records of other names the bucket withholds none
    rw [hids, identitiesAt_positionsOf hok] at hsplit
    dsimp only
    ext i
    have hcount := congrArg (Multiset.count i) hsplit
    rw [Multiset.count_add, Multiset.count_inter, Multiset.count_filter] at hcount
    rw [Multiset.count_sub]
    by_cases hkey : i.1 = key
    · rw [if_pos hkey] at hcount
      omega
    · have hnone : (heldOf key bucket).count i = 0 :=
        Multiset.count_eq_zero_of_notMem fun hmem => hkey (key_of_mem_heldOf hmem)
      rw [hnone]
      rw [if_neg hkey] at hcount
      omega
  · omega

/-- **All that is withheld leaves the zone**, as far as the zone has it. -/
theorem removeWithheld_foldlM (entries : Entries Octets (List Withheld)) (hok : Zone.ZoneOk zone)
    (removed : Nat) :
    ∃ after total, entries.foldlM removeWithheld (zone, removed) = some (after, total) ∧ Zone.ZoneOk after ∧
      after.origin = zone.origin ∧ identities after = identities zone - withheldOf entries ∧
      total + (identities after).card = removed + (identities zone).card := by
  induction entries generalizing zone removed with
  | nil => exact ⟨zone, removed, rfl, hok, rfl, (Multiset.sub_zero _).symm, rfl⟩
  | cons entry rest ih =>
    obtain ⟨next, partway, hfirst, hnext, horigin, hids, hcount⟩ := removeWithheld_eq hok removed entry
    obtain ⟨after, total, hrun, hafter, horigin', hids', hcount'⟩ := ih hnext partway
    refine ⟨after, total, ?_, hafter, horigin'.trans horigin, ?_, hcount'.trans hcount⟩
    · rw [List.foldlM_cons, hfirst]
      exact hrun
    · rw [hids', hids, withheldOf_cons, Multiset.sub_add_eq_sub_sub]

end Rdns.Transfer
