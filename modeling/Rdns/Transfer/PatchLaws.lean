import Mathlib.Algebra.BigOperators.Group.List.Basic
import Rdns.Transfer.Patch

/-!
# Rdns — What a patch comes to

`Patch::apply` and `apply_changes` of `rdns/src/ixfr.rs`, on the identities of the records.
What was staged is done to the base's records beside its apex SOA, and the new SOA put in.
-/

namespace Rdns.Transfer

open Rdns.Lib Rdns.Core Rdns.Zones RecordTypes

def beside (zone : Zone) : Multiset Identity := ((besideSoa zone).map identity : List Identity)

def kept (record : ResourceRecord) : ResourceRecord := { record with rdata := stored record.rdata }

def Sized (record : ResourceRecord) : Prop := record.rdata.rdata.length ≤ 65535

instance instDecidableSized (record : ResourceRecord) : Decidable (Sized record) :=
  inferInstanceAs (Decidable (_ ≤ _))

variable {zone base : Zone} {walk : Patch → Entries Octets (List Withheld)} {p : Patch}
  {record : ResourceRecord}

theorem kept_eq_self (h : Sized record) : kept record = record := by
  rw [kept, stored_eq_self h]

/-! ## The apex SOA -/

theorem isApexSoa_iff {record : ZoneRecord} :
    zone.isApexSoa record = true ↔ record.rtype = SOA ∧ record.key = zone.originKey := by
  rw [Zone.isApexSoa, Bool.and_eq_true, beq_iff_eq, Name.same_iff]
  refine and_congr_right fun _ => ⟨fun hsame => congrArg Name.wire hsame, Name.wire_injective⟩

theorem Version.apexSoaPosition (h : Version zone) :
    ∃ position soa, Transfer.apexSoaPosition zone = some position ∧ zone.records[position]? = some soa ∧
      zone.isApexSoa soa = true ∧ identities zone = identity (asRecord soa) ::ₘ beside zone := by
  obtain ⟨soa, hsoa⟩ := List.length_eq_one_iff.mp h.oneSoa
  have hmem : soa ∈ zone.records.filter zone.isApexSoa := hsoa ▸ List.mem_singleton_self soa
  obtain ⟨hin, hapex⟩ := List.mem_filter.mp hmem
  have hrest : identities zone = identity (asRecord soa) ::ₘ beside zone := by
    have hperm := (List.filter_append_perm zone.isApexSoa zone.records).symm.map
      fun record => identity (asRecord record)
    rw [hsoa, List.singleton_append, List.map_cons] at hperm
    rw [identities, Multiset.coe_eq_coe.mpr hperm, ← Multiset.cons_coe, beside, besideSoa, List.map_map]
    rfl
  cases hfind : Transfer.apexSoaPosition zone with
  | none =>
    obtain ⟨i, hi⟩ := List.mem_iff_getElem?.mp hin
    obtain ⟨htype, hkey⟩ := isApexSoa_iff.mp hapex
    have hfiled : i ∈ zone.index.positionsOf zone.originKey :=
      (h.ok.index.filed _ i).mpr (by rw [Zone.ownerAt, hi, Option.map_some, hkey])
    have hnot := List.find?_eq_none.mp hfind i hfiled
    rw [hi, Option.map_some, Option.getD_some, htype] at hnot
    exact absurd rfl hnot
  | some position =>
    have hfiled := List.mem_of_find?_eq_some hfind
    have htype := List.find?_some hfind
    have howner := (h.ok.index.filed _ _).mp hfiled
    rw [Zone.ownerAt, Option.map_eq_some_iff] at howner
    obtain ⟨record, hrecord, hkey⟩ := howner
    rw [hrecord, Option.map_some, Option.getD_some, beq_iff_eq] at htype
    have hsame : record ∈ zone.records.filter zone.isApexSoa :=
      List.mem_filter.mpr ⟨List.mem_of_getElem? hrecord, isApexSoa_iff.mpr ⟨htype, hkey⟩⟩
    rw [hsoa, List.mem_singleton] at hsame
    subst hsame
    exact ⟨position, record, rfl, hrecord, hapex, hrest⟩

theorem removeApexSoa (h : Version zone) :
    ∃ position soa after, Transfer.apexSoaPosition zone = some position ∧
      zone.removeRecord position = some (soa, after) ∧ Zone.ZoneOk after ∧ after.origin = zone.origin ∧
      identities after = beside zone ∧ ∀ r ∈ after.records, r ∈ zone.records := by
  obtain ⟨position, soa, hposition, hrecord, -, hids⟩ := h.apexSoaPosition
  have hlt := (List.getElem?_eq_some_iff.mp hrecord).1
  obtain ⟨record, after, hremove, hrecord', horigin, hrecords, hok⟩ := h.ok.removeRecord hlt
  cases hrecord.symm.trans hrecord'
  refine ⟨position, soa, after, hposition, hremove, hok, horigin, ?_, ?_⟩
  · have hsplit := identities_swapRemove hrecord hrecords
    rw [hids] at hsplit
    exact ((Multiset.cons_inj_right _).mp hsplit).symm
  · grind [Zone.mem_of_mem_swapRemove]

/-! ## Applying a patch -/

theorem identities_add (zone : Zone) (record : ResourceRecord) :
    identities (zone.add (zoneRecord record)) = identity (kept record) ::ₘ identities zone := by
  rw [identities, Zone.add, Zone.takeIn_records, List.map_append, List.map_cons, List.map_nil, identities,
    ← Multiset.coe_add, Multiset.coe_singleton, add_comm, Multiset.singleton_add]
  rfl

theorem identities_adds (records : List ResourceRecord) (hok : Zone.ZoneOk zone) :
    Zone.ZoneOk (records.foldl (fun zone record => zone.add (zoneRecord record)) zone) ∧
      (records.foldl (fun zone record => zone.add (zoneRecord record)) zone).origin = zone.origin ∧
      identities (records.foldl (fun zone record => zone.add (zoneRecord record)) zone) =
        ((records.map fun record => identity (kept record) : List Identity) : Multiset Identity) + identities zone := by
  induction records generalizing zone with
  | nil => exact ⟨hok, rfl, (zero_add _).symm⟩
  | cons record records ih =>
    obtain ⟨hok', horigin, hids⟩ := ih (show Zone.ZoneOk (zone.add (zoneRecord record)) from hok.takeIn _)
    refine ⟨hok', horigin.trans (Zone.takeIn_origin _ _), ?_⟩
    rw [List.foldl_cons, hids, identities_add, List.map_cons, ← Multiset.cons_coe, Multiset.cons_add,
      Multiset.add_cons]

theorem withheldOf_perm {entries others : Entries Octets (List Withheld)} (h : entries.Perm others) :
    withheldOf entries = withheldOf others :=
  (h.map _).sum_eq

/-- **A patch applied** is what was staged, done to the base's records beside its apex SOA. -/
theorem Patch.apply_staged (hwalk : ∀ p, (walk p).Perm p.withhold)
    (hcount : p.requested = p.staged.withheld.card + p.staged.cancelled) (hbase : Version base)
    (newSoa : ResourceRecord) :
    ∃ zone, p.apply walk base newSoa = some (zone, p.staged.missing (beside base)) ∧ Zone.ZoneOk zone ∧
      zone.origin = base.origin ∧
      identities zone = identity (kept newSoa) ::ₘ (beside base - p.staged.withheld +
        ((p.append.filterMap id).map fun record => identity (kept record) : List Identity)) := by
  obtain ⟨position, soa, opened, hposition, hremove, hopened, horigin, hids, -⟩ := removeApexSoa hbase
  obtain ⟨left, removed, hrun, hleft, horigin', hids', htotal⟩ :=
    removeWithheld_foldlM (walk p) hopened p.cancelled
  have hwithheld : withheldOf (walk p) = p.staged.withheld := withheldOf_perm (hwalk p)
  rw [hwithheld, hids] at hids'
  have hsoa : Zone.ZoneOk (left.add (zoneRecord newSoa)) := hleft.takeIn _
  obtain ⟨hok, horigin'', hids''⟩ := identities_adds (p.append.filterMap id) hsoa
  -- the deletions that took back an addition, and the records taken out
  have hcard := Staged.card_sub_add_missing p.staged (beside base)
  rw [hids', hids] at htotal
  have hremoved : removed + p.staged.missing (beside base) = p.requested := by
    rw [hcount, show p.staged.cancelled = p.cancelled from rfl]
    omega
  refine ⟨_, ?_, hok, ?_, ?_⟩
  · rw [apply, hposition]
    show ((base.removeRecord position).map Prod.snd >>= _) = _
    rw [hremove]
    show ((walk p).foldlM removeWithheld (opened, p.cancelled) >>= _) = _
    rw [hrun]
    show (if p.requested < removed then none else some (_, p.requested - removed)) = _
    rw [if_neg (by omega), ← hremoved, Nat.add_sub_cancel_left]
  · rw [horigin'']
    exact (Zone.takeIn_origin _ _).trans (horigin'.trans horigin)
  · rw [hids'', identities_add, hids', Multiset.add_cons, add_comm]

theorem Patch.step_counted (h : p.Ok)
    (hcount : p.requested = p.staged.withheld.card + p.staged.cancelled)
    (deleted added : List ResourceRecord) :
    (p.step deleted added).requested =
      (p.step deleted added).staged.withheld.card + (p.step deleted added).staged.cancelled := by
  obtain ⟨-, hrequested, hstaged⟩ := Patch.step_staged h deleted added
  rw [hrequested, hstaged, Staged.card_step, hcount, List.length_map]

theorem Patch.staged_new : Patch.new.staged = Staged.empty := rfl

theorem staged_of_empty (deleted added : List Identity) (base : Multiset Identity) :
    ((Staged.empty : Staged Identity).step deleted added).result base = base - deleted + added ∧
      ((Staged.empty : Staged Identity).step deleted added).missing base = ((deleted : Multiset Identity) - base).card := by
  rw [Staged.result_step, Staged.missing_step, Staged.result_empty, Staged.missing_empty, Nat.zero_add]
  exact ⟨rfl, rfl⟩

theorem Patch.append_step (p : Patch) (deleted added : List ResourceRecord)
    (h : some record ∈ (p.step deleted added).append) :
    some record ∈ p.append ∨ record ∈ added := by
  have hdeletion : ∀ (p : Patch) (gone : ResourceRecord), some record ∈ (p.stageDeletion gone).append →
      some record ∈ p.append := by
    intro p gone hmem
    rw [stageDeletion] at hmem
    cases hcancel : p.cancelPending gone with
    | none =>
      rw [hcancel] at hmem
      exact hmem
    | some p' =>
      rw [hcancel] at hmem
      obtain ⟨positions, -, hcancel⟩ := Option.bind_eq_some_iff.mp hcancel
      obtain ⟨found, -, hcancel⟩ := Option.bind_eq_some_iff.mp hcancel
      obtain ⟨position, -, hcancel⟩ := Option.bind_eq_some_iff.mp hcancel
      cases hcancel
      exact (List.mem_or_eq_of_mem_set hmem).resolve_right (Option.some_ne_none _)
  have hdeletions : ∀ (gone : List ResourceRecord) (p : Patch),
      some record ∈ (gone.foldl stageDeletion p).append → some record ∈ p.append := by
    intro gone
    induction gone with
    | nil => exact fun _ hmem => hmem
    | cons head gone ih => exact fun p hmem => hdeletion p head (ih _ hmem)
  have hadditions : ∀ (more : List ResourceRecord) (p : Patch),
      some record ∈ (more.foldl stageAddition p).append → some record ∈ p.append ∨ record ∈ more := by
    intro more
    induction more with
    | nil => exact fun _ hmem => .inl hmem
    | cons head more ih =>
      intro p hmem
      rcases ih _ hmem with hmem | hmem
      · rw [stageAddition, List.mem_append, List.mem_singleton, Option.some_inj] at hmem
        rcases hmem with hmem | rfl
        · exact .inl hmem
        · exact .inr List.mem_cons_self
      · exact .inr (List.mem_cons_of_mem _ hmem)
  rw [step] at h
  rcases hadditions added _ h with hmem | hmem
  · exact .inl (hdeletions deleted { p with requested := p.requested + deleted.length } hmem)
  · exact .inr hmem

theorem Patch.apply_sized (hwalk : ∀ p, (walk p).Perm p.withhold)
    (hcount : p.requested = p.staged.withheld.card + p.staged.cancelled) (hbase : Version base)
    {newSoa : ResourceRecord} (hsoa : Sized newSoa) (happend : ∀ r, some r ∈ p.append → Sized r) :
    ∃ zone, p.apply walk base newSoa = some (zone, p.staged.missing (beside base)) ∧ Zone.ZoneOk zone ∧
      zone.origin = base.origin ∧ identities zone = identity newSoa ::ₘ p.staged.result (beside base) := by
  obtain ⟨zone, happly, hok, horigin, hids⟩ := Patch.apply_staged hwalk hcount hbase newSoa
  have hkept : (p.append.filterMap id).map (fun record => identity (kept record)) =
      (p.append.filterMap id).map identity := by
    refine List.map_congr_left fun record hrecord => ?_
    obtain ⟨_, hmem, rfl⟩ := List.mem_filterMap.mp hrecord
    rw [kept_eq_self (happend record hmem)]
  rw [kept_eq_self hsoa, hkept] at hids
  exact ⟨zone, happly, hok, horigin, hids⟩

/-! ## Diff and apply -/

def Held (zone : Zone) : Prop := ∃ origin ops, (Zone.new origin).run ops = some zone

theorem Held.ok (h : Held zone) : Zone.ZoneOk zone := by
  obtain ⟨origin, ops, hrun⟩ := h
  exact (Zone.zoneOk_new origin).run hrun

theorem Held.fits (h : Held zone) : Zone.Fits zone := by
  obtain ⟨origin, ops, hrun⟩ := h
  refine Zone.Fits.run ?_ (Zone.zoneOk_new origin) hrun
  intro r hr
  cases hr

theorem sized_of_mem (h : Zone.Fits zone) (hmem : identity record ∈ identities zone) :
    Sized record := by
  obtain ⟨held, hheld, heq⟩ := List.mem_map.mp (Multiset.mem_coe.mp hmem)
  have hrdata : held.rdata = record.rdata := congrArg (fun i : Identity => i.2.2.2) heq
  rw [Sized, ← hrdata]
  exact h held hheld

theorem Version.identities_eq (h : Version zone) {soa : ResourceRecord}
    (hsoa : apexSoaRecord zone = some soa) : identities zone = identity soa ::ₘ beside zone := by
  obtain ⟨soa', hsoa', hcontents⟩ := h.contents_eq
  cases hsoa.symm.trans hsoa'
  -- an identity is read off the folded record
  have hmap := congrArg (Multiset.map fun r : ResourceRecord =>
    ((r.name.wire, r.cls, r.ttl, r.rdata) : Identity)) hcontents
  rw [Multiset.map_cons, contents, Multiset.map_coe, Multiset.map_coe, List.map_map, List.map_map] at hmap
  exact hmap

/-- **Diff and apply are inverse**: what the difference of two versions says, applied to the old
one, gives the records of the new one; every deletion found a record, and nothing is both
deleted and added. -/
theorem apply_diff {walk : Patch → Entries Octets (List Withheld)} (hwalk : ∀ p, (walk p).Perm p.withhold)
    {old new : Zone} (hold : Held old) (hnew : Held new)
    (holdSoa : (old.records.filter old.isApexSoa).length = 1)
    (hnewSoa : (new.records.filter new.isApexSoa).length = 1) {delta : ZoneDelta}
    (h : diff old new = some delta) :
    (∃ zone, applyChanges walk old delta.deleted delta.added delta.toSoa = some (zone, delta.deleted.length) ∧
      identities zone = identities new) ∧
    ∀ a ∈ delta.deleted, ∀ b ∈ delta.added, identity a ≠ identity b := by
  have hversion : Version old := ⟨hold.ok, holdSoa⟩
  have hversion' : Version new := ⟨hnew.ok, hnewSoa⟩
  obtain ⟨fromSoa, -, h⟩ := Option.bind_eq_some_iff.mp h
  obtain ⟨toSoa, hto, h⟩ := Option.bind_eq_some_iff.mp h
  obtain ⟨fromSerial, -, h⟩ := Option.bind_eq_some_iff.mp h
  obtain ⟨toSerial, -, h⟩ := Option.bind_eq_some_iff.mp h
  cases h
  obtain ⟨hdeleted, hadded⟩ := map_ident_counts identity_eq_iff (besideSoa old) (besideSoa new)
  have hnewIds := hversion'.identities_eq hto
  generalize Difference.deleted (Difference.counts recordKey (besideSoa old) (besideSoa new)) = deleted at hdeleted ⊢
  generalize Difference.added (Difference.counts recordKey (besideSoa old) (besideSoa new)) = added at hadded ⊢
  have hd : ((deleted.map identity : List Identity) : Multiset Identity) = beside old - beside new := hdeleted
  have ha : ((added.map identity : List Identity) : Multiset Identity) = beside new - beside old := hadded
  dsimp only
  constructor
  · have hsized : ∀ r ∈ added, Sized r := by
      intro r hr
      have hmem : identity r ∈ beside new - beside old := ha ▸ Multiset.mem_coe.mpr (List.mem_map_of_mem hr)
      refine sized_of_mem hnew.fits ?_
      rw [hnewIds]
      exact Multiset.mem_cons_of_mem (Multiset.mem_of_le (Multiset.sub_le_self _ _) hmem)
    have hsoa : Sized toSoa := sized_of_mem hnew.fits (hnewIds ▸ Multiset.mem_cons_self _ _)
    obtain ⟨-, -, hstaged⟩ := Patch.step_staged Patch.ok_new deleted added
    rw [Patch.staged_new] at hstaged
    obtain ⟨hresult, hmissing⟩ := staged_of_empty (deleted.map identity) (added.map identity) (beside old)
    obtain ⟨zone, happly, -, -, hids⟩ := Patch.apply_sized hwalk
      (Patch.step_counted Patch.ok_new rfl deleted added) hversion hsoa
      (fun r hr => hsized r ((Patch.append_step _ _ _ hr).resolve_left (by rintro ⟨⟩)))
    rw [hstaged, hmissing] at happly
    rw [hstaged, hresult, hd, ha] at hids
    have hnone : ((deleted.map identity : Multiset Identity) - beside old).card = 0 := by
      rw [hd, Multiset.card_eq_zero]
      ext i
      rw [Multiset.count_sub, Multiset.count_sub, Multiset.count_zero]
      omega
    refine ⟨zone, ?_, ?_⟩
    · rw [applyChanges, happly]
      show some (zone, deleted.length - _) = _
      rw [hnone, Nat.sub_zero]
    · rw [hids, hnewIds]
      congr 1
      ext i
      rw [Multiset.count_add, Multiset.count_sub, Multiset.count_sub, Multiset.count_sub]
      omega
  · intro a hin b hin' heq
    have hcountA : 0 < (beside old - beside new).count (identity a) :=
      hd ▸ Multiset.count_pos.mpr (Multiset.mem_coe.mpr (List.mem_map_of_mem hin))
    have hcountB : 0 < (beside new - beside old).count (identity a) :=
      ha ▸ heq ▸ Multiset.count_pos.mpr (Multiset.mem_coe.mpr (List.mem_map_of_mem hin'))
    rw [Multiset.count_sub] at hcountA hcountB
    omega

def rootSoaAt (serial : UInt8) : ZoneRecord :=
  ⟨Name.root, ⟨300⟩, .IN, ⟨SOA, 0 :: 0 :: 0 :: 0 :: 0 :: serial :: List.replicate 16 0⟩⟩

def rootAddress (last : UInt8) : ZoneRecord :=
  ⟨Name.root, ⟨300⟩, .IN, ⟨A, [192, 0, 2, last]⟩⟩

def rootVersion (serial : UInt8) (addresses : List UInt8) : Zone :=
  (addresses.map rootAddress).foldl Zone.add ((Zone.new Name.root).add (rootSoaAt serial))

theorem held_rootVersion (serial : UInt8) (addresses : List UInt8) : Held (rootVersion serial addresses) := by
  have hrun : ∀ (records : List ZoneRecord) (zone : Zone),
      zone.run (records.map ZoneOp.add) = some (records.foldl Zone.add zone) := by
    intro records
    induction records with
    | nil => exact fun zone => rfl
    | cons record records ih => exact fun zone => ih (zone.add record)
  exact ⟨Name.root, .add (rootSoaAt serial) :: (addresses.map rootAddress).map ZoneOp.add, hrun _ _⟩

theorem apply_diff_rootVersion :
    ∃ delta zone, diff (rootVersion 1 [1, 2, 2]) (rootVersion 2 [2, 3]) = some delta ∧
      applyChanges Patch.withhold (rootVersion 1 [1, 2, 2]) delta.deleted delta.added delta.toSoa =
        some (zone, delta.deleted.length) ∧ identities zone = identities (rootVersion 2 [2, 3]) := by
  have hsome : (diff (rootVersion 1 [1, 2, 2]) (rootVersion 2 [2, 3])).isSome = true := by decide +kernel
  obtain ⟨delta, hdelta⟩ := Option.isSome_iff_exists.mp hsome
  obtain ⟨⟨zone, happly, hids⟩, -⟩ := apply_diff (fun _ => List.Perm.refl _) (held_rootVersion _ _)
    (held_rootVersion _ _) (by decide +kernel) (by decide +kernel) hdelta
  exact ⟨delta, zone, hdelta, happly, hids⟩

/-! ## A chain -/

structure ChainStep where
  deleted : List ResourceRecord
  added : List ResourceRecord
  soa : ResourceRecord

def stageChain (steps : List ChainStep) : Patch :=
  steps.foldl (fun p step => p.step step.deleted step.added) Patch.new

def applyStep (walk : Patch → Entries Octets (List Withheld)) (state : Zone × Nat) (step : ChainStep) :
    Option (Zone × Nat) := do
  let (zone, found) ← applyChanges walk state.1 step.deleted step.added step.soa
  return (zone, state.2 + (step.deleted.length - found))

def applyChain (walk : Patch → Entries Octets (List Withheld)) (base : Zone) (steps : List ChainStep) :
    Option (Zone × Nat) := steps.foldlM (applyStep walk) (base, 0)

def ChainAgrees (walk : Patch → Entries Octets (List Withheld)) (base : Zone) (steps : List ChainStep)
    (newSoa : ResourceRecord) : Prop :=
  ∃ staged applied missing, (stageChain steps).apply walk base newSoa = some (staged, missing) ∧
    applyChain walk base steps = some (applied, missing) ∧ identities staged = identities applied

def IsApex (origin : Octets) (i : Identity) : Prop := i.2.2.2.rtype = SOA ∧ i.1 = origin

instance instDecidableIsApex (origin : Octets) (i : Identity) : Decidable (IsApex origin i) :=
  inferInstanceAs (Decidable (_ ∧ _))

/-- A step of a chain for the zone at `origin`: its records are not apex SOAs, its SOA is one, and
what it puts in is of a length a record can say. -/
structure ChainStep.Proper (origin : Octets) (step : ChainStep) : Prop where
  beside : ∀ r ∈ step.deleted ++ step.added, ¬ IsApex origin (identity r)
  soa : IsApex origin (identity step.soa)
  sized : ∀ r ∈ step.soa :: step.added, Sized r

theorem isApex_iff {record : ZoneRecord} :
    zone.isApexSoa record = true ↔ IsApex zone.originKey (identity (asRecord record)) :=
  isApexSoa_iff

theorem beside_eq_filter (zone : Zone) :
    beside zone = (identities zone).filter fun i => ¬ IsApex zone.originKey i := by
  rw [beside, besideSoa, identities, Multiset.filter_coe, List.filter_map, List.map_map]
  congr 2
  refine List.filter_congr fun r _ => ?_
  rw [Function.comp_apply, Bool.eq_iff_iff, Bool.not_eq_true', decide_eq_true_eq, ← isApex_iff,
    Bool.not_eq_true]

theorem not_apex_of_mem_beside {i : Identity} (h : i ∈ beside zone) :
    ¬ IsApex zone.originKey i := by
  rw [beside_eq_filter] at h
  exact (Multiset.mem_filter.mp h).2

theorem version_of_identities (hok : Zone.ZoneOk zone) {soa : Identity} {rest : Multiset Identity}
    (hids : identities zone = soa ::ₘ rest) (hsoa : IsApex zone.originKey soa)
    (hrest : ∀ i ∈ rest, ¬ IsApex zone.originKey i) : Version zone ∧ beside zone = rest := by
  constructor
  · refine ⟨hok, ?_⟩
    have hfilter : (identities zone).filter (IsApex zone.originKey) = {soa} := by
      rw [hids, Multiset.filter_cons_of_pos _ hsoa, Multiset.filter_eq_nil.mpr hrest, Multiset.cons_zero]
    have hcard := congrArg Multiset.card hfilter
    rw [identities, Multiset.filter_coe, List.filter_map, Multiset.coe_card, List.length_map,
      Multiset.card_singleton] at hcard
    rw [← hcard]
    congr 1
    refine List.filter_congr fun r _ => ?_
    rw [Function.comp_apply, Bool.eq_iff_iff, decide_eq_true_eq]
    exact isApex_iff
  · have htail : (soa ::ₘ rest).filter (fun i => ¬ IsApex zone.originKey i) =
        rest.filter fun i => ¬ IsApex zone.originKey i :=
      Multiset.filter_cons_of_neg _ (not_not.mpr hsoa)
    rw [beside_eq_filter, hids, htail, Multiset.filter_eq_self.mpr hrest]

theorem not_apex_of_mem_result {origin : Octets} {base : Multiset Identity} {deleted : List Identity}
    {added : List ResourceRecord} (hbase : ∀ i ∈ base, ¬ IsApex origin i)
    (hadded : ∀ r ∈ added, ¬ IsApex origin (identity r)) {i : Identity}
    (h : i ∈ base - deleted + (added.map identity : List Identity)) : ¬ IsApex origin i := by
  rcases Multiset.mem_add.mp h with h | h
  · exact hbase i (Multiset.mem_of_le (Multiset.sub_le_self _ _) h)
  · obtain ⟨r, hr, rfl⟩ := List.mem_map.mp (Multiset.mem_coe.mp h)
    exact hadded r hr

/-- **One step applied**: its deletions taken out, its additions and its SOA put in. -/
theorem applyStep_eq (hwalk : ∀ p, (walk p).Perm p.withhold) (hzone : Version zone)
    {step : ChainStep} (hstep : step.Proper zone.originKey) (missing : Nat) :
    ∃ after, applyStep walk (zone, missing) step =
        some (after, missing + ((step.deleted.map identity : Multiset Identity) - beside zone).card) ∧
      Version after ∧ after.origin = zone.origin ∧
      identities after = identity step.soa ::ₘ
        (beside zone - (step.deleted.map identity : List Identity) + (step.added.map identity : List Identity)) ∧
      beside after =
        beside zone - (step.deleted.map identity : List Identity) + (step.added.map identity : List Identity) := by
  obtain ⟨-, -, hstaged⟩ := Patch.step_staged Patch.ok_new step.deleted step.added
  rw [Patch.staged_new] at hstaged
  obtain ⟨hresult, hmissing⟩ :=
    staged_of_empty (step.deleted.map identity) (step.added.map identity) (beside zone)
  obtain ⟨after, happly, hok, horigin, hids⟩ := Patch.apply_sized hwalk
    (Patch.step_counted Patch.ok_new rfl step.deleted step.added) hzone (hstep.sized _ List.mem_cons_self)
    (fun r hr => hstep.sized r (List.mem_cons_of_mem _
      ((Patch.append_step _ _ _ hr).resolve_left (by rintro ⟨⟩))))
  rw [hstaged, hmissing] at happly
  rw [hstaged, hresult] at hids
  have hkey : after.originKey = zone.originKey := congrArg (fun n : Name => n.toFolded.wire) horigin
  obtain ⟨hversion, hbeside⟩ := version_of_identities hok hids (hkey ▸ hstep.soa) (fun i hi => by
    rw [hkey]
    exact not_apex_of_mem_result (fun i hi => not_apex_of_mem_beside hi)
      (fun r hr => hstep.beside r (List.mem_append_right _ hr)) hi)
  have hle : ((step.deleted.map identity : Multiset Identity) - beside zone).card ≤ step.deleted.length := by
    have hcard := Multiset.card_le_card (Multiset.sub_le_self (step.deleted.map identity : Multiset Identity) (beside zone))
    rwa [Multiset.coe_card, List.length_map] at hcard
  refine ⟨after, ?_, hversion, horigin, hids, hbeside⟩
  rw [applyStep, applyChanges, happly]
  show some (after, missing + (step.deleted.length - (step.deleted.length - _))) = _
  rw [Nat.sub_sub_self hle]

/-- What a chain staged so far, and the zone that the chain applied so far led to. -/
structure InStep (base : Zone) (p : Patch) (zone : Zone) (missing : Nat) : Prop where
  ok : p.Ok
  counted : p.requested = p.staged.withheld.card + p.staged.cancelled
  sized : ∀ r, some r ∈ p.append → Sized r
  version : Version zone
  origin : zone.origin = base.origin
  result : beside zone = p.staged.result (beside base)
  missing : missing = p.staged.missing (beside base)

theorem inStep_new (h : Version base) : InStep base Patch.new base 0 where
  ok := Patch.ok_new
  counted := rfl
  sized := fun r hr => by cases hr
  version := h
  origin := rfl
  result := (Staged.result_empty _).symm
  missing := (Staged.missing_empty _).symm

/-- **A step keeps the two in step.** -/
theorem InStep.step {walk : Patch → Entries Octets (List Withheld)} (hwalk : ∀ p, (walk p).Perm p.withhold)
    {base : Zone} {p : Patch} {zone : Zone} {missing : Nat} (h : InStep base p zone missing) {step : ChainStep}
    (hstep : step.Proper base.originKey) :
    ∃ after total, applyStep walk (zone, missing) step = some (after, total) ∧
      InStep base (p.step step.deleted step.added) after total ∧
      identities after = identity step.soa ::ₘ
        (p.step step.deleted step.added).staged.result (beside base) := by
  have hkey : zone.originKey = base.originKey := congrArg (fun n : Name => n.toFolded.wire) h.origin
  obtain ⟨after, hrun, hversion, horigin, hids, hbeside⟩ := applyStep_eq hwalk h.version (hkey ▸ hstep) missing
  obtain ⟨hok, -, hstaged⟩ := Patch.step_staged h.ok step.deleted step.added
  have hresult : (p.step step.deleted step.added).staged.result (beside base) = beside after := by
    rw [hstaged, Staged.result_step, hbeside, h.result]
  refine ⟨after, _, hrun, ⟨hok, Patch.step_counted h.ok h.counted _ _, ?_, hversion, horigin.trans h.origin,
    hresult.symm, ?_⟩, ?_⟩
  · intro r hr
    rcases Patch.append_step _ _ _ hr with hr | hr
    · exact h.sized r hr
    · exact hstep.sized r (List.mem_cons_of_mem _ hr)
  · rw [hstaged, Staged.missing_step, h.missing, h.result]
  · rw [hresult, hbeside]
    exact hids

theorem inStep_chain (hwalk : ∀ p, (walk p).Perm p.withhold) (steps : List ChainStep)
    {missing : Nat} (h : InStep base p zone missing)
    (hsteps : ∀ step ∈ steps, step.Proper base.originKey) :
    ∃ after total, steps.foldlM (applyStep walk) (zone, missing) = some (after, total) ∧
      InStep base (steps.foldl (fun p step => p.step step.deleted step.added) p) after total ∧
      ∀ last ∈ steps.getLast?, identities after = identity last.soa ::ₘ
        (steps.foldl (fun p step => p.step step.deleted step.added) p).staged.result (beside base) := by
  induction steps generalizing p zone missing with
  | nil => exact ⟨zone, missing, rfl, h, fun last hlast => by cases hlast⟩
  | cons step rest ih =>
    obtain ⟨hhead, hrest⟩ := List.forall_mem_cons.mp hsteps
    obtain ⟨next, partway, hfirst, hnext, hids⟩ := h.step hwalk hhead
    obtain ⟨after, total, hrun, hafter, hlast⟩ := ih hnext hrest
    refine ⟨after, total, ?_, hafter, fun last hmem => ?_⟩
    · rw [List.foldlM_cons, hfirst]
      exact hrun
    · grind

/-- **A staged chain is the chain applied step by step**: for a chain of at least one step, the
same records, duplicates and unmatched deletions included, and the same missing count. -/
theorem staged_chain {walk : Patch → Entries Octets (List Withheld)} (hwalk : ∀ p, (walk p).Perm p.withhold)
    {base : Zone} (hbase : Held base) (hsoa : (base.records.filter base.isApexSoa).length = 1)
    {steps : List ChainStep} (hsteps : ∀ step ∈ steps, step.Proper base.originKey) {last : ChainStep}
    (hlast : steps.getLast? = some last) : ChainAgrees walk base steps last.soa := by
  have hversion : Version base := ⟨hbase.ok, hsoa⟩
  obtain ⟨applied, missing, hrun, hin, hids⟩ := inStep_chain hwalk steps (inStep_new hversion) hsteps
  have hmem : last ∈ steps := List.mem_of_getLast? hlast
  obtain ⟨staged, happly, -, -, hstaged⟩ := Patch.apply_sized hwalk hin.counted hversion
    ((hsteps last hmem).sized _ List.mem_cons_self) hin.sized
  refine ⟨staged, applied, missing, ?_, hrun, ?_⟩
  · rw [hin.missing]
    exact happly
  · rw [hids last hlast]
    exact hstaged

def rootChain : List ChainStep :=
  [⟨[asRecord (rootAddress 9)], [asRecord (rootAddress 3)], asRecord (rootSoaAt 2)⟩,
    ⟨[asRecord (rootAddress 3)], [asRecord (rootAddress 3)], asRecord (rootSoaAt 3)⟩]

theorem proper_rootChain : ∀ step ∈ rootChain, step.Proper (rootVersion 1 [1, 2]).originKey := by
  intro step hstep
  rcases List.mem_cons.mp hstep with rfl | hstep
  · exact ⟨by decide +kernel, by decide +kernel, by decide +kernel⟩
  · rw [List.mem_singleton] at hstep
    subst hstep
    exact ⟨by decide +kernel, by decide +kernel, by decide +kernel⟩

theorem staged_rootChain :
    ChainAgrees Patch.withhold (rootVersion 1 [1, 2]) rootChain (asRecord (rootSoaAt 3)) := by
  have hlast : rootChain.getLast? = some
      ⟨[asRecord (rootAddress 3)], [asRecord (rootAddress 3)], asRecord (rootSoaAt 3)⟩ := rfl
  have hone : ((rootVersion 1 [1, 2]).records.filter (rootVersion 1 [1, 2]).isApexSoa).length = 1 := by
    decide +kernel
  have hagrees := staged_chain (fun p => List.Perm.refl p.withhold) (held_rootVersion 1 [1, 2]) hone
    proper_rootChain hlast
  exact hagrees

def rootText (rdata : Octets) : ResourceRecord := ⟨Name.root, .IN, ⟨300⟩, ⟨TXT, rdata⟩⟩

theorem identity_kept_rootText {rdata : Octets} (hlong : rdata.length = 65536) :
    identity (kept (rootText rdata)) ≠ identity (rootText rdata) := by
  intro heq
  have hrdata := congrArg (fun i : Identity => i.2.2.2.rdata.length) heq
  have hkept : (rdata.take (rdata.length % 65536)).length = rdata.length := hrdata
  rw [List.length_take, hlong] at hkept
  omega

def comeAndGone (record : ResourceRecord) : List ChainStep :=
  [⟨[], [record], asRecord (rootSoaAt 2)⟩, ⟨[record], [], asRecord (rootSoaAt 3)⟩]

theorem rootText_disagrees {rdata : Octets} (hlong : rdata.length = 65536) :
    ¬ ChainAgrees Patch.withhold (rootVersion 1 []) (comeAndGone (rootText rdata)) (asRecord (rootSoaAt 3)) := by
  have hversion : Version (rootVersion 1 []) := ⟨(held_rootVersion 1 []).ok, by decide +kernel⟩
  have hwalk : ∀ p : Patch, p.withhold.Perm p.withhold := fun _ => List.Perm.refl _
  have hbeside : beside (rootVersion 1 []) = 0 := by
    rw [beside, show besideSoa (rootVersion 1 []) = [] by decide +kernel]
    rfl
  rintro ⟨staged, applied, missing, hstaged, happlied, -⟩
  -- staged, the second step takes the first one's addition back
  obtain ⟨hok₁, -, hstaged₁⟩ := Patch.step_staged Patch.ok_new [] [rootText rdata]
  obtain ⟨-, -, hstaged₂⟩ := Patch.step_staged hok₁ [rootText rdata] []
  have hcounted := Patch.step_counted hok₁ (Patch.step_counted Patch.ok_new rfl [] [rootText rdata]) [rootText rdata] []
  obtain ⟨zone, happly, -⟩ := Patch.apply_staged hwalk hcounted hversion (asRecord (rootSoaAt 3))
  have hnone : ((Patch.new.step [] [rootText rdata]).step [rootText rdata] []).staged.missing (beside (rootVersion 1 [])) = 0 := by
    rw [hstaged₂, Staged.missing_step, hstaged₁, Patch.staged_new, (staged_of_empty _ _ _).1,
      (staged_of_empty _ _ _).2, hbeside]
    simp
  rw [hnone] at happly
  cases happly.symm.trans hstaged
  -- applied, the first step leaves a record of no octets, and the second finds nothing
  obtain ⟨zone₁, happly₁, hok, horigin, hids⟩ := Patch.apply_staged hwalk
    (Patch.step_counted Patch.ok_new rfl [] [rootText rdata]) hversion (asRecord (rootSoaAt 2))
  rw [hbeside, hstaged₁, Patch.staged_new] at hids
  have hids₁ : identities zone₁ =
      identity (kept (asRecord (rootSoaAt 2))) ::ₘ {identity (kept (rootText rdata))} := hids
  have hkey : zone₁.originKey = (rootVersion 1 []).originKey :=
    congrArg (fun n : Name => n.toFolded.wire) horigin
  obtain ⟨hversion₁, hbeside₁⟩ := version_of_identities hok hids₁
    (by rw [hkey]; exact ⟨rfl, rfl⟩)
    (fun i hi => by
      rw [Multiset.mem_singleton.mp hi]
      exact fun h => absurd (show TXT = SOA from h.1) (by decide))
  obtain ⟨-, -, hstaged₃⟩ := Patch.step_staged Patch.ok_new [rootText rdata] []
  obtain ⟨zone₂, happly₂, -⟩ := Patch.apply_staged hwalk
    (Patch.step_counted Patch.ok_new rfl [rootText rdata] []) hversion₁ (asRecord (rootSoaAt 3))
  have hone : (Patch.new.step [rootText rdata] []).staged.missing (beside zone₁) = 1 := by
    rw [hstaged₃, Patch.staged_new, (staged_of_empty _ _ _).2, hbeside₁]
    show (({identity (rootText rdata)} : Multiset Identity) - {identity (kept (rootText rdata))}).card = 1
    rw [Multiset.sub_singleton, Multiset.erase_of_notMem
      fun h => identity_kept_rootText hlong (Multiset.mem_singleton.mp h)]
    rfl
  have hfirst : applyStep Patch.withhold (rootVersion 1 [], 0)
      ⟨[], [rootText rdata], asRecord (rootSoaAt 2)⟩ = some (zone₁, 0) := by
    rw [applyStep, applyChanges, happly₁]
    show some (zone₁, 0 + (0 - (0 - _))) = _
    rw [Nat.zero_sub]
  have hsecond : applyStep Patch.withhold (zone₁, 0)
      ⟨[rootText rdata], [], asRecord (rootSoaAt 3)⟩ = some (zone₂, 1) := by
    rw [applyStep, applyChanges, happly₂, hone]
    rfl
  rw [applyChain, comeAndGone, List.foldlM_cons, hfirst, Option.bind_eq_bind, Option.bind_some,
    List.foldlM_cons, hsecond] at happlied
  cases happlied

/-- **Where the two part**: a chain of no steps, which applied step by step leaves the old SOA; and
RDATA the arena cannot keep whole, which a staged deletion takes back and a step's does not find. -/
theorem chain_disagrees :
    ¬ ChainAgrees Patch.withhold (rootVersion 1 []) [] (asRecord (rootSoaAt 2)) ∧
      ¬ ChainAgrees Patch.withhold (rootVersion 1 []) (comeAndGone (rootText (List.replicate 65536 0)))
        (asRecord (rootSoaAt 3)) := by
  have hversion : Version (rootVersion 1 []) := ⟨(held_rootVersion 1 []).ok, by decide +kernel⟩
  have hwalk : ∀ p : Patch, p.withhold.Perm p.withhold := fun _ => List.Perm.refl _
  refine ⟨?_, rootText_disagrees List.length_replicate⟩
  rintro ⟨staged, applied, missing, hstaged, happlied, hids⟩
  have hsized : Sized (asRecord (rootSoaAt 2)) := by decide
  have hnothing : ∀ r, some r ∈ Patch.new.append → Sized r := fun r hr => by cases hr
  obtain ⟨zone, happly, -, -, hzone⟩ := Patch.apply_sized hwalk rfl hversion hsized hnothing
  cases happly.symm.trans hstaged
  cases happlied
  have hmem : identity (asRecord (rootSoaAt 2)) ∈ identities (rootVersion 1 []) := by
    rw [← hids, hzone]
    exact Multiset.mem_cons_self _ _
  exact absurd hmem (by decide +kernel)

end Rdns.Transfer
