import Rdns.Catalogs.ReconcileLaws

/-!
# Rdns — What a reconcile does to every zone

A catalog lists a zone once, and a zone has one row. So of the members one is about a zone or
none is, and of the rows too; every other step leaves it untouched.
-/

namespace Rdns.Catalogs

open Rdns.Lib Rdns.Core Rdns.Present Rdns.Zones Rdns.Server

variable {consumer : Consumer} {call : ReconcileCall} {spec : CatalogSpec} {mine : Rows}

/-! ## One member -/

def CatalogSpec.leaves (spec : CatalogSpec) (member : CatalogMember) (row : MemberRow) : Bool :=
  match spec.fetch member with
  | .ambiguous => true
  | fetch => row.node.same member.node && row.group = fetch.group

def Cleared (consumer : Consumer) (call : ReconcileCall) (zone : Name) (before start : ConsumerState) : Prop :=
  start = before ∨ start = before.retire zone ∨ start = consumer.remove call zone before

def Consumer.settleMember (consumer : Consumer) (call : ReconcileCall) (spec : CatalogSpec) (mine : Rows)
    (state : ConsumerState) (member : CatalogMember) : ConsumerState :=
  match mine.rowFor member.zone with
  | some row =>
    if row.node.same member.node then
      if row.group = (spec.fetch member).group then state
      else add call spec member (spec.fetch member) (state.retire member.zone)
    else add call spec member (spec.fetch member) (consumer.remove call member.zone state)
  | none =>
    match consumer.ownership spec member state with
    | .free => add call spec member (spec.fetch member) state
    | .taken | .alreadyHandedOver _ => state
    | .handedOver _ reset =>
      add call spec member (spec.fetch member)
        (if reset then consumer.remove call member.zone state else state.retire member.zone)

/-- **What a member does**: nothing, or it is added. -/
theorem applyMember_cases (consumer : Consumer) (call : ReconcileCall) (spec : CatalogSpec) (mine : Rows)
    (state : ConsumerState) (member : CatalogMember) :
    (consumer.applyMember call spec mine state member = state ∧
      ∀ row, mine.rowFor member.zone = some row → spec.leaves member row = true) ∨
    ∃ start, Cleared consumer call member.zone state start ∧
      consumer.applyMember call spec mine state member = Consumer.add call spec member (spec.fetch member) start ∧
      (∀ row, mine.rowFor member.zone = some row → spec.leaves member row = false) ∧
      (mine.rowFor member.zone = none →
        (consumer.ownership spec member state = .free ∧ start = state) ∨
        ∃ owner reset, consumer.ownership spec member state = .handedOver owner reset) := by
  have hfetch : spec.fetch member = .ambiguous ∨
      (∀ row, spec.leaves member row = (row.node.same member.node && row.group = (spec.fetch member).group)) ∧
      consumer.applyMember call spec mine state member = consumer.settleMember call spec mine state member := by
    simp only [CatalogSpec.leaves, Consumer.applyMember, Consumer.settleMember]
    cases spec.fetch member with
    | ambiguous => exact .inl rfl
    | fromCatalog => exact .inr ⟨fun _ => rfl, rfl⟩
    | fromGroup rule => exact .inr ⟨fun _ => rfl, rfl⟩
  rcases hfetch with hambiguous | ⟨hleaves, happly⟩
  · grind [Consumer.applyMember, CatalogSpec.leaves]
  · rw [happly, Consumer.settleMember]
    cases hrow : mine.rowFor member.zone with
    | some row =>
      have hone : ∀ other, some row = some other → other = row := fun _ h => (Option.some.inj h).symm
      dsimp only
      by_cases hnode : row.node.same member.node = true
      · rw [if_pos hnode]
        by_cases hgroup : row.group = (spec.fetch member).group
        · grind
        · rw [if_neg hgroup]
          refine .inr ⟨state.retire member.zone, .inr (.inl rfl), rfl, ?_, fun h => by cases h⟩
          intro other hother
          rw [hone other hother, hleaves, decide_eq_false hgroup, Bool.and_false]
      · rw [if_neg hnode]
        refine .inr ⟨consumer.remove call member.zone state, .inr (.inr rfl), rfl, ?_, fun h => by cases h⟩
        intro other hother
        rw [hone other hother, hleaves, Bool.eq_false_iff.mpr hnode, Bool.false_and]
    | none =>
      dsimp only
      cases hown : consumer.ownership spec member state with
      | free => exact .inr ⟨state, .inl rfl, rfl, fun _ h => (by cases h), fun _ => .inl ⟨rfl, rfl⟩⟩
      | taken => exact .inl ⟨rfl, fun _ h => by cases h⟩
      | alreadyHandedOver owner => exact .inl ⟨rfl, fun _ h => by cases h⟩
      | handedOver owner reset =>
        refine .inr ⟨_, ?_, rfl, fun _ h => (by cases h), fun _ => .inr ⟨owner, reset, rfl⟩⟩
        cases reset with
        | true => exact .inr (.inr rfl)
        | false => exact .inr (.inl rfl)

variable {zone : Name} {before start state : ConsumerState} {member : CatalogMember}
  {row : MemberRow}

theorem Cleared.untouched {other : Name} (h : Cleared consumer call zone before start)
    (hother : zone.same other = false) : Untouched other before start := by
  rcases h with rfl | rfl | rfl
  · exact .refl other start
  · exact untouched_retire hother before
  · exact untouched_remove hother before

section

variable (h : Cleared consumer call zone before start)
include h

theorem Cleared.shrinks : Shrinks before start := by
  rcases h with rfl | rfl | rfl
  · exact .refl start
  · exact fun _ _ h => h
  · exact (remove_spec consumer call zone before).2.2.2.1

theorem Cleared.sidecar : start.sidecar = before.sidecar := by
  rcases h with rfl | rfl | rfl
  · rfl
  · rfl
  · exact (remove_spec consumer call zone before).2.2.2.2

theorem Cleared.apart (hrows : Apart before.rows) : Apart start.rows := by
  rcases h with rfl | rfl | rfl
  · exact hrows
  · exact hrows
  · rw [(remove_spec consumer call zone before).1]
    exact hrows.forget zone

theorem Cleared.does : Does consumer.dir zone before start := by
  rcases h with rfl | rfl | rfl
  · exact .refl _ zone start
  · exact (does_retire _ zone before).1
  · exact does_remove consumer call zone before

end

theorem untouched_applyMember {other : Name} (h : member.zone.same other = false)
    (state : ConsumerState) :
    Untouched other state (consumer.applyMember call spec mine state member) := by
  rcases applyMember_cases consumer call spec mine state member with ⟨happly, -⟩ | ⟨start, hstart, happly, -⟩
  · rw [happly]
    exact .refl other state
  · rw [happly]
    exact (hstart.untouched h).trans ((add_spec call spec member (spec.fetch member) start).2.2.1 other h)

structure Proceeds (before after : ConsumerState) : Prop where
  shrinks : Shrinks before after
  sidecar : after.sidecar = before.sidecar
  apart : Apart before.rows → Apart after.rows

theorem Proceeds.refl (state : ConsumerState) : Proceeds state state := ⟨.refl state, rfl, id⟩

theorem Proceeds.trans {a b c : ConsumerState} (h : Proceeds a b) (h' : Proceeds b c) : Proceeds a c :=
  ⟨h.shrinks.trans h'.shrinks, h'.sidecar.trans h.sidecar, h'.apart ∘ h.apart⟩

theorem proceeds_remove (zone : Name) (state : ConsumerState) : Proceeds state (consumer.remove call zone state) := by
  have hremove : Cleared consumer call zone state (consumer.remove call zone state) := .inr (.inr rfl)
  exact ⟨hremove.shrinks, hremove.sidecar, hremove.apart⟩

theorem proceeds_applyMember (member : CatalogMember) (state : ConsumerState) :
    Proceeds state (consumer.applyMember call spec mine state member) := by
  rcases applyMember_cases consumer call spec mine state member with ⟨happly, -⟩ | ⟨start, hstart, happly, -⟩
  · rw [happly]
    exact .refl state
  · rw [happly]
    obtain ⟨hrows, -, -, hshrinks, hsidecar⟩ := add_spec call spec member (spec.fetch member) start
    refine ⟨hstart.shrinks.trans hshrinks, hsidecar.trans hstart.sidecar, ?_⟩
    intro hapart
    rw [hrows]
    exact (hstart.apart hapart).set _

/-! ## All members -/

theorem untouched_members {members : List CatalogMember}
    (h : ∀ member ∈ members, member.zone.same zone = false) (state : ConsumerState) :
    Untouched zone state (members.foldl (consumer.applyMember call spec mine) state) := by
  induction members generalizing state with
  | nil => exact .refl zone state
  | cons member rest ih =>
    exact (untouched_applyMember (h member List.mem_cons_self) state).trans
      (ih (fun m hm => h m (List.mem_cons_of_mem _ hm)) _)

theorem proceeds_members (members : List CatalogMember) (state : ConsumerState) :
    Proceeds state (members.foldl (consumer.applyMember call spec mine) state) := by
  induction members generalizing state with
  | nil => exact .refl state
  | cons member rest ih => exact (proceeds_applyMember member state).trans (ih _)

theorem members_around (consumer : Consumer) (call : ReconcileCall) (spec : CatalogSpec)
    (mine : Rows) {members : List CatalogMember}
    (hdistinct : members.Pairwise fun a b => a.zone.same b.zone = false) (hmem : member ∈ members)
    (hzone : member.zone.same zone = true) (state : ConsumerState) :
    ∃ mid, Untouched zone state mid ∧ Proceeds state mid ∧
      Untouched zone (consumer.applyMember call spec mine mid member)
        (members.foldl (consumer.applyMember call spec mine) state) := by
  induction members generalizing state with
  | nil => cases hmem
  | cons first rest ih =>
    rw [List.pairwise_cons] at hdistinct
    rcases List.mem_cons.mp hmem with rfl | hmem
    · refine ⟨state, .refl zone state, .refl state, untouched_members ?_ _⟩
      intro other hother
      rw [Name.same_comm, ← same_congr_left hzone]
      exact hdistinct.1 other hother
    · have hfirst : first.zone.same zone = false := by
        rw [← same_congr_right hzone]
        exact hdistinct.1 member hmem
      obtain ⟨mid, hmid, hproceeds, hafter⟩ := ih hdistinct.2 hmem (consumer.applyMember call spec mine state first)
      exact ⟨mid, (untouched_applyMember hfirst state).trans hmid, (proceeds_applyMember first state).trans hproceeds,
        hafter⟩

/-! ## The rows no longer listed -/

def Consumer.removeUnlisted (consumer : Consumer) (call : ReconcileCall) (catalog : Catalog) (state : ConsumerState)
    (row : MemberRow) : ConsumerState :=
  if (catalog.member row.zone).isNone then consumer.remove call row.zone state else state

theorem apply_eq (consumer : Consumer) (call : ReconcileCall) (spec : CatalogSpec) (catalog : Catalog)
    (state : ConsumerState) : consumer.apply call spec catalog state =
      (state.rows.membersOf spec.spec.zone).foldl (consumer.removeUnlisted call catalog)
        (catalog.members.foldl (consumer.applyMember call spec (state.rows.membersOf spec.spec.zone)) state) := rfl

theorem member_congr {a b : Name} (h : a.same b = true) (catalog : Catalog) : catalog.member a = catalog.member b := by
  rw [Catalog.member, Catalog.member]
  congr 1
  funext member
  exact same_congr_right h member.zone

theorem proceeds_unlisted (catalog : Catalog) (rows : Rows) (state : ConsumerState) :
    Proceeds state (rows.foldl (consumer.removeUnlisted call catalog) state) := by
  induction rows generalizing state with
  | nil => exact .refl state
  | cons row rest ih =>
    refine Proceeds.trans ?_ (ih _)
    rw [Consumer.removeUnlisted]
    split
    · exact proceeds_remove row.zone state
    · exact .refl state

theorem untouched_unlisted {catalog : Catalog} {rows : Rows}
    (h : ∀ row ∈ rows, row.zone.same zone = true → (catalog.member zone).isSome = true)
    (state : ConsumerState) :
    Untouched zone state (rows.foldl (consumer.removeUnlisted call catalog) state) := by
  induction rows generalizing state with
  | nil => exact .refl zone state
  | cons row rest ih =>
    refine Untouched.trans ?_ (ih (fun r hr => h r (List.mem_cons_of_mem _ hr)) _)
    rw [Consumer.removeUnlisted]
    split
    · rename_i hnone
      refine untouched_remove ?_ state
      rw [Bool.eq_false_iff]
      intro hsame
      have hlisted := h row List.mem_cons_self hsame
      rw [member_congr hsame, Option.isNone_iff_eq_none] at hnone
      rw [hnone] at hlisted
      cases hlisted
    · exact .refl zone state

theorem Gone.unlisted (h : Gone zone state) (catalog : Catalog) (rows : Rows) :
    Gone zone (rows.foldl (consumer.removeUnlisted call catalog) state) := by
  induction rows generalizing state with
  | nil => exact h
  | cons row rest ih =>
    refine ih ?_
    rw [Consumer.removeUnlisted]
    split
    · cases hsame : row.zone.same zone with
      | true => exact gone_remove hsame state
      | false =>
        have hother : Untouched zone state (consumer.remove call row.zone state) := untouched_remove hsame state
        exact ⟨hother.row.trans h.row, hother.tasks.trans h.tasks⟩
    · exact h

theorem gone_unlisted {catalog : Catalog} {rows : Rows} (hmem : row ∈ rows)
    (hzone : row.zone.same zone = true) (hnone : catalog.member zone = none) (state : ConsumerState) :
    Gone zone (rows.foldl (consumer.removeUnlisted call catalog) state) := by
  induction rows generalizing state with
  | nil => cases hmem
  | cons first rest ih =>
    rcases List.mem_cons.mp hmem with rfl | hmem
    · rw [List.foldl_cons, Consumer.removeUnlisted, member_congr hzone, hnone, if_pos Option.isNone_none]
      exact (gone_remove hzone state).unlisted catalog rest
    · exact ih hmem _

/-! ## A zone through the whole diff -/

theorem proceeds_apply (consumer : Consumer) (call : ReconcileCall) (spec : CatalogSpec) (catalog : Catalog)
    (state : ConsumerState) : Proceeds state (consumer.apply call spec catalog state) := by
  rw [apply_eq]
  exact (proceeds_members _ state).trans (proceeds_unlisted catalog _ _)

variable {held : Zone} {catalog : Catalog}

/-- **A zone the catalog lists**: left alone, or provisioned. A row of the catalog's own is left
alone just where it is as the member would have it. -/
theorem apply_listed (consumer : Consumer) (call : ReconcileCall) (spec : CatalogSpec)
    (hcatalog : Catalog.fromZone held = .ok catalog) (hmember : catalog.member zone = some member)
    (state : ConsumerState) :
    (Untouched zone state (consumer.apply call spec catalog state) ∧
      ∀ row, (state.rows.membersOf spec.spec.zone).rowFor zone = some row → spec.leaves member row = true) ∨
    (Provisioned zone (consumer.apply call spec catalog state) ∧
      ∀ row, (state.rows.membersOf spec.spec.zone).rowFor zone = some row → spec.leaves member row = false) := by
  have hzone := List.find?_some hmember
  have hmem := List.mem_of_find?_eq_some hmember
  rw [apply_eq]
  generalize state.rows.membersOf spec.spec.zone = mine
  obtain ⟨mid, hmid, -, hafter⟩ := members_around consumer call spec mine (members_of_fromZone hcatalog).distinct hmem
    hzone state
  have hlast : Untouched zone (catalog.members.foldl (consumer.applyMember call spec mine) state)
      (mine.foldl (consumer.removeUnlisted call catalog)
        (catalog.members.foldl (consumer.applyMember call spec mine) state)) :=
    untouched_unlisted (fun _ _ _ => by rw [hmember]; rfl) _
  rcases applyMember_cases consumer call spec mine mid member with ⟨happly, hleaves⟩ | ⟨start, hstart, happly, hleaves, -⟩
  · rw [happly] at hafter
    refine .inl ⟨(hmid.trans hafter).trans hlast, ?_⟩
    intro row hrow
    exact hleaves row (by rw [rowFor_congr hzone]; exact hrow)
  · have hprovisioned := (add_spec call spec member (spec.fetch member) start).2.1
    rw [← happly] at hprovisioned
    have hkey : zone.toFolded = member.zone.toFolded := (Name.same_iff.mp hzone).symm
    have hthere : Provisioned zone (consumer.applyMember call spec mine mid member) :=
      ⟨by rw [← rowFor_congr hzone]; exact hprovisioned.row,
        by rw [ConsumerState.replicates, hkey]; exact hprovisioned.replicated, by rw [hkey]; exact hprovisioned.fresh⟩
    refine .inr ⟨(hthere.untouched hafter).untouched hlast, ?_⟩
    intro row hrow
    exact hleaves row (by rw [rowFor_congr hzone]; exact hrow)

/-- **A zone the catalog has a row for and lists no more** is gone. -/
theorem apply_unlisted (hmember : catalog.member zone = none)
    (hrow : row ∈ state.rows.membersOf spec.spec.zone) (hzone : row.zone.same zone = true) :
    Gone zone (consumer.apply call spec catalog state) := by
  rw [apply_eq]
  exact gone_unlisted hrow hzone hmember _

/-- **Every other zone** is left alone. -/
theorem apply_other (hmember : catalog.member zone = none)
    (hrow : ∀ row ∈ state.rows.membersOf spec.spec.zone, row.zone.same zone = false) :
    Untouched zone state (consumer.apply call spec catalog state) := by
  rw [apply_eq]
  refine Untouched.trans (untouched_members ?_ state) (untouched_unlisted ?_ _)
  · rw [Catalog.member, List.find?_eq_none] at hmember
    exact fun member hmem => Bool.eq_false_iff.mpr (hmember member hmem)
  · grind

/-- **A row that a reconcile leaves** was there before, and its zone was left alone, or its zone was
provisioned. -/
theorem row_of_apply (hcatalog : Catalog.fromZone held = .ok catalog) (hapart : Apart state.rows)
    (hrow : row ∈ (consumer.apply call spec catalog state).rows) :
    (Untouched row.zone state (consumer.apply call spec catalog state) ∧ row ∈ state.rows) ∨
      Provisioned row.zone (consumer.apply call spec catalog state) := by
  have hafter := rowFor_of_mem ((proceeds_apply consumer call spec catalog state).apart hapart) hrow row.zone.same_self
  have hbefore : ∀ (_ : Untouched row.zone state (consumer.apply call spec catalog state)), row ∈ state.rows := by
    intro huntouched
    rw [huntouched.row] at hafter
    exact (of_rowFor hafter).1
  cases hmember : catalog.member row.zone with
  | some member => grind [apply_listed]
  | none =>
    by_cases hmine : ∃ other ∈ state.rows.membersOf spec.spec.zone, other.zone.same row.zone = true
    · obtain ⟨other, hother, hsame⟩ := hmine
      have hgone : Gone row.zone (consumer.apply call spec catalog state) := apply_unlisted hmember hother hsame
      rw [hgone.row] at hafter
      cases hafter
    · have huntouched : Untouched row.zone state (consumer.apply call spec catalog state) := by
        refine apply_other hmember ?_
        intro other hother
        rw [Bool.eq_false_iff]
        exact fun hsame => hmine ⟨other, hother, hsame⟩
      exact .inl ⟨huntouched, hbefore huntouched⟩

theorem reconcile_of_new (call : ReconcileCall)
    (hspec : consumer.byZone.get zone.toFolded = some spec)
    (hheld : state.zones.get zone.toFolded = some held)
    (hnew : ¬(held.serial.isSome ∧ held.serial = state.reconciled.get zone.toFolded))
    (hcatalog : Catalog.fromZone held = .ok catalog) :
    ∃ reconciled, consumer.reconcile call zone state =
      { consumer.apply call spec catalog { state with done := [] } with
        reconciled
        sidecar :=
          let text := membershipText (consumer.apply call spec catalog { state with done := [] }).rows
          if call.writes text then some (toBytes text) else state.sidecar } := by
  have hsidecar := (proceeds_apply consumer call spec catalog { state with done := [] }).sidecar
  rw [Consumer.reconcile]
  dsimp only
  rw [hspec, hheld]
  dsimp only
  rw [if_neg hnew, hcatalog]
  dsimp only
  rw [hsidecar]
  exact ⟨_, rfl⟩

/-- **What a reconcile does**: nothing, or the diff with what the catalog says. -/
theorem reconcile_cases (consumer : Consumer) (call : ReconcileCall) (zone : Name) (state : ConsumerState) :
    consumer.reconcile call zone state = { state with done := [] } ∨
    ∃ spec held catalog reconciled sidecar,
      consumer.byZone.get zone.toFolded = some spec ∧ state.zones.get zone.toFolded = some held ∧
      ¬(held.serial.isSome ∧ held.serial = state.reconciled.get zone.toFolded) ∧
      Catalog.fromZone held = .ok catalog ∧
      consumer.reconcile call zone state =
        { consumer.apply call spec catalog { state with done := [] } with reconciled, sidecar } ∧
      (sidecar = state.sidecar ∨
        sidecar = some (toBytes (membershipText (consumer.apply call spec catalog { state with done := [] }).rows))) := by
  cases hspec : consumer.byZone.get zone.toFolded with
  | none => grind [Consumer.reconcile]
  | some spec =>
    cases hheld : state.zones.get zone.toFolded with
    | none => grind [Consumer.reconcile]
    | some held =>
      by_cases hnew : held.serial.isSome ∧ held.serial = state.reconciled.get zone.toFolded
      · grind [Consumer.reconcile]
      · cases hcatalog : Catalog.fromZone held with
        | error e =>
          rw [Consumer.reconcile]
          dsimp only
          rw [hspec, hheld]
          dsimp only
          rw [if_neg hnew, hcatalog]
          exact .inl rfl
        | ok catalog =>
          obtain ⟨reconciled, hafter⟩ := reconcile_of_new call hspec hheld hnew hcatalog
          refine .inr ⟨spec, held, catalog, reconciled, _, rfl, rfl, hnew, hcatalog, hafter, ?_⟩
          dsimp only
          split
          · exact .inr rfl
          · exact .inl rfl

/-! ## Every process -/

structure Settled (process : Process) : Prop where
  apart : Apart process.state.rows
  sidecar : Apart (loadMembership process.state.sidecar)
  keyed : ∀ key zone, process.state.zones.get key = some zone → key = zoneKey zone
  protects : ∀ spec ∈ process.config.specs, spec.zone.toFolded ∈ process.consumer.configured
  catalogs : ∀ key spec, process.consumer.byZone.get key = some spec → spec.spec.zone.toFolded = key
  fresh : ∀ row ∈ process.state.rows, row.zone.toFolded ∉ process.state.inherited →
    process.state.replicates row.zone = true
  inherited : ∀ row ∈ process.state.rows, row.zone.toFolded ∈ process.state.inherited →
    (process.state.replicates row.zone = true ↔ row.zone.toFolded ∈ process.consumer.configured)

theorem settled_off : Settled .off where
  apart := List.Pairwise.nil
  sidecar := List.Pairwise.nil
  keyed := fun _ _ hget => by cases hget
  protects := fun _ hspec => by cases hspec
  catalogs := fun _ _ hget => by cases hget
  fresh := fun _ hrow => by cases hrow
  inherited := fun _ hrow => by cases hrow

theorem settled_start {before : Process} (h : Settled before) (config : Configuration)
    (zones : { zones : ZoneMap // Keyed zones }) (transferFile : Option Octets) (now : Nat) :
    Settled (before.start config zones.val transferFile now) := by
  rw [Process.start]
  generalize hrows : loadMembership before.state.sidecar = rows
  have hapart : Apart rows := hrows ▸ h.sidecar
  generalize hloaded : (⟨rows, [], [], zones.val, loadState transferFile, transferFile, before.state.sidecar, [],
    rows.map fun row => row.zone.toFolded⟩ : ConsumerState) = loaded
  have hheld := onlyServes_withdrawUnvouchedZones loaded now config.specs
  generalize hunclaimed : ((loaded.withdrawUnvouchedZones now config.specs).zones.map Prod.fst).filter
    (fun zone => (rows.ownerOf zone).isNone) = unclaimed
  generalize rows.flatMap _ = vouching
  have hserves := hheld.trans
    (onlyServes_withdrawUnvouchedZones _ now vouching)
  generalize (loaded.withdrawUnvouchedZones now config.specs).withdrawUnvouchedZones now vouching = vouched at hserves
  obtain ⟨hafterRows, hafterInherited, hafterZones, hafterSidecar, -⟩ := spawnAll_keeps config.specs vouched
  -- the tasks are those of the configuration
  have htasks : ∀ zone : Name, (config.specs.foldl ConsumerState.spawn vouched).replicates zone = true ↔
      zone.toFolded ∈ config.specs.map fun spec => spec.zone.toFolded := by
    intro zone
    rw [ConsumerState.replicates, isSome_tasks_spawnAll, hserves.tasks, ← hloaded, List.mem_map]
    constructor
    · intro hany
      rw [show (Entries.get ([] : Entries Name (List MasterSpec)) zone.toFolded).isSome = false from rfl, Bool.false_or,
        List.any_eq_true] at hany
      obtain ⟨spec, hspec, hzone⟩ := hany
      exact ⟨spec, hspec, (of_decide_eq_true hzone).symm⟩
    · grind
  have hmem : ∀ row ∈ rows, row.zone.toFolded ∈ rows.map fun row => row.zone.toFolded := fun row hrow =>
    List.mem_map_of_mem hrow
  constructor
  · show Apart (config.specs.foldl ConsumerState.spawn vouched).rows
    rw [hafterRows, hserves.rows, ← hloaded]
    exact hapart
  · show Apart (loadMembership (config.specs.foldl ConsumerState.spawn vouched).sidecar)
    rw [hafterSidecar, hserves.sidecar, ← hloaded]
    exact h.sidecar
  · intro key zone hget
    replace hget : (config.specs.foldl ConsumerState.spawn vouched).zones.get key = some zone := hget
    rw [hafterZones] at hget
    have hloadedGet := hserves.shrinks key zone hget
    rw [← hloaded] at hloadedGet
    exact zones.property _ (Entries.mem_of_get hloadedGet)
  · intro spec hspec
    exact List.mem_append_left _ (List.mem_map.mpr ⟨spec, hspec, rfl⟩)
  · intro key spec hget
    dsimp only at hget
    have hfold : ∀ (specs : List CatalogSpec) (byZone : Entries Name CatalogSpec),
        (∀ key spec, byZone.get key = some spec → spec.spec.zone.toFolded = key) →
        ∀ key spec, (specs.foldl (fun byZone spec => Entries.insert byZone spec.spec.zone.toFolded spec) byZone).get key
          = some spec → spec.spec.zone.toFolded = key := by
      intro specs
      induction specs with
      | nil => exact fun _ hbefore => hbefore
      | cons first rest ih =>
        intro byZone hbefore
        refine ih _ ?_
        intro key spec hget
        rw [Entries.get_insert] at hget
        split at hget
        · rename_i hkey
          cases hget
          exact hkey.symm
        · exact hbefore key spec hget
    exact hfold config.catalogs [] (fun _ _ hnil => by cases hnil) key spec hget
  · intro row hrow hfresh
    replace hrow : row ∈ (config.specs.foldl ConsumerState.spawn vouched).rows := hrow
    replace hfresh : row.zone.toFolded ∉ (config.specs.foldl ConsumerState.spawn vouched).inherited := hfresh
    rw [hafterRows, hserves.rows, ← hloaded] at hrow
    rw [hafterInherited, hserves.inherited, ← hloaded] at hfresh
    exact absurd (hmem row hrow) hfresh
  · intro row hrow _
    replace hrow : row ∈ (config.specs.foldl ConsumerState.spawn vouched).rows := hrow
    rw [hafterRows, hserves.rows, ← hloaded] at hrow
    show (config.specs.foldl ConsumerState.spawn vouched).replicates row.zone = true ↔
      row.zone.toFolded ∈ config.specs.map (fun spec => spec.zone.toFolded) ++ unclaimed
    rw [htasks, List.mem_append]
    refine ⟨.inl, ?_⟩
    rintro (hspec | hheldZone)
    · exact hspec
    · -- a zone with a row is claimed
      have hsame : row.zone.same row.zone.toFolded = true := by simp
      rw [← hunclaimed, List.mem_filter, Rows.ownerOf, rowFor_of_mem hapart hrow hsame] at hheldZone
      cases hheldZone.2

theorem settled_reconcile {process : Process} (h : Settled process) (call : ReconcileCall) (zone : Name) :
    Settled { process with state := process.consumer.reconcile call zone process.state } := by
  rcases reconcile_cases process.consumer call zone process.state with hnothing |
      ⟨spec, held, catalog, reconciled, sidecar, -, -, -, hcatalog, hafter, hsidecar⟩
  · rw [hnothing]
    exact ⟨h.apart, h.sidecar, h.keyed, h.protects, h.catalogs, h.fresh, h.inherited⟩
  · rw [hafter]
    have hproceeds := proceeds_apply process.consumer call spec catalog { process.state with done := [] }
    have hapart := hproceeds.apart h.apart
    have hrow : ∀ row ∈ (process.consumer.apply call spec catalog { process.state with done := [] }).rows,
        (Untouched row.zone { process.state with done := [] }
          (process.consumer.apply call spec catalog { process.state with done := [] }) ∧ row ∈ process.state.rows) ∨
        Provisioned row.zone (process.consumer.apply call spec catalog { process.state with done := [] }) := by
      intro row hmem
      refine row_of_apply hcatalog ?_ hmem
      exact h.apart
    generalize process.consumer.apply call spec catalog { process.state with done := [] } = after at *
    constructor
    · exact hapart
    · rcases hsidecar with rfl | rfl
      · exact h.sidecar
      · exact apart_load hapart
    · intro key zone hget
      exact h.keyed key zone (hproceeds.shrinks key zone hget)
    · exact h.protects
    · exact h.catalogs
    · intro row hmem hfresh
      rcases hrow row hmem with ⟨huntouched, hbefore⟩ | hprovisioned
      · have hreplicates := h.fresh row hbefore (huntouched.inherited.not.mp hfresh)
        rw [ConsumerState.replicates] at hreplicates ⊢
        exact (congrArg Option.isSome huntouched.tasks).trans hreplicates
      · exact hprovisioned.replicated
    · intro row hmem hinherited
      rcases hrow row hmem with ⟨huntouched, hbefore⟩ | hprovisioned
      · have hiff := h.inherited row hbefore (huntouched.inherited.mp hinherited)
        rw [ConsumerState.replicates] at hiff ⊢
        exact (congrArg (fun task => Option.isSome task = true) huntouched.tasks).to_iff.trans hiff
      · exact absurd hinherited hprovisioned.fresh

/-- **What holds in every process of a run.** -/
theorem Process.Ran.settled {events : List ConsumerEvent} {process : Process} (h : Process.Ran events process) :
    Settled process := by
  induction h with
  | off => exact settled_off
  | next _ event ih =>
    cases event with
    | start config zones transferFile now => exact settled_start ih config zones transferFile now
    | serve zones transfers transferFile =>
      exact ⟨ih.apart, ih.sidecar, fun key zone hget => zones.property _ (Entries.mem_of_get hget), ih.protects,
        ih.catalogs, ih.fresh, ih.inherited⟩
    | reconcile call zone => exact settled_reconcile ih call zone

end Rdns.Catalogs
