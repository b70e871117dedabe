import Rdns.Catalogs.ReconcileRuns

/-!
# Rdns — Which members are refreshed

A refresh task lives as long as the process, a row longer. A reconcile compares the rows with
the catalog, and starts a task where the two differ.
-/

namespace Rdns.Catalogs

open Rdns.Lib Rdns.Core Rdns.Present Rdns.Zones Rdns.Server RecordTypes

/-- **Every member of a catalog is replicated.** -/
def Replicated (catalog : Name) (state : ConsumerState) : Prop :=
  ∀ row ∈ state.rows.membersOf catalog, state.replicates row.zone = true

/-- **A zone whose row was removed has no task.** -/
def Departed (before after : ConsumerState) : Prop :=
  ∀ row ∈ before.rows, after.rows.rowFor row.zone = none → after.replicates row.zone = false

def Leaves (spec : CatalogSpec) (held : Zone) (catalog : Catalog) (state : ConsumerState) (row : MemberRow) : Prop :=
  (held.serial.isSome ∧ held.serial = state.reconciled.get spec.spec.zone.toFolded) ∨
    ∃ member, catalog.member row.zone = some member ∧ spec.leaves member row = true

section

variable {held : Zone} {catalog : Catalog}

theorem mem_membersOf {rows : Rows} {zone : Name} {row : MemberRow} :
    row ∈ rows.membersOf zone ↔ row ∈ rows ∧ (catalogOf row.node).same zone = true := List.mem_filter

theorem membersOf_congr {a b : Name} (h : a.same b = true) (rows : Rows) : rows.membersOf a = rows.membersOf b := by
  rw [Rows.membersOf, Rows.membersOf]
  congr 1
  funext row
  exact same_congr_right h (catalogOf row.node)

theorem Apart.membersOf {rows : Rows} (h : Apart rows) (zone : Name) : Apart (rows.membersOf zone) := h.filter _

theorem departed_apply (consumer : Consumer) (call : ReconcileCall) (spec : CatalogSpec)
    (hcatalog : Catalog.fromZone held = .ok catalog) {state : ConsumerState} (hapart : Apart state.rows) :
    Departed state (consumer.apply call spec catalog state) := by
  intro row hrow hnone
  have hbefore := rowFor_of_mem hapart hrow row.zone.same_self
  have hkept : ¬ Untouched row.zone state (consumer.apply call spec catalog state) := by
    intro huntouched
    rw [huntouched.row, hbefore] at hnone
    cases hnone
  cases hmember : catalog.member row.zone with
  | some member =>
    rcases apply_listed consumer call spec hcatalog hmember state with ⟨huntouched, -⟩ | ⟨hprovisioned, -⟩
    · exact absurd huntouched hkept
    · have hsome := hprovisioned.row
      rw [hnone] at hsome
      cases hsome
  | none =>
    by_cases hmine : row ∈ state.rows.membersOf spec.spec.zone
    · have hgone : Gone row.zone (consumer.apply call spec catalog state) :=
        apply_unlisted hmember hmine row.zone.same_self
      rw [ConsumerState.replicates, hgone.tasks]
      rfl
    · refine absurd (apply_other hmember ?_) hkept
      intro other hother
      rw [Bool.eq_false_iff]
      intro hsame
      -- a zone has one row, and this one is not the catalog's
      have hone := rowFor_of_mem hapart (mem_membersOf.mp hother).1 hsame
      rw [hbefore] at hone
      cases hone
      exact hmine hother

theorem apply_replicates_iff (consumer : Consumer) (call : ReconcileCall) (spec : CatalogSpec)
    (hcatalog : Catalog.fromZone held = .ok catalog) {state : ConsumerState} (hapart : Apart state.rows) :
    Replicated spec.spec.zone (consumer.apply call spec catalog state) ↔
      ∀ row ∈ state.rows.membersOf spec.spec.zone,
        (∃ member, catalog.member row.zone = some member ∧ spec.leaves member row = true) →
          state.replicates row.zone = true := by
  have hproceeds := proceeds_apply consumer call spec catalog state
  constructor
  · intro hall row hrow ⟨member, hmember, hleaves⟩
    have hmine := rowFor_of_mem (hapart.membersOf spec.spec.zone) hrow row.zone.same_self
    have hbefore := rowFor_of_mem hapart (mem_membersOf.mp hrow).1 row.zone.same_self
    rcases apply_listed consumer call spec hcatalog hmember state with ⟨huntouched, -⟩ | ⟨-, hnot⟩
    · have hafter := huntouched.row
      rw [hbefore] at hafter
      have hreplicates := hall row (mem_membersOf.mpr ⟨(of_rowFor hafter).1, (mem_membersOf.mp hrow).2⟩)
      rw [ConsumerState.replicates, huntouched.tasks] at hreplicates
      exact hreplicates
    · rw [hnot row hmine] at hleaves
      cases hleaves
  · intro hcond row hrow
    obtain ⟨hmem, hof⟩ := mem_membersOf.mp hrow
    rcases row_of_apply hcatalog hapart hmem with ⟨huntouched, hbefore⟩ | hprovisioned
    · have hmine := mem_membersOf.mpr ⟨hbefore, hof⟩
      cases hmember : catalog.member row.zone with
      | some member =>
        rcases apply_listed consumer call spec hcatalog hmember state with ⟨-, hleaves⟩ | ⟨hprovisioned, -⟩
        · have hleft := hleaves row (rowFor_of_mem (hapart.membersOf spec.spec.zone) hmine row.zone.same_self)
          rw [ConsumerState.replicates, huntouched.tasks]
          exact hcond row hmine ⟨member, hmember, hleft⟩
        · exact hprovisioned.replicated
      | none =>
        have hgone : Gone row.zone (consumer.apply call spec catalog state) :=
          apply_unlisted hmember hmine row.zone.same_self
        have hafter := rowFor_of_mem (hproceeds.apart hapart) hmem row.zone.same_self
        rw [hgone.row] at hafter
        cases hafter
    · exact hprovisioned.replicated

end

/-- **Which members are refreshed.** In every process, after a reconcile of a catalog that can be
read: each row of the catalog has a refresh task, and no zone whose row was removed has one, just
where every row that the reconcile leaves is one this process wrote or names a zone the
configuration names. -/
theorem reconcile_replicates_iff {events : List ConsumerEvent} {process : Process} (h : Process.Ran events process)
    (call : ReconcileCall) {zone : Name} {spec : CatalogSpec} {held : Zone} {catalog : Catalog}
    (hspec : process.consumer.byZone.get zone.toFolded = some spec)
    (hheld : process.state.zones.get zone.toFolded = some held) (hcatalog : Catalog.fromZone held = .ok catalog) :
    (Replicated zone (process.consumer.reconcile call zone process.state) ∧
      Departed process.state (process.consumer.reconcile call zone process.state)) ↔
    ∀ row ∈ process.state.rows.membersOf zone, Leaves spec held catalog process.state row →
      row.zone.toFolded ∈ process.state.inherited → row.zone.toFolded ∈ process.consumer.configured := by
  have hsettled := h.settled
  have hname : zone.same spec.spec.zone = true := by
    rw [Name.same_iff]
    exact (hsettled.catalogs _ _ hspec).symm
  -- a row has its tasks, but for one as it was read that the configuration does not name
  have htasks : ∀ row ∈ process.state.rows, process.state.replicates row.zone = true ↔
      (row.zone.toFolded ∈ process.state.inherited → row.zone.toFolded ∈ process.consumer.configured) := by
    intro row hrow
    by_cases hinherited : row.zone.toFolded ∈ process.state.inherited
    · rw [hsettled.inherited row hrow hinherited]
      exact ⟨fun hmem _ => hmem, fun hmem => hmem hinherited⟩
    · exact ⟨fun _ hmem => absurd hmem hinherited, fun _ => hsettled.fresh row hrow hinherited⟩
  have hreplicated : ∀ state : ConsumerState, Replicated zone state ↔ Replicated spec.spec.zone state := by
    intro state
    rw [Replicated, Replicated, membersOf_congr hname]
  rw [hreplicated, membersOf_congr hname]
  by_cases hserial : held.serial.isSome ∧ held.serial = process.state.reconciled.get zone.toFolded
  · have hafter : process.consumer.reconcile call zone process.state = { process.state with done := [] } := by
      rw [Consumer.reconcile]
      dsimp only
      rw [hspec, hheld]
      exact if_pos hserial
    have hleaves : ∀ row, Leaves spec held catalog process.state row := by
      intro row
      refine .inl ⟨hserial.1, ?_⟩
      rw [← Name.same_iff.mp hname]
      exact hserial.2
    have hdeparted : Departed process.state { process.state with done := [] } := by
      intro row hrow hnone
      have hsome := rowFor_of_mem hsettled.apart hrow row.zone.same_self
      rw [hsome] at hnone
      cases hnone
    rw [hafter]
    constructor
    · rintro ⟨hall, -⟩ row hrow -
      exact (htasks row (mem_membersOf.mp hrow).1).mp (hall row hrow)
    · intro hcond
      refine ⟨?_, hdeparted⟩
      intro row hrow
      exact (htasks row (mem_membersOf.mp hrow).1).mpr (hcond row hrow (hleaves row))
  · obtain ⟨reconciled, hafter⟩ := reconcile_of_new call hspec hheld hserial hcatalog
    generalize hbefore : ({ process.state with done := [] } : ConsumerState) = before at hafter
    have hapart : Apart before.rows := hbefore ▸ hsettled.apart
    have happly := apply_replicates_iff process.consumer call spec hcatalog hapart
    have hdeparted := departed_apply process.consumer call spec hcatalog hapart
    subst hbefore
    rw [hafter]
    have hleaves : ∀ row, Leaves spec held catalog process.state row ↔
        ∃ member, catalog.member row.zone = some member ∧ spec.leaves member row = true := by
      intro row
      refine or_iff_right ?_
      rw [← Name.same_iff.mp hname]
      exact hserial
    constructor
    · rintro ⟨hall, -⟩ row hrow hleft
      exact (htasks row (mem_membersOf.mp hrow).1).mp (happly.mp hall row hrow ((hleaves row).mp hleft))
    · intro hcond
      refine ⟨happly.mpr ?_, hdeparted⟩
      intro row hrow hleft
      exact (htasks row (mem_membersOf.mp hrow).1).mpr (hcond row hrow ((hleaves row).mpr hleft))

/-! ## A catalog of one member -/

def cat : Name := ⟨[[99, 97, 116]], by decide, by decide⟩
def versionCat : Name := ⟨[VERSION, [99, 97, 116]], by decide, by decide⟩
def aZonesCat : Name := ⟨[[97], ZONES, [99, 97, 116]], by decide, by decide⟩

def catSoa : ZoneRecord :=
  ⟨cat, ⟨60⟩, .IN, ⟨SOA, wireOf [] ++ wireOf [] ++ [0, 0, 0, 1] ++ List.replicate 16 0⟩⟩

def catVersion : ZoneRecord := ⟨versionCat, ⟨60⟩, .IN, ⟨TXT, 1 :: SCHEMA_VERSION⟩⟩
def catMember : ZoneRecord := ⟨aZonesCat, ⟨60⟩, .IN, ⟨PTR, wireOf [[101, 120]]⟩⟩

def catZone : Zone := [catSoa, catVersion, catMember].foldl Zone.add (Zone.new cat)

def catZones : { zones : ZoneMap // Keyed zones } := ⟨[(cat, catZone)], by
  intro entry hentry
  rw [List.mem_singleton.mp hentry]
  decide +kernel⟩

def catConfig : Configuration where
  dir := ⟨true, ["zones".toList]⟩
  secondaries := []
  catalogs := [⟨⟨cat, .v4 ⟨[192, 0, 2, 1], rfl⟩ 53, none, none⟩, []⟩]

def writing : ReconcileCall := ⟨100, fun _ => true⟩

theorem keyed_nil : Keyed ([] : ZoneMap) := fun _ hentry => by cases hentry

def startCat : ConsumerEvent := .start catConfig ⟨[], keyed_nil⟩ none 100

def Process.withCat (before : Process) : Process := (before.step startCat).step (.serve catZones [] none)

def transferred : Process := Process.off.withCat
def reconciled : Process := transferred.step (.reconcile writing cat)
def restarted : Process := reconciled.withCat

def exRow : MemberRow := ⟨ex, aZonesCat, none⟩

theorem Process.Ran.withCat {events : List ConsumerEvent} {process : Process} (h : Process.Ran events process) :
    Process.Ran (.serve catZones [] none :: startCat :: events) process.withCat := .next (.next h _) _

theorem ran_transferred : Process.Ran [.serve catZones [] none, startCat] transferred := Process.Ran.off.withCat

theorem catalog_withCat (before : Process) : ∃ spec catalog, before.withCat.consumer.byZone.get cat.toFolded = some spec ∧
    before.withCat.state.zones.get cat.toFolded = some catZone ∧ Catalog.fromZone catZone = .ok catalog := by
  have hbyZone : before.withCat.consumer.byZone =
      catConfig.catalogs.foldl (fun byZone spec => Entries.insert byZone spec.spec.zone.toFolded spec) [] := rfl
  rw [hbyZone]
  obtain ⟨spec, hspec⟩ := Option.isSome_iff_exists.mp (by decide +kernel : (Entries.get (catConfig.catalogs.foldl
    (fun byZone spec => Entries.insert byZone spec.spec.zone.toFolded spec) []) cat.toFolded).isSome = true)
  cases hcatalog : Catalog.fromZone catZone with
  | error e =>
    have hok : (Catalog.fromZone catZone).isOk = true := by decide +kernel
    rw [hcatalog] at hok
    cases hok
  | ok catalog =>
    refine ⟨spec, catalog, hspec, ?_, rfl⟩
    have hfolded : cat.toFolded = cat := by decide +kernel
    show Entries.get [(cat, catZone)] cat.toFolded = some catZone
    rw [hfolded, Entries.get_cons, if_pos rfl]

theorem rows_reconciled : reconciled.state.rows = [exRow] := by decide +kernel

theorem load_reconciled : loadMembership reconciled.state.sidecar = [exRow] := by
  obtain ⟨spec, catalog, hspec, hheld, hcatalog⟩ := catalog_withCat .off
  have hnew : ¬(catZone.serial.isSome ∧ catZone.serial = transferred.state.reconciled.get cat.toFolded) := by
    decide +kernel
  obtain ⟨serials, hafter⟩ := reconcile_of_new writing hspec hheld hnew hcatalog
  have hrows := rows_reconciled
  rw [reconciled, Process.step, transferred, hafter] at hrows ⊢
  dsimp only at hrows ⊢
  rw [hrows, if_pos (show writing.writes (membershipText [exRow]) = true from rfl), load_membershipText]
  decide +kernel

theorem reconciled_replicates : reconciled.state.rows = [exRow] ∧ Replicated cat reconciled.state ∧
    Departed transferred.state reconciled.state := by
  obtain ⟨spec, catalog, hspec, hheld, hcatalog⟩ := catalog_withCat .off
  refine ⟨rows_reconciled,
    (reconcile_replicates_iff ran_transferred writing hspec hheld hcatalog).mpr fun row hrow => ?_⟩
  have hnone : transferred.state.rows.membersOf cat = [] := by decide +kernel
  rw [hnone] at hrow
  cases hrow

theorem restart_leaves_unreplicated :
    ¬ ∀ (events : List ConsumerEvent) (process : Process), Process.Ran events process →
      ∀ (call : ReconcileCall) (zone : Name) (spec : CatalogSpec) (held : Zone) (catalog : Catalog),
        process.consumer.byZone.get zone.toFolded = some spec → process.state.zones.get zone.toFolded = some held →
        Catalog.fromZone held = .ok catalog →
          Replicated zone (process.consumer.reconcile call zone process.state) := by
  intro hall
  have hran := (Process.Ran.next ran_transferred (.reconcile writing cat)).withCat
  obtain ⟨spec, catalog, hspec, hheld, hcatalog⟩ := catalog_withCat reconciled
  have hreplicated := hall _ restarted hran writing cat spec catZone catalog hspec hheld hcatalog
  have hleft : exRow ∈ (restarted.consumer.reconcile writing cat restarted.state).rows.membersOf cat ∧
      (restarted.consumer.reconcile writing cat restarted.state).replicates ex = false := by
    simp only [restarted, Process.withCat, startCat, Process.step, Process.start, load_reconciled]
    decide +kernel
  have htask := hreplicated exRow hleft.1
  rw [show exRow.zone = ex from rfl, hleft.2] at htask
  cases htask

end Rdns.Catalogs
