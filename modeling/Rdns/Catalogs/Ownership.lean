import Rdns.Catalogs.Replicated

/-!
# Rdns — What a catalog may take and remove

A member is added where nobody else holds its zone, or where the catalog that does hands it
over (`ownership`). A row of the catalog's own is removed, or added again, without that check:
whatever the configuration has come to name since the row was written.
-/

namespace Rdns.Catalogs

open Rdns.Lib Rdns.Core Rdns.Present Rdns.Zones Rdns.Server RecordTypes

/-! ## Warrants -/

def HandsOver (state : ConsumerState) (owner catalog zone : Name) : Prop :=
  ∃ held old member coo, state.zones.get owner.toFolded = some held ∧ Catalog.fromZone held = .ok old ∧
    old.member zone = some member ∧ member.coo = some coo ∧ coo.same catalog = true

def Moves (spec : CatalogSpec) (catalog : Catalog) (state : ConsumerState) (row : MemberRow) : Prop :=
  row ∈ state.rows.membersOf spec.spec.zone ∧
    ¬ ∃ member, catalog.member row.zone = some member ∧ spec.leaves member row = true

/-- What permits a deed: a row of the catalog's own that moves, or that the configuration does not
name the zone and, where a file goes, that the zone is handed over. -/
structure Warranted (consumer : Consumer) (spec : CatalogSpec) (catalog : Catalog) (state : ConsumerState) (deed : Deed) :
    Prop where
  file : ∀ file, deed.file = some file → file = zoneFilePath consumer.dir deed.zone
  why : (∃ row, Moves spec catalog state row ∧ row.zone.same deed.zone = true) ∨
    (deed.zone.toFolded ∉ consumer.configured ∧ (deed.file.isSome = true → ∃ row,
      state.rows.rowFor deed.zone = some row ∧ HandsOver state (catalogOf row.node) spec.spec.zone deed.zone))

variable {consumer : Consumer} {call : ReconcileCall} {spec : CatalogSpec} {catalog : Catalog}

theorem ownership_cases (consumer : Consumer) (spec : CatalogSpec) (member : CatalogMember) (state : ConsumerState) :
    (consumer.ownership spec member state = .free ∧ member.zone.toFolded ∉ consumer.configured) ∨
    (∃ owner reset, consumer.ownership spec member state = .handedOver owner reset ∧
      member.zone.toFolded ∉ consumer.configured ∧ state.rows.ownerOf member.zone = some owner ∧
      HandsOver state owner spec.spec.zone member.zone) ∨
    consumer.ownership spec member state = .taken ∨
    ∃ owner, consumer.ownership spec member state = .alreadyHandedOver owner := by
  rw [Consumer.ownership]
  by_cases hconfigured : consumer.configured.contains member.zone.toFolded = true
  · rw [if_pos hconfigured]
    exact .inr (.inr (.inl rfl))
  have hnot : member.zone.toFolded ∉ consumer.configured := fun hmem => hconfigured (List.contains_iff_mem.mpr hmem)
  rw [if_neg hconfigured]
  split
  · exact .inr (.inr (.inl rfl))
  split
  · exact .inl ⟨rfl, hnot⟩
  rename_i owner howner
  split
  · exact .inl ⟨rfl, hnot⟩
  split
  · exact .inr (.inr (.inr ⟨owner, rfl⟩))
  dsimp only
  split
  · rename_i reset hhandover
    obtain ⟨held, hheld, hhandover⟩ := Option.bind_eq_some_iff.mp hhandover
    obtain ⟨old, hold, hhandover⟩ := Option.bind_eq_some_iff.mp hhandover
    obtain ⟨was, hwas, hhandover⟩ := Option.bind_eq_some_iff.mp hhandover
    refine .inr (.inl ⟨owner, reset, rfl, hnot, howner, ?_⟩)
    split at hhandover
    · rename_i hcoo
      obtain ⟨coo, hsome, hsame⟩ := (Option.any_eq_true _ _).mp hcoo
      refine ⟨held, old, was, coo, hheld, ?_, hwas, hsome, hsame⟩
      cases hcatalog : Catalog.fromZone held with
      | error e =>
        rw [hcatalog] at hold
        cases hold
      | ok read =>
        rw [hcatalog] at hold
        cases hold
        rfl
    · cases hhandover
  · exact .inr (.inr (.inl rfl))

/-! ## The diff -/

/-- **What one member does is warranted**, in terms of what was there before the others. -/
theorem warranted_applyMember {held : Zone} (hcatalog : Catalog.fromZone held = .ok catalog) {before mid : ConsumerState}
    {member : CatalogMember} (hmember : member ∈ catalog.members) (huntouched : Untouched member.zone before mid)
    (hproceeds : Proceeds before mid) (hdone : ∀ deed ∈ mid.done, Warranted consumer spec catalog before deed) :
    ∀ deed ∈ (consumer.applyMember call spec (before.rows.membersOf spec.spec.zone) mid member).done,
      Warranted consumer spec catalog before deed := by
  rcases applyMember_cases consumer call spec (before.rows.membersOf spec.spec.zone) mid member with
    ⟨happly, -⟩ | ⟨start, hstart, happly, hleaves, hnew⟩
  · rw [happly]
    exact hdone
  · rw [happly]
    obtain ⟨cleared, hcleared, hclear⟩ := hstart.does
    obtain ⟨added, hadded, hadd⟩ := (does_add consumer.dir call spec member (spec.fetch member) start).1
    obtain ⟨kept, hkept, hkeeps⟩ := (does_add consumer.dir call spec member (spec.fetch member) start).2
    have hsame : added = kept := List.append_cancel_left (hadded.symm.trans hkept)
    subst hsame
    have hof : ∀ deed ∈ cleared ++ added, deed.zone = member.zone ∧
        ∀ file, deed.file = some file → file = zoneFilePath consumer.dir deed.zone := by
      intro deed hdeed
      have hdoes : deed.zone = member.zone ∧ ∀ file, deed.file = some file →
          file = zoneFilePath consumer.dir member.zone :=
        (List.mem_append.mp hdeed).elim (hclear deed) (hadd deed)
      refine ⟨hdoes.1, ?_⟩
      rw [hdoes.1]
      exact hdoes.2
    intro deed hdeed
    rw [hadded, hcleared, List.append_assoc, List.mem_append] at hdeed
    rcases hdeed with hdeed | hdeed
    · exact hdone deed hdeed
    obtain ⟨hzone, hfile⟩ := hof deed hdeed
    refine ⟨hfile, ?_⟩
    rw [hzone]
    cases hmine : (before.rows.membersOf spec.spec.zone).rowFor member.zone with
    | some row =>
      obtain ⟨hrow, hrowZone⟩ := of_rowFor hmine
      refine .inl ⟨row, ⟨hrow, ?_⟩, hrowZone⟩
      rintro ⟨listed, hlisted, hleft⟩
      rw [member_of_mem hcatalog hmember (by rw [Name.same_comm]; exact hrowZone)] at hlisted
      cases hlisted
      rw [hleaves row hmine] at hleft
      cases hleft
    | none =>
      refine .inr ?_
      rcases ownership_cases consumer spec member mid with
        ⟨hfree, hnot⟩ | ⟨owner, reset, hhanded, hnot, howner, hhands⟩ | htaken | ⟨owner, halready⟩
      · refine ⟨hnot, ?_⟩
        -- what is free is added, and that deletes nothing
        rcases hnew hmine with ⟨-, rfl⟩ | ⟨owner, reset, hhanded⟩
        · grind [List.append_right_eq_self]
        · rw [hfree] at hhanded
          cases hhanded
      · refine ⟨hnot, fun _ => ?_⟩
        rw [Rows.ownerOf, huntouched.row] at howner
        obtain ⟨row, hrow, rfl⟩ := Option.map_eq_some_iff.mp howner
        obtain ⟨held, old, was, coo, hheld, hrest⟩ := hhands
        exact ⟨row, hrow, held, old, was, coo, hproceeds.shrinks _ _ hheld, hrest⟩
      · grind
      · grind

/-- **What a reconcile does is warranted.** -/
theorem warranted_apply {held : Zone} (hcatalog : Catalog.fromZone held = .ok catalog) {before : ConsumerState}
    (hdone : before.done = []) : ∀ deed ∈ (consumer.apply call spec catalog before).done,
      Warranted consumer spec catalog before deed := by
  rw [apply_eq]
  have hmembers : ∀ (members : List CatalogMember) (mid : ConsumerState),
      members.Pairwise (fun a b => a.zone.same b.zone = false) → (∀ member ∈ members, member ∈ catalog.members) →
      (∀ member ∈ members, Untouched member.zone before mid) → Proceeds before mid →
      (∀ deed ∈ mid.done, Warranted consumer spec catalog before deed) →
      ∀ deed ∈ (members.foldl (consumer.applyMember call spec (before.rows.membersOf spec.spec.zone)) mid).done,
        Warranted consumer spec catalog before deed := by
    intro members
    induction members with
    | nil => exact fun mid _ _ _ _ hmid => hmid
    | cons first rest ih =>
      intro mid hdistinct hlisted huntouched hproceeds hmid
      rw [List.pairwise_cons] at hdistinct
      refine ih _ hdistinct.2 (fun m hm => hlisted m (List.mem_cons_of_mem _ hm)) ?_
        (hproceeds.trans (proceeds_applyMember first mid))
        (warranted_applyMember hcatalog (hlisted first List.mem_cons_self) (huntouched first List.mem_cons_self)
          hproceeds hmid)
      intro other hother
      exact (huntouched other (List.mem_cons_of_mem _ hother)).trans
        (untouched_applyMember (hdistinct.1 other hother) mid)
  have hrows : ∀ (rows : Rows) (mid : ConsumerState), (∀ row ∈ rows, row ∈ before.rows.membersOf spec.spec.zone) →
      (∀ deed ∈ mid.done, Warranted consumer spec catalog before deed) →
      ∀ deed ∈ (rows.foldl (consumer.removeUnlisted call catalog) mid).done,
        Warranted consumer spec catalog before deed := by
    intro rows
    induction rows with
    | nil => exact fun mid _ hmid => hmid
    | cons row rest ih =>
      intro mid hmine hmid
      refine ih _ (fun r hr => hmine r (List.mem_cons_of_mem _ hr)) ?_
      rw [Consumer.removeUnlisted]
      split
      · rename_i hunlisted
        obtain ⟨deeds, hdeeds, hdo⟩ := does_remove consumer call row.zone mid
        intro deed hdeed
        rw [hdeeds, List.mem_append] at hdeed
        rcases hdeed with hdeed | hdeed
        · exact hmid deed hdeed
        · obtain ⟨hzone, hfile⟩ := hdo deed hdeed
          refine ⟨?_, .inl ⟨row, ⟨hmine row List.mem_cons_self, ?_⟩, ?_⟩⟩
          · rw [hzone]
            exact hfile
          · grind
          · rw [hzone]
            exact row.zone.same_self
      · exact hmid
  refine hrows _ _ (fun _ hrow => hrow) (hmembers _ _ (members_of_fromZone hcatalog).distinct (fun _ hm => hm)
    (fun member _ => .refl member.zone before) (.refl before) ?_)
  intro deed hdeed
  rw [hdone] at hdeed
  cases hdeed

/-! ## Every process -/

/-- **Catalogs keep to what is theirs.** In every process a reconcile touches no zone the
configuration names and none of their files, as long as no row of the catalog that it does not
leave is of such a zone and no member's name leads to such a zone's file. It deletes the file of
a zone only where the row of the zone names the catalog, or where the catalog it names hands it
over; a broken catalog changes nothing; and a zone has one row. -/
theorem reconcile_keeps_to_its_own {events : List ConsumerEvent} {process : Process} (h : Process.Ran events process)
    (call : ReconcileCall) (zone : Name)
    (hrows : ∀ row ∈ process.state.rows.membersOf zone, ∀ named ∈ process.config.specs, row.zone.same named.zone = true →
      ∀ spec held catalog, process.consumer.byZone.get zone.toFolded = some spec →
        process.state.zones.get zone.toFolded = some held → Catalog.fromZone held = .ok catalog →
          Leaves spec held catalog process.state row)
    (hfiles : ∀ row ∈ process.state.rows, ∀ name, name.same row.zone = true → ∀ named ∈ process.config.specs,
      zoneFilePath process.consumer.dir name = zoneFilePath process.consumer.dir named.zone →
        name.same named.zone = true) :
    (∀ deed ∈ (process.consumer.reconcile call zone process.state).done, ∀ named ∈ process.config.specs,
      deed.zone.same named.zone = false ∧ deed.file ≠ some (zoneFilePath process.consumer.dir named.zone)) ∧
    (∀ deed ∈ (process.consumer.reconcile call zone process.state).done, deed.file.isSome = true →
      ∃ row, process.state.rows.rowFor deed.zone = some row ∧
        ((catalogOf row.node).same zone = true ∨ HandsOver process.state (catalogOf row.node) zone deed.zone)) ∧
    (∀ held e, process.state.zones.get zone.toFolded = some held → Catalog.fromZone held = .error e →
      process.consumer.reconcile call zone process.state = { process.state with done := [] }) ∧
    Apart (process.consumer.reconcile call zone process.state).rows := by
  have hsettled := h.settled
  -- every deed of this reconcile is warranted, by a row that moves or by the check
  have hwarrant : ∀ deed ∈ (process.consumer.reconcile call zone process.state).done, ∃ spec held catalog,
      process.consumer.byZone.get zone.toFolded = some spec ∧ process.state.zones.get zone.toFolded = some held ∧
      ¬(held.serial.isSome ∧ held.serial = process.state.reconciled.get zone.toFolded) ∧
      Catalog.fromZone held = .ok catalog ∧ zone.same spec.spec.zone = true ∧
      Warranted process.consumer spec catalog { process.state with done := [] } deed := by
    intro deed hdeed
    rcases reconcile_cases process.consumer call zone process.state with hnothing |
        ⟨spec, held, catalog, reconciled, sidecar, hspec, hheld, hnew, hcatalog, hafter, -⟩
    · rw [hnothing] at hdeed
      cases hdeed
    · rw [hafter] at hdeed
      refine ⟨spec, held, catalog, hspec, hheld, hnew, hcatalog, ?_, warranted_apply hcatalog rfl deed hdeed⟩
      rw [Name.same_iff]
      exact (hsettled.catalogs _ _ hspec).symm
  -- and is of a zone the configuration does not name
  have hapart : ∀ deed ∈ (process.consumer.reconcile call zone process.state).done, ∀ named ∈ process.config.specs,
      deed.zone.same named.zone = false := by
    intro deed hdeed named hnamed
    obtain ⟨spec, held, catalog, hspec, hheld, hnew, hcatalog, hname, -, hwhy⟩ := hwarrant deed hdeed
    rw [Bool.eq_false_iff]
    intro hsame
    rcases hwhy with ⟨row, ⟨hrow, hmoves⟩, hzone⟩ | ⟨hnot, -⟩
    · rw [← membersOf_congr hname] at hrow
      rw [← same_congr_left hzone] at hsame
      rcases hrows row hrow named hnamed hsame spec held catalog hspec hheld hcatalog with hserial | hleaves
      · grind [Name.same_iff]
      · exact hmoves hleaves
    · rw [Name.same_iff.mp hsame] at hnot
      exact hnot (hsettled.protects named hnamed)
  refine ⟨?_, ?_, ?_, ?_⟩
  · intro deed hdeed named hnamed
    refine ⟨hapart deed hdeed named hnamed, ?_⟩
    intro hfile
    obtain ⟨spec, held, catalog, -, -, -, -, -, hpath, hwhy⟩ := hwarrant deed hdeed
    obtain ⟨row, hrow, hzone⟩ : ∃ row ∈ process.state.rows, row.zone.same deed.zone = true := by
      rcases hwhy with ⟨row, ⟨hrow, -⟩, hzone⟩ | ⟨-, hrow⟩
      · exact ⟨row, (mem_membersOf.mp hrow).1, hzone⟩
      · obtain ⟨row, hrow, -⟩ := hrow (by rw [hfile]; rfl)
        exact ⟨row, of_rowFor hrow⟩
    rw [Name.same_comm] at hzone
    have hsame := hfiles row hrow deed.zone hzone named hnamed (hpath _ hfile).symm
    rw [hapart deed hdeed named hnamed] at hsame
    cases hsame
  · intro deed hdeed hfile
    obtain ⟨spec, held, catalog, -, -, -, -, hname, -, hwhy⟩ := hwarrant deed hdeed
    rcases hwhy with ⟨row, ⟨hrow, -⟩, hzone⟩ | ⟨-, hhanded⟩
    · rw [← membersOf_congr hname] at hrow
      obtain ⟨hmem, hof⟩ := mem_membersOf.mp hrow
      exact ⟨row, rowFor_of_mem hsettled.apart hmem hzone, .inl hof⟩
    · obtain ⟨row, hrow, hlast, old, member, coo, hserved, hold, hmember, hcoo, hsame⟩ := hhanded hfile
      refine ⟨row, hrow, .inr ⟨hlast, old, member, coo, hserved, hold, hmember, hcoo, ?_⟩⟩
      rw [same_congr_right hname]
      exact hsame
  · intro held e hheld hbroken
    rcases reconcile_cases process.consumer call zone process.state with hnothing |
        ⟨spec, other, catalog, reconciled, sidecar, -, hother, -, hcatalog, -⟩
    · exact hnothing
    · grind
  · exact (settled_reconcile hsettled call zone).apart

example : zoneFilePath catConfig.dir ⟨[[47, 122, 111, 110, 101, 115, 47, 101, 120]], by decide, by decide⟩
    = zoneFilePath catConfig.dir ex := by
  decide +kernel

/-! ## A member the catalog lists no more -/

def emptiedZone : Zone :=
  [{ catSoa with rdata := ⟨SOA, wireOf [] ++ wireOf [] ++ [0, 0, 0, 2] ++ List.replicate 16 0⟩ },
    catVersion].foldl Zone.add (Zone.new cat)

def catEmptied : { zones : ZoneMap // Keyed zones } := ⟨[(cat, emptiedZone)], by
  intro entry hentry
  rw [List.mem_singleton.mp hentry]
  decide +kernel⟩

def catOfRoot : { zones : ZoneMap // Keyed zones } :=
  ⟨[(cat, [catSoa, catVersion, { catMember with rdata := ⟨PTR, wireOf []⟩ }].foldl Zone.add (Zone.new cat))], by
    intro entry hentry
    rw [List.mem_singleton.mp hentry]
    decide +kernel⟩

def rootListed : Process :=
  (((Process.off.step startCat).step (.serve catOfRoot [] none)).step (.reconcile writing cat)).step
    (.serve catEmptied [] none)

theorem ran_rootListed :
    Process.Ran [.serve catEmptied [] none, .reconcile writing cat, .serve catOfRoot [] none, startCat] rootListed :=
  .next (.next (.next (.next .off _) _) _) _

theorem rootListed_keeps : (∀ deed ∈ (rootListed.consumer.reconcile writing cat rootListed.state).done,
      ∀ named ∈ rootListed.config.specs, deed.zone.same named.zone = false) ∧
    (rootListed.consumer.reconcile writing cat rootListed.state).done =
      [.retired .root, .removed .root (zoneFilePath catConfig.dir .root)] := by
  have hrows : rootListed.state.rows = [⟨.root, aZonesCat, none⟩] := by decide +kernel
  have hspecs : rootListed.config.specs = [⟨cat, .v4 ⟨[192, 0, 2, 1], rfl⟩ 53, none, none⟩] := rfl
  have hkeeps := reconcile_keeps_to_its_own ran_rootListed writing cat (by
    intro row hrow named hnamed hsame
    have hmem := (mem_membersOf.mp hrow).1
    rw [hrows, List.mem_singleton] at hmem
    rw [hspecs, List.mem_singleton] at hnamed
    rw [hmem, hnamed] at hsame
    exact absurd hsame (by decide)) (by
    intro row hrow name hname named hnamed hpath
    rw [hrows, List.mem_singleton] at hrow
    rw [hspecs, List.mem_singleton] at hnamed
    rw [hrow, Name.same_iff_foldLabels] at hname
    have hroot : name = .root := Name.ext (List.map_eq_nil_iff.mp hname)
    rw [hroot, hnamed] at hpath
    exact absurd hpath (by decide +kernel))
  exact ⟨fun deed hdeed named hnamed => (hkeeps.1 deed hdeed named hnamed).1, by decide +kernel⟩

def handConfig : Configuration :=
  { catConfig with secondaries := [⟨ex, .v4 ⟨[192, 0, 2, 2], rfl⟩ 53, none, none⟩] }

def handed : Process :=
  (reconciled.step (.start handConfig ⟨[], keyed_nil⟩ none 100)).step (.serve catEmptied [] none)

theorem removes_named_zone :
    ¬ ∀ (events : List ConsumerEvent) (process : Process), Process.Ran events process →
      ∀ (call : ReconcileCall) (zone : Name), ∀ deed ∈ (process.consumer.reconcile call zone process.state).done,
        ∀ named ∈ process.config.specs, deed.zone.same named.zone = false := by
  intro hall
  have hran : Process.Ran [.serve catEmptied [] none, .start handConfig ⟨[], keyed_nil⟩ none 100,
      .reconcile writing cat, .serve catZones [] none, startCat] handed :=
    .next (.next (.next ran_transferred _) _) _
  have hdone : (handed.consumer.reconcile writing cat handed.state).done =
      [.retired ex, .removed ex (zoneFilePath catConfig.dir ex)] := by
    simp only [handed, Process.step, Process.start, load_reconciled]
    decide +kernel
  have hsame := hall _ handed hran writing cat (.retired ex) (by rw [hdone]; exact List.mem_cons_self)
    ⟨ex, .v4 ⟨[192, 0, 2, 2], rfl⟩ 53, none, none⟩ List.mem_cons_self
  exact absurd hsame (by decide)

end Rdns.Catalogs
