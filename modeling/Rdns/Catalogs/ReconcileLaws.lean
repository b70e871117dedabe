import Rdns.Catalogs.Consumer

/-!
# Rdns — What a reconcile does to one zone

A step of a reconcile is about one zone, and leaves what concerns every other as it was
(`Untouched`). So what a reconcile does to a zone can be read off the one member that lists
it, or, where none does, off its row.
-/

namespace Rdns.Catalogs

open Rdns.Lib Rdns.Core Rdns.Present Rdns.Zones Rdns.Server

/-! ## Frames -/

structure Untouched (zone : Name) (before after : ConsumerState) : Prop where
  row : after.rows.rowFor zone = before.rows.rowFor zone
  tasks : after.tasks.get zone.toFolded = before.tasks.get zone.toFolded
  inherited : zone.toFolded ∈ after.inherited ↔ zone.toFolded ∈ before.inherited

theorem Untouched.refl (zone : Name) (state : ConsumerState) : Untouched zone state state := ⟨rfl, rfl, Iff.rfl⟩

variable {zone other : Name} {a b c : ConsumerState}

theorem Untouched.trans (h : Untouched zone a b) (h' : Untouched zone b c) : Untouched zone a c :=
  ⟨h'.row.trans h.row, h'.tasks.trans h.tasks, h'.inherited.trans h.inherited⟩

def Shrinks (before after : ConsumerState) : Prop :=
  ∀ key zone, after.zones.get key = some zone → before.zones.get key = some zone

theorem Shrinks.refl (state : ConsumerState) : Shrinks state state := fun _ _ h => h

theorem Shrinks.trans (h : Shrinks a b) (h' : Shrinks b c) : Shrinks a c :=
  fun key zone hzone => h key zone (h' key zone hzone)

structure Gone (zone : Name) (state : ConsumerState) : Prop where
  row : state.rows.rowFor zone = none
  tasks : state.tasks.get zone.toFolded = none

structure Provisioned (zone : Name) (state : ConsumerState) : Prop where
  row : (state.rows.rowFor zone).isSome = true
  replicated : state.replicates zone = true
  fresh : zone.toFolded ∉ state.inherited

theorem ne_of_not_same {a b : Name} (h : a.same b = false) : a.toFolded ≠ b.toFolded := by
  intro heq
  rw [Name.same_iff.mpr heq] at h
  cases h

theorem Provisioned.untouched {before after : ConsumerState} (h : Provisioned zone before)
    (hsame : Untouched zone before after) : Provisioned zone after := by
  constructor
  · rw [hsame.row]
    exact h.row
  · rw [ConsumerState.replicates, hsame.tasks]
    exact h.replicated
  · rw [hsame.inherited]
    exact h.fresh

/-! ## Withdrawing -/

structure OnlyServes (before after : ConsumerState) : Prop where
  rows : after.rows = before.rows
  tasks : after.tasks = before.tasks
  inherited : after.inherited = before.inherited
  sidecar : after.sidecar = before.sidecar
  shrinks : Shrinks before after

theorem OnlyServes.refl (state : ConsumerState) : OnlyServes state state := ⟨rfl, rfl, rfl, rfl, .refl _⟩

theorem OnlyServes.trans (h : OnlyServes a b) (h' : OnlyServes b c) : OnlyServes a c :=
  ⟨h'.rows.trans h.rows, h'.tasks.trans h.tasks, h'.inherited.trans h.inherited, h'.sidecar.trans h.sidecar,
    h.shrinks.trans h'.shrinks⟩

theorem onlyServes_withdraw (state : ConsumerState) (zone : Name) : OnlyServes state (state.withdraw zone) := by
  rw [ConsumerState.withdraw]
  split
  · exact .refl state
  · refine ⟨rfl, rfl, rfl, rfl, ?_⟩
    intro key served hserved
    rw [Entries.get_remove] at hserved
    split at hserved
    · cases hserved
    · exact hserved

theorem onlyServes_withdrawUnvouchedZones (state : ConsumerState) (now : Nat) (specs : List MasterSpec) :
    OnlyServes state (state.withdrawUnvouchedZones now specs) := by
  rw [ConsumerState.withdrawUnvouchedZones]
  generalize mastersByZone specs = zones
  induction zones generalizing state with
  | nil => exact .refl state
  | cons entry rest ih =>
    have hone : OnlyServes state (state.withdrawUnvouched now entry.1 entry.2) := by
      rw [ConsumerState.withdrawUnvouched]
      split
      · split
        · exact onlyServes_withdraw state entry.1
        · exact .refl state
      · exact onlyServes_withdraw state entry.1
    exact hone.trans (ih _)

/-! ## Tasks -/

theorem tasks_spawn (state : ConsumerState) (master : MasterSpec) (key : Name) :
    (state.spawn master).tasks.get key = if key = master.zone.toFolded
      then some ((state.tasks.get key).getD [] ++ [master]) else state.tasks.get key := by
  rw [ConsumerState.spawn]
  dsimp only
  rw [Entries.get_insert]
  split
  · rename_i hkey
    rw [hkey]
  · rfl

theorem isSome_tasks_spawnAll (masters : List MasterSpec) (state : ConsumerState) (key : Name) :
    ((masters.foldl ConsumerState.spawn state).tasks.get key).isSome
      = ((state.tasks.get key).isSome || masters.any fun master => key = master.zone.toFolded) := by
  induction masters generalizing state with
  | nil =>
    rw [List.any_nil, Bool.or_false]
    rfl
  | cons master rest ih =>
    rw [List.foldl_cons, ih, tasks_spawn, List.any_cons]
    by_cases hkey : key = master.zone.toFolded
    · rw [if_pos hkey, decide_eq_true hkey, Option.isSome_some, Bool.true_or, Bool.or_true]
    · rw [if_neg hkey, decide_eq_false hkey, Bool.false_or]

theorem tasks_spawnAll {masters : List MasterSpec} {key : Name}
    (h : ∀ master ∈ masters, key ≠ master.zone.toFolded) (state : ConsumerState) :
    (masters.foldl ConsumerState.spawn state).tasks.get key = state.tasks.get key := by
  induction masters generalizing state with
  | nil => rfl
  | cons master rest ih =>
    rw [List.foldl_cons, ih fun m hm => h m (List.mem_cons_of_mem _ hm), tasks_spawn,
      if_neg (h master List.mem_cons_self)]

theorem spawnAll_keeps (masters : List MasterSpec) (state : ConsumerState) :
    (masters.foldl ConsumerState.spawn state).rows = state.rows ∧
    (masters.foldl ConsumerState.spawn state).inherited = state.inherited ∧
    (masters.foldl ConsumerState.spawn state).zones = state.zones ∧
    (masters.foldl ConsumerState.spawn state).sidecar = state.sidecar ∧
    (masters.foldl ConsumerState.spawn state).done = state.done := by
  induction masters generalizing state with
  | nil => exact ⟨rfl, rfl, rfl, rfl, rfl⟩
  | cons master rest ih => exact ih (state.spawn master)

theorem masters_of_fetch (spec : CatalogSpec) (zone : Name) (fetch : Fetch) :
    fetch.masters spec zone ≠ [] ∧ ∀ master ∈ fetch.masters spec zone, master.zone = zone := by
  cases fetch with
  | fromGroup rule =>
    constructor
    · rw [Fetch.masters, Ne, List.map_eq_nil_iff]
      exact rule.masters_ne
    · intro master hmaster
      obtain ⟨m, -, rfl⟩ := List.mem_map.mp hmaster
      rfl
  | fromCatalog =>
    refine ⟨List.cons_ne_nil _ _, ?_⟩
    intro master hmaster
    change master ∈ [spec.spec.forMember zone] at hmaster
    rw [List.mem_singleton] at hmaster
    rw [hmaster]
    rfl
  | ambiguous =>
    refine ⟨List.cons_ne_nil _ _, ?_⟩
    intro master hmaster
    change master ∈ [spec.spec.forMember zone] at hmaster
    rw [List.mem_singleton] at hmaster
    rw [hmaster]
    rfl

/-! ## The steps -/

variable {consumer : Consumer} {call : ReconcileCall} {spec : CatalogSpec}

theorem untouched_retire (h : zone.same other = false) (state : ConsumerState) :
    Untouched other state (state.retire zone) := by
  refine ⟨rfl, ?_, Iff.rfl⟩
  rw [ConsumerState.retire]
  dsimp only
  rw [Entries.get_remove, if_neg (Ne.symm (ne_of_not_same h))]

theorem mem_inherited_filter (h : zone.same other = false) (inherited : List Name) :
    other.toFolded ∈ inherited.filter (fun key => key ≠ zone.toFolded) ↔ other.toFolded ∈ inherited := by
  rw [List.mem_filter]
  exact ⟨And.left, fun hmem => ⟨hmem, decide_eq_true (Ne.symm (ne_of_not_same h))⟩⟩

/-- What `add` does. -/
theorem add_spec (call : ReconcileCall) (spec : CatalogSpec) (member : CatalogMember) (fetch : Fetch)
    (state : ConsumerState) :
    (Consumer.add call spec member fetch state).rows = state.rows.set ⟨member.zone, member.node, fetch.group⟩ ∧
    Provisioned member.zone (Consumer.add call spec member fetch state) ∧
    (∀ other, member.zone.same other = false → Untouched other state (Consumer.add call spec member fetch state)) ∧
    Shrinks state (Consumer.add call spec member fetch state) ∧
    (Consumer.add call spec member fetch state).sidecar = state.sidecar := by
  have hserves := onlyServes_withdrawUnvouchedZones state call.now (fetch.masters spec member.zone)
  obtain ⟨hne, hzone⟩ := masters_of_fetch spec member.zone fetch
  rw [Consumer.add]
  generalize state.withdrawUnvouchedZones call.now (fetch.masters spec member.zone) = withdrawn at hserves
  generalize hset : ({ withdrawn with
    rows := withdrawn.rows.set ⟨member.zone, member.node, fetch.group⟩
    inherited := withdrawn.inherited.filter fun zone => zone ≠ member.zone.toFolded } : ConsumerState) = before
  obtain ⟨hrows, hinherited, hzones, hsidecar, -⟩ := spawnAll_keeps (fetch.masters spec member.zone) before
  subst hset
  refine ⟨?_, ⟨?_, ?_, ?_⟩, ?_, ?_, ?_⟩
  · rw [hrows]
    dsimp only
    rw [hserves.rows]
  · rw [hrows]
    dsimp only
    rw [rowFor_set, if_pos member.zone.same_self, Option.isSome_some]
  · rw [ConsumerState.replicates, isSome_tasks_spawnAll, Bool.or_eq_true, List.any_eq_true]
    obtain ⟨master, rest, hmasters⟩ := List.exists_cons_of_ne_nil hne
    have hmem : master ∈ fetch.masters spec member.zone := by
      rw [hmasters]
      exact List.mem_cons_self
    exact .inr ⟨master, hmem, decide_eq_true (by rw [hzone master hmem])⟩
  · grind
  · intro other hother
    refine ⟨?_, ?_, ?_⟩
    · rw [hrows]
      dsimp only
      rw [rowFor_set, if_neg (by rw [hother]; decide), hserves.rows]
    · rw [tasks_spawnAll fun master hmaster => by
        rw [hzone master hmaster]
        exact Ne.symm (ne_of_not_same hother)]
      dsimp only
      rw [hserves.tasks]
    · rw [hinherited]
      dsimp only
      rw [mem_inherited_filter hother, hserves.inherited]
  · intro key served hserved
    rw [hzones] at hserved
    exact hserves.shrinks key served hserved
  · rw [hsidecar]
    exact hserves.sidecar

/-- What `remove` does. -/
theorem remove_spec (consumer : Consumer) (call : ReconcileCall) (zone : Name) (state : ConsumerState) :
    (consumer.remove call zone state).rows = state.rows.forget zone ∧
    (consumer.remove call zone state).tasks = state.tasks.remove zone.toFolded ∧
    (consumer.remove call zone state).inherited = state.inherited.filter (fun other => other ≠ zone.toFolded) ∧
    Shrinks state (consumer.remove call zone state) ∧
    (consumer.remove call zone state).sidecar = state.sidecar := by
  have hserves := onlyServes_withdraw (state.retire zone) zone
  rw [Consumer.remove]
  dsimp only
  exact ⟨by rw [hserves.rows]; rfl, hserves.tasks, by rw [hserves.inherited]; rfl,
    fun key served hserved => hserves.shrinks key served hserved, hserves.sidecar⟩

theorem untouched_remove (h : zone.same other = false) (state : ConsumerState) :
    Untouched other state (consumer.remove call zone state) := by
  obtain ⟨hrows, htasks, hinherited, -, -⟩ := remove_spec consumer call zone state
  refine ⟨?_, ?_, ?_⟩
  · rw [hrows, rowFor_forget, if_neg (by rw [h]; decide)]
  · rw [htasks, Entries.get_remove, if_neg (Ne.symm (ne_of_not_same h))]
  · rw [hinherited, mem_inherited_filter h]

theorem gone_remove (h : zone.same other = true) (state : ConsumerState) :
    Gone other (consumer.remove call zone state) := by
  obtain ⟨hrows, htasks, -, -, -⟩ := remove_spec consumer call zone state
  constructor
  · rw [hrows, rowFor_forget, if_pos h]
  · rw [htasks, Entries.get_remove, if_pos (Name.same_iff.mp h).symm]

/-! ## What is done -/

def Does (dir : FilePath) (zone : Name) (before after : ConsumerState) : Prop :=
  ∃ deeds, after.done = before.done ++ deeds ∧
    ∀ deed ∈ deeds, deed.zone = zone ∧ ∀ file, deed.file = some file → file = zoneFilePath dir zone

def KeepsFiles (before after : ConsumerState) : Prop :=
  ∃ deeds, after.done = before.done ++ deeds ∧ ∀ deed ∈ deeds, deed.file = none

theorem Does.refl (dir : FilePath) (zone : Name) (state : ConsumerState) : Does dir zone state state :=
  ⟨[], (List.append_nil _).symm, fun _ hdeed => by cases hdeed⟩

theorem Does.trans {dir : FilePath} (h : Does dir zone a b) (h' : Does dir zone b c) :
    Does dir zone a c := by
  obtain ⟨first, hfirst, hdo⟩ := h
  obtain ⟨second, hsecond, hdo'⟩ := h'
  refine ⟨first ++ second, by rw [hsecond, hfirst, List.append_assoc], ?_⟩
  intro deed hdeed
  rcases List.mem_append.mp hdeed with hdeed | hdeed
  · exact hdo deed hdeed
  · exact hdo' deed hdeed

theorem KeepsFiles.refl (state : ConsumerState) : KeepsFiles state state :=
  ⟨[], (List.append_nil _).symm, fun _ hdeed => by cases hdeed⟩

theorem KeepsFiles.trans (h : KeepsFiles a b) (h' : KeepsFiles b c) : KeepsFiles a c := by
  obtain ⟨first, hfirst, hkeeps⟩ := h
  obtain ⟨second, hsecond, hkeeps'⟩ := h'
  refine ⟨first ++ second, by rw [hsecond, hfirst, List.append_assoc], ?_⟩
  intro deed hdeed
  rcases List.mem_append.mp hdeed with hdeed | hdeed
  · exact hkeeps deed hdeed
  · exact hkeeps' deed hdeed

theorem does_retire (dir : FilePath) (zone : Name) (state : ConsumerState) :
    Does dir zone state (state.retire zone) ∧ KeepsFiles state (state.retire zone) := by
  refine ⟨⟨[.retired zone], rfl, ?_⟩, ⟨[.retired zone], rfl, ?_⟩⟩
  · intro deed hdeed
    rw [List.mem_singleton.mp hdeed]
    exact ⟨rfl, fun _ hfile => by cases hfile⟩
  · intro deed hdeed
    rw [List.mem_singleton.mp hdeed]
    rfl

theorem does_withdraw (dir : FilePath) (zone : Name) (state : ConsumerState) :
    Does dir zone state (state.withdraw zone) ∧ KeepsFiles state (state.withdraw zone) := by
  rw [ConsumerState.withdraw]
  split
  · exact ⟨.refl dir zone state, .refl state⟩
  · refine ⟨⟨[.withdrawn zone], rfl, ?_⟩, ⟨[.withdrawn zone], rfl, ?_⟩⟩
    · intro deed hdeed
      rw [List.mem_singleton.mp hdeed]
      exact ⟨rfl, fun _ hfile => by cases hfile⟩
    · intro deed hdeed
      rw [List.mem_singleton.mp hdeed]
      rfl

theorem zone_of_mastersByZone {specs : List MasterSpec} (h : ∀ spec ∈ specs, spec.zone = zone) :
    ∀ entry ∈ mastersByZone specs, entry.1 = zone := by
  have htake : ∀ (spec : MasterSpec) (zones : List (Name × List SocketAddr)), spec.zone = zone →
      (∀ entry ∈ zones, entry.1 = zone) → ∀ entry ∈ mastersByZone.take spec zones, entry.1 = zone := by
    intro spec zones hspec
    induction zones with
    | nil => grind [mastersByZone.take]
    | cons first rest ih =>
      intro hzones entry hentry
      rw [mastersByZone.take] at hentry
      split at hentry
      · rcases List.mem_cons.mp hentry with rfl | hentry
        · exact hzones first List.mem_cons_self
        · exact hzones entry (List.mem_cons_of_mem _ hentry)
      · rcases List.mem_cons.mp hentry with rfl | hentry
        · exact hzones first List.mem_cons_self
        · exact ih (fun e he => hzones e (List.mem_cons_of_mem _ he)) entry hentry
  have hfold : ∀ (specs : List MasterSpec) (zones : List (Name × List SocketAddr)), (∀ spec ∈ specs, spec.zone = zone) →
      (∀ entry ∈ zones, entry.1 = zone) →
        ∀ entry ∈ specs.foldl (fun zones spec => mastersByZone.take spec zones) zones, entry.1 = zone := by
    intro specs
    induction specs with
    | nil => exact fun zones _ hzones => hzones
    | cons spec rest ih =>
      intro zones hspecs hzones
      exact ih _ (fun s hs => hspecs s (List.mem_cons_of_mem _ hs))
        (htake spec zones (hspecs spec List.mem_cons_self) hzones)
  exact hfold specs [] h fun _ hentry => by cases hentry

theorem does_withdrawUnvouchedZones {specs : List MasterSpec} (h : ∀ spec ∈ specs, spec.zone = zone)
    (dir : FilePath) (now : Nat) (state : ConsumerState) :
    Does dir zone state (state.withdrawUnvouchedZones now specs) ∧
      KeepsFiles state (state.withdrawUnvouchedZones now specs) := by
  have hzones := zone_of_mastersByZone h
  rw [ConsumerState.withdrawUnvouchedZones]
  generalize mastersByZone specs = zones at hzones
  induction zones generalizing state with
  | nil => exact ⟨.refl dir zone state, .refl state⟩
  | cons entry rest ih =>
    have hone : Does dir zone state (state.withdrawUnvouched now entry.1 entry.2) ∧
        KeepsFiles state (state.withdrawUnvouched now entry.1 entry.2) := by
      rw [hzones entry List.mem_cons_self, ConsumerState.withdrawUnvouched]
      split
      · split
        · exact does_withdraw dir zone state
        · exact ⟨.refl dir zone state, .refl state⟩
      · exact does_withdraw dir zone state
    obtain ⟨hdoes, hkeeps⟩ := ih (state.withdrawUnvouched now entry.1 entry.2) fun e he =>
      hzones e (List.mem_cons_of_mem _ he)
    exact ⟨hone.1.trans hdoes, hone.2.trans hkeeps⟩

theorem does_add (dir : FilePath) (call : ReconcileCall) (spec : CatalogSpec) (member : CatalogMember) (fetch : Fetch)
    (state : ConsumerState) : Does dir member.zone state (Consumer.add call spec member fetch state) ∧
      KeepsFiles state (Consumer.add call spec member fetch state) := by
  obtain ⟨hdoes, hkeeps⟩ := does_withdrawUnvouchedZones (masters_of_fetch spec member.zone fetch).2 dir call.now state
  rw [Consumer.add]
  generalize state.withdrawUnvouchedZones call.now (fetch.masters spec member.zone) = withdrawn at hdoes hkeeps
  generalize hset : ({ withdrawn with
    rows := withdrawn.rows.set ⟨member.zone, member.node, fetch.group⟩
    inherited := withdrawn.inherited.filter fun zone => zone ≠ member.zone.toFolded } : ConsumerState) = before
  obtain ⟨-, -, -, -, hdone⟩ := spawnAll_keeps (fetch.masters spec member.zone) before
  subst hset
  exact ⟨⟨hdoes.choose, hdone.trans hdoes.choose_spec.1, hdoes.choose_spec.2⟩,
    ⟨hkeeps.choose, hdone.trans hkeeps.choose_spec.1, hkeeps.choose_spec.2⟩⟩

theorem does_remove (consumer : Consumer) (call : ReconcileCall) (zone : Name) (state : ConsumerState) :
    Does consumer.dir zone state (consumer.remove call zone state) := by
  obtain ⟨deeds, hdone, hdo⟩ := (does_retire consumer.dir zone state).1.trans
    (does_withdraw consumer.dir zone (state.retire zone)).1
  refine ⟨deeds ++ [.removed zone (zoneFilePath consumer.dir zone)], ?_, ?_⟩
  · rw [Consumer.remove, ← List.append_assoc, ← hdone]
  · intro deed hdeed
    rcases List.mem_append.mp hdeed with hdeed | hdeed
    · exact hdo deed hdeed
    · rw [List.mem_singleton.mp hdeed]
      exact ⟨rfl, fun file hfile => (Option.some.inj hfile).symm⟩

end Rdns.Catalogs
