import Rdns.Server.StateFile

/-!
# Rdns — Contacts made while others are being written

`record_state` of `rdnsd/src/replication.rs` and the removal of a zone by `Catalogs::remove`:
each changes the entries and takes a snapshot of them under the mutex, and writes the
snapshot when it has let go. Nothing orders the writes.
-/

namespace Rdns.Server

open Rdns.Lib Rdns.Core Rdns.Present Rdns.Zones

/-! ## The tasks -/

inductive StateChange where
  | contact (zone : Name) (serial : Serial) (now : UInt64) (master : SocketAddr)
  | removal (zone : Name)

def StateChange.zone : StateChange → Name
  | .contact zone _ _ _ => zone
  | .removal zone => zone

def StateChange.apply (entries : List TransferState) : StateChange → List TransferState
  | .contact zone serial now master => setState ⟨toPresentation zone, serial, now, master⟩ entries
  | .removal zone => forgetState (toPresentation zone) entries

structure Sidecar where
  entries : List TransferState
  file : Replacing UInt8

def Sidecar.load (file : Replacing UInt8) : Sidecar := ⟨loadState file.contents, file⟩

def Sidecar.change (s : Sidecar) (change : StateChange) : Sidecar :=
  let entries := change.apply s.entries
  ⟨entries, s.file.join (toBytes (snapshotText entries))⟩

/-- Tasks change the entries and write their snapshots, in any order; with the changes in
the order the mutex gave them. -/
inductive SidecarRuns (file : Replacing UInt8) : List StateChange → Sidecar → Prop
  | load : SidecarRuns file [] (.load file)
  | change {changes : List StateChange} {s : Sidecar} (change : StateChange) :
      SidecarRuns file changes s → SidecarRuns file (changes ++ [change]) (s.change change)
  | write {changes : List StateChange} {s : Sidecar} (step : WriterStep) {file' : Replacing UInt8} :
      SidecarRuns file changes s → s.file.advance step = some file' →
        SidecarRuns file changes ⟨s.entries, file'⟩

def replay (entries : List TransferState) (changes : List StateChange) : List TransferState :=
  changes.foldl StateChange.apply entries

/-! ## The entries -/

section Entries

variable {entries : List TransferState}

theorem kept_setState {state : TransferState} (h : ∀ e ∈ entries, Kept e.zone) (hstate : Kept state.zone) :
    ∀ e ∈ setState state entries, Kept e.zone := by
  induction entries with
  | nil => grind [setState]
  | cons existing rest ih =>
    intro e he
    rw [setState] at he
    split at he
    · rcases List.mem_cons.mp he with rfl | he
      · exact hstate
      · exact h e (List.mem_cons_of_mem _ he)
    · rcases List.mem_cons.mp he with rfl | he
      · exact h _ List.mem_cons_self
      · exact ih (fun e he => h e (List.mem_cons_of_mem _ he)) e he

theorem kept_apply {change : StateChange} (h : ∀ e ∈ entries, Kept e.zone)
    (hzone : (toPresentation change.zone).head? ≠ some '#') : ∀ e ∈ change.apply entries, Kept e.zone := by
  cases change with
  | contact zone serial now master => exact kept_setState h (kept_toPresentation hzone)
  | removal zone => exact fun e he => h e (List.mem_of_mem_filter he)

theorem kept_replay {changes : List StateChange} (h : ∀ e ∈ entries, Kept e.zone)
    (hzones : ∀ change ∈ changes, (toPresentation change.zone).head? ≠ some '#') :
    ∀ e ∈ replay entries changes, Kept e.zone := by
  induction changes generalizing entries with
  | nil => exact h
  | cons change changes ih =>
    exact ih (kept_apply h (hzones _ List.mem_cons_self)) fun c hc => hzones c (List.mem_cons_of_mem _ hc)

end Entries

/-! ## The snapshots -/

section Snapshots

variable {file : Replacing UInt8} {changes : List StateChange} {s : Sidecar}

/-- The entries are those of all the changes, and each task has the snapshot of the changes
up to its own. -/
structure Snapshots (file : Replacing UInt8) (changes : List StateChange) (s : Sidecar) : Prop where
  entries : s.entries = replay (loadState file.contents) changes
  texts : s.file.writers.map Writer.contents = (List.range changes.length).map fun i =>
    toBytes (snapshotText (replay (loadState file.contents) (changes.take (i + 1))))

theorem contents_advance {before after : Replacing UInt8} {step : WriterStep}
    (h : before.advance step = some after) :
    after.writers.map Writer.contents = before.writers.map Writer.contents := by
  have hset : ∀ {i : Nat} {w : Writer UInt8} (phase : WriterPhase), before.writers[i]? = some w →
      (before.writers.set i { w with phase := phase }).map Writer.contents
        = before.writers.map Writer.contents := by
    intro i w phase hw
    obtain ⟨hi, hget⟩ := List.getElem?_eq_some_iff.mp hw
    rw [List.map_set]
    refine List.ext_getElem (by rw [List.length_set]) fun j hj _ => ?_
    by_cases hij : i = j
    · subst hij
      rw [List.getElem_set_self, List.getElem_map, hget]
    · rw [List.getElem_set_ne hij]
  cases Replacing.advance_spec h with
  | truncate hw _ _ => exact hset _ hw
  | create hw _ _ => exact hset _ hw
  | write hw _ => exact hset _ hw
  | rename hw _ _ => exact hset _ hw
  | fail hw => exact hset _ hw

theorem snapshots_of_runs (hready : file.Ready) (hrun : SidecarRuns file changes s) :
    Snapshots file changes s := by
  induction hrun with
  | load => exact ⟨rfl, by rw [Sidecar.load, hready.no_writers.1]; rfl⟩
  | @change changes s change _ ih =>
    have hentries : (s.change change).entries = replay (loadState file.contents) (changes ++ [change]) := by
      rw [replay, List.foldl_concat, ← replay, ← ih.entries]
      rfl
    refine ⟨hentries, ?_⟩
    rw [List.length_append, List.length_singleton, List.range_succ, List.map_append]
    show (s.file.writers ++ [_]).map Writer.contents = _
    rw [List.map_append, ih.texts]
    refine congrArg₂ _ (List.map_congr_left fun i hi => ?_) ?_
    · rw [List.take_append_of_le_length (List.mem_range.mp hi)]
    · rw [List.map_singleton, List.map_singleton, List.take_of_length_le (by simp), ← hentries]
      rfl
  | write step _ hstep ih => exact ⟨ih.entries, (contents_advance hstep).trans ih.texts⟩

theorem runs_of_sidecarRuns (hrun : SidecarRuns file changes s) : Replacing.Runs file s.file := by
  induction hrun with
  | load => exact .start
  | change change _ ih => exact ih.join _
  | write step _ hstep ih => exact ih.advance step hstep

/-- **The file is as of the last write to land.** -/
theorem load_landed (hready : file.Ready) (hrun : SidecarRuns file changes s)
    (hlanded : ∀ w ∈ s.file.writers, w.phase = .landed)
    (hzones : ∀ change ∈ changes, (toPresentation change.zone).head? ≠ some '#')
    (hfile : ∀ e ∈ loadState file.contents, endsWithRoot e.zone = true) {i : Nat}
    (hlast : s.file.landed.getLast? = some i) :
    loadState s.file.contents = replay (loadState file.contents) (changes.take (i + 1)) := by
  have hexclusive := Replacing.exclusive_of_landed hready (runs_of_sidecarRuns hrun) hlanded
  have hkept : ∀ e ∈ loadState file.contents, Kept e.zone := fun e he => of_mem_loadState he (hfile e he)
  have htexts := (snapshots_of_runs hready hrun).texts
  have hi := hexclusive.landed_lt i (List.mem_of_getLast? hlast)
  have hlen : s.file.writers.length = changes.length := by
    have hlength := congrArg List.length htexts
    rwa [List.length_map, List.length_map, List.length_range] at hlength
  have hcontents : s.file.contents =
      some (toBytes (snapshotText (replay (loadState file.contents) (changes.take (i + 1))))) := by
    rw [hexclusive.held, Replacing.lastLanded, hlast]
    dsimp only
    rw [← List.getElem?_map, htexts, List.getElem?_map, List.getElem?_range (by omega), Option.map_some]
  rw [hcontents]
  exact load_snapshotText (kept_replay hkept fun c hc => hzones c (List.mem_of_mem_take hc))

theorem changes_of_none (hready : file.Ready) (hrun : SidecarRuns file changes s)
    (hlanded : ∀ w ∈ s.file.writers, w.phase = .landed) (hlast : s.file.landed.getLast? = none) :
    changes = [] := by
  have htexts := congrArg List.length (snapshots_of_runs hready hrun).texts
  rw [List.length_map, List.length_map, List.length_range] at htexts
  rw [← List.length_eq_zero_iff, ← htexts, List.length_eq_zero_iff, List.eq_nil_iff_forall_not_mem]
  intro w hw
  obtain ⟨i, hget⟩ := List.mem_iff_getElem?.mp hw
  have hmem := Replacing.mem_landed hready (runs_of_sidecarRuns hrun) hget (hlanded w hw)
  rw [List.getLast?_eq_none_iff.mp hlast] at hmem
  cases hmem

end Snapshots

/-- **No contact is lost exactly when nothing changed after the last write to land took its
snapshot.** For any tasks and any interleaving of their steps, once every write has
succeeded, and for zones whose lines are not read as comments. -/
theorem contacts_kept_iff {file : Replacing UInt8} (hready : file.Ready) {changes : List StateChange}
    {s : Sidecar} (hrun : SidecarRuns file changes s) (hlanded : ∀ w ∈ s.file.writers, w.phase = .landed)
    (hzones : ∀ change ∈ changes, (toPresentation change.zone).head? ≠ some '#')
    (hfile : ∀ e ∈ loadState file.contents, endsWithRoot e.zone = true) :
    loadState s.file.contents = s.entries ↔ ∀ i, s.file.landed.getLast? = some i →
      replay (loadState file.contents) (changes.take (i + 1)) = replay (loadState file.contents) changes := by
  have hsnapshots := snapshots_of_runs hready hrun
  rw [hsnapshots.entries]
  cases hlast : s.file.landed.getLast? with
  | some i => grind [load_landed]
  | none =>
    obtain rfl := changes_of_none hready hrun hlanded hlast
    refine iff_of_true ?_ fun i hi => by cases hi
    have hnone := Replacing.exclusive_of_landed hready (runs_of_sidecarRuns hrun) hlanded
    rw [hnone.held, Replacing.lastLanded, hlast]
    rfl

/-! ## Two tasks -/

def noFile : Replacing UInt8 := ⟨none, none, [], [], []⟩

theorem length_masterEx : ([192, 0, 2, 1] : Octets).length = 4 := rfl

theorem length_masterWwwEx : ([192, 0, 2, 2] : Octets).length = 4 := rfl

def contactEx : StateChange := .contact ex ⟨1⟩ 1000 (.v4 ⟨[192, 0, 2, 1], length_masterEx⟩ 53)
def contactWwwEx : StateChange := .contact wwwEx ⟨7⟩ 1001 (.v4 ⟨[192, 0, 2, 2], length_masterWwwEx⟩ 53)

def bothMade : Sidecar := ((Sidecar.load noFile).change contactEx).change contactWwwEx

def writeWhole (s : Sidecar) (i : Nat) : Option Sidecar := do
  let created ← s.file.advance (.create i)
  let written ← created.advance (.write i)
  let landed ← written.advance (.rename i)
  return ⟨s.entries, landed⟩

theorem runs_writeWhole {file : Replacing UInt8} {changes : List StateChange} {s s' : Sidecar}
    (hrun : SidecarRuns file changes s) {i : Nat} (h : writeWhole s i = some s') :
    SidecarRuns file changes s' := by
  rw [writeWhole] at h
  simp only [Option.bind_eq_bind, Option.bind_eq_some_iff] at h
  obtain ⟨created, hcreated, written, hwritten, landed, hrenamed, h⟩ := h
  obtain rfl := Option.some.inj h
  exact ((hrun.write _ hcreated).write _ hwritten).write _ hrenamed

theorem runs_bothMade : SidecarRuns noFile [contactEx, contactWwwEx] bothMade :=
  .change contactWwwEx (.change contactEx .load)

theorem ready_noFile : noFile.Ready := ⟨nofun, nofun, rfl, rfl⟩

theorem contacts_kept_inOrder : ∃ s, SidecarRuns noFile [contactEx, contactWwwEx] s ∧
    (∀ w ∈ s.file.writers, w.phase = .landed) ∧ s.file.landed.getLast? = some 1 ∧
    loadState s.file.contents = s.entries := by
  have hfacts : (((writeWhole bothMade 0).bind (writeWhole · 1)).map fun s =>
      decide (∀ w ∈ s.file.writers, w.phase = .landed) && s.file.landed == [0, 1]) = some true := by
    decide +kernel
  obtain ⟨s, hs, hall⟩ := Option.map_eq_some_iff.mp hfacts
  obtain ⟨first, hfirst, hsecond⟩ := Option.bind_eq_some_iff.mp hs
  rw [Bool.and_eq_true, decide_eq_true_eq, beq_iff_eq] at hall
  have hrun := runs_writeWhole (runs_writeWhole runs_bothMade hfirst) hsecond
  have hlast : s.file.landed.getLast? = some 1 := by
    rw [hall.2]
    rfl
  refine ⟨s, hrun, hall.1, hlast, (contacts_kept_iff ready_noFile hrun hall.1 (by decide) nofun).mpr ?_⟩
  intro i hi
  obtain rfl := Option.some.inj (hlast.symm.trans hi)
  rfl

/-- **The later contact is lost**: its task writes first, and the earlier snapshot is renamed
over its file. -/
theorem contacts_lost_outOfOrder : ¬ ∀ (file : Replacing UInt8) (changes : List StateChange) (s : Sidecar),
    file.Ready → SidecarRuns file changes s → (∀ w ∈ s.file.writers, w.phase = .landed) →
      loadState s.file.contents = s.entries := by
  intro h
  have hfacts : (((writeWhole bothMade 1).bind (writeWhole · 0)).map fun s =>
      decide (∀ w ∈ s.file.writers, w.phase = .landed) && s.file.landed == [1, 0]) = some true := by
    decide +kernel
  obtain ⟨s, hs, hall⟩ := Option.map_eq_some_iff.mp hfacts
  obtain ⟨first, hfirst, hsecond⟩ := Option.bind_eq_some_iff.mp hs
  rw [Bool.and_eq_true, decide_eq_true_eq, beq_iff_eq] at hall
  have hrun := runs_writeWhole (runs_writeWhole runs_bothMade hfirst) hsecond
  have hlast : s.file.landed.getLast? = some 0 := by
    rw [hall.2]
    rfl
  have heq := h noFile _ s ready_noFile hrun hall.1
  rw [load_landed ready_noFile hrun hall.1 (by decide) nofun hlast,
    (snapshots_of_runs ready_noFile hrun).entries] at heq
  exact absurd (congrArg List.length heq) (by decide)

end Rdns.Server
