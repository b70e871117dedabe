import Rdns.Server.ZoneInstalls
import Rdns.Transfer.Journal

/-!
# Rdns — Increments across restarts

`JournalWriter` of `rdnsd/src/journal_writer.rs`, and what `rdnsd/src/zones.rs` does with the
journals: an install queues the steps of its zone, the writer writes them later, one batch at
a time, and a start reads the journals back. A crash loses what was queued and leaves the files
as they are, so that a journal may be behind the log, and a zone that is loaded ahead of both.

Main results:

* `increments_honest_restarted` — increments stay honest across restarts.
-/

namespace Rdns.Server

open Rdns.Lib Rdns.Core Rdns.Present Rdns.Zones Rdns.Transfer RecordTypes

variable (b64 : Base64) (fs : FileSystem)

/-! ## The writer -/

inductive Request where
  | save (steps : List ZoneDelta)
  | forget

/-- The journals, the newest request of each zone, and what is left of the batch at hand. -/
structure JournalWriter where
  files : Directory
  pending : Entries Name Request
  batch : Entries Name Request

namespace JournalWriter

def queue (w : JournalWriter) (zone : Name) (request : Request) : JournalWriter :=
  { w with pending := w.pending.insert zone.toFolded request }

def take (w : JournalWriter) : JournalWriter := { w with pending := [], batch := w.pending }

/-- One request of the batch; a write that fails is only logged. -/
def write (w : JournalWriter) (zone : Name) (landed : Bool) : JournalWriter :=
  let files := match w.batch.get zone with
    | some (.save steps) => (w.files.save b64 zone steps).toOption.getD w.files
    | some .forget => w.files.forget zone
    | none => w.files
  { w with files := if landed then files else w.files, batch := w.batch.remove zone }

end JournalWriter

/-- The requests, the last first: those that were queued, and those whose write was tried. -/
inductive Writes : List (Name × Request) → List (Name × Request) → JournalWriter → Prop where
  | start (files : Directory) : Writes [] [] ⟨files, [], []⟩
  | queue {queued done w} (h : Writes queued done w) (zone : Name)
      (request : Request) : Writes ((zone.toFolded, request) :: queued) done (w.queue zone request)
  | take {queued done w} (h : Writes queued done w)
      (hdone : w.batch = []) : Writes queued done w.take
  | write {queued done w} {zone : Name} {request : Request}
      (h : Writes queued done w) (hrequest : w.batch.get zone = some request) (landed : Bool) :
      Writes queued ((zone, request) :: done) (w.write b64 zone landed)

def requestsOf (zone : Name) (requests : List (Name × Request)) : List Request :=
  requests.filterMap fun request => if zone = request.1 then some request.2 else none

theorem requestsOf_cons (zone key : Name) (request : Request) (rest : List (Name × Request)) :
    requestsOf zone ((key, request) :: rest)
      = if zone = key then request :: requestsOf zone rest else requestsOf zone rest := by
  rw [requestsOf, List.filterMap_cons]
  by_cases h : zone = key
  · simp [h, requestsOf]
  · simp [h, requestsOf]

/-- The first requests are among the second in the same order, the newest of them first. -/
def Newest (some all : List Request) : Prop := List.Sublist some all ∧ some.head? = all.head?

/-- What waits of a zone is newer than what was tried. -/
theorem Writes.newest {queued done w} (h : Writes b64 queued done w)
    (zone : Name) : Newest ((w.pending.get zone).toList ++ ((w.batch.get zone).toList ++ requestsOf zone done))
      (requestsOf zone queued) := by
  induction h with
  | start files => exact ⟨List.Sublist.refl _, rfl⟩
  | @queue queued done w h key request ih =>
    show Newest (((w.pending.insert key.toFolded request).get zone).toList ++ _) _
    rw [Entries.get_insert, requestsOf_cons]
    by_cases hzone : zone = key.toFolded
    · rw [if_pos hzone, if_pos hzone]
      exact ⟨((List.sublist_append_right _ _).trans ih.1).cons_cons _, rfl⟩
    · rw [if_neg hzone, if_neg hzone]
      exact ih
  | take h hdone ih =>
    rw [hdone] at ih
    exact ih
  | @write queued done w key request h hrequest landed ih =>
    show Newest (_ ++ (((w.batch.remove key).get zone).toList ++ _)) _
    rw [Entries.get_remove, requestsOf_cons]
    by_cases hzone : zone = key
    · rw [hzone, hrequest] at ih
      rw [if_pos hzone, if_pos hzone, hzone]
      exact ih
    · rw [if_neg hzone, if_neg hzone]
      exact ih

/-- **No write is out of turn**: each zone's journal is written in the order its requests were
queued, and when nothing of it waits, as the last of them asked. -/
theorem writes_in_turn {queued done w} (h : Writes b64 queued done w)
    (zone : Name) :
    List.Sublist (requestsOf zone done) (requestsOf zone queued) ∧
      (w.pending.get zone = none → w.batch.get zone = none →
        (requestsOf zone done).head? = (requestsOf zone queued).head?) := by
  obtain ⟨hsub, hhead⟩ := h.newest b64 zone
  refine ⟨((List.sublist_append_right _ _).trans (List.sublist_append_right _ _)).trans hsub, fun hpending hbatch => ?_⟩
  rw [hpending, hbatch] at hhead
  exact hhead

/-- A deletion takes the place of a save that waits. -/
theorem writes_in_turn_replaced : ∃ w, Writes noBase64 [(ex, .forget), (ex, .save [])] [(ex, .forget)] w ∧
    (requestsOf ex [(ex, .forget)]).head? = (requestsOf ex [(ex, .forget), (ex, .save [])]).head? := by
  have hwaiting : Writes noBase64 [(ex, .forget), (ex, .save [])] [] ⟨journals, [], [(ex, .forget)]⟩ :=
    (((Writes.start journals).queue ex (.save [])).queue ex .forget).take rfl
  have hrun := hwaiting.write (show Entries.get [(ex, Request.forget)] ex = some .forget from rfl) true
  exact ⟨_, hrun, (writes_in_turn noBase64 hrun ex).2 rfl rfl⟩

/-! ## A start -/

def restore (log : DeltaLog) (zone : Name) (deltas : List ZoneDelta) : DeltaLog :=
  let deltas := deltas.drop (deltas.length - MAX_DELTAS_PER_ZONE)
  if deltas.isEmpty then ⟨log.byZone.remove zone.toFolded⟩ else ⟨log.byZone.insert zone.toFolded deltas⟩

def restoreJournal (state : Directory × DeltaLog) (held : Name × Zone) : Directory × DeltaLog :=
  match state.1.load b64 fs held.1 with
  | .error _ => state
  | .ok loaded =>
    if loaded.isEmpty then state
    else if !usableAgainst loaded held.2 then (state.1.forget held.1, state.2)
    else (state.1, restore state.2 held.1 loaded)

def restoreJournals (files : Directory) (zones : ZoneMap) : Directory × DeltaLog :=
  zones.foldl (restoreJournal b64 fs) (files, .new)

/-- The names of the journals in the directory; the root's `.journal` is a file without an extension. -/
def journalledZones (disk : Directory) : List Name :=
  disk.files.filterMap fun file => do
    let name ← file.1.components.getLast?
    let stem ← name.dropSuffix? ".journal".toList
    if file.1 ≠ disk.dir.entry name ∨ stem.isEmpty then none else (fromPresentation (stem ++ ['.'])).toOption

def discardOrphanJournals (files : Directory) (zones : ZoneMap) : Directory :=
  ((journalledZones files).filter fun name => (zones.get name.toFolded).isNone).foldl Directory.forget files

structure Process where
  served : ZoneContext
  writer : JournalWriter

namespace Process

/-- `install_zone`: what was recorded is queued with the rest of the zone's steps. -/
def install (p : Process) (zone : Zone) (plan : Option PlannedDelta × Nat) : Process :=
  let planned :=
    if p.served.zones.generation = plan.2 then plan.1
    else planChange (p.served.zones.matching zone.origin) zone
  let served := p.served.commitInstall zone plan
  ⟨served, if planned.isSome then p.writer.queue zone.origin (.save (served.deltas.all zone.origin)) else p.writer⟩

def boot (files : Directory) (zones : ZoneMap) : Process :=
  let restored := restoreJournals b64 fs files zones
  ⟨⟨⟨zones, 0⟩, restored.2⟩, ⟨discardOrphanJournals restored.1 zones, [], []⟩⟩

end Process

/-- **The lives of a server**: its installs, each planned in any earlier state of the process,
the writer at work beside them, and restarts, with whatever zones are then on disk. -/
inductive Lived : List Zone → List ZoneContext → Process → Prop where
  | start (files : Directory) (hempty : files.files = []) : Lived [] [] (.boot b64 fs files [])
  | install {versions past p} {seen : ZoneContext}
      (h : Lived versions past p) (hseen : seen ∈ p.served :: past) (zone : Zone) :
      Lived (zone :: versions) (p.served :: past) (p.install zone (seen.planInstall zone))
  | take {versions past p} (h : Lived versions past p)
      (hdone : p.writer.batch = []) : Lived versions past ⟨p.served, p.writer.take⟩
  | write {versions past p} (h : Lived versions past p)
      (zone : Name) (landed : Bool) : Lived versions past ⟨p.served, p.writer.write b64 zone landed⟩
  | restart {versions past p} (h : Lived versions past p)
      (zones : ZoneMap) (hkeys : ∀ e ∈ zones, e.1 = zoneKey e.2) :
      Lived (zones.map Prod.snd ++ versions) [] (.boot b64 fs p.writer.files zones)

/-! ## What the steps say -/

/-- A version whose records can be journalled, and whose SOA reads as it parses. -/
structure Recordable (zone : Zone) : Prop where
  soa : ∀ soa, apexSoaRecord zone = some soa → Journalled b64 soa ∧ soa.rdata.soaSerial = zone.serial
  beside : ∀ record ∈ besideSoa zone, Journalled b64 record

/-- The versions there were: well made, and no two of a zone under one serial. -/
structure Known (versions : List Zone) : Prop where
  wellMade : ∀ version ∈ versions, Version version
  recordable : ∀ version ∈ versions, Recordable b64 version
  named : ∀ a ∈ versions, ∀ b ∈ versions, zoneKey a = zoneKey b → ∀ serial, a.serial = some serial →
    b.serial = some serial → contents a = contents b

def Told (versions : List Zone) (key : Name) (delta : ZoneDelta) : Prop :=
  Links versions key delta ∧ Framed b64 key delta

variable {b64} {fs} {versions more : List Zone} {past : List ZoneContext} {p : Process} {seen : ZoneContext}
  {zone : Zone} {key : Name} {delta : ZoneDelta} {record : ResourceRecord}

theorem Known.mono (h : Known b64 more) (hsub : versions ⊆ more) : Known b64 versions where
  wellMade := fun v hv => h.wellMade v (hsub hv)
  recordable := fun v hv => h.recordable v (hsub hv)
  named := fun a ha b hb => h.named a (hsub ha) b (hsub hb)

theorem Told.mono (h : Told b64 versions key delta) (hsub : versions ⊆ more) : Told b64 more key delta := by
  obtain ⟨⟨old, hold, new, hnew, hrest⟩, hframed⟩ := h
  exact ⟨⟨old, hsub hold, new, hsub hnew, hrest⟩, hframed⟩

theorem Told.toFolded (h : Told b64 versions key delta) :
    key.toFolded = key := by
  obtain ⟨⟨old, -, -, -, hkey, -⟩, -⟩ := h
  rw [← hkey, zoneKey, Name.toFolded_toFolded]

theorem apexSoaAt_besideSoa (hkey : zoneKey zone = key) (h : record ∈ besideSoa zone) : apexSoaAt key record = false := by
  obtain ⟨r, hr, rfl⟩ := List.mem_map.mp h
  have hnot : zone.isApexSoa r = false := by simpa using (List.mem_filter.mp hr).2
  have hname : (asRecord r).name.same key = r.name.same zone.origin := by
    rw [Bool.eq_iff_iff, Name.same_iff, Name.same_iff, ← hkey, zoneKey, Name.toFolded_toFolded]
    rfl
  rw [apexSoaAt, hname]
  exact hnot

theorem apexSoaAt_apexSoa (hversion : Version zone) (hkey : zoneKey zone = key) {soa : ResourceRecord}
    (h : apexSoaRecord zone = some soa) : apexSoaAt key soa = true := by
  obtain ⟨held, hfilter, hapex⟩ := hversion.apexSoa_eq
  have hheld : held ∈ zone.records.filter zone.isApexSoa := hfilter ▸ List.mem_singleton_self held
  have hrtype := (List.mem_filter.mp hheld).2
  rw [Zone.isApexSoa, Bool.and_eq_true] at hrtype
  rw [apexSoaRecord, hapex] at h
  obtain rfl := Option.some.inj h
  rw [apexSoaAt, Bool.and_eq_true]
  exact ⟨hrtype.1, Name.same_iff.mpr (by rw [← hkey, zoneKey, Name.toFolded_toFolded])⟩

/-- **A planned step can be journalled**, if the versions it is between can. -/
theorem told_of_planChange (hknown : Known b64 versions) {old new : Zone}
    {planned : PlannedDelta} (hold : old ∈ versions) (hnew : new ∈ versions) (hkey : zoneKey old = zoneKey new)
    (h : planChange (some old) new = some planned) :
    planned.zone = zoneKey new ∧ Told b64 versions (zoneKey new) planned.delta := by
  obtain ⟨hzone, hlinks⟩ := links_of_planChange hknown.wellMade hold hnew hkey h
  refine ⟨hzone, hlinks, ?_⟩
  simp only [planChange, Option.bind_eq_bind, Option.bind_some, Option.bind_eq_some_iff] at h
  obtain ⟨_, -, _, -, h⟩ := h
  split at h
  · cases h
  · obtain ⟨delta, hdelta, h⟩ := Option.bind_eq_some_iff.mp h
    split at h
    · cases h
    · obtain rfl := Option.some.inj h
      simp only [diff, Option.bind_eq_bind, Option.bind_eq_some_iff, Option.pure_def, Option.some.injEq] at hdelta
      obtain ⟨fromSoa, hfrom, toSoa, hto, fromSerial, hserial, toSerial, hserial', rfl⟩ := hdelta
      have hbeside : ∀ record ∈ besideSoa old ++ besideSoa new,
          Journalled b64 record ∧ apexSoaAt (zoneKey new) record = false := by
        intro record hrecord
        rcases List.mem_append.mp hrecord with hrecord | hrecord
        · exact ⟨(hknown.recordable old hold).beside record hrecord, apexSoaAt_besideSoa hkey hrecord⟩
        · exact ⟨(hknown.recordable new hnew).beside record hrecord, apexSoaAt_besideSoa rfl hrecord⟩
      have hchanged : ∀ copies : Int → Nat, ∀ record ∈ (Difference.counts recordKey (besideSoa old) (besideSoa new)).flatMap
          (fun entry => List.replicate (copies entry.2.2) entry.2.1), record ∈ besideSoa old ++ besideSoa new := by
        intro copies record hrecord
        obtain ⟨entry, hentry, hmem⟩ := List.mem_flatMap.mp hrecord
        rw [(List.mem_replicate.mp hmem).2]
        exact Difference.mem_of_mem_counts recordKey hentry
      obtain ⟨hsoa, hread⟩ := (hknown.recordable old hold).soa fromSoa hfrom
      obtain ⟨hsoa', hread'⟩ := (hknown.recordable new hnew).soa toSoa hto
      refine ⟨?_, apexSoaAt_apexSoa (hknown.wellMade old hold) hkey hfrom,
        apexSoaAt_apexSoa (hknown.wellMade new hnew) rfl hto,
        fun record hrecord => (hbeside record (hchanged Int.toNat record hrecord)).2,
        hread.trans hserial, hread'.trans hserial'⟩
      intro record hrecord
      rcases List.mem_cons.mp hrecord with rfl | hrecord
      · exact hsoa
      rcases List.mem_append.mp hrecord with hrecord | hrecord
      · exact (hbeside record (hchanged Int.toNat record hrecord)).1
      rcases List.mem_cons.mp hrecord with rfl | hrecord
      · exact hsoa'
      · exact (hbeside record (hchanged (fun n => (-n).toNat) record hrecord)).1

/-! ## What every life keeps -/

def FilesTell (b64 : Base64) (fs : FileSystem) (T : Name → ZoneDelta → Prop) (files : Directory) : Prop :=
  ∀ origin found, files.load b64 fs origin = .ok found → ∀ delta ∈ found, T origin.toFolded delta

def LogTells (T : Name → ZoneDelta → Prop) (log : DeltaLog) : Prop :=
  ∀ key, ∀ delta ∈ (log.byZone.get key).getD [], T key delta

/-- The log, what is queued and what the files read as are steps between versions there were. -/
structure Truthful (b64 : Base64) (fs : FileSystem) (versions : List Zone) (past : List ZoneContext)
    (p : Process) : Prop where
  held : ∀ key zone, p.served.zones.byName.get key = some zone → zone ∈ versions ∧ zoneKey zone = key
  steps : LogTells (Told b64 versions) p.served.deltas
  queued : ∀ key steps, (key, Request.save steps) ∈ p.writer.pending ++ p.writer.batch → ∀ delta ∈ steps,
    Told b64 versions key delta
  files : FilesTell b64 fs (Told b64 versions) p.writer.files
  past : ∀ seen ∈ past, seen.zones.generation < p.served.zones.generation

section Tells

variable {T : Name → ZoneDelta → Prop} {log : DeltaLog} {files : Directory}

theorem dir_forget (zone : Name) : (files.forget zone).dir = files.dir := by
  rw [Directory.forget]
  split <;> rfl

theorem load_forget {zone origin : Name} {found : List ZoneDelta}
    (h : (files.forget zone).load b64 fs origin = .ok found) : found = [] ∨ files.load b64 fs origin = .ok found := by
  rw [Directory.forget] at h
  split at h
  · rw [Directory.load, Entries.get_remove] at h
    by_cases hpath : pathFor files.dir origin = pathFor files.dir zone
    · rw [if_pos hpath] at h
      exact .inl (Except.ok.inj h).symm
    · rw [if_neg hpath] at h
      exact .inr h
  · exact .inr h

theorem load_forget_beside {zone origin : Name} (h : pathFor files.dir zone ≠ pathFor files.dir origin) :
    (files.forget zone).load b64 fs origin = files.load b64 fs origin := by
  rw [Directory.forget]
  split
  · rw [Directory.load, Entries.get_remove, if_neg h.symm]
    rfl
  · rfl

theorem FilesTell.forget (h : FilesTell b64 fs T files) (zone : Name) : FilesTell b64 fs T (files.forget zone) := by
  intro origin found hload delta hdelta
  rcases load_forget hload with rfl | hload
  · cases hdelta
  · exact h origin found hload delta hdelta

theorem FilesTell.discard (h : FilesTell b64 fs T files) (zones : ZoneMap) :
    FilesTell b64 fs T (discardOrphanJournals files zones) := by
  rw [discardOrphanJournals]
  generalize (journalledZones files).filter _ = orphans
  induction orphans generalizing files with
  | nil => exact h
  | cons name rest ih => exact ih (h.forget name)

theorem LogTells.recordAny (h : LogTells T log) {planned : Option PlannedDelta}
    (hplanned : ∀ p, planned = some p → T p.zone p.delta) : LogTells T (log.recordAny planned) := by
  intro key delta hdelta
  cases planned with
  | none => exact h key delta hdelta
  | some planned =>
    cases hhistory : (log.record planned).byZone.get key with
    | none =>
      rw [DeltaLog.recordAny, hhistory] at hdelta
      cases hdelta
    | some history =>
      rw [DeltaLog.recordAny, hhistory] at hdelta
      rcases mem_record hhistory hdelta with ⟨rfl, rfl⟩ | ⟨before, hbefore, hmem⟩
      · exact hplanned planned rfl
      · exact h key delta (by rw [hbefore]; exact hmem)

theorem get_restore (log : DeltaLog) (zone key : Name) (steps : List ZoneDelta) :
    ((restore log zone steps).byZone.get key).getD [] = if key = zone.toFolded
      then steps.drop (steps.length - MAX_DELTAS_PER_ZONE) else (log.byZone.get key).getD [] := by
  rw [restore]
  split
  · next hempty =>
    rw [Entries.get_remove, List.isEmpty_iff.mp hempty]
    split
    · rfl
    · rfl
  · rw [Entries.get_insert]
    split
    · rfl
    · rfl

theorem restoreJournal_cases (state : Directory × DeltaLog) (held : Name × Zone) :
    restoreJournal b64 fs state held = state ∨ restoreJournal b64 fs state held = (state.1.forget held.1, state.2) ∨
      ∃ loaded, state.1.load b64 fs held.1 = .ok loaded ∧
        restoreJournal b64 fs state held = (state.1, restore state.2 held.1 loaded) := by
  rw [restoreJournal]
  split
  · exact .inl rfl
  · rename_i loaded hload
    split
    · exact .inl rfl
    · split
      · exact .inr (.inl rfl)
      · exact .inr (.inr ⟨loaded, hload, rfl⟩)

variable {zones : ZoneMap} {state : Directory × DeltaLog} {held : Name × Zone}

theorem tells_restoreJournal (hfiles : FilesTell b64 fs T state.1) (hlog : LogTells T state.2) :
    FilesTell b64 fs T (restoreJournal b64 fs state held).1 ∧ LogTells T (restoreJournal b64 fs state held).2 := by
  rcases restoreJournal_cases state held with heq | heq | ⟨loaded, hload, heq⟩
  · rw [heq]
    exact ⟨hfiles, hlog⟩
  · rw [heq]
    exact ⟨hfiles.forget held.1, hlog⟩
  · rw [heq]
    refine ⟨hfiles, fun key delta hdelta => ?_⟩
    rw [get_restore] at hdelta
    split at hdelta
    · rename_i hkey
      rw [hkey]
      exact hfiles held.1 loaded hload delta (List.mem_of_mem_drop hdelta)
    · exact hlog key delta hdelta

/-- **What is restored was in the files.** -/
theorem tells_restoreJournals (state : Directory × DeltaLog) (hfiles : FilesTell b64 fs T state.1) (hlog : LogTells T state.2) :
    FilesTell b64 fs T (zones.foldl (restoreJournal b64 fs) state).1 ∧
      LogTells T (zones.foldl (restoreJournal b64 fs) state).2 := by
  induction zones generalizing state with
  | nil => exact ⟨hfiles, hlog⟩
  | cons held rest ih =>
    obtain ⟨hfiles, hlog⟩ := tells_restoreJournal hfiles hlog
    exact ih _ hfiles hlog

theorem dir_restoreJournal : (restoreJournal b64 fs state held).1.dir = state.1.dir := by
  rcases restoreJournal_cases state held with heq | heq | ⟨loaded, -, heq⟩
  · rw [heq]
  · rw [heq, dir_forget]
  · rw [heq]

theorem dir_restoreJournals : (zones.foldl (restoreJournal b64 fs) state).1.dir = state.1.dir := by
  induction zones generalizing state with
  | nil => rfl
  | cons held rest ih => rw [List.foldl_cons, ih, dir_restoreJournal]

theorem restoreJournal_beside (h : pathFor state.1.dir held.1 ≠ pathFor state.1.dir key) :
    (restoreJournal b64 fs state held).1.load b64 fs key = state.1.load b64 fs key ∧
      (restoreJournal b64 fs state held).2.all key = state.2.all key := by
  rcases restoreJournal_cases state held with heq | heq | ⟨loaded, -, heq⟩
  · rw [heq]
    exact ⟨rfl, rfl⟩
  · rw [heq]
    exact ⟨load_forget_beside h, rfl⟩
  · rw [heq]
    have hname : key.toFolded ≠ held.1.toFolded := fun hsame => h (pathFor_congr _ hsame.symm)
    exact ⟨rfl, (get_restore state.2 held.1 key.toFolded loaded).trans (if_neg hname)⟩

theorem restoreJournals_beside (h : ∀ e ∈ zones, pathFor state.1.dir e.1 ≠ pathFor state.1.dir key) :
    (zones.foldl (restoreJournal b64 fs) state).1.load b64 fs key = state.1.load b64 fs key ∧
      (zones.foldl (restoreJournal b64 fs) state).2.all key = state.2.all key := by
  induction zones generalizing state with
  | nil => exact ⟨rfl, rfl⟩
  | cons held rest ih =>
    obtain ⟨hheld, hrest⟩ := List.forall_mem_cons.mp h
    obtain ⟨hload, hall⟩ := restoreJournal_beside hheld
    obtain ⟨hload', hall'⟩ := @ih (restoreJournal b64 fs state held) (by rw [dir_restoreJournal]; exact hrest)
    exact ⟨hload'.trans hload, hall'.trans hall⟩

end Tells

theorem Truthful.boot {files : Directory} {zones : ZoneMap}
    (hfiles : FilesTell b64 fs (Told b64 versions) files) (hkeys : ∀ e ∈ zones, e.1 = zoneKey e.2)
    (hzones : ∀ e ∈ zones, e.2 ∈ versions) : Truthful b64 fs versions [] (.boot b64 fs files zones) := by
  obtain ⟨hrestored, hlog⟩ : _ ∧ LogTells _ (restoreJournals b64 fs files zones).2 :=
    tells_restoreJournals (files, .new) hfiles fun _ _ hdelta => by cases hdelta
  refine ⟨fun key zone hheld => ?_, hlog, fun key steps hsteps => ?_, hrestored.discard zones, fun seen hseen => ?_⟩
  · exact ⟨hzones _ (Entries.mem_of_get hheld), (hkeys _ (Entries.mem_of_get hheld)).symm⟩
  · cases hsteps
  · cases hseen

theorem Truthful.install_eq (h : Truthful b64 fs versions past p) (hseen : seen ∈ p.served :: past) (zone : Zone) :
    p.install zone (seen.planInstall zone) =
      let planned := planChange (p.served.zones.matching zone.origin) zone
      let deltas := p.served.deltas.recordAny planned
      ⟨⟨p.served.zones.insert zone, deltas⟩,
        if planned.isSome then p.writer.queue zone.origin (.save (deltas.all zone.origin)) else p.writer⟩ := by
  have hplan : (if p.served.zones.generation = (seen.planInstall zone).2 then (seen.planInstall zone).1
      else planChange (p.served.zones.matching zone.origin) zone)
        = planChange (p.served.zones.matching zone.origin) zone := by
    rcases List.mem_cons.mp hseen with rfl | hseen
    · exact if_pos rfl
    · exact if_neg (h.past seen hseen).ne'
  rw [Process.install, ZoneContext.commitInstall]
  simp only [hplan]

/-- **An install** records and queues a step between versions there were. -/
theorem Truthful.install (h : Truthful b64 fs versions past p) (hseen : seen ∈ p.served :: past)
    (hknown : Known b64 (zone :: versions)) :
    Truthful b64 fs (zone :: versions) (p.served :: past) (p.install zone (seen.planInstall zone)) := by
  have hsub : versions ⊆ zone :: versions := fun v hv => List.mem_cons_of_mem _ hv
  have hbefore : LogTells (Told b64 (zone :: versions)) p.served.deltas :=
    fun key delta hdelta => (h.steps key delta hdelta).mono hsub
  have hplanned : ∀ planned, planChange (p.served.zones.matching zone.origin) zone = some planned →
      Told b64 (zone :: versions) planned.zone planned.delta := by
    intro planned hplan
    cases hold : p.served.zones.matching zone.origin with
    | none =>
      rw [hold] at hplan
      cases hplan
    | some old =>
      rw [hold] at hplan
      obtain ⟨hmem, hkey⟩ := h.held _ old hold
      obtain ⟨hzone, htold⟩ := told_of_planChange hknown (hsub hmem) List.mem_cons_self hkey hplan
      rw [hzone]
      exact htold
  have hsteps := hbefore.recordAny hplanned
  rw [h.install_eq hseen]
  refine ⟨fun key held hheld => ?_, hsteps, fun key steps hqueued delta hdelta => ?_, fun origin found hload delta hdelta => ?_,
    fun earlier hearlier => ?_⟩
  · rw [Zones.insert, Entries.get_insert] at hheld
    split at hheld
    · rename_i hkey
      obtain rfl := Option.some.inj hheld
      exact ⟨List.mem_cons_self, hkey.symm⟩
    · obtain ⟨hmem, hkey⟩ := h.held key held hheld
      exact ⟨hsub hmem, hkey⟩
  · dsimp only at hqueued
    split at hqueued
    · rcases List.mem_append.mp hqueued with hpending | hbatch
      · rcases Entries.mem_insert.mp hpending with ⟨rfl, hrequest⟩ | ⟨hpending, -⟩
        · obtain rfl := Request.save.inj hrequest
          exact hsteps _ delta hdelta
        · exact (h.queued key steps (List.mem_append_left _ hpending) delta hdelta).mono hsub
      · exact (h.queued key steps (List.mem_append_right _ hbatch) delta hdelta).mono hsub
    · exact (h.queued key steps hqueued delta hdelta).mono hsub
  · dsimp only at hload
    split at hload
    · exact (h.files origin found hload delta hdelta).mono hsub
    · exact (h.files origin found hload delta hdelta).mono hsub
  · show earlier.zones.generation < p.served.zones.generation + 1
    rcases List.mem_cons.mp hearlier with rfl | hearlier
    · exact Nat.lt_succ_self _
    · exact Nat.lt_succ_of_lt (h.past earlier hearlier)

/-- **A write** leaves a journal that reads as what was queued, or not at all. -/
theorem Truthful.write (h : Truthful b64 fs versions past p) (zone : Name) (landed : Bool) :
    Truthful b64 fs versions past ⟨p.served, p.writer.write b64 zone landed⟩ := by
  refine ⟨h.held, h.steps, fun key steps hqueued => ?_, ?_, h.past⟩
  · rcases List.mem_append.mp hqueued with hpending | hbatch
    · exact h.queued key steps (List.mem_append_left _ hpending)
    · exact h.queued key steps (List.mem_append_right _ (List.mem_filter.mp hbatch).1)
  · show FilesTell b64 fs (Told b64 versions) (p.writer.write b64 zone landed).files
    rw [JournalWriter.write]
    cases landed with
    | false => exact h.files
    | true =>
      dsimp only
      rw [if_pos rfl]
      cases hrequest : p.writer.batch.get zone with
      | none => exact h.files
      | some request =>
        cases request with
        | forget => exact FilesTell.forget h.files zone
        | save steps =>
          have htold := h.queued zone steps (List.mem_append_right _ (Entries.mem_of_get hrequest))
          dsimp only
          cases hwrites : p.writer.files.writes (pathFor p.writer.files.dir zone) with
          | false =>
            rw [save_unwritten hwrites]
            exact h.files
          | true =>
            obtain ⟨saved, hsaved, -, hread, hother⟩ := load_saved fs (fun delta hdelta => (htold delta hdelta).2)
              p.writer.files hwrites
            rw [hsaved]
            intro origin found hload delta hdelta
            by_cases hpath : pathFor p.writer.files.dir origin = pathFor p.writer.files.dir zone
            · obtain ⟨rfl, -, hnamed⟩ := (hread origin found hpath).mp hload
              rw [(hnamed delta hdelta).1, (htold delta hdelta).toFolded]
              exact htold delta hdelta
            · exact h.files origin found (by rw [← hother origin hpath]; exact hload) delta hdelta

theorem Lived.truthful (h : Lived b64 fs versions past p) (hknown : Known b64 versions) : Truthful b64 fs versions past p := by
  induction h with
  | start files hempty =>
    refine Truthful.boot (fun origin found hload delta hdelta => ?_) (fun e he => ?_) (fun e he => ?_)
    · rw [Directory.load, hempty] at hload
      rw [← Except.ok.inj hload] at hdelta
      cases hdelta
    · cases he
    · cases he
  | install h hseen zone ih =>
    exact (ih (hknown.mono fun v hv => List.mem_cons_of_mem _ hv)).install hseen hknown
  | take h hdone ih =>
    obtain ⟨hheld, hsteps, hqueued, hfiles, hpast⟩ := ih hknown
    refine ⟨hheld, hsteps, fun key steps hmem => ?_, hfiles, hpast⟩
    exact hqueued key steps (List.mem_append_left _ hmem)
  | write h zone landed ih => exact (ih hknown).write zone landed
  | @restart versions past p h zones hkeys ih =>
    have hsub : versions ⊆ zones.map Prod.snd ++ versions := fun v hv => List.mem_append_right _ hv
    have hbefore := ih (hknown.mono hsub)
    exact .boot (fun origin found hload delta hdelta => (hbefore.files origin found hload delta hdelta).mono hsub) hkeys
      fun e he => List.mem_append_left _ (List.mem_map_of_mem he)

/-- **Increments are honest across restarts**: whenever the process stopped, however far its
journals had come, and whatever versions were loaded then. -/
theorem increments_honest_restarted (h : Lived b64 fs versions past p) (hknown : Known b64 versions) : Honest versions p.served := by
  have htruthful := h.truthful hknown
  have hremembers : Remembers versions p.served :=
    ⟨hknown.wellMade, htruthful.held, fun key history hhistory delta hdelta =>
      (htruthful.steps key delta (by rw [hhistory]; exact hdelta)).1, hknown.named⟩
  intro name zone request client messages steps records hheld hclient hanswer version hversion hkey hserial
  obtain ⟨hzone, hzoneKey⟩ := hremembers.held _ zone hheld
  obtain ⟨soa, current, chain, hcurrent, hchain, hlast, rfl, rfl⟩ := of_incremental hclient hanswer
  obtain ⟨history, hhistory, hmem, hlinked⟩ := DeltaLog.of_chainFrom hchain
  exact ⟨soa, chain, hchain, answers_packTransferMessages request _, rfl,
    applySequences_linked hremembers (fun d hd => hremembers.steps _ history hhistory d (hmem d hd)) hversion
      hkey hzone rfl hserial hcurrent hlinked hlast⟩

theorem Process.install_batch (p : Process) (zone : Zone) (plan : Option PlannedDelta × Nat) :
    (p.install zone plan).writer.batch = p.writer.batch := by
  simp only [Process.install, JournalWriter.queue, apply_ite JournalWriter.batch, ite_self]

def plainVersion : Zone := exVersion 1 []
def laterVersion : Zone := exVersion 2 [1]

theorem recordable_of_plain (h : (∀ soa ∈ apexSoaRecord zone, Plain soa ∧ soa.rdata.soaSerial = zone.serial) ∧
    ∀ record ∈ besideSoa zone, Plain record) : Recordable noBase64 zone :=
  ⟨fun soa hsoa => ⟨(h.1 soa hsoa).1.journalled, (h.1 soa hsoa).2⟩, fun record hrecord => (h.2 record hrecord).journalled⟩

/-- A version replaced, its step written, and the later version loaded after a restart. -/
def restarted : Process :=
  let old := (Process.boot noBase64 noFiles journals []).install plainVersion
    ((Process.boot noBase64 noFiles journals []).served.planInstall plainVersion)
  let p := old.install laterVersion (old.served.planInstall laterVersion)
  .boot noBase64 noFiles (p.writer.take.write noBase64 ex true).files [(ex, laterVersion)]

theorem increments_honest_restarted_later : Honest [laterVersion, laterVersion, plainVersion] restarted.served := by
  have hlived : Lived noBase64 noFiles [laterVersion, laterVersion, plainVersion] [] restarted :=
    (((((Lived.start journals rfl).install List.mem_cons_self plainVersion).install List.mem_cons_self laterVersion).take (by
      rw [Process.install_batch, Process.install_batch]; rfl)).write ex true).restart [(ex, laterVersion)]
      (by simp only [List.forall_mem_singleton]; rfl)
  refine increments_honest_restarted hlived ⟨?_, ?_, ?_⟩
  · have hold : Version plainVersion := version_exVersion _ _ (by decide +kernel)
    have hnew : Version laterVersion := version_exVersion _ _ (by decide +kernel)
    simp [hold, hnew]
  · have hold : Recordable noBase64 plainVersion := recordable_of_plain (by decide +kernel)
    have hnew : Recordable noBase64 laterVersion := recordable_of_plain (by decide +kernel)
    simp [hold, hnew]
  · have hne : plainVersion.serial ≠ laterVersion.serial := by decide +kernel
    intro a ha b hb hkey serial hserial hserial'
    simp only [List.mem_cons, List.not_mem_nil, or_false] at ha hb
    rcases ha with rfl | rfl | rfl <;> rcases hb with rfl | rfl | rfl <;>
      first | rfl | exact absurd (hserial.trans hserial'.symm) hne | exact absurd (hserial'.trans hserial.symm) hne

/-- **What a start makes of a zone's journal**, whatever is in the others, where no two zones have
one file for theirs. -/
theorem boot_restores {zones : ZoneMap} (files : Directory)
    (hapart : zones.Pairwise fun a b => pathFor files.dir a.1 ≠ pathFor files.dir b.1) (hzone : (key, zone) ∈ zones) :
    (Process.boot b64 fs files zones).served.deltas.all key = match files.load b64 fs key with
      | .ok steps => if usableAgainst steps zone then steps.drop (steps.length - MAX_DELTAS_PER_ZONE) else []
      | .error _ => [] := by
  obtain ⟨before, after, rfl⟩ := List.append_of_mem hzone
  obtain ⟨-, hafter, hbefore⟩ := List.pairwise_append.mp hapart
  rw [List.pairwise_cons] at hafter
  show DeltaLog.all (Prod.snd (List.foldl _ _ _)) key = _
  have hstart : ∀ e ∈ before, pathFor files.dir e.1 ≠ pathFor files.dir key := fun e he => hbefore e he _ List.mem_cons_self
  generalize hstate : before.foldl (restoreJournal b64 fs) (files, .new) = state
  have hdir : state.1.dir = files.dir := hstate ▸ dir_restoreJournals
  have hload : state.1.load b64 fs key = files.load b64 fs key := hstate ▸ (restoreJournals_beside hstart).1
  have hall : state.2.all key = [] := hstate ▸ (restoreJournals_beside hstart).2
  rw [List.foldl_append, List.foldl_cons, hstate, (restoreJournals_beside fun e he => ?_).2]
  swap
  · rw [dir_restoreJournal, hdir]
    exact (hafter.1 e he).symm
  rw [restoreJournal, hload]
  cases files.load b64 fs key with
  | error e => exact hall
  | ok steps =>
    dsimp only
    split
    · next hempty =>
      rw [List.isEmpty_iff.mp hempty, hall]
      exact (ite_self []).symm
    · cases usableAgainst steps zone with
      | false => exact hall
      | true => exact (get_restore state.2 key key.toFolded steps).trans (if_pos rfl)

def readdressed : ZoneDelta := ⟨⟨1⟩, ⟨2⟩, exSoaRecord 1, exSoaRecord 2, [], [unaliased]⟩

/-- One journal as it was written, and one cut off at its first separator. -/
theorem boot_restores_torn : ∃ files : Directory,
    (∃ saved, journals.save noBase64 ex [readdressed] = .ok saved ∧
      files = { saved with files := saved.files.insert (pathFor journals.dir wwwEx) SEPARATOR }) ∧
    (Process.boot noBase64 noFiles files [(wwwEx, .new wwwEx), (ex, laterVersion)]).served.deltas.all ex = [readdressed] ∧
    (Process.boot noBase64 noFiles files [(wwwEx, .new wwwEx), (ex, laterVersion)]).served.deltas.all wwwEx = [] := by
  have hplain : ∀ record ∈ sequenceOf readdressed, Plain record := by decide +kernel
  have hframed : Framed noBase64 ex readdressed :=
    ⟨fun record hrecord => (hplain record hrecord).journalled, by decide, by decide, by decide, by decide +kernel,
      by decide +kernel⟩
  have halone : Alone ex readdressed := by
    have hno : ∀ r ∈ (sequenceOf readdressed).map zoneRecord, r.rtype ≠ CNAME ∧ r.rtype ≠ DNAME := by
      decide +kernel
    exact ⟨fun a ha _ _ hcname => absurd hcname (hno a ha).1, dnameRules_of_none fun r hr => (hno r hr).2⟩
  obtain ⟨saved, hsaved, hdir, hread, -⟩ := load_saved noFiles
    (show ∀ delta ∈ [readdressed], _ from List.forall_mem_singleton.mpr hframed) journals rfl
  have hpaths : pathFor journals.dir wwwEx ≠ pathFor journals.dir ex := by decide
  refine ⟨_, ⟨saved, hsaved, rfl⟩, ?_, ?_⟩
  · have hloads : (Directory.mk saved.dir (saved.files.insert (pathFor journals.dir wwwEx) SEPARATOR) saved.writes).load
        noBase64 noFiles ex = .ok [readdressed] := by
      rw [← (hread ex [readdressed] rfl).mpr ⟨rfl, .singleton _, List.forall_mem_singleton.mpr ⟨rfl, halone⟩⟩,
        Directory.load, hdir, Entries.get_insert, if_neg hpaths.symm, Directory.load, hdir]
    rw [boot_restores _ (List.pairwise_pair.mpr (hdir ▸ hpaths)) (List.mem_cons_of_mem _ List.mem_cons_self), hloads]
    decide +kernel
  · rw [boot_restores _ (List.pairwise_pair.mpr (hdir ▸ hpaths)) List.mem_cons_self, Directory.load, hdir,
      Entries.get_insert, if_pos rfl]
    decide +kernel

end Rdns.Server
