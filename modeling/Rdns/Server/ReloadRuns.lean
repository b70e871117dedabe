import Rdns.Server.FileRuns

/-!
# Rdns — A reload and the files it serves

A reload that may keep zones keeps the one served for a file whose digest a load has noted and
whose zone verified. The digest is noted when the file is parsed. A load that fails on another
file has noted it too, and an UPDATE installs its zone and notes nothing.

Main results:

* `reload_serves_files` — a reload serves its files, while the notes can be trusted.
-/

namespace Rdns.Server

open Rdns.Lib Rdns.Core Rdns.Present Rdns.Zones Rdns.Dnssec

variable {setup : ServerSetup} {state : ServerState} {sources : Sources}

/-- **What a reload serves**, if it installs anything: every listed file that reads was loaded;
every zone served was loaded, last, from a file that has these octets now; and where the file
includes no other, what is served are its records. -/
def ServesFiles (setup : ServerSetup) (state : ServerState) (sources : Sources) (call : ReloadCall) : Prop :=
  ∀ loaded, (setup.reload call state).2 = some loaded →
    ∃ entries, setup.source.listed state.disk = some entries ∧
      (∀ path origin raw zone, (path, origin) ∈ entries → state.disk.read path = some raw →
        ReadsAs setup.b64 raw origin zone → ∃ file ∈ loaded, file.origin = origin ∧ file.raw = raw) ∧
      (∀ key, lastFor loaded key = none → (setup.reload call state).1.zones.get key = none) ∧
      ∀ key file, lastFor loaded key = some file →
        (∃ path, (path, file.origin) ∈ entries ∧ state.disk.read path = some file.raw) ∧
        (setup.step (.reload call) state sources).2.get key = some ⟨file.origin, file.raw, false⟩ ∧
        ∃ served, (setup.reload call state).1.zones.get key = some served ∧
          ∀ zone, ReadsAs setup.b64 file.raw file.origin zone → zoneKey zone = key ∧ Holds setup.signing key zone served

/-! ## What the notes need -/

def OneOrigin (source : ZoneSource) : Prop :=
  ∀ path a b, source.Reads path a → source.Reads path b → a = b

section Notes

variable (setup : ServerSetup) (call : ReloadCall) (state : ServerState) (sources : Sources)

/-- The files of a load as it read them. -/
def readings : List ((String × Text) × Except LoadFailure LoadedFile) :=
  match setup.source.listed state.disk with
  | none => []
  | some entries =>
    entries.zip (loadPaths setup.b64 (setup.keepable call state) call.fs call.base state.disk state.loaded entries).1

/-- **What would be kept was loaded**: no UPDATE has written the zone since, and its octets are the
file's, if they have one digest. -/
def KeepsTheLoaded : Prop :=
  ∀ entry ∈ (setup.source.listed state.disk).getD [], ∀ raw ∈ state.disk.read entry.1,
    ∀ kept ∈ (setup.keepable call state).zoneFor state.loaded entry.1 raw, ∀ source ∈ sources.get kept.1,
      source.written = false ∧ (setup.digestOf source.raw = setup.digestOf raw → source.raw = raw)

/-- **What a load notes it installs**: a load that fails has noted nothing new of a zone that is
served, and one that succeeds has loaded no zone of which another file is noted. -/
def NotesTheInstalled : Prop :=
  ((setup.reload call state).2.isNone = true → ∀ note ∈ (setup.load call state).2,
    state.loaded.get note.1 = some note.2 ∨ (state.zones.get note.2.2).isNone = true) ∧
  ((setup.reload call state).2.isSome = true → ∀ note ∈ (setup.load call state).2, ∀ reading ∈ readings setup call state,
    ∀ file ∈ reading.2.toOption, file.key = note.2.2 → note.1 = reading.1.1)

instance : Decidable (KeepsTheLoaded setup call state sources) := inferInstanceAs (Decidable (∀ _ ∈ _, ∀ _ ∈ _, _))

instance : Decidable (NotesTheInstalled setup call state) := inferInstanceAs (Decidable (_ ∧ _))

end Notes

/-- **The notes of a load are of what is served**: what it noted is what was installed, and
nothing else has been put in its place. -/
structure TrustedNotes (setup : ServerSetup) (state : ServerState) (sources : Sources) (call : ReloadCall) : Prop where
  keeps : KeepsTheLoaded setup call state sources
  notes : NotesTheInstalled setup call state
  apart : FilesApart setup state call

def TrustsNotes (setup : ServerSetup) (state : ServerState) (sources : Sources) : ServerEvent → Prop
  | .reload call => TrustedNotes setup state sources call
  | _ => True

/-! ## What the notes say -/

/-- **A noted digest is that of what the zone was loaded from**, until an UPDATE writes the zone. -/
def Noted (setup : ServerSetup) (state : ServerState) (sources : Sources) : Prop :=
  ∀ path digest key, state.loaded.get path = some (digest, key) → ∀ served, state.zones.get key = some served →
    ∃ source, sources.get key = some source ∧ (source.written = false →
      ofSelfContained setup.digestOf source.raw = some digest ∧ setup.source.Reads path source.origin)

theorem reads_of_listed {source : ZoneSource} {disk : Disk} {entries : List (String × Text)}
    (h : source.listed disk = some entries) {path : String} {origin : Text} (hmem : (path, origin) ∈ entries) :
    source.Reads path origin := by
  cases source with
  | singleFile file =>
    cases h
    cases List.mem_singleton.mp hmem
    rfl
  | directory dir =>
    obtain ⟨paths, -, rfl⟩ := Option.map_eq_some_iff.mp h
    obtain ⟨listed, -, heq⟩ := List.mem_map.mp hmem
    cases heq
    rfl
  | files listed =>
    cases h
    obtain ⟨⟨zone, file⟩, hzone, heq⟩ := List.mem_map.mp hmem
    cases heq
    exact hzone

variable {call : ReloadCall}

/-- **A zone that is kept was loaded from the file's octets.** -/
theorem Noted.keepsTheFile (h : Noted setup state sources) (horigin : OneOrigin setup.source)
    (hkeeps : KeepsTheLoaded setup call state sources) : KeepsTheFile setup state sources call := by
  intro entries hentries path origin hmem raw key served hraw hkept
  obtain ⟨digest, hdigest, hnoted, hserved⟩ := of_zoneFor hkept
  obtain ⟨⟨from_, octets, written⟩, hsource, hloaded⟩ :=
    h path digest key hnoted served (zones_of_keepable hserved).2
  obtain ⟨rfl, hsame⟩ := hkeeps (path, origin) (by rw [hentries]; exact hmem) raw hraw (key, served) hkept _ hsource
  obtain ⟨hfrom, hreads⟩ := hloaded rfl
  have hdigestOf : ∀ octets, ofSelfContained setup.digestOf octets = some digest → setup.digestOf octets = digest := by
    intro octets hoctets
    rw [ofSelfContained] at hoctets
    split at hoctets
    · cases hoctets
    · exact Option.some.inj hoctets
  obtain rfl : octets = raw := hsame ((hdigestOf _ hfrom).trans (hdigestOf _ hdigest).symm)
  obtain rfl : from_ = origin := horigin path _ _ hreads (reads_of_listed hentries hmem)
  exact hsource

/-! ## What a load notes -/

/-- The note of `path`, if there is one, has the digest of the file's octets. -/
def Current (setup : ServerSetup) (disk : Disk) (path : String) (files : Entries String (FileDigest × Name)) : Prop :=
  ∀ raw digest key, disk.read path = some raw → files.get path = some (digest, key) →
    ofSelfContained setup.digestOf raw = some digest

section Loading

variable {call : ReloadCall} {files files' : Entries String (FileDigest × Name)} {path path' : String} {origin : Text}

theorem loadPath_current (path' : String) {result : Except LoadFailure LoadedFile}
    (h : loadPath setup.b64 (setup.keepable call state) call.fs call.base state.disk files path origin = (result, files')) :
    (Current setup state.disk path' files → Current setup state.disk path' files') ∧
      ∀ file, result = .ok file → Current setup state.disk path files' := by
  rw [loadPath] at h
  split at h
  · cases h
    exact ⟨id, fun file hfile => by cases hfile⟩
  next raw hraw =>
  split at h
  · cases h
    exact ⟨id, fun file hfile => by cases hfile⟩
  split at h
  · next hkept =>
    cases h
    obtain ⟨found, hfound, hget, -⟩ := of_zoneFor hkept
    refine ⟨id, fun _ _ raw' digest key hraw' hnoted => ?_⟩
    cases hraw.symm.trans hraw'
    cases hget.symm.trans hnoted
    exact hfound
  split at h
  · cases h
    exact ⟨id, fun file hfile => by cases hfile⟩
  · next zone _ =>
    cases h
    have hnote : Current setup state.disk path ((setup.keepable call state).note files path raw (zoneKey zone)) := by
      intro raw' digest key hraw' hnoted
      cases hraw.symm.trans hraw'
      rw [Keepable.note] at hnoted
      split at hnoted
      · next found hfound =>
        rw [Entries.get_insert, if_pos rfl] at hnoted
        cases hnoted
        exact hfound
      · rw [Entries.get_remove, if_pos rfl] at hnoted
        cases hnoted
    refine ⟨fun hcurrent => ?_, fun _ _ => hnote⟩
    by_cases hpath : path' = path
    · rw [hpath]
      exact hnote
    · intro raw' digest key hraw' hnoted
      refine hcurrent raw' digest key hraw' ?_
      rw [Keepable.note] at hnoted
      split at hnoted
      · rwa [Entries.get_insert, if_neg hpath] at hnoted
      · rwa [Entries.get_remove, if_neg hpath] at hnoted

/-- **A file that was loaded has the digest of its octets noted**, or none. -/
theorem loadPaths_current (call : ReloadCall) (path' : String) (entries : List (String × Text)) :
    ∀ files : Entries String (FileDigest × Name),
    (Current setup state.disk path' files → Current setup state.disk path'
      (loadPaths setup.b64 (setup.keepable call state) call.fs call.base state.disk files entries).2) ∧
    ∀ origin file, ((path', origin), .ok file) ∈ entries.zip
        (loadPaths setup.b64 (setup.keepable call state) call.fs call.base state.disk files entries).1 →
      Current setup state.disk path'
        (loadPaths setup.b64 (setup.keepable call state) call.fs call.base state.disk files entries).2 := by
  induction entries with
  | nil => exact fun files => ⟨id, fun _ _ hmem => by cases hmem⟩
  | cons entry rest ih =>
    intro files
    obtain ⟨path, origin⟩ := entry
    rw [loadPaths]
    cases hone : loadPath setup.b64 (setup.keepable call state) call.fs call.base state.disk files path origin with
    | mk result files' =>
      obtain ⟨hkeeps, hmakes⟩ := loadPath_current path' hone
      obtain ⟨hrest, hlater⟩ := ih files'
      dsimp only
      refine ⟨fun hcurrent => hrest (hkeeps hcurrent), fun origin' file hmem => ?_⟩
      rcases List.mem_cons.mp hmem with heq | hmem
      · cases heq
        exact hrest (hmakes file rfl)
      · exact hlater origin' file hmem

theorem notes_of_listed {entries : List (String × Text)} (h : setup.source.listed state.disk = some entries) :
    (setup.load call state).2 =
      (loadPaths setup.b64 (setup.keepable call state) call.fs call.base state.disk state.loaded entries).2 := by
  rw [ServerSetup.load, h]
  dsimp only
  split
  · rfl
  · split
    · rfl
    · rfl

end Loading

/-! ## What the steps do to the notes -/

theorem reload_loaded (setup : ServerSetup) (call : ReloadCall) (state : ServerState) :
    (setup.reload call state).1.loaded = (setup.load call state).2 := by
  rw [ServerSetup.reload]
  split
  · next hload => rw [hload]
  · next hload =>
    rw [hload]
    split
    · rfl
    · generalize (if call.validator.enabled then _ else _) = verified
      obtain ⟨proved, failure⟩ := verified
      cases failure with
      | none => rfl
      | some why => rfl

theorem update_loaded (setup : ServerSetup) (update : UpdateMessage) (state : ServerState) :
    (setup.update update state).1.loaded = state.loaded := by
  rw [ServerSetup.update]
  split
  · rfl
  · next path call _ =>
    generalize call.applyUpdateToFile = result
    obtain ⟨outcome, contents⟩ := result
    rcases outcome with error | ⟨installed, rest⟩
    · cases contents <;> rfl
    · cases installed <;> cases contents <;> rfl

theorem Noted.update (h : Noted setup state sources) (update : UpdateMessage) :
    Noted setup (setup.step (.update update) state sources).1 (setup.step (.update update) state sources).2 := by
  have hloaded := update_loaded setup update state
  rw [ServerSetup.step]
  rcases update_cases setup update state with ⟨hnone, hzones⟩ |
    ⟨request, -, -, -, -, text, zone, -, -, -, -, -, hsome, hzones⟩
  · generalize setup.update update state = result at hnone hzones hloaded
    obtain ⟨after, installed⟩ := result
    cases hnone
    intro path digest key hnoted served hserved
    rw [show after.loaded = state.loaded from hloaded] at hnoted
    rw [show after.zones = state.zones from hzones] at hserved
    exact h path digest key hnoted served hserved
  · generalize setup.update update state = result at hsome hzones hloaded
    obtain ⟨after, installed⟩ := result
    cases hsome
    intro path digest key hnoted served hserved
    rw [show after.loaded = state.loaded from hloaded] at hnoted
    rw [show after.zones = _ from hzones, Entries.get_insert] at hserved
    rw [Entries.get_insert]
    split at hserved
    · next hkey => exact ⟨_, if_pos hkey, fun hwritten => by cases hwritten⟩
    · next hkey =>
      rw [if_neg hkey]
      exact h path digest key hnoted served hserved

theorem Noted.reload (h : Noted setup state sources) (horigin : OneOrigin setup.source)
    (htrusted : TrustedNotes setup state sources call) :
    Noted setup (setup.step (.reload call) state sources).1 (setup.step (.reload call) state sources).2 := by
  have hkeeps := h.keepsTheFile horigin htrusted.keeps
  have hloaded := reload_loaded setup call state
  obtain ⟨hfailed, hinstalled⟩ := htrusted.notes
  rw [ServerSetup.step]
  rcases reload_cases setup call state with ⟨hnone, hzones⟩ | ⟨loaded, signed, hsome, hload, hsigned, hzones⟩
  · have hfailed := hfailed (by rw [hnone]; rfl)
    generalize setup.reload call state = result at hnone hzones hloaded
    obtain ⟨after, installed⟩ := result
    cases hnone
    intro path digest key hnoted served hserved
    rw [show after.loaded = _ from hloaded] at hnoted
    rw [show after.zones = state.zones from hzones] at hserved
    rcases hfailed _ (Entries.mem_of_get hnoted) with hbefore | hunserved
    · exact h path digest key hbefore served hserved
    · rw [show state.zones.get key = some served from hserved] at hunserved
      cases hunserved
  · have hinstalled := hinstalled (by rw [hsome]; rfl)
    generalize setup.reload call state = result at hsome hzones hloaded
    obtain ⟨after, installed⟩ := result
    cases hsome
    obtain ⟨entries, hentries, hloadedOf⟩ := of_load hload
    intro path digest key hnoted served hserved
    rw [show after.loaded = _ from hloaded] at hnoted
    rw [show after.zones = _ from hzones] at hserved
    rcases get_signLoaded hsigned key with ⟨-, hnone⟩ | ⟨file, -, hfile, -, -⟩
    · rw [hnone] at hserved
      cases hserved
    · obtain ⟨hmem, rfl⟩ := mem_of_lastFor hfile
      obtain ⟨path', hread, hfrom⟩ := (loadPaths_spec setup call state entries state.loaded).1 file (hloadedOf ▸ hmem)
      have hreading : ((path', file.origin), Except.ok file) ∈ readings setup call state := by
        rw [readings, hentries]
        exact hread
      -- the file that is noted for the zone is the one it was loaded from
      obtain rfl : path = path' := hinstalled _ (Entries.mem_of_get hnoted) _ hreading file rfl rfl
      refine ⟨⟨file.origin, file.raw, false⟩, ?_, fun _ => ⟨?_, reads_of_listed hentries (List.of_mem_zip hread).1⟩⟩
      · show (sourcesOfLoad sources loaded).get file.key = _
        rw [get_sourcesOfLoad, hfile, Option.bind_some]
        split
        · next hkept => exact source_of_kept hkeeps htrusted.apart hload hmem hkept
        · rfl
      · rw [notes_of_listed hentries] at hnoted
        exact (loadPaths_current call path entries state.loaded).2 _ _ hread _ _ _ hfrom.read hnoted

/-- **What was loaded and is still served are the records of its file**, and the notes are of it. -/
theorem ServerSetup.Ran.trusted (horigin : OneOrigin setup.source) {events : List ServerEvent}
    (h : setup.Ran (TrustsNotes setup) events state sources) :
    Noted setup state sources ∧ Sound setup (fun source => source.written = false) state sources := by
  induction h with
  | start disk =>
    refine ⟨fun path digest key hnoted => ?_, fun key served hserved => ?_⟩
    · cases hnoted
    · cases hserved
  | @next events state sources event h hok ih =>
    obtain ⟨hnoted, hsound⟩ := ih
    cases event with
    | edit disk => exact ⟨hnoted, hsound⟩
    | update update =>
      refine ⟨hnoted.update update, hsound.update ?_⟩
      intro zone origin octets _ hloaded
      cases hloaded
    | reload call =>
      exact ⟨hnoted.reload horigin hok, hsound.reload (hnoted.keepsTheFile horigin hok.keeps) hok.apart fun _ _ => rfl⟩

/-- **A reload that succeeds serves the files**, after every run in which the notes of the loads
could be trusted, where no file is read for two zones. -/
theorem reload_serves_files (horigin : OneOrigin setup.source) {events : List ServerEvent}
    (h : setup.Ran (TrustsNotes setup) events state sources) {call : ReloadCall}
    (htrusted : TrustedNotes setup state sources call) : ServesFiles setup state sources call := by
  obtain ⟨hnoted, hsound⟩ := h.trusted horigin
  have hkeeps := hnoted.keepsTheFile horigin htrusted.keeps
  have hapart := htrusted.apart
  intro loaded hloaded
  rcases reload_cases setup call state with ⟨hnone, -⟩ | ⟨loaded', signed, hsome, hload, hsigned, hzones⟩
  · rw [hnone] at hloaded
    cases hloaded
  · cases hsome.symm.trans hloaded
    have hsources : (setup.step (.reload call) state sources).2 = sourcesOfLoad sources loaded := by
      rw [ServerSetup.step]
      generalize setup.reload call state = result at hsome
      obtain ⟨after, installed⟩ := result
      cases hsome
      rfl
    obtain ⟨entries, hentries, hloadedOf⟩ := of_load hload
    obtain ⟨hfrom, hreads⟩ := loadPaths_spec setup call state entries state.loaded
    rw [← hloadedOf] at hfrom hreads
    refine ⟨entries, hentries, hreads, ?_, ?_⟩
    · grind [get_signLoaded]
    · intro key file hfile
      obtain ⟨hmem, hkey⟩ := mem_of_lastFor hfile
      obtain ⟨path, hpath, hread⟩ := hfrom file hmem
      have hpath := (List.of_mem_zip hpath).1
      have hkept : file.kept = true → sources.get key = some ⟨file.origin, file.raw, false⟩ ∧ false = false := by grind [source_of_kept]
      refine ⟨⟨path, hpath, hread.read⟩, ?_, ?_⟩
      · grind [get_sourcesOfLoad]
      · rw [hzones]
        rcases get_signLoaded hsigned key with ⟨hnone, -⟩ | ⟨other, served, hother, hinstalls, hserved⟩
        · rw [hfile] at hnone
          cases hnone
        · cases hfile.symm.trans hother
          exact ⟨served, hserved, fun zone hzone =>
            holds_installed hsound hapart hload hfile hkept hinstalls hzone⟩

/-! ## A zone kept for another file -/

def unkeyed : ZoneSigning := ⟨[], 86400, .nsec, []⟩

theorem filesApart_of_keys {keys : List Name} (hnodup : keys.Nodup)
    (h : ((setup.load call state).1.toOption.map fun loaded => loaded.map LoadedFile.key) = some keys) :
    FilesApart setup state call := by
  intro _ loaded hloaded
  rw [hloaded] at h
  cases h
  exact hnodup

def brokenFile : Octets := toBytes "@ 60 IN A".toList

def loadedOnce : ServerState × Sources :=
  (rootSetup (some unkeyed)).step (.reload reloadNow) (.start (twoFiles rootFile bareFile)) []

def brokenOnce : ServerState × Sources :=
  (rootSetup (some unkeyed)).step (.edit (twoFiles rootFile brokenFile)) loadedOnce.1 loadedOnce.2

/-- The second file was broken for one reload, and is mended with other records. -/
def mendedOnce : ServerState × Sources :=
  let (state, sources) := (rootSetup (some unkeyed)).step (.reload reloadNow) brokenOnce.1 brokenOnce.2
  (rootSetup (some unkeyed)).step (.edit (twoFiles rootFile rootFile)) state sources

theorem oneOrigin_rootSetup (signing : Option ZoneSigning) : OneOrigin (rootSetup signing).source := by
  intro path a b ha hb
  simp only [rootSetup, ZoneSource.Reads, List.mem_cons, Prod.mk.injEq, List.not_mem_nil, or_false] at ha hb
  rcases ha with ⟨rfl, rfl⟩ | ⟨rfl, rfl⟩
  · rcases hb with ⟨rfl, -⟩ | ⟨-, hpath⟩
    · rfl
    · exact absurd hpath (by decide)
  · rcases hb with ⟨-, hpath⟩ | ⟨rfl, -⟩
    · exact absurd hpath (by decide)
    · rfl

def keyless : ServerSetup := rootSetup (some unkeyed)

theorem reload_serves_kept : ∃ events,
    keyless.Ran (TrustsNotes keyless) events mendedOnce.1 mendedOnce.2 ∧
      events.length = 4 ∧
      ((keyless.reload reloadNow mendedOnce.1).2.map fun loaded => loaded.map LoadedFile.kept)
        = some [true, false] ∧
      ServesFiles keyless mendedOnce.1 mendedOnce.2 reloadNow := by
  have hfirst : KeepsTheLoaded keyless reloadNow (.start (twoFiles rootFile bareFile)) [] ∧
      NotesTheInstalled keyless reloadNow (.start (twoFiles rootFile bareFile)) := by decide +kernel
  have hsecond : KeepsTheLoaded keyless reloadNow brokenOnce.1 brokenOnce.2 ∧
      NotesTheInstalled keyless reloadNow brokenOnce.1 ∧
      (keyless.load reloadNow brokenOnce.1).1.toOption.isNone = true := by decide +kernel
  have hthird : KeepsTheLoaded keyless reloadNow mendedOnce.1 mendedOnce.2 ∧
      NotesTheInstalled keyless reloadNow mendedOnce.1 ∧
      ((keyless.load reloadNow mendedOnce.1).1.toOption.map fun loaded =>
        loaded.map LoadedFile.key) = some [.root, ex] ∧
      ((keyless.reload reloadNow mendedOnce.1).2.map fun loaded => loaded.map LoadedFile.kept) =
        some [true, false] := by decide +kernel
  have hran : keyless.Ran (TrustsNotes keyless)
      [.edit (twoFiles rootFile rootFile), .reload reloadNow, .edit (twoFiles rootFile brokenFile), .reload reloadNow]
      mendedOnce.1 mendedOnce.2 := by
    refine .next (.next (.next (.next (.start _) ⟨hfirst.1, hfirst.2, ?_⟩) trivial) ⟨hsecond.1, hsecond.2.1, ?_⟩) trivial
    · exact @filesApart_of_keys _ _ _ [.root, ex] (by decide +kernel) (by decide +kernel)
    · intro _ loaded hloaded
      have hfails := hsecond.2.2
      rw [show (keyless.load reloadNow brokenOnce.1).1 = .ok loaded from hloaded] at hfails
      cases hfails
  obtain ⟨hkeeps, hnotes, hkeys, hkept⟩ := hthird
  exact ⟨_, hran, rfl, hkept, reload_serves_files (oneOrigin_rootSetup _) hran
    ⟨hkeeps, hnotes, filesApart_of_keys (by decide +kernel) hkeys⟩⟩

def loadedPast : ServerState × Sources :=
  let (state, sources) := (rootSetup (some unkeyed)).step (.reload reloadNow) (.start (twoFiles bareFile bareFile)) []
  let (state, sources) := (rootSetup (some unkeyed)).step (.edit (twoFiles rootFile brokenFile)) state sources
  let (state, sources) := (rootSetup (some unkeyed)).step (.reload reloadNow) state sources
  (rootSetup (some unkeyed)).step (.edit (twoFiles rootFile bareFile)) state sources

theorem reload_keeps_stale :
    ¬ ∀ (setup : ServerSetup) (events : List ServerEvent) (state : ServerState) (sources : Sources)
      (call : ReloadCall), setup.Ran (fun _ _ _ => True) events state sources →
        ServesFiles setup state sources call := by
  intro h
  have hran : (rootSetup (some unkeyed)).Ran (fun _ _ _ => True) [.edit (twoFiles rootFile bareFile),
      .reload reloadNow, .edit (twoFiles rootFile brokenFile), .reload reloadNow] loadedPast.1 loadedPast.2 :=
    .next (.next (.next (.next (.start _) trivial) trivial) trivial) trivial
  have hserves := h _ _ _ _ reloadNow hran
  obtain ⟨hloaded, hserved⟩ : (((rootSetup (some unkeyed)).reload reloadNow loadedPast.1).2.map fun loaded =>
        (lastFor loaded .root).map fun file => (file.origin, file.raw)) = some (some (['.'], rootFile)) ∧
      (((rootSetup (some unkeyed)).reload reloadNow loadedPast.1).1.zones.get .root).map Zone.records =
        some [rootSoa] := by
    decide +kernel
  generalize loadedPast = reached at hserves hloaded hserved
  obtain ⟨loaded, hsome, hloaded⟩ := Option.map_eq_some_iff.mp hloaded
  obtain ⟨file, hfile, hfrom⟩ := Option.map_eq_some_iff.mp hloaded
  obtain ⟨entries, -, -, -, hall⟩ := hserves loaded hsome
  obtain ⟨-, -, served, hget, hholds⟩ := hall .root file hfile
  obtain ⟨horigin, hraw⟩ := Prod.mk.inj hfrom
  obtain ⟨zone, hreads, -, hrecords⟩ := readsAs_rootFile
  obtain ⟨-, unsigned, -, hperm, hsame⟩ := hholds zone (by rw [horigin, hraw]; exact hreads)
  obtain rfl : served = unsigned := hsame
  rw [hget] at hserved
  have hlength := hperm.length_eq
  rw [hrecords, Option.some.inj hserved] at hlength
  cases hlength

end Rdns.Server
