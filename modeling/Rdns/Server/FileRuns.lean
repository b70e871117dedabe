import Rdns.Server.ServedFiles

/-!
# Rdns — What a served zone comes from

A zone file that includes no other reads as one zone, wherever it lies (`ReadsAs`), and a zone
served from it holds that zone's records, signed where there are keys (`Holds`). Both shortcuts
of the server stand on a digest: a reload keeps the served zone for a file it has parsed
before, and an UPDATE takes the served zone for a file it has left. Neither asks whether the
served zone came from these octets. What the two need of a step are `KeepsTheFile` and
`ReusesTheFile`; where they have it, the zones served stay true to their sources (`Sound`).
-/

namespace Rdns.Server

open Rdns.Lib Rdns.Core Rdns.Present Rdns.Zones Rdns.Dnssec RecordTypes

/-! ## Files and the zones they hold -/

def ReadsAs (b64 : Base64) (raw : Octets) (origin : Text) (zone : Zone) : Prop :=
  ∃ text, fromUtf8 raw = some text ∧
    ∀ (fs : FileSystem) (base : Option fs.Path), parseZoneFile b64 fs base text origin = .ok zone

def Holds (signing : Option ZoneSigning) (key : Name) (zone served : Zone) : Prop :=
  ∃ unsigned : Zone, unsigned.origin = zone.origin ∧ unsigned.records.Perm zone.records ∧
    match signing.bind fun signing => signing.keysFor key with
    | none => served = unsigned
    | some _ => ∃ run : SigningRun, run.zone = unsigned ∧ run.served = .ok served

def Names (origin : Text) (name : Name) : Prop := ∃ apex, fromPresentation origin = .ok apex ∧ apex.same name = true

variable {zone previous : Zone} {call : ReloadCall} {path : String} {loaded : List LoadedFile}
  {origin text : Text} {key : Name} {b64 : Base64} {raw : Octets} {request : UpdateRequest}
  {file : LoadedFile} {files : Entries String (FileDigest × Name)}

theorem parse_congr {fs : FileSystem} {base : Option fs.Path} {other : Text}
    (h : fromPresentation origin = fromPresentation other) :
    parseZoneFile b64 fs base text origin = parseZoneFile b64 fs base text other := by
  rw [parseZoneFile, parseZoneFile, h]

theorem ReadsAs.unique {other : Zone} (h : ReadsAs b64 raw origin zone)
    (h' : ReadsAs b64 raw origin other) : zone = other := by
  obtain ⟨text, htext, hparse⟩ := h
  obtain ⟨text', htext', hparse'⟩ := h'
  rw [htext] at htext'
  cases htext'
  have hsame := (hparse noFiles none).symm.trans (hparse' noFiles none)
  exact Except.ok.inj hsame

theorem loadable_of_parse {fs : FileSystem} {base : Option fs.Path}
    (h : parseZoneFile b64 fs base text origin = .ok zone) : Loadable zone.origin zone.records := by
  obtain ⟨hsound, hcname, hdname⟩ := parseZoneFile_sound b64 fs h
  exact (reloads_iff hsound.ok).mp ⟨hsound.classIn, hcname, hdname⟩

theorem applyUpdate_origin (zone : Zone) (changes : List Change) :
    (applyUpdate zone changes).zone.origin = zone.origin := by
  obtain ⟨-, horigin, -⟩ := intoZone_records (changes.foldl Working.applyChange (Working.new zone)).settle
  exact horigin.trans ((settle_shape _).1.trans (foldl_applyChange_origin _ _))

theorem keysFor_toFolded (signing : ZoneSigning) (origin : Name) :
    signing.keysFor origin.toFolded = signing.keysFor origin := by
  rw [ZoneSigning.keysFor, ZoneSigning.keysFor]
  congr 2
  funext entry
  exact same_toFolded_right entry.1 origin

theorem keysFor_signingAt (setup : ServerSetup) (held : SigningKey → Bool) (key : Name) :
    ((setup.signingAt held).bind fun signing => signing.keysFor key).isSome
      = (setup.signing.bind fun signing => signing.keysFor key).isSome := by
  rw [ServerSetup.signingAt]
  cases setup.signing with
  | none => rfl
  | some signing => simp [keysFor_holding]

/-! ## What the shortcuts need -/

def Sound (setup : ServerSetup) (trusted : Source → Prop) (state : ServerState) (sources : Sources) : Prop :=
  ∀ key served, state.zones.get key = some served → ∀ source, sources.get key = some source → trusted source →
    ∀ zone, ReadsAs setup.b64 source.raw source.origin zone → zoneKey zone = key ∧ Holds setup.signing key zone served

section Conditions

variable (setup : ServerSetup) (state : ServerState) (sources : Sources)

structure Calls (update : UpdateMessage) (request : UpdateRequest) (path : String) (previous : Zone) : Prop where
  parsed : parseUpdate update.msg = .ok request
  served : state.zones.get request.zone.toFolded = some previous
  filed : setup.source.fileFor state.disk (toPresentation request.zone) = some (some path)

/-- **Where the file has the digest an UPDATE remembers**, and the served zone stands in for
it, the served zone was last loaded from, or written as, these octets. -/
def ReusesTheFile (update : UpdateMessage) : Prop :=
  ∀ request path previous, Calls setup state update request path previous → setup.signing = none →
    ∀ raw digest, state.disk.read path = some raw → ofSelfContained setup.digestOf raw = some digest →
      state.written.get path = some digest →
        ∃ source zone, sources.get request.zone.toFolded = some source ∧ source.raw = raw ∧
          Names source.origin request.zone ∧ ReadsAs setup.b64 raw source.origin zone

def WritesWhatLoads (update : UpdateMessage) : Prop :=
  ∀ request path previous, Calls setup state update request path previous →
    ∀ source digest, (setup.callFor update state request path previous).source = .ok (source, digest) →
      (applyUpdate source request.changes).changed ≠ 0 →
        ChangesOk (Working.new source) request.changes ∧
          ∀ r ∈ (applyUpdate source request.changes).zone.records,
            ReadsBack setup.b64 r.rdata ∧ r.ttl.secs.toNat < 2147483648

/-- **Where a reload would keep the zone served for a listed file**, that zone was last loaded
from these octets. -/
def KeepsTheFile (call : ReloadCall) : Prop :=
  ∀ entries, setup.source.listed state.disk = some entries → ∀ path origin, (path, origin) ∈ entries →
    ∀ raw key served, state.disk.read path = some raw →
      (setup.keepable call state).zoneFor state.loaded path raw = some (key, served) →
        sources.get key = some ⟨origin, raw, false⟩

def FilesApart (call : ReloadCall) : Prop :=
  (setup.previous call state).isSome → ∀ loaded, (setup.load call state).1 = .ok loaded →
    (loaded.map LoadedFile.key).Nodup

end Conditions

variable {setup : ServerSetup} {state : ServerState} {sources : Sources}

/-! ## An UPDATE -/

theorem updateCall_eq_some {update : UpdateMessage} {call : UpdateCall}
    (h : setup.updateCall update state = some (path, call)) :
    ∃ request previous, Calls setup state update request path previous ∧
      call = setup.callFor update state request path previous := by
  rw [ServerSetup.updateCall] at h
  split at h
  · cases h
  · rename_i request hrequest
    split at h
    · rename_i previous path' hprevious hpath
      cases h
      exact ⟨request, previous, ⟨hrequest, hprevious, hpath⟩, rfl⟩
    · cases h

theorem Calls.updateCall {update : UpdateMessage}
    (h : Calls setup state update request path previous) :
    setup.updateCall update state = some (path, setup.callFor update state request path previous) := by
  rw [ServerSetup.updateCall, h.parsed]
  dsimp only
  rw [h.served, h.filed]

/-- **The zone an UPDATE is judged on** is the one its file reads as. -/
theorem source_of_sound (hsound : setup.signing = none → Sound setup (fun _ => True) state sources)
    {update : UpdateMessage} (hreuses : ReusesTheFile setup state sources update)
    (hcalls : Calls setup state update request path previous) {source : Zone} {digest : FileDigest}
    (hsource : (setup.callFor update state request path previous).source = .ok (source, digest)) :
    ∃ raw text origin zone, state.disk.read path = some raw ∧ fromUtf8 raw = some text ∧
      Names origin request.zone ∧ parseZoneFile setup.b64 update.fs (update.base path) text origin = .ok zone ∧
      source.origin = zone.origin ∧ source.records.Perm zone.records := by
  rw [UpdateCall.source] at hsource
  cases hraw : state.disk.read path with
  | none =>
    rw [show (setup.callFor update state request path previous).contents = none from hraw] at hsource
    cases hsource
  | some raw =>
    rw [show (setup.callFor update state request path previous).contents = some raw from hraw] at hsource
    dsimp only at hsource
    cases hdigest : ofSelfContained setup.digestOf raw with
    | none => grind [ofSelfContained]
    | some fileDigest =>
      rw [show ofSelfContained (setup.callFor update state request path previous).digestOf raw = some fileDigest
        from hdigest] at hsource
      dsimp only at hsource
      split at hsource
      · -- the served zone stands in for the file
        rename_i hreused
        cases hsource
        have hunsigned : setup.signing = none := by
          have hnone := Option.isNone_iff_eq_none.mp hreused.2
          exact Option.map_eq_none_iff.mp hnone
        obtain ⟨taken, zone, hfrom, rfl, hnames, hreads⟩ :=
          hreuses request path previous hcalls hunsigned raw _ hraw hdigest hreused.1
        obtain ⟨-, unsigned, horigin, hperm, hserved⟩ :=
          hsound hunsigned _ previous hcalls.served taken hfrom trivial zone hreads
        obtain ⟨text, htext, hparse⟩ := hreads
        rw [hunsigned] at hserved
        obtain rfl : previous = unsigned := hserved
        exact ⟨_, text, _, zone, rfl, htext, hnames, hparse update.fs (update.base path), horigin, hperm⟩
      · split at hsource
        · cases hsource
        · rename_i text htext
          split at hsource
          · rename_i zone hparse
            cases hsource
            exact ⟨raw, text, toPresentation request.zone, source, rfl, htext,
              ⟨request.zone, fromPresentation_toPresentation request.zone, by rw [Name.same_iff]⟩, hparse, rfl,
              List.Perm.refl _⟩
          · cases hsource

theorem update_cases (setup : ServerSetup) (update : UpdateMessage) (state : ServerState) :
    ((setup.update update state).2 = none ∧ (setup.update update state).1.zones = state.zones) ∨
    ∃ request path previous source digest text zone, Calls setup state update request path previous ∧
      (setup.callFor update state request path previous).source = .ok (source, digest) ∧
      (applyUpdate source request.changes).changed ≠ 0 ∧
      zoneToString setup.b64 (applyUpdate source request.changes).zone = .ok text ∧
      (setup.callFor update state request path previous).signed (applyUpdate source request.changes).zone = .ok zone ∧
      (setup.update update state).2 = some (zone, toPresentation request.zone, toBytes text) ∧
      (setup.update update state).1.zones = state.zones.insert (zoneKey zone) zone := by
  cases hcall : setup.updateCall update state with
  | none => grind [ServerSetup.update]
  | some found =>
    obtain ⟨path, call⟩ := found
    obtain ⟨request, previous, hcalls, rfl⟩ := updateCall_eq_some hcall
    rcases applyUpdateToFile_cases (setup.callFor update state request path previous) with
      ⟨-, -, hnone⟩ | ⟨applied, digest, text, happlied, hchanged, htext, -, hafter, hresult⟩
    · refine .inl ?_
      rw [ServerSetup.update, hcall]
      dsimp only
      generalize (setup.callFor update state request path previous).applyUpdateToFile = result at hnone
      obtain ⟨outcome, contents⟩ := result
      match outcome, contents with
      | .error _, none | .error _, some _ => exact ⟨rfl, rfl⟩
      | .ok (none, _, _), none | .ok (none, _, _), some _ => exact ⟨rfl, rfl⟩
      | .ok (some zone, report, digest), _ => exact absurd rfl (hnone zone report digest)
    · rcases hresult with ⟨e, -, hresult⟩ | ⟨zone, report, digest', hsigned, hresult⟩
      · refine .inl ?_
        rw [ServerSetup.update, hcall]
        dsimp only
        rw [hresult, hafter]
        exact ⟨rfl, rfl⟩
      · obtain ⟨source, hsource, rfl⟩ : ∃ source,
            (setup.callFor update state request path previous).source = .ok (source, digest) ∧
              applied = applyUpdate source request.changes := by
          rw [UpdateCall.applied] at happlied
          obtain ⟨⟨source, digest''⟩, hsource, happlied⟩ := except_bind_eq_ok.mp happlied
          dsimp only at happlied
          split at happlied
          · cases happlied
          · cases happlied
            exact ⟨source, hsource, rfl⟩
        refine .inr ⟨request, path, previous, source, digest, text, zone, hcalls, hsource, hchanged, htext, hsigned, ?_⟩
        rw [ServerSetup.update, hcall]
        dsimp only
        rw [hresult, hafter]
        exact ⟨rfl, rfl⟩

theorem holds_signed {update : UpdateMessage} {applied : Zone}
    (h : (setup.callFor update state request path previous).signed applied = .ok zone) {back : Zone}
    (horigin : back.origin = applied.origin) (hrecords : back.records.Perm applied.records) :
    zoneKey zone = zoneKey back ∧ Holds setup.signing (zoneKey zone) back zone := by
  rw [UpdateCall.signed] at h
  cases hsigning : setup.signing with
  | none =>
    rw [show (setup.callFor update state request path previous).signing = none by
      show setup.signingAt update.held = none
      rw [ServerSetup.signingAt, hsigning]
      rfl] at h
    cases h
    exact ⟨by rw [zoneKey, zoneKey, horigin], zone, horigin.symm, hrecords.symm, rfl⟩
  | some signing =>
    rw [show (setup.callFor update state request path previous).signing = some (signing.holding update.held) by
      show setup.signingAt update.held = _
      rw [ServerSetup.signingAt, hsigning]
      rfl] at h
    dsimp only at h
    split at h
    · cases h
    · rename_i signed fresh hrun
      split at h
      · cases h
      · rename_i zone' hverified
        cases h
        have hsame : signed = zone := by grind [verifyFresh]
        subst hsame
        rw [signOneIncrementally, keysFor_holding] at hrun
        split at hrun
        · rename_i hkeys
          cases hrun
          refine ⟨by rw [zoneKey, zoneKey, horigin], applied, horigin.symm, hrecords.symm, ?_⟩
          rw [show (some signing).bind (fun signing => signing.keysFor (zoneKey applied)) = none by
            show signing.keysFor applied.origin.toFolded = none
            rw [keysFor_toFolded]
            exact Option.map_eq_none_iff.mp hkeys]
        · rename_i keys hkeys
          have hserved : SigningRun.served ⟨update.crypto, applied, keys,
              (signing.holding update.held).policyFor applied.origin update.now, some previous⟩ = .ok signed := by
            rw [SigningRun.served]
            exact except_bind_eq_ok.mpr ⟨_, hrun, rfl⟩
          have hkey : zoneKey signed = zoneKey back := by
            obtain ⟨out, names, -, hzone⟩ := of_served hserved
            rw [hzone, zoneKey, zoneKey, horigin, zoneOf_origin]
            exact Name.toFolded_toFolded _
          refine ⟨hkey, applied, horigin.symm, hrecords.symm, ?_⟩
          obtain ⟨configured, hconfigured, -⟩ := Option.map_eq_some_iff.mp hkeys
          rw [show (some signing).bind (fun signing => signing.keysFor (zoneKey signed)) = some configured by
            show signing.keysFor (zoneKey signed) = some configured
            rw [hkey, zoneKey, keysFor_toFolded, horigin]
            exact hconfigured]
          exact ⟨_, rfl, hserved⟩

/-- **The text an UPDATE writes** reads as what it serves. -/
theorem holds_written (hsound : setup.signing = none → Sound setup (fun _ => True) state sources)
    {update : UpdateMessage} (hreuses : ReusesTheFile setup state sources update)
    (hwrites : WritesWhatLoads setup state update) {octets : Octets}
    (hinstalls : (setup.update update state).2 = some (zone, origin, octets)) {other : Zone}
    (hreads : ReadsAs setup.b64 octets origin other) :
    zoneKey other = zoneKey zone ∧ Holds setup.signing (zoneKey zone) other zone := by
  rcases update_cases setup update state with ⟨hnone, -⟩ |
    ⟨request, path, previous, source, digest, text, installed, hcalls, hsource, hchanged, htext, hsigned, hsome, -⟩
  · rw [hnone] at hinstalls
    cases hinstalls
  · rw [hsome] at hinstalls
    cases hinstalls
    obtain ⟨_, _, _, _, -, -, -, hparse, hreadOrigin, hperm⟩ := source_of_sound hsound hreuses hcalls hsource
    have hloadable : Loadable source.origin source.records :=
      hreadOrigin ▸ (loadable_of_parse hparse).perm hperm.symm
    obtain ⟨hchanges, hrecords⟩ := hwrites request path previous hcalls source digest hsource hchanged
    obtain ⟨text', back, htext', hback, hbackOrigin, hbackRecords⟩ := update_reads_back setup.b64 hloadable hchanges
      hrecords (fromPresentation_toPresentation request.zone)
    cases htext.symm.trans htext'
    obtain rfl : other = back := hreads.unique ⟨text, fromUtf8_toBytes text, hback⟩
    obtain ⟨hzoneKey, hholds⟩ := holds_signed hsigned (hbackOrigin.trans (applyUpdate_origin source _).symm) hbackRecords
    exact ⟨hzoneKey.symm, hholds⟩

/-- **An UPDATE keeps the sources true**, if what it writes may be trusted. -/
theorem Sound.update {trusted : Source → Prop} (hsound : Sound setup trusted state sources) {update : UpdateMessage}
    (hwritten : ∀ zone origin octets, (setup.update update state).2 = some (zone, origin, octets) →
      trusted ⟨origin, octets, true⟩ → ∀ other, ReadsAs setup.b64 octets origin other →
        zoneKey other = zoneKey zone ∧ Holds setup.signing (zoneKey zone) other zone) :
    Sound setup trusted (setup.step (.update update) state sources).1 (setup.step (.update update) state sources).2 := by
  rw [ServerSetup.step]
  rcases update_cases setup update state with ⟨hnone, hzones⟩ |
    ⟨request, -, -, -, -, text, zone, -, -, -, -, -, hsome, hzones⟩
  · generalize setup.update update state = result at hnone hzones
    obtain ⟨after, installed⟩ := result
    cases hnone
    intro key served hserved
    rw [show after.zones = state.zones from hzones] at hserved
    exact hsound key served hserved
  · generalize setup.update update state = result at hsome hzones hwritten
    obtain ⟨after, installed⟩ := result
    cases hsome
    intro key served hserved source hsource htrusted other hreads
    rw [show after.zones = _ from hzones, Entries.get_insert] at hserved
    rw [Entries.get_insert] at hsource
    split at hserved
    · grind
    · rename_i hkey
      rw [if_neg hkey] at hsource
      exact hsound key served hserved source hsource htrusted other hreads

/-! ## A reload -/

def lastFor (loaded : List LoadedFile) (key : Name) : Option LoadedFile :=
  loaded.reverse.find? fun file => file.key = key

theorem lastFor_append (loaded : List LoadedFile) (file : LoadedFile) (key : Name) :
    lastFor (loaded ++ [file]) key = if file.key = key then some file else lastFor loaded key := by
  rw [lastFor, List.reverse_append, List.reverse_singleton, List.singleton_append, List.find?_cons]
  by_cases h : file.key = key
  · simp [h]
  · simp [h, lastFor]

theorem mem_of_lastFor (h : lastFor loaded key = some file) : file ∈ loaded ∧ file.key = key := by
  have hkey := List.find?_some h
  exact ⟨List.mem_reverse.mp (List.mem_of_find?_eq_some h), of_decide_eq_true hkey⟩

theorem get_loadZones (loaded : List LoadedFile) (key : Name) :
    (loadZones (loaded.map LoadedFile.entry)).1.get key = (lastFor loaded key).map LoadedFile.zone := by
  rw [loadZones]
  dsimp only
  induction loaded using List.reverseRecOn with
  | nil => rfl
  | append_singleton loaded file ih =>
    rw [List.map_append, List.foldl_append, lastFor_append]
    show Entries.get (Entries.insert _ file.key file.zone) key = _
    rw [Entries.get_insert]
    by_cases h : file.key = key
    · rw [if_pos h.symm, if_pos h]
      rfl
    · rw [if_neg (Ne.symm h), if_neg h]
      exact ih

theorem get_sourcesOfLoad (before : Sources) (loaded : List LoadedFile) (key : Name) :
    (sourcesOfLoad before loaded).get key
      = (lastFor loaded key).bind fun file =>
          if file.kept then before.get key else some ⟨file.origin, file.raw, false⟩ := by
  rw [sourcesOfLoad]
  induction loaded using List.reverseRecOn with
  | nil => rfl
  | append_singleton loaded file ih =>
    rw [List.foldl_append, lastFor_append, List.foldl_cons, List.foldl_nil]
    by_cases h : file.key = key
    · grind [Entries.get_insert, Entries.get_remove]
    · rw [if_neg h, ← ih]
      split
      · split
        · rw [Entries.get_insert, if_neg (Ne.symm h)]
        · rw [Entries.get_remove, if_neg (Ne.symm h)]
      · rw [Entries.get_insert, if_neg (Ne.symm h)]

structure LoadedFrom (setup : ServerSetup) (call : ReloadCall) (state : ServerState) (path : String)
    (file : LoadedFile) : Prop where
  read : state.disk.read path = some file.raw
  kept : file.kept = true → (setup.keepable call state).served.get file.key = some file.zone
  parsed : file.kept = false → file.key = zoneKey file.zone ∧ ∃ text, fromUtf8 file.raw = some text ∧
    parseZoneFile setup.b64 call.fs (call.base path) text file.origin = .ok file.zone

/-- **What is kept** was noted with the file's digest, and is served. -/
theorem of_zoneFor {keep : Keepable} (h : keep.zoneFor files path raw = some (key, zone)) :
    ∃ digest, ofSelfContained keep.digestOf raw = some digest ∧ files.get path = some (digest, key) ∧
      keep.served.get key = some zone := by
  rw [Keepable.zoneFor] at h
  obtain ⟨digest, hdigest, h⟩ := Option.bind_eq_some_iff.mp h
  obtain ⟨noted, hnoted, h⟩ := Option.bind_eq_some_iff.mp h
  obtain ⟨found, hfound, h⟩ := Option.bind_eq_some_iff.mp h
  obtain ⟨rfl, rfl⟩ : noted = key ∧ found = zone := by
    split at h
    · cases h
      exact ⟨rfl, rfl⟩
    · split at h
      · cases h
        exact ⟨rfl, rfl⟩
      · cases h
  refine ⟨digest, hdigest, ?_, hfound⟩
  rw [unchanged] at hnoted
  split at hnoted
  · next last key hlast =>
    split at hnoted
    · next hsame =>
      cases hnoted
      rw [hlast, hsame]
    · cases hnoted
  · cases hnoted

/-- A reload keeps nothing, or what is served. -/
theorem zones_of_keepable (h : (setup.keepable call state).served.get key = some zone) :
    setup.previous call state = some state.zones ∧ state.zones.get key = some zone := by
  have hserved : ((setup.previous call state).getD []).get key = some zone := h
  rw [ServerSetup.previous] at hserved ⊢
  split at hserved
  · next hkeeps => exact ⟨if_pos hkeeps, hserved⟩
  · cases hserved

theorem loadPath_cases (setup : ServerSetup) (call : ReloadCall) (state : ServerState)
    (files : Entries String (FileDigest × Name)) (path : String) (origin : Text) :
    (∃ file, (loadPath setup.b64 (setup.keepable call state) call.fs call.base state.disk files path origin).1
        = .ok file ∧ file.origin = origin ∧ LoadedFrom setup call state path file) ∨
      (∃ e, (loadPath setup.b64 (setup.keepable call state) call.fs call.base state.disk files path origin).1
        = .error e) ∧ ∀ raw zone, state.disk.read path = some raw → ¬ ReadsAs setup.b64 raw origin zone := by
  rw [loadPath]
  cases hraw : state.disk.read path with
  | none => exact .inr ⟨⟨_, rfl⟩, fun raw zone h => by cases h⟩
  | some raw =>
    dsimp only
    cases htext : fromUtf8 raw with
    | none =>
      refine .inr ⟨⟨_, rfl⟩, ?_⟩
      rintro raw' zone h ⟨text, htext', -⟩
      cases h
      rw [htext] at htext'
      cases htext'
    | some text =>
      dsimp only
      cases hkept : (setup.keepable call state).zoneFor files path raw with
      | some found =>
        obtain ⟨key, zone⟩ := found
        obtain ⟨-, -, -, hserved⟩ := of_zoneFor hkept
        exact .inl ⟨_, rfl, rfl, hraw, fun _ => hserved, fun h => by cases h⟩
      | none =>
        dsimp only
        cases hparse : parseZoneFile setup.b64 call.fs (call.base path) text origin with
        | ok zone => exact .inl ⟨_, rfl, rfl, hraw, fun h => (by cases h), fun _ => ⟨rfl, text, htext, hparse⟩⟩
        | error e =>
          refine .inr ⟨⟨_, rfl⟩, ?_⟩
          rintro raw' zone h ⟨text', htext', hreads⟩
          cases h
          cases htext.symm.trans htext'
          rw [hreads] at hparse
          cases hparse

theorem loadPaths_spec (setup : ServerSetup) (call : ReloadCall) (state : ServerState)
    (entries : List (String × Text)) (files : Entries String (FileDigest × Name)) :
    (∀ file ∈ loadedOf (loadPaths setup.b64 (setup.keepable call state) call.fs call.base state.disk files entries).1,
      ∃ path, ((path, file.origin), .ok file) ∈ entries.zip
          (loadPaths setup.b64 (setup.keepable call state) call.fs call.base state.disk files entries).1 ∧
        LoadedFrom setup call state path file) ∧
    ∀ path origin raw zone, (path, origin) ∈ entries → state.disk.read path = some raw →
      ReadsAs setup.b64 raw origin zone →
        ∃ file ∈ loadedOf (loadPaths setup.b64 (setup.keepable call state) call.fs call.base state.disk files entries).1,
          file.origin = origin ∧ file.raw = raw := by
  induction entries generalizing files with
  | nil =>
    constructor
    · intro file hfile
      cases hfile
    · intro path origin raw zone hmem
      cases hmem
  | cons entry rest ih =>
    obtain ⟨path, origin⟩ := entry
    have hone := loadPath_cases setup call state files path origin
    rw [loadPaths]
    generalize loadPath setup.b64 (setup.keepable call state) call.fs call.base state.disk files path origin = one at hone
    obtain ⟨result, files'⟩ := one
    obtain ⟨hfrom, hreads⟩ := ih files'
    dsimp only at hone ⊢
    rcases hone with ⟨file, rfl, horigin, hfile⟩ | ⟨⟨e, rfl⟩, hunread⟩
    · constructor
      · intro other hother
        rcases List.mem_cons.mp hother with rfl | hother
        · exact ⟨path, by rw [horigin]; exact List.mem_cons_self, hfile⟩
        · obtain ⟨path', hmem, hother⟩ := hfrom other hother
          exact ⟨path', List.mem_cons_of_mem _ hmem, hother⟩
      · intro path' origin' raw zone hmem hraw hzone
        rcases List.mem_cons.mp hmem with heq | hmem
        · cases heq
          have hsame := hfile.read
          rw [hraw, Option.some.injEq] at hsame
          exact ⟨file, List.mem_cons_self, horigin, hsame.symm⟩
        · obtain ⟨other, hother, hrest⟩ := hreads path' origin' raw zone hmem hraw hzone
          exact ⟨other, List.mem_cons_of_mem _ hother, hrest⟩
    · constructor
      · intro other hother
        obtain ⟨path', hmem, hother⟩ := hfrom other hother
        exact ⟨path', List.mem_cons_of_mem _ hmem, hother⟩
      · intro path' origin' raw zone hmem hraw hzone
        rcases List.mem_cons.mp hmem with heq | hmem
        · cases heq
          exact absurd hzone (hunread raw zone hraw)
        · exact hreads path' origin' raw zone hmem hraw hzone

theorem zoneFor_mono {keep : Keepable} {others : Entries String (FileDigest × Name)}
    (h : keep.zoneFor files path raw = some (key, zone))
    (hfiles : ∀ digest, files.get path = some (digest, key) → others.get path = some (digest, key)) :
    keep.zoneFor others path raw = some (key, zone) := by
  obtain ⟨digest, hdigest, hnoted, -⟩ := of_zoneFor h
  have hsame : unchanged others path digest = unchanged files path digest := by
    rw [unchanged, unchanged, hnoted, hfiles digest hnoted]
  rw [Keepable.zoneFor] at h ⊢
  rw [hdigest] at h ⊢
  rw [Option.bind_eq_bind, Option.bind_some, hsame]
  exact h

theorem loadPath_notes (setup : ServerSetup) (call : ReloadCall) (state : ServerState)
    (files : Entries String (FileDigest × Name)) (path : String) (origin : Text)
    {result : Except LoadFailure LoadedFile} {files' : Entries String (FileDigest × Name)}
    (h : loadPath setup.b64 (setup.keepable call state) call.fs call.base state.disk files path origin
      = (result, files')) :
    (∀ other digest key, files'.get other = some (digest, key) →
      files.get other = some (digest, key) ∨ ∃ file, result = .ok file ∧ file.key = key) ∧
    ∀ file, result = .ok file → file.kept = true →
      (setup.keepable call state).zoneFor files path file.raw = some (file.key, file.zone) := by
  rw [loadPath] at h
  split at h
  · cases h
    exact ⟨fun _ _ _ => .inl, fun file hfile => by cases hfile⟩
  · rename_i raw hraw
    split at h
    · cases h
      exact ⟨fun _ _ _ => .inl, fun file hfile => by cases hfile⟩
    · rename_i text htext
      split at h
      · grind
      · split at h
        · cases h
          exact ⟨fun _ _ _ => .inl, fun file hfile => by cases hfile⟩
        · rename_i zone hparse
          cases h
          refine ⟨?_, ?_⟩
          · grind [Keepable.note, Entries.get_insert, Entries.get_remove]
          · simp

/-- **What a load keeps it keeps by what was noted before it**, where no two files come to one
zone: `earlier` are the zones of the files loaded so far. -/
theorem kept_of_loadPaths (setup : ServerSetup) (call : ReloadCall) (state : ServerState)
    (entries : List (String × Text)) {earlier : List Name}
    (hfiles : ∀ path digest key, files.get path = some (digest, key) →
      state.loaded.get path = some (digest, key) ∨ key ∈ earlier)
    (hnodup : (earlier ++ (loadedOf (loadPaths setup.b64 (setup.keepable call state) call.fs call.base state.disk
      files entries).1).map LoadedFile.key).Nodup) :
    ∀ file ∈ loadedOf (loadPaths setup.b64 (setup.keepable call state) call.fs call.base state.disk files entries).1,
      file.kept = true → ∃ path, (path, file.origin) ∈ entries ∧ state.disk.read path = some file.raw ∧
        (setup.keepable call state).zoneFor state.loaded path file.raw = some (file.key, file.zone) := by
  induction entries generalizing files earlier with
  | nil =>
    intro file hfile
    cases hfile
  | cons entry rest ih =>
    obtain ⟨path, origin⟩ := entry
    have hone := loadPath_cases setup call state files path origin
    rw [loadPaths] at hnodup ⊢
    cases hresult : loadPath setup.b64 (setup.keepable call state) call.fs call.base state.disk files path origin with
    | mk result files' =>
      obtain ⟨hnotes, hkeptBy⟩ := loadPath_notes setup call state files path origin hresult
      rw [hresult] at hnodup hone
      dsimp only at hnodup hone ⊢
      rcases hone with ⟨one, rfl, horigin, hfrom⟩ | ⟨⟨e, rfl⟩, -⟩
      · have hlist : loadedOf (.ok one :: (loadPaths setup.b64 (setup.keepable call state) call.fs call.base
            state.disk files' rest).1)
          = one :: loadedOf (loadPaths setup.b64 (setup.keepable call state) call.fs call.base state.disk
            files' rest).1 := rfl
        rw [hlist] at hnodup ⊢
        intro file hfile hkept
        rcases List.mem_cons.mp hfile with rfl | hfile
        · refine ⟨path, horigin ▸ List.mem_cons_self, hfrom.read, zoneFor_mono (hkeptBy file rfl hkept) ?_⟩
          intro digest hdigest
          rcases hfiles path digest file.key hdigest with hloaded | hearlier
          · exact hloaded
          · exact (List.disjoint_of_nodup_append hnodup hearlier List.mem_cons_self).elim
        · have hnodup' : ((earlier ++ [one.key]) ++ (loadedOf (loadPaths setup.b64 (setup.keepable call state) call.fs
              call.base state.disk files' rest).1).map LoadedFile.key).Nodup := by
            rw [List.append_assoc]
            exact hnodup
          obtain ⟨path', hmem, hrest⟩ := ih (fun other digest key hother => by
            rcases hnotes other digest key hother with hother | ⟨noted, heq, rfl⟩
            · grind
            · cases heq
              exact .inr (List.mem_append_right _ List.mem_cons_self)) hnodup' file hfile hkept
          exact ⟨path', List.mem_cons_of_mem _ hmem, hrest⟩
      · intro file hfile hkept
        obtain ⟨path', hmem, hrest⟩ := ih (fun other digest key hother => by
          rcases hnotes other digest key hother with hother | ⟨noted, heq, -⟩
          · exact hfiles other digest key hother
          · cases heq) hnodup file hfile hkept
        exact ⟨path', List.mem_cons_of_mem _ hmem, hrest⟩

theorem of_load (h : (setup.load call state).1 = .ok loaded) :
    ∃ entries, setup.source.listed state.disk = some entries ∧
      loaded = loadedOf (loadPaths setup.b64 (setup.keepable call state) call.fs call.base state.disk state.loaded
        entries).1 := by
  rw [ServerSetup.load] at h
  split at h
  · cases h
  · grind

theorem kept_of_previous_none (h : (setup.load call state).1 = .ok loaded)
    (hnone : setup.previous call state = none) :
    ∀ file ∈ loaded, file.kept = false := by
  obtain ⟨entries, -, rfl⟩ := of_load h
  intro file hfile
  obtain ⟨path, -, hfrom⟩ := (loadPaths_spec setup call state entries state.loaded).1 file hfile
  by_contra hkept
  have hserved := hfrom.kept (Bool.of_not_eq_false hkept)
  cases (zones_of_keepable hserved).1.symm.trans hnone

structure Installs (setup : ServerSetup) (call : ReloadCall) (state : ServerState) (kept : List Name) (key : Name)
    (zone served : Zone) : Prop where
  unsigned : (setup.signingAt call.held).bind (fun signing => signing.keysFor key) = none → served = zone
  signed : ∀ signing keys, setup.signingAt call.held = some signing → signing.keysFor key = some keys →
    ∃ names, signOne call.crypto signing (setup.previous call state) kept call.now key zone keys = .ok (served, names)

theorem get_map_entries (entries : List (Name × Zone × Option (KeyRoles × List (Name × Rtype)))) (key : Name) :
    Entries.get (entries.map fun (key, zone, _) => (key, zone)) key
      = (Entries.get entries key).map Prod.fst := by
  induction entries with
  | nil => rfl
  | cons entry rest ih =>
    obtain ⟨key', zone, fresh⟩ := entry
    rw [List.map_cons, Entries.get_cons, Entries.get_cons]
    split
    · rfl
    · exact ih

/-- **What a reload serves** under each name, by the file that name was loaded from last. -/
theorem get_signLoaded {entries : List (Name × Zone × Option (KeyRoles × List (Name × Rtype)))}
    (h : setup.signLoaded call state loaded = .ok entries) (key : Name) :
    (lastFor loaded key = none ∧ Entries.get (entries.map fun (key, zone, _) => (key, zone)) key = none) ∨
      ∃ file served, lastFor loaded key = some file ∧
        Installs setup call state (loadZones (loaded.map LoadedFile.entry)).2 key file.zone served ∧
        Entries.get (entries.map fun (key, zone, _) => (key, zone)) key = some served := by
  rw [get_map_entries]
  have hzones := get_loadZones loaded key
  rw [ServerSetup.signLoaded] at h
  generalize loadZones (loaded.map LoadedFile.entry) = result at h hzones ⊢
  obtain ⟨zones, kept⟩ := result
  dsimp only at h hzones ⊢
  have hpairs : List.Forall₂ (fun a b => a.1 = b.1 ∧ Installs setup call state kept a.1 a.2 b.2.1) zones entries := by
    split at h
    · rename_i hnone
      cases h
      rw [List.forall₂_map_right_iff, List.forall₂_same]
      intro entry _
      refine ⟨rfl, fun _ => rfl, ?_⟩
      intro signing keys hsigning
      rw [hnone] at hsigning
      cases hsigning
    · rename_i signing hsigning
      refine (forall₂_of_mapM_ok h).imp fun a b hab => ?_
      obtain ⟨key', zone⟩ := a
      obtain ⟨-, hone⟩ := hab
      dsimp only at hone ⊢
      split at hone
      · rename_i hnone
        cases hone
        refine ⟨rfl, fun _ => rfl, ?_⟩
        intro other keys hother hkeys
        rw [hsigning] at hother
        cases hother
        rw [hnone] at hkeys
        cases hkeys
      · rename_i found hfound
        obtain ⟨⟨signed, names⟩, hsigned, hone⟩ := except_bind_eq_ok.mp hone
        cases hone
        refine ⟨rfl, ?_, ?_⟩
        · grind
        · grind
  have hfound := @Entries.get_forall₂ _ _ _ _ _
    (fun key zone (entry : Zone × Option (KeyRoles × List (Name × Rtype))) =>
      Installs setup call state kept key zone entry.1) _ hpairs key
  rcases hfound with ⟨hnone, hnone'⟩ | ⟨zone, entry, hzone, hentry, hinstalls⟩
  · rw [hzones] at hnone
    exact .inl ⟨Option.map_eq_none_iff.mp hnone, by rw [hnone']; rfl⟩
  · rw [hzones] at hzone
    obtain ⟨file, hfile, rfl⟩ := Option.map_eq_some_iff.mp hzone
    exact .inr ⟨file, entry.1, hfile, hinstalls, by rw [hentry]; rfl⟩

theorem reload_cases (setup : ServerSetup) (call : ReloadCall) (state : ServerState) :
    ((setup.reload call state).2 = none ∧ (setup.reload call state).1.zones = state.zones) ∨
    ∃ loaded entries, (setup.reload call state).2 = some loaded ∧ (setup.load call state).1 = .ok loaded ∧
      setup.signLoaded call state loaded = .ok entries ∧
      (setup.reload call state).1.zones = entries.map fun (key, zone, _) => (key, zone) := by
  rw [ServerSetup.reload]
  split
  · exact .inl ⟨rfl, rfl⟩
  · rename_i loaded files hload
    split
    · exact .inl ⟨rfl, rfl⟩
    · rename_i entries hentries
      generalize (if call.validator.enabled then verifyEach call.validator state.proved entries
        else (state.proved, none)) = verified
      obtain ⟨proved, failure⟩ := verified
      dsimp only
      split
      · exact .inl ⟨rfl, rfl⟩
      · exact .inr ⟨loaded, entries, rfl, by rw [hload], hentries, rfl⟩

theorem holds_installed {trusted : Source → Prop} (hsound : Sound setup trusted state sources)
    (hapart : FilesApart setup state call) (hload : (setup.load call state).1 = .ok loaded)
    (hfile : lastFor loaded key = some file)
    (hkept : file.kept = true → sources.get key = some ⟨file.origin, file.raw, false⟩ ∧
      trusted ⟨file.origin, file.raw, false⟩) {served : Zone}
    (hinstalls : Installs setup call state (loadZones (loaded.map LoadedFile.entry)).2 key file.zone served)
    (hreads : ReadsAs setup.b64 file.raw file.origin zone) :
    zoneKey zone = key ∧ Holds setup.signing key zone served := by
  obtain ⟨hmem, rfl⟩ := mem_of_lastFor hfile
  obtain ⟨entries, -, rfl⟩ := of_load hload
  obtain ⟨path, -, hfrom⟩ := (loadPaths_spec setup call state entries state.loaded).1 file hmem
  generalize loadedOf (loadPaths setup.b64 (setup.keepable call state) call.fs call.base state.disk state.loaded
    entries).1 = loaded at hload hmem hinstalls hfile
  have hsome := keysFor_signingAt setup call.held file.key
  cases hflag : file.kept with
  | true =>
    have hkeptServed := hfrom.kept hflag
    obtain ⟨-, hkeptServed⟩ := zones_of_keepable hkeptServed
    have hsame : served = file.zone := by
      cases hsigning : setup.signingAt call.held with
      | none => exact hinstalls.unsigned (by rw [hsigning]; rfl)
      | some signing =>
        cases hkeys : signing.keysFor file.key with
        | none => exact hinstalls.unsigned (by rw [hsigning]; exact hkeys)
        | some keys =>
          obtain ⟨names, hsigned⟩ := hinstalls.signed signing keys hsigning hkeys
          have hcontains : (loadZones (loaded.map LoadedFile.entry)).2.contains file.key = true := by
            rw [List.contains_iff_mem]
            refine List.mem_map.mpr ⟨file.entry, List.mem_filter.mpr ⟨List.mem_map_of_mem hmem, ?_⟩, rfl⟩
            exact hflag
          rw [signOne, if_pos hcontains] at hsigned
          cases hsigned
          rfl
    rw [hsame]
    exact hsound _ _ hkeptServed _ (hkept hflag).1 (hkept hflag).2 zone hreads
  | false =>
    obtain ⟨hkey, text, htext, hparse⟩ := hfrom.parsed hflag
    obtain ⟨text', htext', hreads⟩ := hreads
    cases htext.symm.trans htext'
    have hzone : file.zone = zone := Except.ok.inj (hparse.symm.trans (hreads call.fs (call.base path)))
    subst hzone
    refine ⟨hkey.symm, file.zone, rfl, List.Perm.refl _, ?_⟩
    cases hkeys : setup.signing.bind fun signing => signing.keysFor file.key with
    | none =>
      rw [hkeys] at hsome
      exact hinstalls.unsigned (Option.isNone_iff_eq_none.mp (Option.isSome_eq_false_iff.mp hsome))
    | some configured =>
      rw [hkeys] at hsome
      obtain ⟨keys, hkeysAt⟩ := Option.isSome_iff_exists.mp hsome
      obtain ⟨signing, hsigning, hkeysFor⟩ := Option.bind_eq_some_iff.mp hkeysAt
      obtain ⟨names, hsigned⟩ := hinstalls.signed signing keys hsigning hkeysFor
      rcases of_signOne hsigned with ⟨hmemKept, -⟩ | hrun
      · -- another file of this load would be kept for the same zone
        exfalso
        obtain ⟨entry, hentry, hentryKey⟩ := List.mem_map.mp hmemKept
        obtain ⟨hentry, hentryKept⟩ := List.mem_filter.mp hentry
        obtain ⟨other, hother, rfl⟩ := List.mem_map.mp hentry
        have hprevious : (setup.previous call state).isSome := by
          by_contra hnone
          have hnone := Option.not_isSome_iff_eq_none.mp hnone
          have hflag' := kept_of_previous_none hload hnone other hother
          have hotherKept : other.kept = true := hentryKept
          rw [hflag'] at hotherKept
          cases hotherKept
        have heq : other = file := List.inj_on_of_nodup_map (hapart hprevious loaded hload) hother hmem hentryKey
        subst heq
        have hotherKept : other.kept = true := hentryKept
        rw [hflag] at hotherKept
        cases hotherKept
      · exact ⟨_, rfl, hrun⟩

theorem source_of_kept (hkeeps : KeepsTheFile setup state sources call)
    (hapart : FilesApart setup state call) (hload : (setup.load call state).1 = .ok loaded)
    (hmem : file ∈ loaded) (hkept : file.kept = true) :
    sources.get file.key = some ⟨file.origin, file.raw, false⟩ := by
  have hprevious : (setup.previous call state).isSome := by
    by_contra hnone
    have hflag := kept_of_previous_none hload (Option.not_isSome_iff_eq_none.mp hnone) file hmem
    rw [hkept] at hflag
    cases hflag
  have hnodup := hapart hprevious loaded hload
  obtain ⟨entries, hentries, rfl⟩ := of_load hload
  obtain ⟨path, hpath, hraw, hzoneFor⟩ := @kept_of_loadPaths state.loaded setup call state entries [] (fun _ _ _ => .inl)
    hnodup file hmem hkept
  exact hkeeps entries hentries path file.origin hpath file.raw file.key file.zone hraw hzoneFor

/-- **A reload keeps the sources true**, if what it loads may be trusted. -/
theorem Sound.reload {trusted : Source → Prop} (hsound : Sound setup trusted state sources)
    (hkeeps : KeepsTheFile setup state sources call) (hapart : FilesApart setup state call)
    (htrusted : ∀ origin raw, trusted ⟨origin, raw, false⟩) :
    Sound setup trusted (setup.step (.reload call) state sources).1 (setup.step (.reload call) state sources).2 := by
  rw [ServerSetup.step]
  rcases reload_cases setup call state with ⟨hnone, hzones⟩ | ⟨loaded, entries, hsome, hload, hentries, hzones⟩
  · generalize setup.reload call state = result at hnone hzones
    obtain ⟨after, installed⟩ := result
    cases hnone
    intro key served hserved
    rw [show after.zones = state.zones from hzones] at hserved
    exact hsound key served hserved
  · generalize setup.reload call state = result at hsome hzones
    obtain ⟨after, installed⟩ := result
    cases hsome
    intro key served hserved source hsource _ zone hreads
    rw [show after.zones = _ from hzones] at hserved
    rcases get_signLoaded hentries key with ⟨-, hnone⟩ | ⟨file, other, hfile, hinstalls, hother⟩
    · rw [hnone] at hserved
      cases hserved
    · cases hserved.symm.trans hother
      dsimp only at hsource
      rw [get_sourcesOfLoad, hfile, Option.bind_some] at hsource
      obtain ⟨hmem, hkey⟩ := mem_of_lastFor hfile
      have hkept : file.kept = true → sources.get key = some ⟨file.origin, file.raw, false⟩ ∧
          trusted ⟨file.origin, file.raw, false⟩ := by
        intro hflag
        rw [← hkey]
        exact ⟨source_of_kept hkeeps hapart hload hmem hflag, htrusted _ _⟩
      have hfrom : source = ⟨file.origin, file.raw, false⟩ := by grind
      subst hfrom
      exact holds_installed hsound hapart hload hfile hkept hinstalls hreads

/-! ## A file of the root zone -/

def rootSoa : ZoneRecord := ⟨.root, ⟨60⟩, .IN, ⟨SOA, [0, 0, 0, 0, 0, 1, 0, 0, 0, 2, 0, 0, 0, 3,
  0, 0, 0, 4, 0, 0, 0, 5]⟩⟩

def rootAddress : ZoneRecord := ⟨.root, ⟨60⟩, .IN, ⟨A, [192, 0, 2, 1]⟩⟩

def bareText : Text := "@ 60 IN SOA . . 1 2 3 4 5".toList

def rootText : Text := bareText ++ "\n@ 60 IN A 192.0.2.1".toList

def bareFile : Octets := toBytes bareText
def rootFile : Octets := toBytes rootText

theorem readsAs_of_includesNone (h : includesNone text = true)
    (hparse : parseZoneFile b64 noFiles none text origin = .ok zone) :
    ReadsAs b64 (toBytes text) origin zone := by
  refine ⟨text, fromUtf8_toBytes text, ?_⟩
  intro fs base
  rw [parse_anywhere b64 h fs noFiles base none]
  exact hparse

theorem readsAs_rootFile : ∃ zone, ReadsAs noBase64 rootFile ['.'] zone ∧ zone.origin = .root ∧
    zone.records = [rootSoa, rootAddress] := by
  have hloads : ((parseZoneFile noBase64 noFiles none rootText ['.']).toOption.map fun z => (z.origin, z.records))
      = some (.root, [rootSoa, rootAddress]) := by
    decide +kernel
  obtain ⟨zone, hzone, hrecords⟩ := Option.map_eq_some_iff.mp hloads
  cases hparse : parseZoneFile noBase64 noFiles none rootText ['.'] with
  | error e =>
    rw [hparse] at hzone
    cases hzone
  | ok parsed =>
    rw [hparse] at hzone
    cases hzone
    exact ⟨zone, readsAs_of_includesNone (by decide +kernel) hparse, congrArg Prod.fst hrecords,
      congrArg Prod.snd hrecords⟩

def fnv1a (octets : Octets) : FileDigest :=
  octets.foldl (fun digest octet => (digest ^^^ octet.toUInt64) * 1099511628211) 14695981039346656037

def rootSetup (signing : Option ZoneSigning) : ServerSetup where
  b64 := noBase64
  digestOf := fnv1a
  source := .files [(['.'], "root.zone"), ("ex.".toList, "ex.zone")]
  replicating := false
  allowPartial := false
  signing := signing

def twoFiles (first second : Octets) : Disk where
  read := fun path => if path = "root.zone" then some first else if path = "ex.zone" then some second else none
  list := fun _ => none

def reloadNow : ReloadCall where
  trigger := .signal
  now := 1754197300
  fs := noFiles
  base := fun _ => none
  held := fun _ => false
  crypto := ed25519Crypto
  validator := ⟨false, false, fun _ _ => true⟩

end Rdns.Server
