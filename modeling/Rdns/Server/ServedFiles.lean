import Rdns.Server.Freshness
import Rdns.Server.StateFile

/-!
# Rdns — Zone files, updates and reloads

The parts of `rdnsd` that write the served zones from zone files: `ZoneSource`,
`LoadedFiles`, `Keepable` and `load_zones` of `zones.rs`, `load_blocking` and `reload_once`
of `main.rs`, and `answer_update` of `dispatch.rs` around `apply_update_to_file`. A state
is the disk, the zones served and the two digests a file may have: as a load last parsed it,
and as an UPDATE last left it. One lock makes a reload and an UPDATE one step each; the
operator may change the disk between any two.

A load notes a file's digest when it parses it, whatever becomes of the load.

Beside the state runs its history (`Sources`): what the version of a zone that is served was
last loaded from or written to.
-/

namespace Rdns.Server

open Rdns.Lib Rdns.Core Rdns.Present Rdns.Zones Rdns.Dnssec

/-! ## The disk -/

structure Disk where
  read : String → Option Octets
  list : String → Option (List String)

def Disk.write (disk : Disk) (path : String) (octets : Octets) : Disk :=
  { disk with read := fun other => if other = path then some octets else disk.read other }

def fileName (path : String) : Option Text :=
  match ((path.toList.splitOn '/').filter fun part => part ≠ [] ∧ part ≠ ['.']).getLast? with
  | some name => if name = ['.', '.'] then none else some name
  | none => none

def originFromPath (path : String) : Text :=
  let name := (fileName path).getD "zone".toList
  let origin := if ".zone".toList.isSuffixOf name then name.take (name.length - 5) else name
  if origin.getLast? = some '.' then origin else origin ++ ['.']

def hasZoneExtension (path : String) : Bool :=
  match fileName path with
  | some name => 5 < name.length && ".zone".toList.isSuffixOf name
  | none => false

/-- Where the zones come from: one file, a directory of them, or files named beside their
zones. -/
inductive ZoneSource where
  | singleFile (path : String)
  | directory (dir : String)
  | files (entries : List (Text × String))

namespace ZoneSource

def listed (disk : Disk) : ZoneSource → Option (List (String × Text))
  | .singleFile path => some [(path, originFromPath path)]
  | .directory dir => (disk.list dir).map fun paths =>
      (paths.filter hasZoneExtension).map fun path => (path, originFromPath path)
  | .files entries => some (entries.map fun (origin, path) => (path, origin))

def fileFor (disk : Disk) (origin : Text) : ZoneSource → Option (Option String)
  | .singleFile path => some (if eqIgnoreCase (absolute (originFromPath path)) (absolute origin) then some path else none)
  | .files entries => some ((entries.find? fun (zone, _) => eqIgnoreCase (absolute zone) (absolute origin)).map Prod.snd)
  | .directory dir => (disk.list dir).map fun paths =>
      paths.find? fun path => hasZoneExtension path && eqIgnoreCase (absolute (originFromPath path)) (absolute origin)

/-- The origins a file is read under, wherever the disk has it. -/
def Reads (path : String) (origin : Text) : ZoneSource → Prop
  | .files entries => (origin, path) ∈ entries
  | _ => origin = originFromPath path

def isSingleFile : ZoneSource → Bool
  | .singleFile _ => true
  | _ => false

def isDirectory : ZoneSource → Bool
  | .directory _ => true
  | _ => false

end ZoneSource

/-! ## The server -/

structure ServerSetup where
  b64 : Base64
  digestOf : Octets → FileDigest
  source : ZoneSource
  replicating : Bool
  allowPartial : Bool
  signing : Option ZoneSigning

/-- The disk, the zones served, the files as they were last parsed (`LoadedFiles`), the key
roles whose output was verified, and the files as an UPDATE last left them (`ZoneWrites`). -/
structure ServerState where
  disk : Disk
  zones : ZoneMap
  loaded : Entries String (FileDigest × Name)
  proved : Entries Name KeyRoles
  written : Entries String FileDigest

def ServerState.start (disk : Disk) : ServerState := ⟨disk, [], [], [], []⟩

/-- What a reload is started by and when, the files an `$INCLUDE` would find, and what it signs
and verifies with. -/
structure ReloadCall where
  trigger : ReloadTrigger
  now : Nat
  fs : FileSystem
  base : String → Option fs.Path
  held : SigningKey → Bool
  crypto : Crypto
  validator : Validator

structure UpdateMessage where
  msg : DnsMessage
  now : Nat
  fs : FileSystem
  base : String → Option fs.Path
  writes : Text → Bool
  held : SigningKey → Bool
  crypto : Crypto
  validator : Validator

/-! ## Loading -/

/-- What a reload may keep: the zones it started from, empty where nothing may be kept. -/
structure Keepable where
  digestOf : Octets → FileDigest
  served : ZoneMap
  signing : Option ZoneSigning
  proved : Entries Name KeyRoles
  signedAt : Nat

namespace Keepable

variable (keep : Keepable)

def zoneFor (files : Entries String (FileDigest × Name)) (path : String) (raw : Octets) :
    Option (Name × Zone) := do
  let digest ← ofSelfContained keep.digestOf raw
  let key ← unchanged files path digest
  let zone ← keep.served.get key
  match keep.signing.bind fun signing => signing.keysFor key with
  | none => return (key, zone)
  | some keys =>
    if alreadyProved keep.proved key (some (keyRoles keys keep.signedAt)) then return (key, zone) else none

def note (files : Entries String (FileDigest × Name)) (path : String) (raw : Octets) (key : Name) :
    Entries String (FileDigest × Name) :=
  match ofSelfContained keep.digestOf raw with
  | some digest => files.insert path (digest, key)
  | none => files.remove path

end Keepable

inductive LoadFailure where
  | unreadable
  | zoneFile (error : ZoneError)

structure LoadedFile where
  origin : Text
  raw : Octets
  key : Name
  zone : Zone
  kept : Bool

def LoadedFile.entry (file : LoadedFile) : Name × Zone × Bool := (file.key, file.zone, file.kept)

section Load

variable (b64 : Base64) (keep : Keepable) (fs : FileSystem) (base : String → Option fs.Path) (disk : Disk)

def loadPath (files : Entries String (FileDigest × Name)) (path : String) (origin : Text) :
    Except LoadFailure LoadedFile × Entries String (FileDigest × Name) :=
  match disk.read path with
  | none => (.error .unreadable, files)
  | some raw =>
    match fromUtf8 raw with
    | none => (.error .unreadable, files)
    | some text =>
      match keep.zoneFor files path raw with
      | some (key, zone) => (.ok ⟨origin, raw, key, zone, true⟩, files)
      | none =>
        match parseZoneFile b64 fs (base path) text origin with
        | .error e => (.error (.zoneFile e), files)
        | .ok zone => (.ok ⟨origin, raw, zoneKey zone, zone, false⟩, keep.note files path raw (zoneKey zone))

def loadPaths (files : Entries String (FileDigest × Name)) :
    List (String × Text) → List (Except LoadFailure LoadedFile) × Entries String (FileDigest × Name)
  | [] => ([], files)
  | (path, origin) :: rest =>
    let (one, files) := loadPath b64 keep fs base disk files path origin
    let (others, files) := loadPaths files rest
    (one :: others, files)

end Load

def loadedOf (results : List (Except LoadFailure LoadedFile)) : List LoadedFile := results.filterMap Except.toOption

def verifyEach (validator : Validator) (proved : Entries Name KeyRoles) :
    List (Name × Zone × Option (KeyRoles × List (Name × Rtype))) → Entries Name KeyRoles × Option String
  | [] => (proved, none)
  | entry :: rest =>
    match verifyZone validator proved entry with
    | .ok proved => verifyEach validator proved rest
    | .error why => (proved, some why)

namespace ServerSetup

variable (setup : ServerSetup)

def signingAt (held : SigningKey → Bool) : Option ZoneSigning := setup.signing.map fun signing => signing.holding held

def previous (call : ReloadCall) (state : ServerState) : Option ZoneMap :=
  if setup.signing.isSome && !call.trigger.refreshesSignatures then some state.zones else none

def keepable (call : ReloadCall) (state : ServerState) : Keepable where
  digestOf := setup.digestOf
  served := (setup.previous call state).getD []
  signing := setup.signingAt call.held
  proved := state.proved
  signedAt := call.now

def load (call : ReloadCall) (state : ServerState) :
    Except String (List LoadedFile) × Entries String (FileDigest × Name) :=
  match setup.source.listed state.disk with
  | none => (.error "the directory cannot be read", state.loaded)
  | some entries =>
    let (results, files) :=
      loadPaths setup.b64 (setup.keepable call state) call.fs call.base state.disk state.loaded entries
    let loaded := loadedOf results
    if (setup.source.isSingleFile || !setup.allowPartial) && loaded.length < results.length then
      (.error "some zone files failed to load", files)
    else if setup.source.isDirectory && loaded.isEmpty && !setup.replicating then
      (.error "no .zone files found in the directory", files)
    else (.ok loaded, files)

def signLoaded (call : ReloadCall) (state : ServerState) (loaded : List LoadedFile) :
    Except DnssecError (List (Name × Zone × Option (KeyRoles × List (Name × Rtype)))) :=
  let (zones, kept) := loadZones (loaded.map LoadedFile.entry)
  match setup.signingAt call.held with
  | none => .ok (zones.map fun (key, zone) => (key, zone, none))
  | some signing => applyKeeping call.crypto signing (setup.previous call state) kept call.now zones

def reload (call : ReloadCall) (state : ServerState) : ServerState × Option (List LoadedFile) :=
  match setup.load call state with
  | (.error _, files) => ({ state with loaded := files }, none)
  | (.ok loaded, files) =>
    match setup.signLoaded call state loaded with
    | .error _ => ({ state with loaded := files }, none)
    | .ok entries =>
      let (proved, failure) :=
        if call.validator.enabled then verifyEach call.validator state.proved entries else (state.proved, none)
      match failure with
      | some _ => ({ state with loaded := files, proved }, none)
      | none =>
        ({ state with zones := entries.map fun (key, zone, _) => (key, zone), loaded := files, proved }, some loaded)

/-! ## Updating -/

def callFor (update : UpdateMessage) (state : ServerState) (request : UpdateRequest) (path : String)
    (previous : Zone) : UpdateCall where
  b64 := setup.b64
  fs := update.fs
  base := update.base path
  digestOf := setup.digestOf
  contents := state.disk.read path
  writes := update.writes
  origin := toPresentation request.zone
  previous := previous
  prerequisites := request.prerequisites
  changes := request.changes
  signing := setup.signingAt update.held
  validator := update.validator
  crypto := update.crypto
  now := update.now
  known := state.written.get path

def updateCall (update : UpdateMessage) (state : ServerState) : Option (String × UpdateCall) :=
  match parseUpdate update.msg with
  | .error _ => none
  | .ok request =>
    match state.zones.get request.zone.toFolded, setup.source.fileFor state.disk (toPresentation request.zone) with
    | some previous, some (some path) => some (path, setup.callFor update state request path previous)
    | _, _ => none

def update (update : UpdateMessage) (state : ServerState) : ServerState × Option (Zone × Text × Octets) :=
  match setup.updateCall update state with
  | none => (state, none)
  | some (path, call) =>
    let (outcome, contents) := call.applyUpdateToFile
    let state := match contents with
      | some octets => { state with disk := state.disk.write path octets }
      | none => state
    match outcome with
    | .error _ => (state, none)
    | .ok (installed, _, digest) =>
      let state := { state with written := state.written.insert path digest }
      match installed with
      | none => (state, none)
      | some zone =>
        ({ state with zones := state.zones.insert (zoneKey zone) zone },
          contents.map fun octets => (zone, call.origin, octets))

end ServerSetup

/-! ## Runs -/

/-- What a served zone came from: octets, the origin they are read under, and whether an UPDATE
wrote them. -/
structure Source where
  origin : Text
  raw : Octets
  written : Bool
deriving DecidableEq

abbrev Sources := Entries Name Source

def sourcesOfLoad (before : Sources) (loaded : List LoadedFile) : Sources :=
  loaded.foldl (fun sources file =>
    if file.kept then
      match before.get file.key with
      | some source => sources.insert file.key source
      | none => sources.remove file.key
    else sources.insert file.key ⟨file.origin, file.raw, false⟩) []

inductive ServerEvent where
  | edit (disk : Disk)
  | update (update : UpdateMessage)
  | reload (call : ReloadCall)

namespace ServerSetup

variable (setup : ServerSetup)

def step (event : ServerEvent) (state : ServerState) (sources : Sources) : ServerState × Sources :=
  match event with
  | .edit disk => ({ state with disk }, sources)
  | .update update =>
    match setup.update update state with
    | (after, some (zone, origin, octets)) => (after, sources.insert (zoneKey zone) ⟨origin, octets, true⟩)
    | (after, none) => (after, sources)
  | .reload call =>
    match setup.reload call state with
    | (after, some loaded) => (after, sourcesOfLoad sources loaded)
    | (after, none) => (after, sources)

/-- **The runs of the server** whose steps all meet `ok`, the last event first. -/
inductive Ran (ok : ServerState → Sources → ServerEvent → Prop) : List ServerEvent → ServerState → Sources → Prop where
  | start (disk : Disk) : Ran ok [] (.start disk) []
  | next {events : List ServerEvent} {state : ServerState} {sources : Sources} {event : ServerEvent}
      (h : Ran ok events state sources) (hok : ok state sources event) :
      Ran ok (event :: events) (setup.step event state sources).1 (setup.step event state sources).2

end ServerSetup

end Rdns.Server
