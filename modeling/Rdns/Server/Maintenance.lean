import Rdns.Dnssec.SignedZone
import Rdns.Lib.Entries
import Rdns.Present.Presentation

/-!
# Rdns — Keeping the zones current

The signing configuration of `rdnsd/src/zones.rs` (`ZoneSigning`, `Keepable`,
`ProvenSigning`, `load_zones`, `verify_zones`) and the maintenance loop of
`rdnsd/src/main.rs`: a signal, the control socket, a released key or the loop's own timer
starts a reload, and only the timer's makes every signature anew.

A zone file is its path, the digest of its octets and the zone its text parses to; a load
that fails leaves everything as it was, so a run is made of loads that succeed.
-/

namespace Rdns.Server

open Rdns.Lib Rdns.Core Rdns.Present Rdns.Zones Rdns.Dnssec RecordTypes

/-! ## The signing configuration -/

structure ZoneSigningOverride where
  nsec3 : Option Bool
  nsec3OptOut : Option Bool
  validityDays : Option UInt32
  dnskeyRrsig : Option DnskeySignature

def ZoneSigningOverride.default : ZoneSigningOverride := ⟨none, none, none, none⟩

structure ZoneSigning where
  keys : List (Name × List SigningKey)
  validity : Nat
  chain : DenialChain
  perZone : List (Text × ZoneSigningOverride)

inductive ResignReason where
  | validity (secs : Nat)
  | keyTransition
deriving DecidableEq

structure Resign where
  every : Nat
  why : ResignReason
deriving DecidableEq

namespace ZoneSigning

variable (signing : ZoneSigning)

def keysFor (origin : Name) : Option (List SigningKey) :=
  (signing.keys.find? fun entry => entry.1.same origin).map Prod.snd

def overrideFor (origin : Name) : ZoneSigningOverride :=
  ((signing.perZone.find? fun entry => entry.1 = toPresentation origin).map Prod.snd).getD .default

def validityFor (origin : Name) : Nat :=
  match (signing.overrideFor origin).validityDays with
  | some days => days.toNat * 86400
  | none => signing.validity

def chainFor (origin : Name) : DenialChain :=
  let overrides := signing.overrideFor origin
  let nsec3 := overrides.nsec3.getD (signing.chain ≠ .nsec)
  let optOut := overrides.nsec3OptOut.getD (match signing.chain with
    | .nsec => false
    | .nsec3 _ _ optOut => optOut)
  if nsec3 then .nsec3 [] 0 optOut else .nsec

def policyFor (origin : Name) (signedAt : Nat) : SigningPolicy :=
  .validFor signedAt (signing.validityFor origin) (signing.chainFor origin)
    ((signing.overrideFor origin).dnskeyRrsig.getD .local)

def shortestValidity : Nat :=
  (signing.perZone.filterMap fun entry => entry.2.validityDays.map fun days => days.toNat * 86400).foldl min
    signing.validity

def nextKeyChange (now : Nat) : Option Nat :=
  (((signing.keys.flatMap Prod.snd).filterMap fun key => key.timing.nextChange now).min?).map fun t =>
    max (saturatingAdd64 (t - now) 1) 60

def resignIntervalAt (now : Nat) : Resign :=
  let ordinary := max (resignAfter signing.shortestValidity) 60
  match signing.nextKeyChange now with
  | some next =>
    if next < ordinary then ⟨next, .keyTransition⟩ else ⟨ordinary, .validity signing.shortestValidity⟩
  | none => ⟨ordinary, .validity signing.shortestValidity⟩

def holding (held : SigningKey → Bool) : ZoneSigning :=
  { signing with keys := signing.keys.map fun entry => (entry.1, entry.2.map fun key => { key with held := held key }) }

end ZoneSigning

/-! ## What a load remembers -/

structure KeyRoles where
  signing : List UInt16
  syncing : List UInt16
deriving DecidableEq

def tidy (tags : List UInt16) : List UInt16 := sortedSet (fun a b => a ≤ b) tags

def keyRoles (keys : List SigningKey) (signedAt : Nat) : KeyRoles where
  signing := tidy ((activeSigningKeys keys signedAt).map SigningKey.keyTag)
  syncing := tidy ((keys.filter fun key => key.timing.isSyncPublished signedAt).map SigningKey.keyTag)

abbrev FileDigest := UInt64

/-- A zone file, as a load reads it: the digest of its octets unless it includes another
file, and the zone its text parses to. -/
structure ZoneFile where
  path : String
  digest : Option FileDigest
  zone : Zone

abbrev ZoneMap := Entries Name Zone

def zoneKey (zone : Zone) : Name := zone.origin.toFolded

/-- What a reload starts from: the files as they were last parsed, the key roles whose output
was verified, and the zones being served. -/
structure Served where
  files : Entries String (FileDigest × Name)
  proved : Entries Name KeyRoles
  zones : ZoneMap

def Served.empty : Served := ⟨[], [], []⟩

def alreadyProved (proved : Entries Name KeyRoles) (origin : Name) (roles : Option KeyRoles) : Bool :=
  match roles with
  | none => false
  | some roles => proved.get origin = some roles

/-! ## Loading the files -/

def unchanged (files : Entries String (FileDigest × Name)) (path : String) (digest : FileDigest) : Option Name :=
  match files.get path with
  | some (last, key) => if last = digest then some key else none
  | none => none

section Load

variable (signing : ZoneSigning) (proved : Entries Name KeyRoles) (served : ZoneMap) (signedAt : Nat)

def zoneFor (files : Entries String (FileDigest × Name)) (file : ZoneFile) : Option (Name × Zone) := do
  let digest ← file.digest
  let key ← unchanged files file.path digest
  let zone ← served.get key
  match signing.keysFor key with
  | none => return (key, zone)
  | some keys =>
    if alreadyProved proved key (some (keyRoles keys signedAt)) then return (key, zone) else none

def note (files : Entries String (FileDigest × Name)) (file : ZoneFile) (key : Name) :
    Entries String (FileDigest × Name) :=
  match file.digest with
  | some digest => files.insert file.path (digest, key)
  | none => files.remove file.path

def loadOne (files : Entries String (FileDigest × Name)) (file : ZoneFile) :
    (Name × Zone × Bool) × Entries String (FileDigest × Name) :=
  match zoneFor signing proved served signedAt files file with
  | some (key, zone) => ((key, zone, true), files)
  | none => ((zoneKey file.zone, file.zone, false), note files file (zoneKey file.zone))

def loadFiles (files : Entries String (FileDigest × Name)) :
    List ZoneFile → List (Name × Zone × Bool) × Entries String (FileDigest × Name)
  | [] => ([], files)
  | file :: rest =>
    let (one, files) := loadOne signing proved served signedAt files file
    let (others, files) := loadFiles files rest
    (one :: others, files)

def loadZones (loaded : List (Name × Zone × Bool)) : ZoneMap × List Name :=
  (loaded.foldl (fun zones (key, zone, _) => Entries.insert zones key zone) [],
    (loaded.filter fun (_, _, kept) => kept).map Prod.fst)

end Load

/-! ## Signing and verifying what was loaded -/

section Apply

variable (crypto : Crypto) (signing : ZoneSigning) (previous : Option ZoneMap) (kept : List Name)
  (signedAt : Nat)

def signOne (key : Name) (zone : Zone) (keys : List SigningKey) :
    Except DnssecError (Zone × List (Name × Rtype)) :=
  if kept.contains key then .ok (zone, [])
  else
    let policy := signing.policyFor key signedAt
    match previous.bind fun served => served.get key with
    | some served => signZoneIncrementally crypto served zone keys policy
    | none => do
      let signed ← signZone crypto zone keys policy
      return (signed, [])

def applyKeeping (zones : ZoneMap) :
    Except DnssecError (List (Name × Zone × Option (KeyRoles × List (Name × Rtype)))) :=
  zones.mapM fun (key, zone) =>
    match signing.keysFor key with
    | none => .ok (key, zone, none)
    | some keys => do
      let (signed, fresh) ← signOne crypto signing previous kept signedAt key zone keys
      return (key, signed, some (keyRoles keys signedAt, fresh))

end Apply

/-- The validator, as far as a load asks it: whether the RRset of a name and type is there and
verifies against the zone's own keys. -/
structure Validator where
  enabled : Bool
  requireSigned : Bool
  validates : Zone → Name × Rtype → Bool

def rrsigCovers (record : ZoneRecord) : Option (Name × Rtype) :=
  if record.rtype = RRSIG then (coveredType record.rdata).map fun rtype => (record.name, rtype)
  else none

def verifyZone (validator : Validator) (proved : Entries Name KeyRoles)
    (entry : Name × Zone × Option (KeyRoles × List (Name × Rtype))) : Except String (Entries Name KeyRoles) :=
  let (key, zone, run) := entry
  if alreadyProved proved key (run.map Prod.fst) then
    -- only what was just signed is new
    if (run.map Prod.snd).getD [] |>.all (validator.validates zone) then .ok proved
    else .error "a re-signed RRset does not verify against the zone's own keys"
  else if !(zone.records.any fun r => r.rtype == DNSKEY) then
    if validator.requireSigned then .error "the zone is not signed" else .ok proved
  else if (zone.records.filterMap rrsigCovers).all (validator.validates zone) then
    .ok (match run with
      | some (roles, _) => proved.insert key roles
      | none => proved)
  else .error "an RRset does not verify against the zone's own keys"

def verifyZones (validator : Validator) (proved : Entries Name KeyRoles)
    (entries : List (Name × Zone × Option (KeyRoles × List (Name × Rtype)))) :
    Except String (Entries Name KeyRoles) :=
  if !validator.enabled then .ok proved else entries.foldlM (verifyZone validator) proved

/-! ## The maintenance loop -/

inductive ReloadTrigger where
  | startup
  | signal
  | timer
  | control
  | parentDs
deriving DecidableEq

def ReloadTrigger.refreshesSignatures : ReloadTrigger → Bool
  | .startup | .timer => true
  | .signal | .control | .parentDs => false

/-- One turn of the loop: what started it and when, what it read, and what it signed and
verified with. -/
structure Iteration where
  trigger : ReloadTrigger
  now : Nat
  files : List ZoneFile
  held : SigningKey → Bool
  crypto : Crypto
  validator : Validator

def Iteration.load (it : Iteration) (signing : ZoneSigning) (served : Served) :
    List (Name × Zone × Bool) × Entries String (FileDigest × Name) :=
  let previous := if it.trigger.refreshesSignatures then [] else served.zones
  loadFiles (signing.holding it.held) served.proved previous it.now served.files it.files

def reloadOnce (signing : ZoneSigning) (it : Iteration) (served : Served) : Except String Served := do
  let previous := if it.trigger.refreshesSignatures then none else some served.zones
  let (loaded, files) := it.load signing served
  let (zones, kept) := loadZones loaded
  let entries ← (applyKeeping it.crypto (signing.holding it.held) previous kept it.now zones).mapError
    fun _ => "signing failed"
  let proved ← verifyZones it.validator served.proved entries
  return ⟨files, proved, entries.map fun (key, zone, _) => (key, zone)⟩

/-- **The runs of the loop** whose loads all meet `ok`, the last iteration first: the load at
startup, and then loads at times that do not go back, those of the timer once the interval
has passed since the iteration before. -/
inductive Maintained (signing : ZoneSigning) (ok : Served → Iteration → Prop) : List Iteration → Served → Prop where
  | start {it : Iteration} {served : Served} (htrigger : it.trigger = .startup) (hok : ok .empty it)
      (hload : reloadOnce signing it .empty = .ok served) : Maintained signing ok [it] served
  | next {it last : Iteration} {earlier : List Iteration} {before after : Served}
      (h : Maintained signing ok (last :: earlier) before) (htrigger : it.trigger ≠ .startup)
      (htime : last.now ≤ it.now)
      (htimer : it.trigger = .timer →
        last.now + ((signing.holding last.held).resignIntervalAt last.now).every ≤ it.now)
      (hok : ok before it) (hload : reloadOnce signing it before = .ok after) :
      Maintained signing ok (it :: last :: earlier) after

def refreshedAt : List Iteration → Nat
  | [] => 0
  | it :: earlier => if it.trigger.refreshesSignatures then it.now else refreshedAt earlier

end Rdns.Server
