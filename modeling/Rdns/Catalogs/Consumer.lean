import Rdns.Catalogs.Membership

/-!
# Rdns — Consuming catalogs

`Catalogs` of `rdnsd/src/catalog.rs`, with what it calls in `replication.rs` and what `main`
does before it: the diff between what a catalog lists and what this server provisioned from
it, and the refresh tasks, the served zones and the zone files it moves. Two locks make a
reconcile one step. What a transfer installs, what expires and what a reload loads come as the
zones of a step between two reconciles; log lines, what the control socket reports, metrics
and keys are left out.

Beside the state runs its history: what the last reconcile did (`done`), and the zones whose
rows were read at the start and are as they were read (`inherited`).
-/

namespace Rdns.Catalogs

open Rdns.Lib Rdns.Core Rdns.Present Rdns.Zones Rdns.Server

/-! ## Where zones come from -/

structure MasterSpec where
  zone : Name
  master : SocketAddr
  keyName : Option String
  tls : Option String
deriving DecidableEq

def MasterSpec.forMember (spec : MasterSpec) (zone : Name) : MasterSpec := { spec with zone }

structure GroupMaster where
  value : Octets
  masters : List MasterSpec
  masters_ne : masters ≠ []

def GroupMaster.fetchesLike (rule other : GroupMaster) : Bool :=
  rule.masters.length = other.masters.length &&
    (rule.masters.zip other.masters).all fun (mine, theirs) =>
      mine.master = theirs.master && mine.keyName = theirs.keyName && mine.tls = theirs.tls

structure CatalogSpec where
  spec : MasterSpec
  groups : List GroupMaster

inductive Fetch where
  | fromCatalog
  | fromGroup (rule : GroupMaster)
  | ambiguous

namespace CatalogSpec

def fetchFrom (member : CatalogMember) (chosen : Option GroupMaster) : List GroupMaster → Fetch
  | [] =>
    match chosen with
    | some rule => .fromGroup rule
    | none => .fromCatalog
  | rule :: rest =>
    if !member.groups.contains rule.value then fetchFrom member chosen rest
    else match chosen with
      | none => fetchFrom member (some rule) rest
      | some first => if first.fetchesLike rule then fetchFrom member chosen rest else .ambiguous

def fetch (spec : CatalogSpec) (member : CatalogMember) : Fetch := fetchFrom member none spec.groups

def mastersFor (spec : CatalogSpec) (zone : Name) (group : Option Octets) : List MasterSpec :=
  match group.bind fun value => spec.groups.find? fun rule => rule.value = value with
  | some rule => rule.masters.map fun master => master.forMember zone
  | none => [spec.spec.forMember zone]

end CatalogSpec

def Fetch.group : Fetch → Option Octets
  | .fromGroup rule => some rule.value
  | _ => none

def Fetch.masters (spec : CatalogSpec) (zone : Name) : Fetch → List MasterSpec
  | .fromGroup rule => rule.masters.map fun master => master.forMember zone
  | _ => [spec.spec.forMember zone]

/-! ## Zone files -/

structure FilePath where
  fromRoot : Bool
  components : List Text
deriving DecidableEq

def FilePath.ofText (text : Text) : FilePath where
  fromRoot := text.head? = some '/'
  components := (text.splitOn '/').filter fun part => part ≠ [] && part ≠ ['.']

def FilePath.join (dir : FilePath) (text : Text) : FilePath :=
  let path := FilePath.ofText text
  if path.fromRoot then path else ⟨dir.fromRoot, dir.components ++ path.components⟩

def zoneFilePath (dir : FilePath) (zone : Name) : FilePath :=
  dir.join (absolute (toPresentation zone) ++ "zone".toList)

/-! ## The EXPIRE rule -/

def MIN_TIMER_SECS : Nat := 60
def DEFAULT_REFRESH_SECS : Nat := 3600

structure RefreshTimers where
  refresh : Nat
  retry : Nat
  expire : Nat

namespace RefreshTimers

def default : RefreshTimers := ⟨DEFAULT_REFRESH_SECS, MIN_TIMER_SECS, 18446744073709551615⟩

def fromSoa (refresh retry expire : Int32) : RefreshTimers :=
  ⟨max refresh.toInt.toNat MIN_TIMER_SECS, max retry.toInt.toNat MIN_TIMER_SECS, expire.toInt.toNat⟩

def fromZone (zone : Zone) : Option RefreshTimers :=
  match zone.apexSoa with
  | none => none
  | some soa =>
    match soa.rdata.parse with
    | .ok (.soa _ _ _ refresh retry expire _) => some (fromSoa refresh retry expire)
    | _ => none

def hasExpired (timers : RefreshTimers) (lastContact now : Nat) : Bool := timers.expire < now - lastContact

end RefreshTimers

def lastContact (entries : List TransferState) (zone : Text) (masters : List SocketAddr) : Option Nat :=
  ((entries.filter fun e => masters.contains e.master && eqIgnoreCase e.zone zone).map fun e => e.refreshedAt.toNat).max?

/-! ## The process -/

/-- What a start is configured with: the zones named by hand, and the catalogs. -/
structure Configuration where
  dir : FilePath
  secondaries : List MasterSpec
  catalogs : List CatalogSpec

def Configuration.specs (config : Configuration) : List MasterSpec :=
  config.secondaries ++ config.catalogs.map CatalogSpec.spec

/-- `Catalogs`, as far as it is fixed for the life of the process. -/
structure Consumer where
  dir : FilePath
  byZone : Entries Name CatalogSpec
  configured : List Name

inductive Deed where
  | retired (zone : Name)
  | withdrawn (zone : Name)
  | removed (zone : Name) (file : FilePath)
deriving DecidableEq

def Deed.zone : Deed → Name
  | .retired zone => zone
  | .withdrawn zone => zone
  | .removed zone _ => zone

def Deed.file : Deed → Option FilePath
  | .removed _ file => some file
  | _ => none

/-- What moves: the rows, the serials reconciled from, the refresh tasks, the zones served, the
transfer state in memory and on disk, and the sidecar on disk. -/
structure ConsumerState where
  rows : Rows
  reconciled : Entries Name Serial
  tasks : Entries Name (List MasterSpec)
  zones : ZoneMap
  transfers : List TransferState
  transferFile : Option Octets
  sidecar : Option Octets
  done : List Deed
  inherited : List Name

structure ReconcileCall where
  now : Nat
  writes : Text → Bool

namespace ConsumerState

variable (state : ConsumerState)

def replicates (zone : Name) : Bool := (state.tasks.get zone.toFolded).isSome

def retire (zone : Name) : ConsumerState :=
  { state with tasks := state.tasks.remove zone.toFolded, done := state.done ++ [.retired zone] }

def spawn (master : MasterSpec) : ConsumerState :=
  { state with
    tasks := state.tasks.insert master.zone.toFolded ((state.tasks.get master.zone.toFolded).getD [] ++ [master]) }

def withdraw (zone : Name) : ConsumerState :=
  if (state.zones.get zone.toFolded).isNone then state
  else { state with zones := state.zones.remove zone.toFolded, done := state.done ++ [.withdrawn zone] }

def withdrawUnvouched (now : Nat) (zone : Name) (masters : List SocketAddr) : ConsumerState :=
  let timers := ((state.zones.get zone.toFolded).bind RefreshTimers.fromZone).getD .default
  match lastContact (loadState state.transferFile) (toPresentation zone) masters with
  | some last => if timers.hasExpired last now then state.withdraw zone else state
  | none => state.withdraw zone

end ConsumerState

def mastersByZone (specs : List MasterSpec) : List (Name × List SocketAddr) :=
  specs.foldl (fun zones spec => take spec zones) []
where
  take (spec : MasterSpec) : List (Name × List SocketAddr) → List (Name × List SocketAddr)
    | [] => [(spec.zone, [spec.master])]
    | (zone, masters) :: rest =>
      if zone.same spec.zone then (zone, masters ++ [spec.master]) :: rest else (zone, masters) :: take spec rest

def ConsumerState.withdrawUnvouchedZones (state : ConsumerState) (now : Nat) (specs : List MasterSpec) : ConsumerState :=
  (mastersByZone specs).foldl (fun state (zone, masters) => state.withdrawUnvouched now zone masters) state

/-! ## Reconciling -/

inductive Ownership where
  | free
  | taken
  | alreadyHandedOver (owner : Name)
  | handedOver (owner : Name) (reset : Bool)

namespace Consumer

variable (consumer : Consumer)

def ownership (spec : CatalogSpec) (member : CatalogMember) (state : ConsumerState) : Ownership :=
  if consumer.configured.contains member.zone.toFolded then .taken
  else if (consumer.byZone.get member.zone.toFolded).isSome then .taken
  else match state.rows.ownerOf member.zone with
    | none => .free
    | some owner =>
      if owner.same spec.spec.zone then .free
      else if member.coo.any fun coo => coo.same owner then .alreadyHandedOver owner
      else
        -- the old catalog as it is held now
        let handover := do
          let held ← state.zones.get owner.toFolded
          let catalog ← (Catalog.fromZone held).toOption
          let old ← catalog.member member.zone
          if old.coo.any fun coo => coo.same spec.spec.zone then some (!eqIgnoreAsciiCase old.id member.id) else none
        match handover with
        | some reset => .handedOver owner reset
        | none => .taken

def add (call : ReconcileCall) (spec : CatalogSpec) (member : CatalogMember) (fetch : Fetch) (state : ConsumerState) :
    ConsumerState :=
  let masters := fetch.masters spec member.zone
  let state := state.withdrawUnvouchedZones call.now masters
  let state := { state with
    rows := state.rows.set ⟨member.zone, member.node, fetch.group⟩
    inherited := state.inherited.filter fun zone => zone ≠ member.zone.toFolded }
  masters.foldl ConsumerState.spawn state

def remove (call : ReconcileCall) (zone : Name) (state : ConsumerState) : ConsumerState :=
  let state := (state.retire zone).withdraw zone
  let transfers := forgetState (toPresentation zone) state.transfers
  let text := snapshotText transfers
  { state with
    rows := state.rows.forget zone
    inherited := state.inherited.filter fun other => other ≠ zone.toFolded
    transfers
    transferFile := if call.writes text then some (toBytes text) else state.transferFile
    done := state.done ++ [.removed zone (zoneFilePath consumer.dir zone)] }

def applyMember (call : ReconcileCall) (spec : CatalogSpec) (mine : Rows) (state : ConsumerState)
    (member : CatalogMember) : ConsumerState :=
  match spec.fetch member with
  | .ambiguous => state
  | fetch =>
    match mine.rowFor member.zone with
    | some row =>
      if row.node.same member.node then
        if row.group = fetch.group then state
        -- a new group under the same label is a new master
        else add call spec member fetch (state.retire member.zone)
      -- a changed label is a removal and an addition
      else add call spec member fetch (consumer.remove call member.zone state)
    | none =>
      match consumer.ownership spec member state with
      | .free => add call spec member fetch state
      | .taken | .alreadyHandedOver _ => state
      | .handedOver _ reset =>
        add call spec member fetch
          (if reset then consumer.remove call member.zone state else state.retire member.zone)

def apply (call : ReconcileCall) (spec : CatalogSpec) (catalog : Catalog) (state : ConsumerState) : ConsumerState :=
  let mine := state.rows.membersOf spec.spec.zone
  let state := catalog.members.foldl (consumer.applyMember call spec mine) state
  mine.foldl (fun state row =>
    if (catalog.member row.zone).isNone then consumer.remove call row.zone state else state) state

def reconcile (call : ReconcileCall) (zone : Name) (state : ConsumerState) : ConsumerState :=
  let state := { state with done := [] }
  match consumer.byZone.get zone.toFolded, state.zones.get zone.toFolded with
  | some spec, some held =>
    if held.serial.isSome ∧ held.serial = state.reconciled.get zone.toFolded then state
    else match Catalog.fromZone held with
      | .error _ => state
      | .ok catalog =>
        let state := consumer.apply call spec catalog state
        let text := membershipText state.rows
        { state with
          reconciled := match held.serial with
            | some serial => state.reconciled.insert zone.toFolded serial
            | none => state.reconciled
          sidecar := if call.writes text then some (toBytes text) else state.sidecar }
  | _, _ => state

end Consumer

/-! ## Starting -/

structure Process where
  config : Configuration
  consumer : Consumer
  state : ConsumerState

def Process.off : Process := ⟨⟨⟨false, []⟩, [], []⟩, ⟨⟨false, []⟩, [], []⟩, ⟨[], [], [], [], [], none, none, [], []⟩⟩

/-- `main` and `Catalogs::new`: start over the sidecar as it is on disk, with these zones loaded
and this transfer state, up to where the refresh tasks are started. -/
def Process.start (config : Configuration) (zones : ZoneMap) (transferFile : Option Octets) (now : Nat)
    (before : Process) : Process :=
  let rows := loadMembership before.state.sidecar
  let loaded : ConsumerState :=
    { rows, reconciled := [], tasks := [], zones, transfers := loadState transferFile, transferFile,
      sidecar := before.state.sidecar, done := [], inherited := rows.map fun row => row.zone.toFolded }
  let held := loaded.withdrawUnvouchedZones now config.specs
  let byZone := config.catalogs.foldl (fun byZone spec => Entries.insert byZone spec.spec.zone.toFolded spec) []
  let unclaimed := (held.zones.map Prod.fst).filter fun zone => (rows.ownerOf zone).isNone
  -- `vouch_for_members`: by the master each was fetched from
  let vouching := rows.flatMap fun row =>
    match Entries.get byZone (catalogOf row.node).toFolded with
    | some spec => spec.mastersFor row.zone row.group
    | none => []
  ⟨config, ⟨config.dir, byZone, config.specs.map (fun spec => spec.zone.toFolded) ++ unclaimed⟩,
    config.specs.foldl ConsumerState.spawn (held.withdrawUnvouchedZones now vouching)⟩

/-! ## Runs -/

def Keyed (zones : ZoneMap) : Prop := ∀ entry ∈ zones, entry.1 = zoneKey entry.2

/-- What happens: a start, with any configuration; anything else that moves the zones and the
transfer state; and a reconcile. -/
inductive ConsumerEvent where
  | start (config : Configuration) (zones : { zones : ZoneMap // Keyed zones }) (transferFile : Option Octets) (now : Nat)
  | serve (zones : { zones : ZoneMap // Keyed zones }) (transfers : List TransferState) (transferFile : Option Octets)
  | reconcile (call : ReconcileCall) (zone : Name)

def Process.step (process : Process) : ConsumerEvent → Process
  | .start config zones transferFile now => process.start config zones.val transferFile now
  | .serve zones transfers transferFile =>
    { process with state := { process.state with zones := zones.val, transfers, transferFile } }
  | .reconcile call zone => { process with state := process.consumer.reconcile call zone process.state }

/-- **The runs of a catalog consumer**, the last event first. -/
inductive Process.Ran : List ConsumerEvent → Process → Prop where
  | off : Process.Ran [] .off
  | next {events : List ConsumerEvent} {process : Process} (h : Process.Ran events process) (event : ConsumerEvent) :
      Process.Ran (event :: events) (process.step event)

end Rdns.Catalogs
