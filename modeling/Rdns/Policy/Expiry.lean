import Rdns.Policy.PolicyStore
import Rdns.Server.FileRuns

/-!
# Rdns — What EXPIRE does to a transferred feed

`act_on_expiry` and `fetch_and_write` of `rdnsr/src/rpz_transfer.rs` beside the reloads of the
policy store, in any order. A feed whose `on-expire` is `lift` has its file removed, and the
reload that was asked for then cannot read every feed; the contact that follows asks from the
version in force, and an unchanged serial writes nothing.
-/

namespace Rdns.Policy

open Rdns.Lib Rdns.Core Rdns.Present Rdns.Zones Rdns.Dnssec Rdns.Server RecordTypes

/-! ## The feeds and their files -/

inductive OnExpire where
  | enforce
  | lift
deriving DecidableEq

structure TransferredFeed where
  zone : Name
  file : String
  onExpire : OnExpire

structure FeedSetup where
  reader : FeedReader
  feeds : List Feed
  transferred : List TransferredFeed

/-- The disk and the store; beside them every contents a file had, and of the feeds that were
lifted the ones not transferred since and the ones whose master answered since. -/
structure FeedSystem where
  disk : Disk
  store : PolicyStore
  contents : List (String × Octets)
  lifted : List String
  answered : List String

/-- What a master says to a refresh: that the serial is current, or another version. -/
inductive Refresh where
  | current
  | fetched (zone : Zone)

namespace FeedSystem

variable (setup : FeedSetup) (system : FeedSystem)

def written (path : String) (raw : Octets) : FeedSystem :=
  { system with disk := system.disk.write path raw, contents := (path, raw) :: system.contents }

def actOnExpiry (feed : TransferredFeed) (removed : Bool) : FeedSystem :=
  match feed.onExpire with
  | .enforce => system
  | .lift =>
    { system with
      disk := if removed then { system.disk with
        read := fun path => if path = feed.file then none else system.disk.read path } else system.disk
      lifted := feed.file :: system.lifted
      answered := system.answered.filter (· ≠ feed.file) }

/-- `fetch_and_write`, with what the master says. -/
def fetchAndWrite (feed : TransferredFeed) (refresh : Refresh) : FeedSystem :=
  let heard : FeedSystem := { system with answered := feed.file :: system.answered }
  match refresh with
  | .current => heard
  | .fetched zone =>
    match zoneToString setup.reader.b64 zone with
    | .error _ => system
    | .ok text =>
      let raw := toBytes text
      { heard.written feed.file raw with
        store := PolicyStore.offer setup.reader system.store feed.file raw zone
        lifted := system.lifted.filter (· ≠ feed.file) }

def reload : FeedSystem :=
  { system with store := (PolicyStore.reload setup.reader system.disk system.store).1 }

end FeedSystem

inductive FeedEvent where
  | contact (feed : TransferredFeed) (refresh : Refresh)
  | expiry (feed : TransferredFeed) (removed : Bool)
  | edit (path : String) (raw : Octets)
  | reload

def FeedSystem.step (setup : FeedSetup) (system : FeedSystem) : FeedEvent → FeedSystem
  | .contact feed refresh => system.fetchAndWrite setup feed refresh
  | .expiry feed removed => system.actOnExpiry feed removed
  | .edit path raw => system.written path raw
  | .reload => system.reload setup

def Readable (setup : FeedSetup) (feed : Feed) (raw : Octets) : Prop :=
  ∃ text zone, fromUtf8 raw = some text ∧ PolicyZone.parse setup.reader feed raw text = .ok zone

def FeedSystem.May (setup : FeedSetup) (system : FeedSystem) : FeedEvent → Prop
  | .contact feed .current => feed ∈ setup.transferred ∧ (system.store.current.held feed.zone).isSome = true
  | .contact feed (.fetched _) => feed ∈ setup.transferred
  | .expiry feed _ => feed ∈ setup.transferred
  | .edit path raw => path ∉ system.lifted ∧ ∃ feed ∈ setup.feeds, feed.path = path ∧ Readable setup feed raw
  | .reload => True

/-- **The runs**, the last event first, each beside what it found. -/
inductive FeedSystem.Ran (setup : FeedSetup) : List (FeedEvent × FeedSystem) → FeedSystem → Prop where
  | start {disk : Disk} {store : PolicyStore} (h : PolicyStore.load setup.reader disk setup.feeds = .ok store) :
      Ran setup [] ⟨disk, store,
        setup.feeds.filterMap fun feed => (disk.read feed.path).map fun raw => (feed.path, raw), [], []⟩
  | step {trace : List (FeedEvent × FeedSystem)} {system : FeedSystem} {event : FeedEvent}
      (h : Ran setup trace system) (hmay : system.May setup event) :
      Ran setup ((event, system) :: trace) (system.step setup event)

/-! ## What the operator asked for -/

def Holds (reader : FeedReader) (path : String) (raw : Octets) (zone : Zone) : Prop :=
  (∃ text, fromUtf8 raw = some text ∧
    parseZoneFile reader.b64 reader.fs (reader.base path) text (originFromPath path) = .ok zone) ∨
  ∃ text, zoneToString reader.b64 zone = .ok text ∧ raw = toBytes text

def Enforces (reader : FeedReader) (path : String) (policy : PolicyOverride) (raw : Octets) (indexed : PolicyZone) :
    Prop :=
  ∃ zone, Holds reader path raw zone ∧
    (PolicyZone.new zone policy).toOption = some { indexed with readFrom := none }

/-- **`on-expire` is obeyed**: in force are the feeds but for those lifted and not transferred
since, in order, each with the contents of its file; and a lifted feed whose master answered since
is among them. -/
structure Obeyed (setup : FeedSetup) (system : FeedSystem) : Prop where
  inForce : List.Forall₂ (fun (feed : Feed) indexed => ∃ raw, system.disk.read feed.path = some raw ∧
      Enforces setup.reader feed.path feed.policy raw indexed)
    (setup.feeds.filter fun feed => feed.path ∉ system.lifted) system.store.current.zones
  restored : ∀ path ∈ system.answered, path ∉ system.lifted

/-- No feed is lifted and not transferred since, and every feed's file reads as a policy zone. -/
structure Whole (setup : FeedSetup) (system : FeedSystem) : Prop where
  lifted : system.lifted = []
  readable : ∀ feed ∈ setup.feeds, ∃ raw, system.disk.read feed.path = some raw ∧ Readable setup feed raw

def Distinguishes (reader : FeedReader) (contents : List (String × Octets)) : Prop :=
  ∀ path a b, (path, a) ∈ contents → (path, b) ∈ contents → reader.digestOf a = reader.digestOf b → a = b

/-! ## Where what is in force comes from -/

def TracedZone (reader : FeedReader) (contents : List (String × Octets)) (indexed : PolicyZone) : Prop :=
  ∀ path digest, indexed.readFrom = some ⟨path, digest⟩ →
    ∃ raw, (path, raw) ∈ contents ∧ reader.digestOf raw = digest ∧ Enforces reader path indexed.policy raw indexed

structure FeedSystem.Traced (setup : FeedSetup) (system : FeedSystem) : Prop where
  feeds : system.store.feeds = setup.feeds
  current : ∀ zone ∈ system.store.current.zones, TracedZone setup.reader system.contents zone
  offered : ∀ zone ∈ system.store.offered, TracedZone setup.reader system.contents zone
  files : ∀ feed ∈ setup.feeds, ∀ raw, system.disk.read feed.path = some raw → (feed.path, raw) ∈ system.contents

section Traced

variable {reader : FeedReader} {setup : FeedSetup} {system : FeedSystem} {contents : List (String × Octets)}

variable {indexed : PolicyZone} {raw : Octets} {zone : Zone}

theorem TracedZone.mono {more : List (String × Octets)} (hmore : contents ⊆ more)
    (h : TracedZone reader contents indexed) : TracedZone reader more indexed := by
  intro path digest hfrom
  obtain ⟨raw, hraw, hrest⟩ := h path digest hfrom
  exact ⟨raw, hmore hraw, hrest⟩

theorem new_readFrom {policy : PolicyOverride} (h : PolicyZone.new zone policy = .ok indexed) :
    indexed.readFrom = none ∧ indexed.policy = policy := by
  rw [PolicyZone.new] at h
  split at h
  · cases h
  · grind

theorem of_ofSelfContained {digestOf : Octets → FileDigest} {digest : FileDigest}
    (h : ofSelfContained digestOf raw = some digest) : digestOf raw = digest := by
  rw [ofSelfContained] at h
  split at h
  · cases h
  · exact Option.some.inj h

theorem of_fromText {policy : PolicyOverride} {path : String} (hholds : Holds reader path raw zone)
    (h : PolicyZone.fromText reader zone policy path raw = .ok indexed) :
    Enforces reader path policy raw indexed ∧ indexed.policy = policy ∧
      ((path, raw) ∈ contents → TracedZone reader contents indexed) := by
  rw [PolicyZone.fromText] at h
  obtain ⟨made, hmade, h⟩ := except_bind_eq_ok.mp h
  cases h
  obtain ⟨hnone, rfl⟩ := new_readFrom hmade
  have hback : { made with readFrom := none } = made := by
    rw [← hnone]
  have henforces : Enforces reader path made.policy raw
      { made with readFrom := (ofSelfContained reader.digestOf raw).map (ReadFrom.mk path) } := by
    refine ⟨zone, hholds, ?_⟩
    show _ = some { made with readFrom := none }
    rw [hmade, hback]
    rfl
  refine ⟨henforces, rfl, fun hmem path' digest hfrom => ?_⟩
  obtain ⟨found, hfound, heq⟩ := Option.map_eq_some_iff.mp hfrom
  cases heq
  exact ⟨raw, hmem, of_ofSelfContained hfound, henforces⟩

theorem of_parse {feed : Feed} {text : Text} (htext : fromUtf8 raw = some text)
    (h : PolicyZone.parse reader feed raw text = .ok indexed) :
    Enforces reader feed.path feed.policy raw indexed ∧
      ((feed.path, raw) ∈ contents → TracedZone reader contents indexed) := by
  unfold PolicyZone.parse at h
  split at h
  · cases h
  · next zone hzone =>
    obtain ⟨henforces, -, htraced⟩ := of_fromText (.inl ⟨text, htext, hzone⟩) h
    exact ⟨henforces, htraced⟩

/-- **What a reload reads for a feed** enforces the file as it is now, where the digest tells the
contents apart. -/
theorem of_readAgain {disk : Disk} {held offered : PolicyZones} {feed : Feed}
    (hheld : ∀ zone ∈ held.zones, TracedZone reader contents zone)
    (hoffered : ∀ zone ∈ offered.zones, TracedZone reader contents zone)
    (hfile : ∀ raw, disk.read feed.path = some raw → (feed.path, raw) ∈ contents)
    (h : PolicyZones.readAgain reader disk held offered feed = .ok indexed) :
    TracedZone reader contents indexed ∧
      (Distinguishes reader contents → ∃ raw, disk.read feed.path = some raw ∧
        Enforces reader feed.path feed.policy raw indexed) := by
  obtain ⟨raw, text, hread, htext, hcase⟩ := PolicyZones.of_readAgain h
  have hmem := hfile raw hread
  rcases hcase with ⟨hin, hpolicy, digest, hdigest, hfrom⟩ | hparse
  · have htraced : TracedZone reader contents indexed := hin.elim (hheld indexed) (hoffered indexed)
    refine ⟨htraced, fun hdistinct => ?_⟩
    obtain ⟨before, hbefore, hsame, henforces⟩ := htraced feed.path digest hfrom
    have heq : before = raw :=
      hdistinct feed.path before raw hbefore hmem (hsame.trans (of_ofSelfContained hdigest).symm)
    rw [heq, hpolicy] at henforces
    exact ⟨raw, hread, henforces⟩
  · obtain ⟨henforces, htraced⟩ := of_parse htext hparse
    exact ⟨htraced hmem, fun _ => ⟨raw, hread, henforces⟩⟩

theorem FeedSystem.Traced.written (h : system.Traced setup) (path : String) (raw : Octets) :
    (system.written path raw).Traced setup where
  feeds := h.feeds
  current := fun zone hzone => (h.current zone hzone).mono (List.subset_cons_self _ _)
  offered := fun zone hzone => (h.offered zone hzone).mono (List.subset_cons_self _ _)
  files := by
    intro feed hfeed found hfound
    have hwrite : (if feed.path = path then some raw else system.disk.read feed.path) = some found := hfound
    split at hwrite
    · next hpath =>
      cases hwrite
      rw [hpath]
      exact List.mem_cons_self
    · exact List.mem_cons_of_mem _ (h.files feed hfeed found hwrite)

theorem offer_feeds (store : PolicyStore) (path : String) (raw : Octets) (zone : Zone) :
    (store.offer reader path raw zone).feeds = store.feeds ∧
      (store.offer reader path raw zone).current = store.current := by
  rw [PolicyStore.offer]
  split
  · exact ⟨rfl, rfl⟩
  · split
    · exact ⟨rfl, rfl⟩
    · exact ⟨rfl, rfl⟩

theorem mem_offer {store : PolicyStore} {path : String}
    (h : indexed ∈ (store.offer reader path raw zone).offered) :
    indexed ∈ store.offered ∨ ∃ policy, PolicyZone.fromText reader zone policy path raw = .ok indexed := by
  rw [PolicyStore.offer] at h
  split at h
  · exact .inl h
  · grind

theorem FeedSystem.Traced.fetchAndWrite (h : system.Traced setup) (feed : TransferredFeed) (refresh : Refresh) :
    (system.fetchAndWrite setup feed refresh).Traced setup := by
  unfold FeedSystem.fetchAndWrite
  split
  · exact ⟨h.feeds, h.current, h.offered, h.files⟩
  · next zone =>
    split
    · exact h
    · next text htext =>
      have hwritten := h.written feed.file (toBytes text)
      refine ⟨?_, ?_, ?_, hwritten.files⟩
      · show (system.store.offer setup.reader feed.file (toBytes text) zone).feeds = setup.feeds
        rw [(offer_feeds system.store feed.file (toBytes text) zone).1, h.feeds]
      · show ∀ zone' ∈ (system.store.offer setup.reader feed.file (toBytes text) zone).current.zones, _
        rw [(offer_feeds system.store feed.file (toBytes text) zone).2]
        exact hwritten.current
      · intro indexed hindexed
        rcases mem_offer hindexed with hold | ⟨policy, hnew⟩
        · exact hwritten.offered indexed hold
        · exact (of_fromText (.inr ⟨text, htext, rfl⟩) hnew).2.2 List.mem_cons_self

theorem FeedSystem.Traced.actOnExpiry (h : system.Traced setup) (feed : TransferredFeed) (removed : Bool) :
    (system.actOnExpiry feed removed).Traced setup := by
  rw [FeedSystem.actOnExpiry]
  split
  · exact h
  · refine ⟨h.feeds, h.current, h.offered, fun other hother raw hraw => ?_⟩
    cases removed with
    | false => exact h.files other hother raw hraw
    | true =>
      have hread : (if other.path = feed.file then none else system.disk.read other.path) = some raw := hraw
      split at hread
      · cases hread
      · exact h.files other hother raw hread

theorem FeedSystem.Traced.reload (h : system.Traced setup) : (system.reload setup).Traced setup := by
  cases hreload : PolicyZones.reload setup.reader system.disk system.store.feeds system.store.current
      ⟨system.store.offered⟩ with
  | error e =>
    have hstore : (system.reload setup).store = { system.store with offered := [] } := by
      rw [FeedSystem.reload, PolicyStore.reload, hreload]
    refine ⟨?_, ?_, ?_, h.files⟩
    · rw [hstore]
      exact h.feeds
    · rw [hstore]
      exact h.current
    · rw [hstore]
      exact fun _ hzone => absurd hzone List.not_mem_nil
  | ok zones =>
    have hstore : (system.reload setup).store = { system.store with current := zones, offered := [] } := by
      rw [FeedSystem.reload, PolicyStore.reload, hreload]
    refine ⟨?_, ?_, ?_, h.files⟩
    · rw [hstore]
      exact h.feeds
    · rw [hstore]
      intro zone hzone
      rw [PolicyZones.reload] at hreload
      obtain ⟨found, hfound, heq⟩ := except_bind_eq_ok.mp hreload
      cases heq
      obtain ⟨feed, hfeed, hagain⟩ := mem_of_mapM_ok hfound hzone
      rw [h.feeds] at hfeed
      exact (of_readAgain h.current h.offered (h.files feed hfeed) hagain).1
    · rw [hstore]
      exact fun _ hzone => absurd hzone List.not_mem_nil

/-- **Every zone in force or offered is what its file once held**, in every run. -/
theorem FeedSystem.Ran.traced {trace : List (FeedEvent × FeedSystem)} (h : Ran setup trace system) :
    system.Traced setup := by
  induction h with
  | @start disk store hload =>
    rw [PolicyStore.load] at hload
    obtain ⟨zones, hzones, heq⟩ := except_bind_eq_ok.mp hload
    cases heq
    have hfiles : ∀ feed ∈ setup.feeds, ∀ raw, disk.read feed.path = some raw →
        (feed.path, raw) ∈ setup.feeds.filterMap fun feed => (disk.read feed.path).map fun raw => (feed.path, raw) := by
      intro feed hfeed raw hread
      refine List.mem_filterMap.mpr ⟨feed, hfeed, ?_⟩
      rw [hread]
      rfl
    refine ⟨rfl, fun zone hzone => ?_, fun _ hzone => absurd hzone List.not_mem_nil, hfiles⟩
    rw [PolicyZones.load, PolicyZones.reload] at hzones
    obtain ⟨found, hfound, heq⟩ := except_bind_eq_ok.mp hzones
    cases heq
    obtain ⟨feed, hfeed, hagain⟩ := mem_of_mapM_ok hfound hzone
    exact (of_readAgain (fun _ h => absurd h List.not_mem_nil) (fun _ h => absurd h List.not_mem_nil) (hfiles feed hfeed) hagain).1
  | @step trace system event _ hmay ih =>
    cases event with
    | contact feed refresh => exact ih.fetchAndWrite feed refresh
    | expiry feed removed => exact ih.actOnExpiry feed removed
    | edit path raw => exact ih.written path raw
    | reload => exact ih.reload

theorem FeedSystem.Ran.before {trace : List (FeedEvent × FeedSystem)} (h : Ran setup trace system)
    {event : FeedEvent} {earlier : FeedSystem} (hmem : (event, earlier) ∈ trace) :
    earlier.Traced setup ∧ earlier.contents ⊆ system.contents := by
  induction h with
  | start _ => cases hmem
  | @step trace system last hrun hmay ih =>
    have hgrows : system.contents ⊆ (system.step setup last).contents := by
      cases last with
      | contact feed refresh =>
        show system.contents ⊆ (system.fetchAndWrite setup feed refresh).contents
        unfold FeedSystem.fetchAndWrite
        split
        · exact List.Subset.refl _
        · split
          · exact List.Subset.refl _
          · exact List.subset_cons_self _ _
      | expiry feed removed =>
        show system.contents ⊆ (system.actOnExpiry feed removed).contents
        rw [FeedSystem.actOnExpiry]
        split
        · exact List.Subset.refl _
        · exact List.Subset.refl _
      | edit path raw => exact List.subset_cons_self _ _
      | reload => exact List.Subset.refl _
    rcases List.mem_cons.mp hmem with heq | hmem
    · cases heq
      exact ⟨hrun.traced, hgrows⟩
    · obtain ⟨htraced, hsubset⟩ := ih hmem
      exact ⟨htraced, fun entry hentry => hgrows (hsubset hentry)⟩

end Traced

/-! ## After a reload -/

/-- **A reload that finds every file installs every file.** -/
theorem obeyed_of_whole {setup : FeedSetup} {system : FeedSystem} (htraced : system.Traced setup)
    (hdistinct : Distinguishes setup.reader system.contents) (hwhole : Whole setup system) :
    Obeyed setup (system.reload setup) := by
  have hnone : ∀ path, path ∉ system.lifted := by
    intro path
    rw [hwhole.lifted]
    exact List.not_mem_nil
  refine ⟨?_, fun path _ => hnone path⟩
  have hall : (setup.feeds.filter fun feed => feed.path ∉ (system.reload setup).lifted) = setup.feeds :=
    List.filter_eq_self.mpr fun feed _ => decide_eq_true (hnone feed.path)
  rw [hall]
  cases hreload : PolicyZones.reload setup.reader system.disk system.store.feeds system.store.current
      ⟨system.store.offered⟩ with
  | error e =>
    -- each feed is read, so that all are
    rw [htraced.feeds, PolicyZones.reload] at hreload
    have hok : ∃ zones, setup.feeds.mapM (PolicyZones.readAgain setup.reader system.disk system.store.current
        ⟨system.store.offered⟩) = .ok zones := by
      refine mapM_isOk fun feed hfeed => ?_
      obtain ⟨raw, hread, text, zone, htext, hparse⟩ := hwhole.readable feed hfeed
      exact PolicyZones.exists_readAgain hread htext hparse
    obtain ⟨zones, hzones⟩ := hok
    rw [hzones] at hreload
    cases hreload
  | ok zones =>
    have hstore : (system.reload setup).store = { system.store with current := zones, offered := [] } := by
      rw [FeedSystem.reload, PolicyStore.reload, hreload]
    rw [hstore]
    have hread := PolicyZones.reload_ok hreload
    rw [htraced.feeds] at hread
    refine hread.imp fun feed indexed hagain => ?_
    exact (of_readAgain htraced.current htraced.offered (htraced.files feed hagain.1) hagain.2).2 hdistinct

/-- **`on-expire` is obeyed after every reload**, where no reload meets a feed that is lifted and
not transferred since or a file that is no policy zone, and the digest tells the contents of a
file apart. -/
theorem obeyed_after_reload {setup : FeedSetup} {trace : List (FeedEvent × FeedSystem)} {system : FeedSystem}
    (h : FeedSystem.Ran setup trace system) (hdistinct : Distinguishes setup.reader system.contents)
    (hwhole : ∀ before, (FeedEvent.reload, before) ∈ trace → Whole setup before) :
    ∀ before, (FeedEvent.reload, before) ∈ trace → Obeyed setup (before.step setup .reload) := by
  intro before hmem
  obtain ⟨htraced, hsubset⟩ := h.before hmem
  refine obeyed_of_whole htraced (fun path a b ha hb => ?_) (hwhole before hmem)
  exact hdistinct path a b (hsubset ha) (hsubset hb)

/-! ## One feed -/

def blockText : Text := bareText ++ "\nwww 60 IN CNAME .".toList

def blockFeed : Feed := ⟨".zone", .given⟩

def liftedFeed : TransferredFeed := ⟨.root, ".zone", .lift⟩

def blockSetup : FeedSetup :=
  ⟨⟨noBase64, fun raw => UInt64.ofNat raw.length, noFiles, fun _ => none⟩, [blockFeed], [liftedFeed]⟩

def feedDisk (text : Text) : Disk := ⟨fun path => if path = ".zone" then some (toBytes text) else none, fun _ => none⟩

def wwwName : Name := ⟨[[119, 119, 119]], by decide, by decide⟩

theorem ok_of_toOption {ε α : Type} {x : Except ε α} {a : α} (h : x.toOption = some a) : x = .ok a := by
  cases x with
  | error e => cases h
  | ok b => rw [Option.some.inj h]

theorem blockText_parses : ∃ zone, PolicyZone.parse blockSetup.reader blockFeed (toBytes blockText) blockText = .ok zone ∧
    zone.qnameAction wwwName (.of A) = some .nxdomain := by
  have hparse : ((PolicyZone.parse blockSetup.reader blockFeed (toBytes blockText) blockText).toOption.map
      fun zone => zone.qnameAction wwwName (.of A)) = some (some .nxdomain) := by
    decide +kernel
  obtain ⟨zone, hzone, haction⟩ := Option.map_eq_some_iff.mp hparse
  exact ⟨zone, ok_of_toOption hzone, haction⟩

theorem bareText_parses : Readable blockSetup blockFeed bareFile := by
  have hparse : ((PolicyZone.parse blockSetup.reader blockFeed bareFile bareText).toOption.isSome) = true := by
    decide +kernel
  obtain ⟨zone, hzone⟩ := Option.isSome_iff_exists.mp hparse
  exact ⟨bareText, zone, fromUtf8_toBytes bareText, ok_of_toOption hzone⟩

def blockLoaded (zone : PolicyZone) : FeedSystem :=
  ⟨feedDisk blockText, ⟨[blockFeed], ⟨[zone]⟩, []⟩, [(".zone", toBytes blockText)], [], []⟩

theorem reload_feedDisk {text : Text} {held : PolicyZones} {zone : PolicyZone}
    (hkept : held.kept blockFeed (ofSelfContained blockSetup.reader.digestOf (toBytes text)) = none)
    (hparse : PolicyZone.parse blockSetup.reader blockFeed (toBytes text) text = .ok zone) :
    PolicyZones.reload blockSetup.reader (feedDisk text) [blockFeed] held ⟨[]⟩ = .ok ⟨[zone]⟩ := by
  have hfeed : readFeed (feedDisk text) blockFeed.path = .ok (toBytes text, text) := by
    have hread : (feedDisk text).read blockFeed.path = some (toBytes text) := rfl
    rw [readFeed, hread]
    dsimp only
    rw [fromUtf8_toBytes]
  rw [PolicyZones.reload, List.mapM_cons, PolicyZones.readAgain_changed hfeed hkept, hparse]
  rfl

theorem load_feedDisk {text : Text} {zone : PolicyZone}
    (hparse : PolicyZone.parse blockSetup.reader blockFeed (toBytes text) text = .ok zone) :
    PolicyStore.load blockSetup.reader (feedDisk text) [blockFeed] = .ok ⟨[blockFeed], ⟨[zone]⟩, []⟩ := by
  rw [PolicyStore.load, PolicyZones.load, reload_feedDisk (PolicyZones.kept_nil _) hparse]
  rfl

theorem blockLoaded_ran : ∃ zone, FeedSystem.Ran blockSetup [] (blockLoaded zone) ∧
    zone.qnameAction wwwName (.of A) = some .nxdomain := by
  obtain ⟨zone, hparse, haction⟩ := blockText_parses
  exact ⟨zone, .start (load_feedDisk hparse), haction⟩

theorem distinguishes_of_nodup {reader : FeedReader} {contents : List (String × Octets)}
    (h : (contents.map fun entry => reader.digestOf entry.2).Nodup) : Distinguishes reader contents :=
  fun _ _ _ ha hb hdigest => congrArg Prod.snd (List.inj_on_of_nodup_map h ha hb hdigest)

def fileDigests (text : Text) : List FileDigest :=
  [toBytes text, bareFile, toBytes blockText].map blockSetup.reader.digestOf

/-- What a transfer writes reads as a policy zone. -/
theorem transferred_readable : ∃ zone text, zoneToString blockSetup.reader.b64 zone = .ok text ∧
    Readable blockSetup blockFeed (toBytes text) ∧ (fileDigests text).Nodup := by
  have hwrites : (((parseZoneFile noBase64 noFiles none blockText (originFromPath ".zone")).toOption.bind fun zone =>
      (zoneToString noBase64 zone).toOption).map fun text =>
        ((PolicyZone.parse blockSetup.reader blockFeed (toBytes text) text).toOption.isSome,
          decide (fileDigests text).Nodup)) = some (true, true) := by
    decide +kernel
  obtain ⟨text, htext, heq⟩ := Option.map_eq_some_iff.mp hwrites
  obtain ⟨zone, -, hzone⟩ := Option.bind_eq_some_iff.mp htext
  rw [Prod.mk.injEq] at heq
  obtain ⟨indexed, hindexed⟩ := Option.isSome_iff_exists.mp heq.1
  exact ⟨zone, text, ok_of_toOption hzone, ⟨text, indexed, fromUtf8_toBytes text, ok_of_toOption hindexed⟩,
    of_decide_eq_true heq.2⟩

theorem obeyed_after_reload_transfer : ∃ trace system before, FeedSystem.Ran blockSetup trace system ∧
    (FeedEvent.reload, before) ∈ trace ∧ Obeyed blockSetup (before.step blockSetup .reload) := by
  obtain ⟨loaded, hstart, -⟩ := blockLoaded_ran
  obtain ⟨zone, text, htext, hreadable, hdigests⟩ := transferred_readable
  have hrun₁ := hstart.step (show (blockLoaded loaded).May blockSetup (.edit ".zone" bareFile) from
    ⟨List.not_mem_nil, blockFeed, List.mem_singleton.mpr rfl, rfl, bareText_parses⟩)
  have hrun₂ := hrun₁.step (show FeedSystem.May _ _ (.expiry liftedFeed true) from List.mem_singleton.mpr rfl)
  have hrun₃ := hrun₂.step (show FeedSystem.May _ _ (.contact liftedFeed (.fetched zone)) from
    List.mem_singleton.mpr rfl)
  set lifted := ((blockLoaded loaded).step blockSetup (.edit ".zone" bareFile)).step blockSetup
    (.expiry liftedFeed true) with hlifted
  have hfetched : lifted.step blockSetup (.contact liftedFeed (.fetched zone)) =
      { ({ lifted with answered := [".zone"] }).written ".zone" (toBytes text) with
        store := PolicyStore.offer blockSetup.reader lifted.store ".zone" (toBytes text) zone
        lifted := [] } := by
    show lifted.fetchAndWrite blockSetup liftedFeed (.fetched zone) = _
    rw [FeedSystem.fetchAndWrite]
    dsimp only
    rw [htext]
    rfl
  rw [hfetched] at hrun₃
  have hrun := hrun₃.step (show FeedSystem.May blockSetup _ .reload from trivial)
  refine ⟨_, _, _, hrun, List.mem_cons_self, obeyed_after_reload hrun ?_ ?_ _ List.mem_cons_self⟩
  · exact distinguishes_of_nodup hdigests
  · intro before hmem
    rcases List.mem_cons.mp hmem with heq | hmem
    · cases heq
      refine ⟨rfl, fun feed hfeed => ?_⟩
      rw [List.mem_singleton.mp hfeed]
      exact ⟨toBytes text, rfl, hreadable⟩
    · grind

/-- **A lifted feed's rules stay in force**: its file is gone, and so no reload succeeds. -/
theorem lifted_stays_in_force : ∃ trace system before zone, FeedSystem.Ran blockSetup trace system ∧
    Distinguishes blockSetup.reader system.contents ∧ (FeedEvent.reload, before) ∈ trace ∧
    blockFeed.path ∈ before.lifted ∧ zone ∈ (before.step blockSetup .reload).store.current.zones ∧
    zone.qnameAction wwwName (.of A) = some .nxdomain ∧
    ¬ Obeyed blockSetup (before.step blockSetup .reload) := by
  obtain ⟨zone, hstart, haction⟩ := blockLoaded_ran
  have hexpiry : (blockLoaded zone).May blockSetup (.expiry liftedFeed true) := List.mem_singleton.mpr rfl
  set before := (blockLoaded zone).step blockSetup (.expiry liftedFeed true) with hbefore
  have hreload : before.May blockSetup .reload := trivial
  have hrun := (hstart.step hexpiry).step hreload
  have hstays : (before.step blockSetup .reload).store.current = ⟨[zone]⟩ := by
    have hmissing : ∃ e, PolicyZones.reload blockSetup.reader before.disk [blockFeed] before.store.current
        ⟨before.store.offered⟩ = .error e :=
      PolicyZones.reload_of_missing (List.mem_singleton.mpr rfl) rfl
    obtain ⟨e, he⟩ := hmissing
    show (PolicyStore.reload blockSetup.reader before.disk before.store).1.current = ⟨[zone]⟩
    have hfeeds : before.store.feeds = [blockFeed] := rfl
    rw [PolicyStore.reload, hfeeds, he]
    rfl
  refine ⟨_, _, _, zone, hrun, ?_, List.mem_cons_self, List.mem_cons_self, ?_, haction, fun hobeyed => ?_⟩
  · intro path a b ha hb _
    exact (congrArg Prod.snd (List.mem_singleton.mp ha)).trans (congrArg Prod.snd (List.mem_singleton.mp hb)).symm
  · rw [hstays]
    exact List.mem_singleton.mpr rfl
  · have hnone := hobeyed.inForce
    rw [hstays] at hnone
    cases hnone

end Rdns.Policy
