import Rdns.Policy.PolicyZone

/-!
# Rdns — The policy zones in force

`PolicyStore` of `rdns/src/rpz.rs`: the feeds, the set read from their files, and the zones this
process wrote to a file and has not installed yet. A reload reads every file or changes nothing,
and reads again only what has moved.
-/

namespace Rdns.Policy

open Rdns.Lib Rdns.Core Rdns.Present Rdns.Zones Rdns.Dnssec Rdns.Server

/-! ## Reading a feed -/

structure Feed where
  path : String
  policy : PolicyOverride
deriving DecidableEq

structure FeedReader where
  b64 : Base64
  digestOf : Octets → FileDigest
  fs : FileSystem
  base : String → Option fs.Path

def readFeed (disk : Disk) (path : String) : Except PolicyError (Octets × Text) :=
  match disk.read path with
  | none => .error (.unreadable path)
  | some raw =>
    match fromUtf8 raw with
    | none => .error (.unreadable path)
    | some text => .ok (raw, text)

def PolicyZone.fromText (reader : FeedReader) (zone : Zone) (policy : PolicyOverride) (path : String)
    (raw : Octets) : Except PolicyError PolicyZone := do
  let indexed ← PolicyZone.new zone policy
  return { indexed with readFrom := (ofSelfContained reader.digestOf raw).map (ReadFrom.mk path) }

def PolicyZone.parse (reader : FeedReader) (feed : Feed) (raw : Octets) (text : Text) :
    Except PolicyError PolicyZone :=
  match parseZoneFile reader.b64 reader.fs (reader.base feed.path) text (originFromPath feed.path) with
  | .error e => .error (.zoneFile feed.path e)
  | .ok zone => PolicyZone.fromText reader zone feed.policy feed.path raw

/-! ## Reading the set again -/

namespace PolicyZones

def kept (policy : PolicyZones) (feed : Feed) (digest : Option FileDigest) : Option PolicyZone :=
  digest.bind fun digest =>
    policy.zones.find? fun zone => zone.policy = feed.policy ∧ zone.readFrom = some ⟨feed.path, digest⟩

def readAgain (reader : FeedReader) (disk : Disk) (held offered : PolicyZones) (feed : Feed) :
    Except PolicyError PolicyZone := do
  let (raw, text) ← readFeed disk feed.path
  let digest := ofSelfContained reader.digestOf raw
  match (held.kept feed digest).or (offered.kept feed digest) with
  | some zone => return zone
  | none => PolicyZone.parse reader feed raw text

def reload (reader : FeedReader) (disk : Disk) (feeds : List Feed) (held offered : PolicyZones) :
    Except PolicyError PolicyZones := do
  let zones ← feeds.mapM (readAgain reader disk held offered)
  return ⟨zones⟩

def load (reader : FeedReader) (disk : Disk) (feeds : List Feed) : Except PolicyError PolicyZones :=
  reload reader disk feeds ⟨[]⟩ ⟨[]⟩

def delegationVersions (policy : PolicyZones) : List (Name × Option Serial) :=
  (policy.zones.filter PolicyZone.watchesDelegations).map fun zone => (zone.origin, zone.zone.serial)

end PolicyZones

def sameVersions : List (Name × Option Serial) → List (Name × Option Serial) → Bool
  | [], [] => true
  | a :: as, b :: bs => a.1.same b.1 && a.2 == b.2 && sameVersions as bs
  | _, _ => false

structure PolicyStore where
  feeds : List Feed
  current : PolicyZones
  offered : List PolicyZone

structure Reloaded where
  zones : PolicyZones
  delegationRulesChanged : Bool

namespace PolicyStore

def load (reader : FeedReader) (disk : Disk) (feeds : List Feed) : Except PolicyError PolicyStore := do
  let zones ← PolicyZones.load reader disk feeds
  return ⟨feeds, zones, []⟩

def offer (reader : FeedReader) (store : PolicyStore) (path : String) (raw : Octets) (zone : Zone) : PolicyStore :=
  match store.feeds.find? fun feed => feed.path = path with
  | none => store
  | some feed =>
    match PolicyZone.fromText reader zone feed.policy path raw with
    | .error _ => store
    | .ok indexed =>
      let others := store.offered.filter fun zone =>
        !(decide (zone.readFrom.map ReadFrom.path = some path)) || decide (zone.policy ≠ feed.policy)
      { store with offered := others ++ [indexed] }

def reload (reader : FeedReader) (disk : Disk) (store : PolicyStore) :
    PolicyStore × Except PolicyError Reloaded :=
  match PolicyZones.reload reader disk store.feeds store.current ⟨store.offered⟩ with
  | .error e => ({ store with offered := [] }, .error e)
  | .ok zones =>
    ({ store with current := zones, offered := [] },
      .ok ⟨zones, !sameVersions zones.delegationVersions store.current.delegationVersions⟩)

end PolicyStore

/-! ## What a reload makes of the files -/

section

variable {reader : FeedReader} {disk : Disk} {feeds : List Feed} {held offered : PolicyZones} {feed : Feed}

variable {zone : PolicyZone} {raw : Octets} {text : Text}

theorem PolicyZones.of_kept {policy : PolicyZones} {digest : Option FileDigest}
    (h : policy.kept feed digest = some zone) :
    zone ∈ policy.zones ∧ zone.policy = feed.policy ∧
      ∃ found, digest = some found ∧ zone.readFrom = some ⟨feed.path, found⟩ := by
  obtain ⟨found, hfound, hfind⟩ := Option.bind_eq_some_iff.mp h
  have hmatch := List.find?_some hfind
  rw [decide_eq_true_eq] at hmatch
  exact ⟨List.mem_of_find?_eq_some hfind, hmatch.1, found, hfound, hmatch.2⟩

theorem readFeed_ok {path : String} (h : readFeed disk path = .ok (raw, text)) :
    disk.read path = some raw ∧ fromUtf8 raw = some text := by
  rw [readFeed] at h
  split at h
  · cases h
  · grind

theorem PolicyZones.of_readAgain (h : readAgain reader disk held offered feed = .ok zone) :
    ∃ raw text, disk.read feed.path = some raw ∧ fromUtf8 raw = some text ∧
      ((zone ∈ held.zones ∨ zone ∈ offered.zones) ∧ zone.policy = feed.policy ∧
          (∃ digest, ofSelfContained reader.digestOf raw = some digest ∧
            zone.readFrom = some ⟨feed.path, digest⟩) ∨
        PolicyZone.parse reader feed raw text = .ok zone) := by
  rw [readAgain] at h
  obtain ⟨⟨raw, text⟩, hfeed, h⟩ := except_bind_eq_ok.mp h
  obtain ⟨hread, htext⟩ := readFeed_ok hfeed
  refine ⟨raw, text, hread, htext, ?_⟩
  dsimp only at h
  split at h
  · next found hkept =>
    cases h
    rcases Option.or_eq_some_iff.mp hkept with hheld | ⟨-, hoffered⟩
    · obtain ⟨hmem, hpolicy, hdigest⟩ := of_kept hheld
      exact .inl ⟨.inl hmem, hpolicy, hdigest⟩
    · obtain ⟨hmem, hpolicy, hdigest⟩ := of_kept hoffered
      exact .inl ⟨.inr hmem, hpolicy, hdigest⟩
  · exact .inr h

/-- **A reload that succeeds** holds one zone for each feed. -/
theorem PolicyZones.reload_ok {zones : PolicyZones} (h : PolicyZones.reload reader disk feeds held offered = .ok zones) :
    List.Forall₂ (fun feed zone => feed ∈ feeds ∧ readAgain reader disk held offered feed = .ok zone)
      feeds zones.zones := by
  rw [reload] at h
  obtain ⟨found, hfound, h⟩ := except_bind_eq_ok.mp h
  cases h
  exact forall₂_of_mapM_ok hfound

theorem PolicyZones.exists_readAgain (hread : disk.read feed.path = some raw)
    (htext : fromUtf8 raw = some text) (hparse : PolicyZone.parse reader feed raw text = .ok zone) :
    ∃ found, readAgain reader disk held offered feed = .ok found := by
  have hfeed : readFeed disk feed.path = .ok (raw, text) := by
    rw [readFeed, hread]
    dsimp only
    rw [htext]
  rw [readAgain, hfeed]
  show ∃ found, (match (held.kept feed (ofSelfContained reader.digestOf raw)).or
    (offered.kept feed (ofSelfContained reader.digestOf raw)) with
    | some zone => Except.ok zone
    | none => PolicyZone.parse reader feed raw text) = .ok found
  split
  · exact ⟨_, rfl⟩
  · exact ⟨zone, hparse⟩

theorem PolicyZones.kept_nil (digest : Option FileDigest) : kept ⟨[]⟩ feed digest = none := by
  cases digest with
  | none => rfl
  | some _ => rfl

theorem PolicyZones.readAgain_changed {held : PolicyZones} (hfeed : readFeed disk feed.path = .ok (raw, text))
    (hkept : held.kept feed (ofSelfContained reader.digestOf raw) = none) :
    readAgain reader disk held ⟨[]⟩ feed = PolicyZone.parse reader feed raw text := by
  rw [readAgain, hfeed]
  dsimp only [bind, Except.bind]
  rw [hkept, kept_nil]
  rfl

/-- **No reload succeeds without one of the files.** -/
theorem PolicyZones.reload_of_missing (hfeed : feed ∈ feeds) (hmissing : disk.read feed.path = none) :
    ∃ e, PolicyZones.reload reader disk feeds held offered = .error e := by
  cases h : PolicyZones.reload reader disk feeds held offered with
  | error e => exact ⟨e, rfl⟩
  | ok zones =>
    rw [reload] at h
    obtain ⟨found, hfound, -⟩ := except_bind_eq_ok.mp h
    obtain ⟨zone, -, hzone⟩ := exists_of_mapM_ok hfound hfeed
    obtain ⟨raw, text, hread, -⟩ := of_readAgain hzone
    rw [hmissing] at hread
    cases hread

end

end Rdns.Policy
