import Rdns.Auth.Spelling
import Rdns.Catalogs.ReplicaFiles
import Rdns.Core.OffsetAccessors
import Rdns.Lib.Separated
import Rdns.Transfer.Deltas

/-!
# Rdns — The journal of a zone's version steps

`rdns/src/journal.rs`: a zone's steps are written to a file of their own, one RFC 1995
difference sequence after the other in the zone file's format, and read back by the zone
parser. The parser holds each sequence to the rules of a whole zone, what it deletes beside
what it adds, so that a step may be written that does not read back (`Alone`).

The file is named after the zone, in the text of a zone file. A `/` in a label is a separator of
paths in it: such a journal has no directory to go to, or is the journal of another zone as well.

Main results:

* `load_saved_iff` — when a journal that is saved loads again.
-/

namespace Rdns.Transfer

open Rdns.Lib Rdns.Core Rdns.Present Rdns.Zones Rdns.Auth Rdns.Catalogs RecordTypes

variable (b64 : Base64) (fs : FileSystem)

/-! ## The files -/

def SEPARATOR : Text := "; ---- delta ----".toList

def journalHeader : Text :=
  ("; rdnsd journal — RFC 1995 difference sequences, newest last.".toList ++ ['\n']) ++
    ("; Regenerated whole on every change; safe to delete.".toList ++ ['\n'])

/-- The journals' directory, the files of the disk by their paths, and the paths at which a file
can be written or removed: below a directory that is not there none can. -/
structure Directory where
  dir : FilePath
  files : Entries FilePath Text
  writes : FilePath → Bool

def pathFor (dir : FilePath) (zone : Name) : FilePath :=
  dir.join ((toPresentation zone).map Char.toLower ++ "journal".toList)

def writeRecord (record : ResourceRecord) : Except ZoneError Text := do
  let line ← recordLine b64 record.name record.ttl record.cls record.rdata
  return if line.getLast? = some '\n' then line else line ++ ['\n']

def writeDelta (delta : ZoneDelta) : Except ZoneError Text := do
  let written ← (sequenceOf delta).mapM (writeRecord b64)
  return SEPARATOR ++ '\n' :: written.flatten

namespace Directory

/-- Removes the zone's file; that it cannot is ignored. -/
def forget (disk : Directory) (zone : Name) : Directory :=
  if disk.writes (pathFor disk.dir zone) then { disk with files := disk.files.remove (pathFor disk.dir zone) } else disk

/-- Replaces the zone's file; an empty history removes it. -/
def save (disk : Directory) (zone : Name) (deltas : List ZoneDelta) : Except ZoneError Directory :=
  if deltas.isEmpty then .ok (disk.forget zone)
  else do
    let written ← deltas.mapM (writeDelta b64)
    let path := pathFor disk.dir zone
    if disk.writes path then return { disk with files := disk.files.insert path (journalHeader ++ written.flatten) }
    else throw (.io (String.ofList path.text))

end Directory

def apexSoaAt (origin : Name) (record : ResourceRecord) : Bool :=
  record.rdata.rtype == SOA && record.name.same origin

def framedSerial (soa : ResourceRecord) : Except ZoneError Serial :=
  match soa.rdata.soaSerial with
  | some serial => .ok serial
  | none => .error (.invalid "an SOA framing it does not parse")

/-- One difference sequence, read by position in RFC 1995 §4's order. -/
def readDelta (block : Text) (origin : Name) : Except ZoneError ZoneDelta := do
  let parsed ← parseZoneFile b64 fs none block (toPresentation origin)
  match parsed.records.map asRecord with
  | [] => throw (.invalid "it is empty")
  | fromSoa :: rest =>
    if !apexSoaAt origin fromSoa then
      throw (.invalid "it does not open with the apex SOA that RFC 1995 §4 frames a difference sequence with")
    else match rest.dropWhile fun r => !apexSoaAt origin r with
      | [] => throw (.invalid "it has no second apex SOA, so nothing marks the additions")
      | toSoa :: added =>
        let fromSerial ← framedSerial fromSoa
        let toSerial ← framedSerial toSoa
        return ⟨fromSerial, toSerial, fromSoa, toSoa, rest.takeWhile fun r => !apexSoaAt origin r, added⟩

def readNumbered (origin : Name) (numbered : Text × Nat) : Except ZoneError ZoneDelta :=
  match readDelta b64 fs numbered.1 origin with
  | .ok delta => .ok delta
  | .error _ => .error (.invalid ("difference sequence " ++ toString (numbered.2 + 1) ++ " is unreadable"))

def gap (deltas : List ZoneDelta) : Option (ZoneDelta × ZoneDelta) :=
  (deltas.zip (deltas.drop 1)).find? fun pair => pair.1.toSerial ≠ pair.2.fromSerial

def Directory.load (disk : Directory) (zone : Name) : Except ZoneError (List ZoneDelta) :=
  match disk.files.get (pathFor disk.dir zone) with
  | none => .ok []
  | some text => do
    let deltas ← ((split SEPARATOR text).drop 1).zipIdx.mapM (readNumbered b64 fs zone)
    match gap deltas with
    | some pair => throw (.invalid ("the sequences do not link — one ends at " ++
        toString pair.1.toSerial.value ++ " and the next starts at " ++ toString pair.2.fromSerial.value))
    | none => return deltas

/-- The last sequence must end at the zone's serial. -/
def usableAgainst (deltas : List ZoneDelta) (zone : Zone) : Bool :=
  match deltas.getLast?, zone.serial with
  | some last, some current => last.toSerial == current
  | none, _ => true
  | some _, none => false

/-! ## Names and paths -/

def NoSlash (zone : Name) : Prop := ∀ label ∈ zone.labels, 47 ∉ label

theorem pathFor_congr (dir : FilePath) {a b : Name} (h : a.toFolded = b.toFolded) : pathFor dir a = pathFor dir b := by
  rw [pathFor, pathFor, toLower_toPresentation, toLower_toPresentation, h]

theorem pathFor_entry (dir : FilePath) {zone : Name} (h : NoSlash zone) :
    pathFor dir zone = dir.entry ((toPresentation zone).map Char.toLower ++ "journal".toList) := by
  refine join_entry dir (isEntry_append (fun hmem => ?_) (by decide) (by decide))
  obtain ⟨c, hc, hslash⟩ := List.mem_map.mp hmem
  rw [eq_slash_of_toLower hslash] at hc
  obtain ⟨label, hlabel, hmem⟩ := slash_mem_toPresentation.mp hc
  exact h label hlabel hmem

/-- **Zones with no `/` in a label have journals of their own.** -/
theorem pathFor_eq_iff (dir : FilePath) {a b : Name} (ha : NoSlash a) (hb : NoSlash b) :
    pathFor dir a = pathFor dir b ↔ a.toFolded = b.toFolded := by
  refine ⟨fun h => ?_, pathFor_congr dir⟩
  rw [pathFor_entry dir ha, pathFor_entry dir hb, FilePath.entry, FilePath.entry, FilePath.mk.injEq,
    List.append_cancel_left_eq, List.singleton_inj, List.append_left_inj, toLower_toPresentation,
    toLower_toPresentation] at h
  exact toPresentation_injective h.2

/-! ## What is written -/

/-- A record that goes into a journal and comes out of it: it reads back from its line, and
the line is one piece. -/
structure Journalled (record : ResourceRecord) : Prop where
  classIn : record.cls = .IN
  ttl : record.ttl.secs.toNat < 2147483648
  reads : ReadsBack b64 record.rdata
  line : ∀ line, recordLine b64 record.name record.ttl record.cls record.rdata = .ok line →
    line.getLast? ≠ some '\n' ∧ ¬ SEPARATOR <:+: line

/-- A step of `zone` as `diff` makes it, all of whose records can be journalled. -/
structure Framed (zone : Name) (delta : ZoneDelta) : Prop where
  records : ∀ record ∈ sequenceOf delta, Journalled b64 record
  fromSoa : apexSoaAt zone delta.fromSoa = true
  toSoa : apexSoaAt zone delta.toSoa = true
  deleted : ∀ record ∈ delta.deleted, apexSoaAt zone record = false
  fromSerial : delta.fromSoa.rdata.soaSerial = some delta.fromSerial
  toSerial : delta.toSoa.rdata.soaSerial = some delta.toSerial

/-- What the parser asks of a sequence: the loader's rules, of the records deleted and the
records added as if they stood in one zone. -/
def Alone (zone : Name) (delta : ZoneDelta) : Prop :=
  CnameAlone ((sequenceOf delta).map zoneRecord) ∧ DnameRules zone ((sequenceOf delta).map zoneRecord)

variable {b64} {record : ResourceRecord} {zone origin : Name} {delta : ZoneDelta} {deltas : List ZoneDelta}
  {bodies : List Text}

theorem Journalled.spells (h : Journalled b64 record) :
    ∃ b, Spells b64 (zoneRecord record) b ∧ writeRecord b64 record = .ok (b.1 ++ ['\n']) ∧
      Whole SEPARATOR (b.1 ++ ['\n']) := by
  obtain ⟨b, hspells⟩ : ∃ b, Spells b64 (zoneRecord record) b := spells_of_readsBack b64 h.classIn h.reads
  obtain ⟨line, hline, hwritten⟩ := except_bind_eq_ok.mp hspells.1
  have htext : line = b.1 := List.append_cancel_right (Except.ok.inj hwritten)
  obtain ⟨hlast, hsep⟩ := h.line line hline
  refine ⟨b, hspells, ?_, ?_⟩
  · rw [writeRecord, show recordLine b64 record.name record.ttl record.cls record.rdata = .ok line from hline]
    show Except.ok (if line.getLast? = some '\n' then line else line ++ ['\n']) = _
    rw [if_neg hlast, htext]
  · rw [← htext]
    exact whole_line (by decide) hsep

/-- **A step as it is written**: the lines of its records, which spell them. -/
theorem exists_written {records : List ResourceRecord} (h : ∀ record ∈ records, Journalled b64 record) :
    ∃ blocks, List.Forall₂ (Spells b64) (records.map zoneRecord) blocks ∧
      records.mapM (writeRecord b64) = .ok (blocks.map fun b => b.1 ++ ['\n']) ∧
      Whole SEPARATOR (blocks.flatMap fun b => b.1 ++ ['\n']) := by
  induction records with
  | nil => exact ⟨[], .nil, rfl, whole_nil⟩
  | cons record records ih =>
    obtain ⟨hrecord, hrest⟩ := List.forall_mem_cons.mp h
    obtain ⟨b, hspells, hwritten, hwhole⟩ := hrecord.spells
    obtain ⟨blocks, hall, hlines, hblocks⟩ := ih hrest
    refine ⟨b :: blocks, .cons hspells hall, ?_, hwhole.append hblocks⟩
    rw [List.mapM_cons, hwritten, hlines]
    rfl

/-! ## What is read -/

variable {blocks : List (Text × List Text)}

/-- **Written lines parse** to the zone of their records, if it keeps the loader's rules. -/
theorem parse_lines {records : List ZoneRecord} (hspells : List.Forall₂ (Spells b64) records blocks)
    (hcls : ∀ r ∈ records, r.cls = .IN) (httl : ∀ r ∈ records, r.ttl.secs.toNat < 2147483648)
    (origin : Name) :
    parseZoneFile b64 fs none ('\n' :: blocks.flatMap fun b => b.1 ++ ['\n']) (toPresentation origin)
      = (do
          let zone := records.foldl Zone.takeIn (Zone.new origin)
          checkCnameExclusivity zone
          checkDnameRules zone
          return zone) := by
  obtain ⟨found, hrun, hfound⟩ := assembleFrom_blocks blocks (block_of_spells b64 hspells) [] 1
  have hlines : logicalLines ('\n' :: blocks.flatMap fun b => b.1 ++ ['\n']) = .ok found := by
    rw [logicalLines, ← List.nil_append ('\n' :: _), blank_nil, hrun]
    rfl
  obtain ⟨state, hfold⟩ := foldlM_readLine b64 fs hspells hfound hcls httl true none
    (some (parseInto b64 fs (MAX_INCLUDE_DEPTH - 2) false)) ⟨Zone.new origin, ⟨origin, ⟨3600⟩, none⟩, none⟩
  rw [parseZoneFile, fromPresentation_toPresentation]
  show (readLines b64 fs true none (some (parseInto b64 fs (MAX_INCLUDE_DEPTH - 2) false)) _ _ >>= fun _ => _) = _
  rw [readLines, hlines]
  show (found.foldlM (readLine b64 fs true none _) _ >>= fun _ => _) = _
  rw [hfold]
  rfl

theorem span_deleted (hto : apexSoaAt origin delta.toSoa = true)
    (hdeleted : ∀ record ∈ delta.deleted, apexSoaAt origin record = false) :
    (delta.deleted ++ delta.toSoa :: delta.added).takeWhile (fun r => !apexSoaAt origin r) = delta.deleted ∧
    (delta.deleted ++ delta.toSoa :: delta.added).dropWhile (fun r => !apexSoaAt origin r)
      = delta.toSoa :: delta.added := by
  have hall : ∀ record ∈ delta.deleted, (!apexSoaAt origin record) = true := fun r hr => by rw [hdeleted r hr]; rfl
  rw [List.takeWhile_append_of_pos hall, List.dropWhile_append_of_pos hall, List.takeWhile_cons,
    List.dropWhile_cons, hto]
  exact ⟨List.append_nil _, rfl⟩

/-- **A sequence reads back as itself or not at all**, and when it does. -/
theorem readDelta_iff (h : Framed b64 zone delta) (hsame : origin.toFolded = zone.toFolded)
    (hspells : List.Forall₂ (Spells b64) ((sequenceOf delta).map zoneRecord) blocks)
    (found : ZoneDelta) :
    readDelta b64 fs ('\n' :: blocks.flatMap fun b => b.1 ++ ['\n']) origin = .ok found
      ↔ found = delta ∧ Alone origin delta := by
  have hat : ∀ record, apexSoaAt origin record = apexSoaAt zone record := by
    intro record
    have hname : record.name.same origin = record.name.same zone := by
      rw [Bool.eq_iff_iff, Name.same_iff, Name.same_iff, hsame]
    rw [apexSoaAt, apexSoaAt, hname]
  have hcls : ∀ r ∈ (sequenceOf delta).map zoneRecord, r.cls = .IN :=
    List.forall_mem_map.mpr fun r hr => (h.records r hr).classIn
  have httl : ∀ r ∈ (sequenceOf delta).map zoneRecord, r.ttl.secs.toNat < 2147483648 :=
    List.forall_mem_map.mpr fun r hr => (h.records r hr).ttl
  obtain ⟨hrecords, horigin⟩ := Zone.foldl_takeIn ((sequenceOf delta).map zoneRecord) (Zone.new origin)
  have hok := (Zone.zoneOk_new origin).foldl_takeIn ((sequenceOf delta).map zoneRecord)
  rw [readDelta, parse_lines fs hspells hcls httl origin]
  dsimp only
  generalize ((sequenceOf delta).map zoneRecord).foldl Zone.takeIn (Zone.new origin) = parsed
    at hrecords horigin hok
  replace hrecords : parsed.records = (sequenceOf delta).map zoneRecord := hrecords
  replace horigin : parsed.origin = origin := horigin
  have halone : Alone origin delta ↔
      checkCnameExclusivity parsed = .ok () ∧ checkDnameRules parsed = .ok () := by
    rw [checkCnameExclusivity_iff hok, checkDnameRules_iff hok, hrecords, horigin, Alone]
  have hback : parsed.records.map asRecord = delta.fromSoa :: (delta.deleted ++ delta.toSoa :: delta.added) := by
    rw [hrecords, List.map_map]
    exact List.map_id _
  obtain ⟨htake, hdrop⟩ := span_deleted (show apexSoaAt origin delta.toSoa = true by rw [hat]; exact h.toSoa)
    fun r hr => by rw [hat]; exact h.deleted r hr
  rw [halone]
  cases hcname : checkCnameExclusivity parsed with
  | error e =>
    refine ⟨fun hread => ?_, fun hread => ?_⟩
    · cases hread
    · cases hread.2.1
  | ok _ =>
    cases hdname : checkDnameRules parsed with
    | error e =>
      refine ⟨fun hread => ?_, fun hread => ?_⟩
      · cases hread
      · cases hread.2.2
    | ok _ =>
      dsimp only [bind, Except.bind, pure, Except.pure]
      rw [hback]
      dsimp only
      rw [hat, h.fromSoa, hdrop, htake]
      dsimp only [framedSerial]
      rw [h.fromSerial, h.toSerial]
      exact ⟨fun hfound => ⟨(Except.ok.inj hfound).symm, rfl, rfl⟩, fun hfound => by rw [hfound.1]; rfl⟩

/-- **A sequence does not read under another name**: it does not open with an SOA of that name. -/
theorem readDelta_elsewhere (h : Framed b64 zone delta) (hother : origin.toFolded ≠ zone.toFolded)
    (hspells : List.Forall₂ (Spells b64) ((sequenceOf delta).map zoneRecord) blocks)
    (found : ZoneDelta) :
    readDelta b64 fs ('\n' :: blocks.flatMap fun b => b.1 ++ ['\n']) origin ≠ .ok found := by
  intro hread
  have hfirst : apexSoaAt origin delta.fromSoa = false := by
    rw [Bool.eq_false_iff]
    intro hat
    obtain ⟨-, hname⟩ := Bool.and_eq_true_iff.mp hat
    obtain ⟨-, hown⟩ := Bool.and_eq_true_iff.mp h.fromSoa
    exact hother ((Name.same_iff.mp hname).symm.trans (Name.same_iff.mp hown))
  have hcls : ∀ r ∈ (sequenceOf delta).map zoneRecord, r.cls = .IN :=
    List.forall_mem_map.mpr fun r hr => (h.records r hr).classIn
  have httl : ∀ r ∈ (sequenceOf delta).map zoneRecord, r.ttl.secs.toNat < 2147483648 :=
    List.forall_mem_map.mpr fun r hr => (h.records r hr).ttl
  rw [readDelta, parse_lines fs hspells hcls httl origin] at hread
  obtain ⟨parsed, hparsed, hread⟩ := except_bind_eq_ok.mp hread
  obtain ⟨_, -, hparsed⟩ := except_bind_eq_ok.mp hparsed
  obtain ⟨_, -, hparsed⟩ := except_bind_eq_ok.mp hparsed
  have hback : parsed.records.map asRecord = delta.fromSoa :: (delta.deleted ++ delta.toSoa :: delta.added) := by
    rw [← Except.ok.inj hparsed, (Zone.foldl_takeIn _ (Zone.new origin)).1]
    show ((sequenceOf delta).map zoneRecord).map asRecord = _
    rw [List.map_map]
    exact List.map_id _
  rw [hback] at hread
  dsimp only at hread
  rw [hfirst] at hread
  cases hread

/-! ## The whole file -/

theorem whole_journalHeader : Whole SEPARATOR journalHeader := by
  have hwhole : ∀ line, '-' ∉ line → Whole SEPARATOR (line ++ ['\n']) := fun line hline =>
    whole_line (by decide) fun h => hline (h.subset (by decide))
  exact (hwhole _ (by decide)).append (hwhole _ (by decide))

/-- What a step's body is to the journal: what is written of it after the separator, and
what that is read as. -/
structure Body (b64 : Base64) (fs : FileSystem) (zone : Name) (delta : ZoneDelta) (body : Text) : Prop where
  written : writeDelta b64 delta = .ok (SEPARATOR ++ body)
  whole : Whole SEPARATOR body
  read : ∀ origin found, readDelta b64 fs body origin = .ok found ↔
    found = delta ∧ origin.toFolded = zone.toFolded ∧ Alone origin delta

theorem Framed.body (h : Framed b64 zone delta) : ∃ body, Body b64 fs zone delta body := by
  obtain ⟨blocks, hspells, hlines, hwhole⟩ := exists_written h.records
  refine ⟨'\n' :: blocks.flatMap fun b => b.1 ++ ['\n'], ?_, ?_, fun origin found => ?_⟩
  · rw [writeDelta, hlines]
    rfl
  · have hline : Whole SEPARATOR ([] ++ ['\n']) := whole_line (by decide) (by decide)
    exact hline.append hwhole
  · by_cases hsame : origin.toFolded = zone.toFolded
    · rw [readDelta_iff fs h hsame hspells found]
      exact ⟨fun hread => ⟨hread.1, hsame, hread.2⟩, fun hread => ⟨hread.1, hread.2.2⟩⟩
    · exact ⟨fun hread => absurd hread (readDelta_elsewhere fs h hsame hspells found), fun hread => absurd hread.2.1 hsame⟩

variable {fs} in
theorem mapM_writeDelta (h : List.Forall₂ (Body b64 fs zone) deltas bodies) :
    deltas.mapM (writeDelta b64) = .ok (bodies.map (SEPARATOR ++ ·)) := by
  induction h with
  | nil => rfl
  | cons hbody _ ih =>
    rw [List.mapM_cons, hbody.written, ih]
    rfl

variable {fs} in
theorem mapM_readNumbered_iff (h : List.Forall₂ (Body b64 fs zone) deltas bodies) (k : Nat) (found : List ZoneDelta) :
    (bodies.zipIdx k).mapM (readNumbered b64 fs origin) = .ok found
      ↔ found = deltas ∧ ∀ delta ∈ deltas, origin.toFolded = zone.toFolded ∧ Alone origin delta := by
  induction h generalizing k found with
  | nil => exact ⟨fun hnil => ⟨(Except.ok.inj hnil).symm, by simp⟩, fun hnil => by rw [hnil.1]; rfl⟩
  | @cons delta body deltas bodies hbody _ ih =>
    have hfirst : ∀ first, readNumbered b64 fs origin (body, k) = .ok first ↔
        first = delta ∧ origin.toFolded = zone.toFolded ∧ Alone origin delta := by
      intro first
      rw [← hbody.read origin first, readNumbered]
      cases readDelta b64 fs body origin with
      | ok d => exact Iff.rfl
      | error e =>
        constructor
        · intro hread
          cases hread
        · intro hread
          cases hread
    rw [List.zipIdx_cons, List.mapM_cons, except_bind_eq_ok, List.forall_mem_cons]
    constructor
    · rintro ⟨first, hread, hrest⟩
      obtain ⟨rest, hread', hfound⟩ := except_bind_eq_ok.mp hrest
      obtain ⟨rfl, halone⟩ := (hfirst first).mp hread
      obtain ⟨rfl, hall⟩ := (ih (k + 1) rest).mp hread'
      exact ⟨(Except.ok.inj hfound).symm, halone, hall⟩
    · rintro ⟨rfl, halone, hall⟩
      exact ⟨delta, (hfirst delta).mpr ⟨rfl, halone⟩,
        except_bind_eq_ok.mpr ⟨deltas, (ih (k + 1) deltas).mpr ⟨rfl, hall⟩, rfl⟩⟩

theorem gap_eq_none_iff (deltas : List ZoneDelta) :
    gap deltas = none ↔ deltas.IsChain fun a b => a.toSerial = b.fromSerial := by
  induction deltas with
  | nil => exact ⟨fun _ => .nil, fun _ => rfl⟩
  | cons first rest ih =>
    cases rest with
    | nil => exact ⟨fun _ => .singleton _, fun _ => rfl⟩
    | cons second rest =>
      rw [List.isChain_cons_cons, ← ih]
      show List.find? _ ((first, second) :: ((second :: rest).zip rest)) = none ↔ _
      rw [List.find?_cons]
      by_cases hlink : first.toSerial = second.fromSerial
      · simp [hlink, gap]
      · simp [hlink]

/-- **What a journal that was written reads as**, under every name its path is the path of. -/
theorem load_saved (hframed : ∀ delta ∈ deltas, Framed b64 zone delta) (disk : Directory)
    (hwrites : disk.writes (pathFor disk.dir zone) = true) :
    ∃ saved, disk.save b64 zone deltas = .ok saved ∧ saved.dir = disk.dir ∧
      (∀ origin found, pathFor disk.dir origin = pathFor disk.dir zone →
        (saved.load b64 fs origin = .ok found ↔
          found = deltas ∧ deltas.IsChain (fun a b => a.toSerial = b.fromSerial) ∧
            ∀ delta ∈ deltas, origin.toFolded = zone.toFolded ∧ Alone origin delta)) ∧
      ∀ other, pathFor disk.dir other ≠ pathFor disk.dir zone → saved.load b64 fs other = disk.load b64 fs other := by
  by_cases hempty : deltas = []
  · subst hempty
    have hsaved : disk.save b64 zone [] = .ok { disk with files := disk.files.remove (pathFor disk.dir zone) } := by
      rw [Directory.save, if_pos (by rfl), Directory.forget, if_pos hwrites]
    refine ⟨_, hsaved, rfl, fun origin found hpath => ?_, fun other hpath => ?_⟩
    · rw [Directory.load, hpath, Entries.get_remove, if_pos rfl]
      exact ⟨fun hnil => ⟨(Except.ok.inj hnil).symm, .nil, by simp⟩, fun hnil => by rw [hnil.1]⟩
    · rw [Directory.load, Entries.get_remove, if_neg hpath]
      rfl
  · obtain ⟨bodies, hbodies⟩ := exists_forall₂ fun delta hdelta => (hframed delta hdelta).body fs
    have hwhole : ∀ body ∈ bodies, Whole SEPARATOR body := by
      clear hframed hempty
      induction hbodies with
      | nil => simp
      | cons hbody _ ih => exact List.forall_mem_cons.mpr ⟨hbody.whole, ih⟩
    have hsaved : disk.save b64 zone deltas = .ok { disk with
        files := disk.files.insert (pathFor disk.dir zone) (journalHeader ++ bodies.flatMap (SEPARATOR ++ ·)) } := by
      rw [Directory.save, if_neg (by simpa using hempty), mapM_writeDelta hbodies, List.flatMap_def]
      show (if disk.writes (pathFor disk.dir zone) then _ else _) = _
      rw [if_pos hwrites]
      rfl
    refine ⟨_, hsaved, rfl, fun origin found hpath => ?_, fun other hpath => ?_⟩
    · rw [Directory.load, hpath, Entries.get_insert, if_pos rfl]
      dsimp only
      rw [split_separated (by decide) whole_journalHeader hwhole, List.drop_one, List.tail_cons, except_bind_eq_ok,
        ← gap_eq_none_iff]
      constructor
      · rintro ⟨read, hread, hfound⟩
        obtain ⟨rfl, hall⟩ := (mapM_readNumbered_iff hbodies 0 read).mp hread
        cases hgap : gap read with
        | none =>
          rw [hgap] at hfound
          exact ⟨(Except.ok.inj hfound).symm, rfl, hall⟩
        | some pair =>
          rw [hgap] at hfound
          cases hfound
      · rintro ⟨rfl, hgap, hall⟩
        refine ⟨found, (mapM_readNumbered_iff hbodies 0 found).mpr ⟨rfl, hall⟩, ?_⟩
        rw [hgap]
        rfl
    · rw [Directory.load, Entries.get_insert, if_neg hpath]
      rfl

/-- A journal that cannot be written stays as it is. -/
theorem save_unwritten {disk : Directory} (h : disk.writes (pathFor disk.dir zone) = false) :
    (disk.save b64 zone deltas).toOption.getD disk = disk := by
  rw [Directory.save]
  split
  · rw [Directory.forget, if_neg (by rw [h]; decide)]
    rfl
  · cases deltas.mapM (writeDelta b64) with
    | error e => rfl
    | ok written =>
      show (Except.toOption (if disk.writes (pathFor disk.dir zone) then _ else _)).getD disk = disk
      rw [if_neg (by rw [h]; decide)]
      rfl

/-- **When a journal reads back, and as what**, for a zone with no `/` in a label whose file can be
written. -/
theorem load_saved_iff (hframed : ∀ delta ∈ deltas, Framed b64 zone delta) (disk : Directory) (hzone : NoSlash zone)
    (hwrites : disk.writes (pathFor disk.dir zone) = true) :
    ∃ saved, disk.save b64 zone deltas = .ok saved ∧
      (∀ origin found, origin.toFolded = zone.toFolded →
        (saved.load b64 fs origin = .ok found ↔
          found = deltas ∧ deltas.IsChain (fun a b => a.toSerial = b.fromSerial) ∧
            ∀ delta ∈ deltas, Alone origin delta)) ∧
      ∀ other, NoSlash other → other.toFolded ≠ zone.toFolded →
        saved.load b64 fs other = disk.load b64 fs other := by
  obtain ⟨saved, hsaved, -, hread, hbeside⟩ := load_saved fs hframed disk hwrites
  refine ⟨saved, hsaved, fun origin found hsame => ?_, fun other hother hne => ?_⟩
  · rw [hread origin found (pathFor_congr _ hsame)]
    simp only [hsame, true_and]
  · exact hbeside other fun hpath => hne ((pathFor_eq_iff _ hother hzone).mp hpath)

/-! ## A step that does not read back -/

def hyphenless (record : ResourceRecord) : Bool :=
  match recordLine noBase64 record.name record.ttl record.cls record.rdata with
  | .ok line => line.getLast? != some '\n' && !line.contains '-'
  | .error _ => true

def Plain (record : ResourceRecord) : Prop :=
  record.cls = .IN ∧ record.ttl.secs.toNat < 2147483648 ∧ record.rdata.rtype ∈ plainTypes ∧
    record.rdata.rdata.length ≤ 65535 ∧ hyphenless record = true ∧
    RecordData.fromWire record.rdata.rtype record.rdata.rdata record.rdata.rdata = .ok record.rdata

instance : DecidablePred Plain := fun _ => inferInstanceAs (Decidable (_ ∧ _))

theorem Plain.journalled (h : Plain record) : Journalled noBase64 record := by
  obtain ⟨hcls, httl, hplain, hlen, hline, hbuilt⟩ := h
  refine ⟨hcls, httl, readsBack_of_plain noBase64 (.inl ⟨_, _, _, hbuilt⟩) (.inl hplain) hlen, fun line hwritten => ?_⟩
  rw [hyphenless, hwritten] at hline
  obtain ⟨hlast, hhyphen⟩ := Bool.and_eq_true_iff.mp hline
  refine ⟨by simpa using hlast, fun hinfix => ?_⟩
  have hmem : '-' ∈ line := hinfix.subset (by decide)
  simp [hmem] at hhyphen

def exSoaRecord (serial : UInt8) : ResourceRecord :=
  ⟨ex, .IN, ⟨300⟩, ⟨SOA, wireOf [] ++ wireOf [] ++ [0, 0, 0, serial] ++ List.replicate 16 0⟩⟩

def wwwAlias : ResourceRecord := ⟨wwwEx, .IN, ⟨300⟩, ⟨CNAME, ex.wire⟩⟩
def unaliased : ResourceRecord := ⟨wwwEx, .IN, ⟨300⟩, ⟨A, [192, 0, 2, 1]⟩⟩

/-- An alias that gives way to an address. -/
def dealiased : ZoneDelta := ⟨⟨1⟩, ⟨2⟩, exSoaRecord 1, exSoaRecord 2, [wwwAlias], [unaliased]⟩

def journals : Directory := ⟨⟨true, ["journals".toList]⟩, [], fun _ => true⟩

theorem load_saved_dealiased : ∃ saved, journals.save noBase64 ex [dealiased] = .ok saved ∧
    ∀ found, saved.load noBase64 noFiles ex ≠ .ok found := by
  have hplain : ∀ record ∈ sequenceOf dealiased, Plain record := by decide +kernel
  have hframed : Framed noBase64 ex dealiased :=
    ⟨fun record hrecord => (hplain record hrecord).journalled, by decide, by decide, by decide, by decide +kernel,
      by decide +kernel⟩
  obtain ⟨saved, hsaved, hread, -⟩ := load_saved_iff noFiles
    (show ∀ delta ∈ [dealiased], _ from List.forall_mem_singleton.mpr hframed) journals
    (show ∀ label ∈ ex.labels, 47 ∉ label by decide) rfl
  refine ⟨saved, hsaved, fun found hload => ?_⟩
  obtain ⟨-, -, halone⟩ := (hread ex found rfl).mp hload
  have hcname := (halone dealiased List.mem_cons_self).1 (zoneRecord wwwAlias) (by decide) (zoneRecord unaliased)
    (by decide) rfl (by decide)
  exact absurd hcname (by decide)

end Rdns.Transfer
