import Mathlib.Data.List.Induction
import Rdns.Core.Message
import Rdns.Present.DenialWire
import Rdns.Zones.IndexLaws

/-!
# Rdns — One zone in memory

`Zone` of `rdns/src/zone.rs`: its records, its index, its denial chains and its
shortcuts, and the functions that change them. Looking a name up is `Zones.Locate`.

The two arenas a record's name and RDATA sit in are read through their spans alone, so
a record is its four fields here; what storing does to RDATA (`as u16` on its length)
is `stored`.
-/

namespace Rdns.Zones

open Rdns.Lib Rdns.Core Rdns.Present RecordTypes

/-! ## Records -/

structure ZoneRecord where
  name : Name
  ttl : Ttl
  cls : Core.Class
  rdata : RecordData
deriving DecidableEq

def asRecord (record : ZoneRecord) : ResourceRecord := ⟨record.name, record.cls, record.ttl, record.rdata⟩

def zoneRecord (record : ResourceRecord) : ZoneRecord := ⟨record.name, record.ttl, record.cls, record.rdata⟩

def ZoneRecord.key (record : ZoneRecord) : Octets := record.name.toFolded.wire

def ZoneRecord.rtype (record : ZoneRecord) : Rtype := record.rdata.rtype

def stored (data : RecordData) : RecordData :=
  ⟨data.rtype, data.rdata.take (data.rdata.length % 65536)⟩

theorem stored_eq_self {data : RecordData} (h : data.rdata.length ≤ 65535) : stored data = data := by
  rw [stored, Nat.mod_eq_of_lt (by omega), List.take_length]

def storedParsed (parsed : ParsedRecord) : Except WireError RecordData := do
  let data ← RecordData.fromParsed parsed
  if data.rdata.length > 65535 then
    throw (.tooLong "a record's RDATA" 65535 data.rdata.length)
  return data

/-! ## Denial chains -/

abbrev Chain := List (Octets × Nat)

def Chain.insert (key : Octets) (position : Nat) : Chain → Chain
  | [] => [(key, position)]
  | (k, p) :: rest =>
    if key = k then (key, position) :: rest
    else if key < k then (key, position) :: (k, p) :: rest
    else (k, p) :: Chain.insert key position rest

def Chain.remove (key : Octets) (chain : Chain) : Chain :=
  chain.filter fun entry => entry.1 ≠ key

/-- Where a denial record belongs, carrying the key of the chain it belongs to. -/
inductive ChainKey where
  | nsec (key : Octets)
  | nsec3 (hash : Nsec3Hash)

def chainKey (name : Name) (rtype : Rtype) : Option ChainKey :=
  if rtype = NSEC then some (.nsec (canonicalSortKey name))
  else if rtype = NSEC3 then do
    let label ← name.labels.head?
    let decoded ← (base32hexDecode label).toOption
    let hash ← Nsec3Hash.fromWire decoded
    return .nsec3 hash
  else none

/-! ## Shortcuts -/

structure Shortcuts where
  wildcards : Bool
  delegations : Bool
  dnames : Bool
deriving DecidableEq

def Shortcuts.default : Shortcuts := ⟨false, false, false⟩

def startsWithWildcard (key : Octets) : Bool := [1, 42].isPrefixOf key

def Shortcuts.note (shortcuts : Shortcuts) (key : Octets) (rtype : Rtype) (atApex : Bool) :
    Shortcuts where
  wildcards := shortcuts.wildcards || startsWithWildcard key
  delegations := shortcuts.delegations || (rtype == NS && !atApex)
  dnames := shortcuts.dnames || rtype == DNAME

def Shortcuts.noteRecord (origin : Octets) (shortcuts : Shortcuts) (record : ZoneRecord) :
    Shortcuts :=
  shortcuts.note record.key record.rtype (record.key == origin)

/-! ## The zone -/

structure Zone where
  origin : Name
  records : List ZoneRecord
  index : Index
  removedSinceRebuild : Nat
  nsecChain : Chain
  nsec3Chain : Chain
  shortcuts : Shortcuts

def ChainKey.insert (key : ChainKey) (position : Nat) (z : Zone) : Zone :=
  match key with
  | .nsec k => { z with nsecChain := z.nsecChain.insert k position }
  | .nsec3 hash => { z with nsec3Chain := z.nsec3Chain.insert hash.octets position }

def ChainKey.remove (key : ChainKey) (z : Zone) : Zone :=
  match key with
  | .nsec k => { z with nsecChain := z.nsecChain.remove k }
  | .nsec3 hash => { z with nsec3Chain := z.nsec3Chain.remove hash.octets }

def swapRemove {α : Type} (records : List α) (position : Nat) : List α :=
  match records.getLast? with
  | none => records
  | some last => (records.set position last).dropLast

namespace Zone

def new (origin : Name) : Zone where
  origin
  records := []
  index := Index.empty
  removedSinceRebuild := 0
  nsecChain := []
  nsec3Chain := []
  shortcuts := .default

def originKey (z : Zone) : Octets := z.origin.toFolded.wire

def insertChain (z : Zone) (record : ZoneRecord) (position : Nat) : Zone :=
  match chainKey record.name record.rtype with
  | some key => key.insert position z
  | none => z

def removeChain (z : Zone) (record : ZoneRecord) : Zone :=
  match chainKey record.name record.rtype with
  | some key => key.remove z
  | none => z

def takeIn (z : Zone) (record : ZoneRecord) : Zone :=
  let position := z.records.length
  let z := { z with
    shortcuts := z.shortcuts.noteRecord z.originKey record
    index := z.index.takeIn z.originKey record.key position }
  let z := z.insertChain record position
  { z with records := z.records ++ [record] }

def add (z : Zone) (record : ZoneRecord) : Zone :=
  z.takeIn { record with rdata := stored record.rdata }

def addParsed (z : Zone) (name : Name) (ttl : Ttl) (cls : Core.Class) (parsed : ParsedRecord) :
    Except WireError Zone := do
  let rdata ← storedParsed parsed
  return z.takeIn ⟨name, ttl, cls, rdata⟩

def reindex (z : Zone) : Zone :=
  { z with
    index := z.records.zipIdx.foldl
      (fun ix entry => ix.takeIn z.originKey entry.1.key entry.2) Index.empty
    removedSinceRebuild := 0
    shortcuts := z.records.foldl (Shortcuts.noteRecord z.originKey) .default }

def setOrigin (z : Zone) (origin : Name) : Zone := reindex { z with origin }

def rebuild (z : Zone) : Zone := z.reindex

def renumber (z : Zone) («from» into : Nat) : Option Zone :=
  if «from» = into then some z
  else do
    let moved ← z.records[into]?
    let index ← z.index.refile moved.key «from» into
    return ({ z with index }).insertChain moved into

def prune (z : Zone) (key : Octets) : Zone :=
  { z with index := { z.index with nodes := Index.prune z.index.nodes z.originKey key } }

def settle (z : Zone) : Zone :=
  let z := { z with removedSinceRebuild := min (z.removedSinceRebuild + 1) 4294967295 }
  if z.removedSinceRebuild * 2 ≥ z.records.length then z.rebuild else z

/-- Take the record at `position` out of the zone and give it back; `none` is a
panic. -/
def removeRecord (z : Zone) (position : Nat) : Option (ZoneRecord × Zone) := do
  let record ← z.records[position]?
  let z := z.removeChain record
  let (index, recordsLeft) ← z.index.unfile record.key position
  let movedFrom := z.records.length - 1
  let z := { z with index, records := swapRemove z.records position }
  let z ← z.renumber movedFrom position
  let z := if recordsLeft then z else z.prune record.key
  return (record, z.settle)

/-! ## The invariant -/

def ownerAt (records : List ZoneRecord) (position : Nat) : Option Octets :=
  records[position]?.map ZoneRecord.key

structure ShortcutsOk (origin : Octets) (records : List ZoneRecord)
    (shortcuts : Shortcuts) : Prop where
  wildcards : ∀ r ∈ records, startsWithWildcard r.key = true → shortcuts.wildcards = true
  delegations : ∀ r ∈ records, r.rtype = NS → r.key ≠ origin →
    shortcuts.delegations = true
  dnames : ∀ r ∈ records, r.rtype = DNAME → shortcuts.dnames = true

/-- **What every zone keeps**: the index is that of the records under the apex, and
no shortcut hides one of them. -/
structure ZoneOk (z : Zone) : Prop where
  index : Index.IndexOk z.originKey (ownerAt z.records) z.index
  shortcuts : ShortcutsOk z.originKey z.records z.shortcuts

variable {z : Zone} {records : List ZoneRecord} {origin : Octets} {shortcuts : Shortcuts}

theorem ownerAt_append (records : List ZoneRecord) (record : ZoneRecord) :
    ownerAt (records ++ [record])
      = fun i => if i = records.length then some record.key else ownerAt records i := by
  funext i
  rw [ownerAt, ownerAt]
  by_cases hi : i = records.length
  · grind
  · grind

theorem ownerAt_length (records : List ZoneRecord) : ownerAt records records.length = none := by
  rw [ownerAt, List.getElem?_eq_none (Nat.le_refl _)]
  rfl

theorem ShortcutsOk.noteRecord (h : ShortcutsOk origin records shortcuts) (record : ZoneRecord) :
    ShortcutsOk origin (records ++ [record]) (shortcuts.noteRecord origin record) := by
  have hmem : ∀ r ∈ records ++ [record], r ∈ records ∨ r = record := by
    intro r hr
    rwa [List.mem_append, List.mem_singleton] at hr
  refine ⟨fun r hr hw => ?_, fun r hr hns happ => ?_, fun r hr hd => ?_⟩
  · rw [Shortcuts.noteRecord, Shortcuts.note, Bool.or_eq_true]
    rcases hmem r hr with hold | rfl
    · exact .inl (h.wildcards r hold hw)
    · exact .inr hw
  · rw [Shortcuts.noteRecord, Shortcuts.note, Bool.or_eq_true]
    rcases hmem r hr with hold | rfl
    · exact .inl (h.delegations r hold hns happ)
    · grind
  · rw [Shortcuts.noteRecord, Shortcuts.note, Bool.or_eq_true]
    rcases hmem r hr with hold | rfl
    · exact .inl (h.dnames r hold hd)
    · exact .inr (by rw [hd]; exact beq_self_eq_true _)

theorem ShortcutsOk.mono (h : ShortcutsOk origin records shortcuts) {fewer : List ZoneRecord}
    (hsub : ∀ r ∈ fewer, r ∈ records) : ShortcutsOk origin fewer shortcuts :=
  ⟨fun r hr => h.wildcards r (hsub r hr), fun r hr => h.delegations r (hsub r hr),
    fun r hr => h.dnames r (hsub r hr)⟩

theorem shortcutsOk_nil (origin : Octets) (shortcuts : Shortcuts) :
    ShortcutsOk origin [] shortcuts :=
  ⟨fun _ h => (by cases h), fun _ h => (by cases h), fun _ h => (by cases h)⟩

/-! ## The chains play no part in the index: a zone with only those changed is as good. -/

@[simp]
theorem insertChain_records (record : ZoneRecord) (position : Nat) :
    (z.insertChain record position).records = z.records := by
  unfold insertChain
  split
  · rename_i key _
    cases key <;> rfl
  · rfl

@[simp]
theorem insertChain_index (record : ZoneRecord) (position : Nat) :
    (z.insertChain record position).index = z.index := by
  unfold insertChain
  split
  · rename_i key _
    cases key <;> rfl
  · rfl

@[simp]
theorem insertChain_origin (record : ZoneRecord) (position : Nat) :
    (z.insertChain record position).origin = z.origin := by
  unfold insertChain
  split
  · rename_i key _
    cases key <;> rfl
  · rfl

@[simp]
theorem insertChain_shortcuts (record : ZoneRecord) (position : Nat) :
    (z.insertChain record position).shortcuts = z.shortcuts := by
  unfold insertChain
  split
  · rename_i key _
    cases key <;> rfl
  · rfl

@[simp]
theorem removeChain_fields (record : ZoneRecord) :
    (z.removeChain record).records = z.records ∧ (z.removeChain record).index = z.index ∧
    (z.removeChain record).origin = z.origin ∧ (z.removeChain record).shortcuts = z.shortcuts := by
  unfold removeChain
  split
  · rename_i key _
    cases key <;> exact ⟨rfl, rfl, rfl, rfl⟩
  · exact ⟨rfl, rfl, rfl, rfl⟩

@[simp]
theorem originKey_insertChain (record : ZoneRecord) (position : Nat) :
    (z.insertChain record position).originKey = z.originKey := by
  rw [originKey, insertChain_origin, originKey]

theorem zoneOk_new (origin : Name) : ZoneOk (new origin) where
  index := Index.indexOk_empty _
  shortcuts := shortcutsOk_nil _ _

theorem ZoneOk.takeIn (h : ZoneOk z) (record : ZoneRecord) : ZoneOk (z.takeIn record) := by
  rw [Zone.takeIn]
  refine ⟨?_, ?_⟩
  · show Index.IndexOk (insertChain _ _ _).originKey (ownerAt (_ ++ [record])) (insertChain _ _ _).index
    rw [originKey_insertChain, insertChain_index, insertChain_records, ownerAt_append]
    exact h.index.takeIn (ownerAt_length z.records) record.key
  · show ShortcutsOk (insertChain _ _ _).originKey (_ ++ [record]) (insertChain _ _ _).shortcuts
    rw [originKey_insertChain, insertChain_records, insertChain_shortcuts]
    exact h.shortcuts.noteRecord record

theorem indexOk_foldl (origin : Octets) (records : List ZoneRecord) :
    Index.IndexOk origin (ownerAt records)
      (records.zipIdx.foldl (fun ix entry => ix.takeIn origin entry.1.key entry.2) Index.empty) := by
  induction records using List.reverseRecOn with
  | nil => exact Index.indexOk_empty origin
  | append_singleton records record ih =>
    rw [List.zipIdx_append, List.foldl_append, ownerAt_append]
    show Index.IndexOk origin _ (Index.takeIn _ origin record.key (0 + records.length))
    rw [Nat.zero_add]
    exact ih.takeIn (ownerAt_length records) record.key

theorem shortcutsOk_foldl (origin : Octets) (records : List ZoneRecord) :
    ShortcutsOk origin records (records.foldl (Shortcuts.noteRecord origin) .default) := by
  induction records using List.reverseRecOn with
  | nil => exact shortcutsOk_nil _ _
  | append_singleton records record ih =>
    rw [List.foldl_append]
    exact ih.noteRecord record

/-- **A reindex restores the invariant from the records alone.** -/
theorem zoneOk_reindex (z : Zone) : ZoneOk z.reindex where
  index := indexOk_foldl _ _
  shortcuts := shortcutsOk_foldl _ _

/-! ## Removal keeps the invariant -/

variable {position : Nat}

theorem getElem?_swapRemove {α : Type} {records : List α} (h : position < records.length) (i : Nat) :
    (swapRemove records position)[i]? =
      if i < records.length - 1 then
        if i = position then records[records.length - 1]? else records[i]?
      else none := by
  have hlast : records.length - 1 < records.length := by omega
  rw [swapRemove, List.getLast?_eq_getElem?, List.getElem?_eq_getElem hlast]
  show ((records.set position _).dropLast)[i]? = _
  rw [List.getElem?_dropLast, List.length_set]
  split
  · grind
  · rfl

theorem mem_of_mem_swapRemove {α : Type} {records : List α} (h : position < records.length) {r : α}
    (hr : r ∈ swapRemove records position) :
    r ∈ records := by
  obtain ⟨i, hi⟩ := List.mem_iff_getElem?.mp hr
  rw [getElem?_swapRemove h] at hi
  split at hi
  · grind
  · cases hi

theorem ownerAt_swapRemove (h : position < records.length) :
    ownerAt (swapRemove records position) =
      fun i => if i < records.length - 1 then
        if i = position then ownerAt records (records.length - 1) else ownerAt records i
      else none := by
  funext i
  rw [ownerAt, getElem?_swapRemove h]
  split
  · split <;> rfl
  · rfl

theorem index_swapRemove {key : Octets} {ix : Index} (hpos : position < z.records.length)
    (h : Index.IndexBut z.originKey key
      (fun i => if i = position then none else ownerAt z.records i) ix) :
    ∃ z', ({ z with index := ix, records := swapRemove z.records position }).renumber
        (z.records.length - 1) position = some z' ∧
      z'.origin = z.origin ∧ z'.shortcuts = z.shortcuts ∧
      z'.records = swapRemove z.records position ∧
      Index.IndexBut z.originKey key (ownerAt z'.records) z'.index := by
  by_cases hlast : z.records.length - 1 = position
  · -- the last record left: nothing moved
    rw [renumber, if_pos hlast]
    refine ⟨_, rfl, rfl, rfl, rfl, ?_⟩
    have howner : ownerAt (swapRemove z.records position)
        = fun i => if i = position then none else ownerAt z.records i := by
      rw [ownerAt_swapRemove hpos]
      funext i
      by_cases hi : i = position
      · rw [if_neg (by omega), if_pos hi]
      · grind [ownerAt]
    show Index.IndexBut z.originKey key (ownerAt (swapRemove z.records position)) ix
    rw [howner]
    exact h
  · obtain ⟨moved, hmoved⟩ : ∃ moved, z.records[z.records.length - 1]? = some moved :=
      ⟨_, List.getElem?_eq_getElem (by omega)⟩
    have hat : (swapRemove z.records position)[position]? = some moved := by grind [getElem?_swapRemove]
    have hfrom : (if z.records.length - 1 = position then none
        else ownerAt z.records (z.records.length - 1)) = some moved.key := by
      rw [if_neg hlast, ownerAt, hmoved]
      rfl
    obtain ⟨ix', hrun, hbut⟩ := h.refile hfrom (if_pos rfl)
    refine ⟨({ z with index := ix', records := swapRemove z.records position }).insertChain moved
      position, ?_, by rw [insertChain_origin], by rw [insertChain_shortcuts],
      by rw [insertChain_records], ?_⟩
    · grind [renumber]
    · rw [insertChain_records, insertChain_index]
      have howner : ownerAt (swapRemove z.records position)
          = fun i => if i = position then some moved.key
            else if i = z.records.length - 1 then none
            else if i = position then none else ownerAt z.records i := by
        rw [ownerAt_swapRemove hpos]
        funext i
        by_cases hi : i = position
        · rw [if_pos hi, if_pos (by omega), if_pos hi, ownerAt, hmoved]
          rfl
        · rw [if_neg hi, if_neg hi, if_neg hi]
          by_cases hi' : i = z.records.length - 1
          · rw [if_pos hi', if_neg (by omega)]
          · grind [ownerAt]
      show Index.IndexBut z.originKey key (ownerAt (swapRemove z.records position)) ix'
      rw [howner]
      exact hbut

theorem ZoneOk.settle (h : ZoneOk z) : ZoneOk z.settle := by
  rw [Zone.settle]
  dsimp only
  split
  · exact zoneOk_reindex _
  · exact ⟨h.index, h.shortcuts⟩

theorem settle_records (z : Zone) : z.settle.records = z.records ∧ z.settle.origin = z.origin := by
  rw [Zone.settle]
  dsimp only
  split <;> exact ⟨rfl, rfl⟩

/-- **A removal at a position the zone holds succeeds and keeps the invariant**; the
records are those before, the last one in the place of the one given back. -/
theorem ZoneOk.removeRecord (h : ZoneOk z) (hpos : position < z.records.length) :
    ∃ record z', z.removeRecord position = some (record, z') ∧
      z.records[position]? = some record ∧ z'.origin = z.origin ∧
      z'.records = swapRemove z.records position ∧ ZoneOk z' := by
  obtain ⟨record, hrecord⟩ : ∃ record, z.records[position]? = some record :=
    ⟨_, List.getElem?_eq_getElem hpos⟩
  obtain ⟨hrecords, hindex, horigin, hshortcuts⟩ := @removeChain_fields z record
  have hkey : (z.removeChain record).originKey = z.originKey := by
    rw [originKey, horigin, originKey]
  have howner : ownerAt z.records position = some record.key := by
    rw [ownerAt, hrecord]
    rfl
  obtain ⟨ix, left, hunfile, hbut, hleft⟩ := h.index.unfile howner
  obtain ⟨z', hmove, horigin', hshortcuts', hrecords', hbut'⟩ :=
    @index_swapRemove (z.removeChain record) _ _ _ (by rw [hrecords]; exact hpos)
      (by rw [hkey, hrecords]; exact hbut)
  have hkey' : z'.originKey = z.originKey := by
    rw [originKey, horigin', horigin, originKey]
  rw [hkey] at hbut'
  rw [hrecords] at hrecords'
  have hok : ZoneOk (if left = true then z' else z'.prune record.key) := by
    have hshort : ShortcutsOk z.originKey z'.records z'.shortcuts := by
      rw [hrecords', hshortcuts', hshortcuts]
      exact h.shortcuts.mono fun r hr => mem_of_mem_swapRemove hpos hr
    cases hl : left with
    | true =>
      -- another record of the name is still there, moved or not
      obtain ⟨i, hi, hiowner⟩ := hleft hl
      have hi' : ∃ j, ownerAt z'.records j = some record.key := by
        rw [hrecords', ownerAt_swapRemove hpos]
        have hilt : i < z.records.length := by
          by_contra hge
          rw [ownerAt, List.getElem?_eq_none (Nat.not_lt.mp hge)] at hiowner
          cases hiowner
        by_cases hilast : i = z.records.length - 1
        · grind
        · grind
      obtain ⟨j, hj⟩ := hi'
      rw [if_pos rfl]
      refine ⟨?_, ?_⟩
      · rw [hkey']
        exact hbut'.indexOk hj
      · rw [hkey']
        exact hshort
    | false =>
      rw [if_neg (by decide)]
      have hprune := hbut'.prune
      rw [← hkey'] at hprune hshort
      exact ⟨hprune, hshort⟩
  have hrun : z.removeRecord position
      = some (record, (if left = true then z' else z'.prune record.key).settle) := by
    rw [Zone.removeRecord, hrecord]
    show (Index.unfile (z.removeChain record).index record.key position >>= _) = _
    rw [hindex, hunfile]
    show (renumber _ _ _ >>= _) = _
    rw [hmove]
    rfl
  obtain ⟨hsrec, hsorig⟩ := settle_records (if left = true then z' else z'.prune record.key)
  refine ⟨record, _, hrun, hrecord, ?_, ?_, hok.settle⟩
  · rw [hsorig]
    split
    · exact horigin'.trans horigin
    · exact horigin'.trans horigin
  · rw [hsrec]
    split
    · exact hrecords'
    · exact hrecords'

/-! ## Runs -/

end Zone

inductive ZoneOp where
  | add (record : ZoneRecord)
  | addParsed (name : Name) (ttl : Ttl) (cls : Core.Class) (parsed : ParsedRecord)
  | removeRecord (position : Nat)
  | setOrigin (origin : Name)

namespace Zone

def apply (z : Zone) : ZoneOp → Option Zone
  | .add record => some (z.add record)
  | .addParsed name ttl cls parsed =>
    match z.addParsed name ttl cls parsed with
    | .ok z => some z
    | .error _ => some z
  | .removeRecord position => (z.removeRecord position).map Prod.snd
  | .setOrigin origin => some (z.setOrigin origin)

def run (z : Zone) (ops : List ZoneOp) : Option Zone := ops.foldlM apply z

variable {z z' : Zone}

theorem ZoneOk.apply (h : ZoneOk z) {op : ZoneOp} (hrun : z.apply op = some z') : ZoneOk z' := by
  cases op with
  | add record =>
    cases hrun
    exact h.takeIn _
  | addParsed name ttl cls parsed =>
    rw [Zone.apply] at hrun
    cases hstored : storedParsed parsed with
    | error e =>
      rw [addParsed, hstored] at hrun
      cases hrun
      exact h
    | ok rdata =>
      rw [addParsed, hstored] at hrun
      cases hrun
      exact h.takeIn _
  | removeRecord position =>
    by_cases hpos : position < z.records.length
    · obtain ⟨record, z₁, hremove, -, -, -, hok⟩ := h.removeRecord hpos
      rw [Zone.apply, hremove] at hrun
      cases hrun
      exact hok
    · rw [Zone.apply, Zone.removeRecord, List.getElem?_eq_none (Nat.not_lt.mp hpos)] at hrun
      cases hrun
  | setOrigin origin =>
    cases hrun
    exact zoneOk_reindex _

/-- **Every run keeps the invariant.** -/
theorem ZoneOk.run (h : ZoneOk z) {ops : List ZoneOp} (hrun : z.run ops = some z') : ZoneOk z' := by
  induction ops generalizing z with
  | nil =>
    cases hrun
    exact h
  | cons op ops ih =>
    rw [Zone.run, List.foldlM_cons, Option.bind_eq_bind, Option.bind_eq_some_iff] at hrun
    obtain ⟨z₁, hstep, hrest⟩ := hrun
    exact ih (h.apply hstep) hrest

theorem takeIn_records (z : Zone) (record : ZoneRecord) :
    (z.takeIn record).records = z.records ++ [record] := by
  rw [takeIn]
  dsimp only
  rw [insertChain_records]

theorem takeIn_origin (z : Zone) (record : ZoneRecord) : (z.takeIn record).origin = z.origin := by
  rw [takeIn]
  dsimp only
  rw [insertChain_origin]

theorem foldl_takeIn (records : List ZoneRecord) (z : Zone) :
    (records.foldl takeIn z).records = z.records ++ records ∧
    (records.foldl takeIn z).origin = z.origin := by
  induction records generalizing z with
  | nil => exact ⟨(List.append_nil _).symm, rfl⟩
  | cons record records ih =>
    obtain ⟨hrecords, horigin⟩ := ih (z.takeIn record)
    rw [takeIn_records, List.append_assoc] at hrecords
    rw [takeIn_origin] at horigin
    exact ⟨hrecords, horigin⟩

theorem ZoneOk.foldl_takeIn (h : ZoneOk z) (records : List ZoneRecord) :
    ZoneOk (records.foldl Zone.takeIn z) := by
  induction records generalizing z with
  | nil => exact h
  | cons record records ih => exact ih (h.takeIn record)

def Fits (z : Zone) : Prop := ∀ r ∈ z.records, r.rdata.rdata.length ≤ 65535

theorem Fits.takeIn (h : Fits z) {record : ZoneRecord} (hlen : record.rdata.rdata.length ≤ 65535) :
    Fits (z.takeIn record) := by
  intro r hr
  rw [takeIn_records, List.mem_append, List.mem_singleton] at hr
  rcases hr with hr | rfl
  · exact h r hr
  · exact hlen

theorem length_stored_le (data : RecordData) : (stored data).rdata.length ≤ 65535 := by
  rw [stored, List.length_take]
  omega

theorem storedParsed_length {parsed : ParsedRecord} {data : RecordData}
    (h : storedParsed parsed = .ok data) : data.rdata.length ≤ 65535 := by
  obtain ⟨found, -, h⟩ := except_bind_eq_ok.mp h
  simp only at h
  split at h
  · cases h
  · cases h
    omega

theorem Fits.apply (h : Fits z) (hok : ZoneOk z) {op : ZoneOp} (hrun : z.apply op = some z') :
    Fits z' := by
  cases op with
  | add record =>
    cases hrun
    exact h.takeIn (length_stored_le _)
  | addParsed name ttl cls parsed =>
    rw [Zone.apply] at hrun
    cases hstored : storedParsed parsed with
    | error e =>
      rw [addParsed, hstored] at hrun
      cases hrun
      exact h
    | ok rdata =>
      rw [addParsed, hstored] at hrun
      cases hrun
      exact h.takeIn (storedParsed_length hstored)
  | removeRecord position =>
    by_cases hpos : position < z.records.length
    · obtain ⟨record, z₁, hremove, -, -, hrecords, -⟩ := hok.removeRecord hpos
      rw [Zone.apply, hremove] at hrun
      cases hrun
      intro r hr
      rw [show (record, z₁).2.records = _ from hrecords] at hr
      exact h r (mem_of_mem_swapRemove hpos hr)
    · rw [Zone.apply, Zone.removeRecord, List.getElem?_eq_none (Nat.not_lt.mp hpos)] at hrun
      cases hrun
  | setOrigin origin =>
    cases hrun
    exact h

/-- **Every run of a new zone holds RDATA that fits.** -/
theorem Fits.run (h : Fits z) (hok : ZoneOk z) {ops : List ZoneOp} (hrun : z.run ops = some z') :
    Fits z' := by
  induction ops generalizing z with
  | nil =>
    cases hrun
    exact h
  | cons op ops ih =>
    rw [Zone.run, List.foldlM_cons, Option.bind_eq_bind, Option.bind_eq_some_iff] at hrun
    obtain ⟨z₁, hstep, hrest⟩ := hrun
    exact ih (h.apply hok hstep) (hok.apply hstep) hrest

end Zone

end Rdns.Zones
