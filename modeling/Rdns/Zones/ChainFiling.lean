import Rdns.Lib.SortedMap
import Rdns.Zones.SortKeys

/-!
# Rdns — What the denial chains file

`Zone::nsec_chain` and `Zone::nsec3_chain` of `rdns/src/zone.rs`, against the records. A record
taken in is filed at its position over whatever its key had; a record taken out takes its key's
entry with it, whichever record of the key the entry was for, and the record moved into its place
is filed again.
-/

namespace Rdns.Zones

open Rdns.Lib Rdns.Core Rdns.Present RecordTypes

/-! ## One chain -/

def ownerHash (name : Name) : Option Nsec3Hash := do
  let label ← name.labels.head?
  let decoded ← (base32hexDecode label).toOption
  Nsec3Hash.fromWire decoded

inductive DenialChain where
  | nsec
  | nsec3
deriving DecidableEq

namespace DenialChain

def of (z : Zone) : DenialChain → Chain
  | .nsec => z.nsecChain
  | .nsec3 => z.nsec3Chain

def key (record : ZoneRecord) : DenialChain → Option Octets
  | .nsec => if record.rtype = NSEC then some (canonicalSortKey record.name) else none
  | .nsec3 => if record.rtype = NSEC3 then (ownerHash record.name).map Nsec3Hash.octets else none

def fileIn (w : DenialChain) (chain : Chain) (record : ZoneRecord) (position : Nat) : Chain :=
  match w.key record with
  | some k => chain.insert k position
  | none => chain

def strike (w : DenialChain) (chain : Chain) (record : ZoneRecord) : Chain :=
  match w.key record with
  | some k => chain.remove k
  | none => chain

end DenialChain

theorem Chain.insert_eq (key : Octets) (position : Nat) (chain : Chain) :
    Chain.insert key position chain = SortedMap.insert key position chain := by
  induction chain with
  | nil => rfl
  | cons entry rest ih =>
    obtain ⟨k, p⟩ := entry
    rw [SortedMap.insert, SortedMap.alter, Chain.insert, ih, SortedMap.insert]
    by_cases heq : key = k
    · rw [if_pos heq, if_pos heq]
    · grind

theorem Chain.get_remove (key other : Octets) (chain : Chain) :
    SortedMap.get (Chain.remove key chain) other = if key = other then none else SortedMap.get chain other := by
  induction chain with
  | nil => rw [Chain.remove, List.filter_nil]; split <;> rfl
  | cons entry rest ih =>
    obtain ⟨k, p⟩ := entry
    rw [Chain.remove] at ih ⊢
    rw [SortedMap.get_cons]
    by_cases hk : k = key
    · rw [List.filter_cons_of_neg (by rw [hk]; simp), ih]
      subst hk
      by_cases heq : k = other
      · rw [if_pos heq, if_pos heq]
      · rw [if_neg heq, if_neg heq, if_neg heq]
    · rw [List.filter_cons_of_pos (by simpa using hk), SortedMap.get_cons, ih]
      by_cases heq : key = other
      · rw [if_pos heq, if_neg (fun h => hk (h.trans heq.symm)), if_pos heq]
      · rw [if_neg heq, if_neg heq]

namespace DenialChain

variable {w : DenialChain} {chain : Chain}

theorem ordered_fileIn (h : SortedMap.Ordered chain) (record : ZoneRecord) (position : Nat) :
    SortedMap.Ordered (w.fileIn chain record position) := by
  rw [fileIn]
  split
  · rw [Chain.insert_eq]
    exact SortedMap.Ordered.alter h _ _
  · exact h

theorem ordered_strike (h : SortedMap.Ordered chain) (record : ZoneRecord) :
    SortedMap.Ordered (w.strike chain record) := by
  rw [strike]
  split
  · exact SortedMap.Ordered.filter h _
  · exact h

theorem get_fileIn (h : SortedMap.Ordered chain) (record : ZoneRecord) (position : Nat) (key : Octets) :
    SortedMap.get (w.fileIn chain record position) key =
      if w.key record = some key then some position else SortedMap.get chain key := by
  rw [fileIn]
  split
  · rename_i k hk
    rw [hk, Chain.insert_eq, SortedMap.insert]
    by_cases heq : k = key
    · subst heq
      rw [if_pos rfl, SortedMap.get_alter_self _ _ _ h]
    · rw [if_neg (fun hsome => heq (Option.some.inj hsome)), SortedMap.get_alter_ne (Ne.symm heq)]
  · rename_i hk
    rw [hk, if_neg (fun hsome => by cases hsome)]

theorem get_strike (chain : Chain) (record : ZoneRecord) (key : Octets) :
    SortedMap.get (w.strike chain record) key =
      if w.key record = some key then none else SortedMap.get chain key := by
  rw [strike]
  split
  · rename_i k hk
    rw [hk, Chain.get_remove]
    by_cases heq : k = key
    · rw [if_pos heq, if_pos (congrArg some heq)]
    · rw [if_neg heq, if_neg (fun hsome => heq (Option.some.inj hsome))]
  · rename_i hk
    rw [hk, if_neg (fun hsome => by cases hsome)]

end DenialChain

/-! ## What a call does to a chain -/

section Calls

variable {w : DenialChain} {z z' : Zone}

theorem chainKey_eq (name : Name) (rtype : Rtype) : chainKey name rtype =
    if rtype = NSEC then some (.nsec (canonicalSortKey name))
    else if rtype = NSEC3 then (ownerHash name).map .nsec3
    else none := by
  rw [chainKey]
  split
  · rfl
  · split
    · rw [ownerHash]
      cases name.labels.head? with
      | none => rfl
      | some label =>
        show (base32hexDecode label).toOption.bind _ = ((base32hexDecode label).toOption.bind _).map _
        cases (base32hexDecode label).toOption with
        | none => rfl
        | some decoded => grind [Nsec3Hash.fromWire]
    · rfl

def DenialChain.under : DenialChain → ChainKey → Option Octets
  | .nsec, .nsec key => some key
  | .nsec3, .nsec3 hash => some hash.octets
  | _, _ => none

theorem DenialChain.key_eq (w : DenialChain) (record : ZoneRecord) :
    w.key record = (chainKey record.name record.rtype).bind w.under := by
  have hapart : NSEC ≠ NSEC3 := by decide
  rw [chainKey_eq]
  by_cases hnsec : record.rtype = NSEC
  · have hnot : record.rtype ≠ NSEC3 := hnsec ▸ hapart
    rw [if_pos hnsec]
    cases w with
    | nsec => exact if_pos hnsec
    | nsec3 => exact if_neg hnot
  · rw [if_neg hnsec]
    cases w with
    | nsec =>
      rw [DenialChain.key, if_neg hnsec]
      split
      · cases ownerHash record.name <;> rfl
      · rfl
    | nsec3 =>
      rw [DenialChain.key]
      split
      · cases ownerHash record.name <;> rfl
      · rfl

theorem insertChain_chain (w : DenialChain) (z : Zone) (record : ZoneRecord) (position : Nat) :
    w.of (z.insertChain record position) = w.fileIn (w.of z) record position := by
  rw [Zone.insertChain, DenialChain.fileIn, w.key_eq record]
  cases chainKey record.name record.rtype with
  | none => rfl
  | some key => cases w <;> cases key <;> rfl

theorem removeChain_chain (w : DenialChain) (z : Zone) (record : ZoneRecord) :
    w.of (z.removeChain record) = w.strike (w.of z) record := by
  rw [Zone.removeChain, DenialChain.strike, w.key_eq record]
  cases chainKey record.name record.rtype with
  | none => rfl
  | some key => cases w <;> cases key <;> rfl

theorem of_congr (w : DenialChain) (hnsec : z'.nsecChain = z.nsecChain) (hnsec3 : z'.nsec3Chain = z.nsec3Chain) :
    w.of z' = w.of z := by
  cases w with
  | nsec => exact hnsec
  | nsec3 => exact hnsec3

theorem takeIn_chain (w : DenialChain) (z : Zone) (record : ZoneRecord) :
    w.of (z.takeIn record) = w.fileIn (w.of z) record z.records.length := by
  have hfiled := insertChain_chain w { z with
    shortcuts := z.shortcuts.noteRecord z.originKey record
    index := z.index.takeIn z.originKey record.key z.records.length } record z.records.length
  cases w with
  | nsec => exact hfiled
  | nsec3 => exact hfiled

theorem settle_chain (w : DenialChain) (z : Zone) : w.of z.settle = w.of z := by
  rw [Zone.settle]
  dsimp only
  split <;> exact of_congr w rfl rfl

/-- **What a removal does to a chain**: the key of the record taken out is struck, and the record
moved into its place is filed there. -/
theorem removeRecord_chain (w : DenialChain) {position : Nat} {record : ZoneRecord}
    (h : z.removeRecord position = some (record, z')) :
    z.records[position]? = some record ∧ z'.records = swapRemove z.records position ∧
      ((z.records.length - 1 = position ∧ w.of z' = w.strike (w.of z) record) ∨
        (z.records.length - 1 ≠ position ∧ ∃ moved, (swapRemove z.records position)[position]? = some moved ∧
          w.of z' = w.fileIn (w.strike (w.of z) record) moved position)) := by
  obtain ⟨removed, hrecord, h⟩ := Option.bind_eq_some_iff.mp h
  obtain ⟨⟨index, left⟩, -, h⟩ := Option.bind_eq_some_iff.mp h
  obtain ⟨after, hrenumber, h⟩ := Option.bind_eq_some_iff.mp h
  cases h
  obtain ⟨hremoved, -⟩ := @Zone.removeChain_fields z record
  rw [hremoved] at hrenumber
  -- what follows the renumbering changes neither the records nor the chains
  have hafter : ∀ kept : Zone, kept = (if left = true then after else after.prune record.key) →
      kept.records = after.records ∧ w.of kept = w.of after := by
    intro kept hkept
    subst hkept
    split
    · exact ⟨rfl, rfl⟩
    · exact ⟨rfl, of_congr w rfl rfl⟩
  obtain ⟨hrecords, hchain⟩ := hafter _ rfl
  rw [(Zone.settle_records _).1, settle_chain, hrecords, hchain]
  refine ⟨hrecord, ?_⟩
  rw [Zone.renumber] at hrenumber
  split at hrenumber
  · rename_i hlast
    cases hrenumber
    refine ⟨rfl, .inl ⟨hlast, ?_⟩⟩
    rw [of_congr w rfl rfl]
    exact removeChain_chain w z record
  · rename_i hlast
    obtain ⟨moved, hmoved, hrenumber⟩ := Option.bind_eq_some_iff.mp hrenumber
    obtain ⟨refiled, -, hrenumber⟩ := Option.bind_eq_some_iff.mp hrenumber
    cases hrenumber
    refine ⟨Zone.insertChain_records _ _, .inr ⟨hlast, moved, hmoved, ?_⟩⟩
    rw [insertChain_chain, of_congr w rfl rfl]
    exact congrArg (fun chain => w.fileIn chain moved position) (removeChain_chain w z record)

end Calls

/-! ## What a chain files of the records held -/

/-- A chain has an entry for a key exactly where the zone holds a record that belongs under it, and
the entry is the position of one. -/
structure Filed (w : DenialChain) (key : Octets) (belongs : ZoneRecord → Prop) (z : Zone) : Prop where
  entry : (SortedMap.get (w.of z) key).isSome = true ↔ ∃ r ∈ z.records, belongs r
  position : ∀ i, SortedMap.get (w.of z) key = some i → ∃ r, z.records[i]? = some r ∧ belongs r

/-- A call that leaves a chain right: it takes in no other record under the key, and takes none of
the key's records out while another stays, but where the last record, moved into its place, is one. -/
def Keeps (w : DenialChain) (key : Octets) (belongs : ZoneRecord → Prop) (z : Zone) : ZoneOp → Prop
  | .add record => w.key record = some key → belongs { record with rdata := stored record.rdata }
  | .addParsed name ttl cls parsed => ∀ rdata, storedParsed parsed = .ok rdata →
      w.key ⟨name, ttl, cls, rdata⟩ = some key → belongs ⟨name, ttl, cls, rdata⟩
  | .removeRecord position => ∀ record, z.records[position]? = some record → w.key record = some key →
      (∃ i r, i ≠ position ∧ z.records[i]? = some r ∧ w.key r = some key) →
      position ≠ z.records.length - 1 ∧ ∃ r, z.records[z.records.length - 1]? = some r ∧ w.key r = some key
  | .setOrigin _ => True

structure Orderly (w : DenialChain) (key : Octets) (belongs : ZoneRecord → Prop) (z : Zone) : Prop where
  ok : Zone.ZoneOk z
  ordered : SortedMap.Ordered (w.of z)
  only : ∀ r ∈ z.records, w.key r = some key → belongs r
  filed : Filed w key belongs z

section Filing

variable {w : DenialChain} {key : Octets} {belongs : ZoneRecord → Prop} {z z' : Zone}

variable {record : ZoneRecord} {position : Nat}

theorem Orderly.takeIn (hkey : ∀ r, belongs r → w.key r = some key) (h : Orderly w key belongs z)
    (hbelongs : w.key record = some key → belongs record) :
    Orderly w key belongs (z.takeIn record) := by
  have hget := DenialChain.get_fileIn (w := w) h.ordered record z.records.length key
  rw [← takeIn_chain] at hget
  refine ⟨h.ok.takeIn record, ?_, fun r hr hr' => ?_, ?_, fun i hi => ?_⟩
  · rw [takeIn_chain]
    exact DenialChain.ordered_fileIn h.ordered record _
  · rw [Zone.takeIn_records, List.mem_append, List.mem_singleton] at hr
    rcases hr with hr | rfl
    · exact h.only r hr hr'
    · exact hbelongs hr'
  · rw [hget, Zone.takeIn_records]
    by_cases hrecord : w.key record = some key
    · rw [if_pos hrecord]
      exact ⟨fun _ => ⟨record, List.mem_append_right _ (List.mem_singleton_self _), hbelongs hrecord⟩, fun _ => rfl⟩
    · rw [if_neg hrecord, h.filed.entry]
      constructor
      · rintro ⟨r, hr, hr'⟩
        exact ⟨r, List.mem_append_left _ hr, hr'⟩
      · grind
  · rw [hget] at hi
    rw [Zone.takeIn_records]
    split at hi
    · grind
    · obtain ⟨r, hr, hr'⟩ := h.filed.position i hi
      exact ⟨r, by rw [List.getElem?_append_left (List.getElem?_eq_some_iff.mp hr).1, hr], hr'⟩

theorem not_filed_takeIn (hordered : SortedMap.Ordered (w.of z)) (hrecord : w.key record = some key)
    (hnot : ¬ belongs record) : ¬ Filed w key belongs (z.takeIn record) := by
  intro hfiled
  have hget := DenialChain.get_fileIn (w := w) hordered record z.records.length key
  rw [← takeIn_chain, if_pos hrecord] at hget
  obtain ⟨r, hr, hr'⟩ := hfiled.position _ hget
  rw [Zone.takeIn_records, List.getElem?_concat_length] at hr
  cases hr
  exact hnot hr'

theorem mem_swapRemove_iff {α : Type} {records : List α} (h : position < records.length) {r : α} :
    r ∈ swapRemove records position ↔ ∃ i, i ≠ position ∧ records[i]? = some r := by
  rw [List.mem_iff_getElem?]
  constructor
  · grind [Zone.getElem?_swapRemove]
  · rintro ⟨i, hne, hi⟩
    have hlt := (List.getElem?_eq_some_iff.mp hi).1
    by_cases hlast : i = records.length - 1
    · refine ⟨position, ?_⟩
      rw [Zone.getElem?_swapRemove h, if_pos (by omega), if_pos rfl, ← hlast, hi]
    · refine ⟨i, ?_⟩
      rw [Zone.getElem?_swapRemove h, if_pos (by omega), if_neg hne, hi]

theorem get_removeRecord (hordered : SortedMap.Ordered (w.of z))
    (hremove : z.removeRecord position = some (record, z')) (key : Octets) :
    SortedMap.Ordered (w.of z') ∧
      (((position ≠ z.records.length - 1 ∧ ∃ r, z.records[z.records.length - 1]? = some r ∧ w.key r = some key) ∧
          SortedMap.get (w.of z') key = some position) ∨
        (¬ (position ≠ z.records.length - 1 ∧ ∃ r, z.records[z.records.length - 1]? = some r ∧ w.key r = some key) ∧
          SortedMap.get (w.of z') key = if w.key record = some key then none else SortedMap.get (w.of z) key)) := by
  obtain ⟨hrecord, -, ⟨hlast, hchain⟩ | ⟨hlast, moved, hmoved, hchain⟩⟩ := removeRecord_chain w hremove
  · grind [DenialChain.ordered_strike, DenialChain.get_strike]
  · have hlt := (List.getElem?_eq_some_iff.mp hrecord).1
    rw [Zone.getElem?_swapRemove hlt, if_pos (by omega), if_pos rfl] at hmoved
    have hstruck := DenialChain.ordered_strike (w := w) hordered record
    rw [hchain]
    refine ⟨DenialChain.ordered_fileIn hstruck moved position, ?_⟩
    rw [DenialChain.get_fileIn hstruck, DenialChain.get_strike]
    by_cases hkey : w.key moved = some key
    · exact .inl ⟨⟨Ne.symm hlast, moved, hmoved, hkey⟩, if_pos hkey⟩
    · grind

/-- **A removal leaves the chain right exactly where it keeps it.** -/
theorem filed_removeRecord_iff (hkey : ∀ r, belongs r → w.key r = some key)
    (h : Orderly w key belongs z) (hremove : z.removeRecord position = some (record, z')) :
    Filed w key belongs z' ↔ Keeps w key belongs z (.removeRecord position) := by
  obtain ⟨hrecord, hrecords, -⟩ := removeRecord_chain w hremove
  have hlt : position < z.records.length := (List.getElem?_eq_some_iff.mp hrecord).1
  have hleft : (∃ r ∈ z'.records, belongs r) ↔ ∃ i r, i ≠ position ∧ z.records[i]? = some r ∧ w.key r = some key := by
    rw [hrecords]
    constructor
    · rintro ⟨r, hr, hbelongs⟩
      obtain ⟨i, hne, hi⟩ := (mem_swapRemove_iff hlt).mp hr
      exact ⟨i, r, hne, hi, hkey r hbelongs⟩
    · rintro ⟨i, r, hne, hi, hr⟩
      exact ⟨r, (mem_swapRemove_iff hlt).mpr ⟨i, hne, hi⟩, h.only r (List.mem_of_getElem? hi) hr⟩
  have hkeeps : Keeps w key belongs z (.removeRecord position) ↔ (w.key record = some key →
      (∃ i r, i ≠ position ∧ z.records[i]? = some r ∧ w.key r = some key) →
      position ≠ z.records.length - 1 ∧ ∃ r, z.records[z.records.length - 1]? = some r ∧ w.key r = some key) := by
    constructor
    · exact fun hall => hall record hrecord
    · intro hone r hr
      cases hrecord.symm.trans hr
      exact hone
  rw [hkeeps]
  obtain ⟨-, ⟨hmoved, hget⟩ | ⟨hmoved, hget⟩⟩ := get_removeRecord h.ordered hremove key
  · -- the record moved into the place is one of the key's
    refine ⟨fun _ _ _ => hmoved, fun _ => ?_⟩
    obtain ⟨hne, r, hr, hrkey⟩ := hmoved
    have hat : z'.records[position]? = some r := by
      rw [hrecords, Zone.getElem?_swapRemove hlt, if_pos (by omega), if_pos rfl, hr]
    have hbelongs := h.only r (List.mem_of_getElem? hr) hrkey
    refine ⟨?_, fun i hi => ?_⟩
    · rw [hget]
      exact ⟨fun _ => ⟨r, List.mem_of_getElem? hat, hbelongs⟩, fun _ => rfl⟩
    · grind
  · by_cases hstruck : w.key record = some key
    · -- the key has no entry left: right where it has no record left
      rw [if_pos hstruck] at hget
      constructor
      · intro hfiled _ hother
        have hsome := hfiled.entry.mpr (hleft.mpr hother)
        rw [hget] at hsome
        cases hsome
      · intro hkept
        refine ⟨?_, fun i hi => ?_⟩
        · rw [hget, hleft]
          exact ⟨fun hsome => (by cases hsome), fun hother => absurd (hkept hstruck hother) hmoved⟩
        · rw [hget] at hi
          cases hi
    · -- the key's entry and its records are those it had
      rw [if_neg hstruck] at hget
      refine ⟨fun _ hrecord' => absurd hrecord' hstruck, fun _ => ⟨?_, fun i hi => ?_⟩⟩
      · rw [hget, h.filed.entry, hleft]
        constructor
        · rintro ⟨r, hr, hbelongs⟩
          obtain ⟨i, hi⟩ := List.mem_iff_getElem?.mp hr
          refine ⟨i, r, ?_, hi, hkey r hbelongs⟩
          rintro rfl
          cases hrecord.symm.trans hi
          exact hstruck (hkey record hbelongs)
        · rintro ⟨i, r, -, hi, hr⟩
          exact ⟨r, List.mem_of_getElem? hi, h.only r (List.mem_of_getElem? hi) hr⟩
      · rw [hget] at hi
        obtain ⟨r, hr, hbelongs⟩ := h.filed.position i hi
        have hne : i ≠ position := by
          rintro rfl
          cases hrecord.symm.trans hr
          exact hstruck (hkey record hbelongs)
        have hlast : i ≠ z.records.length - 1 := by
          rintro rfl
          exact hmoved ⟨Ne.symm hne, r, hr, hkey r hbelongs⟩
        have hilt := (List.getElem?_eq_some_iff.mp hr).1
        exact ⟨r, by rw [hrecords, Zone.getElem?_swapRemove hlt, if_pos (by omega), if_neg hne, hr], hbelongs⟩

/-- **One call**: it leaves the chain right exactly where it keeps it, and then the rest holds too. -/
theorem Orderly.apply (hkey : ∀ r, belongs r → w.key r = some key) (h : Orderly w key belongs z) {op : ZoneOp}
    (hop : z.apply op = some z') :
    (Filed w key belongs z' ↔ Keeps w key belongs z op) ∧ (Keeps w key belongs z op → Orderly w key belongs z') := by
  -- a record taken in, whichever call does it
  have htake : ∀ record : ZoneRecord, (Filed w key belongs (z.takeIn record) ↔ (w.key record = some key → belongs record)) ∧
      ((w.key record = some key → belongs record) → Orderly w key belongs (z.takeIn record)) := by
    intro record
    refine ⟨⟨fun hfiled hrecord => ?_, fun hbelongs => (h.takeIn hkey hbelongs).filed⟩, h.takeIn hkey⟩
    by_contra hnot
    exact not_filed_takeIn h.ordered hrecord hnot hfiled
  cases op with
  | add record =>
    cases hop
    have hstored : w.key { record with rdata := stored record.rdata } = w.key record := by cases w <;> rfl
    obtain ⟨hfiled, horderly⟩ := htake { record with rdata := stored record.rdata }
    rw [hstored] at hfiled horderly
    exact ⟨hfiled, horderly⟩
  | addParsed name ttl cls parsed =>
    rw [Zone.apply] at hop
    cases hstored : storedParsed parsed with
    | error e =>
      rw [Zone.addParsed, hstored] at hop
      cases hop
      refine ⟨⟨fun _ rdata hrdata => ?_, fun _ => h.filed⟩, fun _ => h⟩
      cases hstored.symm.trans hrdata
    | ok rdata =>
      rw [Zone.addParsed, hstored] at hop
      cases hop
      obtain ⟨hfiled, horderly⟩ := htake ⟨name, ttl, cls, rdata⟩
      have hkeeps : Keeps w key belongs z (.addParsed name ttl cls parsed) ↔
          (w.key ⟨name, ttl, cls, rdata⟩ = some key → belongs ⟨name, ttl, cls, rdata⟩) := by
        constructor
        · exact fun hall => hall rdata hstored
        · intro hone other hother
          cases hstored.symm.trans hother
          exact hone
      rw [hkeeps]
      exact ⟨hfiled, horderly⟩
  | removeRecord position =>
    rw [Zone.apply, Option.map_eq_some_iff] at hop
    obtain ⟨⟨record, after⟩, hremove, rfl⟩ := hop
    have hiff := filed_removeRecord_iff hkey h hremove
    refine ⟨hiff, fun hkeeps => ⟨?_, (get_removeRecord h.ordered hremove key).1, ?_, hiff.mpr hkeeps⟩⟩
    · exact h.ok.apply (show z.apply (.removeRecord position) = some after by rw [Zone.apply, hremove]; rfl)
    · obtain ⟨hrecord, hrecords, -⟩ := removeRecord_chain w hremove
      intro r hr
      rw [hrecords] at hr
      exact h.only r (Zone.mem_of_mem_swapRemove (List.getElem?_eq_some_iff.mp hrecord).1 hr)
  | setOrigin origin =>
    cases hop
    have hchain : w.of (z.setOrigin origin) = w.of z := of_congr w rfl rfl
    have hfiled : Filed w key belongs (z.setOrigin origin) := by
      refine ⟨?_, ?_⟩
      · rw [hchain]
        exact h.filed.entry
      · rw [hchain]
        exact h.filed.position
    exact ⟨⟨fun _ => trivial, fun _ => hfiled⟩, fun _ => ⟨Zone.zoneOk_reindex _, hchain ▸ h.ordered, h.only, hfiled⟩⟩

theorem Orderly.keeps_of_panic (h : Orderly w key belongs z) {op : ZoneOp} (hop : z.apply op = none) :
    Keeps w key belongs z op := by
  cases op with
  | add record => cases hop
  | addParsed name ttl cls parsed =>
    rw [Zone.apply] at hop
    split at hop <;> cases hop
  | removeRecord position =>
    intro record hrecord
    obtain ⟨_, _, hremove, -⟩ := h.ok.removeRecord (List.getElem?_eq_some_iff.mp hrecord).1
    rw [Zone.apply, hremove] at hop
    cases hop
  | setOrigin origin => trivial

end Filing

/-! ## Runs -/

def EveryState (P : Zone → Prop) (z : Zone) : List ZoneOp → Prop
  | [] => P z
  | op :: rest => P z ∧ ∀ z', z.apply op = some z' → EveryState P z' rest

def EveryCall (P : Zone → ZoneOp → Prop) (z : Zone) : List ZoneOp → Prop
  | [] => True
  | op :: rest => P z op ∧ ∀ z', z.apply op = some z' → EveryCall P z' rest

variable {z : Zone}

theorem EveryState.head {P : Zone → Prop} {ops : List ZoneOp} (h : EveryState P z ops) : P z := by
  cases ops with
  | nil => exact h
  | cons op rest => exact h.1

theorem EveryState.last {P : Zone → Prop} {z' : Zone} {ops : List ZoneOp} (h : EveryState P z ops)
    (hrun : z.run ops = some z') : P z' := by
  induction ops generalizing z with
  | nil =>
    cases hrun
    exact h
  | cons op rest ih =>
    rw [Zone.run, List.foldlM_cons, Option.bind_eq_bind, Option.bind_eq_some_iff] at hrun
    obtain ⟨next, hop, hrest⟩ := hrun
    exact ih (h.2 next hop) hrest

/-- **A chain is right in every state of a run exactly where every call keeps it.** -/
theorem Orderly.everyState_iff {w : DenialChain} {key : Octets} {belongs : ZoneRecord → Prop}
    (hkey : ∀ r, belongs r → w.key r = some key) (h : Orderly w key belongs z) (ops : List ZoneOp) :
    EveryState (Filed w key belongs) z ops ↔ EveryCall (Keeps w key belongs) z ops := by
  induction ops generalizing z with
  | nil => exact ⟨fun _ => trivial, fun _ => h.filed⟩
  | cons op rest ih =>
    rw [EveryState, EveryCall]
    cases hop : z.apply op with
    | none => exact ⟨fun _ => ⟨h.keeps_of_panic hop, fun z' hz' => by cases hz'⟩, fun _ => ⟨h.filed, fun z' hz' => by cases hz'⟩⟩
    | some next =>
      obtain ⟨hiff, horderly⟩ := h.apply hkey hop
      constructor
      · rintro ⟨-, hstates⟩
        have hnext := hstates next rfl
        have hkeeps := hiff.mp hnext.head
        refine ⟨hkeeps, fun z' hz' => ?_⟩
        cases hz'
        exact (ih (horderly hkeeps)).mp hnext
      · rintro ⟨hkeeps, hcalls⟩
        refine ⟨h.filed, fun z' hz' => ?_⟩
        cases hz'
        exact (ih (horderly hkeeps)).mpr (hcalls next rfl)

theorem orderly_new (w : DenialChain) (key : Octets) (belongs : ZoneRecord → Prop) (origin : Name) :
    Orderly w key belongs (Zone.new origin) := by
  have hchain : w.of (Zone.new origin) = [] := by cases w <;> rfl
  refine ⟨Zone.zoneOk_new origin, ?_, fun r hr => (by cases hr), ?_, ?_⟩
  · rw [hchain]
    exact SortedMap.ordered_nil
  · rw [hchain]
    refine ⟨fun hsome => (by cases hsome), ?_⟩
    rintro ⟨r, hr, -⟩
    cases hr
  · rw [hchain]
    intro i hi
    cases hi

def IsNsecAt (name : Name) (record : ZoneRecord) : Prop :=
  record.rtype = NSEC ∧ record.name.same name = true

def IsNsec3At (hash : Nsec3Hash) (record : ZoneRecord) : Prop :=
  record.rtype = NSEC3 ∧ ownerHash record.name = some hash

theorem key_of_isNsecAt {name : Name} {record : ZoneRecord} (h : IsNsecAt name record) :
    DenialChain.nsec.key record = some (canonicalSortKey name) := by
  rw [DenialChain.key, if_pos h.1, canonicalSortKey_congr h.2]

theorem key_of_isNsec3At {hash : Nsec3Hash} {record : ZoneRecord} (h : IsNsec3At hash record) :
    DenialChain.nsec3.key record = some hash.octets := by
  rw [DenialChain.key, if_pos h.1, h.2]
  rfl

/-- **In which runs the chains file what the zone holds**: for each name, those that take in no NSEC
of another name under its key, and take out none of its NSECs while another stays, but where the
last record, moved into its place, is one; and for each hash likewise. -/
theorem chains_filed_iff (origin : Name) (ops : List ZoneOp) :
    (∀ name, EveryState (Filed .nsec (canonicalSortKey name) (IsNsecAt name)) (Zone.new origin) ops ↔
      EveryCall (Keeps .nsec (canonicalSortKey name) (IsNsecAt name)) (Zone.new origin) ops) ∧
    ∀ hash : Nsec3Hash, EveryState (Filed .nsec3 hash.octets (IsNsec3At hash)) (Zone.new origin) ops ↔
      EveryCall (Keeps .nsec3 hash.octets (IsNsec3At hash)) (Zone.new origin) ops := by
  refine ⟨fun name => ?_, fun hash => ?_⟩
  · exact (orderly_new _ _ _ origin).everyState_iff (fun _ h => key_of_isNsecAt h) ops
  · exact (orderly_new _ _ _ origin).everyState_iff (fun _ h => key_of_isNsec3At h) ops

def rootNsec (types : UInt8) : ZoneRecord := ⟨Name.root, ⟨300⟩, .IN, ⟨NSEC, [0, 0, 1, types]⟩⟩

def rootHost : ZoneRecord := ⟨Name.root, ⟨300⟩, .IN, ⟨A, [192, 0, 2, 1]⟩⟩

def staleNsec : List ZoneOp := [.add (rootNsec 64), .add (rootNsec 96), .add rootHost, .removeRecord 0]

theorem nsec_unfiled : ¬ ∀ (origin : Name) (ops : List ZoneOp) (name : Name),
    EveryState (Filed .nsec (canonicalSortKey name) (IsNsecAt name)) (Zone.new origin) ops := by
  intro hall
  have hrun : (((Zone.new Name.root).run staleNsec).map fun z =>
      (SortedMap.get z.nsecChain (canonicalSortKey Name.root), z.records)) = some (none, [rootHost, rootNsec 96]) := by
    decide +kernel
  obtain ⟨z, hz, hvalue⟩ := Option.map_eq_some_iff.mp hrun
  obtain ⟨hget, hrecords⟩ := Prod.mk.injEq _ _ _ _ ▸ hvalue
  have hfiled := (hall Name.root staleNsec Name.root).last hz
  have hsome := hfiled.entry.mpr ⟨rootNsec 96, by rw [hrecords]; decide, rfl, by decide⟩
  rw [show SortedMap.get (DenialChain.nsec.of z) (canonicalSortKey Name.root) = none from hget] at hsome
  cases hsome

end Rdns.Zones
