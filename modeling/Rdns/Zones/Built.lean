import Rdns.Zones.Locate

/-!
# Rdns — Zones that were only added to

A zone file that was read, and a zone the signer made, take records in and never lose one.
The index of such a zone holds the positions of each name in the order of the records
(`InOrder`), so a lookup gives the records of a name as a filter over all of them
(`query_apex`).
-/

namespace Rdns.Zones

open Rdns.Lib Rdns.Core RecordTypes

namespace Index

variable {origin key : Octets} {ix : Index}

/-- **Taking a record in puts its position last at its name**, and nowhere else. -/
theorem IndexOk.positionsOf_takeIn {ownerAt : Nat → Option Octets} (h : IndexOk origin ownerAt ix)
    (key : Octets) (position : Nat) (k : Octets) :
    (ix.takeIn origin key position).positionsOf k
      = if k = key then ix.positionsOf key ++ [position] else ix.positionsOf k := by
  obtain ⟨hvalid, hread, hrange, hlen, hkeys, hget⟩ := ArenaTable.intern_spec h.settled.valid key
  rw [Index.takeIn]
  generalize ix.nodes.intern nameHash key = interned at hvalid hread hrange hlen hkeys hget
  obtain ⟨nodes, range⟩ := interned
  dsimp only at hvalid hread hrange hlen hkeys hget ⊢
  have hsettled : Settled origin nodes := h.settled.congr hvalid hkeys hget
  have hslots : ∀ k, slotAt nodes k = slotAt ix.nodes k := fun k => by rw [slotAt, hget, slotAt]
  have hpos₁ : ∀ k, ({ ix with nodes } : Index).positionsOf k = ix.positionsOf k :=
    positionsOf_congr hslots
  have hok : SlotsOk { ix with nodes } := h.slots.congr hslots
  generalize hix : ({ ix with nodes } : Index) = ix₁ at hpos₁ hok
  have hnodes : ix₁.nodes = nodes := by rw [← hix]
  rw [← hnodes] at hvalid hread hrange hsettled
  obtain ⟨-, hpos₂⟩ := file_spec hvalid hok hread hrange position
  obtain ⟨hfresh, -, howing⟩ := file_tree hsettled hread hrange position
  generalize ix₁.file key range position = filed at hpos₂ hfresh howing
  obtain ⟨ix₂, fresh⟩ := filed
  dsimp only at hpos₂ hfresh howing ⊢
  rw [← hpos₁ key, ← hpos₁ k, ← hpos₂]
  split
  · rename_i hnew
    obtain ⟨howes, -, hbytes⟩ := howing (hfresh.mp hnew)
    have hgrown := noteNonTerminals_grown hlen key ix₂.nodes howes
      (by rw [ArenaTable.read, hbytes]; exact hread) (by rw [hbytes]; exact hrange)
      (List.suffix_refl key)
    exact positionsOf_congr hgrown.slots k
  · rfl

end Index

namespace Zone

variable {z : Zone}

def InOrder (z : Zone) : Prop :=
  ∀ key, (z.index.positionsOf key).filterMap (z.records[·]?) = z.records.filter fun r => r.key = key

theorem inOrder_new (origin : Name) : InOrder (new origin) := fun _ => rfl

theorem InOrder.takeIn (h : InOrder z) (hok : ZoneOk z) (record : ZoneRecord) :
    InOrder (z.takeIn record) := by
  intro key
  have hindex : (z.takeIn record).index = z.index.takeIn z.originKey record.key z.records.length := by
    show (insertChain _ _ _).index = _
    rw [insertChain_index]
  -- what was filed before points below the end, where nothing moved
  have hold : ∀ k, (z.index.positionsOf k).filterMap ((z.records ++ [record])[·]?)
      = (z.index.positionsOf k).filterMap (z.records[·]?) := by
    intro k
    refine List.filterMap_congr fun i hi => ?_
    have howner := (hok.index.filed k i).mp hi
    rw [ownerAt] at howner
    obtain ⟨r, hr, -⟩ := Option.map_eq_some_iff.mp howner
    exact List.getElem?_append_left (List.getElem?_eq_some_iff.mp hr).1
  rw [hindex, hok.index.positionsOf_takeIn, takeIn_records, List.filter_append]
  by_cases hkey : key = record.key
  · subst hkey
    rw [if_pos rfl, List.filterMap_append, hold, h record.key]
    simp
  · rw [if_neg hkey, hold, h key]
    simp [Ne.symm hkey]

theorem InOrder.foldl_takeIn (h : InOrder z) (hok : ZoneOk z) (records : List ZoneRecord) :
    InOrder (records.foldl Zone.takeIn z) := by
  induction records generalizing z with
  | nil => exact h
  | cons record records ih => exact ih (h.takeIn hok record) (hok.takeIn record)

theorem encloserWalk_above (names : List Name) (h : ∀ a ∈ names, a.wire.length < z.originKey.length) :
    z.encloserWalk names = .notFound := by
  cases names with
  | nil => rfl
  | cons a rest => rw [encloserWalk, if_pos (h a List.mem_cons_self)]

theorem locate_apex (z : Zone) : (z.locate z.origin).positions = z.index.positionsOf z.originKey := by
  have habove : z.encloserWalk (z.origin.toFolded.ancestors.drop 1) = .notFound := by
    refine encloserWalk_above _ fun a ha => ?_
    have hfalls := Name.pairwise_ancestors z.origin.toFolded
    rw [Name.ancestors_eq_cons] at hfalls
    exact (List.pairwise_cons.mp hfalls).1 a ha
  have hkey : z.originKey = z.origin.toFolded.wire := rfl
  rw [hkey, locate, nameKindOfKey, Index.positionsOf]
  cases hget : z.index.get z.origin.toFolded.wire with
  | none =>
    dsimp only
    rw [habove]
  | some slot =>
    cases slot with
    | ent => rfl
    | one position => rfl
    | spilled list => rfl

/-- **At the apex, a query is a filter over the records.** -/
theorem InOrder.query_apex (h : InOrder z) (qtype : Qtype) :
    z.query z.origin qtype
      = z.records.filter fun r => r.name.same z.origin && qtype.matches r.rtype := by
  rw [query, ofType, locate_apex, h z.originKey, List.filter_filter]
  refine List.filter_congr fun r _ => ?_
  have hkey : decide (r.key = z.originKey) = r.name.same z.origin := by
    rw [Bool.eq_iff_iff, decide_eq_true_eq, Name.same_iff]
    exact ⟨Name.wire_injective, fun hsame => congrArg Name.wire hsame⟩
  rw [hkey, Bool.and_comm]

def serial (z : Zone) : Option Serial :=
  match z.apexSoa with
  | none => none
  | some soa =>
    match soa.rdata.parse with
    | .ok (.soa _ _ serial _ _ _ _) => some serial
    | _ => none

def fileSerial (z : Zone) : Option Serial :=
  match z.records.find? z.isApexSoa with
  | none => none
  | some soa =>
    match soa.rdata.parse with
    | .ok (.soa _ _ serial _ _ _ _) => some serial
    | _ => none

theorem InOrder.apexSoa (h : InOrder z) : z.apexSoa = z.records.find? z.isApexSoa := by
  rw [Zone.apexSoa, h.query_apex, List.head?_filter]
  congr 1
  funext r
  have hsoa : (Qtype.of SOA).matches r.rtype = (r.rtype == SOA) := by
    rw [Qtype.matches, if_neg (by decide), Bool.eq_iff_iff, beq_iff_eq, beq_iff_eq]
    exact ⟨fun hcode => congrArg Rtype.mk hcode.symm, fun hrtype => congrArg Rtype.code hrtype.symm⟩
  rw [isApexSoa, hsoa, Bool.and_comm]

theorem InOrder.serial (h : InOrder z) : z.serial = z.fileSerial := by
  rw [Zone.serial, Zone.fileSerial, h.apexSoa]

end Zone

end Rdns.Zones
