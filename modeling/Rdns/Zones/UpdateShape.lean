import Rdns.Zones.Update

/-!
# Rdns — What no UPDATE takes away

`apply` of `rdns/src/update.rs`, for any list of changes. Each acts on what the ones
before it left, so the shape of a zone is proved of one change (`Whole.applyChange`) and
carried over the list (`Whole.foldl`).
-/

namespace Rdns.Zones

open Rdns.Lib Rdns.Core RecordTypes

/-! ## The shape of a zone -/

/-- The types of which a name holds one record (RFC 2136 §3.4.2.7, RFC 6672 §5.2). -/
def singletons : List Rtype := [CNAME, SOA, DNAME]

def OneEach (rtype : Rtype) (records : List ZoneRecord) : Prop :=
  records.Pairwise fun a b => a.rtype = rtype → b.rtype = rtype → a.name.same b.name = false

def HoldsAt (name : Name) (rtype : Rtype) (records : List ZoneRecord) : Prop :=
  ∃ r ∈ records, r.rtype = rtype ∧ r.name.same name = true

/-- **A whole zone**: an SOA and an NS at the apex, every CNAME alone but for what DNSSEC
puts beside it, and one record of each singleton type at a name. -/
structure Whole (origin : Name) (records : List ZoneRecord) : Prop where
  apexSoa : HoldsAt origin SOA records
  apexNs : HoldsAt origin NS records
  cnameAlone : CnameAlone records
  single : ∀ rtype ∈ singletons, OneEach rtype records

variable {records others : List ZoneRecord} {w : Working} {rtype : Rtype} {name origin : Name}

theorem OneEach.perm (h : OneEach rtype records) (hperm : records.Perm others) :
    OneEach rtype others := by
  refine (hperm.pairwise_iff ?_).mp h
  intro a b hab hb ha
  rw [Name.same_comm]
  exact hab ha hb

theorem OneEach.sublist {fewer : List ZoneRecord} (h : OneEach rtype records)
    (hsub : fewer.Sublist records) : OneEach rtype fewer :=
  List.Pairwise.sublist hsub h

theorem HoldsAt.perm (h : HoldsAt name rtype records) (hperm : records.Perm others) :
    HoldsAt name rtype others := by
  obtain ⟨r, hr, hshape⟩ := h
  exact ⟨r, hperm.mem_iff.mp hr, hshape⟩

theorem Whole.perm (h : Whole origin records) (hperm : records.Perm others) : Whole origin others :=
  ⟨h.apexSoa.perm hperm, h.apexNs.perm hperm, h.cnameAlone.perm hperm,
    fun rtype ht => (h.single rtype ht).perm hperm⟩

theorem whole_ruledShape : Whole origin (records.map ruledShape) ↔ Whole origin records := by
  have hholds : ∀ rtype, HoldsAt origin rtype (records.map ruledShape) ↔ HoldsAt origin rtype records := by
    intro rtype
    constructor
    · rintro ⟨r, hr, hshape⟩
      obtain ⟨held, hheld, rfl⟩ := List.mem_map.mp hr
      exact ⟨held, hheld, hshape⟩
    · rintro ⟨r, hr, hshape⟩
      exact ⟨ruledShape r, List.mem_map_of_mem hr, hshape⟩
  have halone : CnameAlone (records.map ruledShape) ↔ CnameAlone records := by
    simp only [CnameAlone, List.forall_mem_map]
    exact Iff.rfl
  have hsingle : ∀ rtype, OneEach rtype (records.map ruledShape) ↔ OneEach rtype records :=
    fun rtype => List.pairwise_map
  constructor
  · intro h
    exact ⟨(hholds _).mp h.apexSoa, (hholds _).mp h.apexNs, halone.mp h.cnameAlone,
      fun rtype ht => (hsingle rtype).mp (h.single rtype ht)⟩
  · intro h
    exact ⟨(hholds _).mpr h.apexSoa, (hholds _).mpr h.apexNs, halone.mpr h.cnameAlone,
      fun rtype ht => (hsingle rtype).mpr (h.single rtype ht)⟩

theorem whole_congr (hshape : records.map ruledShape = others.map ruledShape) :
    Whole origin records ↔ Whole origin others := by
  rw [← whole_ruledShape, hshape, whole_ruledShape]

/-! ## One change -/

/-- **What an add does to the singletons**: nothing where a rule drops it; otherwise the
record joins the rest, which hold no other of its type at its name where that type is a
singleton. -/
theorem addRecord_single (hw : ∀ rtype ∈ singletons, OneEach rtype w.records)
    (record : ResourceRecord) :
    (w.addRecord record).records = w.records ∨
    ∃ rest, (w.addRecord record).records.Perm (zoneRecord record :: rest) ∧ Fits rest (zoneRecord record) ∧
      (record.rdata.rtype ∈ singletons → ∀ b ∈ rest, b.rtype = record.rdata.rtype →
        record.name.same b.name = false) ∧
      (w.records = rest ∨ ∃ old, w.records.Perm (old :: rest) ∧
        old.name.same record.name = true ∧ old.rtype = record.rdata.rtype) := by
  cases hdrop : w.dropsAdd record with
  | some why =>
    refine .inl ?_
    rw [Working.addRecord, hdrop]
    rfl
  | none =>
    obtain ⟨rest, hperm, hsub, hrest⟩ := addRecord_joins hdrop
    have halone : record.rdata.rtype ∈ singletons → ∀ b ∈ rest, b.rtype = record.rdata.rtype →
        record.name.same b.name = false := by
      intro hsingle
      refine alone_of_joins ?_ (hw _ hsingle) hrest
      simp only [singletons, List.mem_cons, List.not_mem_nil, or_false] at hsingle
      rcases hsingle with h | h | h <;> rw [h] <;> decide
    refine .inr ⟨rest, hperm, fits_of_not_dropped hdrop hsub fun hd b hb hbd => ?_, halone, ?_⟩
    · exact halone (by rw [hd]; decide) b hb (hbd.trans hd.symm)
    · grind [replaces_shape]

theorem HoldsAt.replaced {old : ZoneRecord} {rest : List ZoneRecord} {record : ResourceRecord}
    (h : HoldsAt name rtype (old :: rest)) (hname : old.name.same record.name = true)
    (hrtype : old.rtype = record.rdata.rtype) :
    HoldsAt name rtype (zoneRecord record :: rest) := by
  obtain ⟨r, hr, htype, hsame⟩ := h
  rcases List.mem_cons.mp hr with rfl | hr
  · rw [Name.same_comm] at hname
    exact ⟨zoneRecord record, List.mem_cons_self, hrtype.symm.trans htype, Name.same_trans hname hsame⟩
  · exact ⟨r, List.mem_cons_of_mem _ hr, htype, hsame⟩

theorem HoldsAt.cons (h : HoldsAt name rtype records) (record : ZoneRecord) :
    HoldsAt name rtype (record :: records) := by
  obtain ⟨r, hr, hshape⟩ := h
  exact ⟨r, List.mem_cons_of_mem _ hr, hshape⟩

/-- **An add keeps a zone whole.** -/
theorem Whole.addRecord (hw : Whole w.origin w.records) (record : ResourceRecord) :
    Whole w.origin (w.addRecord record).records := by
  rcases addRecord_single hw.single record with hsame | ⟨rest, hperm, hfits, halone, hrest⟩
  · rw [hsame]
    exact hw
  refine Whole.perm ?_ hperm.symm
  have hkept : HoldsAt w.origin SOA (zoneRecord record :: rest) ∧
      HoldsAt w.origin NS (zoneRecord record :: rest) ∧ CnameAlone rest ∧
      ∀ rtype ∈ singletons, OneEach rtype rest := by
    rcases hrest with rfl | ⟨old, hold, hname, hrtype⟩
    · exact ⟨hw.apexSoa.cons _, hw.apexNs.cons _, hw.cnameAlone, hw.single⟩
    · have hall := hw.perm hold
      have hsub := List.sublist_cons_self old rest
      exact ⟨hall.apexSoa.replaced hname hrtype, hall.apexNs.replaced hname hrtype,
        fun a ha b hb => hall.cnameAlone a (hsub.subset ha) b (hsub.subset hb),
        fun rtype ht => (hall.single rtype ht).sublist hsub⟩
  obtain ⟨hsoa, hns, hcname, hsingle⟩ := hkept
  refine ⟨hsoa, hns, ?_, fun rtype ht => List.pairwise_cons.mpr ⟨fun b hb hr hbt => ?_, hsingle rtype ht⟩⟩
  · intro a ha b hb hac hsame
    rcases List.mem_cons.mp ha with rfl | ha
    · rcases List.mem_cons.mp hb with rfl | hb
      · exact .inl hac
      · exact hfits.cname hac b hb hsame
    · rcases List.mem_cons.mp hb with rfl | hb
      · exact hfits.beside a ha hac hsame
      · exact hcname a ha b hb hac hsame
  · have hr : record.rdata.rtype = rtype := hr
    subst hr
    exact halone ht b hb hbt

theorem Whole.remove (hw : Whole w.origin w.records) (doomed : ZoneRecord → Bool)
    (hsoa : ∃ r ∈ w.records, r.rtype = SOA ∧ r.name.same w.origin = true ∧ doomed r = false)
    (hns : ∃ r ∈ w.records, r.rtype = NS ∧ r.name.same w.origin = true ∧ doomed r = false) :
    Whole w.origin (w.remove doomed).records := by
  have hsub : (w.remove doomed).records.Sublist w.records := List.filter_sublist
  have hheld : ∀ rtype, (∃ r ∈ w.records, r.rtype = rtype ∧ r.name.same w.origin = true ∧ doomed r = false) →
      HoldsAt w.origin rtype (w.remove doomed).records := by
    rintro rtype ⟨r, hr, htype, hname, hspared⟩
    exact ⟨r, List.mem_filter.mpr ⟨hr, by rw [hspared]; rfl⟩, htype, hname⟩
  exact ⟨hheld _ hsoa, hheld _ hns,
    fun a ha b hb => hw.cnameAlone a (hsub.subset ha) b (hsub.subset hb),
    fun rtype ht => (hw.single rtype ht).sublist hsub⟩

theorem Whole.remove_others (hw : Whole w.origin w.records) (doomed : ZoneRecord → Bool)
    (hspares : ∀ r : ZoneRecord, r.name.same w.origin = true →
      r.rtype = SOA ∨ r.rtype = NS → doomed r = false) :
    Whole w.origin (w.remove doomed).records := by
  obtain ⟨soa, hsoa, hsoaType, hsoaName⟩ := hw.apexSoa
  obtain ⟨ns, hns, hnsType, hnsName⟩ := hw.apexNs
  exact hw.remove doomed ⟨soa, hsoa, hsoaType, hsoaName, hspares soa hsoaName (.inl hsoaType)⟩
    ⟨ns, hns, hnsType, hnsName, hspares ns hnsName (.inr hnsType)⟩

def Change.typed : Change → Prop
  | .deleteRecord _ rtype rdata => rtype = rdata.rtype
  | _ => True

theorem exists_spared_ns {rdata : RecordData} (hrtype : rdata.rtype = NS)
    (hne : w.count name NS ≠ w.countMatching name rdata) :
    ∃ r ∈ w.records, r.name.same name = true ∧ r.rtype = NS ∧ r.rdata ≠ rdata := by
  by_contra hnone
  refine hne ?_
  rw [Working.count, Working.countMatching]
  congr 1
  refine List.filter_congr fun r hr => ?_
  cases hname : r.name.same name with
  | false => rfl
  | true =>
    rw [Bool.true_and, Bool.true_and, Bool.eq_iff_iff, beq_iff_eq, beq_iff_eq]
    constructor
    · grind
    · intro hsame
      rw [ZoneRecord.rtype, hsame, hrtype]

/-- **One change keeps a zone whole.** -/
theorem Whole.applyChange (hw : Whole w.origin w.records) {change : Change} (htyped : change.typed) :
    Whole w.origin (w.applyChange change).records := by
  cases change with
  | add record => exact hw.addRecord record
  | deleteRrset name rtype =>
    rw [Working.applyChange]
    split
    · exact hw
    · rename_i hguard
      refine hw.remove_others _ fun r hname htype => ?_
      by_contra hdoomed
      rw [Bool.not_eq_false, Bool.and_eq_true, beq_iff_eq] at hdoomed
      refine hguard ⟨?_, ?_⟩
      · rw [Name.same_comm] at hdoomed
        exact Name.same_trans hdoomed.1 hname
      · rw [← hdoomed.2]
        rcases htype with h | h <;> rw [h] <;> decide
  | deleteName name =>
    rw [Working.applyChange]
    have hkept : Whole w.origin (w.remove fun r =>
        r.name.same name && !(w.isApex name && Working.isApexRrset r.rtype)).records := by
      refine hw.remove_others _ fun r hname htype => ?_
      cases hsame : r.name.same name with
      | false => rfl
      | true =>
        rw [Name.same_comm] at hsame
        have hapex : w.isApex name = true := Name.same_trans hsame hname
        have hrrset : Working.isApexRrset r.rtype = true := by
          rcases htype with h | h <;> rw [h] <;> decide
        rw [hapex, hrrset]
        rfl
    split
    · exact hkept
    · exact hkept
  | deleteRecord name rtype rdata =>
    have htyped : rtype = rdata.rtype := htyped
    subst htyped
    rw [Working.applyChange]
    have hdoomed : ∀ {r : ZoneRecord}, r.name.same w.origin = true →
        (r.name.same name && r.rdata == rdata) = true → w.isApex name = true ∧ r.rtype = rdata.rtype := by
      intro r hname hmatch
      rw [Bool.and_eq_true, beq_iff_eq, Name.same_comm] at hmatch
      exact ⟨Name.same_trans hmatch.1 hname, congrArg RecordData.rtype hmatch.2⟩
    split
    · exact hw
    · rename_i hsoaGuard
      have hsoaSpared : ∀ r : ZoneRecord, r.name.same w.origin = true → r.rtype = SOA →
          (r.name.same name && r.rdata == rdata) = false := by
        intro r hname htype
        by_contra hmatch
        obtain ⟨hapex, hrtype⟩ := hdoomed hname (Bool.not_eq_false _ ▸ hmatch)
        exact hsoaGuard ⟨hapex, hrtype.symm.trans htype⟩
      split
      · exact hw
      · rename_i hnsGuard
        by_cases hns : w.isApex name = true ∧ rdata.rtype = NS
        · -- the apex NS RRset: nothing matches, or not everything does
          have hspared : ∃ r ∈ w.records, r.rtype = NS ∧ r.name.same w.origin = true ∧
              (r.name.same name && r.rdata == rdata) = false := by
            by_cases hnothing : w.countMatching name rdata > 0
            · obtain ⟨r, hr, hname, htype, hdiff⟩ := exists_spared_ns hns.2
                fun hall => hnsGuard ⟨hns.1, hns.2, hnothing, hall⟩
              refine ⟨r, hr, htype, Name.same_trans hname hns.1, ?_⟩
              rw [beq_eq_false_iff_ne.mpr hdiff, Bool.and_false]
            · obtain ⟨ns, hmem, hnsType, hnsName⟩ := hw.apexNs
              refine ⟨ns, hmem, hnsType, hnsName, ?_⟩
              by_contra hmatch
              refine hnothing (List.length_pos_of_mem (List.mem_filter.mpr ⟨hmem, ?_⟩))
              rwa [Bool.not_eq_false] at hmatch
          obtain ⟨soa, hsoa, hsoaType, hsoaName⟩ := hw.apexSoa
          exact hw.remove _ ⟨soa, hsoa, hsoaType, hsoaName, hsoaSpared soa hsoaName hsoaType⟩ hspared
        · refine hw.remove_others _ fun r hname htype => ?_
          rcases htype with htype | htype
          · exact hsoaSpared r hname htype
          · by_contra hmatch
            obtain ⟨hapex, hrtype⟩ := hdoomed hname (Bool.not_eq_false _ ▸ hmatch)
            exact hns ⟨hapex, hrtype.symm.trans htype⟩

/-! ## Any list of changes -/

theorem Whole.foldl (hw : Whole w.origin w.records) {changes : List Change}
    (htyped : ∀ change ∈ changes, change.typed) :
    Whole w.origin (changes.foldl Working.applyChange w).records := by
  induction changes generalizing w with
  | nil => exact hw
  | cons change rest ih =>
    have hnext := hw.applyChange (htyped change List.mem_cons_self)
    rw [← applyChange_origin w change] at hnext ⊢
    exact ih hnext fun other hother => htyped other (List.mem_cons_of_mem _ hother)

/-- **An UPDATE keeps a zone whole**, whatever its changes and in whatever order. -/
theorem update_keeps_whole {z : Zone} (hz : Whole z.origin z.records) {changes : List Change}
    (htyped : ∀ change ∈ changes, change.typed) :
    Whole (applyUpdate z changes).zone.origin (applyUpdate z changes).zone.records := by
  obtain ⟨-, horigin, hrecords⟩ :=
    intoZone_records (changes.foldl Working.applyChange (Working.new z)).settle
  obtain ⟨hsettled, hshape⟩ := settle_shape (changes.foldl Working.applyChange (Working.new z))
  show Whole (Working.intoZone _).origin (Working.intoZone _).records
  rw [whole_congr (hrecords.trans hshape), horigin, hsettled, foldl_applyChange_origin]
  exact hz.foldl (w := Working.new z) htyped

def apexOnly : Zone :=
  [soaRecord, ⟨ex, ⟨60⟩, .IN, ⟨NS, wwwEx.wire⟩⟩].foldl Zone.add (Zone.new ex)

theorem apexOnly_records :
    apexOnly.records = [soaRecord, ⟨ex, ⟨60⟩, .IN, ⟨NS, wwwEx.wire⟩⟩] := by
  decide +kernel

theorem apexOnly_whole : Whole apexOnly.origin apexOnly.records := by
  have horigin : apexOnly.origin = ex := by decide +kernel
  rw [apexOnly_records, horigin]
  refine ⟨⟨_, List.mem_cons_self, rfl, by decide⟩,
    ⟨_, List.mem_cons_of_mem _ List.mem_cons_self, rfl, by decide⟩, ?_, ?_⟩
  · intro a ha b _ hcname
    simp only [List.mem_cons, List.not_mem_nil, or_false] at ha
    rcases ha with rfl | rfl
    · exact absurd hcname (by decide)
    · exact absurd hcname (by decide)
  · intro rtype _
    refine List.pairwise_cons.mpr ⟨fun b hb hfirst hsecond => ?_, List.pairwise_singleton _ _⟩
    rw [List.mem_singleton.mp hb] at hsecond
    exact absurd (hfirst.trans hsecond.symm) (by decide)

theorem apexOnly_update_whole :
    Whole (applyUpdate apexOnly [.deleteName ex, .add addressToAdd]).zone.origin
      (applyUpdate apexOnly [.deleteName ex, .add addressToAdd]).zone.records :=
  update_keeps_whole apexOnly_whole (by
    intro change hchange
    simp only [List.mem_cons, List.not_mem_nil, or_false] at hchange
    rcases hchange with rfl | rfl <;> trivial)

/-- **A deletion that names another TYPE than its RDATA's** gets past the guard of the
apex SOA, which asks after the TYPE, and then takes what its RDATA says. -/
theorem mistyped_deletes_soa : Whole apexOnly.origin apexOnly.records ∧
    ¬ Whole (applyUpdate apexOnly [.deleteRecord ex A soaRecord.rdata]).zone.origin
      (applyUpdate apexOnly [.deleteRecord ex A soaRecord.rdata]).zone.records := by
  refine ⟨apexOnly_whole, fun h => ?_⟩
  have hleft : (applyUpdate apexOnly [.deleteRecord ex A soaRecord.rdata]).zone.records =
      [⟨ex, ⟨60⟩, .IN, ⟨NS, wwwEx.wire⟩⟩] := by
    decide +kernel
  obtain ⟨r, hr, hsoa, -⟩ := h.apexSoa
  rw [hleft] at hr
  rw [List.mem_singleton.mp hr] at hsoa
  exact absurd hsoa (by decide)

end Rdns.Zones
