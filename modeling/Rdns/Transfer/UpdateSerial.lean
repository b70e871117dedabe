import Rdns.Dnssec.SignedSerial
import Rdns.Transfer.Deltas
import Rdns.Zones.UpdateShape

/-!
# Rdns — An UPDATE and the serial

What `apply` of `rdns/src/update.rs` does to a zone's serial. An UPDATE that changes something moves
it: by one, or to that of an SOA it brings. Each SOA is taken if it is newer than the one held, and
newer, in RFC 1982's order, is not transitive: two SOAs in one UPDATE can climb past half of the
space, to a serial that is not newer than the one the secondaries have.
-/

namespace Rdns.Transfer

open Rdns.Lib Rdns.Core Rdns.Present Rdns.Zones RecordTypes

/-! ## Lists with one place changed -/

section Lists

variable {α : Type} {p : α → Bool} {xs : List α} {x : α} {i : Nat}

theorem split_at (h : i < xs.length) : xs = xs.take i ++ xs[i] :: xs.drop (i + 1) := by
  rw [List.getElem_cons_drop, List.take_append_drop]

theorem set_at (h : i < xs.length) : xs.set i x = xs.take i ++ x :: xs.drop (i + 1) := by
  rw [List.set_eq_take_append_cons_drop, if_pos h]

theorem filter_set_of_not (h : i < xs.length) (hold : p xs[i] = false) (hnew : p x = false) :
    (xs.set i x).filter p = xs.filter p := by
  have hsplit := congrArg (List.filter p) (split_at h)
  rw [hsplit, set_at h, List.filter_append, List.filter_append,
    List.filter_cons_of_neg (by rw [hnew]; decide), List.filter_cons_of_neg (by rw [hold]; decide)]

theorem filter_set_of_single {only : α} (h : i < xs.length) (hsingle : xs.filter p = [only]) (hold : p xs[i] = true)
    (hnew : p x = true) : only = xs[i] ∧ (xs.set i x).filter p = [x] := by
  have hsplit := congrArg (List.filter p) (split_at h)
  rw [List.filter_append, List.filter_cons_of_pos hold, hsingle] at hsplit
  have hlength := congrArg List.length hsplit
  simp only [List.length_append, List.length_cons, List.length_nil] at hlength
  have hbefore : (xs.take i).filter p = [] := List.length_eq_zero_iff.mp (by omega)
  have hafter : (xs.drop (i + 1)).filter p = [] := List.length_eq_zero_iff.mp (by omega)
  rw [hbefore, hafter, List.nil_append] at hsplit
  refine ⟨(List.cons.inj hsplit).1, ?_⟩
  rw [set_at h, List.filter_append, List.filter_cons_of_pos hnew, hbefore, hafter, List.nil_append]

end Lists

/-! ## The serials that are offered -/

def atApex (origin : Name) (rtype : Rtype) (r : ZoneRecord) : Bool := r.rtype == rtype && r.name.same origin

def apexCnames (origin : Name) (records : List ZoneRecord) : List RecordData :=
  (records.filter (atApex origin CNAME)).map ZoneRecord.rdata

/-- How far the serial has come: what it is, the CNAMEs at the apex, beside which no SOA is taken, and
whether an SOA was. -/
structure Climb where
  serial : Serial
  cnames : List RecordData
  moved : Bool

namespace Climb

def taken (c : Climb) (rdata : RecordData) : Option Serial :=
  if c.cnames.isEmpty then (serialOf rdata).filter (·.isNewerThan c.serial) else none

def after (origin : Name) (c : Climb) : Change → Climb
  | .add record =>
    if record.name.same origin && record.rdata.rtype == SOA then
      match c.taken record.rdata with
      | some serial => ⟨serial, c.cnames, true⟩
      | none => c
    else c
  | .deleteRrset name rtype =>
    if name.same origin && rtype == CNAME then { c with cnames := [] } else c
  | .deleteName name => if name.same origin then { c with cnames := [] } else c
  | .deleteRecord name _ rdata =>
    if name.same origin then { c with cnames := c.cnames.filter (· != rdata) } else c

def of (z : Zone) (serial : Serial) (changes : List Change) : Climb :=
  changes.foldl (after z.origin) ⟨serial, apexCnames z.origin z.records, false⟩

end Climb

/-- The zone as it is being rewritten has come as far as the offered SOAs say. -/
structure Climbs (w : Working) (c : Climb) : Prop where
  soa : ∃ soa, w.records.filter (atApex w.origin SOA) = [soa] ∧ serialOf soa.rdata = some c.serial
  cnames : apexCnames w.origin w.records = c.cnames
  moved : w.serialMovedByUpdate = c.moved
  counted : c.moved = true → 0 < w.changed
  fits : ∀ r ∈ w.records, r.rdata.rdata.length ≤ 65535

/-! ## Deletions -/

section

variable {w : Working} {c : Climb}

theorem atApex_iff {origin : Name} {rtype : Rtype} {r : ZoneRecord} :
    atApex origin rtype r = true ↔ r.rtype = rtype ∧ r.name.same origin = true := by
  rw [atApex, Bool.and_eq_true, beq_iff_eq]

theorem Climbs.drop (h : Climbs w c) (name : Name) (rtype : Rtype) (why : String) : Climbs (w.drop name rtype why) c :=
  ⟨h.soa, h.cnames, h.moved, h.counted, h.fits⟩

theorem Climbs.remove (h : Climbs w c) (doomed : ZoneRecord → Bool) {cnames : List RecordData}
    (hsoa : ∀ r ∈ w.records, atApex w.origin SOA r = true → doomed r = false)
    (hcnames : ((w.records.filter (atApex w.origin CNAME)).filter fun r => !doomed r).map ZoneRecord.rdata
      = cnames) : Climbs (w.remove doomed) { c with cnames } := by
  obtain ⟨soa, hsingle, hserial⟩ := h.soa
  have hkept : ∀ rtype, (w.records.filter fun r => !doomed r).filter (atApex w.origin rtype) =
      (w.records.filter (atApex w.origin rtype)).filter fun r => !doomed r := by
    intro rtype
    rw [List.filter_filter, List.filter_filter]
    exact List.filter_congr fun r _ => Bool.and_comm _ _
  refine ⟨⟨soa, ?_, hserial⟩, ?_, h.moved, fun hmoved => Nat.lt_of_lt_of_le (h.counted hmoved) (Nat.le_add_right _ _),
    fun r hr => h.fits r (List.mem_filter.mp hr).1⟩
  · show (w.records.filter fun r => !doomed r).filter (atApex w.origin SOA) = [soa]
    have hmem : soa ∈ w.records.filter (atApex w.origin SOA) := hsingle ▸ List.mem_singleton_self soa
    rw [hkept, hsingle, List.filter_cons_of_pos, List.filter_nil]
    rw [hsoa soa (List.mem_filter.mp hmem).1 (List.mem_filter.mp hmem).2]
    rfl
  · show ((w.records.filter fun r => !doomed r).filter (atApex w.origin CNAME)).map _ = cnames
    rw [hkept, hcnames]

theorem Climbs.remove_others (h : Climbs w c) (doomed : ZoneRecord → Bool)
    (hspares : ∀ rtype, rtype = SOA ∨ rtype = CNAME → ∀ r ∈ w.records,
      atApex w.origin rtype r = true → doomed r = false) : Climbs (w.remove doomed) c := by
  refine h.remove doomed (hspares _ (.inl rfl)) ?_
  rw [← h.cnames, apexCnames]
  congr 1
  refine List.filter_eq_self.mpr fun r hr => ?_
  obtain ⟨hmem, hat⟩ := List.mem_filter.mp hr
  rw [hspares _ (.inr rfl) r hmem hat]
  rfl

theorem same_apex {r : ZoneRecord} {name : Name} {origin : Name} (hr : r.name.same origin = true)
    (hname : r.name.same name = true) : name.same origin = true := by
  rw [Name.same_comm] at hname
  exact Name.same_trans hname hr

theorem Climbs.deleteRrset (h : Climbs w c) (name : Name) (rtype : Rtype) :
    Climbs (w.applyChange (.deleteRrset name rtype)) (c.after w.origin (.deleteRrset name rtype)) := by
  rw [Working.applyChange, Climb.after]
  split
  · rename_i hguard
    have hother : (name.same w.origin && rtype == CNAME) = false := by
      rw [Bool.and_eq_false_iff]
      refine .inr (beq_eq_false_iff_ne.mpr ?_)
      rintro rfl
      exact absurd hguard.2 (by decide)
    rw [hother]
    exact h.drop _ _ _
  · rename_i hguard
    -- what is doomed at the apex is of the type named
    have hdoomed : ∀ r : ZoneRecord, r.name.same w.origin = true → (r.name.same name && r.rtype == rtype) = true →
        name.same w.origin = true ∧ r.rtype = rtype := by
      intro r hr hmatch
      rw [Bool.and_eq_true, beq_iff_eq] at hmatch
      exact ⟨same_apex hr hmatch.1, hmatch.2⟩
    have hsoa : ∀ r ∈ w.records, atApex w.origin SOA r = true → (r.name.same name && r.rtype == rtype) = false := by
      intro r _ hat
      by_contra hmatch
      rw [Bool.not_eq_false] at hmatch
      obtain ⟨hapex, htype⟩ := hdoomed r (atApex_iff.mp hat).2 hmatch
      exact hguard ⟨hapex, by rw [← htype, (atApex_iff.mp hat).1]; decide⟩
    split
    · rename_i hcname
      rw [Bool.and_eq_true, beq_iff_eq] at hcname
      refine h.remove _ hsoa (List.map_eq_nil_iff.mpr (List.filter_eq_nil_iff.mpr fun r hr => ?_))
      obtain ⟨htype, hname⟩ := atApex_iff.mp (List.mem_filter.mp hr).2
      rw [htype, hcname.2, Name.same_trans hname (by rw [Name.same_comm]; exact hcname.1)]
      decide
    · rename_i hcname
      refine h.remove_others _ fun rtype' htype' r hr hat => ?_
      rcases htype' with rfl | rfl
      · exact hsoa r hr hat
      · by_contra hmatch
        rw [Bool.not_eq_false] at hmatch
        obtain ⟨hapex, htype⟩ := hdoomed r (atApex_iff.mp hat).2 hmatch
        refine hcname ?_
        rw [hapex, ← htype, (atApex_iff.mp hat).1]
        rfl

theorem Climbs.deleteName (h : Climbs w c) (name : Name) :
    Climbs (w.applyChange (.deleteName name)) (c.after w.origin (.deleteName name)) := by
  rw [Working.applyChange, Climb.after]
  have hsoa : ∀ r ∈ w.records, atApex w.origin SOA r = true →
      (r.name.same name && !(w.isApex name && Working.isApexRrset r.rtype)) = false := by
    intro r _ hat
    obtain ⟨htype, hr⟩ := atApex_iff.mp hat
    cases hname : r.name.same name with
    | false => rfl
    | true =>
      have hapex : w.isApex name = true := same_apex hr hname
      rw [hapex, htype]
      rfl
  by_cases hapex : name.same w.origin = true
  · have hgone : Climbs (w.remove fun r => r.name.same name && !(w.isApex name && Working.isApexRrset r.rtype))
        { c with cnames := [] } := by
      refine h.remove _ hsoa (List.map_eq_nil_iff.mpr (List.filter_eq_nil_iff.mpr fun r hr => ?_))
      obtain ⟨htype, hname⟩ := atApex_iff.mp (List.mem_filter.mp hr).2
      rw [htype, Name.same_trans hname (by rw [Name.same_comm]; exact hapex)]
      have hrrset : Working.isApexRrset CNAME = false := by decide
      rw [hrrset, Bool.and_false]
      decide
    rw [if_pos hapex]
    show Climbs (if w.isApex name then _ else _) _
    rw [if_pos (show w.isApex name = true from hapex)]
    exact hgone.drop _ _ _
  · rw [if_neg hapex]
    show Climbs (if w.isApex name then _ else _) _
    rw [if_neg (show ¬ w.isApex name = true from hapex)]
    refine h.remove_others _ fun rtype _ r _ hat => ?_
    cases hname : r.name.same name with
    | false => rfl
    | true => exact absurd (same_apex (atApex_iff.mp hat).2 hname) hapex

theorem Climbs.deleteRecord (h : Climbs w c) (name : Name) (rdata : RecordData) :
    Climbs (w.applyChange (.deleteRecord name rdata.rtype rdata)) (c.after w.origin (.deleteRecord name rdata.rtype rdata)) := by
  -- a record of a type other than CNAME takes none of the CNAMEs
  have hkept : rdata.rtype ≠ CNAME →
      (if name.same w.origin then { c with cnames := c.cnames.filter (· != rdata) } else c) = c := by
    intro hother
    split
    · have hall : c.cnames.filter (· != rdata) = c.cnames := by
        refine List.filter_eq_self.mpr fun held hheld => ?_
        rw [← h.cnames, apexCnames] at hheld
        obtain ⟨r, hr, rfl⟩ := List.mem_map.mp hheld
        refine bne_iff_ne.mpr fun heq => hother ?_
        rw [← heq]
        exact (atApex_iff.mp (List.mem_filter.mp hr).2).1
      rw [hall]
    · rfl
  rw [Working.applyChange, Climb.after]
  split
  · rename_i hguard
    rw [hkept (by rw [hguard.2]; decide)]
    exact h.drop _ _ _
  · rename_i hsoaGuard
    have hsoa : ∀ r ∈ w.records, atApex w.origin SOA r = true → (r.name.same name && r.rdata == rdata) = false := by
      intro r _ hat
      obtain ⟨htype, hr⟩ := atApex_iff.mp hat
      by_contra hmatch
      rw [Bool.not_eq_false, Bool.and_eq_true, beq_iff_eq] at hmatch
      exact hsoaGuard ⟨same_apex hr hmatch.1, hmatch.2 ▸ htype⟩
    split
    · rename_i hguard
      rw [hkept (by rw [hguard.2.1]; decide)]
      exact h.drop _ _ _
    · split
      · rename_i hapex
        refine h.remove _ hsoa ?_
        rw [← h.cnames, apexCnames, List.filter_map]
        congr 1
        refine List.filter_congr fun r hr => ?_
        have hname := (atApex_iff.mp (List.mem_filter.mp hr).2).2
        rw [Name.same_trans hname (by rw [Name.same_comm]; exact hapex), Bool.true_and]
        rfl
      · rename_i hapex
        refine h.remove_others _ fun rtype _ r _ hat => ?_
        cases hname : r.name.same name with
        | false => rfl
        | true => exact absurd (same_apex (atApex_iff.mp hat).2 hname) hapex

/-! ## Adds -/

variable {record : ResourceRecord}

theorem Climbs.drops_cname (h : Climbs w c) (hname : record.name.same w.origin = true)
    (hrtype : record.rdata.rtype = CNAME) : (w.dropsAdd record).isSome = true := by
  obtain ⟨soa, hsingle, -⟩ := h.soa
  have hmem : soa ∈ w.records.filter (atApex w.origin SOA) := hsingle ▸ List.mem_singleton_self soa
  obtain ⟨hin, hat⟩ := List.mem_filter.mp hmem
  obtain ⟨htype, hsame⟩ := atApex_iff.mp hat
  have hother : w.hasOtherDataBesideACname record.name = true := by
    refine List.any_eq_true.mpr ⟨soa, hin, ?_⟩
    rw [Name.same_trans hsame (by rw [Name.same_comm]; exact hname), htype]
    decide
  rw [Working.dropsAdd, if_pos ⟨hrtype, hother⟩]
  rfl

theorem Climbs.soaSerialAt (h : Climbs w c) {name : Name} (hname : name.same w.origin = true) :
    w.soaSerialAt name = some c.serial := by
  obtain ⟨soa, hsingle, hserial⟩ := h.soa
  have hfind : (w.records.find? fun r => r.name.same name && r.rtype == SOA) = some soa := by
    have hpred : (fun r : ZoneRecord => r.name.same name && r.rtype == SOA) =
        atApex w.origin SOA := by
      funext r
      rw [atApex, Bool.and_comm, Dnssec.same_congr hname]
    rw [hpred, ← List.head?_filter, hsingle]
    rfl
  rw [Working.soaSerialAt, hfind]
  exact hserial

/-- **An SOA is taken at the apex exactly when** it is newer than the one there and no CNAME is. -/
theorem Climbs.dropsAdd_soa (h : Climbs w c) (hname : record.name.same w.origin = true)
    (hrtype : record.rdata.rtype = SOA) :
    w.dropsAdd record = none ↔ (c.taken record.rdata).isSome = true := by
  have hcnames : w.hasType record.name CNAME = !c.cnames.isEmpty := by
    have hpred : (fun r : ZoneRecord => r.name.same record.name && r.rtype == CNAME) =
        atApex w.origin CNAME := by
      funext r
      rw [atApex, Bool.and_comm, Dnssec.same_congr hname]
    rw [Working.hasType, hpred, ← h.cnames, apexCnames, List.isEmpty_map]
    rw [Bool.eq_iff_iff, List.any_eq_true, Bool.not_eq_true', ← Bool.not_eq_true, List.isEmpty_iff,
      List.filter_eq_nil_iff]
    simp
  have haccepts : w.acceptsSoa record = ((serialOf record.rdata).filter (·.isNewerThan c.serial)).isSome := by
    rw [Working.acceptsSoa, h.soaSerialAt hname]
    cases serialOf record.rdata with
    | none => rfl
    | some offered => grind
  have hnotCname : ¬ (SOA = CNAME) := by decide
  rw [Working.dropsAdd, hrtype, if_neg (fun hboth => hnotCname hboth.1), hcnames, haccepts, Climb.taken]
  cases c.cnames.isEmpty with
  | false => grind
  | true => grind

theorem addRecord_joined (hdrop : w.dropsAdd record = none)
    (hfind : w.records.findIdx? (replaces record.name record.rdata) = none) :
    w.addRecord record = { w with records := w.records ++ [zoneRecord record], changed := w.changed + 1 } := by
  rw [Working.addRecord, hdrop]
  dsimp only
  rw [hfind]
  rfl

theorem addRecord_replaced {position : Nat} (hdrop : w.dropsAdd record = none)
    (hfind : w.records.findIdx? (replaces record.name record.rdata) = some position) :
    w.addRecord record = { w with
      records := w.records.set position (zoneRecord record)
      changed := if w.records[position]?.any (fun held =>
        held.ttl == record.ttl && held.cls == record.cls && held.rdata == record.rdata) then w.changed else w.changed + 1
      serialMovedByUpdate := w.serialMovedByUpdate || (record.rdata.rtype == SOA && w.isApex record.name) } := by
  rw [Working.addRecord, hdrop]
  dsimp only
  rw [hfind]
  rfl

theorem Climbs.add_other (h : Climbs w c) (hdrop : w.dropsAdd record = none)
    (hfits : record.rdata.rdata.length ≤ 65535)
    (hother : ∀ rtype, rtype = SOA ∨ rtype = CNAME → atApex w.origin rtype (zoneRecord record) = false) :
    Climbs (w.addRecord record) c := by
  obtain ⟨soa, hsingle, hserial⟩ := h.soa
  cases hfind : w.records.findIdx? (replaces record.name record.rdata) with
  | none =>
    have hkept : ∀ rtype, rtype = SOA ∨ rtype = CNAME →
        (w.records ++ [zoneRecord record]).filter (atApex w.origin rtype) = w.records.filter (atApex w.origin rtype) := by
      intro rtype hrtype
      rw [List.filter_append, List.filter_cons_of_neg (by rw [hother rtype hrtype]; decide), List.filter_nil,
        List.append_nil]
    rw [addRecord_joined hdrop hfind]
    refine ⟨⟨soa, (hkept _ (.inl rfl)).trans hsingle, hserial⟩, ?_, h.moved,
      fun hmoved => Nat.lt_succ_of_lt (h.counted hmoved), fun r hr => ?_⟩
    · show (List.filter _ (w.records ++ [zoneRecord record])).map _ = _
      rw [hkept _ (.inr rfl)]
      exact h.cnames
    · rcases List.mem_append.mp hr with hr | hr
      · exact h.fits r hr
      · exact List.mem_singleton.mp hr ▸ hfits
  | some position =>
    obtain ⟨hlt, hat, -⟩ := List.findIdx?_eq_some_iff_getElem.mp hfind
    obtain ⟨hname, hrtype⟩ := replaces_shape hat
    have hold : ∀ rtype, rtype = SOA ∨ rtype = CNAME →
        atApex w.origin rtype w.records[position] = false := by
      intro rtype hcase
      rw [← hother rtype hcase, atApex, atApex, hrtype]
      show (_ && Name.same _ _) = (_ && record.name.same w.origin)
      rw [Name.same_comm, Dnssec.same_congr hname, Name.same_comm]
      rfl
    have hkept : ∀ rtype, rtype = SOA ∨ rtype = CNAME →
        (w.records.set position (zoneRecord record)).filter (atApex w.origin rtype) =
          w.records.filter (atApex w.origin rtype) :=
      fun rtype hcase => filter_set_of_not hlt (hold rtype hcase) (hother rtype hcase)
    have hnot : (record.rdata.rtype == SOA && w.isApex record.name) = false := hother _ (.inl rfl)
    rw [addRecord_replaced hdrop hfind, hnot, Bool.or_false]
    refine ⟨⟨soa, (hkept _ (.inl rfl)).trans hsingle, hserial⟩, ?_, h.moved,
      fun hmoved => Nat.lt_of_lt_of_le (h.counted hmoved) ?_, fun r hr => ?_⟩
    · show (List.filter _ (w.records.set position (zoneRecord record))).map _ = _
      rw [hkept _ (.inr rfl)]
      exact h.cnames
    · grind
    · rcases List.mem_or_eq_of_mem_set hr with hr | rfl
      · exact h.fits r hr
      · exact hfits

theorem ne_of_isNewerThan {a b : Serial} (h : a.isNewerThan b = true) : a ≠ b := by
  rintro rfl
  rw [Serial.isNewerThan] at h
  simp at h

theorem Climbs.add_soa (h : Climbs w c) (hname : record.name.same w.origin = true)
    (hrtype : record.rdata.rtype = SOA) (hfits : record.rdata.rdata.length ≤ 65535)
    {offered : Serial} (htaken : c.taken record.rdata = some offered) :
    Climbs (w.addRecord record) ⟨offered, c.cnames, true⟩ := by
  obtain ⟨soa, hsingle, hserial⟩ := h.soa
  have hdrop : w.dropsAdd record = none := (h.dropsAdd_soa hname hrtype).mpr (by rw [htaken]; rfl)
  have hoffered : serialOf record.rdata = some offered ∧ offered.isNewerThan c.serial = true := by
    rw [Climb.taken] at htaken
    split at htaken
    · exact Option.filter_eq_some_iff.mp htaken
    · cases htaken
  have hmem : soa ∈ w.records.filter (atApex w.origin SOA) := hsingle ▸ List.mem_singleton_self soa
  have hnew : atApex w.origin SOA (zoneRecord record) = true := atApex_iff.mpr ⟨hrtype, hname⟩
  have hsoaReplaced : replaces record.name record.rdata soa = true := by
    obtain ⟨htype, hsame⟩ := atApex_iff.mp (List.mem_filter.mp hmem).2
    rw [replaces, Name.same_trans hsame (by rw [Name.same_comm]; exact hname), htype, hrtype]
    rfl
  cases hfind : w.records.findIdx? (replaces record.name record.rdata) with
  | none =>
    have hnone := List.findIdx?_eq_none_iff.mp hfind soa (List.mem_filter.mp hmem).1
    rw [hsoaReplaced] at hnone
    cases hnone
  | some position =>
    obtain ⟨hlt, hat, -⟩ := List.findIdx?_eq_some_iff_getElem.mp hfind
    obtain ⟨hheldName, hheldType⟩ := replaces_shape hat
    have hheld : atApex w.origin SOA w.records[position] = true :=
      atApex_iff.mpr ⟨hheldType.trans hrtype, Name.same_trans hheldName hname⟩
    obtain ⟨rfl, hafter⟩ := filter_set_of_single hlt hsingle hheld hnew
    have hcname : ∀ r : ZoneRecord, atApex w.origin SOA r = true → atApex w.origin CNAME r = false := by
      intro r hr
      rw [atApex, (atApex_iff.mp hr).1]
      rfl
    have hdiffers : (w.records[position]?.any fun held =>
        held.ttl == record.ttl && held.cls == record.cls && held.rdata == record.rdata) = false := by
      rw [List.getElem?_eq_getElem hlt, Option.any_some, Bool.and_eq_false_iff]
      refine .inr (beq_eq_false_iff_ne.mpr fun heq => ne_of_isNewerThan hoffered.2 ?_)
      rw [heq, hoffered.1] at hserial
      exact Option.some.inj hserial
    have hresult : w.addRecord record = { w with
        records := w.records.set position (zoneRecord record)
        changed := w.changed + 1
        serialMovedByUpdate := true } := by
      have hapex : (record.rdata.rtype == SOA && w.isApex record.name) = true := hnew
      rw [addRecord_replaced hdrop hfind, hdiffers, hapex, Bool.or_true]
      rfl
    rw [hresult]
    refine ⟨⟨zoneRecord record, hafter, hoffered.1⟩, ?_, rfl, fun _ => Nat.succ_pos _, fun r hr => ?_⟩
    · show (List.filter _ (w.records.set position (zoneRecord record))).map _ = _
      rw [filter_set_of_not hlt (hcname _ hheld) (hcname _ hnew)]
      exact h.cnames
    · rcases List.mem_or_eq_of_mem_set hr with hr | rfl
      · exact h.fits r hr
      · exact hfits

theorem Climbs.add (h : Climbs w c) (hfits : record.rdata.rdata.length ≤ 65535) :
    Climbs (w.applyChange (.add record)) (c.after w.origin (.add record)) := by
  show Climbs (w.addRecord record) _
  rw [Climb.after]
  by_cases hsoa : (record.name.same w.origin && record.rdata.rtype == SOA) = true
  · rw [if_pos hsoa]
    rw [Bool.and_eq_true, beq_iff_eq] at hsoa
    cases htaken : c.taken record.rdata with
    | some offered => exact h.add_soa hsoa.1 hsoa.2 hfits htaken
    | none =>
      cases hdrop : w.dropsAdd record with
      | some why =>
        rw [Working.addRecord, hdrop]
        exact h.drop _ _ _
      | none =>
        have hsome := (h.dropsAdd_soa hsoa.1 hsoa.2).mp hdrop
        rw [htaken] at hsome
        cases hsome
  · rw [if_neg hsoa]
    cases hdrop : w.dropsAdd record with
    | some why =>
      rw [Working.addRecord, hdrop]
      exact h.drop _ _ _
    | none =>
      refine h.add_other hdrop hfits fun rtype hcase => ?_
      rw [← Bool.not_eq_true]
      intro hat
      obtain ⟨htype, hname⟩ := atApex_iff.mp hat
      rcases hcase with rfl | rfl
      · exact hsoa (Bool.and_eq_true_iff.mpr ⟨hname, beq_iff_eq.mpr htype⟩)
      · have hdropped := h.drops_cname hname htype
        rw [hdrop] at hdropped
        cases hdropped

/-! ## Any list of changes -/

def Carried (change : Change) : Prop :=
  change.typed ∧ ∀ record, change = .add record → record.rdata.rdata.length ≤ 65535

/-- **One change moves the serial as the offered SOAs say.** -/
theorem Climbs.applyChange (h : Climbs w c) {change : Change} (hcarried : Carried change) :
    Climbs (w.applyChange change) (c.after w.origin change) := by
  cases change with
  | add record => exact h.add (hcarried.2 record rfl)
  | deleteRrset name rtype => exact h.deleteRrset name rtype
  | deleteName name => exact h.deleteName name
  | deleteRecord name rtype rdata =>
    obtain rfl : rtype = rdata.rtype := hcarried.1
    exact h.deleteRecord name rdata

/-- **The changes of an UPDATE move the serial as the offered SOAs say.** -/
theorem Climbs.foldl (h : Climbs w c) {changes : List Change} (hcarried : ∀ change ∈ changes, Carried change) :
    Climbs (changes.foldl Working.applyChange w) (changes.foldl (Climb.after w.origin) c) := by
  induction changes generalizing w c with
  | nil => exact h
  | cons change rest ih =>
    have hnext := ih (h.applyChange (hcarried change List.mem_cons_self))
      fun other hother => hcarried other (List.mem_cons_of_mem _ hother)
    rw [applyChange_origin] at hnext
    exact hnext

end

/-! ## What is not counted -/

def foldedOwner (r : ZoneRecord) : ZoneRecord := { r with name := r.name.toFolded }

/-- The step from one zone being rewritten to another is counted, or leaves every record as it is. -/
structure Rests (w w' : Working) : Prop where
  counts : w.changed ≤ w'.changed
  rests : w'.changed = w.changed → w'.records.map foldedOwner = w.records.map foldedOwner

theorem Rests.trans {a b c : Working} (hab : Rests a b) (hbc : Rests b c) : Rests a c := by
  refine ⟨hab.counts.trans hbc.counts, fun hsame => ?_⟩
  have hfirst := hab.counts
  have hsecond := hbc.counts
  rw [hbc.rests (by omega), hab.rests (by omega)]

theorem Rests.drop (w : Working) (name : Name) (rtype : Rtype) (why : String) : Rests w (w.drop name rtype why) :=
  ⟨le_rfl, fun _ => rfl⟩

theorem Rests.remove (w : Working) (doomed : ZoneRecord → Bool) : Rests w (w.remove doomed) := by
  refine ⟨Nat.le_add_right _ _, fun hsame => ?_⟩
  have hsub : (w.records.filter fun r => !doomed r).Sublist w.records := List.filter_sublist
  have hcount : w.changed + (w.records.length - (w.records.filter fun r => !doomed r).length) = w.changed := hsame
  have hlength : w.records.length ≤ (w.records.filter fun r => !doomed r).length := by omega
  show (w.records.filter fun r => !doomed r).map foldedOwner = _
  rw [hsub.eq_of_length_le hlength]

theorem Rests.add (w : Working) (record : ResourceRecord) : Rests w (w.addRecord record) := by
  cases hdrop : w.dropsAdd record with
  | some why =>
    rw [Working.addRecord, hdrop]
    exact Rests.drop _ _ _ _
  | none =>
    cases hfind : w.records.findIdx? (replaces record.name record.rdata) with
    | none =>
      rw [addRecord_joined hdrop hfind]
      exact ⟨Nat.le_succ _, fun hsame => absurd hsame (Nat.succ_ne_self _)⟩
    | some position =>
      obtain ⟨hlt, hat, -⟩ := List.findIdx?_eq_some_iff_getElem.mp hfind
      rw [addRecord_replaced hdrop hfind, List.getElem?_eq_getElem hlt, Option.any_some]
      split
      · rename_i hsame
        rw [Bool.and_eq_true, Bool.and_eq_true, beq_iff_eq, beq_iff_eq, beq_iff_eq] at hsame
        obtain ⟨⟨httl, hcls⟩, hrdata⟩ := hsame
        refine ⟨le_rfl, fun _ => ?_⟩
        -- the name alone is respelled
        have hrespelled : foldedOwner (zoneRecord record) = foldedOwner w.records[position] := by
          rw [foldedOwner, foldedOwner, httl, hcls, hrdata, Name.same_iff.mp (replaces_shape hat).1]
          rfl
        show (w.records.set position (zoneRecord record)).map foldedOwner = _
        rw [List.map_set, hrespelled, ← List.map_set, List.set_getElem_self]
      · exact ⟨Nat.le_succ _, fun hsame => absurd hsame (Nat.succ_ne_self _)⟩

/-- **A change that is not counted leaves every record as it is.** -/
theorem Rests.applyChange (w : Working) (change : Change) : Rests w (w.applyChange change) := by
  cases change with
  | add record => exact Rests.add w record
  | deleteRrset name rtype => grind [Working.applyChange, Rests.drop, Rests.remove]
  | deleteName name =>
    rw [Working.applyChange]
    split
    · exact (Rests.remove _ _).trans (Rests.drop _ _ _ _)
    · exact Rests.remove _ _
  | deleteRecord name rtype rdata => grind [Working.applyChange, Rests.drop, Rests.remove]

theorem Rests.foldl (w : Working) (changes : List Change) : Rests w (changes.foldl Working.applyChange w) := by
  induction changes generalizing w with
  | nil => exact ⟨le_rfl, fun _ => rfl⟩
  | cons change rest ih => exact (Rests.applyChange w change).trans (ih _)

/-! ## The zone that is left -/

theorem isNewerThan_wrappingAdd (serial : Serial) : (serial.wrappingAdd 1).isNewerThan serial = true := by
  have hone : serial.value + 1 - serial.value = 1 := by grind
  rw [Serial.isNewerThan, Serial.wrappingAdd]
  dsimp only
  rw [hone]
  rfl

variable {origin : Name} {z : Zone} {soa : ZoneRecord}

theorem filter_bumpFirst {records : List ZoneRecord} {serial : Serial}
    (hsingle : records.filter (atApex origin SOA) = [soa])
    (hserial : serialOf soa.rdata = some serial) :
    ∃ bumped, (bumpFirst origin records).filter (atApex origin SOA) = [bumped] ∧
      serialOf bumped.rdata = some (serial.wrappingAdd 1) ∧
      ((∀ r ∈ records, r.rdata.rdata.length ≤ 65535) → ∀ r ∈ bumpFirst origin records, r.rdata.rdata.length ≤ 65535) := by
  induction records with
  | nil => cases hsingle
  | cons first rest ih =>
    cases hat : atApex origin SOA first with
    | false =>
      have hother : first.rtype ≠ SOA ∨ (!first.name.same origin) = true := by grind [atApex]
      have hskip : bumpFirst origin (first :: rest) = first :: bumpFirst origin rest := by
        rw [bumpFirst, if_pos hother]
      rw [List.filter_cons_of_neg (by rw [hat]; decide)] at hsingle
      obtain ⟨bumped, hfilter, hbumped, hfits⟩ := ih hsingle
      refine ⟨bumped, ?_, hbumped, fun hall => ?_⟩
      · rw [hskip, List.filter_cons_of_neg (by rw [hat]; decide)]
        exact hfilter
      · grind
    | true =>
      rw [List.filter_cons_of_pos hat] at hsingle
      obtain ⟨rfl, hrest⟩ := List.cons.inj hsingle
      obtain ⟨htype, hname⟩ := atApex_iff.mp hat
      have hnotOther : ¬ (first.rtype ≠ SOA ∨ (!first.name.same origin) = true) := by
        rw [htype, hname]
        decide
      rw [serialOf] at hserial
      split at hserial
      · rename_i mname rname held refresh retry expire minimum hparse
        obtain rfl := Option.some.inj hserial
        cases hmade : RecordData.fromParsed (.soa mname rname (held.wrappingAdd 1) refresh retry expire minimum) with
        | error e => cases hmade
        | ok rdata =>
          have hlength := Dnssec.length_soa hmade
          have hbump : bumpFirst origin (first :: rest) = { first with rdata } :: rest := by grind [bumpFirst]
          refine ⟨{ first with rdata }, ?_, ?_, fun hall => ?_⟩
          · have hstill : atApex origin SOA { first with rdata } = true :=
              atApex_iff.mpr ⟨(RecordData.fromParsed_eq_ok hmade).1, hname⟩
            rw [hbump, List.filter_cons_of_pos hstill, hrest]
          · rw [serialOf, RecordData.fromParsed_parse hmade hlength.1]
            rfl
          · rw [hbump]
            exact List.forall_mem_cons.mpr ⟨hlength.2, fun r hr => hall r (List.mem_cons_of_mem _ hr)⟩
      · cases hserial

open Zone in
theorem intoZone_inOrder {w : Working} (hfits : ∀ r ∈ w.records, r.rdata.rdata.length ≤ 65535) :
    w.intoZone.records = w.records ∧ w.intoZone.origin = w.origin ∧ InOrder w.intoZone := by
  have hstored : w.records.map (fun r => { r with rdata := stored r.rdata }) = w.records := by
    refine (List.map_congr_left fun r hr => ?_).trans (List.map_id _)
    rw [stored_eq_self (hfits r hr)]
    rfl
  have hfold : w.intoZone = w.records.foldl Zone.takeIn (Zone.new w.origin) := by
    conv_rhs => rw [← hstored]
    rw [List.foldl_map]
    rfl
  obtain ⟨hrecords, horigin⟩ := foldl_takeIn w.records (Zone.new w.origin)
  rw [hfold]
  exact ⟨hrecords, horigin, (inOrder_new _).foldl_takeIn (zoneOk_new _) w.records⟩

theorem serial_of_apexSoa (h : z.apexSoa = some soa) : z.serial = serialOf soa.rdata := by
  rw [Zone.serial, h]
  rfl

theorem isApexSoa_eq (z : Zone) : z.isApexSoa = atApex z.origin SOA := rfl

variable {w : Working} {c : Climb}

theorem serial_intoZone (hfits : ∀ r ∈ w.records, r.rdata.rdata.length ≤ 65535)
    (hsingle : w.records.filter (atApex w.origin SOA) = [soa]) :
    w.intoZone.serial = serialOf soa.rdata := by
  obtain ⟨hrecords, horigin, horder⟩ := intoZone_inOrder hfits
  refine serial_of_apexSoa ?_
  rw [horder.apexSoa, ← List.head?_filter, isApexSoa_eq, horigin, hrecords, hsingle]
  rfl

theorem apexSoa_foldedOwner {records others : List ZoneRecord}
    (h : others.map foldedOwner = records.map foldedOwner) :
    (others.filter (atApex origin SOA)).map ZoneRecord.rdata =
      (records.filter (atApex origin SOA)).map ZoneRecord.rdata := by
  have hfolded : ∀ rs : List ZoneRecord, (rs.filter (atApex origin SOA)).map ZoneRecord.rdata =
      ((rs.map foldedOwner).filter (atApex origin SOA)).map ZoneRecord.rdata := by
    intro rs
    rw [List.filter_map, List.map_map]
    have hpred : atApex origin SOA ∘ foldedOwner = atApex origin SOA := by
      funext r
      show (_ && r.name.toFolded.same origin) = (_ && r.name.same origin)
      rw [same_toFolded_left]
      rfl
    rw [hpred]
    rfl
  rw [hfolded others, h, ← hfolded records]

/-! ## What the secondaries see -/

/-- **An UPDATE is visible to secondaries**: where it says that it changed something the serial is newer
than it was, and where it says that it did not the records and the serial are what they were. -/
structure Visible (z : Zone) (applied : Applied) : Prop where
  moves : 0 < applied.changed → ∀ serial, z.serial = some serial →
    ∃ serial', applied.zone.serial = some serial' ∧ serial'.isNewerThan serial = true
  rests : applied.changed = 0 → contents applied.zone = contents z ∧ applied.zone.serial = z.serial

theorem contents_eq_of_foldedOwner {z' : Zone}
    (h : z'.records.map foldedOwner = z.records.map foldedOwner) :
    contents z' = contents z := by
  have hfolded : ∀ zone : Zone, contents zone = ((zone.records.map foldedOwner).map asRecord : List ResourceRecord) := by
    intro zone
    rw [List.map_map]
    rfl
  rw [hfolded, hfolded, h]

theorem Climbs.new {serial : Serial} (hversion : Version z)
    (hfits : ∀ r ∈ z.records, r.rdata.rdata.length ≤ 65535) (hserial : z.serial = some serial) :
    Climbs (Working.new z) ⟨serial, apexCnames z.origin z.records, false⟩ := by
  obtain ⟨soa, hsingle, hapex⟩ := hversion.apexSoa_eq
  exact ⟨⟨soa, hsingle, (serial_of_apexSoa hapex).symm.trans hserial⟩, rfl, rfl, fun hmoved => (by cases hmoved), hfits⟩

theorem Climb.after_unmoved {change : Change} (h : (c.after origin change).moved = false) :
    c.moved = false ∧ (c.after origin change).serial = c.serial := by
  revert h
  cases change with
  | add record => grind [Climb.after]
  | deleteRrset name rtype => grind [Climb.after]
  | deleteName name => grind [Climb.after]
  | deleteRecord name rtype rdata => grind [Climb.after]

theorem Climb.foldl_unmoved {changes : List Change}
    (h : (changes.foldl (Climb.after origin) c).moved = false) :
    c.moved = false ∧ (changes.foldl (Climb.after origin) c).serial = c.serial := by
  induction changes generalizing c with
  | nil => exact ⟨h, rfl⟩
  | cons change rest ih =>
    obtain ⟨hmoved, hserial⟩ := ih h
    obtain ⟨hbefore, hstep⟩ := Climb.after_unmoved hmoved
    exact ⟨hbefore, hserial.trans hstep⟩

theorem Climbs.settled (h : Climbs w c) (hchanged : 0 < w.changed) :
    w.settle.intoZone.serial = some (if c.moved then c.serial else c.serial.wrappingAdd 1) := by
  obtain ⟨soa, hsingle, hserial⟩ := h.soa
  have hmoved := h.moved
  cases hc : c.moved with
  | true =>
    have hsettle : w.settle = w := by
      rw [Working.settle, hmoved, hc, if_neg (fun hboth => by cases hboth.2)]
    rw [hsettle, serial_intoZone h.fits hsingle, hserial]
    rfl
  | false =>
    have hsettle : w.settle = { w with records := bumpFirst w.origin w.records } := by
      rw [Working.settle, hmoved, hc, if_pos ⟨hchanged, rfl⟩]
    obtain ⟨bumped, hfilter, hbumped, hfits⟩ := filter_bumpFirst hsingle hserial
    rw [hsettle, serial_intoZone (hfits h.fits) hfilter, hbumped]
    rfl

theorem settle_changed (w : Working) : w.settle.changed = w.changed := by
  rw [Working.settle]
  split
  · rfl
  · rfl

/-- **What is not counted leaves the zone what it was**, its serial too. -/
theorem Rests.visible (h : Rests (Working.new z) w) (horigin : w.origin = z.origin)
    (hversion : Version z) (hfits : ∀ r ∈ z.records, r.rdata.rdata.length ≤ 65535)
    (hchanged : w.changed = 0) :
    contents w.settle.intoZone = contents z ∧ w.settle.intoZone.serial = z.serial := by
  have hfolded : w.records.map foldedOwner = z.records.map foldedOwner := h.rests hchanged
  have hsettle : w.settle = w := by
    rw [Working.settle, if_neg (fun hboth => by have hpos := hboth.1; omega)]
  have hw : ∀ r ∈ w.records, r.rdata.rdata.length ≤ 65535 := by
    intro r hr
    have hmem : foldedOwner r ∈ z.records.map foldedOwner := hfolded ▸ List.mem_map_of_mem hr
    obtain ⟨held, hheld, heq⟩ := List.mem_map.mp hmem
    have hrdata : (foldedOwner held).rdata = (foldedOwner r).rdata := by rw [heq]
    have hheldFits := hfits held hheld
    rw [show held.rdata = r.rdata from hrdata] at hheldFits
    exact hheldFits
  obtain ⟨soa, hsingle, hapex⟩ := hversion.apexSoa_eq
  have hsoas := @apexSoa_foldedOwner z.origin _ _ hfolded
  rw [← isApexSoa_eq, hsingle] at hsoas
  obtain ⟨soa', hsingle', hrdata⟩ := List.map_eq_singleton_iff.mp hsoas
  rw [hsettle]
  refine ⟨contents_eq_of_foldedOwner ?_, ?_⟩
  · rw [(intoZone_inOrder hw).1]
    exact hfolded
  · grind [serial_of_apexSoa, serial_intoZone, isApexSoa_eq]

/-- **An UPDATE is visible to secondaries exactly when** the last of the SOAs it took, if it took any,
has a serial that is newer than the one the zone had: each is compared to the one before it alone. -/
theorem update_visible_iff {origin : Name} {ops : List ZoneOp} {z : Zone} {changes : List Change}
    (hrun : (Zone.new origin).run ops = some z) (hsoa : (z.records.filter z.isApexSoa).length = 1)
    (hcarried : ∀ change ∈ changes, Carried change) :
    Visible z (applyUpdate z changes) ↔ ∀ serial, z.serial = some serial →
      (Climb.of z serial changes).moved = true → (Climb.of z serial changes).serial.isNewerThan serial = true := by
  have hok := Zone.ZoneOk.run (Zone.zoneOk_new origin) hrun
  have hfits : ∀ r ∈ z.records, r.rdata.rdata.length ≤ 65535 :=
    Zone.Fits.run (fun r hr => by cases hr) (Zone.zoneOk_new origin) hrun
  have hversion : Version z := ⟨hok, hsoa⟩
  have hrests : Rests (Working.new z) (changes.foldl Working.applyChange (Working.new z)) := Rests.foldl _ _
  have hclimbs : ∀ serial, z.serial = some serial →
      Climbs (changes.foldl Working.applyChange (Working.new z)) (Climb.of z serial changes) :=
    fun serial hserial => (Climbs.new hversion hfits hserial).foldl hcarried
  have horigin : (changes.foldl Working.applyChange (Working.new z)).origin = z.origin := foldl_applyChange_origin _ _
  generalize hw : changes.foldl Working.applyChange (Working.new z) = w at hrests hclimbs horigin
  have happlied : applyUpdate z changes = ⟨w.settle.intoZone, w.settle.changed, w.settle.ignored⟩ := by
    rw [applyUpdate, hw]
  rw [happlied]
  constructor
  · rintro ⟨hmoves, -⟩ serial hserial hmoved
    have hchanged := (hclimbs serial hserial).counted hmoved
    obtain ⟨serial', hserial', hnewer⟩ := hmoves (by rw [settle_changed]; exact hchanged) serial hserial
    rw [(hclimbs serial hserial).settled hchanged, if_pos hmoved] at hserial'
    rw [Option.some.inj hserial']
    exact hnewer
  · intro hnewer
    refine ⟨fun hchanged serial hserial => ?_, fun hchanged => ?_⟩
    · rw [settle_changed] at hchanged
      refine ⟨_, (hclimbs serial hserial).settled hchanged, ?_⟩
      cases hmoved : (Climb.of z serial changes).moved with
      | true => exact hnewer serial hserial hmoved
      | false =>
        have hstays : (Climb.of z serial changes).serial = serial := (Climb.foldl_unmoved hmoved).2
        rw [if_neg (by decide), hstays]
        exact isNewerThan_wrappingAdd serial
    · rw [settle_changed] at hchanged
      exact hrests.visible horigin hversion hfits hchanged

def soaAt (serial : Octets) : ResourceRecord := ⟨ex, .IN, ⟨60⟩, ⟨SOA, ex.wire ++ ex.wire ++
  (serial ++ [0, 0, 0, 2, 0, 0, 0, 3, 0, 0, 0, 4, 0, 0, 0, 5])⟩⟩

theorem update_visible_apexOnly :
    (Zone.new ex).run [.add Zones.soaRecord, .add ⟨ex, ⟨60⟩, .IN, ⟨NS, wwwEx.wire⟩⟩] = some apexOnly ∧
      (apexOnly.records.filter apexOnly.isApexSoa).length = 1 ∧
      Visible apexOnly (applyUpdate apexOnly [.add addressToAdd]) := by
  have hrun : (Zone.new ex).run [.add Zones.soaRecord, .add ⟨ex, ⟨60⟩, .IN, ⟨NS, wwwEx.wire⟩⟩] = some apexOnly := rfl
  have hsoa : (apexOnly.records.filter apexOnly.isApexSoa).length = 1 := by decide +kernel
  refine ⟨hrun, hsoa, (update_visible_iff hrun hsoa fun change hchange => ?_).mpr fun serial _ hmoved => ?_⟩
  · obtain rfl := List.mem_singleton.mp hchange
    refine ⟨trivial, fun record hrecord => ?_⟩
    cases hrecord
    decide
  · cases hmoved

theorem update_goes_unseen :
    (∃ ops, (Zone.new ex).run ops = some apexOnly) ∧
      (apexOnly.records.filter apexOnly.isApexSoa).length = 1 ∧
      (∀ change ∈ [Change.add (soaAt [128, 0, 0, 0]), .add (soaAt [255, 255, 255, 255])], Carried change) ∧
      ¬ Visible apexOnly (applyUpdate apexOnly [.add (soaAt [128, 0, 0, 0]), .add (soaAt [255, 255, 255, 255])]) := by
  refine ⟨⟨[.add Zones.soaRecord, .add ⟨ex, ⟨60⟩, .IN, ⟨NS, wwwEx.wire⟩⟩], rfl⟩, by decide +kernel, ?_, ?_⟩
  · intro change hchange
    rcases List.mem_cons.mp hchange with rfl | hchange
    · refine ⟨trivial, fun record hrecord => ?_⟩
      cases hrecord
      decide +kernel
    · obtain rfl := List.mem_singleton.mp hchange
      refine ⟨trivial, fun record hrecord => ?_⟩
      cases hrecord
      decide +kernel
  · rintro ⟨hmoves, -⟩
    have hserial : apexOnly.serial = some ⟨1⟩ := by decide +kernel
    have hafter : (applyUpdate apexOnly [.add (soaAt [128, 0, 0, 0]), .add (soaAt [255, 255, 255, 255])]).zone.serial =
        some ⟨4294967295⟩ := by decide +kernel
    obtain ⟨serial', hserial', hnewer⟩ := hmoves (by decide +kernel) _ hserial
    rw [hafter, Option.some.injEq] at hserial'
    rw [← hserial'] at hnewer
    exact absurd hnewer (by decide)

end Rdns.Transfer
