import Rdns.Zones.Locate

/-!
# Rdns — Rules a whole zone must keep

`rdns/src/zone/checks.rs`: relations between records that are refused at load, because
at query time there is no correct answer to give. Each check is asked of the zone's
index and its records in order; what it decides depends on neither.
-/

namespace Rdns.Zones

open Rdns.Lib Rdns.Core Zone RecordTypes

namespace Zone

def groups (z : Zone) : List (List Nat) :=
  z.index.nodes.entries.map fun entry => z.index.positions entry.value.slot

def typesAt (z : Zone) (positions : List Nat) : List Rtype :=
  (positions.filterMap fun i => z.records[i]?).map ZoneRecord.rtype

end Zone

/-- The types that may stand beside a CNAME (RFC 4035 §2.5). -/
def besideCname (rtype : Rtype) : Bool :=
  rtype == RRSIG || rtype == NSEC || rtype == NSEC3

def belowDname (rtype : Rtype) : Bool := besideCname rtype || rtype == NSEC3PARAM

def clashes (types : List Rtype) : Bool :=
  types.contains CNAME &&
    types.any fun rtype => !besideCname rtype && rtype != CNAME

/-- RFC 1034 §3.6.2: a CNAME must be the only type at its owner name. -/
def checkCnameExclusivity (z : Zone) : Except ZoneError Unit :=
  if z.groups.any fun positions => positions.length ≥ 2 && clashes (z.typesAt positions) then
    .error (.invalid "has a CNAME and also other types")
  else .ok ()

def dnameOwners (z : Zone) (owners : List Name) : List ZoneRecord → Except ZoneError (List Name)
  | [] => .ok owners
  | record :: rest =>
    if record.rtype ≠ DNAME then dnameOwners z owners rest
    else if record.name.labels.head? = some ASTERISK then
      .error (.invalid "is a wildcard DNAME")
    else if owners.any fun owner => owner.same record.name then
      .error (.invalid "has two DNAME records")
    -- asked of the index with the name as it is spelled, not folded
    else if record.name.same z.origin = false ∧ z.hasType record.name NS = true then
      .error (.invalid "has both a DNAME and an NS RRset below the apex")
    else dnameOwners z (owners ++ [record.name]) rest

/-- What RFC 6672 says a zone holding a DNAME may not do. -/
def checkDnameRules (z : Zone) : Except ZoneError Unit := do
  let owners ← dnameOwners z [] z.records
  if z.records.any fun record => !belowDname record.rtype && owners.any fun owner =>
      !record.name.same owner && record.name.isAtOrUnder owner then
    throw (.invalid "is below the DNAME")

/-! ## What the checks decide -/

/-- **A CNAME is alone at its name**, but for the types DNSSEC puts there. -/
def CnameAlone (records : List ZoneRecord) : Prop :=
  ∀ a ∈ records, ∀ b ∈ records, a.rtype = CNAME → a.name.same b.name = true →
    b.rtype = CNAME ∨ besideCname b.rtype = true

/-- **RFC 6672's rules**: no wildcard DNAME, one DNAME a name, none beside an NS below
the apex, and nothing below one. -/
structure DnameRules (origin : Name) (records : List ZoneRecord) : Prop where
  notWildcard : ∀ r ∈ records, r.rtype = DNAME →
    r.name.labels.head? ≠ some ASTERISK
  single : records.Pairwise fun a b => a.rtype = DNAME →
    b.rtype = DNAME → a.name.same b.name = false
  notBesideNs : ∀ r ∈ records, r.rtype = DNAME → r.name.same origin = false →
    ∀ s ∈ records, s.key = r.name.wire → s.rtype ≠ NS
  nothingBelow : ∀ r ∈ records, r.rtype = DNAME → ∀ s ∈ records,
    belowDname s.rtype = false → s.name.isAtOrUnder r.name = true → s.name.same r.name = true

variable {records : List ZoneRecord}

theorem dnameRules_of_none {origin : Name} (h : ∀ r ∈ records, r.rtype ≠ DNAME) :
    DnameRules origin records where
  notWildcard := fun r hr hd => absurd hd (h r hr)
  single := List.pairwise_of_forall_mem_list fun a ha _ _ hd => absurd hd (h a ha)
  notBesideNs := fun r hr hd => absurd hd (h r hr)
  nothingBelow := fun r hr hd => absurd hd (h r hr)

theorem CnameAlone.perm {others : List ZoneRecord} (h : CnameAlone records)
    (hperm : records.Perm others) : CnameAlone others :=
  fun a ha b hb => h a (hperm.mem_iff.mpr ha) b (hperm.mem_iff.mpr hb)

theorem DnameRules.perm {origin : Name} {others : List ZoneRecord} (h : DnameRules origin records)
    (hperm : records.Perm others) : DnameRules origin others where
  notWildcard := fun r hr => h.notWildcard r (hperm.mem_iff.mpr hr)
  single := by
    refine (hperm.pairwise_iff ?_).mp h.single
    intro a b hab hb ha
    rw [Name.same_comm]
    exact hab ha hb
  notBesideNs := fun r hr hd ho s hs =>
    h.notBesideNs r (hperm.mem_iff.mpr hr) hd ho s (hperm.mem_iff.mpr hs)
  nothingBelow := fun r hr hd s hs =>
    h.nothingBelow r (hperm.mem_iff.mpr hr) hd s (hperm.mem_iff.mpr hs)

variable {z : Zone}

theorem mem_groups (h : ZoneOk z) {positions : List Nat} :
    positions ∈ z.groups ↔
      ∃ key ∈ z.index.nodes.keys, positions = z.index.positionsOf key := by
  have hvalid := h.index.settled.valid
  have hat : ∀ entry ∈ z.index.nodes.entries,
      z.index.positionsOf (z.index.nodes.keyOf entry) = z.index.positions entry.value.slot := by
    intro entry hentry
    have hget := (ArenaTable.get_eq_some hvalid).mpr ⟨entry, hentry, rfl, rfl⟩
    rw [Index.positionsOf, Index.get, Index.find, hget]
    rfl
  rw [Zone.groups, List.mem_map, ArenaTable.keys]
  constructor
  · rintro ⟨entry, hentry, rfl⟩
    exact ⟨_, List.mem_map_of_mem hentry, (hat entry hentry).symm⟩
  · rintro ⟨key, hkey, rfl⟩
    obtain ⟨entry, hentry, rfl⟩ := List.mem_map.mp hkey
    exact ⟨entry, hentry, (hat entry hentry).symm⟩

theorem mem_typesAt (h : ZoneOk z) {key : Octets} {rtype : Rtype} :
    rtype ∈ z.typesAt (z.index.positionsOf key) ↔
      ∃ r ∈ z.records, r.key = key ∧ r.rtype = rtype := by
  rw [Zone.typesAt, List.mem_map]
  constructor
  · rintro ⟨r, hr, rfl⟩
    obtain ⟨i, hi, hget⟩ := List.mem_filterMap.mp hr
    rw [h.index.filed, ownerAt, hget] at hi
    exact ⟨r, List.mem_of_getElem? hget, Option.some.inj hi, rfl⟩
  · rintro ⟨r, hr, rfl, rfl⟩
    obtain ⟨i, hget⟩ := List.mem_iff_getElem?.mp hr
    refine ⟨r, List.mem_filterMap.mpr ⟨i, ?_, hget⟩, rfl⟩
    rw [h.index.filed, ownerAt, hget]
    rfl

theorem key_eq_iff_same {a b : ZoneRecord} : a.key = b.key ↔ a.name.same b.name = true := by
  rw [ZoneRecord.key, ZoneRecord.key, Name.same_iff]
  exact ⟨Name.wire_injective, fun h => by rw [h]⟩

theorem clashes_iff {types : List Rtype} : clashes types = true ↔
    CNAME ∈ types ∧
      ∃ rtype ∈ types, rtype ≠ CNAME ∧ besideCname rtype = false := by
  rw [clashes, Bool.and_eq_true, List.contains_iff_mem, List.any_eq_true]
  refine and_congr_right fun _ => exists_congr fun rtype => and_congr_right fun _ => ?_
  rw [Bool.and_eq_true, Bool.not_eq_true', bne_iff_ne]
  exact and_comm

/-- **The CNAME check decides `CnameAlone`.** -/
theorem checkCnameExclusivity_iff (h : ZoneOk z) :
    checkCnameExclusivity z = .ok () ↔ CnameAlone z.records := by
  have hgroup : (z.groups.any fun positions =>
      positions.length ≥ 2 && clashes (z.typesAt positions)) = true ↔ ¬ CnameAlone z.records := by
    rw [List.any_eq_true]
    constructor
    · rintro ⟨positions, hmem, hclash⟩ halone
      obtain ⟨key, -, rfl⟩ := (mem_groups h).mp hmem
      obtain ⟨hcname, rtype, hrtype, hne, hbeside⟩ :=
        clashes_iff.mp (Bool.and_eq_true_iff.mp hclash).2
      obtain ⟨a, ha, hakey, hatype⟩ := (mem_typesAt h).mp hcname
      obtain ⟨b, hb, hbkey, rfl⟩ := (mem_typesAt h).mp hrtype
      rcases halone a ha b hb hatype (key_eq_iff_same.mp (hakey.trans hbkey.symm)) with hb | hb
      · exact hne hb
      · rw [hb] at hbeside
        cases hbeside
    · intro halone
      simp only [CnameAlone, not_forall, not_or] at halone
      obtain ⟨a, ha, b, hb, hcname, hsame, hne, hbeside⟩ := halone
      have hkey : a.key = b.key := key_eq_iff_same.mpr hsame
      obtain ⟨i, hi⟩ := List.mem_iff_getElem?.mp ha
      obtain ⟨j, hj⟩ := List.mem_iff_getElem?.mp hb
      have hifile : i ∈ z.index.positionsOf a.key := by
        rw [h.index.filed, ownerAt, hi]
        rfl
      have hjfile : j ∈ z.index.positionsOf a.key := by
        rw [h.index.filed, ownerAt, hj, hkey]
        rfl
      have hij : i ≠ j := by grind
      have hlength : 2 ≤ (z.index.positionsOf a.key).length := by
        cases hpositions : z.index.positionsOf a.key with
        | nil =>
          rw [hpositions] at hifile
          cases hifile
        | cons only others => grind
      have hheld : a.key ∈ z.index.nodes.keys := by
        rw [← ArenaTable.get_isSome_iff h.index.settled.valid]
        by_contra hnone
        have hget : z.index.nodes.get nameHash a.key = none :=
          Option.not_isSome_iff_eq_none.mp hnone
        rw [Index.positionsOf, Index.get, Index.find, hget] at hifile
        cases hifile
      refine ⟨_, (mem_groups h).mpr ⟨a.key, hheld, rfl⟩, ?_⟩
      rw [Bool.and_eq_true, decide_eq_true_eq, clashes_iff]
      refine ⟨hlength, (mem_typesAt h).mpr ⟨a, ha, rfl, hcname⟩, b.rtype,
        (mem_typesAt h).mpr ⟨b, hb, hkey.symm, rfl⟩, hne, Bool.not_eq_true _ |>.mp hbeside⟩
  rw [checkCnameExclusivity]
  split
  · rename_i hany
    refine ⟨fun hok => (by cases hok), fun halone => absurd halone (hgroup.mp hany)⟩
  · rename_i hany
    refine ⟨fun _ => Classical.not_not.mp fun halone => hany (hgroup.mpr halone), fun _ => rfl⟩

theorem hasType_iff (h : ZoneOk z) (name : Name) (rtype : Rtype) :
    z.hasType name rtype = true ↔ ∃ r ∈ z.records, r.key = name.wire ∧ r.rtype = rtype := by
  rw [← mem_typesAt h, Zone.hasType, Zone.firstOfType, List.find?_isSome, Zone.typesAt,
    List.mem_map]
  simp only [beq_iff_eq]

theorem dnameOwners_eq_ok {owners found : List Name} :
    dnameOwners z owners records = .ok found ↔
      (found = owners ++ (records.filter fun r => r.rtype == DNAME).map ZoneRecord.name) ∧
      (∀ r ∈ records, r.rtype = DNAME → r.name.labels.head? ≠ some ASTERISK ∧
        (∀ owner ∈ owners, owner.same r.name = false) ∧
        ¬ (r.name.same z.origin = false ∧ z.hasType r.name NS = true)) ∧
      records.Pairwise fun a b => a.rtype = DNAME → b.rtype = DNAME →
        a.name.same b.name = false := by
  induction records generalizing owners with
  | nil =>
    rw [dnameOwners, List.filter_nil, List.map_nil, List.append_nil]
    constructor
    · grind
    · rintro ⟨rfl, -, -⟩
      rfl
  | cons record records ih =>
    rw [dnameOwners]
    by_cases hdname : record.rtype = DNAME
    · rw [if_neg (not_not_intro hdname), List.filter_cons, if_pos (beq_iff_eq.mpr hdname),
        List.map_cons, List.pairwise_cons]
      by_cases hwild : record.name.labels.head? = some ASTERISK
      · grind
      rw [if_neg hwild]
      by_cases hseen : (owners.any fun owner => owner.same record.name) = true
      · rw [if_pos hseen]
        refine ⟨fun hok => (by cases hok), fun hall => ?_⟩
        obtain ⟨owner, howner, hsame⟩ := List.any_eq_true.mp hseen
        have := (hall.2.1 record List.mem_cons_self hdname).2.1 owner howner
        rw [hsame] at this
        cases this
      rw [if_neg hseen]
      by_cases hns : record.name.same z.origin = false ∧
          z.hasType record.name NS = true
      · grind
      have hfresh : ∀ owner ∈ owners, owner.same record.name = false := by grind
      rw [if_neg hns, ih, List.append_assoc]
      simp only [List.mem_append, List.mem_singleton, List.forall_mem_cons]
      constructor
      · rintro ⟨rfl, hall, hpair⟩
        refine ⟨rfl, ⟨fun _ => ⟨hwild, hfresh, hns⟩, fun r hr hd => ?_⟩, fun r hr _ hd => ?_, hpair⟩
        · exact ⟨(hall r hr hd).1, fun owner howner => (hall r hr hd).2.1 owner (.inl howner),
            (hall r hr hd).2.2⟩
        · exact (hall r hr hd).2.1 record.name (.inr rfl)
      · rintro ⟨rfl, ⟨-, hall⟩, hhead, hpair⟩
        refine ⟨rfl, fun r hr hd => ⟨(hall r hr hd).1, ?_, (hall r hr hd).2.2⟩, hpair⟩
        rintro owner (howner | rfl)
        · exact (hall r hr hd).2.1 owner howner
        · exact hhead r hr hdname hd
    · rw [if_pos hdname, List.filter_cons, if_neg (by simpa using hdname), ih, List.pairwise_cons]
      simp only [List.forall_mem_cons]
      refine and_congr_right fun _ => ?_
      constructor
      · rintro ⟨hall, hpair⟩
        exact ⟨⟨fun hd => absurd hd hdname, hall⟩, fun _ _ hd => absurd hd hdname, hpair⟩
      · rintro ⟨⟨-, hall⟩, -, hpair⟩
        exact ⟨hall, hpair⟩

/-- **The DNAME check decides `DnameRules`.** -/
theorem checkDnameRules_iff (h : ZoneOk z) :
    checkDnameRules z = .ok () ↔ DnameRules z.origin z.records := by
  have hsplit : checkDnameRules z = .ok () ↔
      ∃ owners, dnameOwners z [] z.records = .ok owners ∧
        ∀ s ∈ z.records, belowDname s.rtype = false → ∀ owner ∈ owners,
          s.name.isAtOrUnder owner = true → s.name.same owner = true := by
    rw [checkDnameRules, except_bind_eq_ok]
    refine exists_congr fun owners => and_congr_right fun _ => ?_
    constructor
    · intro hok s hs hbelow owner howner hunder
      by_contra hsame
      rw [if_pos] at hok
      · cases hok
      · grind
    · intro hall
      rw [if_neg]
      · rfl
      · intro hany
        obtain ⟨s, hs, hclash⟩ := List.any_eq_true.mp hany
        rw [Bool.and_eq_true, Bool.not_eq_true', List.any_eq_true] at hclash
        obtain ⟨hbelow, owner, howner, hunder⟩ := hclash
        rw [Bool.and_eq_true, Bool.not_eq_true'] at hunder
        rw [hall s hs hbelow owner howner hunder.2] at hunder
        cases hunder.1
  rw [hsplit]
  constructor
  · rintro ⟨owners, hpass, hbelow⟩
    obtain ⟨rfl, hall, hpair⟩ := dnameOwners_eq_ok.mp hpass
    refine ⟨fun r hr hd => (hall r hr hd).1, hpair, fun r hr hd hapex s hs hkey hns => ?_,
      fun r hr hd s hs hs' hunder => ?_⟩
    · exact (hall r hr hd).2.2 ⟨hapex, (hasType_iff h _ _).mpr ⟨s, hs, hkey, hns⟩⟩
    · grind
  · intro hrules
    refine ⟨_, dnameOwners_eq_ok.mpr ⟨rfl, fun r hr hd => ⟨hrules.notWildcard r hr hd,
      fun _ ho => (by cases ho), ?_⟩, hrules.single⟩, fun s hs hs' owner howner hunder => ?_⟩
    · rintro ⟨hapex, hns⟩
      obtain ⟨s, hs, hkey, hstype⟩ := (hasType_iff h _ _).mp hns
      exact hrules.notBesideNs r hr hd hapex s hs hkey hstype
    · rw [List.nil_append] at howner
      obtain ⟨r, hr, rfl⟩ := List.mem_map.mp howner
      obtain ⟨hr, hd⟩ := List.mem_filter.mp hr
      exact hrules.nothingBelow r hr (beq_iff_eq.mp hd) s hs hs' hunder

end Rdns.Zones
