import Rdns.Zones.Update

/-!
# Rdns — Prerequisites against the record list

RFC 2136 §3.2 judges an UPDATE's prerequisites on what the zone holds. `check_prerequisites` of
`rdns/src/update.rs` asks `holds_name` about names in use, and for RRsets the lookup that answers
questions: that lookup takes a name the zone does not hold to a wildcard, and the type ANY to every
type. And it compares value prerequisites by their number first, where the RFC compares sets.
-/

namespace Rdns.Zones

open Rdns.Lib Rdns.Core RecordTypes

/-! ## What a zone holds -/

def Zone.held (z : Zone) (name : Name) (rtype : Rtype) : List ZoneRecord :=
  z.records.filter fun r => r.name.same name && r.rtype == rtype

section

variable {z : Zone}

variable {r : ZoneRecord} {name : Name} {rtype : Rtype}

theorem mem_held :
    r ∈ z.held name rtype ↔ r ∈ z.records ∧ r.name.same name = true ∧ r.rtype = rtype := by
  rw [Zone.held, List.mem_filter, Bool.and_eq_true, beq_iff_eq]

theorem slot_iff (h : z.ZoneOk) (name : Name) :
    (∃ slot, z.index.get name.toFolded.wire = some slot ∧ slot ≠ .ent) ↔ owns z.records name = true := by
  have hpositions : z.index.positionsOf name.toFolded.wire ≠ [] ↔ owns z.records name = true := by
    rw [Zone.owns_iff]
    constructor
    · intro hne
      obtain ⟨i, hi⟩ := List.exists_mem_of_ne_nil _ hne
      obtain ⟨r, hr, hsame⟩ := (h.mem_positionsOf name i).mp hi
      exact ⟨i, r, hr, hsame⟩
    · rintro ⟨i, r, hi, hsame⟩
      exact List.ne_nil_of_mem ((h.mem_positionsOf name i).mpr ⟨r, hi, hsame⟩)
  rw [← hpositions, ne_eq (z.index.positionsOf _), ← h.index.slots.slotAt_eq_ent_iff]
  by_cases hkey : name.toFolded.wire ∈ z.index.nodes.keys
  · rw [Index.get_eq_slotAt h.index.settled.valid hkey]
    constructor
    · rintro ⟨slot, hslot, hne⟩
      exact Option.some.inj hslot ▸ hne
    · exact fun hne => ⟨_, rfl, hne⟩
  · refine iff_of_false ?_ (not_not.mpr ?_)
    · rintro ⟨slot, hslot, -⟩
      rw [Index.get, Option.map_eq_some_iff] at hslot
      obtain ⟨node, hnode, -⟩ := hslot
      rw [Index.find] at hnode
      exact hkey ((ArenaTable.get_isSome_iff h.index.settled.valid).mp (by rw [hnode]; rfl))
    · rw [h.index.slots.slotAt_eq_ent_iff]
      by_contra hne
      obtain ⟨i, hi⟩ := List.exists_mem_of_ne_nil _ hne
      exact hkey (Index.mem_keys_of_positionsOf h.index.settled.valid hi)

/-- **A name is in use exactly when a record has it for its owner.** -/
theorem holdsName_iff (h : z.ZoneOk) (name : Name) :
    z.holdsName name = true ↔ ∃ r ∈ z.records, r.name.same name = true := by
  have howns : owns z.records name = true ↔ ∃ r ∈ z.records, r.name.same name = true := by
    rw [owns, List.any_eq_true]
  rw [← howns, ← slot_iff h, Zone.holdsName]
  cases z.index.get name.toFolded.wire with
  | none => simp
  | some slot => simp

theorem locate_of_owns (h : z.ZoneOk) (howns : owns z.records name = true) :
    z.locate name = ⟨.exact, z.index.positionsOf name.toFolded.wire⟩ := by
  obtain ⟨slot, hget, hne⟩ := (slot_iff h name).mpr howns
  have hkind : z.nameKindOfKey name.toFolded = .exact := by
    rw [Zone.nameKindOfKey, hget]
    cases slot with
    | ent => exact absurd rfl hne
    | one => rfl
    | spilled => rfl
  rw [Zone.locate, hkind]

theorem locate_of_not_owns (h : z.ZoneOk) (howns : ¬ owns z.records name = true) :
    (z.locate name).positions = [] ∨ ∃ star, (z.locate name).kind = .wildcard star := by
  have hkind : z.nameKindOfKey name.toFolded ≠ .exact := by
    rw [Zone.nameKindOfKey]
    cases hget : z.index.get name.toFolded.wire with
    | none =>
      have hwalk : ∀ above, z.encloserWalk above ≠ .exact := by
        intro above
        induction above with
        | nil => exact NameKind.noConfusion
        | cons encloser rest ih =>
          rw [Zone.encloserWalk]
          split
          · exact NameKind.noConfusion
          · split
            · exact ih
            · rw [Zone.synthesized]
              split
              · exact NameKind.noConfusion
              · grind
      exact hwalk _
    | some slot =>
      cases slot with
      | ent => exact NameKind.noConfusion
      | one => exact absurd ((slot_iff h name).mp ⟨_, hget, Slot.noConfusion⟩) howns
      | spilled => exact absurd ((slot_iff h name).mp ⟨_, hget, Slot.noConfusion⟩) howns
  rw [Zone.locate]
  cases hk : z.nameKindOfKey name.toFolded with
  | exact => exact absurd hk hkind
  | wildcard star => exact .inr ⟨star, rfl⟩
  | emptyNonTerminal => exact .inl rfl
  | notFound => exact .inl rfl

/-! ## What a lookup finds -/

theorem matches_of (rtype : Rtype) : (Qtype.of rtype).matches rtype = true := by
  rw [Qtype.matches]
  split
  · rename_i hany
    have hcode : rtype = ANY := congrArg Rtype.mk (congrArg Qtype.code hany)
    rw [hcode]
    decide
  · exact beq_self_eq_true _

theorem eq_of_matches {other : Rtype} (hany : rtype ≠ ANY)
    (h : (Qtype.of rtype).matches other = true) : other = rtype := by
  rw [Qtype.matches, if_neg (fun heq => hany (congrArg Rtype.mk (congrArg Qtype.code heq))), beq_iff_eq] at h
  exact congrArg Rtype.mk h.symm

theorem mem_query_of_owns (h : z.ZoneOk) (howns : owns z.records name = true) :
    r ∈ z.query name (.of rtype) ↔ r ∈ z.records ∧ r.name.same name = true ∧ (Qtype.of rtype).matches r.rtype = true := by
  rw [Zone.query, Zone.ofType, locate_of_owns h howns, List.mem_filter, List.mem_filterMap]
  constructor
  · rintro ⟨⟨i, hi, hr⟩, hmatches⟩
    obtain ⟨r', hr', hsame⟩ := (h.mem_positionsOf name i).mp hi
    rw [hr, Option.some.injEq] at hr'
    exact ⟨List.mem_of_getElem? hr, hr' ▸ hsame, hmatches⟩
  · rintro ⟨hmem, hsame, hmatches⟩
    obtain ⟨i, hi⟩ := List.mem_iff_getElem?.mp hmem
    exact ⟨⟨i, (h.mem_positionsOf name i).mpr ⟨r, hi, hsame⟩, hi⟩, hmatches⟩

theorem query_of_held (h : z.ZoneOk) (hr : r ∈ z.held name rtype) :
    r ∈ z.query name (.of rtype) := by
  obtain ⟨hmem, hsame, rfl⟩ := mem_held.mp hr
  exact (mem_query_of_owns h (List.any_eq_true.mpr ⟨r, hmem, hsame⟩)).mpr ⟨hmem, hsame, matches_of _⟩

def Zone.StraysFrom (z : Zone) (name : Name) (rtype : Rtype) : Prop :=
  rtype = ANY ∨ ∃ star, (z.locate name).kind = .wildcard star

/-- **A lookup that does not stray finds what the zone holds.** -/
theorem held_of_query (h : z.ZoneOk) (hstraight : ¬ z.StraysFrom name rtype)
    (hr : r ∈ z.query name (.of rtype)) :
    r ∈ z.held name rtype := by
  obtain ⟨hany, hstar⟩ := not_or.mp hstraight
  by_cases howns : owns z.records name = true
  · obtain ⟨hmem, hsame, hmatches⟩ := (mem_query_of_owns h howns).mp hr
    exact mem_held.mpr ⟨hmem, hsame, eq_of_matches hany hmatches⟩
  · grind [locate_of_not_owns, Zone.query, Zone.ofType]

end

/-! ## The prerequisites as the RFC has them -/

def namedFor (prerequisites : List Prerequisite) (name : Name) (rtype : Rtype) : List RecordData :=
  prerequisites.flatMap fun
    | .rrsetExistsWithValue n t rdatas => if n.same name ∧ t = rtype then rdatas else []
    | _ => []

def HeldAsNamed (z : Zone) (prerequisites : List Prerequisite) (name : Name) (rtype : Rtype) : Prop :=
  ∀ rdata, (∃ r ∈ z.held name rtype, r.rdata = rdata) ↔ rdata ∈ namedFor prerequisites name rtype

/-- What RFC 2136 §3.2 asks of the record list, for each form. -/
def Prerequisite.HoldsOf (z : Zone) (prerequisites : List Prerequisite) : Prerequisite → Prop
  | .rrsetExists name rtype => z.held name rtype ≠ []
  | .rrsetDoesNotExist name rtype => z.held name rtype = []
  | .nameInUse name => ∃ r ∈ z.records, r.name.same name = true
  | .nameNotInUse name => ¬ ∃ r ∈ z.records, r.name.same name = true
  | .rrsetExistsWithValue name rtype _ => HeldAsNamed z prerequisites name rtype

def Zone.answering (z : Zone) (name : Name) (rtype : Rtype) : List RecordData :=
  (z.query name (.of rtype)).map ZoneRecord.rdata

def Zone.AnswersElsewhere (z : Zone) (name : Name) (rtype : Rtype) : Prop :=
  z.StraysFrom name rtype ∧ z.held name rtype = [] ∧ z.answering name rtype ≠ []

def Prerequisite.WronglyMet (z : Zone) (prerequisites : List Prerequisite) : Prerequisite → Prop
  | .rrsetExists name rtype => z.AnswersElsewhere name rtype
  | .rrsetExistsWithValue name rtype _ =>
    z.StraysFrom name rtype ∧ ¬ HeldAsNamed z prerequisites name rtype ∧ z.answering name rtype ≠ [] ∧
      sameSet (z.answering name rtype) (namedFor prerequisites name rtype) = true
  | _ => False

/-- A prerequisite that holds and is refused: a lookup strays from an RRset that is to be absent, or
finds not as many records as are named, or none, or one that is not named. -/
def Prerequisite.WronglyRefused (z : Zone) (prerequisites : List Prerequisite) : Prerequisite → Prop
  | .rrsetDoesNotExist name rtype => z.AnswersElsewhere name rtype
  | .rrsetExistsWithValue name rtype _ =>
    HeldAsNamed z prerequisites name rtype ∧
      (z.answering name rtype = [] ∨
        (z.answering name rtype).length ≠ (namedFor prerequisites name rtype).length ∨
        ∃ rdata ∈ z.answering name rtype, rdata ∉ namedFor prerequisites name rtype)
  | _ => False

/-! ## What is checked -/

def Prerequisite.accepts (z : Zone) (prerequisites : List Prerequisite) : Prerequisite → Prop
  | .rrsetExists name rtype => z.answering name rtype ≠ []
  | .rrsetDoesNotExist name rtype => z.answering name rtype = []
  | .nameInUse name => z.holdsName name = true
  | .nameNotInUse name => z.holdsName name = false
  | .rrsetExistsWithValue name rtype _ =>
    z.answering name rtype ≠ [] ∧ sameSet (z.answering name rtype) (namedFor prerequisites name rtype) = true

section

variable {z : Zone} {prerequisites : List Prerequisite}

theorem sameSet_iff {held wanted : List RecordData} :
    sameSet held wanted = true ↔ held.length = wanted.length ∧ ∀ rdata, rdata ∈ held ↔ rdata ∈ wanted := by
  rw [sameSet, Bool.and_eq_true, Bool.and_eq_true, beq_iff_eq, List.all_eq_true, List.all_eq_true]
  simp only [List.contains_iff_mem]
  constructor
  · rintro ⟨⟨hlength, hheld⟩, hwanted⟩
    exact ⟨hlength, fun rdata => ⟨hheld rdata, hwanted rdata⟩⟩
  · rintro ⟨hlength, hmem⟩
    exact ⟨⟨hlength, fun rdata => (hmem rdata).mp⟩, fun rdata => (hmem rdata).mpr⟩

variable {name : Name} {rtype : Rtype}

theorem answering_eq_nil :
    z.answering name rtype = [] ↔ z.query name (.of rtype) = [] := List.map_eq_nil_iff

theorem answersElsewhere_of (h : z.ZoneOk) (hheld : z.held name rtype = [])
    (hanswers : z.answering name rtype ≠ []) : z.AnswersElsewhere name rtype := by
  refine ⟨?_, hheld, hanswers⟩
  by_contra hstraight
  obtain ⟨r, hr⟩ := List.exists_mem_of_ne_nil _ (fun hnil => hanswers (answering_eq_nil.mpr hnil))
  have hmem := held_of_query h hstraight hr
  rw [hheld] at hmem
  cases hmem

theorem answering_of_held (h : z.ZoneOk) {r : ZoneRecord} (hr : r ∈ z.held name rtype) :
    r.rdata ∈ z.answering name rtype := List.mem_map.mpr ⟨r, query_of_held h hr, rfl⟩

theorem accepts_value_iff (h : z.ZoneOk) (name : Name) (rtype : Rtype) (rdatas : List RecordData) :
    (Prerequisite.rrsetExistsWithValue name rtype rdatas).accepts z prerequisites ↔
      ((Prerequisite.rrsetExistsWithValue name rtype rdatas).HoldsOf z prerequisites ∧
        ¬ (Prerequisite.rrsetExistsWithValue name rtype rdatas).WronglyRefused z prerequisites) ∨
      (Prerequisite.rrsetExistsWithValue name rtype rdatas).WronglyMet z prerequisites := by
  constructor
  · rintro ⟨hanswers, hsame⟩
    obtain ⟨hlength, hmem⟩ := sameSet_iff.mp hsame
    by_cases hnamed : HeldAsNamed z prerequisites name rtype
    · refine .inl ⟨hnamed, ?_⟩
      rintro ⟨-, hnone | hcount | ⟨rdata, hin, hout⟩⟩
      · exact hanswers hnone
      · exact hcount hlength
      · exact hout ((hmem rdata).mp hin)
    · refine .inr ⟨?_, hnamed, hanswers, hsame⟩
      -- a lookup that does not stray finds what is held, and that is as named
      by_contra hstraight
      refine hnamed fun rdata => ?_
      rw [← hmem rdata]
      constructor
      · rintro ⟨r, hr, rfl⟩
        exact answering_of_held h hr
      · intro hin
        obtain ⟨r, hr, rfl⟩ := List.mem_map.mp hin
        exact ⟨r, held_of_query h hstraight hr, rfl⟩
  · rintro (⟨hnamed, hrefused⟩ | ⟨-, -, hanswers, hsame⟩)
    · have hgood : ¬ (z.answering name rtype = [] ∨
          (z.answering name rtype).length ≠ (namedFor prerequisites name rtype).length ∨
          ∃ rdata ∈ z.answering name rtype, rdata ∉ namedFor prerequisites name rtype) :=
        fun hbad => hrefused ⟨hnamed, hbad⟩
      rw [not_or, not_or] at hgood
      obtain ⟨hanswers, hlength, hnone⟩ := hgood
      refine ⟨hanswers, sameSet_iff.mpr ⟨not_not.mp hlength, fun rdata => ⟨fun hin => ?_, fun hin => ?_⟩⟩⟩
      · by_contra hout
        exact hnone ⟨rdata, hin, hout⟩
      · obtain ⟨r, hr, rfl⟩ := (hnamed rdata).mpr hin
        exact answering_of_held h hr
    · exact ⟨hanswers, hsame⟩

/-- **What the check of a prerequisite decides, against the RFC.** -/
theorem accepts_iff (h : z.ZoneOk) (p : Prerequisite) :
    p.accepts z prerequisites ↔ (p.HoldsOf z prerequisites ∧ ¬ p.WronglyRefused z prerequisites) ∨
      p.WronglyMet z prerequisites := by
  cases p with
  | rrsetExists name rtype =>
    constructor
    · intro hanswers
      by_cases hheld : z.held name rtype = []
      · exact .inr (answersElsewhere_of h hheld hanswers)
      · exact .inl ⟨hheld, not_false⟩
    · rintro (⟨hheld, -⟩ | ⟨-, -, hanswers⟩)
      · obtain ⟨r, hr⟩ := List.exists_mem_of_ne_nil _ hheld
        exact List.ne_nil_of_mem (answering_of_held h hr)
      · exact hanswers
  | rrsetDoesNotExist name rtype =>
    constructor
    · intro hnone
      refine .inl ⟨?_, fun hrefused => hrefused.2.2 hnone⟩
      refine List.eq_nil_iff_forall_not_mem.mpr fun r hr => ?_
      have hmem := answering_of_held h hr
      rw [show z.answering name rtype = [] from hnone] at hmem
      cases hmem
    · rintro (⟨hheld, hrefused⟩ | hmet)
      · by_contra hanswers
        exact hrefused (answersElsewhere_of h hheld hanswers)
      · exact hmet.elim
  | nameInUse name =>
    constructor
    · intro hholds
      exact .inl ⟨(holdsName_iff h name).mp hholds, not_false⟩
    · rintro (⟨hholds, -⟩ | hmet)
      · exact (holdsName_iff h name).mpr hholds
      · exact hmet.elim
  | nameNotInUse name =>
    constructor
    · intro hholds
      refine .inl ⟨fun hin => ?_, not_false⟩
      have hin' := (holdsName_iff h name).mpr hin
      rw [show z.holdsName name = false from hholds] at hin'
      cases hin'
    · rintro (⟨hholds, -⟩ | hmet)
      · show z.holdsName name = false
        rw [← Bool.not_eq_true, holdsName_iff h]
        exact hholds
      · exact hmet.elim
  | rrsetExistsWithValue name rtype rdatas => exact accepts_value_iff h name rtype rdatas

variable {p : Prerequisite}

theorem not_holds_of_wronglyMet (h : p.WronglyMet z prerequisites) :
    ¬ p.HoldsOf z prerequisites := by
  cases p with
  | rrsetExists => exact fun hheld => hheld h.2.1
  | rrsetExistsWithValue => exact h.2.1
  | rrsetDoesNotExist => exact h.elim
  | nameInUse => exact h.elim
  | nameNotInUse => exact h.elim

theorem holds_of_wronglyRefused (h : p.WronglyRefused z prerequisites) :
    p.HoldsOf z prerequisites := by
  cases p with
  | rrsetDoesNotExist => exact h.2.1
  | rrsetExistsWithValue => exact h.1
  | rrsetExists => exact h.elim
  | nameInUse => exact h.elim
  | nameNotInUse => exact h.elim

/-! ## The two passes -/

structure Collected (done : List Prerequisite) (sets : List (Name × Rtype × List RecordData)) : Prop where
  named : ∀ e ∈ sets, e.2.2 = namedFor done e.1 e.2.1
  asked : ∀ e ∈ sets, ∃ rdatas, Prerequisite.rrsetExistsWithValue e.1 e.2.1 rdatas ∈ done
  there : ∀ name rtype rdatas, Prerequisite.rrsetExistsWithValue name rtype rdatas ∈ done →
    ∃ e ∈ sets, e.1.same name = true ∧ e.2.1 = rtype
  apart : sets.Pairwise fun a b => ¬ (a.1.same b.1 = true ∧ a.2.1 = b.2.1)

theorem collected_nil : Collected [] [] where
  named _ h := by cases h
  asked _ h := by cases h
  there _ _ _ h := by cases h
  apart := .nil

theorem namedFor_append (a b : List Prerequisite) (name : Name) (rtype : Rtype) :
    namedFor (a ++ b) name rtype = namedFor a name rtype ++ namedFor b name rtype := List.flatMap_append

theorem namedFor_congr (done : List Prerequisite) {a b : Name} (h : a.same b = true) (rtype : Rtype) :
    namedFor done a rtype = namedFor done b rtype := by
  have hsame : ∀ n : Name, n.same a = n.same b := fun n => by
    rw [Bool.eq_iff_iff, Name.same_iff, Name.same_iff, Name.same_iff.mp h]
  rw [namedFor, namedFor]
  simp only [hsame]

theorem collectValues_cases (sets : List (Name × Rtype × List RecordData)) (name : Name) (rtype : Rtype)
    (rdatas : List RecordData) :
    (∃ front e back, sets = front ++ e :: back ∧ (e.1.same name = true ∧ e.2.1 = rtype) ∧
        collectValues sets name rtype rdatas = front ++ (e.1, e.2.1, e.2.2 ++ rdatas) :: back) ∨
      ((∀ e ∈ sets, ¬ (e.1.same name = true ∧ e.2.1 = rtype)) ∧
        collectValues sets name rtype rdatas = sets ++ [(name, rtype, rdatas)]) := by
  induction sets with
  | nil => exact .inr ⟨fun _ h => (by cases h), rfl⟩
  | cons e rest ih =>
    obtain ⟨n, t, collected⟩ := e
    rw [collectValues]
    by_cases hat : n.same name = true ∧ t = rtype
    · rw [if_pos hat]
      exact .inl ⟨[], _, rest, rfl, hat, rfl⟩
    · rw [if_neg hat]
      rcases ih with ⟨front, e, back, hsplit, hmatch, hcollect⟩ | ⟨hnone, hcollect⟩
      · exact .inl ⟨_ :: front, e, back, by rw [hsplit]; rfl, hmatch, by rw [hcollect]; rfl⟩
      · grind

section

variable {done : List Prerequisite} {sets : List (Name × Rtype × List RecordData)} {name : Name} {rtype : Rtype}

theorem namedFor_value_same {n : Name} (hsame : n.same name = true) (rdatas : List RecordData) :
    namedFor (done ++ [.rrsetExistsWithValue name rtype rdatas]) n rtype = namedFor done n rtype ++ rdatas := by
  have hone : namedFor [.rrsetExistsWithValue name rtype rdatas] n rtype =
      if name.same n ∧ rtype = rtype then rdatas else [] := List.append_nil _
  rw [namedFor_append, hone, if_pos ⟨by rwa [Name.same_comm], rfl⟩]

theorem namedFor_value_other {n : Name} {t : Rtype} (hne : ¬ (n.same name = true ∧ t = rtype))
    (rdatas : List RecordData) :
    namedFor (done ++ [.rrsetExistsWithValue name rtype rdatas]) n t = namedFor done n t := by
  have hone : namedFor [.rrsetExistsWithValue name rtype rdatas] n t =
      if name.same n ∧ rtype = t then rdatas else [] := List.append_nil _
  rw [namedFor_append, hone, if_neg, List.append_nil]
  rintro ⟨hsame, rfl⟩
  exact hne ⟨by rwa [Name.same_comm], rfl⟩

theorem Collected.namedFor_of_none (h : Collected done sets)
    (hnone : ∀ e ∈ sets, ¬ (e.1.same name = true ∧ e.2.1 = rtype)) : namedFor done name rtype = [] := by
  rw [namedFor, List.flatMap_eq_nil_iff]
  intro p hp
  cases p with
  | rrsetExistsWithValue n t rds =>
    refine if_neg ?_
    rintro ⟨hnsame, rfl⟩
    obtain ⟨e, he, hesame, hetype⟩ := h.there n t rds hp
    exact hnone e he ⟨Name.same_trans hesame hnsame, hetype⟩
  | _ => rfl

theorem Collected.asked_after (h : Collected done sets) (p : Prerequisite) {e : Name × Rtype × List RecordData}
    (he : e ∈ sets) : ∃ rdatas, Prerequisite.rrsetExistsWithValue e.1 e.2.1 rdatas ∈ done ++ [p] := by
  obtain ⟨rdatas, hmem⟩ := h.asked e he
  exact ⟨rdatas, List.mem_append_left _ hmem⟩

theorem Collected.joined {front back : List (Name × Rtype × List RecordData)} {e : Name × Rtype × List RecordData}
    (h : Collected done (front ++ e :: back)) (hsame : e.1.same name = true) (htype : e.2.1 = rtype)
    (rdatas : List RecordData) :
    Collected (done ++ [.rrsetExistsWithValue name rtype rdatas]) (front ++ (e.1, e.2.1, e.2.2 ++ rdatas) :: back) := by
  obtain ⟨hfront, hrest, hacross⟩ := List.pairwise_append.mp h.apart
  obtain ⟨hback, hbackApart⟩ := List.pairwise_cons.mp hrest
  -- only the one entry is of this RRset
  have hfrontNe : ∀ a ∈ front, ¬ (a.1.same name = true ∧ a.2.1 = rtype) := by
    rintro a ha ⟨hasame, hatype⟩
    refine hacross a ha e List.mem_cons_self ⟨Name.same_trans hasame (by rwa [Name.same_comm]), hatype.trans htype.symm⟩
  have hbackNe : ∀ a ∈ back, ¬ (a.1.same name = true ∧ a.2.1 = rtype) := by grind [Name.same_trans, Name.same_comm]
  refine ⟨fun a ha => ?_, fun a ha => ?_, fun n t rds hmem => ?_, ?_⟩
  · rcases List.mem_append.mp ha with ha | ha
    · rw [namedFor_value_other (hfrontNe a ha)]
      exact h.named a (List.mem_append_left _ ha)
    · rcases List.mem_cons.mp ha with rfl | ha
      · dsimp only
        rw [htype, namedFor_value_same hsame, ← htype,
          h.named e (List.mem_append_right _ List.mem_cons_self)]
      · rw [namedFor_value_other (hbackNe a ha)]
        exact h.named a (List.mem_append_right _ (List.mem_cons_of_mem _ ha))
  · rcases List.mem_append.mp ha with ha | ha
    · exact h.asked_after _ (List.mem_append_left _ ha)
    · rcases List.mem_cons.mp ha with rfl | ha
      · exact h.asked_after (e := e) _ (List.mem_append_right _ List.mem_cons_self)
      · exact h.asked_after _ (List.mem_append_right _ (List.mem_cons_of_mem _ ha))
  · rcases List.mem_append.mp hmem with hmem | hmem
    · obtain ⟨a, ha, hat⟩ := h.there n t rds hmem
      rcases List.mem_append.mp ha with ha | ha
      · exact ⟨a, List.mem_append_left _ ha, hat⟩
      · rcases List.mem_cons.mp ha with rfl | ha
        · exact ⟨_, List.mem_append_right _ List.mem_cons_self, hat⟩
        · exact ⟨a, List.mem_append_right _ (List.mem_cons_of_mem _ ha), hat⟩
    · obtain ⟨rfl, rfl, -⟩ := Prerequisite.rrsetExistsWithValue.inj (List.mem_singleton.mp hmem)
      exact ⟨_, List.mem_append_right _ List.mem_cons_self, hsame, htype⟩
  · grind [List.pairwise_cons]

theorem Collected.fresh (h : Collected done sets) (hnone : ∀ e ∈ sets, ¬ (e.1.same name = true ∧ e.2.1 = rtype))
    (rdatas : List RecordData) :
    Collected (done ++ [.rrsetExistsWithValue name rtype rdatas]) (sets ++ [(name, rtype, rdatas)]) := by
  refine ⟨fun a ha => ?_, fun a ha => ?_, fun n t rds hmem => ?_, ?_⟩
  · rcases List.mem_append.mp ha with ha | ha
    · rw [namedFor_value_other (hnone a ha)]
      exact h.named a ha
    · obtain rfl := List.mem_singleton.mp ha
      dsimp only
      rw [namedFor_value_same (Name.same_self name), h.namedFor_of_none hnone]
      rfl
  · rcases List.mem_append.mp ha with ha | ha
    · exact h.asked_after _ ha
    · obtain rfl := List.mem_singleton.mp ha
      exact ⟨rdatas, List.mem_append_right _ (List.mem_singleton_self _)⟩
  · rcases List.mem_append.mp hmem with hmem | hmem
    · obtain ⟨a, ha, hat⟩ := h.there n t rds hmem
      exact ⟨a, List.mem_append_left _ ha, hat⟩
    · obtain ⟨rfl, rfl, -⟩ := Prerequisite.rrsetExistsWithValue.inj (List.mem_singleton.mp hmem)
      exact ⟨_, List.mem_append_right _ (List.mem_singleton_self _), Name.same_self _, rfl⟩
  · refine List.pairwise_append.mpr ⟨h.apart, List.pairwise_singleton _ _, fun a ha b hb => ?_⟩
    obtain rfl := List.mem_singleton.mp hb
    exact hnone a ha

/-- **One more value prerequisite** is collected with those of its RRset. -/
theorem Collected.value (h : Collected done sets) (name : Name) (rtype : Rtype) (rdatas : List RecordData) :
    Collected (done ++ [.rrsetExistsWithValue name rtype rdatas]) (collectValues sets name rtype rdatas) := by
  rcases collectValues_cases sets name rtype rdatas with ⟨front, e, back, rfl, ⟨hsame, htype⟩, hcollect⟩ |
    ⟨hnone, hcollect⟩
  · rw [hcollect]
    exact h.joined hsame htype rdatas
  · rw [hcollect]
    exact h.fresh hnone rdatas

end

theorem Collected.other {done : List Prerequisite} {sets : List (Name × Rtype × List RecordData)}
    (h : Collected done sets)
    (hp : ∀ name rtype rdatas, p ≠ .rrsetExistsWithValue name rtype rdatas) :
    Collected (done ++ [p]) sets := by
  have hnone : ∀ name rtype, namedFor [p] name rtype = [] := by
    intro name rtype
    cases p with
    | rrsetExistsWithValue n t rdatas => exact absurd rfl (hp n t rdatas)
    | _ => rfl
  refine ⟨fun e he => ?_, fun e he => ?_, fun name rtype rdatas hmem => ?_, h.apart⟩
  · rw [namedFor_append, hnone, List.append_nil]
    exact h.named e he
  · obtain ⟨rdatas, hmem⟩ := h.asked e he
    exact ⟨rdatas, List.mem_append_left _ hmem⟩
  · rcases List.mem_append.mp hmem with hmem | hmem
    · exact h.there name rtype rdatas hmem
    · exact absurd (List.mem_singleton.mp hmem).symm (hp name rtype rdatas)

def Prerequisite.scanned (z : Zone) : Prerequisite → Prop
  | .rrsetExistsWithValue .. => True
  | p => p.accepts z []

/-- **The first pass** decides the forms it can, and collects the rest. -/
theorem scanPrerequisites_spec {rest done : List Prerequisite} {sets : List (Name × Rtype × List RecordData)}
    (h : Collected done sets) :
    ((∀ p ∈ rest, p.scanned z) ∧ ∃ out, scanPrerequisites z sets rest = .ok out ∧ Collected (done ++ rest) out) ∨
      ((∃ p ∈ rest, ¬ p.scanned z) ∧ ∃ e, scanPrerequisites z sets rest = .error e) := by
  induction rest generalizing done sets with
  | nil => exact .inl ⟨fun _ hp => (by cases hp), sets, rfl, by rwa [List.append_nil]⟩
  | cons p rest ih =>
    -- what one prerequisite does, and then the others
    have hgoes : ∀ {sets' : List (Name × Rtype × List RecordData)}, p.scanned z → Collected (done ++ [p]) sets' →
        scanPrerequisites z sets (p :: rest) = scanPrerequisites z sets' rest →
        ((∀ p' ∈ p :: rest, p'.scanned z) ∧
            ∃ out, scanPrerequisites z sets (p :: rest) = .ok out ∧ Collected (done ++ p :: rest) out) ∨
          ((∃ p' ∈ p :: rest, ¬ p'.scanned z) ∧ ∃ e, scanPrerequisites z sets (p :: rest) = .error e) := by
      intro sets' hp hcollected hscan
      rw [hscan]
      rcases ih hcollected with ⟨hall, out, hout, hend⟩ | ⟨⟨p', hp', hfails⟩, herror⟩
      · refine .inl ⟨List.forall_mem_cons.mpr ⟨hp, hall⟩, out, hout, ?_⟩
        rwa [List.append_assoc, List.singleton_append] at hend
      · exact .inr ⟨⟨p', List.mem_cons_of_mem _ hp', hfails⟩, herror⟩
    have hstops : ∀ {e : Rejected}, ¬ p.scanned z → scanPrerequisites z sets (p :: rest) = .error e →
        ((∀ p' ∈ p :: rest, p'.scanned z) ∧
            ∃ out, scanPrerequisites z sets (p :: rest) = .ok out ∧ Collected (done ++ p :: rest) out) ∨
          ((∃ p' ∈ p :: rest, ¬ p'.scanned z) ∧ ∃ e, scanPrerequisites z sets (p :: rest) = .error e) :=
      fun hp hscan => .inr ⟨⟨p, List.mem_cons_self, hp⟩, _, hscan⟩
    cases p with
    | rrsetExists name rtype =>
      by_cases hempty : (z.query name (.of rtype)).isEmpty = true
      · refine hstops (fun hanswers => ?_) (if_pos hempty)
        exact hanswers (answering_eq_nil.mpr (List.isEmpty_iff.mp hempty))
      · refine hgoes (fun hnil => ?_) (h.other fun _ _ _ => Prerequisite.noConfusion) (if_neg hempty)
        exact hempty (List.isEmpty_iff.mpr (answering_eq_nil.mp hnil))
    | rrsetDoesNotExist name rtype =>
      by_cases hempty : (z.query name (.of rtype)).isEmpty = true
      · refine hgoes (answering_eq_nil.mpr (List.isEmpty_iff.mp hempty))
          (h.other fun _ _ _ => Prerequisite.noConfusion) (if_neg ?_)
        rw [hempty]
        decide
      · refine hstops (fun hnone => ?_) (if_pos ?_)
        · exact hempty (List.isEmpty_iff.mpr (answering_eq_nil.mp hnone))
        · rw [Bool.not_eq_true _ |>.mp hempty]
          rfl
    | nameInUse name =>
      by_cases hholds : z.holdsName name = true
      · refine hgoes hholds (h.other fun _ _ _ => Prerequisite.noConfusion) (if_neg ?_)
        rw [hholds]
        decide
      · refine hstops hholds (if_pos ?_)
        rw [Bool.not_eq_true _ |>.mp hholds]
        rfl
    | nameNotInUse name =>
      by_cases hholds : z.holdsName name = true
      · refine hstops (fun hnot => ?_) (if_pos hholds)
        rw [show z.holdsName name = false from hnot] at hholds
        cases hholds
      · exact hgoes (Bool.not_eq_true _ |>.mp hholds) (h.other fun _ _ _ => Prerequisite.noConfusion) (if_neg hholds)
    | rrsetExistsWithValue name rtype rdatas => exact hgoes trivial (h.value name rtype rdatas) rfl

theorem forM_eq_ok {α ε : Type} {xs : List α} {check : α → Except ε Unit} :
    xs.forM check = .ok () ↔ ∀ x ∈ xs, check x = .ok () := by
  induction xs with
  | nil => exact iff_of_true rfl fun _ hx => (by cases hx)
  | cons x xs ih =>
    show (check x >>= fun _ => xs.forM check) = .ok () ↔ _
    rw [List.forall_mem_cons, ← ih]
    constructor
    · intro h
      obtain ⟨⟨⟩, hx, hxs⟩ := except_bind_eq_ok.mp h
      exact ⟨hx, hxs⟩
    · rintro ⟨hx, hxs⟩
      exact except_bind_eq_ok.mpr ⟨(), hx, hxs⟩

theorem answering_congr {a b : Name} (h : a.same b = true) (rtype : Rtype) : z.answering a rtype = z.answering b rtype := by
  rw [Zone.answering, Zone.answering, Zone.query, Zone.query, Zone.locate, Zone.locate, Name.same_iff.mp h]

/-- **The prerequisites are met exactly when each one's check accepts it.** -/
theorem checkPrerequisites_iff :
    checkPrerequisites z prerequisites = .ok () ↔ ∀ p ∈ prerequisites, p.accepts z prerequisites := by
  have hscanned : ∀ p : Prerequisite, p.accepts z prerequisites → p.scanned z := by
    intro p hp
    cases p with
    | rrsetExistsWithValue => trivial
    | _ => exact hp
  rw [checkPrerequisites]
  rcases @scanPrerequisites_spec z prerequisites [] [] collected_nil with
    ⟨hall, sets, hsets, hcollected⟩ | ⟨⟨p, hp, hfails⟩, e, herror⟩
  · rw [List.nil_append] at hcollected
    rw [hsets]
    show List.forM sets _ = Except.ok () ↔ _
    rw [forM_eq_ok]
    have hentry : ∀ e ∈ sets, ((let held := (z.query e.1 (.of e.2.1)).map ZoneRecord.rdata
        if held.isEmpty then throw ⟨.noSuchResourceRecordSet, "no RRset to match against"⟩
        else if !sameSet held e.2.2 then throw ⟨.noSuchResourceRecordSet, "another RRset"⟩
        else pure () : Except Rejected Unit) = .ok () ↔
          (z.answering e.1 e.2.1 ≠ [] ∧ sameSet (z.answering e.1 e.2.1) (namedFor prerequisites e.1 e.2.1) = true)) := by
      intro e he
      rw [← hcollected.named e he]
      show (if (z.answering e.1 e.2.1).isEmpty then _ else if !sameSet (z.answering e.1 e.2.1) e.2.2 then _ else _ :
        Except Rejected Unit) = .ok () ↔ _
      by_cases hempty : (z.answering e.1 e.2.1).isEmpty = true
      · rw [if_pos hempty]
        exact iff_of_false (fun h => by cases h) fun h => h.1 (List.isEmpty_iff.mp hempty)
      · rw [if_neg hempty]
        cases hsame : sameSet (z.answering e.1 e.2.1) e.2.2 with
        | true => exact iff_of_true rfl ⟨fun hnil => hempty (List.isEmpty_iff.mpr hnil), rfl⟩
        | false => exact iff_of_false (fun h => by cases h) fun h => by cases h.2
    constructor
    · intro hchecks p hp
      cases p with
      | rrsetExistsWithValue name rtype rdatas =>
        obtain ⟨e, he, hsame, rfl⟩ := hcollected.there name rtype rdatas hp
        have hok := (hentry e he).mp (hchecks e he)
        rwa [answering_congr hsame, namedFor_congr _ hsame] at hok
      | rrsetExists => exact hall _ hp
      | rrsetDoesNotExist => exact hall _ hp
      | nameInUse => exact hall _ hp
      | nameNotInUse => exact hall _ hp
    · intro haccepts e he
      obtain ⟨rdatas, hmem⟩ := hcollected.asked e he
      exact (hentry e he).mpr (haccepts _ hmem)
  · rw [herror]
    refine iff_of_false (fun h => by cases h) fun haccepts => hfails (hscanned p (haccepts p hp))

end

/-! ## Judged as the RFC has it -/

def JudgedRight (z : Zone) (prerequisites : List Prerequisite) : Prop :=
  checkPrerequisites z prerequisites = .ok () ↔ ∀ p ∈ prerequisites, p.HoldsOf z prerequisites

/-- **Prerequisites are judged as the RFC has it exactly when** none is misjudged, or one fails that
no lookup makes good, or one is misjudged either way. -/
theorem prerequisites_right_iff {origin : Name} {ops : List ZoneOp} {z : Zone} (hrun : (Zone.new origin).run ops = some z)
    (prerequisites : List Prerequisite) :
    JudgedRight z prerequisites ↔
      (∀ p ∈ prerequisites, ¬ p.WronglyMet z prerequisites ∧ ¬ p.WronglyRefused z prerequisites) ∨
      (∃ p ∈ prerequisites, ¬ p.HoldsOf z prerequisites ∧ ¬ p.WronglyMet z prerequisites) ∨
      ((∃ p ∈ prerequisites, p.WronglyMet z prerequisites) ∧ ∃ p ∈ prerequisites, p.WronglyRefused z prerequisites) := by
  have hok : z.ZoneOk := (Zone.zoneOk_new origin).run hrun
  have haccepts := fun p => @accepts_iff z prerequisites hok p
  rw [JudgedRight, checkPrerequisites_iff]
  constructor
  · intro hright
    by_cases hmet : ∃ p ∈ prerequisites, p.WronglyMet z prerequisites
    · by_cases hrefused : ∃ p ∈ prerequisites, p.WronglyRefused z prerequisites
      · exact .inr (.inr ⟨hmet, hrefused⟩)
      · -- what fails is not all made good, or all would be accepted
        refine .inr (.inl ?_)
        by_contra hnone
        obtain ⟨p, hp, hpmet⟩ := hmet
        refine not_holds_of_wronglyMet hpmet (hright.mp (fun p' hp' => (haccepts p').mpr ?_) p hp)
        by_cases hholds : p'.HoldsOf z prerequisites
        · exact .inl ⟨hholds, fun h => hrefused ⟨p', hp', h⟩⟩
        · exact .inr (by_contra fun h => hnone ⟨p', hp', hholds, h⟩)
    · by_cases hall : ∀ p ∈ prerequisites, p.HoldsOf z prerequisites
      · refine .inl fun p hp => ⟨fun h => hmet ⟨p, hp, h⟩, ?_⟩
        exact (((haccepts p).mp (hright.mpr hall p hp)).resolve_right fun h => hmet ⟨p, hp, h⟩).2
      · rw [not_forall] at hall
        obtain ⟨p, hall⟩ := hall
        obtain ⟨hp, hfails⟩ := Classical.not_imp.mp hall
        exact .inr (.inl ⟨p, hp, hfails, fun h => hmet ⟨p, hp, h⟩⟩)
  · rintro (hnone | ⟨p, hp, hfails, hnot⟩ | ⟨⟨p, hp, hmet⟩, p', hp', hrefused⟩)
    · refine forall_congr' fun p => imp_congr_right fun hp => ?_
      rw [haccepts p, or_iff_left (hnone p hp).1, and_iff_left (hnone p hp).2]
    · grind
    · refine iff_of_false (fun hall => ?_) fun hall => not_holds_of_wronglyMet hmet (hall p hp)
      rcases (haccepts p').mp (hall p' hp') with ⟨-, hnot⟩ | hmet'
      · exact hnot hrefused
      · exact not_holds_of_wronglyMet hmet' (holds_of_wronglyRefused hrefused)

def withWww : Zone := (Zone.new ex).add (addressAt wwwEx)
def withWwwTwice : Zone := withWww.add (addressAt wwwEx)
def withStar : Zone := (Zone.new ex).add (addressAt starEx)

theorem prerequisites_right_withWww :
    (Zone.new ex).run [.add (addressAt wwwEx)] = some withWww ∧
      JudgedRight withWww [.rrsetExists wwwEx A] := by
  have hrun : (Zone.new ex).run [.add (addressAt wwwEx)] = some withWww := rfl
  refine ⟨hrun, (prerequisites_right_iff hrun _).mpr (.inl fun p hp => ?_)⟩
  obtain rfl := List.mem_singleton.mp hp
  have hheld : withWww.held wwwEx A ≠ [] := by decide +kernel
  exact ⟨fun hmet => hheld hmet.2.1, not_false⟩

theorem prerequisites_misjudged :
    ¬ JudgedRight withStar [.rrsetExists wwwEx A] ∧
      ¬ JudgedRight withWwwTwice
        [.rrsetExistsWithValue wwwEx A [(addressAt wwwEx).rdata]] := by
  constructor
  · intro h
    have hok : checkPrerequisites withStar [.rrsetExists wwwEx A] = .ok () := by decide +kernel
    have hheld : withStar.held wwwEx A = [] := by decide +kernel
    exact h.mp hok _ (List.mem_singleton_self _) hheld
  · intro h
    have hrefused : checkPrerequisites withWwwTwice
        [.rrsetExistsWithValue wwwEx A [(addressAt wwwEx).rdata]] ≠ .ok () := by decide +kernel
    refine hrefused (h.mpr fun p hp => ?_)
    obtain rfl := List.mem_singleton.mp hp
    have hheld : withWwwTwice.held wwwEx A = [addressAt wwwEx, addressAt wwwEx] := by decide +kernel
    have hnamed : namedFor [.rrsetExistsWithValue wwwEx A [(addressAt wwwEx).rdata]] wwwEx A =
        [(addressAt wwwEx).rdata] := by decide +kernel
    intro rdata
    rw [hheld, hnamed, List.mem_singleton]
    constructor
    · grind
    · rintro rfl
      exact ⟨_, List.mem_cons_self, rfl⟩

end Rdns.Zones
