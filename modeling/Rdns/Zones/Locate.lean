import Rdns.Zones.Zone

/-!
# Rdns — Where a name lands in a zone

`Zone::locate` and the walks below it: `name_kind_of_key`, `delegation_for_key`,
`dname_above_key`, `has_type`.

Beside them stands what they are for: `definedKind`, RFC 1034 §4.3.2 and RFC 4592 read
off the record list with no index and no shortcut. The two are compared over every run
of the calls that change a zone.
-/

namespace Rdns.Zones

open Rdns.Lib Rdns.Core RecordTypes

/-! ## The lookup -/

/-- Why a name has an answer in this zone, or has none (RFC 1034 §4.3.2). -/
inductive NameKind where
  | exact
  | emptyNonTerminal
  | wildcard (name : Name)
  | notFound
deriving DecidableEq

structure Located where
  kind : NameKind
  positions : List Nat
deriving DecidableEq

def ASTERISK : Octets := [42]

namespace Zone

def nodeExists (z : Zone) (key : Name) : Bool := z.index.containsKey key.wire

def firstOfType (z : Zone) (key : Name) (rtype : Rtype) : Option ZoneRecord :=
  ((z.index.positionsOf key.wire).filterMap (z.records[·]?)).find? fun r => r.rtype == rtype

def hasType (z : Zone) (key : Name) (rtype : Rtype) : Bool := (z.firstOfType key rtype).isSome

def delegationWalk (z : Zone) : List Name → Option Name
  | [] => none
  | candidate :: rest =>
    let atApex := candidate.wire == z.originKey
    if !atApex && z.hasType candidate NS then some candidate
    else if atApex || candidate.wire.length < z.originKey.length then none
    else delegationWalk z rest

def delegationForKey (z : Zone) (key : Name) : Option Name :=
  if !z.shortcuts.delegations then none else z.delegationWalk key.ancestors

/-- The delegation point at or above `name`: the deepest ancestor-or-self other than
the apex with an NS RRset. -/
def delegationFor (z : Zone) (name : Name) : Option Name :=
  if !z.shortcuts.delegations then none else z.delegationForKey name.toFolded

/-- The walk of `dname_above_key`: on to the apex without stopping, so that the last
one seen is the shallowest. -/
def dnameWalk (z : Zone) (found : Option ZoneRecord) : List Name → Option ZoneRecord
  | [] => found
  | candidate :: rest =>
    if candidate.wire.length < z.originKey.length then found
    else
      let found := (z.firstOfType candidate DNAME).or found
      if candidate.wire = z.originKey then found else dnameWalk z found rest

def dnameAboveKey (z : Zone) (key : Name) : Option ZoneRecord :=
  if !z.shortcuts.dnames then none else z.dnameWalk none (key.ancestors.drop 1)

def dnameAbove (z : Zone) (name : Name) : Option ZoneRecord :=
  if !z.shortcuts.dnames then none else z.dnameAboveKey name.toFolded

def synthesized (z : Zone) (encloser : Name) : NameKind :=
  if !z.shortcuts.wildcards then .notFound
  else if (z.delegationForKey encloser).isSome then .notFound
  else match Name.prefixed ASTERISK encloser with
    | .error _ => .notFound
    | .ok wildcard =>
      if z.index.containsKey wildcard.wire then .wildcard wildcard else .notFound

def encloserWalk (z : Zone) : List Name → NameKind
  | [] => .notFound
  | encloser :: rest =>
    if encloser.wire.length < z.originKey.length then .notFound
    else if !z.nodeExists encloser then encloserWalk z rest
    else z.synthesized encloser

def nameKindOfKey (z : Zone) (key : Name) : NameKind :=
  match z.index.get key.wire with
  | some .ent => .emptyNonTerminal
  | some _ => .exact
  | none => z.encloserWalk (key.ancestors.drop 1)

def holdsName (z : Zone) (name : Name) : Bool :=
  match z.index.get name.toFolded.wire with
  | some slot => slot != .ent
  | none => false

def locate (z : Zone) (name : Name) : Located :=
  let key := name.toFolded
  let kind := z.nameKindOfKey key
  match kind with
  | .exact => ⟨kind, z.index.positionsOf key.wire⟩
  | .wildcard wildcard => ⟨kind, z.index.positionsOf wildcard.wire⟩
  | .emptyNonTerminal | .notFound => ⟨kind, []⟩

def ofType (z : Zone) (located : Located) (qtype : Qtype) : List ZoneRecord :=
  (located.positions.filterMap (z.records[·]?)).filter fun r => qtype.matches r.rtype

def query (z : Zone) (name : Name) (qtype : Qtype) : List ZoneRecord :=
  z.ofType (z.locate name) qtype

def apexSoa (z : Zone) : Option ZoneRecord := (z.query z.origin (.of SOA)).head?

def isApexSoa (z : Zone) (record : ZoneRecord) : Bool :=
  record.rtype == SOA && record.name.same z.origin

end Zone

/-! ## The definition, read off the record list -/

def owns (records : List ZoneRecord) (name : Name) : Bool :=
  records.any fun r => r.name.same name

def ownsBelow (records : List ZoneRecord) (name : Name) : Bool :=
  records.any fun r => r.name.isAtOrUnder name && !r.name.same name

/-- A node of the tree: it owns records or has descendants (RFC 4592 §2.2.2). -/
def isNode (records : List ZoneRecord) (name : Name) : Bool :=
  owns records name || ownsBelow records name

def ownsNs (records : List ZoneRecord) (name : Name) : Bool :=
  records.any fun r => r.name.same name && r.rtype == NS

def isCut (origin : Name) (records : List ZoneRecord) (name : Name) : Bool :=
  name.isAtOrUnder origin && !name.same origin && ownsNs records name

def closestEncloser (origin : Name) (records : List ZoneRecord) (name : Name) : Option Name :=
  (name.ancestors.drop 1).find? fun a => a.isAtOrUnder origin && isNode records a

/-- The source of synthesis below a closest encloser (RFC 4592 §3.3.1): the wildcard
directly below it, down-cased, where that is a node and no cut is at or above the
encloser. -/
def sourceOfSynthesis (origin : Name) (records : List ZoneRecord) (encloser : Name) :
    Option Name :=
  if encloser.ancestors.any (isCut origin records) then none
  else match Name.prefixed ASTERISK encloser with
    | .error _ => none
    | .ok wildcard => if isNode records wildcard then some wildcard.toFolded else none

/-- **RFC 1034 §4.3.2 with RFC 4592, as a definition**: what kind of name this is in a
zone that holds these records. -/
def definedKind (origin : Name) (records : List ZoneRecord) (name : Name) : NameKind :=
  if owns records name then .exact
  else if ownsBelow records name then .emptyNonTerminal
  else match (closestEncloser origin records name).bind (sourceOfSynthesis origin records) with
    | none => .notFound
    | some wildcard => .wildcard wildcard

def NameKind.source (name : Name) : NameKind → Name
  | .wildcard star => star
  | _ => name

/-- A lookup agrees with the definition: the kind, and each record of the name that
answers exactly once. -/
structure Zone.Agrees (z : Zone) (name : Name) : Prop where
  kind : (z.locate name).kind = definedKind z.origin z.records name
  positions : ∀ i, i ∈ (z.locate name).positions ↔
    ∃ r, z.records[i]? = some r ∧
      r.name.same ((definedKind z.origin z.records name).source name) = true
  once : (z.locate name).positions.Nodup

/-! ## Keys and names -/

variable {origin name : Name}

theorem parentInZone_wire {parent : Octets} :
    parentInZone origin.wire name.wire = some parent ↔
      ∃ up : Name, parent = up.wire ∧ name.parent = some up ∧ name ≠ origin ∧
        origin.wire.length ≤ up.wire.length := by
  rw [parentInZone_eq_some, parentKey_wire, Option.map_eq_some_iff]
  constructor
  · rintro ⟨hne, ⟨up, hup, rfl⟩, hlen⟩
    exact ⟨up, rfl, hup, fun heq => hne (by rw [heq]), hlen⟩
  · rintro ⟨up, rfl, hup, hne, hlen⟩
    exact ⟨fun heq => hne (Name.wire_injective heq), ⟨up, hup, rfl⟩, hlen⟩

theorem parent_labels {up : Name} (h : name.parent = some up) :
    ∃ label, name.labels = label :: up.labels := by
  rw [Name.parent] at h
  split at h
  · cases h
  · rename_i hroot
    cases h
    cases hlabels : name.labels with
    | nil => exact absurd (Name.isRoot_iff.mpr hlabels) hroot
    | cons label rest => grind [Name.dropLabels_labels]

theorem suffix_of_atOrBelow {low : Name} {key : Octets}
    (h : Forest.AtOrBelow (parentInZone origin.wire) low.wire key) :
    ∃ high : Name, key = high.wire ∧ high.labels <:+ low.labels := by
  induction h with
  | refl => exact ⟨low, rfl, List.suffix_refl _⟩
  | tail _ hstep ih =>
    obtain ⟨mid, rfl, hmid⟩ := ih
    obtain ⟨up, rfl, hup, -, -⟩ := parentInZone_wire.mp hstep
    obtain ⟨label, hlabels⟩ := parent_labels hup
    rw [hlabels] at hmid
    exact ⟨up, rfl, (List.suffix_cons label up.labels).trans hmid⟩

theorem atOrBelow_of_suffix {high : Name} (hzone : origin.labels <:+ high.labels) :
    ∀ (front : List Octets) (low : Name), low.labels = front ++ high.labels →
      Forest.AtOrBelow (parentInZone origin.wire) low.wire high.wire := by
  intro front
  induction front with
  | nil =>
    intro low hlow
    rw [show low = high from Name.ext hlow]
    exact Relation.ReflTransGen.refl
  | cons label front ih =>
    intro low hlow
    have hdrop : (low.dropLabels 1).labels = front ++ high.labels := by
      rw [Name.dropLabels_labels, hlow]
      rfl
    refine Relation.ReflTransGen.head ?_ (ih (low.dropLabels 1) hdrop)
    have hroot : ¬ low.isRoot = true := by
      rw [Name.isRoot_iff, hlow]
      exact List.cons_ne_nil _ _
    have hup : origin.labels <:+ (low.dropLabels 1).labels := by
      rw [hdrop]
      exact hzone.trans (List.suffix_append ..)
    refine parentInZone_wire.mpr ⟨low.dropLabels 1, rfl, by rw [Name.parent, if_neg hroot], ?_, ?_⟩
    · rintro rfl
      have := hup.length_le
      rw [hdrop, hlow] at this
      simp only [List.cons_append, List.length_cons] at this
      omega
    · obtain ⟨before, hbefore⟩ := hup
      rw [Name.length_wire, Name.length_wire, ← hbefore, encodedLen_append]
      omega

/-! ## The index reads the record list -/

namespace Zone

variable {z : Zone} {q key : Name}

def apex (z : Zone) : Name := z.origin.toFolded

theorem originKey_eq (z : Zone) : z.originKey = z.apex.wire := rfl

variable {a name : Name} {records : List ZoneRecord}

theorem ownerAt_eq_some {i : Nat} :
    ownerAt records i = some name.toFolded.wire ↔
      ∃ r, records[i]? = some r ∧ r.name.same name = true := by
  rw [ownerAt, Option.map_eq_some_iff]
  refine exists_congr fun r => and_congr_right fun _ => ?_
  rw [ZoneRecord.key, Name.same_iff]
  exact ⟨Name.wire_injective, fun h => by rw [h]⟩

/-- **The positions filed under a name are those of its records.** -/
theorem ZoneOk.mem_positionsOf (h : ZoneOk z) (name : Name) (i : Nat) :
    i ∈ z.index.positionsOf name.toFolded.wire ↔
      ∃ r, z.records[i]? = some r ∧ r.name.same name = true := by
  rw [h.index.filed, ownerAt_eq_some]

theorem owns_iff :
    owns records name = true ↔
      ∃ (i : Nat) (r : ZoneRecord), records[i]? = some r ∧ r.name.same name = true := by
  rw [owns, List.any_eq_true]
  constructor
  · rintro ⟨r, hr, hsame⟩
    obtain ⟨i, hi⟩ := List.mem_iff_getElem?.mp hr
    exact ⟨i, r, hi, hsame⟩
  · rintro ⟨i, r, hi, hsame⟩
    exact ⟨r, List.mem_of_getElem? hi, hsame⟩

theorem same_isAtOrUnder {b : Name} (h : a.same b = true) : a.isAtOrUnder b = true := by
  have hfolded : b.toFolded.labels = a.toFolded.labels := congrArg Name.labels (Name.same_iff.mp h).symm
  exact Name.isAtOrUnder_toFolded.mpr ⟨[], by rw [List.nil_append, hfolded]⟩

theorem isNode_iff :
    isNode records name = true ↔ ∃ r ∈ records, r.name.isAtOrUnder name = true := by
  rw [isNode, Bool.or_eq_true, owns, ownsBelow, List.any_eq_true, List.any_eq_true]
  constructor
  · rintro (⟨r, hr, hsame⟩ | ⟨r, hr, hbelow⟩)
    · exact ⟨r, hr, same_isAtOrUnder hsame⟩
    · exact ⟨r, hr, (Bool.and_eq_true_iff.mp hbelow).1⟩
  · grind

/-- **A name in the zone is in the index exactly when it is a node of the tree.** -/
theorem ZoneOk.containsKey_iff (h : ZoneOk z) (hzone : name.isAtOrUnder z.origin = true) :
    z.index.containsKey name.toFolded.wire = true ↔ isNode z.records name = true := by
  rw [Index.containsKey, Index.find, ArenaTable.get_isSome_iff h.index.settled.valid,
    h.index.mem_keys_iff, isNode_iff]
  constructor
  · rintro ⟨i, o, howner, hbelow⟩
    obtain ⟨r, hr, rfl⟩ := Option.map_eq_some_iff.mp howner
    obtain ⟨high, hkey, hsuffix⟩ := suffix_of_atOrBelow hbelow
    refine ⟨r, List.mem_of_getElem? hr, ?_⟩
    rw [Name.isAtOrUnder_toFolded, Name.wire_injective hkey]
    exact hsuffix
  · rintro ⟨r, hr, hunder⟩
    obtain ⟨i, hi⟩ := List.mem_iff_getElem?.mp hr
    obtain ⟨front, hfront⟩ := Name.isAtOrUnder_toFolded.mp hunder
    refine ⟨i, r.key, by rw [ownerAt, hi]; rfl, ?_⟩
    exact atOrBelow_of_suffix (Name.isAtOrUnder_toFolded.mp hzone) front r.name.toFolded hfront.symm

/-- **What the index holds at a name in the zone**: nothing, an empty non-terminal or
records, as the record list says. -/
theorem ZoneOk.nameKindOfKey_eq (h : ZoneOk z) (hzone : q.isAtOrUnder z.origin = true) :
    z.nameKindOfKey q.toFolded =
      if owns z.records q then .exact
      else if ownsBelow z.records q then .emptyNonTerminal
      else z.encloserWalk (q.toFolded.ancestors.drop 1) := by
  have hcontains := h.containsKey_iff hzone
  have howns : owns z.records q = true ↔ z.index.positionsOf q.toFolded.wire ≠ [] := by
    rw [owns_iff]
    constructor
    · rintro ⟨i, r, hi, hsame⟩
      exact List.ne_nil_of_mem ((h.mem_positionsOf q i).mpr ⟨r, hi, hsame⟩)
    · intro hne
      obtain ⟨i, hi⟩ := List.exists_mem_of_ne_nil _ hne
      obtain ⟨r, hr, hsame⟩ := (h.mem_positionsOf q i).mp hi
      exact ⟨i, r, hr, hsame⟩
  by_cases hkey : z.index.containsKey q.toFolded.wire = true
  · have hmem := (ArenaTable.get_isSome_iff h.index.settled.valid).mp hkey
    have hget := Index.get_eq_slotAt h.index.settled.valid hmem
    rw [nameKindOfKey, hget]
    have hent := h.index.slots.slotAt_eq_ent_iff (k := q.toFolded.wire)
    cases hslot : Index.slotAt z.index.nodes q.toFolded.wire with
    | ent =>
      have hno : ¬ owns z.records q = true := by
        rw [howns]
        exact not_not.mpr (hent.mp hslot)
      have hbelow : ownsBelow z.records q = true := by
        rw [hcontains, isNode, Bool.or_eq_true] at hkey
        exact hkey.resolve_left hno
      rw [if_neg hno, if_pos hbelow]
    | one position =>
      rw [if_pos (howns.mpr fun hnil => by rw [hent.mpr hnil] at hslot; cases hslot)]
    | spilled list =>
      rw [if_pos (howns.mpr fun hnil => by rw [hent.mpr hnil] at hslot; cases hslot)]
  · have hnone : z.index.get q.toFolded.wire = none := by
      rw [Index.get, Option.map_eq_none_iff]
      exact Option.not_isSome_iff_eq_none.mp hkey
    rw [hcontains, isNode, Bool.or_eq_true, not_or] at hkey
    rw [nameKindOfKey, hnone, if_neg hkey.1, if_neg hkey.2]

/-- **The first record of a type is one of the name's records of that type**, and is
there when any is. -/
theorem ZoneOk.firstOfType_isSome_iff (h : ZoneOk z) (name : Name) (rtype : Rtype) :
    (z.firstOfType name.toFolded rtype).isSome = true ↔
      ∃ r ∈ z.records, r.name.same name = true ∧ r.rtype = rtype := by
  rw [firstOfType, List.find?_isSome]
  constructor
  · rintro ⟨r, hr, htype⟩
    obtain ⟨i, hi, hget⟩ := List.mem_filterMap.mp hr
    obtain ⟨r', hr', hsame⟩ := (h.mem_positionsOf name i).mp hi
    rw [hr'] at hget
    cases hget
    exact ⟨r, List.mem_of_getElem? hr', hsame, beq_iff_eq.mp htype⟩
  · rintro ⟨r, hr, hsame, htype⟩
    obtain ⟨i, hi⟩ := List.mem_iff_getElem?.mp hr
    exact ⟨r, List.mem_filterMap.mpr ⟨i, (h.mem_positionsOf name i).mpr ⟨r, hi, hsame⟩, hi⟩,
      beq_iff_eq.mpr htype⟩

theorem ZoneOk.hasType_ns (h : ZoneOk z) (name : Name) :
    z.hasType name.toFolded NS = ownsNs z.records name := by
  rw [Bool.eq_iff_iff, hasType, h.firstOfType_isSome_iff, ownsNs, List.any_eq_true]
  simp only [Bool.and_eq_true, beq_iff_eq]

/-! ## The walks up -/

theorem originKey_length (z : Zone) : z.originKey.length = z.origin.wire.length := by
  rw [originKey, Name.wire_toFolded, length_foldCase]

/-- A run of ancestors of a name in the zone, as the walks meet them: folded, ever
shorter, and in the zone for as long as they are not shorter than the apex. -/
structure Climb (z : Zone) (names : List Name) : Prop where
  folded : ∀ a ∈ names, a.toFolded = a
  zone : ∀ a ∈ names, z.originKey.length ≤ a.wire.length → a.isAtOrUnder z.origin = true
  falls : names.Pairwise fun a b => b.wire.length < a.wire.length

theorem Climb.tail {rest : List Name} (h : Climb z (a :: rest)) : Climb z rest :=
  ⟨fun b hb => h.folded b (List.mem_cons_of_mem _ hb),
    fun b hb => h.zone b (List.mem_cons_of_mem _ hb), (List.pairwise_cons.mp h.falls).2⟩

theorem climb_ancestors (hzone : q.isAtOrUnder z.origin = true) : Climb z q.toFolded.ancestors where
  folded := by
    intro a ha
    rw [Name.ancestors_toFolded] at ha
    obtain ⟨b, -, rfl⟩ := List.mem_map.mp ha
    exact Name.toFolded_toFolded b
  zone := by
    intro a ha hlen
    have hup : q.isAtOrUnder a = true := by
      rw [Name.ancestors_toFolded] at ha
      obtain ⟨b, hb, rfl⟩ := List.mem_map.mp ha
      rw [Name.isAtOrUnder_toFolded, Name.toFolded_toFolded]
      obtain ⟨front, hfront⟩ := Name.mem_ancestors.mp hb
      rw [Name.toFolded_labels, Name.toFolded_labels, ← hfront, foldLabels, foldLabels,
        List.map_append]
      exact List.suffix_append ..
    exact Name.isAtOrUnder_of_length_le hup hzone (by rw [← originKey_length]; exact hlen)
  falls := Name.pairwise_ancestors _

theorem Climb.drop_one {names : List Name} (h : Climb z names) : Climb z (names.drop 1) := by
  cases names with
  | nil => exact h
  | cons a rest => exact h.tail

theorem not_isAtOrUnder_of_length_lt (h : a.wire.length < z.originKey.length) :
    ¬ a.isAtOrUnder z.origin = true := by
  intro hunder
  have hlen := Name.isAtOrUnder_length_le hunder
  rw [originKey_length] at h
  omega

theorem wire_eq_originKey_iff (ha : a.toFolded = a) :
    a.wire = z.originKey ↔ a.same z.origin = true := by
  rw [Name.same_iff, ha]
  exact ⟨Name.wire_injective, fun h => by rw [h]; rfl⟩

theorem find?_eq_none_of_short {names : List Name} {p : Name → Bool}
    (hshort : ∀ a ∈ names, a.wire.length < z.originKey.length)
    (hp : ∀ a, p a = true → a.isAtOrUnder z.origin = true) : names.find? p = none :=
  List.find?_eq_none.mpr fun a ha hpa => not_isAtOrUnder_of_length_lt (hshort a ha) (hp a hpa)

theorem isCut_zone (h : isCut origin records a = true) : a.isAtOrUnder origin = true := by
  rw [isCut, Bool.and_eq_true, Bool.and_eq_true] at h
  exact h.1.1

theorem ZoneOk.delegationWalk_eq (h : ZoneOk z) :
    ∀ names, Climb z names → z.apex ∈ names →
      z.delegationWalk names = names.find? (isCut z.origin z.records) := by
  intro names
  induction names with
  | nil => intro _ hmem; cases hmem
  | cons a rest ih =>
    intro hclimb hmem
    have hfold := hclimb.folded a List.mem_cons_self
    have hns : z.hasType a NS = ownsNs z.records a := by
      rw [← h.hasType_ns a, hfold]
    rw [delegationWalk, List.find?_cons]
    by_cases hapex : a.wire = z.originKey
    · -- at the apex: not a cut itself, and everything above is out of the zone
      have hsame := (wire_eq_originKey_iff hfold).mp hapex
      have hcut : isCut z.origin z.records a = false := by
        rw [isCut, hsame]
        simp only [Bool.not_true, Bool.and_false, Bool.false_and]
      rw [hcut, find?_eq_none_of_short (z := z) ?_ fun b => isCut_zone]
      · rw [beq_iff_eq.mpr hapex]
        rfl
      · intro b hb
        rw [← hapex]
        exact (List.pairwise_cons.mp hclimb.falls).1 b hb
    · have hsame : a.same z.origin = false := by
        rw [← Bool.not_eq_true, ← wire_eq_originKey_iff hfold]
        exact hapex
      have hrest : z.apex ∈ rest := by
        rcases List.mem_cons.mp hmem with heq | hin
        · exact absurd (by rw [← heq]; rfl) hapex
        · exact hin
      have hlonger : z.originKey.length < a.wire.length :=
        (List.pairwise_cons.mp hclimb.falls).1 z.apex hrest
      have hzone := hclimb.zone a List.mem_cons_self (by omega)
      have hcut : isCut z.origin z.records a = ownsNs z.records a := by
        rw [isCut, hzone, hsame]
        rfl
      have hbeq : (a.wire == z.originKey) = false := beq_eq_false_iff_ne.mpr hapex
      rw [hcut, hbeq, hns]
      cases ownsNs z.records a with
      | true => rfl
      | false =>
        show (if (false || decide (a.wire.length < z.originKey.length)) = true then none
          else z.delegationWalk rest) = rest.find? (isCut z.origin z.records)
        rw [if_neg (by rw [Bool.false_or, decide_eq_true_eq]; omega)]
        exact ih hclimb.tail hrest

/-- **A delegation lookup finds the deepest cut at or above the name**, whether or not
the shortcut lets it walk. -/
theorem ZoneOk.delegationForKey_eq (h : ZoneOk z) (hzone : q.isAtOrUnder z.origin = true) :
    z.delegationForKey q.toFolded
      = q.toFolded.ancestors.find? (isCut z.origin z.records) := by
  rw [delegationForKey]
  cases hflag : z.shortcuts.delegations with
  | true =>
    refine h.delegationWalk_eq _ (climb_ancestors hzone) ?_
    exact Name.mem_ancestors.mpr (Name.isAtOrUnder_toFolded.mp hzone)
  | false =>
    -- a cut would have turned the shortcut on
    refine (List.find?_eq_none.mpr fun a _ hcut => ?_).symm
    rw [isCut, Bool.and_eq_true, Bool.and_eq_true, ownsNs, List.any_eq_true] at hcut
    obtain ⟨⟨-, hapex⟩, r, hr, hns⟩ := hcut
    rw [Bool.and_eq_true, beq_iff_eq] at hns
    have hbelow : r.key ≠ z.originKey := by
      intro heq
      have hsame : a.same z.origin = true :=
        Name.same_iff.mpr ((Name.same_iff.mp hns.1).symm.trans (Name.wire_injective heq))
      rw [hsame] at hapex
      cases hapex
    have hon := h.shortcuts.delegations r hr hns.2 hbelow
    rw [hflag] at hon
    cases hon

theorem ZoneOk.encloserWalk_eq (h : ZoneOk z) :
    ∀ names, Climb z names →
      z.encloserWalk names =
        match names.find? fun a => a.isAtOrUnder z.origin && isNode z.records a with
        | none => .notFound
        | some encloser => z.synthesized encloser := by
  intro names
  induction names with
  | nil => intro _; rfl
  | cons a rest ih =>
    intro hclimb
    have hfold := hclimb.folded a List.mem_cons_self
    rw [encloserWalk, List.find?_cons]
    by_cases hshort : a.wire.length < z.originKey.length
    · have hout := Bool.not_eq_true _ |>.mp (not_isAtOrUnder_of_length_lt hshort)
      rw [if_pos hshort, hout, find?_eq_none_of_short (z := z) ?_ ?_]
      · rfl
      · intro b hb
        have := (List.pairwise_cons.mp hclimb.falls).1 b hb
        omega
      · intro b hb
        exact (Bool.and_eq_true_iff.mp hb).1
    · have hzone := hclimb.zone a List.mem_cons_self (Nat.not_lt.mp hshort)
      have hnode : z.nodeExists a = isNode z.records a := by
        rw [Bool.eq_iff_iff, nodeExists, ← h.containsKey_iff hzone, hfold]
      rw [if_neg hshort, hnode, hzone, Bool.true_and]
      cases isNode z.records a with
      | true => rfl
      | false => exact ih hclimb.tail

end Zone

/-! ## The definition is about folded names -/

@[simp]
theorem same_toFolded_right (a b : Name) : a.same b.toFolded = a.same b := by
  rw [Bool.eq_iff_iff, Name.same_iff, Name.same_iff, Name.toFolded_toFolded]

@[simp]
theorem same_toFolded_left (a b : Name) : a.toFolded.same b = a.same b := by
  rw [Bool.eq_iff_iff, Name.same_iff, Name.same_iff, Name.toFolded_toFolded]

@[simp]
theorem isAtOrUnder_toFolded_left (a b : Name) : a.toFolded.isAtOrUnder b = a.isAtOrUnder b := by
  rw [Bool.eq_iff_iff, Name.isAtOrUnder_toFolded, Name.isAtOrUnder_toFolded, Name.toFolded_toFolded]

@[simp]
theorem isAtOrUnder_toFolded_right (a b : Name) : a.isAtOrUnder b.toFolded = a.isAtOrUnder b := by
  rw [Bool.eq_iff_iff, Name.isAtOrUnder_toFolded, Name.isAtOrUnder_toFolded, Name.toFolded_toFolded]

@[simp]
theorem isNode_toFolded (records : List ZoneRecord) (name : Name) :
    isNode records name.toFolded = isNode records name := by
  simp only [isNode, owns, ownsBelow, same_toFolded_right, isAtOrUnder_toFolded_right]

@[simp]
theorem isCut_toFolded (origin : Name) (records : List ZoneRecord) (name : Name) :
    isCut origin records name.toFolded = isCut origin records name := by
  simp only [isCut, ownsNs, same_toFolded_right, same_toFolded_left, isAtOrUnder_toFolded_left]

theorem prefixed_toFolded (name : Name) :
    Name.prefixed ASTERISK name.toFolded = (Name.prefixed ASTERISK name).map Name.toFolded := by
  have hguard : ¬ (ASTERISK.isEmpty || decide (ASTERISK.length > MAX_LABEL_LEN)) = true := by decide
  rw [Name.prefixed, Name.prefixed, if_neg hguard, if_neg hguard]
  have hstar : foldCase ASTERISK = ASTERISK := by decide
  have hlen : encodedLen (ASTERISK :: name.toFolded.labels) = encodedLen (ASTERISK :: name.labels) := by
    rw [encodedLen_cons, encodedLen_cons, Name.toFolded_labels, encodedLen_foldLabels]
  have hvalid : ValidLabel ASTERISK := by decide
  have hlabels : ∀ n : Name, ∀ l ∈ ASTERISK :: n.labels, ValidLabel l := by
    intro n l hl
    rcases List.mem_cons.mp hl with rfl | hl
    · exact hvalid
    · exact n.labels_ok l hl
  rw [Name.ofLabels, Name.ofLabels, dif_pos (hlabels name.toFolded), dif_pos (hlabels name)]
  by_cases hfits : encodedLen (ASTERISK :: name.labels) ≤ MAX_NAME_LEN
  · rw [dif_pos hfits, dif_pos (hlen ▸ hfits)]
    refine congrArg Except.ok (Name.ext ?_)
    show ASTERISK :: foldLabels name.labels = foldLabels (ASTERISK :: name.labels)
    rw [foldLabels, foldLabels, List.map_cons, hstar]
  · rw [dif_neg hfits, dif_neg (hlen ▸ hfits), hlen]
    rfl

theorem prefixed_isAtOrUnder {wildcard : Name} (h : Name.prefixed ASTERISK name = .ok wildcard) :
    wildcard.isAtOrUnder name = true := by
  have hguard : ¬ (ASTERISK.isEmpty || decide (ASTERISK.length > MAX_LABEL_LEN)) = true := by decide
  rw [Name.prefixed, if_neg hguard] at h
  rw [Name.isAtOrUnder_iff, Name.ofLabels_ok_iff.mp h, foldLabels, foldLabels, List.map_cons]
  exact List.suffix_cons ..

namespace Zone

variable {z : Zone} {q : Name}

theorem ZoneOk.synthesized_eq (h : ZoneOk z) {encloser : Name}
    (hzone : encloser.isAtOrUnder z.origin = true) :
    z.synthesized encloser.toFolded =
      match sourceOfSynthesis z.origin z.records encloser with
      | none => .notFound
      | some wildcard => if z.shortcuts.wildcards then .wildcard wildcard else .notFound := by
  have hcut : (z.delegationForKey encloser.toFolded).isSome
      = encloser.ancestors.any (isCut z.origin z.records) := by
    rw [h.delegationForKey_eq hzone, Name.ancestors_toFolded, List.find?_map, Option.isSome_map,
      Bool.eq_iff_iff, List.find?_isSome, List.any_eq_true]
    simp only [Function.comp_apply, isCut_toFolded]
  rw [synthesized, hcut, prefixed_toFolded, sourceOfSynthesis]
  cases hflag : z.shortcuts.wildcards with
  | false =>
    show NameKind.notFound = _
    split <;> rfl
  | true =>
    show (if encloser.ancestors.any (isCut z.origin z.records) = true then NameKind.notFound
      else _) = _
    split
    · rfl
    · cases hw : Name.prefixed ASTERISK encloser with
      | error e => rfl
      | ok wildcard =>
        have hunder := Name.isAtOrUnder_trans (prefixed_isAtOrUnder hw) hzone
        have hcontains : z.index.containsKey wildcard.toFolded.wire = isNode z.records wildcard :=
          Bool.eq_iff_iff.mpr (h.containsKey_iff hunder)
        show (if z.index.containsKey wildcard.toFolded.wire = true then _ else _) = _
        rw [hcontains]
        dsimp only
        cases isNode z.records wildcard <;> rfl

/-- **The kind a lookup gives is the defined one, but for a wildcard the shortcut
hides.** -/
theorem ZoneOk.nameKind_eq (h : ZoneOk z) (hzone : q.isAtOrUnder z.origin = true) :
    z.nameKindOfKey q.toFolded =
      match definedKind z.origin z.records q with
      | .wildcard wildcard => if z.shortcuts.wildcards then .wildcard wildcard else .notFound
      | kind => kind := by
  rw [h.nameKindOfKey_eq hzone, definedKind]
  by_cases hown : owns z.records q = true
  · rw [if_pos hown, if_pos hown]
  rw [if_neg hown, if_neg hown]
  by_cases hbelow : ownsBelow z.records q = true
  · rw [if_pos hbelow, if_pos hbelow]
  rw [if_neg hbelow, if_neg hbelow, h.encloserWalk_eq _ (climb_ancestors hzone).drop_one,
    Name.ancestors_toFolded, ← List.map_drop, List.find?_map, closestEncloser]
  simp only [Function.comp_def, isAtOrUnder_toFolded_left, isNode_toFolded]
  cases hfind : (q.ancestors.drop 1).find?
      (fun a => a.isAtOrUnder z.origin && isNode z.records a) with
  | none => rfl
  | some encloser =>
    have hboth := List.find?_some hfind
    simp only [Option.map_some, Option.bind_some]
    rw [h.synthesized_eq (Bool.and_eq_true_iff.mp hboth).1]
    cases sourceOfSynthesis z.origin z.records encloser <;> rfl

theorem ZoneOk.locate_positions (h : ZoneOk z)
    (hkind : (z.locate q).kind = definedKind z.origin z.records q) : z.Agrees q := by
  have hdefined : ∀ kind, definedKind z.origin z.records q = kind → kind ≠ .exact →
      ¬ owns z.records q = true := by
    rintro kind rfl hne hown
    rw [definedKind, if_pos hown] at hne
    exact hne rfl
  have hstar : ∀ w, definedKind z.origin z.records q = .wildcard w → w.toFolded = w := by
    intro w hw
    rw [definedKind] at hw
    split at hw
    · cases hw
    · split at hw
      · cases hw
      · split at hw
        · cases hw
        · rename_i hsource
          cases hw
          obtain ⟨encloser, -, hsome⟩ := Option.bind_eq_some_iff.mp hsource
          rw [sourceOfSynthesis] at hsome
          split at hsome
          · cases hsome
          · grind [Name.toFolded_toFolded]
  have hkind' : z.nameKindOfKey q.toFolded = definedKind z.origin z.records q := by
    rw [← hkind, locate]
    split <;> rfl
  refine ⟨hkind, ?_, ?_⟩
  · intro i
    rw [locate, hkind']
    cases hk : definedKind z.origin z.records q with
    | exact => exact h.mem_positionsOf q i
    | wildcard w =>
      have hmem := h.mem_positionsOf w i
      rw [hstar w hk] at hmem
      exact hmem
    | emptyNonTerminal =>
      have hno := hdefined _ hk (by decide)
      exact ⟨fun hmem => (by cases hmem), fun ⟨r, hr, hsame⟩ => absurd (owns_iff.mpr ⟨i, r, hr, hsame⟩) hno⟩
    | notFound =>
      have hno := hdefined _ hk (by decide)
      exact ⟨fun hmem => (by cases hmem), fun ⟨r, hr, hsame⟩ => absurd (owns_iff.mpr ⟨i, r, hr, hsame⟩) hno⟩
  · rw [locate]
    split
    · exact h.index.nodup _
    · exact h.index.nodup _
    · exact List.nodup_nil
    · exact List.nodup_nil

end Zone

/-- **Lookups against the definition, over every run.** After any calls that change a
zone, and for every name at or under its apex, `locate` agrees with RFC 1034 and
RFC 4592 read off the record list exactly when the `wildcards` shortcut is set or the
definition names no wildcard. -/
theorem locate_agrees_iff {origin : Name} {ops : List ZoneOp} {z : Zone}
    (hrun : (Zone.new origin).run ops = some z) {q : Name}
    (hzone : q.isAtOrUnder z.origin = true) :
    z.Agrees q ↔ (z.shortcuts.wildcards = true ∨
      ∀ w, definedKind z.origin z.records q ≠ .wildcard w) := by
  have h : z.ZoneOk := (Zone.zoneOk_new origin).run hrun
  have hlocated : (z.locate q).kind = z.nameKindOfKey q.toFolded := by
    rw [Zone.locate]
    split <;> rfl
  have hkind := h.nameKind_eq hzone
  constructor
  · intro hagrees
    by_cases hflag : z.shortcuts.wildcards = true
    · exact .inl hflag
    · refine .inr fun w hw => ?_
      have heq := hagrees.kind
      rw [hlocated, hkind, hw] at heq
      simp only [if_neg hflag] at heq
      cases heq
  · intro hcond
    refine h.locate_positions ?_
    rw [hlocated, hkind]
    cases hk : definedKind z.origin z.records q with
    | wildcard w => grind
    | exact => rfl
    | emptyNonTerminal => rfl
    | notFound => rfl

theorem ex_labels : ∀ l ∈ ([[101, 120]] : List Octets), ValidLabel l := by decide

theorem ex_short : encodedLen [[101, 120]] ≤ MAX_NAME_LEN := by decide

def ex : Name := ⟨[[101, 120]], ex_labels, ex_short⟩
def wwwEx : Name := ⟨[[119, 119, 119], [101, 120]], by decide, by decide⟩
def starEx : Name := ⟨[[42], [101, 120]], by decide, by decide⟩
def aStarEx : Name := ⟨[[97], [42], [101, 120]], by decide, by decide⟩
def bEx : Name := ⟨[[66], [69, 120]], by decide, by decide⟩

def exSoa : ZoneRecord := ⟨ex, ⟨300⟩, .IN, ⟨SOA, wireOf [] ++ wireOf [] ++ List.replicate 20 0⟩⟩

def addressAt (name : Name) : ZoneRecord := ⟨name, ⟨300⟩, .IN, ⟨A, [192, 0, 2, 1]⟩⟩

theorem locate_agrees_starEx :
    ∃ z, (Zone.new ex).run [.add (addressAt wwwEx), .add (addressAt starEx), .removeRecord 0]
        = some z ∧
      bEx.isAtOrUnder z.origin = true ∧ z.shortcuts.wildcards = true ∧
      definedKind z.origin z.records bEx = .wildcard starEx ∧ z.Agrees bEx := by
  have hrun : ((Zone.new ex).run
      [.add (addressAt wwwEx), .add (addressAt starEx), .removeRecord 0]).isSome = true := by
    decide +kernel
  obtain ⟨z, hz⟩ := Option.isSome_iff_exists.mp hrun
  have hfacts : (((Zone.new ex).run
      [.add (addressAt wwwEx), .add (addressAt starEx), .removeRecord 0]).map fun z =>
        (decide (bEx.isAtOrUnder z.origin = true ∧ z.shortcuts.wildcards = true ∧
          definedKind z.origin z.records bEx = .wildcard starEx) : Bool)) = some true := by
    decide +kernel
  rw [hz, Option.map_some, Option.some.injEq, decide_eq_true_eq] at hfacts
  obtain ⟨hzone, hflag, hkind⟩ := hfacts
  exact ⟨z, hz, hzone, hflag, hkind, (locate_agrees_iff hz hzone).mpr (.inl hflag)⟩

/-- **A wildcard with no records of its own is hidden**: `a.*.ex.` alone makes `*.ex.`
a node, no record is owned by a wildcard name, and `b.ex.` is not found. -/
theorem locate_hides_starEx :
    ¬ ∀ (origin : Name) (ops : List ZoneOp) (z : Zone) (q : Name),
      (Zone.new origin).run ops = some z → q.isAtOrUnder z.origin = true → z.Agrees q := by
  intro h
  have hagrees := h ex [.add (addressAt aStarEx)] _ bEx rfl (by decide)
  have hkind := hagrees.kind
  have hlocated : (((Zone.new ex).add (addressAt aStarEx)).locate bEx).kind = .notFound := by
    decide +kernel
  have hdefined : definedKind ((Zone.new ex).add (addressAt aStarEx)).origin
      ((Zone.new ex).add (addressAt aStarEx)).records bEx = .wildcard starEx := by
    decide +kernel
  rw [hlocated, hdefined] at hkind
  cases hkind

end Rdns.Zones
