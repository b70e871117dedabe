import Mathlib.Data.List.Find
import Rdns.Answer.Resolve
import Rdns.Dnssec.NsecProofs

/-!
# Rdns — Where authority ends

A zone's authority over a path of names ends at the first delegation or DNAME from the apex
down (RFC 1034 §4.3.2, RFC 6672 §2.2). `resolve_in_zone` finds a delegation from the name
up and a DNAME from the apex down, and compares the two.
-/

namespace Rdns.Answer

open Rdns.Lib Rdns.Core Rdns.Present Rdns.Zones Rdns.Zones.Zone Rdns.Dnssec RecordTypes

/-! ## The law -/

section Law

variable (origin : Name) (records : List ZoneRecord) (qtype : Qtype) (name : Name)

def endsAuthority (a : Name) : Bool :=
  isCut origin records a && !(qtype.is DS && a.same name)

def redirectsFrom (a : Name) : Bool :=
  a.isAtOrUnder origin && !a.same name && ownsType records a DNAME

def topmost : Option Name :=
  name.toFolded.ancestors.reverse.find? fun a => endsAuthority origin records qtype name a ||
    redirectsFrom origin records name a

end Law

/-- **What a turn owes a name**: the referral at the topmost node, or its DNAME, and the
zone's own data only where there is neither. A node that is both is taken for the DNAME. -/
def lawfulTurn (z : Zone) (qtype : Qtype) (w : Walk) : Turn :=
  match topmost z.origin z.records qtype w.name with
  | none => lookUp z qtype w
  | some a =>
    if redirectsFrom z.origin z.records w.name a then
      match z.firstOfType a DNAME with
      | some dname => redirectThrough z dname w
      | none => lookUp z qtype w
    else refer w.chain a

/-- **No delegation below another** on the path of the name; unless a DNAME is at or above
the upper one, or the chain has begun and ends at either of them alike. -/
def Settled (origin : Name) (records : List ZoneRecord) (qtype : Qtype) (w : Walk) : Prop :=
  ∀ lower upper, w.name.isAtOrUnder lower = true → isCut origin records lower = true →
    lower.isAtOrUnder upper = true → lower.same upper = false → isCut origin records upper = true →
    (∃ d, upper.isAtOrUnder d = true ∧ redirectsFrom origin records w.name d = true) ∨
    (w.chain ≠ [] ∧ (qtype.is DS = true → w.name.same lower = false) ∧
      ∀ d, lower.isAtOrUnder d = true → redirectsFrom origin records w.name d = false)

/-! ## The two walks -/

section Walks

variable {z : Zone}

theorem firstOfType_dname (h : ZoneOk z) {a : Name} (ha : a.toFolded = a) :
    (z.firstOfType a DNAME).isSome = ownsType z.records a DNAME := by
  have hsome := h.firstOfType_isSome_iff a DNAME
  rw [ha] at hsome
  rw [Bool.eq_iff_iff, hsome, ownsType, List.any_eq_true]
  refine exists_congr fun r => ?_
  rw [Bool.and_eq_true, beq_iff_eq]

theorem dnameWalk_eq (h : ZoneOk z) {names : List Name} (hclimb : Climb z names) (happly : z.apex ∈ names)
    (found : Option ZoneRecord) :
    z.dnameWalk found names =
      ((names.reverse.find? fun a => a.isAtOrUnder z.origin && ownsType z.records a DNAME).bind
        fun a => z.firstOfType a DNAME).or found := by
  induction names generalizing found with
  | nil => cases happly
  | cons a rest ih =>
    have hfold := hclimb.folded a List.mem_cons_self
    have hlen : z.originKey.length ≤ a.wire.length := by
      rcases List.mem_cons.mp happly with heq | hin
      · rw [← heq]
        exact le_refl _
      · exact le_of_lt ((List.pairwise_cons.mp hclimb.falls).1 z.apex hin)
    have hzone := hclimb.zone a List.mem_cons_self hlen
    have hfirst := firstOfType_dname h hfold
    rw [Zone.dnameWalk, if_neg (by omega), List.reverse_cons, List.find?_append]
    by_cases hapex : a.wire = z.originKey
    · -- everything above is out of the zone
      have hrest : (rest.reverse.find? fun a =>
          a.isAtOrUnder z.origin && ownsType z.records a DNAME) = none := by
        refine find?_eq_none_of_short (z := z) (fun b hb => ?_) fun b hb =>
          (Bool.and_eq_true_iff.mp hb).1
        rw [← hapex]
        exact (List.pairwise_cons.mp hclimb.falls).1 b (List.mem_reverse.mp hb)
      rw [if_pos hapex, hrest, Option.none_or, List.find?_cons, hzone, Bool.true_and]
      cases howns : ownsType z.records a DNAME with
      | true => rfl
      | false => grind [Option.isSome_eq_false_iff, Option.isNone_iff_eq_none]
    · have hin : z.apex ∈ rest := by
        rcases List.mem_cons.mp happly with heq | hin
        · exact absurd (by rw [← heq]; rfl) hapex
        · exact hin
      rw [if_neg hapex, ih hclimb.tail hin]
      cases hup : rest.reverse.find? fun a =>
          a.isAtOrUnder z.origin && ownsType z.records a DNAME with
      | some b =>
        have hb := List.find?_some hup
        rw [Bool.and_eq_true] at hb
        have hbfold := hclimb.folded b
          (List.mem_cons_of_mem _ (List.mem_reverse.mp (List.mem_of_find?_eq_some hup)))
        have hbsome := firstOfType_dname h hbfold
        rw [hb.2] at hbsome
        obtain ⟨r, hr⟩ := Option.isSome_iff_exists.mp hbsome
        rw [Option.some_or, Option.bind_some, hr, Option.some_or, Option.some_or]
      | none =>
        rw [Option.none_or, Option.bind_none, Option.none_or, List.find?_cons, hzone, Bool.true_and]
        cases howns : ownsType z.records a DNAME with
        | true => rfl
        | false => grind [Option.isSome_eq_false_iff, Option.isNone_iff_eq_none]

/-- **The DNAME that redirects a name** is a record of its shallowest strict ancestor that
owns one. -/
theorem dnameAbove_eq (h : ZoneOk z) {q : Name} (hunder : q.isAtOrUnder z.origin = true) :
    z.dnameAbove q = (q.toFolded.ancestors.reverse.find? (redirectsFrom z.origin z.records q)).bind
      fun a => z.firstOfType a DNAME := by
  have hmem : ∀ r ∈ z.records, r.rtype = DNAME → z.shortcuts.dnames = true := h.shortcuts.dnames
  rw [Zone.dnameAbove]
  cases hflag : z.shortcuts.dnames with
  | false =>
    -- a DNAME would have turned the shortcut on
    have hnone : (q.toFolded.ancestors.reverse.find? (redirectsFrom z.origin z.records q)) = none := by
      refine List.find?_eq_none.mpr fun a _ ha => ?_
      rw [redirectsFrom, Bool.and_eq_true, ownsType, List.any_eq_true] at ha
      obtain ⟨-, r, hr, hat⟩ := ha
      rw [Bool.and_eq_true, beq_iff_eq] at hat
      rw [hmem r hr hat.2] at hflag
      cases hflag
    rw [hnone]
    rfl
  | true =>
    rw [if_neg (by decide), Zone.dnameAboveKey, hflag, if_neg (by decide)]
    obtain ⟨rest, hpath⟩ : ∃ rest, q.toFolded.ancestors = q.toFolded :: rest :=
      ⟨_, Name.ancestors_eq_cons q.toFolded⟩
    have hclimb := climb_ancestors hunder
    rw [hpath] at hclimb
    have hshorter := (List.pairwise_cons.mp hclimb.falls).1
    have hfirst : redirectsFrom z.origin z.records q q.toFolded = false := by
      rw [redirectsFrom, same_toFolded_left, Name.same_self, Bool.not_true, Bool.and_false, Bool.false_and]
    have hstrict : ∀ a ∈ rest, redirectsFrom z.origin z.records q a
        = (a.isAtOrUnder z.origin && ownsType z.records a DNAME) := by
      intro a ha
      have hne : a.same q = false := by
        by_contra hsame
        rw [Bool.not_eq_false, Name.same_iff] at hsame
        have hlen := hshorter a ha
        rw [← hsame, Name.wire_toFolded, length_foldCase] at hlen
        exact absurd hlen (lt_irrefl _)
      rw [redirectsFrom, hne, Bool.not_false, Bool.and_true]
    have hfind : (q.toFolded :: rest).reverse.find? (redirectsFrom z.origin z.records q)
        = rest.reverse.find? fun a => a.isAtOrUnder z.origin && ownsType z.records a DNAME := by
      rw [List.reverse_cons, List.find?_append, List.find?_cons, hfirst, List.find?_nil, Option.or_none]
      exact List.find?_congr fun a ha => hstrict a (List.mem_reverse.mp ha)
    rw [hpath, hfind]
    show z.dnameWalk none rest = _
    by_cases happly : z.apex ∈ rest
    · rw [dnameWalk_eq h hclimb.tail happly, Option.or_none]
    · -- the name is the apex, and nothing above it is in the zone
      have hapex : z.apex = q.toFolded := by
        have hin : z.apex ∈ q.toFolded.ancestors :=
          Name.mem_ancestors.mpr (Name.isAtOrUnder_toFolded.mp hunder)
        rw [hpath] at hin
        exact (List.mem_cons.mp hin).resolve_right happly
      have hshort : ∀ a ∈ rest, a.wire.length < z.originKey.length := by grind [originKey_eq]
      rw [find?_eq_none_of_short (fun a ha => hshort a (List.mem_reverse.mp ha)) fun a ha =>
        (Bool.and_eq_true_iff.mp ha).1]
      cases rest with
      | nil => rfl
      | cons a rest => grind [Zone.dnameWalk]

/-- **The delegation above a name** is its deepest cut. -/
theorem delegationFor_eq (h : ZoneOk z) {q : Name} (hunder : q.isAtOrUnder z.origin = true) :
    z.delegationFor q = q.toFolded.ancestors.find? (isCut z.origin z.records) := by
  rw [← h.delegationForKey_eq hunder, Zone.delegationFor, Zone.delegationForKey]
  split <;> rfl

theorem firstOfType_spec (h : ZoneOk z) {a : Name} (ha : a.toFolded = a) {rtype : Rtype} {r : ZoneRecord}
    (hr : z.firstOfType a rtype = some r) : r ∈ z.records ∧ r.name.same a = true ∧ r.rtype = rtype := by
  rw [firstOfType] at hr
  have htype := List.find?_some hr
  obtain ⟨i, hi, hget⟩ := List.mem_filterMap.mp (List.mem_of_find?_eq_some hr)
  rw [← ha] at hi
  obtain ⟨r', hr', hsame⟩ := (h.mem_positionsOf a i).mp hi
  rw [hr'] at hget
  cases hget
  exact ⟨List.mem_of_getElem? hr', hsame, beq_iff_eq.mp htype⟩

end Walks

/-! ## The lowest and the highest of the names above one -/

section Ends

variable {p : Name → Bool} {q a : Name}

theorem mem_path : a ∈ q.toFolded.ancestors ↔ a.toFolded = a ∧ q.isAtOrUnder a = true := by
  constructor
  · intro hmem
    have hfold : a.toFolded = a := by
      rw [Name.ancestors_toFolded] at hmem
      obtain ⟨b, -, rfl⟩ := List.mem_map.mp hmem
      exact Name.toFolded_toFolded b
    refine ⟨hfold, Name.isAtOrUnder_toFolded.mpr ?_⟩
    rw [hfold]
    exact Name.mem_ancestors.mp hmem
  · rintro ⟨hfold, hunder⟩
    have hsuffix := Name.isAtOrUnder_toFolded.mp hunder
    rw [hfold] at hsuffix
    exact Name.mem_ancestors.mpr hsuffix

/-- `a` is a name at or above `q` where `p` holds, and no other such name is lower. -/
structure Lowest (p : Name → Bool) (q a : Name) : Prop where
  holds : p a = true
  above : q.isAtOrUnder a = true
  folded : a.toFolded = a
  lowest : ∀ b, q.isAtOrUnder b = true → p b = true → a.isAtOrUnder b = true

structure Highest (p : Name → Bool) (q a : Name) : Prop where
  holds : p a = true
  above : q.isAtOrUnder a = true
  folded : a.toFolded = a
  highest : ∀ b, q.isAtOrUnder b = true → p b = true → b.isAtOrUnder a = true

variable (hp : ∀ a, p a.toFolded = p a)

include hp

theorem mem_path_toFolded (hunder : q.isAtOrUnder a = true) (hpa : p a = true) :
    a.toFolded ∈ q.toFolded.ancestors ∧ p a.toFolded = true := by
  rw [mem_path, isAtOrUnder_toFolded_right, hp]
  exact ⟨⟨Name.toFolded_toFolded a, hunder⟩, hpa⟩

theorem none_above {names : List Name} (hnames : ∀ a, a ∈ names ↔ a ∈ q.toFolded.ancestors)
    (h : names.find? p = none) (hunder : q.isAtOrUnder a = true) : p a = false := by
  by_contra hpa
  rw [Bool.not_eq_false] at hpa
  obtain ⟨hmem, hfold⟩ := mem_path_toFolded hp hunder hpa
  exact List.find?_eq_none.mp h _ ((hnames _).mpr hmem) hfold

theorem lowest_of_find? (h : q.toFolded.ancestors.find? p = some a) : Lowest p q a where
  holds := List.find?_some h
  above := (mem_path.mp (List.mem_of_find?_eq_some h)).2
  folded := (mem_path.mp (List.mem_of_find?_eq_some h)).1
  lowest := by
    intro b hb hpb
    obtain ⟨hmem, hpb⟩ := mem_path_toFolded hp hb hpb
    obtain ⟨-, front, back, hsplit, hfront⟩ := List.find?_eq_some_iff_append.mp h
    have hfalls := Name.pairwise_ancestors q.toFolded
    rw [hsplit] at hmem hfalls
    -- what is before `a` on the way up does not satisfy `p`, what is after it is higher
    rcases List.mem_append.mp hmem with hin | hin
    · have hno := hfront _ hin
      rw [hpb] at hno
      cases hno
    · rw [← isAtOrUnder_toFolded_right]
      rcases List.mem_cons.mp hin with rfl | hin
      · exact Name.isAtOrUnder_refl _
      · grind [Name.isAtOrUnder_of_length_le, mem_path, List.pairwise_cons]

theorem highest_of_find? (h : q.toFolded.ancestors.reverse.find? p = some a) : Highest p q a where
  holds := List.find?_some h
  above := (mem_path.mp (List.mem_reverse.mp (List.mem_of_find?_eq_some h))).2
  folded := (mem_path.mp (List.mem_reverse.mp (List.mem_of_find?_eq_some h))).1
  highest := by
    intro b hb hpb
    obtain ⟨hmem, hpb⟩ := mem_path_toFolded hp hb hpb
    obtain ⟨-, front, back, hsplit, hfront⟩ := List.find?_eq_some_iff_append.mp h
    have hrises := List.pairwise_reverse.mpr (Name.pairwise_ancestors q.toFolded)
    rw [← List.mem_reverse, hsplit] at hmem
    rw [hsplit] at hrises
    rcases List.mem_append.mp hmem with hin | hin
    · have hno := hfront _ hin
      rw [hpb] at hno
      cases hno
    · rw [← isAtOrUnder_toFolded_left]
      rcases List.mem_cons.mp hin with rfl | hin
      · exact Name.isAtOrUnder_refl _
      · grind [Name.isAtOrUnder_of_length_le, mem_path, List.pairwise_cons]

end Ends

/-! ## One turn -/

section Turn

variable {origin : Name} {records : List ZoneRecord} {qtype : Qtype} {q a b : Name}

theorem endsAuthority_toFolded (a : Name) : endsAuthority origin records qtype q a.toFolded =
    endsAuthority origin records qtype q a := by
  rw [endsAuthority, endsAuthority, isCut_toFolded, same_toFolded_left]

theorem redirectsFrom_congr (h : a.same b = true) :
    redirectsFrom origin records q a = redirectsFrom origin records q b := by
  rw [redirectsFrom, redirectsFrom, isAtOrUnder_congr_left h, ownsType_congr h, Name.same_comm a, Name.same_comm b,
    same_congr h]

theorem redirectsFrom_toFolded (a : Name) : redirectsFrom origin records q a.toFolded =
    redirectsFrom origin records q a :=
  redirectsFrom_congr (by rw [same_toFolded_left, Name.same_self])

theorem endsAuthority_of_upper (hq : q.isAtOrUnder a = true) (hab : a.isAtOrUnder b = true)
    (hne : a.same b = false) (hcut : isCut origin records b = true) :
    endsAuthority origin records qtype q b = true := by
  rw [endsAuthority, hcut, Name.same_comm, not_same_of_under hq hab hne, Bool.and_false]
  rfl

theorem refer_inj {chain : List Hop} : refer chain a = refer chain b ↔ chain ≠ [] ∨ a = b := by
  cases chain with
  | nil =>
    show Turn.exit (.referral a) = .exit (.referral b) ↔ _
    rw [Turn.exit.injEq, Outcome.referral.injEq, ne_eq, eq_self, not_true_eq_false, false_or]
  | cons hop chain => exact iff_of_true rfl (Or.inl (List.cons_ne_nil hop chain))

def Advances (chain : List Hop) : Turn → Prop
  | .follow _ => True
  | .exit (.referral _) => False
  | .exit (.chainLeftZone longer) => longer ≠ chain
  | .exit _ => True

theorem ne_refer {chain : List Hop} {t : Turn} (h : Advances chain t) (cut : Name) : t ≠ refer chain cut := by
  rintro rfl
  rw [refer] at h
  split at h
  · exact h
  · exact h rfl

theorem advances_goOn (z : Zone) (chain : List Hop) (hop : Hop) (visited : List Name) (next : Name) :
    Advances chain (goOn z (chain ++ [hop]) visited next) := by
  rw [goOn]
  split
  · intro heq
    have hlen := congrArg List.length heq
    rw [List.length_append, List.length_singleton] at hlen
    omega
  · trivial

theorem advances_redirectThrough (z : Zone) (dname : ZoneRecord) (w : Walk) :
    Advances w.chain (redirectThrough z dname w) := by
  rw [redirectThrough]
  split
  · split
    · exact advances_goOn ..
    · trivial
    · trivial
  · trivial

theorem advances_lookUp (z : Zone) (qtype : Qtype) (w : Walk) : Advances w.chain (lookUp z qtype w) := by
  rw [lookUp]
  split
  · trivial
  · split
    · trivial
    · split
      · trivial
      · exact advances_goOn ..

variable {z : Zone} {w : Walk}

theorem dnameAbove_some (h : ZoneOk z) (hunder : q.isAtOrUnder z.origin = true) {dname : ZoneRecord}
    (hd : z.dnameAbove q = some dname) :
    ∃ d, Highest (redirectsFrom z.origin z.records q) q d ∧
      z.firstOfType d DNAME = some dname ∧ dname.name.same d = true := by
  rw [dnameAbove_eq h hunder] at hd
  obtain ⟨d, hfind, hfirst⟩ := Option.bind_eq_some_iff.mp hd
  have hhigh := highest_of_find? redirectsFrom_toFolded hfind
  exact ⟨d, hhigh, hfirst, (firstOfType_spec h hhigh.folded hfirst).2.1⟩

theorem dnameAbove_none (h : ZoneOk z) (hunder : q.isAtOrUnder z.origin = true)
    (hd : z.dnameAbove q = none) (ha : q.isAtOrUnder a = true) :
    redirectsFrom z.origin z.records q a = false := by
  rw [dnameAbove_eq h hunder] at hd
  cases hfind : q.toFolded.ancestors.reverse.find? (redirectsFrom z.origin z.records q) with
  | none => exact none_above redirectsFrom_toFolded (fun _ => List.mem_reverse) hfind ha
  | some d =>
    have hhigh := highest_of_find? redirectsFrom_toFolded hfind
    have howns := hhigh.holds
    rw [redirectsFrom, Bool.and_eq_true] at howns
    have hsome := firstOfType_dname h hhigh.folded
    rw [hfind, Option.bind_some] at hd
    rw [hd, howns.2] at hsome
    cases hsome

variable {t : Name}

theorem topmost_some (h : topmost origin records qtype q = some t) :
    Highest (fun a => endsAuthority origin records qtype q a || redirectsFrom origin records q a) q t :=
  highest_of_find? (fun a => by
    rw [endsAuthority_toFolded, redirectsFrom_toFolded]) h

theorem topmost_none (h : topmost origin records qtype q = none) (ha : q.isAtOrUnder a = true) :
    endsAuthority origin records qtype q a = false ∧ redirectsFrom origin records q a = false := by
  rw [← Bool.or_eq_false_iff]
  exact none_above (p := fun a => endsAuthority origin records qtype q a || redirectsFrom origin records q a)
    (fun a => by rw [endsAuthority_toFolded, redirectsFrom_toFolded]) (fun _ => List.mem_reverse) h ha

theorem isCut_of_topmost (h : topmost origin records qtype q = some t)
    (hr : redirectsFrom origin records q t = false) :
    endsAuthority origin records qtype q t = true := by
  have hholds := (topmost_some h).holds
  rw [hr, Bool.or_false] at hholds
  exact hholds

/-- **Past the cuts is right** exactly when what ends the zone's own data, if anything
does, is a DNAME. -/
theorem pastCuts_lawful_iff (h : ZoneOk z) (hunder : w.name.isAtOrUnder z.origin = true) :
    pastCuts z qtype w = lawfulTurn z qtype w ↔
      ∀ t, topmost z.origin z.records qtype w.name = some t →
        redirectsFrom z.origin z.records w.name t = true := by
  rw [pastCuts, lawfulTurn]
  cases htop : topmost z.origin z.records qtype w.name with
  | none =>
    refine iff_of_true ?_ fun t ht => by cases ht
    cases hd : z.dnameAbove w.name with
    | none => rfl
    | some dname =>
      obtain ⟨d, hhigh, -⟩ := dnameAbove_some h hunder hd
      have hno := (topmost_none htop hhigh.above).2
      rw [hhigh.holds] at hno
      cases hno
  | some t =>
    have ht := topmost_some htop
    cases hr : redirectsFrom z.origin z.records w.name t with
    | true =>
      refine iff_of_true ?_ fun t' ht' => Option.some.inj ht' ▸ hr
      dsimp only
      rw [if_pos hr]
      cases hd : z.dnameAbove w.name with
      | none =>
        rw [dnameAbove_none h hunder hd ht.above] at hr
        cases hr
      | some dname =>
        obtain ⟨d, hhigh, hfirst, -⟩ := dnameAbove_some h hunder hd
        -- the shallowest DNAME and the topmost node are each at or under the other
        have hdt : d.isAtOrUnder t = true :=
          ht.highest d hhigh.above (by rw [hhigh.holds, Bool.or_true])
        have hsame := Name.same_iff.mp (same_of_under hdt (hhigh.highest t ht.above hr))
        rw [hhigh.folded, ht.folded] at hsame
        rw [← hsame, hfirst]
    | false =>
      refine iff_of_false ?_ fun hall => ?_
      · grind [ne_refer, advances_redirectThrough, advances_lookUp]
      · rw [hall t rfl] at hr
        cases hr

theorem settled_of_redirects (hred : ∀ t, topmost origin records qtype w.name = some t →
    redirectsFrom origin records w.name t = true) : Settled origin records qtype w := by
  intro lower upper hlower hcut hunder hne hupper
  have hends : endsAuthority origin records qtype w.name upper = true := endsAuthority_of_upper hlower hunder hne hupper
  have habove := Name.isAtOrUnder_trans hlower hunder
  left
  cases htop : topmost origin records qtype w.name with
  | none =>
    rw [(topmost_none htop habove).1] at hends
    cases hends
  | some t => exact ⟨t, (topmost_some htop).highest upper habove (by rw [hends, Bool.true_or]), hred t htop⟩

theorem not_redirects_of_topmost {d : Name} (htop : topmost origin records qtype w.name = some t)
    (hr : redirectsFrom origin records w.name t = false) (htd : t.isAtOrUnder d = true) :
    redirectsFrom origin records w.name d = false := by
  by_contra hd
  rw [Bool.not_eq_false] at hd
  have ht := topmost_some htop
  have hdt := ht.highest d (Name.isAtOrUnder_trans ht.above htd) (by rw [hd, Bool.or_true])
  rw [redirectsFrom_congr (same_of_under htd hdt), hd] at hr
  cases hr

theorem any_dnameAbove_iff (h : ZoneOk z) (hunder : q.isAtOrUnder z.origin = true) {c : Name}
    (hc : q.isAtOrUnder c = true) :
    ((z.dnameAbove q).any fun dname => c.isAtOrUnder dname.name) = true ↔
      ∃ d, c.isAtOrUnder d = true ∧ redirectsFrom z.origin z.records q d = true := by
  cases hd : z.dnameAbove q with
  | none =>
    refine iff_of_false Bool.false_ne_true fun ⟨d, hcd, hred⟩ => ?_
    rw [dnameAbove_none h hunder hd (Name.isAtOrUnder_trans hc hcd)] at hred
    cases hred
  | some dname =>
    obtain ⟨d, hhigh, -, hsame⟩ := dnameAbove_some h hunder hd
    show c.isAtOrUnder dname.name = true ↔ _
    rw [isAtOrUnder_congr hsame]
    exact ⟨fun hcd => ⟨d, hcd, hhigh.holds⟩, fun ⟨d', hcd, hred⟩ =>
      Name.isAtOrUnder_trans hcd (hhigh.highest d' (Name.isAtOrUnder_trans hc hcd) hred)⟩

/-- **One turn is lawful exactly when its cuts are settled.** -/
theorem turn_lawful_iff (h : ZoneOk z) (hunder : w.name.isAtOrUnder z.origin = true) :
    turn z qtype w = lawfulTurn z qtype w ↔ Settled z.origin z.records qtype w := by
  rw [turn, delegationFor_eq h hunder]
  cases hcut : w.name.toFolded.ancestors.find? (isCut z.origin z.records) with
  | none =>
    -- no cut at all: what ends the zone's own data is a DNAME
    have hno : ∀ a, w.name.isAtOrUnder a = true → isCut z.origin z.records a = false :=
      fun a ha => none_above (isCut_toFolded _ _) (fun _ => Iff.rfl) hcut ha
    rw [pastCuts_lawful_iff h hunder]
    refine iff_of_true (fun t ht => ?_) fun lower upper hlower hc => ?_
    · by_contra hr
      rw [Bool.not_eq_true] at hr
      have hends := isCut_of_topmost ht hr
      rw [endsAuthority, hno t (topmost_some ht).above] at hends
      cases hends
    · rw [hno lower hlower] at hc
      cases hc
  | some c =>
    have hc := lowest_of_find? (isCut_toFolded _ _) hcut
    dsimp only
    cases hocc : (z.dnameAbove w.name).any fun dname => c.isAtOrUnder dname.name with
    | true =>
      -- the deepest cut is below a DNAME
      obtain ⟨d, hcd, hd⟩ := (any_dnameAbove_iff h hunder hc.above).mp hocc
      rw [Bool.true_or, if_neg (by decide), pastCuts_lawful_iff h hunder]
      refine ⟨settled_of_redirects, fun hset t ht => by_contra fun hr => ?_⟩
      rw [Bool.not_eq_true] at hr
      have hends := isCut_of_topmost ht hr
      rw [endsAuthority, Bool.and_eq_true] at hends
      have hct := hc.lowest t (topmost_some ht).above hends.1
      have hne : c.same t = false := by
        by_contra hsame
        rw [Bool.not_eq_false] at hsame
        rw [isAtOrUnder_congr_left hsame] at hcd
        rw [not_redirects_of_topmost ht hr hcd] at hd
        cases hd
      rcases hset c t hc.above hc.holds hct hne hends.1 with ⟨d', htd, hd'⟩ | ⟨-, -, hno⟩
      · rw [not_redirects_of_topmost ht hr htd] at hd'
        cases hd'
      · rw [hno d hcd] at hd
        cases hd
    | false =>
      have hno : ∀ d, c.isAtOrUnder d = true → redirectsFrom z.origin z.records w.name d = false := by
        intro d hcd
        by_contra hd
        rw [Bool.not_eq_false] at hd
        rw [(any_dnameAbove_iff h hunder hc.above).mpr ⟨d, hcd, hd⟩] at hocc
        cases hocc
      rw [Bool.false_or]
      cases hds : qtype.is DS && c.same w.name with
      | true =>
        -- the DS at the deepest cut
        rw [if_neg (by decide), pastCuts_lawful_iff h hunder]
        rw [Bool.and_eq_true] at hds
        refine ⟨settled_of_redirects, fun hset t ht => by_contra fun hr => ?_⟩
        rw [Bool.not_eq_true] at hr
        have hends := isCut_of_topmost ht hr
        rw [endsAuthority, hds.1, Bool.true_and, Bool.and_eq_true, Bool.not_eq_true'] at hends
        have hct := hc.lowest t (topmost_some ht).above hends.1
        have hne : c.same t = false := by
          rw [Name.same_comm, same_congr hds.2]
          exact hends.2
        rcases hset c t hc.above hc.holds hct hne hends.1 with ⟨d', htd, hd'⟩ | ⟨-, hnot, -⟩
        · rw [not_redirects_of_topmost ht hr htd] at hd'
          cases hd'
        · have hq := hnot hds.1
          rw [Name.same_comm, hds.2] at hq
          cases hq
      | false =>
        -- the code ends at the deepest cut, the law at the topmost
        rw [Bool.not_false, if_pos rfl]
        have hends : endsAuthority z.origin z.records qtype w.name c = true := by
          rw [endsAuthority, hc.holds, hds]
          rfl
        cases htop : topmost z.origin z.records qtype w.name with
        | none =>
          rw [(topmost_none htop hc.above).1] at hends
          cases hends
        | some t =>
          have ht := topmost_some htop
          have hct := ht.highest c hc.above (by rw [hends, Bool.true_or])
          have hlaw : lawfulTurn z qtype w = refer w.chain t := by grind [lawfulTurn]
          rw [hlaw, refer_inj]
          constructor
          · intro heq lower upper hlower hcut hlu hne hupper
            have hcl := hc.lowest lower hlower hcut
            have hcu := Name.isAtOrUnder_trans hcl hlu
            rcases heq with hchain | heq
            · refine Or.inr ⟨hchain, fun hisDs => ?_, fun d hld => hno d (Name.isAtOrUnder_trans hcl hld)⟩
              rw [hisDs, Bool.true_and] at hds
              by_contra hsame
              rw [Bool.not_eq_false] at hsame
              have hqc : c.isAtOrUnder w.name = true := by grind [isAtOrUnder_congr]
              rw [same_of_under hqc hc.above] at hds
              cases hds
            · -- the lowest cut is the topmost: there is no other
              have hut := ht.highest upper (Name.isAtOrUnder_trans hlower hlu)
                (by rw [endsAuthority_of_upper hlower hlu hne hupper, Bool.true_or])
              rw [← heq] at hut
              rw [same_of_under hlu (Name.isAtOrUnder_trans hut hcl)] at hne
              cases hne
          · intro hset
            by_cases heq : c = t
            · exact Or.inr heq
            · left
              have hne : c.same t = false := by
                by_contra hsame
                rw [Bool.not_eq_false, Name.same_iff, hc.folded, ht.folded] at hsame
                exact heq hsame
              have hcutt := isCut_of_topmost htop (hno t hct)
              rw [endsAuthority, Bool.and_eq_true] at hcutt
              rcases hset c t hc.above hc.holds hct hne hcutt.1 with ⟨d, htd, hd⟩ | ⟨hchain, -⟩
              · rw [hno d (Name.isAtOrUnder_trans hct htd)] at hd
                cases hd
              · exact hchain

end Turn

/-! ## The whole resolution -/

section Run

variable {z : Zone} {qtype : Qtype} {w : Walk}

def StaysIn (z : Zone) : Turn → Prop
  | .follow next => next.name.isAtOrUnder z.origin = true
  | .exit _ => True

theorem staysIn_goOn (chain : List Hop) (visited : List Name) (next : Name) :
    StaysIn z (goOn z chain visited next) := by
  rw [goOn]
  split
  · trivial
  next hin =>
    rw [Bool.not_eq_true, Bool.or_eq_false_iff, Bool.not_eq_false'] at hin
    exact hin.1

theorem staysIn_redirectThrough (dname : ZoneRecord) : StaysIn z (redirectThrough z dname w) := by
  rw [redirectThrough]
  split
  · split
    · exact staysIn_goOn ..
    · trivial
    · trivial
  · trivial

theorem staysIn_lookUp : StaysIn z (lookUp z qtype w) := by
  rw [lookUp]
  split
  · trivial
  · split
    · trivial
    · split
      · trivial
      · exact staysIn_goOn ..

theorem staysIn_lawfulTurn : StaysIn z (lawfulTurn z qtype w) := by
  rw [lawfulTurn]
  split
  · exact staysIn_lookUp
  · split
    · split
      · exact staysIn_redirectThrough _
      · exact staysIn_lookUp
    · trivial

theorem walks_lawful_iff (h : ZoneOk z) (turns : Nat) (hunder : w.name.isAtOrUnder z.origin = true) :
    (∀ v ∈ walks (turn z qtype) turns w, turn z qtype v = lawfulTurn z qtype v) ↔
      ∀ v ∈ walks (lawfulTurn z qtype) turns w, Settled z.origin z.records qtype v := by
  induction turns generalizing w with
  | zero => exact iff_of_true (fun v hv => by cases hv) fun v hv => by cases hv
  | succ turns ih =>
    rw [walks, walks, List.forall_mem_cons, List.forall_mem_cons, turn_lawful_iff h hunder]
    refine and_congr_right fun hset => ?_
    rw [(turn_lawful_iff h hunder).mpr hset]
    have hstays : StaysIn z (lawfulTurn z qtype w) := staysIn_lawfulTurn
    cases hnext : lawfulTurn z qtype w with
    | exit outcome => exact iff_of_true (fun v hv => by cases hv) fun v hv => by cases hv
    | follow next =>
      rw [hnext] at hstays
      exact ih hstays

end Run

/-- **Authority ends at the topmost cut exactly where no delegation hides another.** After
any calls that change a zone, and for every question at or under its apex, each turn of
`resolve_in_zone` is the lawful one exactly when the cuts are settled at every name the
lawful walk considers. -/
theorem authority_topmost_iff {origin : Name} {ops : List ZoneOp} {z : Zone}
    (hrun : (Zone.new origin).run ops = some z) {q : Name} (hzone : q.isAtOrUnder z.origin = true)
    (qtype : Qtype) :
    (∀ w ∈ walks (turn z qtype) MAX_REDIRECTS (.start q), turn z qtype w = lawfulTurn z qtype w) ↔
      ∀ w ∈ walks (lawfulTurn z qtype) MAX_REDIRECTS (.start q), Settled z.origin z.records qtype w :=
  walks_lawful_iff ((zoneOk_new origin).run hrun) MAX_REDIRECTS hzone

def delegationOf (name : Name) : ZoneRecord := ⟨name, ⟨300⟩, .IN, ⟨NS, wwwEx.wire⟩⟩

def oneCut : Zone := ((Zone.new ex).add exSoa).add (delegationOf wwwEx)
def nestedCuts : Zone := oneCut.add (delegationOf aWwwEx)

theorem authority_topmost_oneCut :
    (Zone.new ex).run [.add exSoa, .add (delegationOf wwwEx)] = some oneCut ∧
      aWwwEx.isAtOrUnder oneCut.origin = true ∧
      ∀ w ∈ walks (lawfulTurn oneCut (.of A)) MAX_REDIRECTS (.start aWwwEx),
        Settled oneCut.origin oneCut.records (.of A) w := by
  have hrun : (Zone.new ex).run [.add exSoa, .add (delegationOf wwwEx)] = some oneCut := rfl
  have hzone : aWwwEx.isAtOrUnder oneCut.origin = true := by
    decide
  refine ⟨hrun, hzone, (authority_topmost_iff hrun hzone (.of A)).mp ?_⟩
  decide +kernel

/-- **The lower of two delegations is answered with**: `a.www.ex.` lies below the
delegation of `www.ex.`, and its own NS records are glue that the zone has no say over. -/
theorem authority_below_wwwEx :
    ¬ ∀ (origin : Name) (ops : List ZoneOp) (z : Zone) (q : Name) (qtype : Qtype),
      (Zone.new origin).run ops = some z → q.isAtOrUnder z.origin = true →
        ∀ w ∈ walks (turn z qtype) MAX_REDIRECTS (.start q), turn z qtype w = lawfulTurn z qtype w := by
  intro h
  have hturn := h ex [.add exSoa, .add (delegationOf wwwEx), .add (delegationOf aWwwEx)] nestedCuts aWwwEx
    (.of A) rfl (by decide) (.start aWwwEx) List.mem_cons_self
  have hcode : turn nestedCuts (.of A) (.start aWwwEx) = .exit (.referral aWwwEx) := by
    decide +kernel
  have hlaw : lawfulTurn nestedCuts (.of A) (.start aWwwEx) = .exit (.referral wwwEx) := by
    decide +kernel
  rw [hcode, hlaw] at hturn
  cases hturn

end Rdns.Answer
