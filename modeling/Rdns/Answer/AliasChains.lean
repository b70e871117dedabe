import Rdns.Answer.Redirections
import Rdns.Dnssec.SignerLayout
import Rdns.Zones.Update

/-!
# Rdns — Chains of aliases

The loop of `resolve_in_zone` (`rdns/src/zone_answer.rs`) ends a chain at a name it has sought
before. It keeps the targets, and not the name it began with, so a chain that comes back to that
name goes around once more.

What a zone redirects a name to does not depend on how the name was reached, so the names a chain
goes through are a sequence of their own (`sought`), and the loop follows it to some point.
-/

namespace Rdns.Answer

open Rdns.Lib Rdns.Core Rdns.Zones RecordTypes

/-! ## Hops -/

def Hop.asked : Hop → Name
  | .cname owner => owner
  | .dname _ asked _ _ _ => asked

def Hop.alias : Hop → Option Name
  | .cname owner => some owner
  | .dname _ asked (some _) _ _ => some asked
  | .dname _ _ none _ _ => none

def Hop.target (z : Zone) : Hop → Option Name
  | .cname owner => aliasTarget z (z.locate owner)
  | .dname _ _ substituted _ _ => substituted

def Outcome.answered : Outcome → Option Name
  | .answer _ name _ => some name
  | .negative _ name _ => some name
  | _ => none

/-! ## What a zone redirects a name to -/

section

variable (z : Zone) (qtype : Qtype)

def refersAt (name : Name) : Bool :=
  (z.delegationFor name).any fun cut =>
    !((z.dnameAbove name).any (fun dname => cut.isAtOrUnder dname.name) || (qtype.is DS && cut.same name))

def throughDname (dname : ZoneRecord) (name : Name) : Option (Hop × Option Name) :=
  match dname.rdata.parse with
  | .ok (.dname target) =>
    match dnameRedirect name dname.name target with
    | .goesTo next => some (.dname dname.name name (some next) dname.ttl dname.cls, some next)
    | .tooLong => some (.dname dname.name name none dname.ttl dname.cls, none)
    | .noMatch => none
  | _ => none

def throughCname (name : Name) : Option (Hop × Option Name) :=
  if !(z.ofType (z.locate name) qtype).isEmpty || qtype.is CNAME then none
  else (aliasTarget z (z.locate name)).map fun target => (.cname name, some target)

def redirectionAt (name : Name) : Option (Hop × Option Name) :=
  if refersAt z qtype name then none
  else match z.dnameAbove name with
    | some dname => throughDname dname name
    | none => throughCname z qtype name

def nextName (name : Name) : Option Name :=
  ((redirectionAt z qtype name).bind Prod.snd).filter (·.isAtOrUnder z.origin)

def sought (qname : Name) : Nat → Option Name
  | 0 => some qname
  | hops + 1 => (sought qname hops).bind (nextName z qtype)

end

section

variable {z : Zone} {qtype : Qtype} {w : Walk}

theorem of_redirectionAt {name : Name} {hop : Hop} {next : Option Name}
    (h : redirectionAt z qtype name = some (hop, next)) :
    hop.asked = name ∧ hop.target z = next ∧ hop.alias = next.map fun _ => name := by
  rw [redirectionAt] at h
  split at h
  · cases h
  · split at h
    · rw [throughDname] at h
      split at h
      · split at h
        · cases h
          exact ⟨rfl, rfl, rfl⟩
        · cases h
          exact ⟨rfl, rfl, rfl⟩
        · cases h
      · cases h
    · rw [throughCname] at h
      split at h
      · cases h
      · obtain ⟨target, htarget, h⟩ := Option.map_eq_some_iff.mp h
        cases h
        exact ⟨rfl, htarget, rfl⟩

theorem pastCuts_cases (hrefers : refersAt z qtype w.name = false) :
    (redirectionAt z qtype w.name = none ∧ ∃ outcome, pastCuts z qtype w = .exit outcome ∧ outcome.chain = w.chain ∧
        ∀ name, outcome.answered = some name → name = w.name) ∨
      (∃ hop next, redirectionAt z qtype w.name = some (hop, some next) ∧
        pastCuts z qtype w = goOn z (w.chain ++ [hop]) w.visited next) ∨
      ∃ hop, redirectionAt z qtype w.name = some (hop, none) ∧
        pastCuts z qtype w = .exit (.stopped (w.chain ++ [hop]) .domainExistsForSomeReason) := by
  have hstop : ∀ rcode, ∀ name, (Outcome.stopped w.chain rcode).answered = some name → name = w.name :=
    fun _ _ h => by cases h
  have hself : ∀ name, some w.name = some name → name = w.name := fun _ h => (Option.some.inj h).symm
  rw [redirectionAt, hrefers, if_neg Bool.false_ne_true, pastCuts]
  cases z.dnameAbove w.name with
  | some dname =>
    dsimp only
    rw [throughDname, redirectThrough]
    cases dname.rdata.parse with
    | error e => exact .inl ⟨rfl, _, rfl, rfl, hstop _⟩
    | ok parsed =>
      cases parsed with
      | dname target =>
        dsimp only
        cases dnameRedirect w.name dname.name target with
        | goesTo next => exact .inr (.inl ⟨_, _, rfl, rfl⟩)
        | tooLong => exact .inr (.inr ⟨_, rfl, rfl⟩)
        | noMatch => exact .inl ⟨rfl, _, rfl, rfl, hstop _⟩
      | _ => exact .inl ⟨rfl, _, rfl, rfl, hstop _⟩
  | none =>
    dsimp only
    rw [throughCname, lookUp]
    cases hempty : (z.ofType (z.locate w.name) qtype).isEmpty with
    | false => exact .inl ⟨rfl, _, rfl, rfl, hself⟩
    | true =>
      cases hcname : qtype.is CNAME with
      | true => exact .inl ⟨rfl, _, rfl, rfl, hself⟩
      | false =>
        cases htarget : aliasTarget z (z.locate w.name) with
        | none => exact .inl ⟨rfl, .negative w.chain w.name (z.locate w.name).kind, by simp, rfl, hself⟩
        | some target => exact .inr (.inl ⟨_, _, rfl, by simp⟩)

/-- **What one turn does**: it ends without a redirection, follows the one there is, or ends at one
that goes nowhere. -/
theorem turn_cases (z : Zone) (qtype : Qtype) (w : Walk) :
    (redirectionAt z qtype w.name = none ∧ ∃ outcome, turn z qtype w = .exit outcome ∧ outcome.chain = w.chain ∧
        ∀ name, outcome.answered = some name → name = w.name) ∨
      (∃ hop next, redirectionAt z qtype w.name = some (hop, some next) ∧
        turn z qtype w = goOn z (w.chain ++ [hop]) w.visited next) ∨
      ∃ hop, redirectionAt z qtype w.name = some (hop, none) ∧
        turn z qtype w = .exit (.stopped (w.chain ++ [hop]) .domainExistsForSomeReason) := by
  cases hcut : z.delegationFor w.name with
  | none =>
    have hturn : turn z qtype w = pastCuts z qtype w := by rw [turn, hcut]
    rw [hturn]
    exact pastCuts_cases (by rw [refersAt, hcut]; rfl)
  | some cut =>
    have hrefers : refersAt z qtype w.name =
        !((z.dnameAbove w.name).any (fun dname => cut.isAtOrUnder dname.name) ||
          (qtype.is DS && cut.same w.name)) := by rw [refersAt, hcut, Option.any_some]
    have hturn : turn z qtype w = if refersAt z qtype w.name then refer w.chain cut else pastCuts z qtype w := by
      rw [turn, hcut, hrefers]
    by_cases h : refersAt z qtype w.name = true
    · rw [hturn, if_pos h, redirectionAt, if_pos h]
      refine .inl ⟨rfl, _, rfl, ?_, fun name hname => ?_⟩
      · split
        · rename_i hempty
          exact (List.isEmpty_iff.mp hempty).symm
        · rfl
      · split at hname <;> cases hname
    · rw [hturn, if_neg h]
      exact pastCuts_cases (Bool.not_eq_true _ ▸ h)

/-! ## Names in another case -/

variable {next a b : Name}

theorem dnameRedirect_congr {owner target : Name} (h : a.same b = true)
    (hgoes : dnameRedirect a owner target = .goesTo next) :
    ∃ next', dnameRedirect b owner target = .goesTo next' ∧ next.same next' = true := by
  have hfold := Name.same_iff_foldLabels.mp h
  have hcount : a.labelCount = b.labelCount := by
    have hlength := congrArg List.length hfold
    rwa [foldLabels, foldLabels, List.length_map, List.length_map] at hlength
  have hbelow : (!a.isAtOrUnder owner || a.same owner) = (!b.isAtOrUnder owner || b.same owner) := by
    rw [Dnssec.isAtOrUnder_congr_left h, Name.same_comm a, Name.same_comm b, Dnssec.same_congr h]
  rw [dnameRedirect] at hgoes
  split at hgoes
  · cases hgoes
  · rename_i hstrict
    split at hgoes
    · rename_i name hname
      cases hgoes
      have hlabels := Name.ofLabels_ok_iff.mp hname
      have hsame : foldLabels (b.labels.take (b.labelCount - owner.labelCount) ++ target.labels) =
          foldLabels next.labels := by
        rw [foldLabels, foldLabels] at hfold
        rw [hlabels, foldLabels, foldLabels, List.map_append, List.map_append, List.map_take, List.map_take, hfold, hcount]
      have hvalid : ∀ l ∈ b.labels.take (b.labelCount - owner.labelCount) ++ target.labels, ValidLabel l := by
        intro l hl
        rcases List.mem_append.mp hl with hl | hl
        · exact b.labels_ok l (List.take_subset _ _ hl)
        · exact target.labels_ok l hl
      have hshort : encodedLen (b.labels.take (b.labelCount - owner.labelCount) ++ target.labels) ≤ MAX_NAME_LEN := by
        rw [← encodedLen_foldLabels, hsame, encodedLen_foldLabels]
        exact next.length_ok
      have hok : Name.ofLabels (b.labels.take (b.labelCount - owner.labelCount) ++ target.labels) =
          .ok ⟨_, hvalid, hshort⟩ := Name.ofLabels_ok_iff.mpr rfl
      refine ⟨⟨_, hvalid, hshort⟩, ?_, Name.same_iff_foldLabels.mpr hsame.symm⟩
      rw [dnameRedirect, if_neg (hbelow ▸ hstrict), hok]
    · cases hgoes

/-- **Names that differ in case are redirected to names that differ in case.** -/
theorem redirectionAt_congr {hop : Hop} (h : a.same b = true)
    (hgoes : redirectionAt z qtype a = some (hop, some next)) :
    ∃ hop' next', redirectionAt z qtype b = some (hop', some next') ∧ next.same next' = true := by
  have hfolded := Name.same_iff.mp h
  have hdname : z.dnameAbove a = z.dnameAbove b := by rw [Zone.dnameAbove, Zone.dnameAbove, hfolded]
  have hcut : z.delegationFor a = z.delegationFor b := by rw [Zone.delegationFor, Zone.delegationFor, hfolded]
  have hlocate : z.locate a = z.locate b := by rw [Zone.locate, Zone.locate, hfolded]
  have hrefers : refersAt z qtype a = refersAt z qtype b := by
    rw [refersAt, refersAt, hcut, hdname]
    congr 1
    funext cut
    rw [Dnssec.same_congr h]
  rw [redirectionAt, hrefers] at hgoes
  rw [redirectionAt]
  split at hgoes
  · cases hgoes
  · rename_i hstays
    rw [if_neg hstays, ← hdname]
    split at hgoes
    · rename_i dname _
      rw [throughDname] at hgoes ⊢
      cases hparse : dname.rdata.parse with
      | error e =>
        rw [hparse] at hgoes
        cases hgoes
      | ok parsed =>
        rw [hparse] at hgoes
        cases parsed with
        | dname target =>
          dsimp only at hgoes ⊢
          split at hgoes
          · rename_i goal hgoal
            cases hgoes
            obtain ⟨next', hnext', hsame⟩ := dnameRedirect_congr h hgoal
            rw [hnext']
            exact ⟨_, _, rfl, hsame⟩
          · cases hgoes
          · cases hgoes
        | _ => cases hgoes
    · rw [throughCname] at hgoes ⊢
      rw [← hlocate]
      split at hgoes
      · cases hgoes
      · rename_i hlooked
        rw [if_neg hlooked]
        obtain ⟨target, htarget, hpair⟩ := Option.map_eq_some_iff.mp hgoes
        cases hpair
        rw [htarget]
        exact ⟨_, _, rfl, Name.same_iff.mpr rfl⟩

theorem nextName_eq_some {name : Name} :
    nextName z qtype name = some next ↔
      (∃ hop, redirectionAt z qtype name = some (hop, some next)) ∧ next.isAtOrUnder z.origin = true := by
  rw [nextName, Option.filter_eq_some_iff, Option.bind_eq_some_iff]
  refine and_congr_left fun _ => ⟨?_, ?_⟩
  · rintro ⟨⟨hop, goal⟩, hredirection, rfl⟩
    exact ⟨hop, hredirection⟩
  · rintro ⟨hop, hredirection⟩
    exact ⟨_, hredirection, rfl⟩

theorem nextName_congr (h : a.same b = true) (hnext : nextName z qtype a = some next) :
    ∃ next', nextName z qtype b = some next' ∧ next.same next' = true := by
  obtain ⟨⟨hop, hredirection⟩, hinside⟩ := nextName_eq_some.mp hnext
  obtain ⟨hop', next', hredirection', hsame⟩ := redirectionAt_congr h hredirection
  refine ⟨next', nextName_eq_some.mpr ⟨⟨hop', hredirection'⟩, ?_⟩, hsame⟩
  rwa [← Dnssec.isAtOrUnder_congr_left hsame]

/-! ## The names a chain goes through -/

section

variable {q : Name}

variable {k : Nat} {back : Name}

theorem sought_of_le {i : Nat} (hle : i ≤ k) {name : Name} (h : sought z qtype q k = some name) :
    ∃ before, sought z qtype q i = some before := by
  induction k generalizing name with
  | zero =>
    obtain rfl := Nat.le_zero.mp hle
    exact ⟨name, h⟩
  | succ k ih =>
    rcases Nat.lt_or_ge i (k + 1) with hlt | hge
    · obtain ⟨before, hbefore, -⟩ := Option.bind_eq_some_iff.mp h
      exact ih (Nat.lt_succ_iff.mp hlt) hbefore
    · obtain rfl := Nat.le_antisymm hle hge
      exact ⟨name, h⟩

theorem sought_shift {i j : Nat} (ha : sought z qtype q i = some a)
    (hb : sought z qtype q j = some b) (h : b.same a = true) (m : Nat) {c : Name}
    (hc : sought z qtype q (j + m) = some c) :
    ∃ d, sought z qtype q (i + m) = some d ∧ c.same d = true := by
  induction m generalizing c with
  | zero =>
    obtain rfl := Option.some.inj (hb.symm.trans hc)
    exact ⟨a, ha, h⟩
  | succ m ih =>
    obtain ⟨before, hbefore, hnext⟩ := Option.bind_eq_some_iff.mp (show (sought z qtype q (j + m)).bind _ = some c from hc)
    obtain ⟨d, hd, hsame⟩ := ih hbefore
    obtain ⟨next, hnext', hsame'⟩ := nextName_congr hsame hnext
    exact ⟨next, Option.bind_eq_some_iff.mpr ⟨d, hd, hnext'⟩, hsame'⟩

theorem sought_apart (hback : sought z qtype q k = some back) (hsame : back.same q = true)
    (hfirst : ∀ i, 0 < i → i < k → ∀ name, sought z qtype q i = some name → name.same q = false)
    {i j : Nat} (hi : 0 < i) (hij : i < j) (hj : j ≤ k) (ha : sought z qtype q i = some a)
    (hb : sought z qtype q j = some b) : b.same a = false := by
  by_contra hrepeats
  rw [Bool.not_eq_false] at hrepeats
  obtain ⟨d, hd, hsame'⟩ := sought_shift ha hb hrepeats (k - j) (by rwa [Nat.add_sub_cancel' hj])
  have hbefore := hfirst (i + (k - j)) (by omega) (by omega) d hd
  rw [Name.same_comm] at hsame'
  rw [Name.same_trans hsame' hsame] at hbefore
  cases hbefore

/-! ## The loop goes along -/

def HopsAlong (z : Zone) (qtype : Qtype) (q : Name) (chain : List Hop) (arrived : Bool) : Prop :=
  ∀ i hop, chain[i]? = some hop → ∃ name next, sought z qtype q i = some name ∧
    redirectionAt z qtype name = some (hop, next) ∧
    (i + 1 < chain.length ∨ arrived = true → ∃ goal, next = some goal ∧ sought z qtype q (i + 1) = some goal)

def ApartUpTo (z : Zone) (qtype : Qtype) (q : Name) (k : Nat) : Prop :=
  ∀ i j a b, 0 < i → i < j → j ≤ k → sought z qtype q i = some a → sought z qtype q j = some b → a.same b = false

structure Along (z : Zone) (qtype : Qtype) (q : Name) (w : Walk) : Prop where
  here : sought z qtype q w.chain.length = some w.name
  hops : HopsAlong z qtype q w.chain true
  visited : ∀ name, name ∈ w.visited ↔ ∃ i, 0 < i ∧ i ≤ w.chain.length ∧ sought z qtype q i = some name
  apart : ApartUpTo z qtype q w.chain.length

structure EndsAlong (z : Zone) (qtype : Qtype) (q : Name) (outcome : Outcome) : Prop where
  bounded : outcome.chain.length ≤ MAX_REDIRECTS
  hops : HopsAlong z qtype q outcome.chain outcome.answered.isSome
  answered : ∀ name, outcome.answered = some name → sought z qtype q outcome.chain.length = some name
  apart : ApartUpTo z qtype q (outcome.chain.length - 1)

theorem Along.start (z : Zone) (qtype : Qtype) (q : Name) : Along z qtype q (.start q) where
  here := rfl
  hops _ _ h := by cases h
  visited name := by
    refine iff_of_false List.not_mem_nil ?_
    rintro ⟨i, hpos, hle, -⟩
    exact absurd hpos (Nat.not_lt.mpr hle)
  apart _ _ _ _ hi hij hj := absurd (Nat.le_zero.mp (le_trans (le_of_lt hij) hj)) (by omega)

theorem Along.push (h : Along z qtype q w) {hop : Hop} {next : Option Name}
    (hredirection : redirectionAt z qtype w.name = some (hop, next)) {arrived : Bool}
    (harrived : arrived = true → ∃ goal, next = some goal ∧ sought z qtype q (w.chain.length + 1) = some goal) :
    HopsAlong z qtype q (w.chain ++ [hop]) arrived := by
  intro i hop' hhop
  rw [List.length_append, List.length_singleton]
  rcases Nat.lt_trichotomy i w.chain.length with hlt | rfl | hgt
  · rw [List.getElem?_append_left hlt] at hhop
    obtain ⟨name, next', hname, hat, hgoes⟩ := h.hops i hop' hhop
    exact ⟨name, next', hname, hat, fun _ => hgoes (.inr rfl)⟩
  · rw [List.getElem?_concat_length] at hhop
    obtain rfl := Option.some.inj hhop
    refine ⟨w.name, next, h.here, hredirection, ?_⟩
    rintro (hlt | harr)
    · exact absurd hlt (Nat.lt_irrefl _)
    · exact harrived harr
  · rw [List.getElem?_eq_none (by rw [List.length_append, List.length_singleton]; omega)] at hhop
    cases hhop

/-- **One turn goes along**: what it exits with has, and where it goes on the chain goes on. -/
theorem Along.turn (h : Along z qtype q w) (hroom : w.chain.length + 1 ≤ MAX_REDIRECTS) :
    (∃ outcome, turn z qtype w = .exit outcome ∧ EndsAlong z qtype q outcome) ∨
      ∃ next, turn z qtype w = .follow next ∧ Along z qtype q next ∧ next.chain.length = w.chain.length + 1 := by
  have hpush : ∀ {hop : Hop} {next : Option Name}, redirectionAt z qtype w.name = some (hop, next) →
      ∀ outcome : Outcome, outcome.chain = w.chain ++ [hop] → outcome.answered = none → EndsAlong z qtype q outcome := by
    intro hop next hredirection outcome hchain hanswered
    refine ⟨?_, ?_, fun name hname => ?_, ?_⟩
    · rw [hchain, List.length_append, List.length_singleton]
      exact hroom
    · rw [hchain, hanswered]
      exact h.push hredirection fun harrived => by cases harrived
    · rw [hanswered] at hname
      cases hname
    · rw [hchain, List.length_append, List.length_singleton, Nat.add_sub_cancel]
      exact h.apart
  rcases turn_cases z qtype w with ⟨-, outcome, hturn, hchain, hanswered⟩ | ⟨hop, next, hredirection, hturn⟩ |
    ⟨hop, hredirection, hturn⟩
  · refine .inl ⟨outcome, hturn, ?_, ?_, fun name hname => ?_, ?_⟩
    · rw [hchain]
      omega
    · intro i hop hhop
      rw [hchain] at hhop ⊢
      obtain ⟨name, next, hname, hat, hgoes⟩ := h.hops i hop hhop
      exact ⟨name, next, hname, hat, fun _ => hgoes (.inr rfl)⟩
    · rw [hchain, hanswered name hname]
      exact h.here
    · rw [hchain]
      exact fun i j a b hi hij hj => h.apart i j a b hi hij (by omega)
  · rw [hturn, goOn]
    by_cases hleaves : (!next.isAtOrUnder z.origin || w.visited.any (·.same next)) = true
    · rw [if_pos hleaves]
      exact .inl ⟨_, rfl, hpush hredirection _ rfl rfl⟩
    · rw [if_neg hleaves]
      rw [Bool.or_eq_true, not_or, Bool.not_eq_true', Bool.not_eq_false, List.any_eq_true] at hleaves
      obtain ⟨hinside, hfresh⟩ := hleaves
      have hnext : sought z qtype q (w.chain.length + 1) = some next :=
        Option.bind_eq_some_iff.mpr ⟨w.name, h.here, nextName_eq_some.mpr ⟨⟨hop, hredirection⟩, hinside⟩⟩
      have hlength : (w.chain ++ [hop]).length = w.chain.length + 1 := by
        rw [List.length_append, List.length_singleton]
      refine .inr ⟨_, rfl, ⟨?_, h.push hredirection fun _ => ⟨next, rfl, hnext⟩, fun name => ?_, ?_⟩, hlength⟩
      · rw [hlength]
        exact hnext
      · rw [hlength, List.mem_append, h.visited, List.mem_singleton]
        constructor
        · grind
        · rintro ⟨i, hpos, hle, hname⟩
          rcases Nat.lt_or_ge i (w.chain.length + 1) with hlt | hge
          · exact .inl ⟨i, hpos, by omega, hname⟩
          · obtain rfl := Nat.le_antisymm hle hge
            exact .inr (Option.some.inj (hname.symm.trans hnext))
      · rw [hlength]
        intro i j a b hi hij hj ha hb
        rcases Nat.lt_or_ge j (w.chain.length + 1) with hlt | hge
        · exact h.apart i j a b hi hij (by omega) ha hb
        · obtain rfl := Nat.le_antisymm hj hge
          obtain rfl := Option.some.inj (hnext.symm.trans hb)
          rw [← Bool.not_eq_true]
          exact fun hsame => hfresh ⟨a, (h.visited a).mpr ⟨i, hi, by omega, ha⟩, hsame⟩
  · exact .inl ⟨_, hturn, hpush hredirection _ rfl rfl⟩

/-- **The loop goes along**, and what it ends with has. -/
theorem Along.ended (turns : Nat) (h : Along z qtype q w) (hroom : w.chain.length + turns ≤ MAX_REDIRECTS) :
    EndsAlong z qtype q (resolveLoop (Answer.turn z qtype) turns w) := by
  induction turns generalizing w with
  | zero =>
    refine ⟨hroom, ?_, fun name hname => (by cases hname), fun i j a b hi hij hj => ?_⟩
    · intro i hop hhop
      obtain ⟨name, next, hname, hat, hgoes⟩ := h.hops i hop hhop
      exact ⟨name, next, hname, hat, fun _ => hgoes (.inr rfl)⟩
    · exact h.apart i j a b hi hij (le_trans hj (Nat.sub_le _ _))
  | succ turns ih =>
    rw [resolveLoop]
    rcases h.turn (by omega) with ⟨outcome, hturn, hends⟩ | ⟨next, hturn, hnext, hlength⟩
    · rw [hturn]
      exact hends
    · rw [hturn]
      exact ih hnext (by omega)

/-! ## What repeats -/

structure RepeatsNothing (z : Zone) (q : Name) (outcome : Outcome) : Prop where
  bounded : outcome.chain.length ≤ MAX_REDIRECTS
  begins : ∀ hop, outcome.chain[0]? = some hop → hop.asked = q
  linked : ∀ i hop hop', outcome.chain[i]? = some hop → outcome.chain[i + 1]? = some hop' →
    hop.target z = some hop'.asked
  answered : ∀ name, outcome.answered = some name →
    (outcome.chain = [] → name = q) ∧ ∀ hop, outcome.chain.getLast? = some hop → hop.target z = some name
  inside : ∀ i hop, i + 1 < outcome.chain.length → outcome.chain[i]? = some hop →
    ∃ goal, hop.target z = some goal ∧ goal.isAtOrUnder z.origin = true
  apart : ∀ (i j : Nat) (hop hop' : Hop) (a b : Name), i < j → outcome.chain[i]? = some hop →
    outcome.chain[j]? = some hop' → hop.alias = some a → hop'.alias = some b → b.same a = false

theorem EndsAlong.repeatsNothing {outcome : Outcome} (h : EndsAlong z qtype q outcome)
    (hnever : ∀ k, 0 < k → k < MAX_REDIRECTS → ∀ name, sought z qtype q k = some name → name.same q = false) :
    RepeatsNothing z q outcome where
  bounded := h.bounded
  begins hop hhop := by
    obtain ⟨name, next, hname, hat, -⟩ := h.hops 0 hop hhop
    rw [(of_redirectionAt hat).1]
    exact (Option.some.inj hname).symm
  linked i hop hop' hhop hhop' := by
    obtain ⟨name, next, -, hat, hgoes⟩ := h.hops i hop hhop
    obtain ⟨name', next', hname', hat', -⟩ := h.hops (i + 1) hop' hhop'
    obtain ⟨goal, rfl, hgoal⟩ := hgoes (.inl (List.getElem?_eq_some_iff.mp hhop').1)
    rw [(of_redirectionAt hat).2.1, (of_redirectionAt hat').1]
    exact hgoal.symm.trans hname'
  answered name hanswered := by
    have hname := h.answered name hanswered
    refine ⟨fun hempty => ?_, fun hop hhop => ?_⟩
    · rw [hempty] at hname
      exact (Option.some.inj hname).symm
    · rw [List.getLast?_eq_getElem?] at hhop
      have hpos : 0 < outcome.chain.length := by
        have := (List.getElem?_eq_some_iff.mp hhop).1
        omega
      obtain ⟨name', next, -, hat, hgoes⟩ := h.hops _ hop hhop
      obtain ⟨goal, rfl, hgoal⟩ := hgoes (.inr (by rw [hanswered]; rfl))
      rw [(of_redirectionAt hat).2.1, ← hname, ← hgoal]
      congr 1
      omega
  inside i hop hlt hhop := by
    obtain ⟨name, next, hname, hat, hgoes⟩ := h.hops i hop hhop
    obtain ⟨goal, rfl, hgoal⟩ := hgoes (.inl hlt)
    obtain ⟨before, -, hnext⟩ := Option.bind_eq_some_iff.mp hgoal
    exact ⟨goal, (of_redirectionAt hat).2.1, (nextName_eq_some.mp hnext).2⟩
  apart i j hop hop' a b hij hhop hhop' ha hb := by
    have hj := (List.getElem?_eq_some_iff.mp hhop').1
    have hbounded := h.bounded
    obtain ⟨name, next, hname, hat, -⟩ := h.hops i hop hhop
    obtain ⟨name', next', hname', hat', -⟩ := h.hops j hop' hhop'
    rw [(of_redirectionAt hat).2.2, Option.map_eq_some_iff] at ha
    rw [(of_redirectionAt hat').2.2, Option.map_eq_some_iff] at hb
    obtain ⟨-, -, rfl⟩ := ha
    obtain ⟨-, -, rfl⟩ := hb
    rcases Nat.eq_zero_or_pos i with rfl | hpos
    · obtain rfl := Option.some.inj hname
      exact hnever j hij (by omega) name' hname'
    · rw [Name.same_comm]
      exact h.apart i j name name' hpos hij (by omega) hname hname'

theorem resolveLoop_follows (hk : k ≤ MAX_REDIRECTS) (hback : sought z qtype q k = some back)
    (hsame : back.same q = true)
    (hfirst : ∀ i, 0 < i → i < k → ∀ name, sought z qtype q i = some name → name.same q = false) :
    ∀ i ≤ k, ∃ w, Along z qtype q w ∧ w.chain.length = i ∧
      resolveInZone z q qtype = resolveLoop (turn z qtype) (MAX_REDIRECTS - i) w := by
  intro i
  induction i with
  | zero => exact fun _ => ⟨.start q, .start z qtype q, rfl, rfl⟩
  | succ i ih =>
    intro hi
    obtain ⟨w, halong, hlength, hloop⟩ := ih (by omega)
    obtain ⟨next, hnext⟩ := sought_of_le hi hback
    obtain ⟨name, hname, hgoes⟩ := Option.bind_eq_some_iff.mp hnext
    have hhere := halong.here
    rw [hlength, hname] at hhere
    obtain rfl := Option.some.inj hhere
    obtain ⟨⟨hop, hredirection⟩, hinside⟩ := nextName_eq_some.mp hgoes
    have hfresh : ¬ w.visited.any (·.same next) = true := by
      rw [List.any_eq_true]
      rintro ⟨a, ha, hseen⟩
      obtain ⟨j, hpos, hle, hj⟩ := (halong.visited a).mp ha
      have happart := sought_apart hback hsame hfirst hpos (show j < i + 1 by omega) hi hj hnext
      rw [Name.same_comm, hseen] at happart
      cases happart
    have hturn : turn z qtype w = .follow ⟨w.chain ++ [hop], w.visited ++ [next], next⟩ := by
      rcases turn_cases z qtype w with ⟨hnone, -⟩ | ⟨hop', next', hat, hturn⟩ | ⟨hop', hat, -⟩
      · rw [hredirection] at hnone
        cases hnone
      · rw [hredirection] at hat
        cases hat
        rw [hturn, goOn, if_neg (by rw [hinside, Bool.not_true, Bool.false_or]; exact hfresh)]
      · rw [hredirection] at hat
        cases hat
    have hloop' : resolveLoop (turn z qtype) (MAX_REDIRECTS - i) w =
        resolveLoop (turn z qtype) (MAX_REDIRECTS - (i + 1)) ⟨w.chain ++ [hop], w.visited ++ [next], next⟩ := by
      obtain ⟨left, hleft⟩ : ∃ left, MAX_REDIRECTS - i = left + 1 := ⟨_, (Nat.succ_pred_eq_of_pos (by omega)).symm⟩
      rw [hleft, show MAX_REDIRECTS - (i + 1) = left by omega, resolveLoop, hturn]
    rcases halong.turn (by omega) with ⟨outcome, hexit, -⟩ | ⟨w', hfollow, halong', hlength'⟩
    · rw [hturn] at hexit
      cases hexit
    · grind

theorem repeats_of_back (hpos : 0 < k) (hk : k < MAX_REDIRECTS)
    (hback : sought z qtype q k = some back) (hsame : back.same q = true)
    (hfirst : ∀ i, 0 < i → i < k → ∀ name, sought z qtype q i = some name → name.same q = false) :
    ¬ RepeatsNothing z q (resolveInZone z q qtype) := by
  obtain ⟨w, halong, hlength, hloop⟩ := resolveLoop_follows (le_of_lt hk) hback hsame hfirst k le_rfl
  -- the redirection at the name asked for is there again
  obtain ⟨first, hfirstName⟩ := sought_of_le hpos hback
  obtain ⟨name, hname, hgoes⟩ := Option.bind_eq_some_iff.mp hfirstName
  obtain rfl := Option.some.inj hname
  obtain ⟨⟨hop, hredirection⟩, -⟩ := nextName_eq_some.mp hgoes
  have hhere := halong.here
  rw [hlength, hback] at hhere
  obtain rfl := Option.some.inj hhere
  obtain ⟨hop', next', hagain, -⟩ := redirectionAt_congr (by rw [Name.same_comm]; exact hsame) hredirection
  have hleads : w.chain ++ [hop'] <+: (resolveInZone z q qtype).chain := by
    obtain ⟨left, hleft⟩ : ∃ left, MAX_REDIRECTS - k = left + 1 := ⟨_, (Nat.succ_pred_eq_of_pos (by omega)).symm⟩
    rw [hloop, hleft, resolveLoop]
    rcases turn_cases z qtype w with ⟨hnone, -⟩ | ⟨hop'', next'', hat, hturn⟩ | ⟨hop'', hat, -⟩
    · rw [hagain] at hnone
      cases hnone
    · rw [hagain] at hat
      cases hat
      have hgo : w.chain ++ [hop'] <+: (goOn z (w.chain ++ [hop']) w.visited next').chain := by
        rw [goOn]
        split <;> exact List.prefix_rfl
      rw [hturn]
      cases hstep : goOn z (w.chain ++ [hop']) w.visited next' with
      | exit outcome =>
        rw [hstep] at hgo
        exact hgo
      | follow next =>
        rw [hstep] at hgo
        have hne : next.chain ≠ [] := List.ne_nil_of_length_pos (lt_of_lt_of_le (by simp) hgo.length_le)
        exact List.IsPrefix.trans hgo (prefix_resolveLoop left hne)
    · rw [hagain] at hat
      cases hat
  obtain ⟨rest, hrest⟩ := hleads
  intro hrepeats
  have hlast : (resolveInZone z q qtype).chain[k]? = some hop' := by grind
  obtain ⟨hopFirst, hzero⟩ : ∃ hopFirst, w.chain[0]? = some hopFirst :=
    ⟨_, List.getElem?_eq_getElem (by omega)⟩
  obtain ⟨name, next, hname, hat, hgoes⟩ := halong.hops 0 hopFirst hzero
  obtain rfl := Option.some.inj hname
  obtain ⟨goal, rfl, -⟩ := hgoes (.inr rfl)
  have hbegin : (resolveInZone z q qtype).chain[0]? = some hopFirst := by
    rw [← hrest, List.append_assoc, List.getElem?_append_left (by omega)]
    exact hzero
  have hapart := hrepeats.apart 0 k hopFirst hop' q w.name hpos hbegin hlast (of_redirectionAt hat).2.2
    (of_redirectionAt hagain).2.2
  rw [hsame] at hapart
  cases hapart

end

end

/-- **A chain ends, is linked and repeats nothing exactly when** the names it goes through do not
come back, in any case, to the name asked for. -/
theorem repeats_nothing_iff (z : Zone) (qname : Name) (qtype : Qtype) :
    RepeatsNothing z qname (resolveInZone z qname qtype) ↔
      ∀ k, 0 < k → k < MAX_REDIRECTS → ∀ name, sought z qtype qname k = some name → name.same qname = false := by
  constructor
  · intro hrepeats k hpos hk name hname
    by_contra hsame
    rw [Bool.not_eq_false] at hsame
    -- the first time it comes back
    have hexists : ∃ k, 0 < k ∧ ∃ name, sought z qtype qname k = some name ∧ name.same qname = true :=
      ⟨k, hpos, name, hname, hsame⟩
    classical
    obtain ⟨hpos', back, hback, hsame'⟩ := Nat.find_spec hexists
    refine repeats_of_back hpos' (lt_of_le_of_lt (Nat.find_min' hexists ⟨hpos, name, hname, hsame⟩) hk) hback hsame' ?_
      hrepeats
    intro i hi hlt name' hname'
    rw [← Bool.not_eq_true]
    exact fun hback' => Nat.find_min hexists hlt ⟨hi, name', hname', hback'⟩
  · intro hnever
    exact ((Along.start z qtype qname).ended MAX_REDIRECTS (by simp [Walk.start])).repeatsNothing hnever

def selfAlias : ZoneRecord := ⟨wwwEx, ⟨300⟩, .IN, ⟨CNAME, wwwEx.wire⟩⟩

theorem selfAlias_repeats :
    ¬ RepeatsNothing ((Zone.new ex).add selfAlias) wwwEx
      (resolveInZone ((Zone.new ex).add selfAlias) wwwEx (.of A)) := by
  intro h
  have hchain : (resolveInZone ((Zone.new ex).add selfAlias) wwwEx (.of A)).chain =
      [.cname wwwEx, .cname wwwEx] := by decide +kernel
  have hapart := h.apart 0 1 (.cname wwwEx) (.cname wwwEx) wwwEx wwwEx Nat.zero_lt_one (by rw [hchain]; rfl)
    (by rw [hchain]; rfl) rfl rfl
  rw [Name.same_iff.mpr rfl] at hapart
  cases hapart

end Rdns.Answer
