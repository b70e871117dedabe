import Rdns.Answer.Authority
import Rdns.Present.RelativeNames

/-!
# Rdns — What the shortcuts never hide

A zone keeps three flags that say which walks up a name it never needs. They are turned on as
records come in, recomputed when the apex moves, and left as they are when a record goes. Whatever
the calls so far, a walk that is skipped would have found nothing.
-/

namespace Rdns.Answer

open Rdns.Lib Rdns.Core Rdns.Present Rdns.Zones Rdns.Zones.Zone Rdns.Dnssec RecordTypes

/-- A name of the zone at or above `q`, other than the apex, that owns an NS record. -/
structure CutAbove (z : Zone) (q a : Name) : Prop where
  above : q.isAtOrUnder a = true
  inZone : a.isAtOrUnder z.origin = true
  below : a.same z.origin = false
  owns : ∃ r ∈ z.records, r.name.same a = true ∧ r.rtype = NS

structure RedirectAbove (z : Zone) (q a : Name) : Prop where
  above : q.isAtOrUnder a = true
  strict : a.same q = false
  inZone : a.isAtOrUnder z.origin = true
  owns : ∃ r ∈ z.records, r.name.same a = true ∧ r.rtype = DNAME

section Spec

variable {z : Zone} {q : Name}

variable {a : Name}

theorem owns_iff {rtype : Rtype} :
    (z.records.any fun r => r.name.same a && r.rtype == rtype) = true ↔
      ∃ r ∈ z.records, r.name.same a = true ∧ r.rtype = rtype := by
  rw [List.any_eq_true]
  simp only [Bool.and_eq_true, beq_iff_eq]

theorem cutAbove_iff :
    CutAbove z q a ↔ q.isAtOrUnder a = true ∧ isCut z.origin z.records a = true := by
  rw [isCut, ownsNs, Bool.and_eq_true, Bool.and_eq_true, Bool.not_eq_true', owns_iff]
  exact ⟨fun h => ⟨h.above, ⟨h.inZone, h.below⟩, h.owns⟩, fun h => ⟨h.1, h.2.1.1, h.2.1.2, h.2.2⟩⟩

theorem redirectAbove_iff :
    RedirectAbove z q a ↔ q.isAtOrUnder a = true ∧ redirectsFrom z.origin z.records q a = true := by
  rw [redirectsFrom, ownsType, Bool.and_eq_true, Bool.and_eq_true, Bool.not_eq_true', owns_iff]
  exact ⟨fun h => ⟨h.above, ⟨h.inZone, h.strict⟩, h.owns⟩, fun h => ⟨h.1, h.2.1.2, h.2.1.1, h.2.2⟩⟩

/-- **The deepest cut at or above a name**, or none if there is none. -/
theorem delegationFor_spec (h : ZoneOk z) (hunder : q.isAtOrUnder z.origin = true) :
    (∀ d, z.delegationFor q = some d → CutAbove z q d ∧ ∀ a, CutAbove z q a → d.isAtOrUnder a = true) ∧
      (z.delegationFor q = none ↔ ∀ a, ¬ CutAbove z q a) := by
  have heq := delegationFor_eq h hunder
  constructor
  · intro d hd
    have hlow := lowest_of_find? (isCut_toFolded _ _) (heq.symm.trans hd)
    refine ⟨cutAbove_iff.mpr ⟨hlow.above, hlow.holds⟩, fun a ha => ?_⟩
    obtain ⟨habove, hcut⟩ := cutAbove_iff.mp ha
    exact hlow.lowest a habove hcut
  · constructor
    · intro hnone a ha
      obtain ⟨habove, hcut⟩ := cutAbove_iff.mp ha
      rw [none_above (isCut_toFolded _ _) (fun _ => Iff.rfl) (heq.symm.trans hnone) habove] at hcut
      cases hcut
    · intro hnone
      rw [heq, List.find?_eq_none]
      exact fun a hmem hcut => hnone a (cutAbove_iff.mpr ⟨(mem_path.mp hmem).2, hcut⟩)

/-- **The shallowest DNAME above a name**, or none if there is none. -/
theorem dnameAbove_spec (h : ZoneOk z) (hunder : q.isAtOrUnder z.origin = true) :
    (∀ dname, z.dnameAbove q = some dname →
      dname ∈ z.records ∧ dname.rtype = DNAME ∧ RedirectAbove z q dname.name ∧
        ∀ a, RedirectAbove z q a → a.isAtOrUnder dname.name = true) ∧
      (z.dnameAbove q = none ↔ ∀ a, ¬ RedirectAbove z q a) := by
  constructor
  · intro dname hd
    obtain ⟨d, hhigh, hfirst, hsame⟩ := dnameAbove_some h hunder hd
    obtain ⟨hmem, -, htype⟩ := firstOfType_spec h hhigh.folded hfirst
    have hat : ∀ b : Name, b.isAtOrUnder d = true → b.isAtOrUnder dname.name = true := by
      intro b hb
      rwa [isAtOrUnder_congr hsame]
    have hred := redirectAbove_iff.mpr ⟨hat q hhigh.above, (redirectsFrom_congr hsame).trans hhigh.holds⟩
    refine ⟨hmem, htype, hred, fun a ha => ?_⟩
    obtain ⟨habove, hredirects⟩ := redirectAbove_iff.mp ha
    exact hat a (hhigh.highest a habove hredirects)
  · constructor
    · intro hnone a ha
      obtain ⟨habove, hredirects⟩ := redirectAbove_iff.mp ha
      rw [dnameAbove_none h hunder hnone habove] at hredirects
      cases hredirects
    · intro hnone
      cases hd : z.dnameAbove q with
      | none => rfl
      | some dname =>
        obtain ⟨d, hhigh, -⟩ := dnameAbove_some h hunder hd
        exact absurd (redirectAbove_iff.mpr ⟨hhigh.above, hhigh.holds⟩) (hnone d)

end Spec

/-- **The shortcuts hide nothing**, whatever calls have changed a zone. -/
theorem shortcuts_hide_nothing {origin : Name} {ops : List ZoneOp} {z : Zone}
    (hrun : (Zone.new origin).run ops = some z) {q : Name} (hunder : q.isAtOrUnder z.origin = true) :
    ((∀ d, z.delegationFor q = some d → CutAbove z q d ∧ ∀ a, CutAbove z q a → d.isAtOrUnder a = true) ∧
      (z.delegationFor q = none ↔ ∀ a, ¬ CutAbove z q a)) ∧
    (∀ dname, z.dnameAbove q = some dname →
      dname ∈ z.records ∧ dname.rtype = DNAME ∧ RedirectAbove z q dname.name ∧
        ∀ a, RedirectAbove z q a → a.isAtOrUnder dname.name = true) ∧
      (z.dnameAbove q = none ↔ ∀ a, ¬ RedirectAbove z q a) := by
  have hok := (zoneOk_new origin).run hrun
  exact ⟨delegationFor_spec hok hunder, dnameAbove_spec hok hunder⟩

def apexServers : ZoneRecord := ⟨plainLabel, ⟨300⟩, .IN, ⟨NS, Name.root.wire⟩⟩

theorem delegation_below_root :
    (((Zone.new plainLabel).add apexServers).setOrigin Name.root).delegationFor plainLabel ≠ none := by
  have hrun : (Zone.new plainLabel).run [.add apexServers, .setOrigin Name.root] =
      some (((Zone.new plainLabel).add apexServers).setOrigin Name.root) := rfl
  have hunder : plainLabel.isAtOrUnder
      (((Zone.new plainLabel).add apexServers).setOrigin Name.root).origin = true := by decide
  have hspec := shortcuts_hide_nothing hrun hunder
  intro hnone
  refine hspec.1.2.mp hnone plainLabel ⟨Name.isAtOrUnder_refl _, by decide, by decide, ?_⟩
  exact ⟨_, List.mem_cons_self, by decide, by decide⟩

end Rdns.Answer
