import Mathlib.Data.List.Pairwise
import Rdns.Resolver.AnchorChanges

/-!
# Rdns — Who lifts a negative trust anchor

The maintainer of `rdnsr/src/nta.rs` beside the reloads of the file. It drops what has lapsed, takes the
anchors whose recheck is due from a copy of the set, resolves for each of them as long as that takes, and
lifts by name; a reload puts another set in force at any point of this.
-/

namespace Rdns.Resolver

open Rdns.Lib Rdns.Core

/-! ## The file -/

/-- RFC 7646 §4: "The lifetime SHOULD NOT exceed a week." -/
def MAX_LIFETIME_SECS : Nat := 7 * 86400

def addLine (now : Nat) (ntas : List Nta) (line : Nta) : Option (List Nta) :=
  if line.expires ≤ now then some ntas
  else if MAX_LIFETIME_SECS < line.expires - now then none
  else if ntas.any (·.name.same line.name) then none
  else some (ntas ++ [line])

def loadNtas (lines : List Nta) (now : Nat) : Option (List Nta) := lines.foldlM (addLine now) []

def OneEach (ntas : List Nta) : Prop := ntas.Pairwise fun a b => a.name.same b.name = false

/-! ## The maintainer -/

def RECHECK_INTERVAL_SECS : Nat := 300

abbrev Checked := List (Name × Nat)

def Checked.insert (checked : Checked) (name : Name) (now : Nat) : Checked :=
  (name, now) :: checked.filter fun entry => !entry.1.same name

/-- The anchors whose recheck is due: never `norecheck`, and each at most once in the interval. -/
def due (ntas : List Nta) (checked : Checked) (now : Nat) : List Nta :=
  (ntas.filter Nta.recheck).filter fun nta =>
    match checked.find? fun entry => entry.1.same nta.name with
    | none => true
    | some (_, begun) => RECHECK_INTERVAL_SECS ≤ now - begun

inductive Round where
  | sleeping
  | expired (now : Nat)
  | rechecking (now : Nat) (nta : Nta) (rest : List Nta)
  | over

structure Maintained where
  now : Nat
  ntas : List Nta
  round : Round
  checked : Checked
  installed : List Nta
  validated : List Nta

inductive MaintainerEvent where
  | wait (later : Nat)
  | install (new : List Nta)
  | expire (reading : Nat)
  | snapshot
  | recheck (validates : Bool)
  | sleep

namespace Maintained

def recheckNext (system : Maintained) (now : Nat) : List Nta → Maintained
  | [] => { system with round := .over }
  | nta :: rest => { system with round := .rechecking now nta rest, checked := system.checked.insert nta.name now }

def step (system : Maintained) : MaintainerEvent → Maintained
  | .wait later => { system with now := later }
  | .install new => { system with ntas := new, installed := new, validated := [] }
  | .expire reading =>
    match system.round with
    | .sleeping => { system with ntas := (expireNtas system.ntas reading).2, round := .expired reading }
    | _ => system
  | .snapshot =>
    match system.round with
    | .expired now => system.recheckNext now (due system.ntas system.checked now)
    | _ => system
  | .recheck validates =>
    match system.round with
    | .rechecking now nta rest =>
      if validates then
        { system with
          ntas := (liftNta system.ntas nta.name).2
          validated := nta :: system.validated }.recheckNext now rest
      else system.recheckNext now rest
    | _ => system
  | .sleep =>
    match system.round with
    | .over =>
      { system with
        round := .sleeping
        checked := system.checked.filter fun entry => system.ntas.any fun nta => nta.name.same entry.1 }
    | _ => system

def May (system : Maintained) : MaintainerEvent → Prop
  | .wait later => system.now ≤ later
  | .install new => ∃ lines reading, reading ≤ system.now ∧ loadNtas lines reading = some new
  | .expire reading => reading ≤ system.now
  | _ => True

/-- **The runs**, the last event first, each beside what it found. -/
inductive Ran : List (MaintainerEvent × Maintained) → Maintained → Prop where
  | start {lines new : List Nta} (now : Nat) (hload : loadNtas lines now = some new) :
      Ran [] ⟨now, new, .sleeping, [], new, []⟩
  | step {trace : List (MaintainerEvent × Maintained)} {system : Maintained} {event : MaintainerEvent}
      (h : Ran trace system) (hmay : system.May event) : Ran ((event, system) :: trace) (system.step event)

/-- **Only its own recheck lifts an anchor**: one of the set last installed that has not lapsed is in force,
or may be rechecked and was found to validate. -/
def Kept (system : Maintained) : Prop :=
  ∀ nta ∈ system.installed, system.now < nta.expires →
    (∃ held ∈ system.ntas, held.same nta = true) ∨
      nta.recheck = true ∧ ∃ done ∈ system.validated, done.same nta = true

/-- **The condition**: where a recheck finds that the zone validates, the set holds no other anchor of that
name that has not lapsed. -/
def FindsItsOwn (system : Maintained) : MaintainerEvent → Prop
  | .recheck true => ∀ now nta rest, system.round = .rechecking now nta rest → ∀ held ∈ system.ntas,
      held.name.same nta.name = true → system.now < held.expires → held.same nta = true
  | _ => True

structure Sound (system : Maintained) : Prop where
  oneEach : OneEach system.ntas
  left : system.ntas.Sublist system.installed
  lifted : ∀ done ∈ system.validated, ∀ held ∈ system.ntas, held.same done = false
  flagged : ∀ now nta rest, system.round = .rechecking now nta rest → ∀ next ∈ nta :: rest, next.recheck = true

end Maintained

/-! ## Anchors -/

section Anchors

variable {a b c nta : Nta} {ntas : List Nta}

theorem Nta.same_iff : a.same b = true ↔ a.name.same b.name = true ∧ a.expires = b.expires ∧ a.recheck = b.recheck := by
  simp [Nta.same, and_assoc]

theorem Nta.same_self (nta : Nta) : nta.same nta = true := Nta.same_iff.mpr ⟨Name.same_self _, rfl, rfl⟩

theorem Nta.same_symm (h : a.same b = true) : b.same a = true := by
  obtain ⟨hname, hexpires, hflag⟩ := Nta.same_iff.mp h
  exact Nta.same_iff.mpr ⟨Name.same_comm a.name b.name ▸ hname, hexpires.symm, hflag.symm⟩

theorem Nta.same_trans (h : a.same b = true) (h' : b.same c = true) : a.same c = true := by
  obtain ⟨hname, hexpires, hflag⟩ := Nta.same_iff.mp h
  obtain ⟨hname', hexpires', hflag'⟩ := Nta.same_iff.mp h'
  exact Nta.same_iff.mpr ⟨Name.same_trans hname hname', hexpires.trans hexpires', hflag.trans hflag'⟩

theorem OneEach.sublist (h : OneEach ntas) {fewer : List Nta} (hsub : fewer.Sublist ntas) : OneEach fewer :=
  List.Pairwise.sublist hsub h

/-- **No two anchors of a file are for one name.** -/
theorem distinct_of_load {lines new : List Nta} {now : Nat} (h : loadNtas lines now = some new) : OneEach new := by
  have hrun : ∀ (lines before : List Nta), OneEach before → lines.foldlM (addLine now) before = some new → OneEach new := by
    intro lines
    induction lines with
    | nil =>
      intro before hbefore h
      cases h
      exact hbefore
    | cons line rest ih =>
      intro before hbefore h
      rw [List.foldlM_cons] at h
      obtain ⟨next, hnext, h⟩ := Option.bind_eq_some_iff.mp h
      refine ih next ?_ h
      unfold addLine at hnext
      split at hnext
      · cases hnext
        exact hbefore
      split at hnext
      · cases hnext
      split at hnext
      · cases hnext
      · next hnew =>
        cases hnext
        rw [OneEach, List.pairwise_append]
        refine ⟨hbefore, List.pairwise_singleton _ _, fun a ha b hb => ?_⟩
        rw [List.mem_singleton.mp hb, Bool.eq_false_iff]
        exact fun hsame => hnew (List.any_eq_true.mpr ⟨a, ha, hsame⟩)
  exact hrun lines [] List.Pairwise.nil h

theorem mem_expireNtas {reading : Nat} : nta ∈ (expireNtas ntas reading).2 ↔ nta ∈ ntas ∧ reading < nta.expires := by
  simp [expireNtas, List.partition_eq_filter_filter]

theorem sublist_expireNtas (ntas : List Nta) (reading : Nat) : (expireNtas ntas reading).2.Sublist ntas := by
  rw [expireNtas, List.partition_eq_filter_filter]
  exact List.filter_sublist

theorem mem_liftNta (h : OneEach ntas) {name : Name} :
    nta ∈ (liftNta ntas name).2 ↔ nta ∈ ntas ∧ nta.name.same name = false := by
  rw [liftNta]
  induction ntas with
  | nil => simp
  | cons first rest ih =>
    obtain ⟨hfirst, hrest⟩ := List.pairwise_cons.mp h
    rw [List.eraseP_cons]
    by_cases hsame : first.name.same name = true
    · rw [hsame]
      simp only [cond_true, List.mem_cons]
      constructor
      · intro hmem
        refine ⟨.inr hmem, ?_⟩
        have hdiffer := hfirst nta hmem
        rw [Bool.eq_false_iff] at hdiffer ⊢
        exact fun hnta => hdiffer (Name.same_trans hsame (Name.same_comm nta.name name ▸ hnta))
      · grind
    · rw [Bool.not_eq_true] at hsame
      rw [hsame]
      simp only [cond_false, List.mem_cons, ih hrest]
      constructor
      · grind
      · grind

theorem sublist_liftNta (ntas : List Nta) (name : Name) : (liftNta ntas name).2.Sublist ntas :=
  List.eraseP_sublist

theorem of_mem_due {checked : Checked} {now : Nat} (h : nta ∈ due ntas checked now) : nta.recheck = true :=
  (List.mem_filter.mp (List.mem_filter.mp h).1).2

end Anchors

/-! ## Runs -/

namespace Maintained

variable {system : Maintained} {event : MaintainerEvent} {trace : List (MaintainerEvent × Maintained)}

section

variable (system : Maintained) (now : Nat) (queue : List Nta)

@[simp] theorem recheckNext_now : (system.recheckNext now queue).now = system.now := by cases queue <;> rfl
@[simp] theorem recheckNext_ntas : (system.recheckNext now queue).ntas = system.ntas := by cases queue <;> rfl
@[simp] theorem recheckNext_installed : (system.recheckNext now queue).installed = system.installed := by cases queue <;> rfl
@[simp] theorem recheckNext_validated : (system.recheckNext now queue).validated = system.validated := by cases queue <;> rfl

end

theorem flagged_recheckNext {begun : Nat} {queue : List Nta} (hqueue : ∀ nta ∈ queue, nta.recheck = true) :
    ∀ now nta rest, (system.recheckNext begun queue).round = .rechecking now nta rest → ∀ next ∈ nta :: rest,
      next.recheck = true := by
  intro now nta rest hround
  cases queue with
  | nil => cases hround
  | cons first others =>
    cases hround
    exact hqueue

theorem Sound.keep (h : system.Sound) {after : Maintained} (hntas : after.ntas = system.ntas)
    (hinstalled : after.installed = system.installed) (hvalidated : after.validated = system.validated)
    (hflagged : ∀ now nta rest, after.round = .rechecking now nta rest → ∀ next ∈ nta :: rest, next.recheck = true) :
    after.Sound := by
  refine ⟨?_, ?_, ?_, hflagged⟩
  · rw [hntas]
    exact h.oneEach
  · rw [hntas, hinstalled]
    exact h.left
  · rw [hntas, hvalidated]
    exact h.lifted

/-- **What a step keeps.** -/
theorem Sound.step (h : system.Sound) (hmay : system.May event) : (system.step event).Sound := by
  unfold Maintained.step
  split
  · exact ⟨h.oneEach, h.left, h.lifted, h.flagged⟩
  · obtain ⟨lines, reading, -, hload⟩ := hmay
    exact ⟨distinct_of_load hload, List.Sublist.refl _, fun _ hdone => (by cases hdone), h.flagged⟩
  · next reading =>
    split
    · have hsub := sublist_expireNtas system.ntas reading
      exact ⟨h.oneEach.sublist hsub, hsub.trans h.left, fun done hdone held hheld => h.lifted done hdone held (hsub.subset hheld),
        fun _ _ _ hround => by cases hround⟩
    · exact h
  · split
    · exact h.keep (by simp) (by simp) (by simp) (flagged_recheckNext fun nta hnta => of_mem_due hnta)
    · exact h
  · split
    · next validates now nta rest hround =>
      have hrest : ∀ next ∈ rest, next.recheck = true := fun next hnext =>
        h.flagged now nta rest hround next (List.mem_cons_of_mem _ hnext)
      split
      · have hsub := sublist_liftNta system.ntas nta.name
        refine ⟨?_, ?_, ?_, flagged_recheckNext hrest⟩
        · rw [recheckNext_ntas]
          exact h.oneEach.sublist hsub
        · rw [recheckNext_ntas, recheckNext_installed]
          exact hsub.trans h.left
        · rw [recheckNext_ntas, recheckNext_validated]
          intro done hdone held hheld
          obtain ⟨hmem, hdiffer⟩ := (mem_liftNta h.oneEach).mp hheld
          rcases List.mem_cons.mp hdone with rfl | hdone
          · rw [Nta.same, hdiffer]
            rfl
          · exact h.lifted done hdone held hmem
      · exact h.keep (by simp) (by simp) (by simp) (flagged_recheckNext hrest)
    · exact h
  · split
    · exact h.keep rfl rfl rfl fun _ _ _ hround => by cases hround
    · exact h

theorem sound_of_ran (h : Ran trace system) : system.Sound := by
  induction h with
  | start now hload =>
    exact ⟨distinct_of_load hload, List.Sublist.refl _, fun _ hdone => (by cases hdone), fun _ _ _ hround => by cases hround⟩
  | step _ hmay ih => exact ih.step hmay

theorem Kept.keep (h : system.Kept) {after : Maintained} (hnow : system.now ≤ after.now) (hntas : after.ntas = system.ntas)
    (hinstalled : after.installed = system.installed) (hvalidated : after.validated = system.validated) : after.Kept := by
  intro nta hnta hforce
  rw [hinstalled] at hnta
  rw [hntas, hvalidated]
  exact h nta hnta (Nat.lt_of_le_of_lt hnow hforce)

theorem kept_lift_iff (hsound : system.Sound) (h : system.Kept) {now : Nat} {nta : Nta} {rest : List Nta}
    (hround : system.round = .rechecking now nta rest) :
    (recheckNext { system with ntas := (liftNta system.ntas nta.name).2, validated := nta :: system.validated } now rest).Kept ↔
      system.FindsItsOwn (.recheck true) := by
  constructor
  · intro hkept begun other queue heq held hheld hname hforce
    cases hround.symm.trans heq
    by_contra hdiffer
    -- the anchor is gone, and nothing found that its zone validates
    have hinstalled := hsound.left.subset hheld
    rcases hkept held (by simpa using hinstalled) (by simpa using hforce) with ⟨found, hfound, hsame⟩ | ⟨-, done, hdone, hsame⟩
    · rw [recheckNext_ntas] at hfound
      obtain ⟨-, hother⟩ := (mem_liftNta hsound.oneEach).mp hfound
      rw [Name.same_trans (Nta.same_iff.mp hsame).1 hname] at hother
      cases hother
    · rw [recheckNext_validated] at hdone
      rcases List.mem_cons.mp hdone with rfl | hdone
      · exact hdiffer (Nta.same_symm hsame)
      · have hback := Nta.same_symm hsame
        rw [hsound.lifted done hdone held hheld] at hback
        cases hback
  · intro hown other hother hforce
    rw [recheckNext_installed] at hother
    rw [recheckNext_now] at hforce
    rw [recheckNext_ntas, recheckNext_validated]
    rcases h other hother hforce with ⟨held, hheld, hsame⟩ | ⟨hflag, done, hdone, hsame⟩
    · by_cases hname : held.name.same nta.name = true
      · -- the anchor is lifted, by its own recheck
        have hexpires := (Nta.same_iff.mp hsame).2.1
        have hself := hown now nta rest hround held hheld hname (hexpires ▸ hforce)
        have hdone : nta.same other = true := Nta.same_trans (Nta.same_symm hself) hsame
        exact .inr ⟨(Nta.same_iff.mp hdone).2.2 ▸ hsound.flagged now nta rest hround nta List.mem_cons_self,
          nta, List.mem_cons_self, hdone⟩
      · exact .inl ⟨held, (mem_liftNta hsound.oneEach).mpr ⟨hheld, Bool.eq_false_iff.mpr hname⟩, hsame⟩
    · exact .inr ⟨hflag, done, List.mem_cons_of_mem _ hdone, hsame⟩

/-- **A step loses an anchor only by lifting another than the one that was rechecked.** -/
theorem kept_step_iff (hsound : system.Sound) (hmay : system.May event) (h : system.Kept) :
    (system.step event).Kept ↔ system.FindsItsOwn event := by
  cases event with
  | wait later => exact ⟨fun _ => trivial, fun _ => h.keep hmay rfl rfl rfl⟩
  | install new => exact ⟨fun _ => trivial, fun _ nta hnta _ => .inl ⟨nta, hnta, Nta.same_self nta⟩⟩
  | expire reading =>
    refine ⟨fun _ => trivial, fun _ => ?_⟩
    simp only [Maintained.step]
    split
    · intro nta hnta hforce
      rcases h nta hnta hforce with ⟨held, hheld, hsame⟩ | hdone
      · -- what lapsed at an earlier reading is not in force now
        obtain ⟨-, hexpires, -⟩ := Nta.same_iff.mp hsame
        have hlater : reading < held.expires := hexpires ▸ Nat.lt_of_le_of_lt hmay hforce
        exact .inl ⟨held, mem_expireNtas.mpr ⟨hheld, hlater⟩, hsame⟩
      · exact .inr hdone
    · exact h
  | snapshot =>
    refine ⟨fun _ => trivial, fun _ => ?_⟩
    simp only [Maintained.step]
    split
    · exact h.keep (by simp) (by simp) (by simp) (by simp)
    · exact h
  | sleep =>
    refine ⟨fun _ => trivial, fun _ => ?_⟩
    simp only [Maintained.step]
    split
    · exact h.keep (Nat.le_refl _) rfl rfl rfl
    · exact h
  | recheck validates =>
    simp only [Maintained.step]
    split
    · next now nta rest hround =>
      cases validates with
      | false => exact ⟨fun _ => trivial, fun _ => h.keep (by simp) (by simp) (by simp) (by simp)⟩
      | true => exact kept_lift_iff hsound h hround
    · next hnot =>
      refine ⟨fun _ => ?_, fun _ => h⟩
      cases validates with
      | false => trivial
      | true => exact fun now nta rest hround => absurd hround (hnot now nta rest)

theorem kept_of_load (now : Nat) (new : List Nta) : Kept ⟨now, new, .sleeping, [], new, []⟩ :=
  fun nta hnta _ => .inl ⟨nta, hnta, Nta.same_self nta⟩

/-- **Only its own recheck lifts an anchor**: of a run, at every point of it, exactly where no recheck that
finds its zone to validate finds another anchor of that name in the set. -/
theorem kept_iff (trace : List (MaintainerEvent × Maintained)) (system : Maintained) (hran : Ran trace system) :
    (∀ entry ∈ trace, (entry.2.step entry.1).Kept) ↔ ∀ entry ∈ trace, entry.2.FindsItsOwn entry.1 := by
  have hboth : ((∀ entry ∈ trace, (entry.2.step entry.1).Kept) ↔ ∀ entry ∈ trace, entry.2.FindsItsOwn entry.1) ∧
      ((∀ entry ∈ trace, (entry.2.step entry.1).Kept) → system.Kept) := by
    induction hran with
    | start now hload => exact ⟨⟨fun _ _ h => (by cases h), fun _ _ h => (by cases h)⟩, fun _ => kept_of_load now _⟩
    | @step trace system event hran hmay ih =>
      rw [List.forall_mem_cons, List.forall_mem_cons]
      refine ⟨?_, fun h => h.1⟩
      rw [← ih.1]
      constructor
      · rintro ⟨hkept, hbefore⟩
        exact ⟨(kept_step_iff (sound_of_ran hran) hmay (ih.2 hbefore)).mp hkept, hbefore⟩
      · rintro ⟨hown, hbefore⟩
        exact ⟨(kept_step_iff (sound_of_ran hran) hmay (ih.2 hbefore)).mpr hown, hbefore⟩
  exact hboth.1

def exName : Name := Zones.ex

def checkedNta : Nta := ⟨exName, 100, true⟩
def uncheckedNta : Nta := ⟨exName, 200, false⟩

def rechecked : Maintained := ((⟨0, [checkedNta], .sleeping, [], [checkedNta], []⟩ : Maintained).step (.expire 0)).step .snapshot

theorem ran_rechecked : ∃ trace, Ran trace rechecked ∧ ∀ entry ∈ trace, entry.2.FindsItsOwn entry.1 := by
  have hload : loadNtas [checkedNta] 0 = some [checkedNta] := rfl
  refine ⟨_, .step (.step (.start 0 hload) (Nat.le_refl 0)) trivial, ?_⟩
  exact List.forall_mem_cons.mpr ⟨trivial, List.forall_mem_cons.mpr ⟨trivial, fun _ h => by cases h⟩⟩

theorem round_rechecked : rechecked.round = .rechecking 0 checkedNta [] := rfl

/-- **An anchor written `norecheck` is lifted** by the recheck of the one that it took the place of. -/
theorem unchecked_lifted : ∃ trace system, Ran trace system ∧ uncheckedNta ∈ system.installed ∧
    uncheckedNta.recheck = false ∧ system.now < uncheckedNta.expires ∧ system.ntas = [] ∧ ¬system.Kept := by
  obtain ⟨trace, hran, -⟩ := ran_rechecked
  have hload : loadNtas [uncheckedNta] 0 = some [uncheckedNta] := rfl
  have hinstall : rechecked.May (.install [uncheckedNta]) := ⟨[uncheckedNta], 0, Nat.le_refl 0, hload⟩
  have hlift : (rechecked.step (.install [uncheckedNta])).May (.recheck true) := trivial
  have hlifted := (hran.step hinstall).step hlift
  have hgone : ((rechecked.step (.install [uncheckedNta])).step (.recheck true)).ntas = [] := rfl
  refine ⟨_, _, hlifted, List.mem_singleton_self _, rfl, (by decide : 0 < 200), hgone, fun hkept => ?_⟩
  rcases hkept uncheckedNta (List.mem_singleton_self _) (by decide : 0 < 200) with ⟨held, hheld, -⟩ | ⟨hflag, -⟩
  · rw [hgone] at hheld
    cases hheld
  · cases hflag

theorem kept_iff_rechecked : ∃ trace, Ran trace (rechecked.step (.recheck true)) ∧
    (rechecked.step (.recheck true)).ntas = [] ∧ ∀ entry ∈ trace, (entry.2.step entry.1).Kept := by
  obtain ⟨trace, hran, hown⟩ := ran_rechecked
  have hlift : rechecked.May (.recheck true) := trivial
  have hstep := hran.step hlift
  refine ⟨_, hstep, rfl, (kept_iff _ _ hstep).mpr (List.forall_mem_cons.mpr ⟨?_, hown⟩)⟩
  intro now nta rest hround held hheld _ _
  cases round_rechecked.symm.trans hround
  rw [List.mem_singleton.mp (show held ∈ [checkedNta] from hheld)]
  exact Nta.same_self _

end Maintained

end Rdns.Resolver
