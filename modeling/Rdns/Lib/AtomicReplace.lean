import Mathlib.Data.List.Basic

/-!
# A file replaced by way of one temporary

Any number of writers of one process replace a file: each creates the temporary (truncating
it if it is there), writes its contents through the handle it got, and renames the temporary
over the file. The name of the temporary is the same for all of them, so two writers that
overlap hold one inode, and a rename takes it away from the other.
-/

namespace Rdns.Lib

/-! ## Writers and their steps -/

/-- How far a writer has come; the number is the inode its handle is open on. -/
inductive WriterPhase where
  | waiting
  | created (inode : Nat)
  | written (inode : Nat)
  | landed
  | failed
deriving DecidableEq

def WriterPhase.isOpen : WriterPhase → Bool
  | .created _ | .written _ => true
  | .waiting | .landed | .failed => false

structure Writer (α : Type) where
  contents : List α
  phase : WriterPhase

/-- The directory, the inodes, the writers in the order they joined, and those of them
that have renamed, in the order they did. -/
structure Replacing (α : Type) where
  temp : Option Nat
  target : Option Nat
  inodes : List (List α)
  writers : List (Writer α)
  landed : List Nat

inductive WriterStep where
  | create (writer : Nat)
  | write  (writer : Nat)
  | rename (writer : Nat)
  | fail   (writer : Nat)

namespace Replacing

variable {α : Type}

def contents (s : Replacing α) : Option (List α) := s.target.bind (s.inodes[·]?)

def join (s : Replacing α) (contents : List α) : Replacing α :=
  { s with writers := s.writers ++ [⟨contents, .waiting⟩] }

def setPhase (s : Replacing α) (i : Nat) (w : Writer α) (phase : WriterPhase) : Replacing α :=
  { s with writers := s.writers.set i { w with phase := phase } }

def create (s : Replacing α) (i : Nat) (w : Writer α) : Replacing α :=
  match s.temp with
  | some inode => { s with inodes := s.inodes.set inode [] }.setPhase i w (.created inode)
  | none =>
    { s with temp := some s.inodes.length, inodes := s.inodes ++ [[]] }.setPhase i w
      (.created s.inodes.length)

def write (s : Replacing α) (i : Nat) (w : Writer α) (inode : Nat) : Replacing α :=
  let old := (s.inodes[inode]?).getD []
  { s with inodes := s.inodes.set inode (w.contents ++ old.drop w.contents.length) }.setPhase i w
    (.written inode)

def rename (s : Replacing α) (i : Nat) (w : Writer α) : Replacing α :=
  match s.temp with
  | some inode =>
    { s with temp := none, target := some inode, landed := s.landed ++ [i] }.setPhase i w .landed
  | none => s.setPhase i w .failed

def advance (s : Replacing α) : WriterStep → Option (Replacing α)
  | .create i =>
    match s.writers[i]? with
    | some ⟨contents, .waiting⟩ => some (s.create i ⟨contents, .waiting⟩)
    | _ => none
  | .write i =>
    match s.writers[i]? with
    | some ⟨contents, .created inode⟩ => some (s.write i ⟨contents, .created inode⟩ inode)
    | _ => none
  | .rename i =>
    match s.writers[i]? with
    | some ⟨contents, .written inode⟩ => some (s.rename i ⟨contents, .written inode⟩)
    | _ => none
  | .fail i =>
    match s.writers[i]? with
    | some ⟨_, .landed⟩ | some ⟨_, .failed⟩ | none => none
    | some w => some ({ s with temp := none }.setPhase i w .failed)

inductive Runs (start : Replacing α) : Replacing α → Prop
  | start : Runs start start
  | join {s : Replacing α} (contents : List α) : Runs start s → Runs start (s.join contents)
  | advance {s s' : Replacing α} (step : WriterStep) :
      Runs start s → s.advance step = some s' → Runs start s'

/-! ## What a step does -/

/-- **Everything a step of a writer can do.** -/
inductive Advance (s : Replacing α) : Replacing α → Prop
  | truncate {i : Nat} {w : Writer α} {inode : Nat} (hw : s.writers[i]? = some w)
      (hphase : w.phase = .waiting) (htemp : s.temp = some inode) :
      Advance s ⟨some inode, s.target, s.inodes.set inode [],
        s.writers.set i { w with phase := .created inode }, s.landed⟩
  | create {i : Nat} {w : Writer α} (hw : s.writers[i]? = some w) (hphase : w.phase = .waiting)
      (htemp : s.temp = none) :
      Advance s ⟨some s.inodes.length, s.target, s.inodes ++ [[]],
        s.writers.set i { w with phase := .created s.inodes.length }, s.landed⟩
  | write {i : Nat} {w : Writer α} {inode : Nat} (hw : s.writers[i]? = some w)
      (hphase : w.phase = .created inode) :
      Advance s ⟨s.temp, s.target, s.inodes.set inode
          (w.contents ++ ((s.inodes[inode]?).getD []).drop w.contents.length),
        s.writers.set i { w with phase := .written inode }, s.landed⟩
  | rename {i : Nat} {w : Writer α} {inode temp : Nat} (hw : s.writers[i]? = some w)
      (hphase : w.phase = .written inode) (htemp : s.temp = some temp) :
      Advance s ⟨none, some temp, s.inodes, s.writers.set i { w with phase := .landed }, s.landed ++ [i]⟩
  | fail {i : Nat} {w : Writer α} (hw : s.writers[i]? = some w) :
      Advance s ⟨none, s.target, s.inodes, s.writers.set i { w with phase := .failed }, s.landed⟩

section Steps

variable {s s' : Replacing α}

theorem advance_spec {step : WriterStep} (h : s.advance step = some s') : Advance s s' := by
  cases step with
  | create i =>
    rw [advance] at h
    split at h
    next contents hw =>
      obtain rfl := Option.some.inj h
      rw [Replacing.create]
      split
      next htemp => rw [setPhase]; exact htemp ▸ .truncate hw rfl htemp
      next htemp => exact .create hw rfl htemp
    · cases h
  | write i =>
    rw [advance] at h
    split at h
    next contents inode hw =>
      obtain rfl := Option.some.inj h
      exact .write hw rfl
    · cases h
  | rename i =>
    rw [advance] at h
    split at h
    next contents inode hw =>
      obtain rfl := Option.some.inj h
      rw [Replacing.rename]
      split
      next htemp => exact .rename hw rfl htemp
      next htemp =>
        rw [setPhase, htemp]
        exact .fail hw
    · cases h
  | fail i =>
    rw [advance] at h
    split at h
    · cases h
    · cases h
    · cases h
    next hw =>
      obtain rfl := Option.some.inj h
      exact .fail hw

def openCount (writers : List (Writer α)) : Nat := writers.countP fun w => w.phase.isOpen

variable {i : Nat} {w : Writer α} {writers : List (Writer α)} {first : Option (List α)}

theorem openCount_set (hw : writers[i]? = some w) (phase : WriterPhase) :
    openCount (writers.set i { w with phase := phase }) + (if w.phase.isOpen then 1 else 0)
      = openCount writers + (if phase.isOpen then 1 else 0) := by
  obtain ⟨hi, hget⟩ := List.getElem?_eq_some_iff.mp hw
  have hset := @List.countP_set _ (fun w => w.phase.isOpen) writers i { w with phase := phase } hi
  rw [hget] at hset
  have hle : (if w.phase.isOpen = true then 1 else 0) ≤ openCount writers := by
    split
    next hopen => exact List.countP_pos_iff.mpr ⟨w, List.mem_of_getElem? hw, hopen⟩
    · exact Nat.zero_le _
  rw [openCount, hset]
  rw [openCount] at hle ⊢
  dsimp only
  omega

theorem eq_of_openCount (hcount : openCount writers ≤ 1) {j : Nat} {v : Writer α}
    (hw : writers[i]? = some w) (hv : writers[j]? = some v) (hwopen : w.phase.isOpen = true)
    (hvopen : v.phase.isOpen = true) : i = j := by
  by_contra hij
  have hclosed := openCount_set hw .failed
  have hstill : (writers.set i { w with phase := .failed })[j]? = some v := by
    rw [List.getElem?_set_ne hij]
    exact hv
  have hpos : 0 < openCount (writers.set i { w with phase := .failed }) :=
    List.countP_pos_iff.mpr ⟨v, List.mem_of_getElem? hstill, hvopen⟩
  rw [if_pos hwopen, if_neg (by decide)] at hclosed
  omega

theorem not_open_of_openCount (hcount : openCount writers = 0) (hw : writers[i]? = some w) :
    w.phase.isOpen = false := by
  by_contra hopen
  rw [Bool.not_eq_false] at hopen
  have hpos : 0 < openCount writers := List.countP_pos_iff.mpr ⟨w, List.mem_of_getElem? hw, hopen⟩
  omega

/-! ## No writer overlaps another -/

structure Clean (s : Replacing α) : Prop where
  no_failed : ∀ (i : Nat) (w : Writer α), s.writers[i]? = some w → w.phase ≠ .failed
  accounted : openCount s.writers ≤ if s.temp.isSome then 1 else 0

theorem no_failed_of_set {phase : WriterPhase} (hne : w.phase ≠ .failed) (hw : writers[i]? = some w)
    (h : ∀ (j : Nat) (v : Writer α), (writers.set i { w with phase := phase })[j]? = some v → v.phase ≠ .failed) :
    ∀ (j : Nat) (v : Writer α), writers[j]? = some v → v.phase ≠ .failed := by
  intro j v hv
  by_cases hij : i = j
  · subst hij
    rw [hw] at hv
    exact Option.some.inj hv ▸ hne
  · exact h j v (by rw [List.getElem?_set_ne hij]; exact hv)

theorem getElem?_set_self_of (hw : writers[i]? = some w) (v : Writer α) :
    (writers.set i v)[i]? = some v :=
  List.getElem?_set_self (List.getElem?_eq_some_iff.mp hw).1

/-- **No failure and no overlap now, none before.** The count of the open writers, less the
temporary, never goes down but by a failure. -/
theorem Clean.of_advance (h : Advance s s') (hclean : Clean s') : Clean s := by
  obtain ⟨hfailed, hopen⟩ := hclean
  cases h with
  | @truncate i w inode hw hphase htemp =>
    have hcount := openCount_set hw (.created inode)
    simp only [hphase, WriterPhase.isOpen, Bool.false_eq_true, if_false, if_true] at hcount
    simp only [Option.isSome_some, if_true] at hopen
    refine ⟨no_failed_of_set (by rw [hphase]; decide) hw hfailed, ?_⟩
    omega
  | @create i w hw hphase htemp =>
    have hcount := openCount_set hw (.created s.inodes.length)
    simp only [hphase, WriterPhase.isOpen, Bool.false_eq_true, if_false, if_true] at hcount
    simp only [Option.isSome_some, if_true] at hopen
    refine ⟨no_failed_of_set (by rw [hphase]; decide) hw hfailed, ?_⟩
    omega
  | @write i w inode hw hphase =>
    have hcount := openCount_set hw (.written inode)
    simp only [hphase, WriterPhase.isOpen, if_true] at hcount
    refine ⟨no_failed_of_set (by rw [hphase]; exact nofun) hw hfailed, ?_⟩
    dsimp only at hopen
    omega
  | @rename i w inode temp hw hphase htemp =>
    have hcount := openCount_set hw .landed
    simp only [hphase, WriterPhase.isOpen, Bool.false_eq_true, if_false, if_true] at hcount
    simp only [Option.isSome_none, Bool.false_eq_true, if_false] at hopen
    refine ⟨no_failed_of_set (by rw [hphase]; exact nofun) hw hfailed, ?_⟩
    rw [htemp, Option.isSome_some, if_pos rfl]
    omega
  | @fail i w hw => exact absurd rfl (hfailed i _ (getElem?_set_self_of hw _))

theorem Clean.of_join {contents : List α} (hclean : Clean (s.join contents)) : Clean s where
  no_failed i w hw := hclean.no_failed i w (by
    rw [join, List.getElem?_append_left (List.getElem?_eq_some_iff.mp hw).1]
    exact hw)
  accounted := by
    have hopen := hclean.accounted
    rw [join, openCount, List.countP_append] at hopen
    exact Nat.le_trans (Nat.le_add_right _ _) hopen

/-! ## What the file holds -/

def lastLanded (first : Option (List α)) (s : Replacing α) : Option (List α) :=
  match s.landed.getLast? with
  | none => first
  | some i => (s.writers[i]?).map Writer.contents

/-- The temporary is an inode of its own, held by the one writer that has it open, and the
file is as the last to land left it. -/
structure Exclusive (first : Option (List α)) (s : Replacing α) : Prop where
  temp_fresh : ∀ t, s.temp = some t → t < s.inodes.length ∧ s.target ≠ some t
  target_lt : ∀ t, s.target = some t → t < s.inodes.length
  landed_lt : ∀ i ∈ s.landed, i < s.writers.length
  created : ∀ (i : Nat) (w : Writer α) (inode : Nat), s.writers[i]? = some w →
    w.phase = .created inode →
    s.temp = some inode ∧ s.inodes[inode]? = some []
  written : ∀ (i : Nat) (w : Writer α) (inode : Nat), s.writers[i]? = some w →
    w.phase = .written inode →
    s.temp = some inode ∧ s.inodes[inode]? = some w.contents
  held : s.contents = lastLanded first s

/-- A disk no writer has joined yet: the file is there or is not, and so is a temporary that
an earlier process left behind. -/
structure Ready (s : Replacing α) : Prop where
  temp_fresh : ∀ t, s.temp = some t → t < s.inodes.length ∧ s.target ≠ some t
  target_lt : ∀ t, s.target = some t → t < s.inodes.length
  no_writers : s.writers = [] ∧ s.landed = []

theorem Ready.exclusive (h : Ready s) : Exclusive s.contents s where
  temp_fresh := h.temp_fresh
  target_lt := h.target_lt
  landed_lt i hi := by
    rw [h.no_writers.2] at hi
    cases hi
  created i w inode hw := by
    rw [h.no_writers.1] at hw
    cases hw
  written i w inode hw := by
    rw [h.no_writers.1] at hw
    cases hw
  held := by
    rw [lastLanded, h.no_writers.2]
    rfl

theorem getElem?_set_cases {j : Nat} {u v : Writer α} (h : (writers.set i u)[j]? = some v) :
    (i = j ∧ v = u) ∨ (i ≠ j ∧ writers[j]? = some v) := by
  by_cases hij : i = j
  · subst hij
    obtain ⟨hi, hget⟩ := List.getElem?_eq_some_iff.mp h
    rw [List.getElem_set_self] at hget
    exact .inl ⟨rfl, hget.symm⟩
  · rw [List.getElem?_set_ne hij] at h
    exact .inr ⟨hij, h⟩

theorem lastLanded_set (hw : s.writers[i]? = some w) (phase : WriterPhase)
    (temp target : Option Nat) (inodes : List (List α)) :
    lastLanded first ⟨temp, target, inodes, s.writers.set i { w with phase := phase }, s.landed⟩
      = lastLanded first s := by
  rw [lastLanded, lastLanded]
  dsimp only
  split
  · rfl
  next j _ => grind

theorem Exclusive.opened (h : Exclusive first s) {inode : Nat} (hw : s.writers[i]? = some w)
    (halone : openCount s.writers = 0) {inodes : List (List α)}
    (hlen : s.inodes.length ≤ inodes.length) (hinode : inodes[inode]? = some [])
    (hfresh : s.target ≠ some inode)
    (hkept : ∀ t, t ≠ inode → t < s.inodes.length → inodes[t]? = s.inodes[t]?) :
    Exclusive first ⟨some inode, s.target, inodes, s.writers.set i { w with phase := .created inode },
      s.landed⟩ where
  temp_fresh t ht := by
    obtain rfl := Option.some.inj ht
    exact ⟨(List.getElem?_eq_some_iff.mp hinode).1, hfresh⟩
  target_lt t ht := Nat.lt_of_lt_of_le (h.target_lt t ht) hlen
  landed_lt j hj := by
    rw [List.length_set]
    exact h.landed_lt j hj
  created j v k hv hphase := by
    rcases getElem?_set_cases hv with ⟨-, rfl⟩ | ⟨-, hv⟩
    · obtain rfl := WriterPhase.created.inj hphase
      exact ⟨rfl, hinode⟩
    · have hclosed := not_open_of_openCount halone hv
      rw [hphase] at hclosed
      cases hclosed
  written j v k hv hphase := by
    rcases getElem?_set_cases hv with ⟨-, rfl⟩ | ⟨-, hv⟩
    · cases hphase
    · have hclosed := not_open_of_openCount halone hv
      rw [hphase] at hclosed
      cases hclosed
  held := by
    rw [lastLanded_set hw, ← h.held, contents, contents]
    cases htarget : s.target with
    | none => rfl
    | some t => exact hkept t (fun heq => hfresh (by rw [htarget, heq])) (h.target_lt t htarget)

/-- **One step keeps the writers apart**, where nobody fails or overlaps. -/
theorem Exclusive.advance (h : Exclusive first s) (hstep : Advance s s') (hclean : Clean s') :
    Exclusive first s' := by
  have hbefore := Clean.of_advance hstep hclean
  have hcount1 : openCount s.writers ≤ 1 := Nat.le_trans hbefore.accounted (by split <;> decide)
  cases hstep with
  | @truncate i w inode hw hphase htemp =>
    have hcount := openCount_set hw (.created inode)
    simp only [hphase, WriterPhase.isOpen, Bool.false_eq_true, if_false, if_true] at hcount
    have hopen := hclean.accounted
    simp only [Option.isSome_some, if_true] at hopen
    obtain ⟨hlt, hfresh⟩ := h.temp_fresh inode htemp
    refine h.opened hw (by omega) (Nat.le_of_eq List.length_set.symm) ?_ hfresh fun t hne _ => ?_
    · exact List.getElem?_set_self hlt
    · exact List.getElem?_set_ne fun heq => hne heq.symm
  | @create i w hw hphase htemp =>
    have hcount := openCount_set hw (.created s.inodes.length)
    simp only [hphase, WriterPhase.isOpen, Bool.false_eq_true, if_false, if_true] at hcount
    have hopen := hclean.accounted
    simp only [Option.isSome_some, if_true] at hopen
    refine h.opened hw (by omega) (by rw [List.length_append]; omega) ?_ (fun htarget => ?_) fun t _ hlt => ?_
    · exact List.getElem?_concat_length
    · exact Nat.lt_irrefl _ (h.target_lt _ htarget)
    · exact List.getElem?_append_left hlt
  | @write i w inode hw hphase =>
    obtain ⟨htemp, hempty⟩ := h.created i w inode hw hphase
    obtain ⟨hlt, hfresh⟩ := h.temp_fresh inode htemp
    rw [hempty, Option.getD_some, List.drop_nil, List.append_nil]
    refine ⟨fun t ht => ?_, fun t ht => ?_, fun j hj => ?_, fun j v k hv hv' => ?_, fun j v k hv hv' => ?_, ?_⟩
    · rw [List.length_set]
      exact h.temp_fresh t ht
    · rw [List.length_set]
      exact h.target_lt t ht
    · rw [List.length_set]
      exact h.landed_lt j hj
    · rcases getElem?_set_cases hv with ⟨-, rfl⟩ | ⟨hij, hv⟩
      · cases hv'
      · exact absurd (eq_of_openCount hcount1 hw hv (by rw [hphase]; rfl) (by rw [hv']; rfl)) hij
    · rcases getElem?_set_cases hv with ⟨-, rfl⟩ | ⟨hij, hv⟩
      · obtain rfl := WriterPhase.written.inj hv'
        exact ⟨htemp, List.getElem?_set_self hlt⟩
      · exact absurd (eq_of_openCount hcount1 hw hv (by rw [hphase]; rfl) (by rw [hv']; rfl)) hij
    · rw [lastLanded_set hw, ← h.held, contents, contents]
      cases htarget : s.target with
      | none => rfl
      | some t => exact List.getElem?_set_ne fun heq => hfresh (by rw [htarget, heq])
  | @rename i w inode temp hw hphase htemp =>
    obtain ⟨hheld, hwritten⟩ := h.written i w inode hw hphase
    obtain rfl := Option.some.inj (htemp.symm.trans hheld)
    refine ⟨fun t ht => ?_, fun t ht => ?_, fun j hj => ?_, fun j v k hv hv' => ?_, fun j v k hv hv' => ?_, ?_⟩
    · cases ht
    · obtain rfl := Option.some.inj ht
      exact (h.temp_fresh _ htemp).1
    · rw [List.length_set]
      rcases List.mem_append.mp hj with hj | hj
      · exact h.landed_lt j hj
      · obtain rfl := List.mem_singleton.mp hj
        exact (List.getElem?_eq_some_iff.mp hw).1
    · rcases getElem?_set_cases hv with ⟨-, rfl⟩ | ⟨hij, hv⟩
      · cases hv'
      · exact absurd (eq_of_openCount hcount1 hw hv (by rw [hphase]; rfl) (by rw [hv']; rfl)) hij
    · rcases getElem?_set_cases hv with ⟨-, rfl⟩ | ⟨hij, hv⟩
      · cases hv'
      · exact absurd (eq_of_openCount hcount1 hw hv (by rw [hphase]; rfl) (by rw [hv']; rfl)) hij
    · rw [lastLanded]
      dsimp only
      rw [List.getLast?_concat]
      dsimp only
      rw [getElem?_set_self_of hw]
      exact hwritten
  | @fail i w hw => exact absurd rfl (hclean.no_failed i _ (getElem?_set_self_of hw _))

theorem Exclusive.join (h : Exclusive first s) (text : List α) : Exclusive first (s.join text) := by
  -- a writer of the longer list that has opened the temporary is one of the old
  have hold : ∀ (j : Nat) (v : Writer α), (s.join text).writers[j]? = some v → v.phase ≠ .waiting →
      s.writers[j]? = some v := by
    intro j v hv hne
    rw [Replacing.join] at hv
    rcases Nat.lt_or_ge j s.writers.length with hlt | hge
    · rwa [List.getElem?_append_left hlt] at hv
    · rw [List.getElem?_append_right hge] at hv
      have hv := List.mem_singleton.mp (List.mem_of_getElem? hv)
      rw [hv] at hne
      exact absurd rfl hne
  refine ⟨h.temp_fresh, h.target_lt, fun j hj => ?_, fun j v k hv hphase => ?_, fun j v k hv hphase => ?_, ?_⟩
  · rw [Replacing.join, List.length_append]
    exact Nat.lt_add_right _ (h.landed_lt j hj)
  · exact h.created j v k (hold j v hv (by rw [hphase]; exact nofun)) hphase
  · exact h.written j v k (hold j v hv (by rw [hphase]; exact nofun)) hphase
  · show s.contents = _
    rw [h.held, lastLanded, lastLanded, Replacing.join]
    dsimp only
    split
    · rfl
    next i hi => rw [List.getElem?_append_left (h.landed_lt i (List.mem_of_getLast? hi))]

end Steps

/-- **A writer that has landed is on record.** -/
theorem mem_landed {start s : Replacing α} (hready : Ready start) (hrun : Runs start s) {i : Nat}
    {w : Writer α} (hw : s.writers[i]? = some w) (hphase : w.phase = .landed) : i ∈ s.landed := by
  induction hrun generalizing i w with
  | start =>
    rw [hready.no_writers.1] at hw
    cases hw
  | @join s text _ ih =>
    rw [Replacing.join] at hw
    rcases Nat.lt_or_ge i s.writers.length with hlt | hge
    · rw [List.getElem?_append_left hlt] at hw
      exact ih hw hphase
    · rw [List.getElem?_append_right hge] at hw
      rw [List.mem_singleton.mp (List.mem_of_getElem? hw)] at hphase
      cases hphase
  | advance step _ hstep ih =>
    cases advance_spec hstep with
    | truncate _ _ _ | create _ _ _ | write _ _ | fail _ =>
      rcases getElem?_set_cases hw with ⟨-, rfl⟩ | ⟨-, hw⟩
      · cases hphase
      · exact ih hw hphase
    | rename _ _ _ =>
      rcases getElem?_set_cases hw with ⟨rfl, -⟩ | ⟨-, hw⟩
      · exact List.mem_append_right _ List.mem_cons_self
      · exact List.mem_append_left _ (ih hw hphase)

/-- **Where every writer lands, none overlaps another and the file holds what the last of
them wrote**, in whatever order they joined and advanced. -/
theorem exclusive_of_landed {start s : Replacing α} (hready : Ready start) (hrun : Runs start s)
    (hlanded : ∀ w ∈ s.writers, w.phase = .landed) : Exclusive start.contents s := by
  have hexclusive : Clean s → Exclusive start.contents s := by
    clear hlanded
    induction hrun with
    | start => exact fun _ => hready.exclusive
    | join text _ ih => exact fun hclean => (ih hclean.of_join).join text
    | advance step _ hstep ih =>
      intro hclean
      have hspec := advance_spec hstep
      exact (ih (Clean.of_advance hspec hclean)).advance hspec hclean
  refine hexclusive ⟨fun i w hw => ?_, ?_⟩
  · rw [hlanded w (List.mem_of_getElem? hw)]
    exact nofun
  · have hnone : openCount s.writers = 0 := by
      refine List.countP_eq_zero.mpr fun w hw => ?_
      rw [hlanded w hw]
      exact nofun
    rw [hnone]
    exact Nat.zero_le _

end Replacing

end Rdns.Lib
