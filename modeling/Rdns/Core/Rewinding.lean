import Rdns.Core.NameLedger

/-!
# Rdns — Writing, rewinding, and writing over it

A message is written front to back, until it is too long: then the writer goes
back to where something began and goes on from there (`ResponseWriter::truncate`).
The compressor is told (`rewind`), and drops the suffixes past the mark; the octets
of their names stay in the arena, and octets of theirs may still stand in the
buffer. A write that failed has left suffixes for octets it never wrote, so after
one there is only the way back.

`Session.step` is one call, `Reached` is every state a run of calls leads to.
-/

namespace Rdns.Core

open Rdns.Lib

/-! ## Runs -/

inductive Op where
  | writeName (name : Name)
  | writeRdata (rtype : Rtype) (rdata : Octets)
  | rewind (mark : Nat)

def Op.octets : Op → Nat
  | .writeName name => name.wire.length
  | .writeRdata _ rdata => rdata.length
  | .rewind _ => 0

/-- A message being written: where the next write starts, if the last one ended, and
the boundaries there is a way back to. -/
structure Session where
  sink : Sink Ledger
  pos : Option Nat
  marks : List Nat

def Session.start (buf : Octets) (pos : Nat) : Session :=
  ⟨⟨⟨NameCompressor.new, []⟩, buf⟩, some pos, [pos]⟩

def Session.write (s : Session) (w : Nat → LedgerM Nat) : Option Session :=
  match s.pos with
  | none => none
  | some pos =>
    match exec (w pos) s.sink with
    | (.ok stop, sink) => some ⟨sink, some stop, stop :: s.marks⟩
    | (.error _, sink) => some ⟨sink, none, s.marks⟩

def Session.step (s : Session) : Op → Option Session
  | .writeName name => s.write (Ledger.writeName name)
  | .writeRdata rtype rdata => s.write (Ledger.writeRdata rtype rdata)
  | .rewind mark =>
    if mark ∈ s.marks then
      some ⟨⟨s.sink.state.rewind mark, s.sink.buf⟩, some mark, s.marks.filter (· ≤ mark)⟩
    else none

/-- The states a run of calls leads to, each call made where `may` lets it. -/
inductive Reached (may : Session → Op → Prop) (buf : Octets) (pos : Nat) : Session → Prop
  | start : Reached may buf pos (Session.start buf pos)
  | step {s s' : Session} {op : Op} (reached : Reached may buf pos s) (allowed : may s op)
      (taken : s.step op = some s') : Reached may buf pos s'

def WithinArena (s : Session) (op : Op) : Prop :=
  s.sink.state.table.arena.length + op.octets < 2 ^ 32

def Session.NamesReadBack (s : Session) : Prop :=
  (∀ w ∈ s.sink.state.names, w.ReadsBack s.sink.buf) ∧
    ∀ e ∈ s.sink.state.table.index, e.2 < s.sink.state.table.seen.length

/-! ## Rewinding -/

theorem takeWhile_eq_filter_below {α : Type} {key : α → Nat} {l : List α}
    (h : l.Pairwise fun a b => key a < key b) (mark : Nat) :
    (l.takeWhile fun a => key a < mark) = l.filter fun a => key a < mark := by
  induction l with
  | nil => rfl
  | cons a rest ih =>
    obtain ⟨hhead, hrest⟩ := List.pairwise_cons.mp h
    by_cases hlt : key a < mark
    · rw [List.takeWhile_cons_of_pos (by simpa using hlt),
        List.filter_cons_of_pos (by simpa using hlt), ih hrest]
    · have hnone : (rest.filter fun a => key a < mark) = [] := by
        refine List.filter_eq_nil_iff.mpr fun b hmem => ?_
        have := hhead b hmem
        simp only [decide_eq_true_eq]
        omega
      rw [List.takeWhile_cons_of_neg (by simpa using hlt),
        List.filter_cons_of_neg (by simpa using hlt), hnone]

namespace NameCompressor

/-- **A rewind keeps exactly the suffixes below the mark**, and the arena. -/
theorem rewind_below {c : NameCompressor} (h : c.Kept) (mark : Nat) :
    (c.rewind mark).seen = (c.below mark).seen ∧ (c.rewind mark).arena = c.arena := by
  have hcut : c.seen.take (c.seen.takeWhile fun s => s.offset.toNat < mark).length
      = c.seen.filter fun s => s.offset.toNat < mark := by
    rw [← takeWhile_eq_filter_below h.ordered mark]
    exact (List.prefix_iff_eq_take.mp (List.takeWhile_prefix _)).symm
  unfold rewind
  simp only
  split
  · rename_i hall
    rw [hall, List.take_length] at hcut
    exact ⟨hcut, rfl⟩
  · exact ⟨hcut, rfl⟩

theorem Kept.rewind {c : NameCompressor} (h : c.Kept) (mark : Nat) : (c.rewind mark).Kept := by
  refine ⟨?_, ?_⟩
  · rw [(rewind_below h mark).1]
    exact h.ordered.filter _
  · unfold NameCompressor.rewind
    simp only
    split
    · exact h.indexed
    · intro e hmem
      have hlt := of_decide_eq_true (List.mem_filter.mp hmem).2
      have hle : (c.seen.takeWhile fun s => s.offset.toNat < mark).length ≤ c.seen.length :=
        (List.takeWhile_prefix _).length_le
      rw [List.length_take]
      omega

end NameCompressor

variable {buf : Octets} {s : Session}

/-- **Back at a sound mark, writing can go on.** -/
theorem SoundBelow.rewind {s : Ledger} {mark : Nat} (h : SoundBelow ⟨s, buf⟩ mark)
    (hkept : s.table.Kept) : Ready ⟨s.rewind mark, buf⟩ mark := by
  obtain ⟨hseen, harena⟩ := NameCompressor.rewind_below hkept mark
  refine ⟨hkept.rewind mark, ?_, fun w hmem => ?_⟩
  · obtain ⟨depth, htable⟩ := h.table
    have hsubset : (s.table.rewind mark).seen ⊆ (s.table.below mark).seen :=
      fun entry hmem => hseen ▸ hmem
    exact ⟨depth, htable.of_subset hsubset ⟨[], by rw [List.append_nil]; exact harena.symm⟩⟩
  · obtain ⟨hmem, hlt⟩ := List.mem_filter.mp hmem
    exact h.names w hmem (of_decide_eq_true hlt)

theorem SoundBelow.rewind_earlier {s : Ledger} {mark earlier : Nat}
    (h : SoundBelow ⟨s, buf⟩ earlier) (hkept : s.table.Kept) :
    SoundBelow ⟨s.rewind mark, buf⟩ earlier := by
  obtain ⟨hseen, harena⟩ := NameCompressor.rewind_below hkept mark
  refine ⟨?_, fun w hmem hlt => h.names w (List.mem_filter.mp hmem).1 hlt⟩
  obtain ⟨depth, htable⟩ := h.table
  have hsubset : ((s.table.rewind mark).below earlier).seen ⊆ (s.table.below earlier).seen := by
    intro entry hmem
    obtain ⟨hmem, hlt⟩ := List.mem_filter.mp hmem
    rw [hseen] at hmem
    exact List.mem_filter.mpr ⟨(List.mem_filter.mp hmem).1, hlt⟩
  exact ⟨depth, htable.of_subset hsubset ⟨[], by rw [List.append_nil]; exact harena.symm⟩⟩

/-! ## The invariant -/

/-- What every state of a run keeps: the boundaries are sound, and the last of them is
where the next write starts. -/
structure Session.Sound (s : Session) : Prop where
  kept : s.sink.state.table.Kept
  reads : ∀ w ∈ s.sink.state.names, w.ReadsBack s.sink.buf
  marks : ∀ mark ∈ s.marks, SoundBelow s.sink mark
  ready : ∀ pos, s.pos = some pos → Ready s.sink pos ∧ ∀ mark ∈ s.marks, mark ≤ pos

theorem Session.Sound.start (buf : Octets) (pos : Nat) : (Session.start buf pos).Sound := by
  have hready : Ready (Session.start buf pos).sink pos :=
    ⟨⟨.nil, by rintro e ⟨⟩⟩, ⟨fun _ => 0, tableOk_new _ _ _⟩, by rintro w ⟨⟩⟩
  refine ⟨hready.kept, hready.reads, fun mark hmem => ?_, ?_⟩
  · rw [List.mem_singleton.mp hmem]
    exact hready.soundBelow
  · rintro _ ⟨rfl⟩
    exact ⟨hready, fun mark hmem => (List.mem_singleton.mp hmem).le⟩

theorem Session.Sound.write {s' : Session} {room : Nat} {w : Nat → LedgerM Nat} (h : s.Sound)
    (hw : Writes room w) (hroom : s.sink.state.table.arena.length + room < 2 ^ 32)
    (hstep : s.write w = some s') : s'.Sound := by
  unfold Session.write at hstep
  cases hpos : s.pos with
  | none =>
    rw [hpos] at hstep
    cases hstep
  | some pos =>
    obtain ⟨hready, hmarks⟩ := h.ready pos hpos
    rw [hpos] at hstep
    simp only at hstep
    rcases hw hready hroom with ⟨stop, after, hexec, hle, honward, hafter⟩ | ⟨e, after, hexec, honward⟩
    · rw [hexec] at hstep
      cases hstep
      refine ⟨hafter.kept, hafter.reads, fun mark hmem => ?_, ?_⟩
      · rcases List.mem_cons.mp hmem with rfl | hmem
        · exact hafter.soundBelow
        · exact (h.marks mark hmem).onward (hmarks mark hmem) honward
      · grind
    · rw [hexec] at hstep
      cases hstep
      exact ⟨honward.kept, honward.reads,
        fun mark hmem => (h.marks mark hmem).onward (hmarks mark hmem) honward, by rintro _ ⟨⟩⟩

/-- **One call keeps the invariant.** -/
theorem Session.Sound.step {s' : Session} {op : Op} (h : s.Sound) (hroom : WithinArena s op)
    (hstep : s.step op = some s') : s'.Sound := by
  cases op with
  | writeName name => exact h.write (writeName_writes name) hroom hstep
  | writeRdata rtype rdata => exact h.write (writeRdata_writes rtype rdata) hroom hstep
  | rewind mark =>
    unfold Session.step at hstep
    simp only at hstep
    split at hstep
    · rename_i hmem
      cases hstep
      have hready := (h.marks mark hmem).rewind h.kept
      refine ⟨hready.kept, hready.reads, fun earlier hearlier => ?_, ?_⟩
      · exact (h.marks earlier (List.mem_filter.mp hearlier).1).rewind_earlier h.kept
      · rintro _ ⟨rfl⟩
        exact ⟨hready, fun earlier hearlier => of_decide_eq_true (List.mem_filter.mp hearlier).2⟩
    · cases hstep

theorem Reached.sound {pos : Nat} (h : Reached WithinArena buf pos s) : s.Sound := by
  induction h with
  | start => exact Session.Sound.start buf pos
  | step _ allowed taken ih => exact ih.step allowed taken

/-- **In every state of a run that keeps its arena below 2³² octets, every name
written reads back**: its pointer, if it ends in one, leads backwards and within
reach, and following pointers spells the name again, up to case. -/
theorem names_read_back {buf : Octets} {pos : Nat} {s : Session}
    (h : Reached WithinArena buf pos s) : s.NamesReadBack :=
  ⟨h.sound.reads, h.sound.kept.indexed⟩

/-! ## Past 2³² octets of arena -/

def twoAs : Name := ⟨[[97, 97]], by decide, by decide⟩

def twoBs : Name := ⟨[[98, 98]], by decide, by decide⟩

def scratch : Octets := List.replicate 12 0 ++ [2, 97, 97, 0] ++ List.replicate 4 0

def idle (arena : Octets) : Session :=
  ⟨⟨⟨⟨arena, [], []⟩, []⟩, scratch⟩, some 12, [12]⟩

def leftovers (n : Nat) : Octets := (List.replicate n twoAs.wire).flatten

theorem leftovers_succ (n : Nat) : leftovers (n + 1) = leftovers n ++ twoAs.wire := by
  simp [leftovers, List.replicate_succ']

theorem leftovers_front (n : Nat) : ∃ more, leftovers (n + 1) = 2 :: 97 :: 97 :: 0 :: more :=
  ⟨leftovers n, rfl⟩

theorem length_leftovers (n : Nat) : (leftovers n).length = 4 * n := by
  induction n with
  | zero => rfl
  | succ n ih =>
    rw [leftovers_succ, List.length_append, ih]
    have : twoAs.wire.length = 4 := rfl
    omega

theorem idle_round (arena : Octets) :
    ∃ mid, (idle arena).step (.writeName twoAs) = some mid ∧
      mid.step (.rewind 12) = some (idle (arena ++ twoAs.wire)) :=
  ⟨_, rfl, rfl⟩

theorem reached_leftovers (n : Nat) :
    Reached (fun _ _ => True) scratch 12 (idle (leftovers n)) := by
  induction n with
  | zero => exact .start
  | succ n ih =>
    obtain ⟨mid, hwrite, hrewind⟩ := idle_round (leftovers n)
    rw [leftovers_succ]
    exact .step (.step ih trivial hwrite) trivial hrewind

def wroteBs (arena : Octets) (start stop : Nat) : Session :=
  ⟨⟨⟨⟨arena ++ twoBs.wire, [⟨start, stop, 12⟩], []⟩, [⟨12, 16, twoBs⟩]⟩,
    List.replicate 12 0 ++ [2, 98, 98, 0] ++ List.replicate 4 0⟩, some 16, [16, 12]⟩

def wroteAs (arena : Octets) : Session :=
  ⟨⟨⟨⟨arena ++ twoBs.wire, [⟨0, 4, 12⟩], []⟩, [⟨12, 16, twoBs⟩, ⟨16, 18, twoAs⟩]⟩,
    List.replicate 12 0 ++ [2, 98, 98, 0] ++ [192, 12] ++ List.replicate 2 0⟩, some 18, [18, 16, 12]⟩

theorem idle_writes_bs (arena : Octets) :
    (idle arena).step (.writeName twoBs)
      = some (wroteBs arena (asU32 arena.length) (asU32 (arena.length + 4))) := rfl

/-- `bb.` written again: a pointer. -/
def wroteTwice : Session :=
  ⟨⟨⟨⟨twoBs.wire, [⟨0, 4, 12⟩], []⟩, [⟨12, 16, twoBs⟩, ⟨16, 18, twoBs⟩]⟩,
    List.replicate 12 0 ++ [2, 98, 98, 0] ++ [192, 12] ++ List.replicate 2 0⟩, some 18, [18, 16, 12]⟩

/-- The pointer reads back, and so does `aa.` written in its place after a rewind. -/
theorem wroteTwice_reads_back : wroteTwice.NamesReadBack ∧
    ∃ mid s, wroteTwice.step (.rewind 16) = some mid ∧ mid.step (.writeName twoAs) = some s ∧
      s.NamesReadBack := by
  have hroom : WithinArena (Session.start scratch 12) (.writeName twoBs) := show 0 + 4 < 2 ^ 32 by decide
  have hmore : WithinArena (wroteBs [] 0 4) (.writeName twoBs) := show 4 + 4 < 2 ^ 32 by decide
  have htwice : Reached WithinArena scratch 12 wroteTwice :=
    .step (.step .start hroom (idle_writes_bs [])) hmore rfl
  refine ⟨names_read_back htwice, _, _, rfl, rfl, ?_⟩
  have hback := Reached.step htwice (show WithinArena wroteTwice (.rewind 16) from show 4 + 0 < 2 ^ 32 by decide)
    (show wroteTwice.step (.rewind 16) = some _ from rfl)
  refine names_read_back (Reached.step hback ?_ (show Session.step _ (.writeName twoAs) = some _ from rfl))
  exact show 4 + 4 < 2 ^ 32 by decide

/-- The first octets of the arena are those of `aa.`, so `bb.` is found for it. -/
theorem wroteBs_writes_as (more : Octets) :
    (wroteBs (2 :: 97 :: 97 :: 0 :: more) 0 4).step (.writeName twoAs)
      = some (wroteAs (2 :: 97 :: 97 :: 0 :: more)) := rfl

theorem wroteAs_spells_bs (arena : Octets) :
    Resolves (wroteAs arena).sink.buf 16 (labelsOctets [] ++ pointerOctets 12) twoBs.labels 1 :=
  .chained ⟨[0, 0], rfl⟩ (fun _ h => absurd h List.not_mem_nil) (by decide) (by decide)
    (.plain ⟨[192, 12, 0, 0], rfl⟩ twoBs.labels_ok)

/-- **Past 2³² octets the casts wrap**: a name is taken for the one that stood where
its octets are now said to be. -/
theorem arena_wraps :
    ¬ ∀ buf pos, 12 ≤ pos → ∀ s, Reached (fun _ _ => True) buf pos s → s.NamesReadBack := by
  intro h
  obtain ⟨n, hn⟩ : ∃ n, 4 * (n + 1) = 2 ^ 32 := ⟨2 ^ 30 - 1, by norm_num⟩
  have hlen : (leftovers (n + 1)).length = 2 ^ 32 := by rw [length_leftovers, hn]
  have hidle := reached_leftovers (n + 1)
  obtain ⟨more, hmore⟩ := leftovers_front n
  have hbs := idle_writes_bs (leftovers (n + 1))
  have hstart : asU32 (leftovers (n + 1)).length = 0 := by rw [hlen]; decide
  have hstop : asU32 ((leftovers (n + 1)).length + 4) = 4 := by rw [hlen]; decide
  rw [hstart, hstop] at hbs
  rw [hmore] at hbs hidle
  have hrun := Reached.step (Reached.step hidle trivial hbs) trivial (wroteBs_writes_as more)
  -- what is written down as `aa.` spells `bb.`
  obtain ⟨octets, hops, shown, -, -, hresolves, hsame⟩ :=
    (h _ _ (by decide) _ hrun).1 ⟨16, 18, twoAs⟩ (by simp [wroteAs])
  have hshown : shown = twoBs := Name.ext (hresolves.labels_unique (wroteAs_spells_bs _))
  rw [hshown] at hsame
  exact absurd hsame (by decide)

end Rdns.Core
