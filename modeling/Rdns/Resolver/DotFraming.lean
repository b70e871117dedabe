import Mathlib.Logic.Relation
import Rdns.Resolver.DotConnection

/-!
# Rdns — What is written on a TLS connection

`DotClients::ask` and `Connection::send` in `rdns/src/resolver/dot.rs`: an exchange takes the writer's
lock and writes its query behind a length of two octets. The timeout drops the exchange wherever it
is, with the lock; nothing closes the connection then, which is closed for an error of the write and
for what the reader meets.

The stream takes some octets of a frame at a time, in order. After an error it takes no more.

Main results:

* `framed_of_uncut` — the stream stays framed.
* `Serves.step` — the line goes on as the pending table does.
-/

namespace Rdns.Resolver.Dot

open Rdns.Lib Rdns.Core

def framed (bytes : Octets) : Option Octets :=
  if bytes.length < 65536 then some (be16 (UInt16.ofNat bytes.length) ++ bytes) else none

structure Line where
  stream : Octets
  /-- Exchanges are given the connection until it is marked. -/
  closed : Bool
  /-- The writer is there. -/
  writer : Bool
  /-- A write has failed. -/
  broken : Bool
  queries : List Octets
  /-- The exchanges that wait for the lock. -/
  queued : List Nat
  /-- The exchange that holds the lock, and the octets of its frame that are written. -/
  holder : Option (Nat × Nat)
  /-- A frame was cut off by its timeout. -/
  abandoned : Bool
deriving DecidableEq

inductive LineAction where
  | ask (query : Octets)
  | acquire (exchange : Nat)
  | accept (octets : Nat)
  | flushed
  | fail
  | timeOut (exchange : Nat)
  | close
  | shut

namespace Line

def start : Line := ⟨[], false, true, false, [], [], none, false⟩

def frameOf (queries : List Octets) (exchange : Nat) : Option Octets := queries[exchange]?.bind framed

def midFrame (s : Line) (exchange : Nat) : Bool :=
  s.holder.any fun held => held.1 = exchange ∧ 0 < held.2 ∧ (frameOf s.queries exchange).any (held.2 < ·.length)

def step (s : Line) : LineAction → Option Line
  | .ask query =>
    if s.closed then none
    else some { s with queries := s.queries ++ [query], queued := s.queued ++ [s.queries.length] }
  | .acquire exchange =>
    if exchange ∉ s.queued then none
    else match frameOf s.queries exchange with
      | none => some { s with queued := s.queued.erase exchange }
      | some _ =>
        if s.holder.isSome then none
        else some { s with
          queued := s.queued.erase exchange
          holder := if s.writer then some (exchange, 0) else none }
  | .accept octets =>
    match s.holder with
    | none => none
    | some (exchange, written) =>
      match frameOf s.queries exchange with
      | none => none
      | some frame =>
        if s.broken ∨ frame.length < written + octets then none
        else some { s with
          stream := s.stream ++ (frame.drop written).take octets
          holder := some (exchange, written + octets) }
  | .flushed =>
    match s.holder with
    | none => none
    | some (exchange, written) =>
      if (frameOf s.queries exchange).map List.length = some written then some { s with holder := none } else none
  | .fail => if s.holder.isSome then some { s with holder := none, broken := true } else none
  | .timeOut exchange =>
    some { s with
      queued := s.queued.erase exchange
      holder := if s.holder.map Prod.fst = some exchange then none else s.holder
      abandoned := s.abandoned || s.midFrame exchange }
  | .close => some { s with closed := true }
  | .shut => if s.closed ∧ s.holder = none then some { s with writer := false } else none

def IsFrame (queries : List Octets) (frame : Octets) : Prop := ∃ query ∈ queries, framed query = some frame

def Framed (queries : List Octets) (stream : Octets) : Prop :=
  ∃ (frames : List Octets) (part : Octets), (∀ frame ∈ frames, IsFrame queries frame) ∧ stream = frames.flatten ++ part ∧
    (part = [] ∨ ∃ frame, IsFrame queries frame ∧ part <+: frame ∧ part.length < frame.length)

def Kept (s : Line) : Prop :=
  Framed s.queries s.stream ∧
    (s.abandoned = true → ∀ a s', s.step a = some s' → s'.stream = s.stream ∧ s'.queries = s.queries)

variable {s s' : Line} {queries : List Octets} {stream frame : Octets} {exchange : Nat}

theorem isFrame_of_frameOf (h : frameOf queries exchange = some frame) : IsFrame queries frame := by
  obtain ⟨query, hquery, hframe⟩ := Option.bind_eq_some_iff.mp h
  exact ⟨query, List.mem_of_getElem? hquery, hframe⟩

theorem IsFrame.append (h : IsFrame queries frame) (query : Octets) : IsFrame (queries ++ [query]) frame :=
  h.imp fun _ hasked => hasked.imp_left fun hmem => List.mem_append_left _ hmem

theorem frameOf_append (h : frameOf queries exchange = some frame) (query : Octets) :
    frameOf (queries ++ [query]) exchange = some frame := by
  obtain ⟨asked, hasked, hframed⟩ := Option.bind_eq_some_iff.mp h
  refine Option.bind_eq_some_iff.mpr ⟨asked, ?_, hframed⟩
  rw [List.getElem?_append_left (List.getElem?_eq_some_iff.mp hasked).1, hasked]

theorem Framed.append (h : Framed queries stream) (query : Octets) : Framed (queries ++ [query]) stream := by
  obtain ⟨frames, part, hframes, heq, hlast⟩ := h
  exact ⟨frames, part, fun f hf => (hframes f hf).append query, heq,
    hlast.imp_right fun ⟨frame, hlast⟩ => ⟨frame, hlast.1.append query, hlast.2⟩⟩

def part (queries : List Octets) : Option (Nat × Nat) → Octets
  | none => []
  | some (exchange, written) => ((frameOf queries exchange).getD []).take written

def Written (queries : List Octets) (stream : Octets) (holder : Option (Nat × Nat)) : Prop :=
  ∃ frames : List Octets, (∀ frame ∈ frames, IsFrame queries frame) ∧ stream = frames.flatten ++ part queries holder

/-- The stream is the frames that were written and what there is of the next; after an error it stays
framed. -/
structure Inv (s : Line) : Prop where
  uncut : s.abandoned = false
  held : ∀ exchange written, s.holder = some (exchange, written) →
    ∃ frame, frameOf s.queries exchange = some frame ∧ written ≤ frame.length
  whole : s.broken = false → Written s.queries s.stream s.holder
  dead : s.broken = true → Framed s.queries s.stream

theorem Written.release {written : Nat} (h : Written queries stream (some (exchange, written)))
    (hframe : frameOf queries exchange = some frame) (hends : written = 0 ∨ written = frame.length) :
    Written queries stream none := by
  obtain ⟨frames, hframes, heq⟩ := h
  rw [part, hframe, Option.getD_some] at heq
  rcases hends with rfl | rfl
  · exact ⟨frames, hframes, heq⟩
  · refine ⟨frames ++ [frame], fun f hf => ?_, by simpa [part] using heq⟩
    rcases List.mem_append.mp hf with hf | hf
    · exact hframes f hf
    · rw [List.mem_singleton.mp hf]
      exact isFrame_of_frameOf hframe

theorem Written.framed (h : Written queries stream none) : Framed queries stream :=
  h.imp fun _ ⟨hframes, heq⟩ => ⟨[], hframes, heq, .inl rfl⟩

theorem Inv.framed (h : s.Inv) : Framed s.queries s.stream := by
  cases hbroken : s.broken with
  | true => exact h.dead hbroken
  | false =>
    have hwritten := h.whole hbroken
    cases hholder : s.holder with
    | none => exact (hholder ▸ hwritten).framed
    | some held =>
      obtain ⟨exchange, written⟩ := held
      obtain ⟨frame, hframe, hle⟩ := h.held exchange written hholder
      rw [hholder] at hwritten
      rcases Nat.lt_or_eq_of_le hle with hlt | heq
      · obtain ⟨frames, hframes, hstream⟩ := hwritten
        rw [part, hframe, Option.getD_some] at hstream
        exact ⟨frames, _, hframes, hstream, .inr ⟨frame, isFrame_of_frameOf hframe, List.take_prefix _ _, by
          rw [List.length_take]
          omega⟩⟩
      · exact (hwritten.release hframe (.inr heq)).framed

theorem Inv.released (h : s.Inv) (hbroken : s.broken = false)
    (hends : ∀ exchange written frame, s.holder = some (exchange, written) → frameOf s.queries exchange = some frame →
      written = 0 ∨ written = frame.length) : Written s.queries s.stream none := by
  have hwritten := h.whole hbroken
  cases hholder : s.holder with
  | none => exact hholder ▸ hwritten
  | some held =>
    obtain ⟨exchange, written⟩ := held
    obtain ⟨frame, hframe, -⟩ := h.held exchange written hholder
    exact (hholder ▸ hwritten).release hframe (hends exchange written frame hholder hframe)

def Uncut (s : Line) (a : LineAction) : Prop := ∀ exchange, a = .timeOut exchange → s.midFrame exchange = false

theorem Inv.asked (h : s.Inv) (query : Octets) :
    Inv { s with queries := s.queries ++ [query], queued := s.queued ++ [s.queries.length] } := by
  refine ⟨h.uncut, fun exchange written hheld => ?_, fun hopen => ?_, fun hdead => (h.dead hdead).append query⟩
  · obtain ⟨frame, hframe, hle⟩ := h.held exchange written hheld
    exact ⟨frame, frameOf_append hframe query, hle⟩
  · obtain ⟨frames, hframes, heq⟩ := h.whole hopen
    refine ⟨frames, fun f hf => (hframes f hf).append query, heq.trans (congrArg (frames.flatten ++ ·) ?_)⟩
    dsimp only
    cases hholder : s.holder with
    | none => rfl
    | some held =>
      obtain ⟨exchange, written⟩ := held
      obtain ⟨frame, hframe, -⟩ := h.held exchange written hholder
      rw [part, part, hframe, frameOf_append hframe]

/-- **What one step does to the stream.** -/
theorem Inv.step {a : LineAction} (h : s.Inv) (huncut : s.Uncut a) (hstep : s.step a = some s') : s'.Inv := by
  cases a with
  | ask query =>
    rw [Line.step] at hstep
    split at hstep
    · cases hstep
    · cases hstep
      exact h.asked query
  | acquire exchange =>
    rw [Line.step] at hstep
    split at hstep
    · cases hstep
    split at hstep
    · cases hstep
      exact ⟨h.uncut, h.held, h.whole, h.dead⟩
    next frame hframe =>
    split at hstep
    · cases hstep
    next hfree =>
    cases hstep
    have hnone : s.holder = none := by simpa using hfree
    refine ⟨h.uncut, fun held written hheld => ?_, fun hopen => ?_, h.dead⟩
    · dsimp only at hheld
      split at hheld
      · cases hheld
        exact ⟨frame, hframe, Nat.zero_le _⟩
      · cases hheld
    · obtain ⟨frames, hframes, heq⟩ := h.whole hopen
      rw [hnone] at heq
      refine ⟨frames, hframes, heq.trans (congrArg (frames.flatten ++ ·) ?_)⟩
      dsimp only
      split
      · rw [part, part, List.take_zero]
      · rfl
  | accept octets =>
    rw [Line.step] at hstep
    split at hstep
    · cases hstep
    next exchange written hheld =>
    split at hstep
    · cases hstep
    next frame hframe =>
    split at hstep
    · cases hstep
    next hroom =>
    obtain ⟨hopen, hfits⟩ := not_or.mp hroom
    cases hstep
    refine ⟨h.uncut, fun held taken htaken => ?_, fun _ => ?_, fun hdead => absurd hdead hopen⟩
    · cases htaken
      exact ⟨frame, hframe, Nat.not_lt.mp hfits⟩
    · obtain ⟨frames, hframes, heq⟩ := h.whole (Bool.not_eq_true _ ▸ hopen)
      refine ⟨frames, hframes, ?_⟩
      dsimp only
      rw [heq, hheld, part, part, hframe, Option.getD_some, List.append_assoc, List.take_add]
  | flushed =>
    rw [Line.step] at hstep
    split at hstep
    · cases hstep
    next exchange written hheld =>
    split at hstep
    next hlen =>
      cases hstep
      refine ⟨h.uncut, fun _ _ hheld => (by cases hheld), fun hopen => h.released hopen ?_, h.dead⟩
      intro held taken frame htaken hframe
      cases hheld.symm.trans htaken
      rw [hframe] at hlen
      exact .inr (Option.some.inj hlen).symm
    next => cases hstep
  | fail =>
    rw [Line.step] at hstep
    split at hstep
    · cases hstep
      exact ⟨h.uncut, fun _ _ hheld => (by cases hheld), fun hopen => (by cases hopen), fun _ => h.framed⟩
    · cases hstep
  | timeOut exchange =>
    cases hstep
    have hmid := huncut exchange rfl
    have hkept : (s.abandoned || s.midFrame exchange) = false := by rw [h.uncut, hmid, Bool.or_self]
    by_cases hholds : s.holder.map Prod.fst = some exchange
    · rw [if_pos hholds]
      refine ⟨hkept, fun _ _ hheld => (by cases hheld), fun hopen => h.released hopen ?_, h.dead⟩
      intro held taken frame htaken hframe
      rw [htaken] at hholds
      obtain rfl : held = exchange := Option.some.inj hholds
      obtain ⟨found, hfound, hle⟩ := h.held held taken htaken
      cases hfound.symm.trans hframe
      rw [midFrame, htaken, Option.any_some, hframe, Option.any_some, decide_eq_false_iff_not, decide_eq_true_eq] at hmid
      by_contra hends
      exact hmid ⟨rfl, by omega, by omega⟩
    · rw [if_neg hholds]
      exact ⟨hkept, h.held, h.whole, h.dead⟩
  | close =>
    cases hstep
    exact ⟨h.uncut, h.held, h.whole, h.dead⟩
  | shut =>
    rw [Line.step] at hstep
    split at hstep
    · cases hstep
      exact ⟨h.uncut, h.held, h.whole, h.dead⟩
    · cases hstep

/-! ## The line and the pending table -/

/-- The line is that of the connection the system shares: it has the same exchanges, and is open to more
while the connection is. -/
structure Serves (system : System) (s : Line) : Prop where
  exchanges : system.exchanges.length = s.queries.length
  closed : system.conn.closed = s.closed

theorem quiet_of_step {a : LineAction} (hask : ∀ query, a ≠ .ask query) (hclose : a ≠ .close)
    (hstep : s.step a = some s') : s'.queries = s.queries ∧ s'.closed = s.closed := by
  cases a <;> grind [Line.step]

/-- **The line goes on as the system does**: an exchange that begins on it registers, where an ID is
free; it closes when the reader stops; and writing changes neither. -/
theorem Serves.step {system : System} {a : LineAction} (h : Serves system s)
    (hfree : ∃ id, system.conn.pending.get id = none) (hstops : a = .close → system.reader = .stopping)
    (hstep : s.step a = some s') :
    ∃ after, (after = system ∨ ∃ b, system.step b = some after) ∧ Serves after s' := by
  by_cases hclose : a = .close
  · subst hclose
    cases hstep
    refine ⟨_, .inr ⟨.close, by rw [System.step, if_pos (hstops rfl)]⟩, ?_, rfl⟩
    exact List.length_mapIdx.trans h.exchanges
  by_cases hask : ∃ query, a = .ask query
  · obtain ⟨query, rfl⟩ := hask
    obtain ⟨id, hid⟩ := hfree
    rw [Line.step] at hstep
    split at hstep
    case isTrue => cases hstep
    case isFalse hopen =>
      cases hstep
      have hnot : system.conn.closed = false := h.closed.trans (Bool.not_eq_true _ ▸ hopen)
      obtain ⟨after, hgo, hsame, hone⟩ : ∃ after, system.step (.register ⟨id, Name.root, .ANY, .in⟩ 0 []) = some after ∧
          after.conn.closed = system.conn.closed ∧ after.exchanges.length = system.exchanges.length + 1 := by
        rw [System.step, State.register, hnot, if_neg Bool.false_ne_true, List.take_nil, takeId, hid]
        exact ⟨_, rfl, rfl, List.length_append⟩
      refine ⟨after, .inr ⟨_, hgo⟩, ?_, hsame.trans h.closed⟩
      rw [hone, h.exchanges, List.length_append]
      rfl
  · obtain ⟨hqueries, hclosed⟩ := quiet_of_step (fun query ha => hask ⟨query, ha⟩) hclose hstep
    exact ⟨system, .inl rfl, h.exchanges.trans (congrArg List.length hqueries).symm, h.closed.trans hclosed.symm⟩

/-! ## Runs -/

/-- One step, of those that drop no exchange in the middle of its frame. -/
def UncutStep (s s' : Line) : Prop := ∃ a, s.Uncut a ∧ s.step a = some s'

/-- **The stream stays framed** in every run that drops no exchange in the middle of its frame. -/
theorem framed_of_uncut {s : Line} (h : Relation.ReflTransGen UncutStep start s) : s.Kept := by
  have hinv : s.Inv := by
    induction h with
    | refl =>
      exact ⟨rfl, fun _ _ hheld => (nomatch hheld), fun _ => ⟨[], fun _ hf => (nomatch hf), rfl⟩, fun hdead => (nomatch hdead)⟩
    | tail _ hlast ih =>
      obtain ⟨a, huncut, hstep⟩ := hlast
      exact ih.step huncut hstep
  exact ⟨hinv.framed, fun hcut => absurd (hinv.uncut.symm.trans hcut) nofun⟩

def plainQuery : Octets := List.replicate 12 0

theorem framed_of_uncut_half : ∃ s, [.ask plainQuery, .ask plainQuery, .timeOut 0, .acquire 1, .accept 7].foldlM
    Line.step start = some s ∧ s.Kept := by
  have hother : ∀ (s : Line) (a : LineAction), (∀ exchange, a ≠ .timeOut exchange) → s.Uncut a :=
    fun s a ha exchange heq => absurd heq (ha exchange)
  refine ⟨_, rfl, framed_of_uncut ?_⟩
  refine .tail (.tail (.tail (.tail (.single ⟨.ask plainQuery, hother _ _ nofun, rfl⟩)
    ⟨.ask plainQuery, hother _ _ nofun, rfl⟩) ⟨.timeOut 0, fun exchange heq => ?_, rfl⟩)
    ⟨.acquire 1, hother _ _ nofun, rfl⟩) ⟨.accept 7, hother _ _ nofun, rfl⟩
  cases heq
  rfl

def plainFrame : Octets := [0, 12] ++ plainQuery

theorem not_framed_cut : ¬ Framed [plainQuery, plainQuery] (0 :: plainFrame) := by
  rintro ⟨frames, part, hframes, hstream, hpart⟩
  have hone : ∀ frame, IsFrame [plainQuery, plainQuery] frame → frame = plainFrame := by
    rintro frame ⟨query, hquery, hframe⟩
    have hplain : query = plainQuery := by simpa using hquery
    rw [hplain] at hframe
    exact (Option.some.inj hframe).symm
  cases frames with
  | nil =>
    rcases hpart with rfl | ⟨frame, hframe, -, hlt⟩
    · cases hstream
    · rw [hone frame hframe, ← List.nil_append part, ← List.flatten_nil, ← hstream] at hlt
      exact absurd hlt (by decide)
  | cons first rest =>
    rw [hone first (hframes first List.mem_cons_self), List.flatten_cons, List.append_assoc] at hstream
    have hsecond : (0 :: plainFrame)[1]? = some 12 := by
      rw [hstream]
      rfl
    exact absurd hsecond (by decide)

theorem cutFrame : ∃ cut s, [.ask plainQuery, .acquire 0, .accept 1, .timeOut 0].foldlM Line.step start = some cut ∧
    cut.abandoned = true ∧
    [.ask plainQuery, .acquire 1, .accept 14, .flushed].foldlM Line.step cut = some s ∧ ¬ Framed s.queries s.stream :=
  ⟨_, _, rfl, rfl, rfl, not_framed_cut⟩

end Line

end Rdns.Resolver.Dot
