import Rdns.Lib.Blocks
import Rdns.Policy.PolicyZone

/-!
# Rdns — The longest prefix of an address

`IpIndex` of `rdns/src/rpz.rs` answers with one search of a table what the rules say of an address
one by one. The table is made by a sweep over the rules in address order: what is written below the
cursor is settled, and above it the innermost of the rules that are open and reach so far.
-/

namespace Rdns.Policy

open Rdns.Lib Rdns.Core

/-! ## What the rules say -/

def IpAddr.width : IpAddr → Nat
  | .v4 _ => 32
  | .v6 _ => 128

def IpAddr.value : IpAddr → Nat
  | .v4 ip => bigEndian ip.octets
  | .v6 ip => bigEndian ip.octets

def IpAddr.sameFamily : IpAddr → IpAddr → Bool
  | .v4 _, .v4 _ | .v6 _, .v6 _ => true
  | _, _ => false

def IpTrigger.prefixLength (rule : IpTrigger) : Nat := min rule.bits rule.addr.width

def IpTrigger.covers (rule : IpTrigger) (addr : IpAddr) : Bool :=
  rule.addr.sameFamily addr &&
    addr.value / 2 ^ (rule.addr.width - rule.prefixLength) == rule.addr.value / 2 ^ (rule.addr.width - rule.prefixLength)

structure LongestPrefix (rules : List IpTrigger) (addr : IpAddr) (place : Nat) (rule : IpTrigger) : Prop where
  listed : rules[place]? = some rule
  covers : rule.covers addr = true
  wins : ∀ other rival, rules[other]? = some rival → rival.covers addr = true →
    rival.prefixLength < rule.prefixLength ∨ rival.prefixLength = rule.prefixLength ∧ place ≤ other

structure Disjoint (spans : List Span) : Prop where
  proper : ∀ span ∈ spans, span.lo ≤ span.hi
  apart : spans.Pairwise fun a b => a.hi < b.lo

/-! ## Spans that are written -/

def Span.holds (span : Span) (x : Nat) : Bool := span.lo ≤ x && x ≤ span.hi

theorem Span.holds_iff {span : Span} {x : Nat} : span.holds x = true ↔ span.lo ≤ x ∧ x ≤ span.hi := by
  rw [Span.holds, Bool.and_eq_true, decide_eq_true_eq, decide_eq_true_eq]

def owned (spans : List Span) (x : Nat) : Option Nat := (spans.find? (·.holds x)).map Span.owner

def reaching (opened : List Span) (x : Nat) : Option Nat :=
  (opened.find? fun span => x ≤ span.hi).map Span.owner

def innermost (spans : List Span) (x : Nat) : Option Nat := owned spans.reverse x

/-- Spans written one behind the other, the last first, all of them below `bound`. -/
structure Laid (out : List Span) (bound : Nat) : Prop where
  proper : ∀ span ∈ out, span.lo ≤ span.hi ∧ span.hi < bound
  apart : out.Pairwise fun later earlier => earlier.hi < later.lo

section Written

variable {out opened rest : List Span} {span top : Span} {cursor bound lo hi owner x : Nat} {f : Nat → Option Nat}

theorem owned_cons : owned (span :: rest) x = if span.holds x then some span.owner else owned rest x := by
  rw [owned, List.find?_cons]
  cases span.holds x <;> rfl

theorem owned_eq_none (h : ∀ span ∈ out, span.holds x = false) : owned out x = none := by
  rw [owned, Option.map_eq_none_iff, List.find?_eq_none]
  intro span hspan
  rw [h span hspan]
  decide

theorem reaching_cons : reaching (top :: rest) x = if x ≤ top.hi then some top.owner else reaching rest x := by
  rw [reaching, List.find?_cons]
  by_cases hx : x ≤ top.hi
  · rw [if_pos hx, decide_eq_true hx]
    rfl
  · rw [if_neg hx, decide_eq_false hx]
    rfl

theorem Laid.mono (h : Laid out bound) (hle : bound ≤ lo) : Laid out lo :=
  ⟨fun span hspan => ⟨(h.proper span hspan).1, Nat.lt_of_lt_of_le (h.proper span hspan).2 hle⟩, h.apart⟩

theorem Laid.owned_of_le (h : Laid out bound) (hx : bound ≤ x) : owned out x = none := by
  refine owned_eq_none fun span hspan => ?_
  have hhi := (h.proper span hspan).2
  rw [Bool.eq_false_iff, Ne, Span.holds_iff]
  omega

/-- **A span more**, merged with the one before it where that is the same rule's and adjacent. -/
theorem Laid.emit (h : Laid out cursor) (hle : cursor ≤ hi) :
    Laid (emit cursor hi owner out) (hi + 1) ∧
      ∀ x, owned (emit cursor hi owner out) x = if cursor ≤ x ∧ x ≤ hi then some owner else owned out x := by
  cases out with
  | nil =>
    refine ⟨⟨?_, List.pairwise_singleton _ _⟩, fun x => ?_⟩
    · intro span hspan
      rw [Policy.emit, List.mem_singleton] at hspan
      subst hspan
      exact ⟨hle, Nat.lt_succ_self hi⟩
    · rw [Policy.emit, owned_cons]
      simp only [Span.holds_iff]
  | cons last rest =>
    obtain ⟨hlast, hrest⟩ := List.forall_mem_cons.mp h.proper
    obtain ⟨hbefore, hapart⟩ := List.pairwise_cons.mp h.apart
    rw [Policy.emit]
    split
    · next hmerge =>
      obtain ⟨howner, hnext⟩ := hmerge
      -- the span ends below the cursor, so the addition did not wrap
      have hadjacent : last.hi + 1 = cursor := by omega
      refine ⟨⟨List.forall_mem_cons.mpr ⟨⟨by dsimp only; omega, Nat.lt_succ_self hi⟩, fun span hspan => ?_⟩,
        List.pairwise_cons.mpr ⟨hbefore, hapart⟩⟩, fun x => ?_⟩
      · have := hrest span hspan
        omega
      · rw [owned_cons, owned_cons, Span.holds, Span.holds]
        simp only [Bool.and_eq_true, decide_eq_true_eq]
        by_cases hnew : cursor ≤ x ∧ x ≤ hi
        · rw [if_pos (by omega), if_pos hnew, howner]
        · grind
    · refine ⟨⟨List.forall_mem_cons.mpr ⟨⟨hle, Nat.lt_succ_self hi⟩, fun span hspan => ?_⟩,
        List.pairwise_cons.mpr ⟨fun span hspan => (h.proper span hspan).2, h.apart⟩⟩, fun x => ?_⟩
      · have := h.proper span hspan
        omega
      · rw [owned_cons]
        simp only [Span.holds_iff]

end Written

/-! ## The sweep -/

/-- What is written below the cursor is what `f` says, and so is what is open above it. -/
structure Sweep.Paints (sweep : Sweep) (f : Nat → Option Nat) : Prop where
  laid : Laid sweep.out sweep.cursor
  below : ∀ x, x < sweep.cursor → owned sweep.out x = f x
  above : ∀ x, sweep.cursor ≤ x → reaching sweep.opened x = f x
  nested : sweep.opened.Pairwise fun inner outer => inner.hi ≤ outer.hi

section Steps

variable {out opened rest : List Span} {span top : Span} {cursor lo : Nat} {f : Nat → Option Nat}

/-- The innermost rule is written up to `hi`. -/
theorem Sweep.Paints.write (h : Sweep.Paints ⟨out, top :: rest, cursor⟩ f) {hi : Nat} (hle : cursor ≤ hi)
    (htop : hi ≤ top.hi) : Sweep.Paints ⟨emit cursor hi top.owner out, top :: rest, hi + 1⟩ f := by
  obtain ⟨hlaid, howned⟩ := @Laid.emit out cursor hi top.owner h.laid hle
  refine ⟨hlaid, fun x hx => ?_, fun x hx => h.above x ?_, h.nested⟩
  · dsimp only at hx ⊢
    rw [howned]
    by_cases hnew : cursor ≤ x
    · rw [if_pos ⟨hnew, by omega⟩, ← h.above x hnew, reaching_cons, if_pos (by omega)]
    · rw [if_neg (fun hin => hnew hin.1)]
      exact h.below x (by dsimp only; omega)
  · dsimp only at hx ⊢
    omega

theorem Sweep.Paints.close (h : Sweep.Paints ⟨out, top :: rest, cursor⟩ f) (htop : top.hi < cursor) :
    Sweep.Paints ⟨out, rest, cursor⟩ f := by
  refine ⟨h.laid, h.below, fun x hx => ?_, h.nested.of_cons⟩
  have habove := h.above x hx
  rw [reaching_cons, if_neg (by dsimp only at hx; omega)] at habove
  exact habove

/-- **The rules that end before `lo` are closed.** -/
theorem closeBefore_paints (h : Sweep.Paints ⟨out, opened, cursor⟩ f) (hcursor : cursor ≤ lo) :
    (closeBefore lo out cursor opened).Paints f ∧ (closeBefore lo out cursor opened).cursor ≤ lo ∧
      ∀ span ∈ (closeBefore lo out cursor opened).opened, span ∈ opened ∧ lo ≤ span.hi := by
  induction opened generalizing out cursor with
  | nil => exact ⟨h, hcursor, fun span hspan => (by cases hspan)⟩
  | cons top rest ih =>
    rw [closeBefore]
    split
    · next hreach =>
      refine ⟨h, hcursor, List.forall_mem_cons.mpr ⟨⟨List.mem_cons_self, hreach⟩, fun span hspan => ?_⟩⟩
      exact ⟨List.mem_cons_of_mem _ hspan, Nat.le_trans hreach ((List.pairwise_cons.mp h.nested).1 span hspan)⟩
    · next hends =>
      rw [ge_iff_le, Nat.not_le] at hends
      split
      · next hopen =>
        obtain ⟨hpaints, hle, hkept⟩ := ih ((h.write hopen (le_refl _)).close (Nat.lt_succ_self _)) hends
        exact ⟨hpaints, hle, fun span hspan => ⟨List.mem_cons_of_mem _ (hkept span hspan).1, (hkept span hspan).2⟩⟩
      · next hpassed =>
        obtain ⟨hpaints, hle, hkept⟩ := ih (h.close (by omega)) hcursor
        exact ⟨hpaints, hle, fun span hspan => ⟨List.mem_cons_of_mem _ (hkept span hspan).1, (hkept span hspan).2⟩⟩

def Sweep.upTo (sweep : Sweep) (lo : Nat) : Sweep :=
  if sweep.cursor < lo then
    match sweep.opened with
    | top :: _ => ⟨emit sweep.cursor (lo - 1) top.owner sweep.out, sweep.opened, lo⟩
    | [] => ⟨sweep.out, [], lo⟩
  else sweep

theorem Sweep.enter_eq (sweep : Sweep) (span : Span) :
    sweep.enter span =
      let reached := (closeBefore span.lo sweep.out sweep.cursor sweep.opened).upTo span.lo
      { reached with opened := span :: reached.opened } := rfl

theorem Sweep.Paints.upTo {sweep : Sweep} (h : sweep.Paints f) (hle : sweep.cursor ≤ lo)
    (hreach : ∀ span ∈ sweep.opened, lo ≤ span.hi) :
    (sweep.upTo lo).Paints f ∧ (sweep.upTo lo).cursor = lo ∧ (sweep.upTo lo).opened = sweep.opened := by
  obtain ⟨out, opened, cursor⟩ := sweep
  dsimp only at hle hreach
  rw [Sweep.upTo]
  dsimp only
  split
  · next hlt =>
    cases opened with
    | nil =>
      refine ⟨⟨h.laid.mono hle, fun x hx => ?_, fun x hx => h.above x (Nat.le_trans hle hx), h.nested⟩, rfl, rfl⟩
      dsimp only at hx ⊢
      by_cases hbelow : x < cursor
      · exact h.below x hbelow
      · rw [Nat.not_lt] at hbelow
        rw [← h.above x hbelow]
        exact h.laid.owned_of_le hbelow
    | cons top rest =>
      have htop := hreach top List.mem_cons_self
      have hwritten := h.write (show cursor ≤ lo - 1 by omega) (by omega)
      rw [show lo - 1 + 1 = lo by omega] at hwritten
      exact ⟨hwritten, rfl, rfl⟩
  · next hnot => exact ⟨h, by dsimp only; omega, rfl⟩

/-- **A rule more**: it says what it holds, and for the rest it is as before. -/
theorem Sweep.Paints.enter {sweep : Sweep} (h : sweep.Paints f) (hcursor : sweep.cursor ≤ span.lo)
    (hinner : ∀ outer ∈ sweep.opened, span.lo ≤ outer.hi → span.hi ≤ outer.hi) :
    (sweep.enter span).Paints (fun x => if span.holds x then some span.owner else f x) ∧
      (sweep.enter span).cursor = span.lo ∧ ∀ other ∈ (sweep.enter span).opened, other = span ∨ other ∈ sweep.opened := by
  obtain ⟨hclosed, hle, hkept⟩ := closeBefore_paints h hcursor
  obtain ⟨hreached, hat, hopened⟩ := hclosed.upTo hle fun outer houter => (hkept outer houter).2
  rw [Sweep.enter_eq]
  dsimp only
  refine ⟨⟨hreached.laid, fun x hx => ?_, fun x hx => ?_, List.pairwise_cons.mpr ⟨fun outer houter => ?_, hreached.nested⟩⟩,
    hat, List.forall_mem_cons.mpr ⟨.inl rfl, fun other hother => .inr ?_⟩⟩
  · have hnot : ¬ span.holds x = true := by
      rw [Span.holds_iff]
      dsimp only at hx
      omega
    rw [if_neg hnot]
    exact hreached.below x hx
  · dsimp only at hx ⊢
    rw [reaching_cons, hreached.above x hx]
    simp only [Span.holds_iff]
    by_cases hin : x ≤ span.hi
    · rw [if_pos hin, if_pos ⟨by omega, hin⟩]
    · rw [if_neg hin, if_neg (fun hboth => hin hboth.2)]
  · rw [hopened] at houter
    exact hinner outer (hkept outer houter).1 (hkept outer houter).2
  · rw [hopened] at hother
    exact (hkept other hother).1

/-- **What is still open is written**, up to the last address. -/
theorem closeAll_paints (h : Sweep.Paints ⟨out, opened, cursor⟩ f) :
    (∃ bound, Laid (closeAll out cursor opened) bound) ∧
      ∀ x ≤ ADDRESS_MAX, owned (closeAll out cursor opened) x = f x := by
  induction opened generalizing out cursor with
  | nil =>
    refine ⟨⟨cursor, h.laid⟩, fun x _ => ?_⟩
    by_cases hbelow : x < cursor
    · exact h.below x hbelow
    · rw [Nat.not_lt] at hbelow
      rw [← h.above x hbelow]
      exact h.laid.owned_of_le hbelow
  | cons top rest ih =>
    rw [closeAll]
    split
    · next hopen =>
      have hwritten := h.write hopen (le_refl _)
      dsimp only
      split
      · next hlast => exact ⟨⟨_, hwritten.laid⟩, fun x hx => hwritten.below x (by dsimp only; omega)⟩
      · exact ih (hwritten.close (Nat.lt_succ_self _))
    · exact ih (h.close (by omega))

end Steps

/-! ## The spans of the rules -/

def Span.nestedOrApart (a b : Span) : Prop :=
  a.hi < b.lo ∨ b.hi < a.lo ∨ (b.lo ≤ a.lo ∧ a.hi ≤ b.hi) ∨ (a.lo ≤ b.lo ∧ b.hi ≤ a.hi)

section Flatten

variable {spans : List Span} {a b c span : Span} {x : Nat}

theorem before_iff : a.before b = true ↔ a.lo < b.lo ∨ a.lo = b.lo ∧ (b.hi < a.hi ∨ a.hi = b.hi ∧ b.owner ≤ a.owner) := by
  rw [Span.before]
  split
  · rw [decide_eq_true_eq]
    omega
  · grind

theorem before_trans (hab : a.before b = true) (hbc : b.before c = true) : a.before c = true := by
  rw [before_iff] at *
  omega

theorem before_total (a b : Span) : (a.before b || b.before a) = true := by
  rw [Bool.or_eq_true, before_iff, before_iff]
  omega

theorem before_antisymm (hab : a.before b = true) (hba : b.before a = true) : a = b := by
  rw [before_iff] at *
  obtain ⟨alo, ahi, aowner⟩ := a
  obtain ⟨blo, bhi, bowner⟩ := b
  rw [Span.mk.injEq]
  dsimp only at *
  omega

theorem hi_le_of_before (hbefore : a.before b = true) (hnested : a.nestedOrApart b) (hreach : b.lo ≤ a.hi)
    (hproper : b.lo ≤ b.hi) : b.hi ≤ a.hi := by
  rw [before_iff] at hbefore
  unfold Span.nestedOrApart at hnested
  omega

/-- **A whole sweep** over rules in its order. -/
theorem foldl_enter_paints (hsorted : spans.Pairwise fun a b => a.before b = true)
    (hproper : ∀ span ∈ spans, span.lo ≤ span.hi) (hnested : ∀ a ∈ spans, ∀ b ∈ spans, a.nestedOrApart b) :
    (spans.foldl Sweep.enter ⟨[], [], 0⟩).Paints (innermost spans) ∧
      (∀ span ∈ (spans.foldl Sweep.enter ⟨[], [], 0⟩).opened, span ∈ spans) ∧
        ∀ next, (∀ span ∈ spans, span.before next = true) → (spans.foldl Sweep.enter ⟨[], [], 0⟩).cursor ≤ next.lo := by
  induction spans using List.reverseRecOn with
  | nil =>
    refine ⟨⟨⟨fun _ h => (by cases h), List.Pairwise.nil⟩, fun x hx => absurd hx (Nat.not_lt_zero x), fun _ _ => rfl,
      List.Pairwise.nil⟩, fun _ h => (by cases h), fun _ _ => Nat.zero_le _⟩
  | append_singleton front last ih =>
    obtain ⟨hfront, -, hcross⟩ := List.pairwise_append.mp hsorted
    have hmem : ∀ {span : Span}, span ∈ front → span ∈ front ++ [last] := fun h => List.mem_append_left _ h
    have hlast : last ∈ front ++ [last] := List.mem_append_right _ (List.mem_singleton_self last)
    have hearlier : ∀ span ∈ front, span.before last = true := fun span hspan =>
      hcross span hspan last (List.mem_singleton_self last)
    obtain ⟨hpaints, hopened, hcursor⟩ := ih hfront (fun span hspan => hproper span (hmem hspan))
      fun a ha b hb => hnested a (hmem ha) b (hmem hb)
    obtain ⟨hentered, hat, hkept⟩ := hpaints.enter (hcursor last hearlier) fun outer houter hreach =>
      hi_le_of_before (hearlier outer (hopened outer houter)) (hnested outer (hmem (hopened outer houter)) last hlast)
        hreach (hproper last hlast)
    rw [List.foldl_append, List.foldl_cons, List.foldl_nil]
    refine ⟨?_, fun span hspan => ?_, fun next hnext => ?_⟩
    · have hsame : innermost (front ++ [last]) = fun x => if last.holds x then some last.owner else innermost front x := by
        funext x
        rw [innermost, List.reverse_append, List.reverse_singleton, List.singleton_append, owned_cons, innermost]
      rw [hsame]
      exact hentered
    · grind
    · rw [hat]
      have hbefore := before_iff.mp (hnext last hlast)
      omega

theorem pairwise_mergeSort (spans : List Span) :
    (spans.mergeSort Span.before).Pairwise fun a b => a.before b = true :=
  @List.pairwise_mergeSort Span Span.before (fun _ _ _ hab hbc => before_trans hab hbc) before_total spans

/-- **The spans give an address to the innermost rule**, and do not touch each other. -/
theorem flatten_innermost (hproper : ∀ span ∈ spans, span.lo ≤ span.hi)
    (hnested : ∀ a ∈ spans, ∀ b ∈ spans, a.nestedOrApart b) :
    (∃ bound, Laid (flatten spans).reverse bound) ∧
      ∀ x ≤ ADDRESS_MAX, owned (flatten spans).reverse x = innermost (spans.mergeSort Span.before) x := by
  obtain ⟨hpaints, -, -⟩ := foldl_enter_paints (pairwise_mergeSort spans)
    (fun span hspan => hproper span (List.mem_mergeSort.mp hspan))
    fun a ha b hb => hnested a (List.mem_mergeSort.mp ha) b (List.mem_mergeSort.mp hb)
  rw [flatten, List.reverse_reverse]
  exact closeAll_paints hpaints

theorem innermost_eq_some {owner : Nat} : innermost (spans.mergeSort Span.before) x = some owner ↔
    ∃ span ∈ spans, span.holds x = true ∧ span.owner = owner ∧
      ∀ other ∈ spans, other.holds x = true → other.before span = true := by
  have hsorted := pairwise_mergeSort spans
  have hmem : ∀ span : Span, span ∈ spans.mergeSort Span.before ↔ span ∈ spans := fun _ => List.mem_mergeSort
  generalize spans.mergeSort Span.before = sorted at hsorted hmem
  rw [innermost, owned, Option.map_eq_some_iff]
  constructor
  · rintro ⟨span, hfind, howner⟩
    obtain ⟨hholds, after, before, hsplit, hnone⟩ := List.find?_eq_some_iff_append.mp hfind
    rw [List.reverse_eq_iff] at hsplit
    rw [hsplit] at hsorted hmem
    refine ⟨span, (hmem span).mp (by simp), hholds, howner, fun other hother hx => ?_⟩
    rw [List.reverse_append, List.reverse_cons, List.append_assoc] at hsorted hmem
    have hother' := (hmem other).mpr hother
    rw [List.mem_append, List.mem_append, List.mem_singleton] at hother'
    rcases hother' with hbefore | rfl | hafter
    · obtain ⟨-, -, hcross⟩ := List.pairwise_append.mp hsorted
      exact hcross other hbefore span (List.mem_append_left _ (List.mem_singleton_self span))
    · rw [before_iff]
      omega
    · have hnot := hnone other (List.mem_reverse.mp hafter)
      rw [hx] at hnot
      cases hnot
  · rintro ⟨span, hspan, hholds, howner, hlast⟩
    obtain ⟨found, hfound⟩ : ∃ found, sorted.reverse.find? (·.holds x) = some found :=
      Option.isSome_iff_exists.mp (List.find?_isSome.mpr ⟨span, List.mem_reverse.mpr ((hmem span).mpr hspan), hholds⟩)
    obtain ⟨hfoundHolds, after, before, hsplit, hnone⟩ := List.find?_eq_some_iff_append.mp hfound
    have hfoundMem := (hmem found).mp (List.mem_reverse.mp (List.mem_of_find?_eq_some hfound))
    rw [List.reverse_eq_iff] at hsplit
    rw [hsplit, List.reverse_append, List.reverse_cons, List.append_assoc] at hsorted hmem
    have hspan' := (hmem span).mpr hspan
    rw [List.mem_append, List.mem_append, List.mem_singleton] at hspan'
    refine ⟨found, hfound, ?_⟩
    rcases hspan' with hbefore | rfl | hafter
    · obtain ⟨-, -, hcross⟩ := List.pairwise_append.mp hsorted
      have hle := hcross span hbefore found (List.mem_append_left _ (List.mem_singleton_self found))
      rw [before_antisymm (hlast found hfoundMem hfoundHolds) hle]
      exact howner
    · exact howner
    · have hnot := hnone span (List.mem_reverse.mp hafter)
      rw [hholds] at hnot
      cases hnot

end Flatten

/-! ## The index -/

section Index

variable {rules : List IpTrigger} {rule rival : IpTrigger} {addr : IpAddr} {out : List Span} {bound x place other : Nat}

def familySpans (rules : List IpTrigger) (family : IpAddr) : List Span :=
  (rules.zipIdx.filter fun (rule, _) => rule.addr.sameFamily family).map fun (rule, owner) => rule.span owner

def IpIndex.table (index : IpIndex) : IpAddr → List Span
  | .v4 _ => index.v4
  | .v6 _ => index.v6

theorem table_new (rules : List IpTrigger) (addr : IpAddr) :
    (IpIndex.new rules).table addr = flatten (familySpans rules addr) := by
  rw [IpIndex.new, familySpans]
  cases addr with
  | v4 ip =>
    refine congrArg flatten ?_
    induction rules.zipIdx with
    | nil => rfl
    | cons first rest ih =>
      obtain ⟨⟨address, bits, owner⟩, index⟩ := first
      cases address with
      | v4 _ => exact congrArg (List.cons _) ih
      | v6 _ => exact ih
  | v6 ip =>
    refine congrArg flatten ?_
    induction rules.zipIdx with
    | nil => rfl
    | cons first rest ih =>
      obtain ⟨⟨address, bits, owner⟩, index⟩ := first
      cases address with
      | v4 _ => exact ih
      | v6 _ => exact congrArg (List.cons _) ih

theorem bigEndian_lt (octets : Octets) : bigEndian octets < 2 ^ (8 * octets.length) := by
  induction octets using List.reverseRecOn with
  | nil => decide
  | append_singleton front last ih =>
    rw [bigEndian, List.foldl_append, List.foldl_cons, List.foldl_nil, List.length_append, List.length_singleton,
      Nat.mul_add, Nat.pow_add]
    have hlast := last.toNat_lt
    rw [bigEndian] at ih
    omega

theorem IpAddr.value_lt (addr : IpAddr) : addr.value < 2 ^ addr.width := by
  cases addr with
  | v4 ip =>
    have h := bigEndian_lt ip.octets
    rwa [ip.length_ok] at h
  | v6 ip =>
    have h := bigEndian_lt ip.octets
    rwa [ip.length_ok] at h

theorem IpAddr.value_le (addr : IpAddr) : addr.value ≤ ADDRESS_MAX := by
  have h := addr.value_lt
  have hwidth : 2 ^ addr.width ≤ 2 ^ 128 := by
    cases addr with
    | v4 ip => exact Nat.pow_le_pow_right (by decide) (show 32 ≤ 128 by decide)
    | v6 ip => exact le_refl _
  rw [ADDRESS_MAX]
  omega

def IpTrigger.free (rule : IpTrigger) : Nat := rule.addr.width - rule.prefixLength

/-- **A rule's span is a block.** -/
theorem span_eq (rule : IpTrigger) (owner : Nat) :
    rule.span owner = ⟨blockStart rule.free rule.addr.value, blockEnd rule.free rule.addr.value, owner⟩ := by
  have hfree : rule.free = rule.addr.width - rule.bits := by
    rw [IpTrigger.free, IpTrigger.prefixLength]
    omega
  rw [hfree]
  obtain ⟨address, bits, name⟩ := rule
  cases address <;> rfl

theorem covers_iff : rule.covers addr = true ↔
    rule.addr.sameFamily addr = true ∧ (rule.span place).holds addr.value = true := by
  rw [IpTrigger.covers, Bool.and_eq_true, beq_iff_eq, span_eq, Span.holds_iff]
  exact and_congr_right fun _ => mem_block.symm

theorem mem_familySpans {span : Span} : span ∈ familySpans rules addr ↔
    ∃ (place : Nat) (rule : IpTrigger), rules[place]? = some rule ∧ rule.addr.sameFamily addr = true ∧ rule.span place = span := by
  rw [familySpans, List.mem_map]
  constructor
  · rintro ⟨⟨rule, place⟩, hmem, rfl⟩
    obtain ⟨hmem, hfamily⟩ := List.mem_filter.mp hmem
    exact ⟨place, rule, List.mem_zipIdx_iff_getElem?.mp hmem, hfamily, rfl⟩
  · rintro ⟨place, rule, hlisted, hfamily, rfl⟩
    exact ⟨(rule, place), List.mem_filter.mpr ⟨List.mem_zipIdx_iff_getElem?.mpr hlisted, hfamily⟩, rfl⟩

theorem proper_familySpans : ∀ span ∈ familySpans rules addr, span.lo ≤ span.hi := by
  intro span hspan
  obtain ⟨place, rule, -, -, rfl⟩ := mem_familySpans.mp hspan
  rw [span_eq]
  exact Nat.le_add_right _ _

theorem nested_familySpans : ∀ a ∈ familySpans rules addr, ∀ b ∈ familySpans rules addr, a.nestedOrApart b := by
  intro a ha b hb
  obtain ⟨_, outer, -, -, rfl⟩ := mem_familySpans.mp ha
  obtain ⟨_, inner, -, -, rfl⟩ := mem_familySpans.mp hb
  rw [span_eq, span_eq, Span.nestedOrApart]
  dsimp only
  rcases Nat.le_total outer.free inner.free with hle | hle
  · have hblocks := block_nested hle outer.addr.value inner.addr.value
    omega
  · have hblocks := block_nested hle inner.addr.value outer.addr.value
    omega

theorem width_of_sameFamily {a b : IpAddr} (h : a.sameFamily b = true) : a.width = b.width := by
  cases a <;> cases b
  · rfl
  · cases h
  · cases h
  · rfl

/-- **The order of the sweep is that of the prefixes**, among rules that cover an address. -/
theorem before_span_iff (hrule : rule.covers addr = true) (hrival : rival.covers addr = true) :
    (rival.span other).before (rule.span place) = true ↔
      rival.prefixLength < rule.prefixLength ∨ rival.prefixLength = rule.prefixLength ∧ place ≤ other := by
  rw [IpTrigger.covers, Bool.and_eq_true, beq_iff_eq] at hrule hrival
  obtain ⟨hfamily, hagrees⟩ := hrule
  obtain ⟨hfamily', hagrees'⟩ := hrival
  have hwidth := (width_of_sameFamily hfamily).trans (width_of_sameFamily hfamily').symm
  have hle : rule.prefixLength ≤ rule.addr.width := Nat.min_le_right _ _
  have hle' : rival.prefixLength ≤ rival.addr.width := Nat.min_le_right _ _
  rw [before_iff, span_eq, span_eq]
  dsimp only
  -- both are blocks of the address
  rw [← blockStart_congr (k := rule.free) hagrees, ← blockEnd_congr (k := rule.free) hagrees,
    ← blockStart_congr (k := rival.free) hagrees', ← blockEnd_congr (k := rival.free) hagrees']
  rcases Nat.lt_trichotomy rule.free rival.free with hlt | heq | hgt
  · have hshrinks := block_shrinks hlt addr.value
    obtain ⟨hstart, hend⟩ := block_subset (Nat.le_of_lt hlt) addr.value
    rw [IpTrigger.free, IpTrigger.free] at hlt
    omega
  · grind [IpTrigger.free]
  · have hshrinks := block_shrinks hgt addr.value
    obtain ⟨hstart, hend⟩ := block_subset (Nat.le_of_lt hgt) addr.value
    rw [IpTrigger.free, IpTrigger.free] at hgt
    omega

/-! ## One search -/

theorem getLast?_takeWhile_reverse (h : Laid out bound) :
    (out.reverse.takeWhile fun span => span.lo ≤ x).getLast? = out.find? fun span => span.lo ≤ x := by
  induction out with
  | nil => rfl
  | cons last rest ih =>
    obtain ⟨hproper, hrestProper⟩ := List.forall_mem_cons.mp h.proper
    obtain ⟨hbefore, hapart⟩ := List.pairwise_cons.mp h.apart
    rw [List.reverse_cons, List.find?_cons]
    by_cases hlast : last.lo ≤ x
    · have hall : ∀ span ∈ rest.reverse ++ [last], decide (span.lo ≤ x) = true := by
        intro span hspan
        rw [List.mem_append, List.mem_reverse, List.mem_singleton] at hspan
        rcases hspan with hspan | rfl
        · have := hbefore span hspan
          have := (hrestProper span hspan).1
          exact decide_eq_true (by omega)
        · exact decide_eq_true hlast
      rw [List.takeWhile_eq_self_iff.mpr hall, List.getLast?_concat, decide_eq_true hlast]
    · have hcut : (rest.reverse ++ [last]).takeWhile (fun span => decide (span.lo ≤ x)) =
          rest.reverse.takeWhile fun span => decide (span.lo ≤ x) := by
        rw [List.takeWhile_append, List.takeWhile_cons, decide_eq_false hlast]
        split
        · next hwhole =>
          rw [if_neg (by decide), List.append_nil]
          exact (List.takeWhile_prefix _).eq_of_length hwhole |>.symm
        · rfl
      rw [hcut, decide_eq_false hlast]
      exact ih ⟨hrestProper, hapart⟩

theorem owned_eq_find? (h : Laid out bound) : owned out x =
    (out.find? fun span => span.lo ≤ x).bind fun span => if x ≤ span.hi then some span.owner else none := by
  induction out with
  | nil => rfl
  | cons last rest ih =>
    obtain ⟨hproper, hrestProper⟩ := List.forall_mem_cons.mp h.proper
    obtain ⟨hbefore, hapart⟩ := List.pairwise_cons.mp h.apart
    rw [owned_cons, List.find?_cons]
    by_cases hlast : last.lo ≤ x
    · rw [decide_eq_true hlast]
      show _ = if x ≤ last.hi then some last.owner else none
      by_cases hhi : x ≤ last.hi
      · rw [if_pos (Span.holds_iff.mpr ⟨hlast, hhi⟩), if_pos hhi]
      · rw [if_neg (fun hin => hhi (Span.holds_iff.mp hin).2), if_neg hhi]
        refine owned_eq_none fun span hspan => ?_
        have := hbefore span hspan
        rw [Bool.eq_false_iff, Ne, Span.holds_iff]
        omega
    · rw [decide_eq_false hlast, if_neg (fun hin => hlast (Span.holds_iff.mp hin).1)]
      exact ih ⟨hrestProper, hapart⟩

/-- **The search finds whom the table gives the address to.** -/
theorem search_eq {table : List Span} (h : Laid table.reverse bound) (owners : List Name) :
    ((table.takeWhile fun span => span.lo ≤ x).getLast?.bind fun span =>
      if x ≤ span.hi then owners[span.owner]? else none) = (owned table.reverse x).bind (owners[·]?) := by
  have hfirst := getLast?_takeWhile_reverse (x := x) h
  rw [List.reverse_reverse] at hfirst
  rw [owned_eq_find? h, hfirst]
  cases table.reverse.find? fun span => span.lo ≤ x with
  | none => rfl
  | some span => grind

theorem ownerOf_eq (index : IpIndex) (addr : IpAddr) (h : Laid (index.table addr).reverse bound) :
    index.ownerOf addr = (owned (index.table addr).reverse addr.value).bind (index.owners[·]?) := by
  cases addr with
  | v4 ip => exact search_eq h index.owners
  | v6 ip => exact search_eq h index.owners

theorem disjoint_of_laid {spans : List Span} (h : Laid spans.reverse bound) : Disjoint spans := by
  refine ⟨fun span hspan => (h.proper span (List.mem_reverse.mpr hspan)).1, ?_⟩
  have hapart := h.apart
  rw [List.pairwise_reverse] at hapart
  exact hapart

end Index

/-- **The longest prefix wins**: the index answers with the owner of the rule that covers the address with
the longest prefix, the first of several, and with none exactly where no rule covers it; the spans it
searches are in order and disjoint. -/
theorem longest_prefix_wins (rules : List IpTrigger) (addr : IpAddr) :
    (∀ name, (IpIndex.new rules).ownerOf addr = some name ↔
      ∃ place rule, LongestPrefix rules addr place rule ∧ rule.owner = name) ∧
    ((IpIndex.new rules).ownerOf addr = none ↔ ∀ rule ∈ rules, rule.covers addr = false) ∧
    Disjoint (IpIndex.new rules).v4 ∧ Disjoint (IpIndex.new rules).v6 := by
  have hproper : ∀ addr : IpAddr, ∀ span ∈ familySpans rules addr, span.lo ≤ span.hi := fun _ => proper_familySpans
  have hflat := fun addr : IpAddr => flatten_innermost (hproper addr) nested_familySpans
  have hlaid : ∀ addr : IpAddr, ∃ bound, Laid ((IpIndex.new rules).table addr).reverse bound := by
    intro addr
    rw [table_new]
    exact (hflat addr).1
  obtain ⟨bound, hbound⟩ := hlaid addr
  -- whom the table gives the address to, and what its name is
  have howner : (IpIndex.new rules).ownerOf addr =
      (innermost ((familySpans rules addr).mergeSort Span.before) addr.value).bind fun place =>
        (rules[place]?).map IpTrigger.owner := by
    rw [ownerOf_eq _ _ hbound, table_new, (hflat addr).2 _ addr.value_le]
    refine congrArg (Option.bind _) ?_
    funext place
    exact List.getElem?_map
  have hinnermost : ∀ place, innermost ((familySpans rules addr).mergeSort Span.before) addr.value = some place ↔
      ∃ rule, LongestPrefix rules addr place rule := by
    intro place
    rw [innermost_eq_some]
    constructor
    · rintro ⟨span, hspan, hholds, rfl, hlast⟩
      obtain ⟨place, rule, hlisted, hfamily, rfl⟩ := mem_familySpans.mp hspan
      have hcovers := covers_iff.mpr ⟨hfamily, hholds⟩
      refine ⟨rule, hlisted, hcovers, fun other rival hrival hrivalCovers => ?_⟩
      have hrivalIn : rival.addr.sameFamily addr = true ∧ (rival.span other).holds addr.value = true :=
        covers_iff.mp hrivalCovers
      exact (before_span_iff hcovers hrivalCovers).mp
        (hlast _ (mem_familySpans.mpr ⟨other, rival, hrival, hrivalIn.1, rfl⟩) hrivalIn.2)
    · rintro ⟨rule, h⟩
      obtain ⟨hfamily, hholds⟩ : rule.addr.sameFamily addr = true ∧ (rule.span place).holds addr.value = true :=
        covers_iff.mp h.covers
      refine ⟨rule.span place, mem_familySpans.mpr ⟨place, rule, h.listed, hfamily, rfl⟩, hholds,
        congrArg Span.owner (span_eq rule place), fun span hspan hspanHolds => ?_⟩
      obtain ⟨other, rival, hrival, hrivalFamily, rfl⟩ := mem_familySpans.mp hspan
      have hrivalCovers := covers_iff.mpr ⟨hrivalFamily, hspanHolds⟩
      exact (before_span_iff h.covers hrivalCovers).mpr (h.wins other rival hrival hrivalCovers)
  refine ⟨fun name => ?_, ?_, ?_, ?_⟩
  · rw [howner, Option.bind_eq_some_iff]
    constructor
    · rintro ⟨place, hplace, hname⟩
      obtain ⟨rule, h⟩ := (hinnermost place).mp hplace
      rw [h.listed] at hname
      exact ⟨place, rule, h, Option.some.inj hname⟩
    · rintro ⟨place, rule, h, rfl⟩
      exact ⟨place, (hinnermost place).mpr ⟨rule, h⟩, by rw [h.listed]; rfl⟩
  · rw [howner]
    constructor
    · intro hnone rule hrule
      obtain ⟨place, hlisted⟩ := List.mem_iff_getElem?.mp hrule
      rw [Bool.eq_false_iff]
      intro hcovers
      obtain ⟨hfamily, hholds⟩ : rule.addr.sameFamily addr = true ∧ (rule.span place).holds addr.value = true :=
        covers_iff.mp hcovers
      -- some rule covers the address, so the sweep gave it to one
      have hsome : innermost ((familySpans rules addr).mergeSort Span.before) addr.value ≠ none := by
        rw [innermost, owned, Ne, Option.map_eq_none_iff, List.find?_eq_none]
        intro hall
        exact hall (rule.span place) (List.mem_reverse.mpr (List.mem_mergeSort.mpr
          (mem_familySpans.mpr ⟨place, rule, hlisted, hfamily, rfl⟩))) hholds
      obtain ⟨winner, hwinner⟩ := Option.ne_none_iff_exists'.mp hsome
      obtain ⟨best, hbest⟩ := (hinnermost winner).mp hwinner
      rw [hwinner, Option.bind_some, hbest.listed] at hnone
      cases hnone
    · intro hall
      cases hwinner : innermost ((familySpans rules addr).mergeSort Span.before) addr.value with
      | none => rfl
      | some winner =>
        obtain ⟨best, hbest⟩ := (hinnermost winner).mp hwinner
        have hnot := hall best (List.mem_of_getElem? hbest.listed)
        rw [hbest.covers] at hnot
        cases hnot
  · obtain ⟨_, hv4⟩ := hlaid (.v4 ⟨[0, 0, 0, 0], rfl⟩)
    exact disjoint_of_laid hv4
  · obtain ⟨_, hv6⟩ := hlaid (.v6 ⟨List.replicate 16 0, rfl⟩)
    exact disjoint_of_laid hv6

end Rdns.Policy
