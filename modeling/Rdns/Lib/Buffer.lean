import Rdns.Lib.Octets

/-!
# Rdns — Writing into a bounded buffer

A serializer writes octets at explicit positions of a buffer of fixed length, carries a
state of its own alongside (a compression table, say), and fails when a write would run
past the end. This module is the program logic for such writers.

`Emits noRoom w pos s bytes outcome` says what the writer `w`, started at `pos` in
state `s`, does in **every** buffer: with room for `bytes` it writes exactly them
and ends as `outcome` says; without, it fails with the no-room error, and what
stood before `pos` is still there. Writers compose by concatenating what they
emit.

A `Plan` is the same thing as a function: what would be emitted from a given state
at a given position.
-/

namespace Rdns.Lib

/-! ## Overwriting part of a buffer -/

def splice (buf : Octets) (pos : Nat) (bytes : Octets) : Octets :=
  buf.take pos ++ (bytes ++ buf.drop (pos + bytes.length))

section Splice

variable {buf bytes a b : Octets} {pos : Nat}

theorem length_splice (h : pos + bytes.length ≤ buf.length) :
    (splice buf pos bytes).length = buf.length := by
  simp only [splice, List.length_append, List.length_take, List.length_drop]
  omega

theorem take_splice {k : Nat} (h : pos ≤ buf.length) (hk : k ≤ pos) :
    (splice buf pos bytes).take k = buf.take k := by
  rw [splice, List.take_append_of_le_length (by simp; omega), List.take_take, Nat.min_eq_left hk]

theorem take_splice_end (h : pos ≤ buf.length) :
    (splice buf pos bytes).take (pos + bytes.length) = buf.take pos ++ bytes := by
  have hlen : (buf.take pos).length = pos := by rw [List.length_take]; omega
  rw [splice, ← List.append_assoc]
  exact List.take_left' (by rw [List.length_append, hlen])

theorem splice_nil : splice buf pos [] = buf := by
  rw [splice, List.nil_append, List.length_nil, Nat.add_zero, List.take_append_drop]

theorem splice_splice (h : pos + a.length ≤ buf.length) :
    splice (splice buf pos a) (pos + a.length) b = splice buf pos (a ++ b) := by
  have htake : (splice buf pos a).take (pos + a.length) = buf.take pos ++ a :=
    take_splice_end (by omega)
  have hdrop : (splice buf pos a).drop (pos + a.length + b.length)
      = buf.drop (pos + a.length + b.length) := by
    rw [splice, ← List.append_assoc, List.drop_append, List.drop_eq_nil_of_le
      (by simp only [List.length_append, List.length_take]; omega), List.nil_append, List.drop_drop]
    congr 1
    simp only [List.length_append, List.length_take]
    omega
  rw [splice, htake, hdrop, splice, List.length_append, List.append_assoc, List.append_assoc,
    Nat.add_assoc]

theorem splice_patch {hole fill : Octets} (hlen : hole.length = fill.length)
    (h : pos + (a ++ hole ++ b).length ≤ buf.length) :
    splice (splice buf pos (a ++ hole ++ b)) (pos + a.length) fill
      = splice buf pos (a ++ fill ++ b) := by
  simp only [List.length_append] at h
  have hfirst : splice buf pos (a ++ hole ++ b)
      = splice (splice buf pos a) (pos + a.length) (hole ++ b) := by
    rw [splice_splice (by omega), List.append_assoc]
  have hroom : (splice buf pos a).length = buf.length := length_splice (by omega)
  have hagain : splice (splice (splice buf pos a) (pos + a.length) (hole ++ b)) (pos + a.length) fill
      = splice (splice buf pos a) (pos + a.length) (fill ++ b) := by
    generalize splice buf pos a = base at hroom
    have htake : (splice base (pos + a.length) (hole ++ b)).take (pos + a.length)
        = base.take (pos + a.length) := take_splice (by omega) le_rfl
    have hbase : (base.take (pos + a.length)).length = pos + a.length := by
      rw [List.length_take]; omega
    have hdrop : (splice base (pos + a.length) (hole ++ b)).drop (pos + a.length + fill.length)
        = b ++ base.drop (pos + a.length + (hole ++ b).length) := by
      rw [splice, ← List.drop_drop, List.drop_left' hbase, List.append_assoc, ← hlen,
        List.drop_left]
    rw [splice, htake, hdrop, splice, List.length_append, List.length_append, hlen,
      List.append_assoc]
  rw [hfirst, hagain, splice_splice (by omega), List.append_assoc]

end Splice

/-! ## Writers -/

structure Sink (σ : Type) where
  state : σ
  buf : Octets

/-- A writer over state `σ` that can fail with `ε`; a failure keeps what was done
to the state and the buffer before it. -/
abbrev WriteM (σ ε : Type) := ExceptT ε (StateM (Sink σ))

variable {σ ε α β : Type}

def exec (w : WriteM σ ε α) (sink : Sink σ) : Except ε α × Sink σ :=
  (ExceptT.run w).run sink

theorem exec_bind (w : WriteM σ ε α) (k : α → WriteM σ ε β) (sink : Sink σ) :
    exec (w >>= k) sink = match exec w sink with
      | (.ok a, sink') => exec (k a) sink'
      | (.error e, sink') => (.error e, sink') := by
  simp only [exec, bind, ExceptT.bind, ExceptT.run, ExceptT.mk, StateT.bind, StateT.run,
    ExceptT.bindCont]
  rcases w sink with ⟨result, sink'⟩
  cases result <;> rfl

theorem exec_pure (a : α) (sink : Sink σ) :
    exec (pure a : WriteM σ ε α) sink = (.ok a, sink) := rfl

theorem exec_throw (e : ε) (sink : Sink σ) :
    exec (throw e : WriteM σ ε α) sink = (.error e, sink) := rfl

def getState : WriteM σ ε σ := do
  return (← get).state

def setState (s : σ) : WriteM σ ε Unit :=
  modify fun sink => { sink with state := s }

/-- Copy `bytes` into the buffer at `pos`, returning the position just past them. -/
def writeBytes (noRoom : Nat → Nat → ε) (pos : Nat) (bytes : Octets) : WriteM σ ε Nat := do
  let buf := (← get).buf
  let stop := pos + bytes.length
  if stop > buf.length then throw (noRoom stop buf.length)
  else do
    modify fun sink => { sink with buf := splice sink.buf pos bytes }
    return stop

theorem exec_getState_bind (k : σ → WriteM σ ε α) (sink : Sink σ) :
    exec (getState >>= k) sink = exec (k sink.state) sink := rfl

theorem exec_setState_bind (s : σ) (k : Unit → WriteM σ ε α) (sink : Sink σ) :
    exec (setState s >>= k) sink = exec (k ()) { sink with state := s } := rfl

variable {sink : Sink σ} {pos : Nat} {bytes buf : Octets} {noRoom : Nat → Nat → ε}

theorem exec_writeBytes_fits (h : pos + bytes.length ≤ sink.buf.length) :
    exec (writeBytes noRoom pos bytes) sink
      = (.ok (pos + bytes.length), ⟨sink.state, splice sink.buf pos bytes⟩) := by
  show exec (if pos + bytes.length > sink.buf.length then _ else _) sink = _
  rw [if_neg (by omega)]
  rfl

theorem exec_writeBytes_overflows (h : sink.buf.length < pos + bytes.length) :
    exec (writeBytes noRoom pos bytes) sink
      = (.error (noRoom (pos + bytes.length) sink.buf.length), sink) := by
  show exec (if pos + bytes.length > sink.buf.length then _ else _) sink = _
  rw [if_pos (by omega)]
  rfl

/-! ## What a writer emits -/

def Kept (pos : Nat) (buf buf' : Octets) : Prop :=
  buf'.length = buf.length ∧ buf'.take pos = buf.take pos

theorem Kept.refl (pos : Nat) (buf : Octets) : Kept pos buf buf := ⟨rfl, rfl⟩

theorem Kept.mono {k : Nat} {buf' : Octets} (h : Kept pos buf buf') (hk : k ≤ pos) :
    Kept k buf buf' := by
  refine ⟨h.1, ?_⟩
  have htake := congrArg (List.take k) h.2
  rwa [List.take_take, List.take_take, Nat.min_eq_left hk] at htake

theorem Kept.trans {a b c : Octets} (h₁ : Kept pos a b) (h₂ : Kept pos b c) : Kept pos a c :=
  ⟨h₂.1.trans h₁.1, h₂.2.trans h₁.2⟩

theorem kept_splice (h : pos + bytes.length ≤ buf.length) : Kept pos buf (splice buf pos bytes) :=
  ⟨length_splice h, take_splice (by omega) le_rfl⟩

/-- In every buffer: with room for `bytes` the writer puts exactly them at `pos`
and ends as `outcome`; without, it fails for want of room. -/
structure Emits (noRoom : Nat → Nat → ε) (w : WriteM σ ε Nat) (pos : Nat) (s : σ)
    (bytes : Octets) (outcome : Except ε σ) : Prop where
  done : ∀ s', outcome = .ok s' → ∀ buf : Octets, pos + bytes.length ≤ buf.length →
    exec w ⟨s, buf⟩ = (.ok (pos + bytes.length), ⟨s', splice buf pos bytes⟩)
  fails : ∀ e, outcome = .error e → ∀ buf : Octets, pos + bytes.length ≤ buf.length →
    ∃ s' buf', exec w ⟨s, buf⟩ = (.error e, ⟨s', buf'⟩) ∧ Kept pos buf buf'
  overflows : ∀ buf : Octets, pos ≤ buf.length → buf.length < pos + bytes.length →
    ∃ need s' buf', exec w ⟨s, buf⟩ = (.error (noRoom need buf.length), ⟨s', buf'⟩) ∧
      Kept pos buf buf'

theorem Emits.exec_eq_ok {w : WriteM σ ε Nat} {n : Nat} {s : σ} {outcome : Except ε σ}
    (h : Emits noRoom w pos s bytes outcome) (hpos : pos ≤ buf.length)
    (hexec : exec w ⟨s, buf⟩ = (.ok n, sink)) :
    ∃ s', outcome = .ok s' ∧ pos + bytes.length ≤ buf.length ∧ n = pos + bytes.length ∧
      sink = ⟨s', splice buf pos bytes⟩ := by
  by_cases hfit : pos + bytes.length ≤ buf.length
  · cases houtcome : outcome with
    | ok s' =>
      rw [h.done s' houtcome buf hfit] at hexec
      cases hexec
      exact ⟨s', rfl, hfit, rfl, rfl⟩
    | error e =>
      obtain ⟨s', buf', hfail, -⟩ := h.fails e houtcome buf hfit
      rw [hfail] at hexec
      cases hexec
  · obtain ⟨need, s', buf', hover, -⟩ := h.overflows buf hpos (by omega)
    rw [hover] at hexec
    cases hexec

section Rules

variable {noRoom : Nat → Nat → ε} {w : WriteM σ ε Nat} {k : Nat → WriteM σ ε Nat}
  {pos : Nat} {s s' : σ} {a b bytes : Octets} {outcome : Except ε σ} {e : ε}

theorem emits_writeBytes (noRoom : Nat → Nat → ε) (pos : Nat) (bytes : Octets) (s : σ) :
    Emits noRoom (writeBytes noRoom pos bytes) pos s bytes (.ok s) where
  done := by
    rintro _ ⟨rfl⟩ buf h
    exact exec_writeBytes_fits h
  fails := by
    rintro _ ⟨⟩
  overflows := by
    intro buf _ h
    exact ⟨_, _, _, exec_writeBytes_overflows h, Kept.refl ..⟩

theorem emits_throw (noRoom : Nat → Nat → ε) (pos : Nat) (s : σ) (e : ε) :
    Emits noRoom (throw e : WriteM σ ε Nat) pos s [] (.error e) where
  done := by
    rintro _ ⟨⟩
  fails := by
    rintro _ ⟨rfl⟩ buf _
    exact ⟨s, buf, rfl, Kept.refl ..⟩
  overflows := by
    intro buf h₁ h₂
    exact absurd h₂ (by simp; omega)

theorem emits_pure (noRoom : Nat → Nat → ε) (pos : Nat) (s : σ) :
    Emits noRoom (pure pos : WriteM σ ε Nat) pos s [] (.ok s) where
  done := by
    rintro _ ⟨rfl⟩ buf _
    rw [exec_pure, splice_nil]
    rfl
  fails := by
    rintro _ ⟨⟩
  overflows := by
    intro buf h₁ h₂
    exact absurd h₂ (by simp; omega)

theorem Emits.congr {bytes' : Octets} (h : Emits noRoom w pos s bytes outcome)
    (hbytes : bytes = bytes') : Emits noRoom w pos s bytes' outcome :=
  hbytes ▸ h

theorem Emits.getState {k : σ → WriteM σ ε Nat} (h : Emits noRoom (k s) pos s bytes outcome) :
    Emits noRoom (getState >>= k) pos s bytes outcome :=
  ⟨h.done, h.fails, h.overflows⟩

theorem Emits.setState {k : Unit → WriteM σ ε Nat} (h : Emits noRoom (k ()) pos s' bytes outcome) :
    Emits noRoom (setState s' >>= k) pos s bytes outcome :=
  ⟨h.done, h.fails, h.overflows⟩

theorem Emits.bind_error (h : Emits noRoom w pos s bytes (.error e)) :
    Emits noRoom (w >>= k) pos s bytes (.error e) where
  done := by
    rintro _ ⟨⟩
  fails := by
    rintro _ ⟨rfl⟩ buf hfit
    obtain ⟨s', buf', hexec, hkept⟩ := h.fails _ rfl buf hfit
    exact ⟨s', buf', by rw [exec_bind, hexec], hkept⟩
  overflows := by
    intro buf h₁ h₂
    obtain ⟨need, s', buf', hexec, hkept⟩ := h.overflows buf h₁ h₂
    exact ⟨need, s', buf', by rw [exec_bind, hexec], hkept⟩

/-- **Sequencing**: two writers in a row emit their octets in a row. -/
theorem Emits.bind (h₁ : Emits noRoom w pos s a (.ok s'))
    (h₂ : Emits noRoom (k (pos + a.length)) (pos + a.length) s' b outcome) :
    Emits noRoom (w >>= k) pos s (a ++ b) outcome where
  done := by
    intro s'' hout buf hfit
    rw [List.length_append] at hfit
    have hroom : (splice buf pos a).length = buf.length := length_splice (by omega)
    rw [exec_bind, h₁.done _ rfl buf (by omega)]
    simp only
    rw [h₂.done s'' hout _ (by omega), splice_splice (by omega), List.length_append, Nat.add_assoc]
  fails := by
    intro e hout buf hfit
    rw [List.length_append] at hfit
    have hroom : (splice buf pos a).length = buf.length := length_splice (by omega)
    obtain ⟨s'', buf'', hexec, hkept⟩ := h₂.fails e hout (splice buf pos a) (by omega)
    refine ⟨s'', buf'', ?_, (kept_splice (by omega)).trans (hkept.mono (by omega))⟩
    rw [exec_bind, h₁.done _ rfl buf (by omega)]
    exact hexec
  overflows := by
    intro buf hpos hlong
    rw [List.length_append] at hlong
    by_cases hfit : pos + a.length ≤ buf.length
    · have hroom : (splice buf pos a).length = buf.length := length_splice hfit
      obtain ⟨need, s'', buf'', hexec, hkept⟩ := h₂.overflows (splice buf pos a) (by omega) (by omega)
      refine ⟨need, s'', buf'', ?_, (kept_splice hfit).trans (hkept.mono (by omega))⟩
      rw [exec_bind, h₁.done _ rfl buf hfit, ← hroom]
      exact hexec
    · obtain ⟨need, s'', buf'', hexec, hkept⟩ := h₁.overflows buf hpos (by omega)
      exact ⟨need, s'', buf'', by rw [exec_bind, hexec], hkept⟩

/-- `Emits` is about what running the writer does, and nothing else. -/
theorem Emits.of_exec_eq {w' : WriteM σ ε Nat} (h : Emits noRoom w pos s bytes outcome)
    (hsame : ∀ buf : Octets, pos ≤ buf.length → exec w' ⟨s, buf⟩ = exec w ⟨s, buf⟩) :
    Emits noRoom w' pos s bytes outcome := by
  refine ⟨fun s'' hout buf hfit => ?_, fun e hout buf hfit => ?_, fun buf hpos hlong => ?_⟩
  · rw [hsame buf (by omega)]
    exact h.done s'' hout buf hfit
  · rw [hsame buf (by omega)]
    exact h.fails e hout buf hfit
  · rw [hsame buf hpos]
    exact h.overflows buf hpos hlong

theorem Emits.bind_known {v : Nat → WriteM σ ε Nat} {k : Nat → Nat → WriteM σ ε Nat}
    (hw : Emits noRoom w pos s a (.ok s'))
    (h : Emits noRoom ((w >>= v) >>= k (pos + a.length)) pos s bytes outcome) :
    Emits noRoom (w >>= fun r => v r >>= k r) pos s bytes outcome := by
  have hsame : ∀ buf : Octets, pos ≤ buf.length →
      exec (w >>= fun r => v r >>= k r) ⟨s, buf⟩
        = exec ((w >>= v) >>= k (pos + a.length)) ⟨s, buf⟩ := by
    intro buf hpos
    rw [exec_bind, exec_bind, exec_bind]
    by_cases hfit : pos + a.length ≤ buf.length
    · rw [hw.done _ rfl buf hfit]
      simp only
      rw [exec_bind]
    · obtain ⟨need, s'', buf'', hexec, -⟩ := hw.overflows buf hpos (by omega)
      rw [hexec]
  exact h.of_exec_eq hsame

theorem Emits.bind_congr {k' : Nat → WriteM σ ε Nat} (hw : Emits noRoom w pos s a (.ok s'))
    (hk : k' (pos + a.length) = k (pos + a.length))
    (h : Emits noRoom (w >>= k) pos s bytes outcome) :
    Emits noRoom (w >>= k') pos s bytes outcome := by
  have hsame : ∀ buf : Octets, pos ≤ buf.length →
      exec (w >>= k') ⟨s, buf⟩ = exec (w >>= k) ⟨s, buf⟩ := by
    intro buf hpos
    rw [exec_bind, exec_bind]
    by_cases hfit : pos + a.length ≤ buf.length
    · rw [hw.done _ rfl buf hfit]
      simp only [hk]
    · obtain ⟨need, s'', buf'', hexec, -⟩ := hw.overflows buf hpos (by omega)
      rw [hexec]
  exact h.of_exec_eq hsame

/-- **Back-patching**: a writer that leaves a hole, and a write of the same width
over it once the rest is out, emit the rest with the hole filled. -/
theorem Emits.patch {hole fill : Octets} (hlen : hole.length = fill.length)
    (h : Emits noRoom w pos s (a ++ hole ++ b) (.ok s')) :
    Emits noRoom (w >>= fun stop => do
      let _ ← writeBytes noRoom (pos + a.length) fill
      return stop) pos s (a ++ fill ++ b) (.ok s') where
  done := by
    rintro _ ⟨rfl⟩ buf hfit
    have hsame : (a ++ fill ++ b).length = (a ++ hole ++ b).length := by
      simp only [List.length_append, hlen]
    rw [hsame] at hfit ⊢
    have hroom : (splice buf pos (a ++ hole ++ b)).length = buf.length := length_splice hfit
    rw [exec_bind, h.done _ rfl buf hfit]
    simp only
    rw [exec_bind, exec_writeBytes_fits, splice_patch hlen hfit]
    · rfl
    · simp only [List.length_append] at hfit hroom ⊢
      omega
  fails := by
    rintro _ ⟨⟩
  overflows := by
    intro buf hpos hlong
    have hsame : (a ++ fill ++ b).length = (a ++ hole ++ b).length := by
      simp only [List.length_append, hlen]
    rw [hsame] at hlong
    obtain ⟨need, s'', buf'', hexec, hkept⟩ := h.overflows buf hpos hlong
    exact ⟨need, s'', buf'', by rw [exec_bind, hexec], hkept⟩

end Rules

/-! ## Plans -/

def attempt (x : Except ε α) : WriteM σ ε α :=
  match x with
  | .ok a => pure a
  | .error e => throw e

abbrev Plan (σ ε : Type) := σ → Nat → Octets × Except ε σ

namespace Plan

def octets (bytes : Octets) : Plan σ ε := fun s _ => (bytes, .ok s)

def fail (e : ε) : Plan σ ε := fun _ _ => ([], .error e)

def attempt (x : Except ε α) (plan : α → Plan σ ε) : Plan σ ε :=
  match x with
  | .ok a => plan a
  | .error e => fail e

def seq (p q : Plan σ ε) : Plan σ ε := fun s pos =>
  match p s pos with
  | (a, .ok s') => (a ++ (q s' (pos + a.length)).1, (q s' (pos + a.length)).2)
  | (a, .error e) => (a, .error e)

def all : List (Plan σ ε) → Plan σ ε
  | [] => octets []
  | p :: rest => p.seq (all rest)

variable {s : σ} {pos : Nat} {p q : Plan σ ε}

theorem seq_ok {s' : σ} {a : Octets} (h : p s pos = (a, .ok s')) :
    p.seq q s pos = (a ++ (q s' (pos + a.length)).1, (q s' (pos + a.length)).2) := by
  rw [seq, h]

theorem seq_error {a : Octets} {e : ε} (h : p s pos = (a, .error e)) :
    p.seq q s pos = (a, .error e) := by
  rw [seq, h]

theorem seq_assoc (p q r : Plan σ ε) : (p.seq q).seq r = p.seq (q.seq r) := by
  funext s pos
  rcases hp : p s pos with ⟨a, e | s'⟩
  · rw [seq_error hp, seq_error (seq_error hp)]
  · rcases hq : q s' (pos + a.length) with ⟨b, e | s''⟩
    · rw [seq_ok hp, seq_error hq]
      rw [seq_error (show p.seq q s pos = (a ++ b, .error e) by rw [seq_ok hp, hq])]
    · rw [seq_ok hp, seq_ok hq]
      rw [seq_ok (show p.seq q s pos = (a ++ b, .ok s'') by rw [seq_ok hp, hq])]
      simp only [List.length_append, List.append_assoc, Nat.add_assoc]

theorem octets_nil_seq (q : Plan σ ε) : (octets []).seq q = q := by
  funext s pos
  rfl

theorem seq_octets_nil (p : Plan σ ε) : p.seq (octets []) = p := by
  funext s pos
  rcases hout : p s pos with ⟨a, e | s'⟩
  · exact seq_error hout
  · rw [seq_ok hout]
    simp [octets]

theorem all_append (xs ys : List (Plan σ ε)) : all (xs ++ ys) = (all xs).seq (all ys) := by
  induction xs with
  | nil => exact (octets_nil_seq _).symm
  | cons p rest ih => rw [List.cons_append, all, all, ih, seq_assoc]

theorem octets_seq_octets (a b : Octets) :
    (octets a : Plan σ ε).seq (octets b) = octets (a ++ b) := rfl

theorem octets_seq_assoc (a b : Octets) (q : Plan σ ε) :
    (octets a).seq ((octets b).seq q) = (octets (a ++ b)).seq q := by
  funext s pos
  simp only [seq, octets, List.length_append, List.append_assoc, Nat.add_assoc]

theorem seq_octets (a : Octets) (q : Plan σ ε) (s : σ) (pos : Nat) :
    (octets a).seq q s pos = (a ++ (q s (pos + a.length)).1, (q s (pos + a.length)).2) := rfl

theorem seq_eq_ok {s'' : σ} {bytes : Octets} :
    p.seq q s pos = (bytes, .ok s'') ↔
      ∃ a s' b, p s pos = (a, .ok s') ∧ q s' (pos + a.length) = (b, .ok s'') ∧ bytes = a ++ b := by
  constructor
  · intro h
    rcases hp : p s pos with ⟨a, e | s'⟩
    · rw [seq_error hp] at h
      cases h
    · rw [seq_ok hp] at h
      obtain ⟨hbytes, hend⟩ := Prod.mk.inj h
      exact ⟨a, s', (q s' (pos + a.length)).1, rfl, Prod.ext rfl hend, hbytes.symm⟩
  · rintro ⟨a, s', b, hp, hq, rfl⟩
    rw [seq_ok hp, hq]

theorem all_error {ι : Type} {plan : ι → Plan σ ε} {items : List ι} {e : ε}
    (h : (all (items.map plan) s pos).2 = .error e) :
    ∃ i ∈ items, ∃ s pos, (plan i s pos).2 = .error e := by
  induction items generalizing s pos with
  | nil => cases h
  | cons i rest ih =>
    rw [List.map_cons, all] at h
    rcases hout : plan i s pos with ⟨a, e' | s'⟩
    · grind [seq_error]
    · rw [seq_ok hout] at h
      obtain ⟨j, hj, hfail⟩ := ih h
      exact ⟨j, List.mem_cons_of_mem _ hj, hfail⟩

section Length

variable {p q : Plan σ ε} {s : σ} {pos m n : Nat}

theorem length_seq_le (hp : (p s pos).1.length ≤ m)
    (hq : ∀ s' pos', (q s' pos').1.length ≤ n) : (p.seq q s pos).1.length ≤ m + n := by
  rcases hout : p s pos with ⟨a, e | s'⟩
  · grind [seq_error]
  · rw [seq_ok hout, List.length_append]
    rw [hout] at hp
    exact Nat.add_le_add hp (hq _ _)

theorem length_all_le {ι : Type} {plan : ι → Plan σ ε} {bound : ι → Nat}
    (h : ∀ i s pos, (plan i s pos).1.length ≤ bound i) (items : List ι) (s : σ) (pos : Nat) :
    (all (items.map plan) s pos).1.length ≤ (items.map bound).sum := by
  induction items generalizing s pos with
  | nil => exact Nat.le_refl 0
  | cons i rest ih =>
    rw [List.map_cons, List.map_cons, List.sum_cons]
    exact length_seq_le (h i s pos) ih

end Length

end Plan

def Implements (noRoom : Nat → Nat → ε) (w : Nat → WriteM σ ε Nat) (plan : Plan σ ε) : Prop :=
  ∀ pos s, Emits noRoom (w pos) pos s (plan s pos).1 (plan s pos).2

section Implements

variable {noRoom : Nat → Nat → ε} {v w : Nat → WriteM σ ε Nat} {p q : Plan σ ε}

theorem implements_writeBytes (noRoom : Nat → Nat → ε) (bytes : Octets) :
    Implements noRoom (fun pos => writeBytes noRoom pos bytes)
      (Plan.octets bytes : Plan σ ε) :=
  fun pos s => emits_writeBytes noRoom pos bytes s

theorem implements_pure (noRoom : Nat → Nat → ε) :
    Implements noRoom (fun pos => pure pos) (Plan.octets [] : Plan σ ε) :=
  fun pos s => emits_pure noRoom pos s

theorem Implements.seq (hp : Implements noRoom v p) (hq : Implements noRoom w q) :
    Implements noRoom (fun pos => v pos >>= w) (p.seq q) := by
  intro pos s
  have h := hp pos s
  rcases hout : p s pos with ⟨a, e | s'⟩
  · rw [hout] at h
    rw [Plan.seq_error hout]
    exact h.bind_error
  · rw [hout] at h
    rw [Plan.seq_ok hout]
    exact h.bind (hq _ _)

theorem Emits.bind_implements {u : WriteM σ ε Nat} {pos : Nat} {s s' : σ} {a : Octets}
    (hu : Emits noRoom u pos s a (.ok s')) (hq : Implements noRoom w q) :
    Emits noRoom (u >>= w) pos s (a ++ (q s' (pos + a.length)).1) (q s' (pos + a.length)).2 :=
  hu.bind (hq _ _)

theorem Emits.attempt {k : α → WriteM σ ε Nat} {plan : α → Plan σ ε} {pos : Nat} {s : σ}
    {x : Except ε α}
    (h : ∀ a, x = .ok a → Emits noRoom (k a) pos s (plan a s pos).1 (plan a s pos).2) :
    Emits noRoom (attempt x >>= k) pos s (Plan.attempt x plan s pos).1
      (Plan.attempt x plan s pos).2 := by
  cases x with
  | ok a => exact h a rfl
  | error e =>
    have hthrow := emits_throw noRoom pos s e
    exact ⟨hthrow.done, hthrow.fails, hthrow.overflows⟩

theorem Implements.attempt {w : α → Nat → WriteM σ ε Nat} {plan : α → Plan σ ε}
    (h : ∀ a, Implements noRoom (w a) (plan a)) (x : Except ε α) :
    Implements noRoom (fun pos => attempt x >>= fun a => w a pos) (Plan.attempt x plan) :=
  fun pos s => Emits.attempt fun a _ => h a pos s

theorem Implements.foldlM {ι : Type} {w : ι → Nat → WriteM σ ε Nat} {plan : ι → Plan σ ε}
    (h : ∀ i, Implements noRoom (w i) (plan i)) (items : List ι) :
    Implements noRoom (fun pos => items.foldlM (fun pos i => w i pos) pos)
      (Plan.all (items.map plan)) := by
  induction items with
  | nil => exact implements_pure noRoom
  | cons i rest ih =>
    have hseq := (h i).seq ih
    simpa only [List.foldlM_cons, List.map_cons, Plan.all] using hseq

end Implements

end Rdns.Lib
