import Rdns.Present.Presentation

/-!
# Rdns — Lines and fields of a zone file

`logical_lines` and `tokenize_into` of `rdns/src/zone/parse.rs`: comments stripped,
parentheses joined across lines, quoted strings kept whole. Both have a fast path for
text with nothing to do, which changes no result (`assembleLine_eq`, `tokenize_eq`).

`Fields text tokens` says that `text` is fields with spaces between them.
-/

namespace Rdns.Zones

open Rdns.Lib Rdns.Core Rdns.Present

/-! ## Logical lines -/

/-- One record or directive, assembled from as many physical lines as it spans. -/
structure LogicalLine where
  lineNo : Nat
  text : Text
  omitsOwner : Bool
deriving DecidableEq

def needsAssembling (raw : Text) : Bool :=
  raw.any fun c => c == ';' || c == '"' || c == '\\' || c == '(' || c == ')'

def startsWithWhitespace (text : Text) : Bool := text.head?.any isWhitespace

/-- The character loop: comments and parentheses go. -/
def stripLoop (ln depth : Nat) (quoted escaped : Bool) (text : Text) :
    Text → Except ZoneError (Text × Nat × Bool)
  | [] => .ok (text, depth, quoted)
  | c :: rest =>
    if escaped then stripLoop ln depth quoted false (text ++ [c]) rest
    else if c = '\\' then stripLoop ln depth quoted true (text ++ [c]) rest
    else if c = '"' then stripLoop ln depth (!quoted) false (text ++ [c]) rest
    else if c = ';' ∧ quoted = false then .ok (text, depth, quoted)
    -- a space in its place: `(1` must not be a token
    else if c = '(' ∧ quoted = false then stripLoop ln (depth + 1) quoted false (text ++ [' ']) rest
    else if c = ')' ∧ quoted = false then
      if depth = 0 then .error (.syntaxAt ln "unmatched ')'")
      else stripLoop ln (depth - 1) quoted false (text ++ [' ']) rest
    else stripLoop ln depth quoted false (text ++ [c]) rest

/-- The lines assembled so far, the one whose group is still open, and how deep. -/
structure Assembly where
  out : List LogicalLine
  pending : Option LogicalLine
  depth : Nat

def LogicalLine.join (opened : LogicalLine) (text : Text) : LogicalLine :=
  let more := trim text
  if more = [] then opened else { opened with text := opened.text ++ ' ' :: more }

def Assembly.file (a : Assembly) (ln : Nat) (text : Text) (depth : Nat) : Assembly :=
  let pending := match a.pending with
    | some opened => some (opened.join text)
    | none =>
      if trim text = [] ∧ depth = 0 then none
      else some ⟨ln, trim text, startsWithWhitespace text⟩
  if depth = 0 then ⟨a.out ++ pending.toList, none, 0⟩ else ⟨a.out, pending, depth⟩

def assembleSlowly (a : Assembly) (ln : Nat) (raw : Text) : Except ZoneError Assembly := do
  let (text, depth, quoted) ← stripLoop ln a.depth false false [] raw
  if quoted then throw (.syntaxAt ln "unterminated quoted string")
  return a.file ln text depth

def assembleLine (a : Assembly) (entry : Text × Nat) : Except ZoneError Assembly :=
  let ln := entry.2 + 1
  -- nothing to strip, nothing open: the line is its own text
  if a.depth = 0 ∧ a.pending = none ∧ needsAssembling entry.1 = false then
    let text := trim entry.1
    if text = [] then .ok a
    else .ok { a with out := a.out ++ [⟨ln, text, startsWithWhitespace entry.1⟩] }
  else assembleSlowly a ln entry.1

def assembleFrom (a : Assembly) (n : Nat) (raws : List Text) : Except ZoneError Assembly :=
  (raws.zipIdx n).foldlM assembleLine a

/-- Split a zone file into logical lines (RFC 1035 §5.1). -/
def logicalLines (content : Text) : Except ZoneError (List LogicalLine) := do
  let a ← assembleFrom ⟨[], none, 0⟩ 0 (lines content)
  match a.pending with
  | some opened =>
    throw (.syntaxAt opened.lineNo "'(' is never closed before the end of the file")
  | none => return a.out

/-! ## Fields -/

def tokenLoop (current : Text) (started inQuotes escaped : Bool) : Text → List Text
  | [] => if started then [current] else []
  | c :: rest =>
    if escaped then tokenLoop (current ++ [c]) started inQuotes false rest
    -- kept: escapes are resolved by the value, which alone knows what they mean
    else if c = '\\' then tokenLoop (current ++ [c]) true inQuotes true rest
    else if c = '"' then tokenLoop current true (!inQuotes) false rest
    else if isWhitespace c = true ∧ inQuotes = false then
      if started then current :: tokenLoop [] false inQuotes false rest
      else tokenLoop current started inQuotes false rest
    else tokenLoop (current ++ [c]) true inQuotes false rest

def tokenize (text : Text) : List Text :=
  if text.any fun c => c == '"' || c == '\\' then tokenLoop [] false false false text
  else splitWhitespace text

/-! ## The fast paths change nothing -/

variable {word text raw token line a b value : Text} {tokens : List Text}

theorem stripLoop_plain {ln depth : Nat} (h : needsAssembling raw = false) (text : Text) :
    stripLoop ln depth false false text raw = .ok (text ++ raw, depth, false) := by
  induction raw generalizing text with
  | nil => rw [stripLoop, List.append_nil]
  | cons c raw ih =>
    rw [needsAssembling, List.any_cons, Bool.or_eq_false_iff] at h
    obtain ⟨hc, hraw⟩ := h
    simp only [Bool.or_eq_false_iff, beq_eq_false_iff_ne] at hc
    obtain ⟨⟨⟨⟨hsemi, hquote⟩, hback⟩, hopen⟩, hclose⟩ := hc
    rw [stripLoop, if_neg (by decide), if_neg hback, if_neg hquote, if_neg (by simp [hsemi]),
      if_neg (by simp [hopen]), if_neg (by simp [hclose]), ih hraw, List.append_assoc]
    rfl

/-- **The fast path of `logical_lines` changes nothing.** -/
theorem assembleLine_eq (a : Assembly) (raw : Text) (n : Nat) :
    assembleLine a (raw, n) = assembleSlowly a (n + 1) raw := by
  rw [assembleLine]
  split
  · rename_i h
    obtain ⟨hdepth, hpending, hplain⟩ := h
    obtain ⟨out, pending, depth⟩ := a
    dsimp only at hdepth hpending hplain ⊢
    subst hdepth hpending
    rw [assembleSlowly, stripLoop_plain hplain]
    show _ = Except.ok (Assembly.file _ _ _ _)
    rw [Assembly.file, if_pos rfl, List.nil_append]
    split
    · grind
    · grind
  · rfl

/-- **The fast path of `tokenize_into` changes nothing.** -/
theorem tokenize_eq (text : Text) : tokenize text = tokenLoop [] false false false text := by
  rw [tokenize]
  split
  · rfl
  · rename_i h
    rw [Bool.not_eq_true] at h
    rw [splitWhitespace]
    -- a field is begun exactly when a character of it is read
    have hloop : ∀ (text current : Text), (text.any fun c => c == '"' || c == '\\') = false →
        wordsFrom current text = tokenLoop current (!current.isEmpty) false false text := by
      intro text
      induction text with
      | nil => simp [wordsFrom, tokenLoop]
      | cons c text ih =>
        intro current hplain
        rw [List.any_cons, Bool.or_eq_false_iff] at hplain
        obtain ⟨hc, htext⟩ := hplain
        simp only [Bool.or_eq_false_iff, beq_eq_false_iff_ne] at hc
        rw [wordsFrom, tokenLoop, if_neg Bool.false_ne_true, if_neg hc.2, if_neg hc.1]
        by_cases hspace : isWhitespace c = true
        · have hboth : isWhitespace c = true ∧ false = false := ⟨hspace, rfl⟩
          rw [if_pos hspace, if_pos hboth]
          cases current with
          | nil => exact ih [] htext
          | cons d current =>
            show (d :: current) :: wordsFrom [] text = _
            rw [ih [] htext]
            rfl
        · rw [if_neg hspace, if_neg (fun hboth => hspace hboth.1), ih _ htext]
          cases current <;> rfl
    exact hloop text [] h

/-! ## Text that is fields with spaces between them -/

inductive Field : Text → Text → Prop
  | bare {word : Text} : Bare word → word ≠ [] → Field word word
  | quoted {body : Text} : Quoted body → Field ('"' :: body ++ ['"']) body

inductive Fields : Text → List Text → Prop
  | one {word token : Text} : Field word token → Fields word [token]
  | more {word token rest : Text} {tokens : List Text} (gap : Nat) :
    Field word token → Fields rest tokens →
    Fields (word ++ (List.replicate (gap + 1) ' ' ++ rest)) (token :: tokens)

theorem stripLoop_bare (h : Bare word) (ln depth : Nat) (text rest : Text) :
    stripLoop ln depth false false text (word ++ rest)
      = stripLoop ln depth false false (text ++ word) rest := by
  induction h generalizing text with
  | nil => rw [List.nil_append, List.append_nil]
  | plain hc _ ih =>
    obtain ⟨-, hsemi, hquote, hopen, hclose, hback⟩ := isPlain_iff.mp hc
    rw [List.cons_append, stripLoop, if_neg (by decide), if_neg hback, if_neg hquote,
      if_neg (by simp [hsemi]), if_neg (by simp [hopen]), if_neg (by simp [hclose]), ih,
      List.append_assoc]
    rfl
  | escaped hc _ ih =>
    rw [List.cons_append, stripLoop, if_neg (by decide), if_pos rfl, List.cons_append, stripLoop,
      if_pos rfl, ih, List.append_assoc, List.append_assoc]
    rfl

theorem stripLoop_inQuotes {body : Text} (h : Quoted body) (ln depth : Nat) (text rest : Text) :
    stripLoop ln depth true false text (body ++ rest)
      = stripLoop ln depth true false (text ++ body) rest := by
  induction h generalizing text with
  | nil => rw [List.nil_append, List.append_nil]
  | plain _ hquote hback _ ih =>
    rw [List.cons_append, stripLoop, if_neg (by decide), if_neg hback, if_neg hquote,
      if_neg (by simp), if_neg (by simp), if_neg (by simp), ih, List.append_assoc]
    rfl
  | escaped _ _ ih =>
    rw [List.cons_append, stripLoop, if_neg (by decide), if_pos rfl, List.cons_append, stripLoop,
      if_pos rfl, ih, List.append_assoc, List.append_assoc]
    rfl

theorem stripLoop_quote (ln depth : Nat) (quoted : Bool) (text rest : Text) :
    stripLoop ln depth quoted false text ('"' :: rest)
      = stripLoop ln depth (!quoted) false (text ++ ['"']) rest := by
  rw [stripLoop, if_neg (by decide), if_neg (by decide), if_pos rfl]

theorem Field.strip (h : Field word token) (ln depth : Nat) (text rest : Text) :
    stripLoop ln depth false false text (word ++ rest)
      = stripLoop ln depth false false (text ++ word) rest := by
  cases h with
  | bare hbare _ => exact stripLoop_bare hbare ln depth text rest
  | quoted hbody =>
    rw [List.append_assoc, List.cons_append, stripLoop_quote, Bool.not_false,
      stripLoop_inQuotes hbody, List.singleton_append, stripLoop_quote, Bool.not_true,
      List.append_assoc, List.append_assoc]
    rfl

theorem stripLoop_spaces (count : Nat) (ln depth : Nat) (text rest : Text) :
    stripLoop ln depth false false text (List.replicate count ' ' ++ rest)
      = stripLoop ln depth false false (text ++ List.replicate count ' ') rest := by
  induction count generalizing text with
  | zero => rw [List.replicate_zero, List.nil_append, List.append_nil]
  | succ count ih =>
    rw [List.replicate_succ, List.cons_append, stripLoop, if_neg (by decide), if_neg (by decide),
      if_neg (by decide), if_neg (by decide), if_neg (by decide), if_neg (by decide), ih,
      List.append_assoc]
    rfl

/-- **Fields pass the comment stripper unchanged.** -/
theorem Fields.strip (h : Fields line tokens) (ln depth : Nat) (text rest : Text) :
    stripLoop ln depth false false text (line ++ rest)
      = stripLoop ln depth false false (text ++ line) rest := by
  induction h generalizing text with
  | one hfield => exact hfield.strip ln depth text rest
  | more gap hfield _ ih =>
    rw [List.append_assoc, hfield.strip, List.append_assoc, stripLoop_spaces, ih]
    simp only [List.append_assoc]

/-! ## Splitting fields -/

theorem tokenLoop_bare (h : Bare word) (current rest : Text) (started : Bool) :
    tokenLoop current started false false (word ++ rest)
      = tokenLoop (current ++ word) (started || !word.isEmpty) false false rest := by
  induction h generalizing current started with
  | nil => simp
  | plain hc _ ih =>
    obtain ⟨hgraphic, -, hquote, -, -, hback⟩ := isPlain_iff.mp hc
    rw [List.cons_append, tokenLoop, if_neg (by decide), if_neg hback, if_neg hquote,
      if_neg (by simp [isWhitespace_of_graphic hgraphic]), ih, List.append_assoc]
    cases started <;> rfl
  | escaped _ _ ih =>
    rw [List.cons_append, tokenLoop, if_neg (by decide), if_pos rfl, List.cons_append, tokenLoop,
      if_pos rfl, ih, List.append_assoc, List.append_assoc]
    cases started <;> rfl

theorem tokenLoop_inQuotes {body : Text} (h : Quoted body) (current rest : Text) :
    tokenLoop current true true false (body ++ rest)
      = tokenLoop (current ++ body) true true false rest := by
  induction h generalizing current with
  | nil => rw [List.nil_append, List.append_nil]
  | plain _ hquote hback _ ih =>
    rw [List.cons_append, tokenLoop, if_neg (by decide), if_neg hback, if_neg hquote,
      if_neg (by simp), ih, List.append_assoc]
    rfl
  | escaped _ _ ih =>
    rw [List.cons_append, tokenLoop, if_neg (by decide), if_pos rfl, List.cons_append, tokenLoop,
      if_pos rfl, ih, List.append_assoc, List.append_assoc]
    rfl

theorem Field.tokenLoop (h : Field word token) (rest : Text) :
    Zones.tokenLoop [] false false false (word ++ rest)
      = Zones.tokenLoop token true false false rest := by
  cases h with
  | bare hbare hne =>
    rw [tokenLoop_bare hbare, List.nil_append, Bool.false_or,
      List.isEmpty_eq_false_iff.mpr hne, Bool.not_false]
  | quoted hbody => grind [Zones.tokenLoop, tokenLoop_inQuotes]

theorem tokenLoop_spaces (count : Nat) (rest : Text) :
    tokenLoop [] false false false (List.replicate count ' ' ++ rest)
      = tokenLoop [] false false false rest := by
  induction count with
  | zero => rfl
  | succ count ih =>
    rw [List.replicate_succ, List.cons_append, tokenLoop, if_neg (by decide), if_neg (by decide),
      if_neg (by decide), if_pos ⟨by decide, rfl⟩, if_neg (by decide), ih]

theorem tokenLoop_gap (token rest : Text) (gap : Nat) :
    tokenLoop token true false false (List.replicate (gap + 1) ' ' ++ rest)
      = token :: tokenLoop [] false false false rest := by
  rw [List.replicate_succ, List.cons_append, tokenLoop, if_neg (by decide), if_neg (by decide),
    if_neg (by decide), if_pos ⟨by decide, rfl⟩, if_pos rfl, tokenLoop_spaces]

/-- **Fields split into exactly themselves.** -/
theorem Fields.tokenize (h : Fields line tokens) : Zones.tokenize line = tokens := by
  rw [tokenize_eq]
  induction h with
  | one hfield =>
    have hread := hfield.tokenLoop []
    rw [List.append_nil] at hread
    rw [hread]
    rfl
  | more gap hfield _ ih => rw [hfield.tokenLoop, tokenLoop_gap, ih]

/-! ## Edges -/

def Printable (text : Text) : Prop := ∀ c ∈ text, isGraphic c = true ∨ c = ' '

theorem Printable.append (ha : Printable a) (hb : Printable b) : Printable (a ++ b) := by
  intro c hc
  rcases List.mem_append.mp hc with hc | hc
  · exact ha c hc
  · exact hb c hc

theorem printable_spaces (count : Nat) : Printable (List.replicate count ' ') :=
  fun _ hc => .inr (List.eq_of_mem_replicate hc)

theorem Printable.lines (h : Printable text) (rest : Text) :
    Lib.lines (text ++ '\n' :: rest) = text :: Lib.lines rest := by
  apply lines_line
  · intro hmem
    rcases h _ hmem with h | h
    · exact absurd h (by decide)
    · exact absurd h (by decide)
  · intro hlast
    rcases h _ (List.mem_of_getLast? hlast) with h | h
    · exact absurd h (by decide)
    · exact absurd h (by decide)

structure Solid (text : Text) : Prop where
  ne_nil : text ≠ []
  head : ∀ c, text.head? = some c → isWhitespace c = false
  last : ∀ c, text.getLast? = some c → isWhitespace c = false

theorem Solid.append (ha : Solid a) (hb : Solid b) (between : Text) :
    Solid (a ++ (between ++ b)) where
  ne_nil := fun h => ha.ne_nil (List.append_eq_nil_iff.mp h).1
  head := by
    intro c hc
    rw [List.head?_append_of_ne_nil _ ha.ne_nil] at hc
    exact ha.head c hc
  last := by
    intro c hc
    rw [← List.append_assoc, List.getLast?_append_of_ne_nil _ hb.ne_nil] at hc
    exact hb.last c hc

theorem Solid.of_graphic (hne : text ≠ []) (h : ∀ c ∈ text, isGraphic c = true) :
    Solid text where
  ne_nil := hne
  head := fun c hc => isWhitespace_of_graphic (h c (List.mem_of_mem_head? hc))
  last := fun c hc => isWhitespace_of_graphic (h c (List.mem_of_getLast? hc))

theorem Solid.trim (h : Solid text) (before after : Nat) :
    Lib.trim (List.replicate before ' ' ++ (text ++ List.replicate after ' ')) = text :=
  trim_spaces h.ne_nil h.head h.last before after

theorem Solid.startsWithWhitespace (h : Solid text) (rest : Text) :
    startsWithWhitespace (text ++ rest) = false := by
  rw [Zones.startsWithWhitespace, List.head?_append_of_ne_nil _ h.ne_nil]
  cases hhead : text.head? with
  | none => rfl
  | some c => exact h.head c hhead

theorem Field.solid (h : Field word token) : Solid word := by
  cases h with
  | bare hbare hne => exact .of_graphic hne hbare.graphic
  | quoted hbody =>
    refine ⟨List.cons_ne_nil _ _, fun c hc => ?_, fun c hc => ?_⟩
    · cases hc
      decide
    · rw [List.getLast?_concat] at hc
      cases hc
      decide

theorem Field.printable (h : Field word token) : Printable word := by
  cases h with
  | bare hbare _ => exact fun c hc => .inl (hbare.graphic c hc)
  | quoted hbody =>
    intro c hc
    rcases List.mem_append.mp hc with hc | hc
    · rcases List.mem_cons.mp hc with rfl | hc
      · exact .inl (by decide)
      · exact hbody.printable c hc
    · rw [List.mem_singleton.mp hc]
      exact .inl (by decide)

theorem Fields.solid (h : Fields line tokens) : Solid line := by
  induction h with
  | one hfield => exact hfield.solid
  | more gap hfield _ ih => exact hfield.solid.append ih _

theorem Fields.printable (h : Fields line tokens) : Printable line := by
  induction h with
  | one hfield => exact hfield.printable
  | more gap hfield _ ih => exact hfield.printable.append ((printable_spaces _).append ih)

theorem Fields.append {xs ys : List Text} (ha : Fields a xs) (hb : Fields b ys) (gap : Nat) :
    Fields (a ++ (List.replicate (gap + 1) ' ' ++ b)) (xs ++ ys) := by
  induction ha with
  | one hfield => exact .more gap hfield hb
  | more inner hfield _ ih =>
    rw [List.append_assoc, List.append_assoc]
    exact .more inner hfield ih

/-! ## Assembling what is written -/

theorem assembleFrom_cons (a : Assembly) (n : Nat) (raw : Text) (raws : List Text) :
    assembleFrom a n (raw :: raws)
      = assembleSlowly a (n + 1) raw >>= fun a => assembleFrom a (n + 1) raws := by
  rw [assembleFrom, List.zipIdx_cons, List.foldlM_cons, assembleLine_eq]
  rfl

theorem assembleSlowly_of_strip {a : Assembly} {ln depth : Nat}
    (h : stripLoop ln a.depth false false [] raw = .ok (text, depth, false)) :
    assembleSlowly a ln raw = .ok (a.file ln text depth) := by
  rw [assembleSlowly, h]
  rfl

/-- `text` is one logical line with these fields, over however many physical lines it
takes. -/
def Block (text : Text) (tokens : List Text) : Prop :=
  ∀ (out : List LogicalLine) (n : Nat) (rest : Text), ∃ (m : Nat) (line : LogicalLine),
    line.omitsOwner = false ∧ Fields line.text tokens ∧
    assembleFrom ⟨out, none, 0⟩ n (lines (text ++ '\n' :: rest))
      = assembleFrom ⟨out ++ [line], none, 0⟩ m (lines rest)

def Blank (text : Text) : Prop :=
  ∀ (out : List LogicalLine) (n : Nat) (rest : Text),
    assembleFrom ⟨out, none, 0⟩ n (lines (text ++ '\n' :: rest))
      = assembleFrom ⟨out, none, 0⟩ (n + 1) (lines rest)

theorem Assembly.file_nil (out : List LogicalLine) (ln : Nat) :
    Assembly.file ⟨out, none, 0⟩ ln [] 0 = ⟨out, none, 0⟩ := by
  show (⟨out ++ [], none, 0⟩ : Assembly) = _
  rw [List.append_nil]

theorem blank_nil : Blank [] := by
  intro out n rest
  rw [List.nil_append, ← List.nil_append ('\n' :: rest), lines_line (by simp) (by simp),
    assembleFrom_cons, assembleSlowly_of_strip rfl, Assembly.file_nil]
  rfl

theorem blank_comment {comment : Text} (hnl : '\n' ∉ comment)
    (hcr : (';' :: comment).getLast? ≠ some '\r') : Blank (';' :: comment) := by
  intro out n rest
  rw [lines_line (by simpa using hnl) hcr, assembleFrom_cons, assembleSlowly_of_strip rfl,
    Assembly.file_nil]
  rfl

theorem Fields.block (h : Fields text tokens) : Block text tokens := by
  intro out n rest
  refine ⟨n + 1, ⟨n + 1, text, false⟩, rfl, h, ?_⟩
  have hstrip : stripLoop (n + 1) 0 false false [] text = .ok (text, 0, false) := by
    have := h.strip (n + 1) 0 [] []
    rwa [List.append_nil, List.nil_append] at this
  have htrim : trim text = text := trim_eq_self h.solid.ne_nil h.solid.head h.solid.last
  have hstart := h.solid.startsWithWhitespace []
  rw [List.append_nil] at hstart
  rw [h.printable.lines, assembleFrom_cons,
    assembleSlowly_of_strip (a := ⟨out, none, 0⟩) hstrip, Assembly.file, if_pos rfl]
  dsimp only
  rw [htrim, if_neg (fun hempty => h.solid.ne_nil hempty.1), hstart]
  rfl

structure GroupItem (raw value : Text) : Prop where
  bare : Bare value
  ne_nil : value ≠ []
  shape : ∃ before after comment, Printable comment ∧
    raw = List.replicate before ' ' ++ (value ++ (List.replicate after ' ' ++ ';' :: comment))

theorem GroupItem.solid (h : GroupItem raw value) : Solid value :=
  .of_graphic h.ne_nil h.bare.graphic

theorem GroupItem.printable (h : GroupItem raw value) : Printable raw := by
  obtain ⟨before, after, comment, hcomment, rfl⟩ := h.shape
  have hvalue : Printable value := fun c hc => .inl (h.bare.graphic c hc)
  refine (printable_spaces before).append (hvalue.append ((printable_spaces after).append ?_))
  intro c hc
  rcases List.mem_cons.mp hc with rfl | hc
  · exact .inl (by decide)
  · exact hcomment c hc

theorem GroupItem.assemble (h : GroupItem raw value) (out : List LogicalLine) (opened : LogicalLine)
    (ln : Nat) :
    assembleSlowly ⟨out, some opened, 1⟩ ln raw
      = .ok ⟨out, some { opened with text := opened.text ++ ' ' :: value }, 1⟩ := by
  obtain ⟨before, after, comment, -, rfl⟩ := h.shape
  have hstrip : stripLoop ln 1 false false []
      (List.replicate before ' ' ++ (value ++ (List.replicate after ' ' ++ ';' :: comment)))
      = .ok (List.replicate before ' ' ++ (value ++ List.replicate after ' '), 1, false) := by
    rw [stripLoop_spaces, stripLoop_bare h.bare, stripLoop_spaces, stripLoop,
      if_neg (by decide), if_neg (by decide), if_neg (by decide), if_pos ⟨rfl, rfl⟩,
      List.nil_append, List.append_assoc]
  rw [assembleSlowly_of_strip (a := ⟨out, some opened, 1⟩) hstrip, Assembly.file,
    if_neg (by decide)]
  dsimp only
  rw [LogicalLine.join, h.solid.trim, if_neg h.ne_nil]

theorem assembleFrom_items (items : List (Text × Text)) (hitems : ∀ i ∈ items, GroupItem i.1 i.2)
    (out : List LogicalLine) (rest : Text) :
    ∀ (n : Nat) (opened : LogicalLine), ∃ m,
      assembleFrom ⟨out, some opened, 1⟩ n (lines (items.flatMap (fun i => i.1 ++ ['\n']) ++ rest))
        = assembleFrom ⟨out, some { opened with
            text := opened.text ++ items.flatMap fun i => ' ' :: i.2 }, 1⟩ m (lines rest) := by
  induction items with
  | nil =>
    intro n opened
    refine ⟨n, ?_⟩
    rw [List.flatMap_nil, List.flatMap_nil, List.append_nil, List.nil_append]
  | cons item items ih =>
    intro n opened
    have hitem := hitems item List.mem_cons_self
    obtain ⟨m, hm⟩ := ih (fun i hi => hitems i (List.mem_cons_of_mem _ hi)) (n + 1)
      { opened with text := opened.text ++ ' ' :: item.2 }
    refine ⟨m, ?_⟩
    rw [List.flatMap_cons, List.append_assoc, List.append_assoc, List.singleton_append,
      hitem.printable.lines, assembleFrom_cons, hitem.assemble]
    show assembleFrom _ _ _ = _
    rw [hm, List.flatMap_cons, List.append_assoc]

theorem Fields.items {head : Text} {tokens : List Text} (h : Fields head tokens)
    (items : List (Text × Text)) (hitems : ∀ i ∈ items, GroupItem i.1 i.2) :
    Fields (head ++ items.flatMap fun i => ' ' :: i.2) (tokens ++ items.map Prod.snd) := by
  induction items generalizing head tokens with
  | nil => grind
  | cons item items ih =>
    have hitem := hitems item List.mem_cons_self
    have hmore := h.append (.one (.bare hitem.bare hitem.ne_nil)) 0
    have := ih hmore fun i hi => hitems i (List.mem_cons_of_mem _ hi)
    rw [List.append_assoc, List.append_assoc, List.append_assoc] at this
    exact this

/-- **A group is a block**: a line that opens it, its items each on a line with a
comment, and a line that closes it. -/
theorem Fields.group {head : Text} (h : Fields head tokens) (items : List (Text × Text))
    (hitems : ∀ i ∈ items, GroupItem i.1 i.2) (pad : Nat) :
    Block (head ++ (" (\n".toList ++ (items.flatMap (fun i => i.1 ++ ['\n']) ++
      (List.replicate pad ' ' ++ [')'])))) (tokens ++ items.map Prod.snd) := by
  intro out n rest
  have hopenStrip : stripLoop (n + 1) 0 false false [] (head ++ " (".toList)
      = .ok (head ++ List.replicate 2 ' ', 1, false) := by
    rw [h.strip, List.nil_append]
    show stripLoop (n + 1) 0 false false head [' ', '('] = _
    rw [stripLoop, if_neg (by decide), if_neg (by decide), if_neg (by decide), if_neg (by decide),
      if_neg (by decide), if_neg (by decide), stripLoop, if_neg (by decide), if_neg (by decide),
      if_neg (by decide), if_neg (by decide), if_pos ⟨rfl, rfl⟩, stripLoop, List.append_assoc]
    rfl
  have hopen : assembleSlowly ⟨out, none, 0⟩ (n + 1) (head ++ " (".toList)
      = .ok ⟨out, some ⟨n + 1, head, false⟩, 1⟩ := by
    rw [assembleSlowly_of_strip (a := ⟨out, none, 0⟩) hopenStrip, Assembly.file,
      if_neg (by decide)]
    dsimp only
    have htrim := h.solid.trim 0 2
    rw [List.replicate_zero, List.nil_append] at htrim
    rw [htrim, if_neg (fun hboth => absurd hboth.2 (by decide)), h.solid.startsWithWhitespace]
  obtain ⟨m, hitemsRun⟩ := assembleFrom_items items hitems out
    (List.replicate pad ' ' ++ [')'] ++ '\n' :: rest) (n + 1) ⟨n + 1, head, false⟩
  have hcloseStrip : stripLoop (m + 1) 1 false false [] (List.replicate pad ' ' ++ [')'])
      = .ok (List.replicate (pad + 1) ' ', 0, false) := by
    rw [stripLoop_spaces, stripLoop, if_neg (by decide), if_neg (by decide), if_neg (by decide),
      if_neg (by decide), if_neg (by decide), if_pos ⟨rfl, rfl⟩, if_neg (by decide), stripLoop,
      List.nil_append, List.replicate_succ']
  have hclosePrint : Printable (List.replicate pad ' ' ++ [')']) :=
    (printable_spaces pad).append fun c hc => by
      rw [List.mem_singleton.mp hc]
      exact .inl (by decide)
  have hopenPrint : Printable (head ++ " (".toList) := h.printable.append (by
    intro c hc
    rcases List.mem_cons.mp hc with rfl | hc
    · exact .inr rfl
    · rw [List.mem_singleton.mp hc]
      exact .inl (by decide))
  have htext : head ++ (" (\n".toList ++ (items.flatMap (fun i => i.1 ++ ['\n']) ++
      (List.replicate pad ' ' ++ [')']))) ++ '\n' :: rest
      = (head ++ " (".toList) ++ '\n' :: (items.flatMap (fun i => i.1 ++ ['\n']) ++
        (List.replicate pad ' ' ++ [')'] ++ '\n' :: rest)) := by
    simp [List.append_assoc]
  refine ⟨m + 1, ⟨n + 1, head ++ items.flatMap fun i => ' ' :: i.2, false⟩, rfl,
    h.items items hitems, ?_⟩
  rw [htext, hopenPrint.lines, assembleFrom_cons, hopen]
  show assembleFrom _ _ _ = _
  rw [hitemsRun, hclosePrint.lines, assembleFrom_cons,
    assembleSlowly_of_strip (a := ⟨out, some _, 1⟩) hcloseStrip, Assembly.file, if_pos rfl]
  dsimp only
  rw [LogicalLine.join, trim_replicate]
  rfl

/-- **A file of blocks**, each with its newline, assembles to one logical line a block. -/
theorem assembleFrom_blocks (blocks : List (Text × List Text))
    (hblocks : ∀ b ∈ blocks, Block b.1 b.2) :
    ∀ (out : List LogicalLine) (n : Nat), ∃ found : List LogicalLine,
      assembleFrom ⟨out, none, 0⟩ n (lines (blocks.flatMap fun b => b.1 ++ ['\n']))
        = .ok ⟨out ++ found, none, 0⟩ ∧
      List.Forall₂ (fun line b => line.omitsOwner = false ∧ Fields line.text b.2) found blocks := by
  induction blocks with
  | nil =>
    intro out n
    refine ⟨[], ?_, .nil⟩
    rw [List.append_nil]
    rfl
  | cons block blocks ih =>
    intro out n
    obtain ⟨m, line, homits, hfields, hrun⟩ := hblocks block List.mem_cons_self out n
      (blocks.flatMap fun b => b.1 ++ ['\n'])
    obtain ⟨found, hfound, hall⟩ := ih (fun b hb => hblocks b (List.mem_cons_of_mem _ hb))
      (out ++ [line]) m
    refine ⟨line :: found, ?_, .cons ⟨homits, hfields⟩ hall⟩
    rw [List.flatMap_cons, List.append_assoc, List.singleton_append, hrun, hfound,
      List.append_assoc]
    rfl

end Rdns.Zones
