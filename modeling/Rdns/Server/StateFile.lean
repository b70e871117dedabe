import Rdns.Lib.AtomicReplace
import Rdns.Lib.SocketText
import Rdns.Server.UpdateFile

/-!
# Rdns — What is remembered of a transfer

`StateFile` of `rdns/src/secondary.rs`: one line for each replicated zone and master, read
when the process starts and written whole after each contact and each zone that goes.

Main result: `load_snapshotText` — what is written reads back, but for a zone whose name
starts with `#`, which is read as a comment.
-/

namespace Rdns.Server

open Rdns.Lib Rdns.Core Rdns.Present Rdns.Zones

/-! ## Names as text -/

def endsWithRoot (name : Text) : Bool :=
  match name.reverse with
  | '.' :: before => (before.takeWhile (· == '\\')).length % 2 == 0
  | _ => false

def absolute (name : Text) : Text := if endsWithRoot name then name else name ++ ['.']

/-! ## The entries -/

structure TransferState where
  zone : Text
  serial : Serial
  refreshedAt : UInt64
  master : SocketAddr
deriving DecidableEq

def setState (state : TransferState) : List TransferState → List TransferState
  | [] => [state]
  | existing :: rest =>
    if existing.master = state.master && eqIgnoreCase existing.zone state.zone then state :: rest
    else existing :: setState state rest

def forgetState (zone : Text) (entries : List TransferState) : List TransferState :=
  entries.filter fun e => !eqIgnoreCase e.zone zone

/-! ## Written and read -/

def stateLine (entry : TransferState) : Text :=
  entry.zone ++ ' ' :: (decimal entry.serial.value.toNat ++ ' ' :: (decimal entry.refreshedAt.toNat ++
    ' ' :: showSocketAddr entry.master))

def STATE_HEADER : List Text :=
  ["# rdnsd transfer state: zone serial refreshed-at master".toList,
    "# Written by the server. Deleting this only costs a refresh.".toList]

def snapshotText (entries : List TransferState) : Text :=
  (STATE_HEADER ++ entries.map stateLine).flatMap fun line => line ++ ['\n']

def parseU64 (text : Text) : Option UInt64 := (parseBelow 18446744073709551616 text).map UInt64.ofNat

def parseStateLine (line : Text) : Option TransferState :=
  match splitWhitespace line with
  | [zone, serial, refreshedAt, master] => do
    let serial ← parseU32 serial
    let refreshedAt ← parseU64 refreshedAt
    let master ← parseSocketAddr master
    return ⟨absolute zone, ⟨serial⟩, refreshedAt, master⟩
  | _ => none

def readStateLine (line : Text) : Option TransferState :=
  let line := trim line
  if line.isEmpty || line.head? == some '#' then none else parseStateLine line

def loadState (contents : Option Octets) : List TransferState :=
  match contents.bind fromUtf8 with
  | some text => (lines text).filterMap readStateLine
  | none => []

/-! ## The round trip -/

structure Kept (zone : Text) : Prop where
  one_word : ∀ c ∈ zone, isWhitespace c = false
  no_comment : zone.head? ≠ some '#'
  is_absolute : endsWithRoot zone = true

variable {entry : TransferState} {word : Text}

theorem wordsFrom_append (hword : ∀ c ∈ word, isWhitespace c = false) (current rest : Text) :
    wordsFrom current (word ++ rest) = wordsFrom (current ++ word) rest := by
  induction word generalizing current with
  | nil => rw [List.nil_append, List.append_nil]
  | cons c word ih =>
    have hc := hword c List.mem_cons_self
    rw [List.cons_append, wordsFrom, if_neg (by rw [hc]; decide),
      ih fun d hd => hword d (List.mem_cons_of_mem _ hd), List.append_assoc]
    rfl

theorem splitWhitespace_word (hword : ∀ c ∈ word, isWhitespace c = false) (hne : word ≠ [])
    (rest : Text) : splitWhitespace (word ++ ' ' :: rest) = word :: splitWhitespace rest := by
  rw [splitWhitespace, wordsFrom_append hword, List.nil_append, wordsFrom, if_pos (by decide),
    if_neg (by rw [List.isEmpty_iff]; exact hne)]
  rfl

theorem splitWhitespace_last (hword : ∀ c ∈ word, isWhitespace c = false) (hne : word ≠ []) :
    splitWhitespace word = [word] := by
  have hall := wordsFrom_append hword [] []
  rw [List.append_nil] at hall
  rw [splitWhitespace, hall, List.nil_append, wordsFrom, if_neg (by rw [List.isEmpty_iff]; exact hne)]

theorem isGraphic_decimal {n : Nat} {c : Char} (h : c ∈ decimal n) : isGraphic c = true :=
  (isPlain_iff.mp (isPlain_of_isDigit (isDigit_of_mem_decimal h))).1

theorem isGraphic_showSocketAddr (addr : SocketAddr) : ∀ c ∈ showSocketAddr addr, isGraphic c = true := by
  intro c hc
  cases addr with
  | v4 ip port =>
    rw [showSocketAddr] at hc
    rcases List.mem_append.mp hc with hc | hc
    · exact (isPlain_iff.mp (isPlain_showIpv4 _ c hc)).1
    · rcases List.mem_cons.mp hc with rfl | hc
      · decide
      · exact isGraphic_decimal hc
  | v6 ip scope port =>
    rw [showSocketAddr] at hc
    rcases List.mem_append.mp hc with hc | hc
    · rcases List.mem_append.mp hc with hc | hc
      · rcases List.mem_cons.mp hc with rfl | hc
        · decide
        · exact (isPlain_iff.mp (isPlain_showIpv6 _ c hc)).1
      · split at hc
        · cases hc
        · rcases List.mem_cons.mp hc with rfl | hc
          · decide
          · exact isGraphic_decimal hc
    · rcases List.mem_cons.mp hc with rfl | hc
      · decide
      · rcases List.mem_cons.mp hc with rfl | hc
        · decide
        · exact isGraphic_decimal hc

theorem showSocketAddr_ne_nil (addr : SocketAddr) : showSocketAddr addr ≠ [] := by
  cases addr with
  | v4 ip port => exact List.append_ne_nil_of_right_ne_nil _ (List.cons_ne_nil _ _)
  | v6 ip scope port => exact List.append_ne_nil_of_right_ne_nil _ (List.cons_ne_nil _ _)

theorem parseU64_decimal (value : UInt64) : parseU64 (decimal value.toNat) = some value := by
  rw [parseU64, parseBelow_decimal value.toNat_lt, Option.map_some, UInt64.ofNat_toNat]

theorem Kept.ne_nil {zone : Text} (h : Kept zone) : zone ≠ [] := by
  rintro rfl
  exact absurd h.is_absolute (by decide)

theorem parseStateLine_line (h : Kept entry.zone) :
    parseStateLine (stateLine entry) = some entry := by
  have hdecimal : ∀ n, ∀ c ∈ decimal n, isWhitespace c = false :=
    fun n c hc => isWhitespace_of_graphic (isGraphic_decimal hc)
  have hmaster : ∀ c ∈ showSocketAddr entry.master, isWhitespace c = false :=
    fun c hc => isWhitespace_of_graphic (isGraphic_showSocketAddr _ c hc)
  have hwords : splitWhitespace (stateLine entry) = [entry.zone, decimal entry.serial.value.toNat,
      decimal entry.refreshedAt.toNat, showSocketAddr entry.master] := by
    rw [stateLine, splitWhitespace_word h.one_word h.ne_nil,
      splitWhitespace_word (hdecimal _) (decimal_ne_nil _), splitWhitespace_word (hdecimal _) (decimal_ne_nil _),
      splitWhitespace_last hmaster (showSocketAddr_ne_nil _)]
  rw [parseStateLine, hwords]
  dsimp only
  rw [parseU32_decimal, parseU64_decimal, parseSocketAddr_show, absolute, if_pos h.is_absolute]
  rfl

theorem head?_stateLine (h : Kept entry.zone) : (stateLine entry).head? = entry.zone.head? := by
  rw [stateLine, List.head?_append_of_ne_nil _ h.ne_nil]

theorem getLast?_stateLine (entry : TransferState) :
    ∃ c, (stateLine entry).getLast? = some c ∧ isGraphic c = true := by
  have hne := showSocketAddr_ne_nil entry.master
  have hlast : (stateLine entry).getLast? = (showSocketAddr entry.master).getLast? := by
    rw [stateLine, ← List.cons_append, ← List.append_assoc, ← List.cons_append, ← List.append_assoc,
      List.getLast?_append_of_ne_nil _ (List.cons_ne_nil _ _), List.getLast?_cons_of_ne_nil hne]
  refine ⟨_, hlast.trans (List.getLast?_eq_some_getLast hne), ?_⟩
  exact isGraphic_showSocketAddr _ _ (List.getLast_mem hne)

theorem readStateLine_line (h : Kept entry.zone) :
    readStateLine (stateLine entry) = some entry := by
  have hne : stateLine entry ≠ [] := List.append_ne_nil_of_left_ne_nil h.ne_nil _
  have htrim : trim (stateLine entry) = stateLine entry := by
    refine trim_eq_self hne (fun c hc => ?_) fun c hc => ?_
    · rw [head?_stateLine h] at hc
      exact h.one_word c (List.mem_of_head? hc)
    · obtain ⟨last, hlast, hgraphic⟩ := getLast?_stateLine entry
      rw [hlast] at hc
      exact Option.some.inj hc ▸ isWhitespace_of_graphic hgraphic
  have hskip : ((stateLine entry).isEmpty || (stateLine entry).head? == some '#') = false := by
    rw [Bool.or_eq_false_iff, head?_stateLine h]
    exact ⟨List.isEmpty_eq_false_iff.mpr hne, beq_eq_false_iff_ne.mpr h.no_comment⟩
  rw [readStateLine, htrim, hskip, if_neg (by decide), parseStateLine_line h]

theorem newline_notMem_stateLine (h : Kept entry.zone) : '\n' ∉ stateLine entry := by
  intro hmem
  have hgraphic : ∀ {text : Text}, (∀ c ∈ text, isGraphic c = true) → '\n' ∉ text :=
    fun hall hin => absurd (hall _ hin) (by decide)
  rw [stateLine, List.mem_append, List.mem_cons, List.mem_append, List.mem_cons, List.mem_append,
    List.mem_cons] at hmem
  rcases hmem with hmem | hmem | hmem | hmem | hmem | hmem | hmem
  · exact absurd (h.one_word _ hmem) (by decide)
  · cases hmem
  · exact hgraphic (fun c => isGraphic_decimal) hmem
  · cases hmem
  · exact hgraphic (fun c => isGraphic_decimal) hmem
  · cases hmem
  · exact hgraphic (isGraphic_showSocketAddr _) hmem

theorem lines_flatMap {written : List Text} (hnewline : ∀ line ∈ written, '\n' ∉ line)
    (hcr : ∀ line ∈ written, line.getLast? ≠ some '\r') :
    lines (written.flatMap fun line => line ++ ['\n']) = written := by
  induction written with
  | nil => rfl
  | cons line written ih =>
    rw [List.flatMap_cons, List.append_assoc, List.singleton_append,
      lines_line (hnewline line List.mem_cons_self) (hcr line List.mem_cons_self),
      ih (fun l hl => hnewline l (List.mem_cons_of_mem _ hl)) fun l hl => hcr l (List.mem_cons_of_mem _ hl)]

/-- **What is written reads back**, whatever the entries. -/
theorem load_snapshotText {entries : List TransferState} (h : ∀ e ∈ entries, Kept e.zone) :
    loadState (some (toBytes (snapshotText entries))) = entries := by
  have hlines : lines (snapshotText entries) = STATE_HEADER ++ entries.map stateLine := by
    refine lines_flatMap (fun line hline => ?_) fun line hline => ?_
    · rcases List.mem_append.mp hline with hline | hline
      · exact (by decide : ∀ line ∈ STATE_HEADER, '\n' ∉ line) line hline
      · obtain ⟨e, he, rfl⟩ := List.mem_map.mp hline
        exact newline_notMem_stateLine (h e he)
    · rcases List.mem_append.mp hline with hline | hline
      · exact (by decide : ∀ line ∈ STATE_HEADER, line.getLast? ≠ some '\r') line hline
      · obtain ⟨e, -, rfl⟩ := List.mem_map.mp hline
        obtain ⟨last, hlast, hgraphic⟩ := getLast?_stateLine e
        rw [hlast]
        rintro hcr
        rw [Option.some.inj hcr] at hgraphic
        exact absurd hgraphic (by decide)
  have hheader : STATE_HEADER.filterMap readStateLine = [] := by decide
  rw [loadState, Option.bind_some, fromUtf8_toBytes]
  dsimp only
  rw [hlines, List.filterMap_append, hheader, List.nil_append, List.filterMap_map]
  refine (List.filterMap_congr fun e he => ?_).trans (List.filterMap_some ..)
  exact readStateLine_line (h e he)

/-! ## Which zones are kept -/

theorem trailing_backslashes {text : Text} (h : Bare text) :
    (text.reverse.takeWhile (· == '\\')).length % 2 = 0 := by
  induction h with
  | nil => rfl
  | @plain c rest hc _ ih =>
    have hne : (c == '\\') = false := beq_eq_false_iff_ne.mpr (isPlain_iff.mp hc).2.2.2.2.2
    rw [List.reverse_cons, List.takeWhile_append]
    split
    · rw [List.takeWhile_cons, hne]
      simp only [Bool.false_eq_true, if_false, List.append_nil]
      rename_i hall
      rw [← hall]
      exact ih
    · exact ih
  | @escaped c rest hc _ ih =>
    rw [List.reverse_cons, List.reverse_cons, List.append_assoc, List.takeWhile_append]
    split
    next hall =>
      rw [hall] at ih
      show (rest.reverse ++ List.takeWhile _ [c, '\\']).length % 2 = 0
      rw [List.length_append, List.takeWhile_cons]
      split
      · show (rest.reverse.length + 2) % 2 = 0
        omega
      · show (rest.reverse.length + 0) % 2 = 0
        omega
    · exact ih

theorem endsWithRoot_toPresentation (name : Name) : endsWithRoot (toPresentation name) = true := by
  rw [toPresentation_eq]
  split
  · decide
  next hne =>
    obtain ⟨front, last, heq⟩ : ∃ front last, name.labels = front ++ [last] :=
      ⟨_, _, (List.dropLast_append_getLast hne).symm⟩
    have htext : labelsText name.labels = (labelsText front ++ escapeLabel last) ++ ['.'] := by grind [labelsText]
    have hpairs := trailing_backslashes ((bare_labelsText front).append (bare_escapeLabel last))
    rw [htext, endsWithRoot, List.reverse_append, List.reverse_singleton, List.singleton_append]
    exact beq_iff_eq.mpr hpairs

theorem kept_toPresentation {name : Name} (h : (toPresentation name).head? ≠ some '#') :
    Kept (toPresentation name) where
  one_word c hc := isWhitespace_of_graphic ((bare_toPresentation name).graphic c hc)
  no_comment := h
  is_absolute := endsWithRoot_toPresentation name

theorem of_mem_wordsFrom {current text : Text} (hcurrent : ∀ c ∈ current, isWhitespace c = false) :
    ∀ word ∈ wordsFrom current text, word ≠ [] ∧ ∀ c ∈ word, isWhitespace c = false := by
  induction text generalizing current with
  | nil =>
    intro word hword
    rw [wordsFrom] at hword
    split at hword
    · cases hword
    next hne =>
      obtain rfl := List.mem_singleton.mp hword
      exact ⟨fun heq => hne (by rw [heq]; rfl), hcurrent⟩
  | cons c text ih =>
    intro word hword
    rw [wordsFrom] at hword
    split at hword
    · split at hword
      · exact ih (fun d hd => absurd hd List.not_mem_nil) word hword
      next hne =>
        rcases List.mem_cons.mp hword with rfl | hword
        · exact ⟨fun heq => hne (by rw [heq]; rfl), hcurrent⟩
        · exact ih (fun d hd => absurd hd List.not_mem_nil) word hword
    next hc =>
      refine ih (fun d hd => ?_) word hword
      rcases List.mem_append.mp hd with hd | hd
      · exact hcurrent d hd
      · rw [List.mem_singleton.mp hd]
        exact Bool.not_eq_true _ ▸ hc

theorem head?_wordsFrom {c : Char} (current text : Text) :
    ∃ word rest, wordsFrom (c :: current) text = word :: rest ∧ word.head? = some c := by
  induction text generalizing current with
  | nil => exact ⟨_, _, rfl, rfl⟩
  | cons d text ih =>
    rw [wordsFrom]
    split
    · exact ⟨_, _, rfl, rfl⟩
    · exact ih (current ++ [d])

theorem of_mem_loadState {contents : Option Octets} {e : TransferState} (h : e ∈ loadState contents)
    (habsolute : endsWithRoot e.zone = true) : Kept e.zone := by
  rw [loadState] at h
  split at h
  · obtain ⟨raw, -, hread⟩ := List.mem_filterMap.mp h
    rw [readStateLine] at hread
    split at hread
    · cases hread
    next hline =>
      rw [Bool.not_eq_true, Bool.or_eq_false_iff] at hline
      obtain ⟨hne, hcomment⟩ := hline
      rw [parseStateLine] at hread
      split at hread
      next zone serial refreshedAt master hwords =>
        simp only [Option.bind_eq_bind, Option.bind_eq_some_iff] at hread
        obtain ⟨_, -, _, -, _, -, hread⟩ := hread
        obtain rfl := Option.some.inj hread
        have hword := of_mem_wordsFrom (fun d hd => absurd hd List.not_mem_nil) zone
          (hwords ▸ List.mem_cons_self)
        have hhead : zone.head? ≠ some '#' := by
          obtain ⟨c, tail, htrim⟩ := List.exists_cons_of_ne_nil (List.isEmpty_eq_false_iff.mp hne)
          have hc := @head?_trim c raw (by rw [htrim]; rfl)
          rw [htrim, splitWhitespace, wordsFrom, if_neg (by rw [hc]; decide)] at hwords
          obtain ⟨first, rest, hfirst, hstart⟩ := @head?_wordsFrom c [] tail
          rw [List.nil_append, hfirst] at hwords
          rw [← (List.cons.inj hwords).1, hstart]
          rw [htrim] at hcomment
          exact beq_eq_false_iff_ne.mp hcomment
        refine ⟨fun c hc => ?_, ?_, habsolute⟩
        · rw [absolute] at hc
          split at hc
          · exact hword.2 c hc
          · rcases List.mem_append.mp hc with hc | hc
            · exact hword.2 c hc
            · rw [List.mem_singleton.mp hc]
              decide
        · grind [absolute, List.head?_append_of_ne_nil]
      · cases hread
  · cases h

end Rdns.Server
