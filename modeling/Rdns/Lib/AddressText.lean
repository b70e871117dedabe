import Mathlib.Data.List.TakeWhile
import Rdns.Lib.Text

/-!
# IPv4 and IPv6 addresses as text

The standard library's `Display` and `FromStr` for the two address types, over octets.
The parser reads a prefix of the text and says what is left; a failed read consumes
nothing, so every reader is a function of the text in front of it.
-/

namespace Rdns.Lib

/-! ## Writing -/

def separated (sep : Char) (parts : List Text) : Text := parts.flatMap fun part => sep :: part

def joined (sep : Char) : List Text → Text
  | [] => []
  | part :: parts => part ++ separated sep parts

def hexadecimal (n : Nat) : Text := Nat.toDigits 16 n

def showIpv4 (octets : Octets) : Text := joined '.' (octets.map fun octet => decimal octet.toNat)

/-- The 16-bit groups of an address. -/
def segmentsOf : Octets → List Nat
  | hi :: lo :: rest => (hi.toNat * 256 + lo.toNat) :: segmentsOf rest
  | _ => []

def octetsOf (segments : List Nat) : Octets :=
  segments.flatMap fun segment => [UInt8.ofNat (segment / 256), UInt8.ofNat (segment % 256)]

structure Run where
  start : Nat
  len : Nat

def longestRun (i : Nat) (current longest : Run) : List Nat → Run
  | [] => longest
  | segment :: rest =>
    if segment = 0 then
      let current := if current.len = 0 then ⟨i, 1⟩ else ⟨current.start, current.len + 1⟩
      longestRun (i + 1) current (if current.len > longest.len then current else longest) rest
    else longestRun (i + 1) ⟨0, 0⟩ longest rest

def showGroups (segments : List Nat) : Text := joined ':' (segments.map hexadecimal)

def showSegments (segments : List Nat) : Text :=
  let zeroes := longestRun 0 ⟨0, 0⟩ ⟨0, 0⟩ segments
  if zeroes.len > 1 then
    showGroups (segments.take zeroes.start) ++ ':' :: ':' ::
      showGroups (segments.drop (zeroes.start + zeroes.len))
  else showGroups segments

/-- An address that maps an IPv4 one is written with its dotted quad. -/
def showIpv6 (octets : Octets) : Text :=
  if octets.take 12 = [0, 0, 0, 0, 0, 0, 0, 0, 0, 0, 0xff, 0xff] then
    "::ffff:".toList ++ showIpv4 (octets.drop 12)
  else showSegments (segmentsOf octets)

/-! ## Reading -/

def toDigit (radix : Nat) (c : Char) : Option Nat :=
  let value :=
    if '0' ≤ c ∧ c ≤ '9' then some (c.toNat - 48)
    else if 'a' ≤ c ∧ c ≤ 'z' then some (c.toNat - 87)
    else if 'A' ≤ c ∧ c ≤ 'Z' then some (c.toNat - 55)
    else none
  value.filter fun d => d < radix

def isDigitOf (radix : Nat) (c : Char) : Bool := (toDigit radix c).isSome

def digitsValue (radix : Nat) (digits : Text) : Nat :=
  digits.foldl (fun acc c => acc * radix + (toDigit radix c).getD 0) 0

def readNumber (radix maxDigits : Nat) (allowZeroPrefix : Bool) (limit : Nat) (text : Text) :
    Option (Nat × Text) :=
  let digits := text.takeWhile (isDigitOf radix)
  if digits.length > maxDigits || digits.isEmpty ||
      (!allowZeroPrefix && digits.head? == some '0' && digits.length > 1) then none
  else
    let value := digitsValue radix digits
    if value < limit then some (value, text.dropWhile (isDigitOf radix)) else none

def readGivenChar (c : Char) : Text → Option Text
  | [] => none
  | x :: rest => if x = c then some rest else none

def readSeparator {α : Type} (sep : Char) (index : Nat) (inner : Text → Option (α × Text))
    (text : Text) : Option (α × Text) :=
  if index > 0 then (readGivenChar sep text).bind inner else inner text

def readOctet (index : Nat) (text : Text) : Option (Nat × Text) :=
  readSeparator '.' index (readNumber 10 3 false 256) text

def readIpv4 (text : Text) : Option (List Nat × Text) := do
  let (a, text) ← readOctet 0 text
  let (b, text) ← readOctet 1 text
  let (c, text) ← readOctet 2 text
  let (d, text) ← readOctet 3 text
  return ([a, b, c, d], text)

def parseIpv4 (text : Text) : Option Octets :=
  if (toBytes text).length > 15 then none
  else match readIpv4 text with
    | some (octets, []) => some (octets.map UInt8.ofNat)
    | _ => none

/-- Up to `count` groups from the `index`-th of their row: the groups, whether the last
two were a dotted quad, and what follows. -/
def readGroups (index : Nat) : Nat → Text → List Nat × Bool × Text
  | 0, text => ([], false, text)
  | count + 1, text =>
    match if count > 0 then readSeparator ':' index readIpv4 text else none with
    | some (quad, rest) =>
      ([quad.getD 0 0 * 256 + quad.getD 1 0, quad.getD 2 0 * 256 + quad.getD 3 0], true, rest)
    | none =>
      match readSeparator ':' index (readNumber 16 4 true 65536) text with
      | none => ([], false, text)
      | some (group, rest) =>
        let (groups, quad, rest) := readGroups (index + 1) count rest
        (group :: groups, quad, rest)

def readIpv6 (text : Text) : Option (List Nat × Text) :=
  let (head, quad, rest) := readGroups 0 8 text
  if head.length = 8 then some (head, rest)
  else if quad then none
  else do
    let rest ← readGivenChar ':' rest
    let rest ← readGivenChar ':' rest
    let (tail, _, rest) := readGroups 0 (8 - (head.length + 1)) rest
    return (head ++ List.replicate (8 - head.length - tail.length) 0 ++ tail, rest)

def parseIpv6 (text : Text) : Option Octets :=
  match readIpv6 text with
  | some (segments, []) => some (octetsOf segments)
  | _ => none

/-! ## Numbers -/

theorem toDigit_digitChar {radix d : Nat} (hradix : radix ≤ 16) (h : d < radix) :
    toDigit radix d.digitChar = some d := by
  have hlt : d < 16 := by omega
  have hall : ∀ d : Fin 16, toDigit 16 d.val.digitChar = some d.val := by decide
  have h16 := hall ⟨d, hlt⟩
  rw [toDigit, Option.filter_eq_some_iff] at h16 ⊢
  exact ⟨h16.1, decide_eq_true h⟩

theorem digits_spec {radix : Nat} (h1 : 1 < radix) (h16 : radix ≤ 16) (n : Nat) :
    (∀ c ∈ Nat.toDigits radix n, isDigitOf radix c = true) ∧
    digitsValue radix (Nat.toDigits radix n) = n := by
  induction n using Nat.base_induction radix h1 with
  | single m hm =>
    rw [Nat.toDigits_of_lt_base hm]
    have hdigit := toDigit_digitChar h16 hm
    refine ⟨fun c hc => ?_, ?_⟩
    · rw [List.mem_singleton.mp hc, isDigitOf, hdigit]
      rfl
    · rw [digitsValue, List.foldl_cons, List.foldl_nil, hdigit]
      simp
  | digit m k hk hm ih =>
    obtain ⟨ihall, ihvalue⟩ := ih
    have hdigit := toDigit_digitChar h16 hk
    rw [← Nat.toDigits_append_toDigits h1 hm hk, Nat.toDigits_of_lt_base hk]
    refine ⟨fun c hc => ?_, ?_⟩
    · rcases List.mem_append.mp hc with hc | hc
      · exact ihall c hc
      · rw [List.mem_singleton.mp hc, isDigitOf, hdigit]
        rfl
    · rw [digitsValue, List.foldl_append]
      show List.foldl _ (digitsValue radix (Nat.toDigits radix m)) _ = _
      rw [ihvalue, List.foldl_cons, List.foldl_nil, hdigit, Option.getD_some, Nat.mul_comm]

def EndsNumber (radix : Nat) (rest : Text) : Prop :=
  ∀ c, rest.head? = some c → isDigitOf radix c = false

theorem takeWhile_digits {radix : Nat} {digits rest : Text}
    (hdigits : ∀ c ∈ digits, isDigitOf radix c = true) (hrest : EndsNumber radix rest) :
    (digits ++ rest).takeWhile (isDigitOf radix) = digits ∧
    (digits ++ rest).dropWhile (isDigitOf radix) = rest := by
  have hstop : rest.takeWhile (isDigitOf radix) = [] ∧ rest.dropWhile (isDigitOf radix) = rest := by
    cases rest with
    | nil => exact ⟨rfl, rfl⟩
    | cons c rest =>
      have hc : ¬ isDigitOf radix c = true := by
        rw [hrest c rfl]
        decide
      exact ⟨List.takeWhile_cons_of_neg hc, List.dropWhile_cons_of_neg hc⟩
  refine ⟨?_, ?_⟩
  · rw [List.takeWhile_append_of_pos hdigits, hstop.1, List.append_nil]
  · rw [List.dropWhile_append_of_pos hdigits, hstop.2]

theorem toDigits_head_zero {radix : Nat} (h1 : 1 < radix) (h16 : radix ≤ 16) (n : Nat)
    (h : (Nat.toDigits radix n).head? = some '0') : n = 0 := by
  induction n using Nat.base_induction radix h1 with
  | single m hm =>
    rw [Nat.toDigits_of_lt_base hm] at h
    have hdigit := toDigit_digitChar h16 hm
    rw [Option.some.inj h] at hdigit
    have hzero : toDigit radix '0' = some 0 := by
      have := toDigit_digitChar h16 (show 0 < radix by omega)
      exact this
    rw [hzero] at hdigit
    exact (Option.some.inj hdigit).symm
  | digit m k hk hm ih =>
    rw [← Nat.toDigits_append_toDigits h1 hm hk, List.head?_append_of_ne_nil _ Nat.toDigits_ne_nil]
      at h
    have := ih h
    omega

/-- **A number written out is the number read.** -/
theorem readNumber_digits {radix maxDigits limit n : Nat} {allowZeroPrefix : Bool} {rest : Text}
    (h1 : 1 < radix) (h16 : radix ≤ 16) (hlimit : n < limit)
    (hlen : (Nat.toDigits radix n).length ≤ maxDigits) (hrest : EndsNumber radix rest) :
    readNumber radix maxDigits allowZeroPrefix limit (Nat.toDigits radix n ++ rest)
      = some (n, rest) := by
  obtain ⟨hall, hvalue⟩ := digits_spec h1 h16 n
  obtain ⟨htake, hdrop⟩ := takeWhile_digits hall hrest
  have hzero : ((Nat.toDigits radix n).head? == some '0' &&
      decide ((Nat.toDigits radix n).length > 1)) = false := by
    rw [Bool.and_eq_false_iff]
    by_cases hhead : (Nat.toDigits radix n).head? = some '0'
    · grind [toDigits_head_zero]
    · left
      exact beq_eq_false_iff_ne.mpr hhead
  have hguard : (decide ((Nat.toDigits radix n).length > maxDigits) ||
      (Nat.toDigits radix n).isEmpty ||
      (!allowZeroPrefix && (Nat.toDigits radix n).head? == some '0' &&
        decide ((Nat.toDigits radix n).length > 1))) = false := by
    rw [Bool.or_eq_false_iff, Bool.or_eq_false_iff, Bool.and_assoc, hzero, Bool.and_false]
    refine ⟨⟨decide_eq_false (Nat.not_lt.mpr hlen), ?_⟩, rfl⟩
    exact List.isEmpty_eq_false_iff.mpr Nat.toDigits_ne_nil
  rw [readNumber, htake, hdrop]
  dsimp only
  rw [hguard, if_neg (by decide), hvalue, if_pos hlimit]

theorem readNumber_none {radix maxDigits limit : Nat} {allowZeroPrefix : Bool} {text : Text}
    (h : EndsNumber radix text) : readNumber radix maxDigits allowZeroPrefix limit text = none := by
  have htake := (@takeWhile_digits radix [] text (fun _ hc => (by cases hc)) h).1
  rw [List.nil_append] at htake
  rw [readNumber, htake]
  dsimp only
  rw [if_pos]
  simp

/-! ## IPv4 -/

theorem decimal_length_octet (octet : UInt8) : (decimal octet.toNat).length ≤ 3 := by
  have := octet.toNat_lt
  exact (Nat.length_toDigits_le_iff (by decide) (by decide)).mpr (by omega)

theorem isDigitOf_dot : isDigitOf 10 '.' = false := by decide

theorem endsNumber_nil (radix : Nat) : EndsNumber radix [] := fun _ h => (by cases h)

theorem endsNumber_cons {radix : Nat} {c : Char} (h : isDigitOf radix c = false) (rest : Text) :
    EndsNumber radix (c :: rest) := by
  intro d hd
  cases hd
  exact h

theorem readOctet_zero {octet : UInt8} {rest : Text} (hrest : EndsNumber 10 rest) :
    readOctet 0 (decimal octet.toNat ++ rest) = some (octet.toNat, rest) := by
  rw [readOctet, readSeparator, if_neg (by decide)]
  exact readNumber_digits (by decide) (by decide) octet.toNat_lt (decimal_length_octet octet) hrest

theorem readOctet_next {octet : UInt8} {rest : Text} {index : Nat} (h : 0 < index)
    (hrest : EndsNumber 10 rest) :
    readOctet index ('.' :: decimal octet.toNat ++ rest) = some (octet.toNat, rest) := by
  rw [readOctet, readSeparator, if_pos h]
  exact readNumber_digits (by decide) (by decide) octet.toNat_lt (decimal_length_octet octet) hrest

theorem showIpv4_quad (a b c d : UInt8) :
    showIpv4 [a, b, c, d] = decimal a.toNat ++ ('.' :: decimal b.toNat ++
      ('.' :: decimal c.toNat ++ ('.' :: decimal d.toNat))) := by
  simp only [showIpv4, List.map_cons, List.map_nil, joined, separated, List.flatMap_cons,
    List.flatMap_nil, List.append_nil, List.cons_append]

theorem readIpv4_show (a b c d : UInt8) {rest : Text} (hrest : EndsNumber 10 rest) :
    readIpv4 (showIpv4 [a, b, c, d] ++ rest) = some ([a.toNat, b.toNat, c.toNat, d.toNat], rest) := by
  have hdot : ∀ tail, EndsNumber 10 ('.' :: tail) := endsNumber_cons isDigitOf_dot
  rw [showIpv4_quad, readIpv4, List.append_assoc, readOctet_zero (by exact hdot _)]
  show (readOctet 1 ((_ ++ _) ++ _) >>= _) = _
  rw [List.append_assoc, readOctet_next (by decide) (by exact hdot _)]
  show (readOctet 2 ((_ ++ _) ++ _) >>= _) = _
  rw [List.append_assoc, readOctet_next (by decide) (by exact hdot _)]
  show (readOctet 3 (_ ++ _) >>= _) = _
  rw [readOctet_next (by decide) hrest]
  rfl

theorem readIpv4_none {text : Text}
    (h : (text.dropWhile (isDigitOf 10)).head? ≠ some '.') : readIpv4 text = none := by
  rw [readIpv4, readOctet, readSeparator, if_neg (by decide), readNumber]
  dsimp only
  split
  · rfl
  · split
    · show (readOctet 1 (text.dropWhile (isDigitOf 10)) >>= _) = none
      have hsep : readOctet 1 (text.dropWhile (isDigitOf 10)) = none := by
        rw [readOctet, readSeparator, if_pos (by decide)]
        cases hrest : text.dropWhile (isDigitOf 10) with
        | nil => rfl
        | cons c rest =>
          rw [hrest] at h
          have hc : c ≠ '.' := fun heq => h (by rw [heq]; rfl)
          rw [readGivenChar, if_neg hc]
          rfl
      rw [hsep]
      rfl
    · rfl

/-- **An IPv4 address reads back.** -/
theorem parseIpv4_show {octets : Octets} (h : octets.length = 4) :
    parseIpv4 (showIpv4 octets) = some octets := by
  match octets, h with
  | [a, b, c, d], _ =>
    have hread := readIpv4_show a b c d (endsNumber_nil 10)
    rw [List.append_nil] at hread
    have hdot : ∀ x : UInt8, IsAscii ('.' :: decimal x.toNat) :=
      fun x => isAscii_cons (by decide) (isAscii_decimal _)
    have hascii : IsAscii (showIpv4 [a, b, c, d]) := by grind [showIpv4_quad, isAscii_append, isAscii_decimal]
    have hlen : (toBytes (showIpv4 [a, b, c, d])).length ≤ 15 := by
      have ha := decimal_length_octet a
      have hb := decimal_length_octet b
      have hc := decimal_length_octet c
      have hd := decimal_length_octet d
      rw [length_toBytes hascii, showIpv4_quad]
      simp only [List.length_append, List.length_cons]
      omega
    rw [parseIpv4, if_neg (Nat.not_lt.mpr hlen), hread]
    simp only [List.map_cons, List.map_nil, UInt8.ofNat_toNat]

/-! ## IPv6 -/

theorem hexadecimal_length {group : Nat} (h : group < 65536) : (hexadecimal group).length ≤ 4 :=
  (Nat.length_toDigits_le_iff (by decide) (by decide)).mpr (by omega)

theorem isDigitOf_of_mem_hexadecimal {group : Nat} {c : Char} (h : c ∈ hexadecimal group) :
    isDigitOf 16 c = true :=
  (digits_spec (by decide) (by decide) group).1 c h

theorem readNumber_hexadecimal {group : Nat} {rest : Text} (h : group < 65536)
    (hrest : EndsNumber 16 rest) :
    readNumber 16 4 true 65536 (hexadecimal group ++ rest) = some (group, rest) :=
  readNumber_digits (by decide) (by decide) h (hexadecimal_length h) hrest

def AtColon (rest : Text) : Prop := ∀ c, rest.head? = some c → c = ':'

theorem AtColon.endsNumber {rest : Text} (h : AtColon rest) {radix : Nat}
    (hcolon : isDigitOf radix ':' = false) : EndsNumber radix rest := by
  intro c hc
  rw [h c hc]
  exact hcolon

theorem readIpv4_hexadecimal {group : Nat} {rest : Text} (hrest : AtColon rest) :
    readIpv4 (hexadecimal group ++ rest) = none := by
  apply readIpv4_none
  have hdot : ∀ c ∈ hexadecimal group, c ≠ '.' := by
    rintro c hc rfl
    exact absurd (isDigitOf_of_mem_hexadecimal hc) (by decide)
  generalize hexadecimal group = digits at hdot
  induction digits with
  | nil =>
    rw [List.nil_append]
    cases rest with
    | nil => simp
    | cons c rest =>
      have hc := hrest c rfl
      rw [hc, List.dropWhile_cons_of_neg (by decide)]
      simp
  | cons c digits ih =>
    rw [List.cons_append, List.dropWhile_cons]
    split
    · exact ih fun d hd => hdot d (List.mem_cons_of_mem _ hd)
    · intro heq
      exact hdot c List.mem_cons_self (Option.some.inj heq)

def EndsRow (rest : Text) : Prop := rest = [] ∨ ∃ tail, rest = ':' :: ':' :: tail

theorem EndsRow.atColon {rest : Text} (h : EndsRow rest) : AtColon rest := by
  rcases h with rfl | ⟨tail, rfl⟩
  · exact fun _ hc => (by cases hc)
  · intro c hc
    exact (Option.some.inj hc).symm

theorem atColon_separated {parts : List Text} {rest : Text} (h : AtColon rest) :
    AtColon (separated ':' parts ++ rest) := by
  cases parts with
  | nil => exact h
  | cons part parts =>
    intro c hc
    exact (Option.some.inj hc).symm

def rowText (index : Nat) (groups : List Nat) : Text :=
  if index = 0 then showGroups groups else separated ':' (groups.map hexadecimal)

theorem readGroups_none {rest : Text} (h : EndsRow rest) (index count : Nat) :
    readGroups index count rest = ([], false, rest) := by
  have hcolon : ∀ (inner : Text → Option (List Nat × Text)), inner rest = none →
      (∀ tail, inner (':' :: tail) = none) → readSeparator ':' index inner rest = none := by
    intro inner hrest htail
    rw [readSeparator]
    split
    · rcases h with rfl | ⟨tail, rfl⟩
      · rfl
      · exact htail tail
    · exact hrest
  have hquad : readSeparator ':' index readIpv4 rest = none := by
    refine hcolon readIpv4 ?_ fun tail => readIpv4_none (by simp [isDigitOf, toDigit])
    rcases h with rfl | ⟨tail, rfl⟩
    · rfl
    · exact readIpv4_none (by simp [isDigitOf, toDigit])
  have hnumber : readSeparator ':' index (readNumber 16 4 true 65536) rest = none := by
    rw [readSeparator]
    split
    · rcases h with rfl | ⟨tail, rfl⟩
      · rfl
      · show readNumber 16 4 true 65536 (':' :: tail) = none
        exact readNumber_none (endsNumber_cons (by decide) tail)
    · exact readNumber_none (h.atColon.endsNumber (by decide))
  cases count with
  | zero => rfl
  | succ count =>
    rw [readGroups, hquad, ite_self, hnumber]

/-- **A row of groups is read whole.** -/
theorem readGroups_row {rest : Text} (hrest : EndsRow rest) :
    ∀ (groups : List Nat) (index count : Nat), (∀ g ∈ groups, g < 65536) →
      groups.length ≤ count →
      readGroups index count (rowText index groups ++ rest) = (groups, false, rest) := by
  intro groups
  induction groups with
  | nil =>
    intro index count _ _
    have hnil : rowText index [] = [] := by
      rw [rowText]
      split <;> rfl
    rw [hnil, List.nil_append]
    exact readGroups_none hrest index count
  | cons group groups ih =>
    intro index count hsmall hcount
    cases count with
    | zero => exact absurd hcount (by simp)
    | succ count =>
      have hgroup := hsmall group List.mem_cons_self
      have hafter : AtColon (separated ':' (groups.map hexadecimal) ++ rest) :=
        atColon_separated hrest.atColon
      -- the separator of the row comes off, and the first group is in front
      have hstart : ∀ {α : Type} (inner : Text → Option (α × Text)),
          readSeparator ':' index inner (rowText index (group :: groups) ++ rest)
            = inner (hexadecimal group ++ (separated ':' (groups.map hexadecimal) ++ rest)) := by
        intro α inner
        rw [readSeparator, rowText]
        by_cases hindex : index = 0
        · rw [if_neg (by omega), if_pos hindex, showGroups, List.map_cons, joined,
            List.append_assoc]
        · rw [if_pos (by omega), if_neg hindex, List.map_cons, separated, List.flatMap_cons,
            List.cons_append, List.cons_append, readGivenChar, if_pos rfl, Option.bind_some,
            List.append_assoc]
          rfl
      have hnext := ih (index + 1) count (fun g hg => hsmall g (List.mem_cons_of_mem _ hg))
        (by simpa using hcount)
      rw [rowText, if_neg (by omega)] at hnext
      rw [readGroups, hstart, hstart, readIpv4_hexadecimal hafter, ite_self,
        readNumber_hexadecimal hgroup (hafter.endsNumber (by decide))]
      dsimp only
      rw [hnext]

/-! ## The three spellings -/

theorem length_segmentsOf {octets : Octets} (h : octets.length = 16) :
    (segmentsOf octets).length = 8 := by
  match octets, h with
  | [_, _, _, _, _, _, _, _, _, _, _, _, _, _, _, _], _ => rfl

theorem segmentsOf_lt : ∀ octets : Octets, ∀ g ∈ segmentsOf octets, g < 65536
  | [] => fun g hg => by cases hg
  | [_] => fun g hg => by cases hg
  | hi :: lo :: rest => by
    intro g hg
    rcases List.mem_cons.mp hg with rfl | hg
    · have := hi.toNat_lt
      have := lo.toNat_lt
      omega
    · exact segmentsOf_lt rest g hg

theorem octetsOf_segmentsOf : ∀ {octets : Octets}, octets.length % 2 = 0 → octetsOf (segmentsOf octets) = octets
  | [], _ => rfl
  | [_], h => by cases h
  | hi :: lo :: rest, h => by
    have hhi : (hi.toNat * 256 + lo.toNat) / 256 = hi.toNat := by
      have := lo.toNat_lt
      omega
    have hlo : (hi.toNat * 256 + lo.toNat) % 256 = lo.toNat := by
      have := lo.toNat_lt
      omega
    have hrest : rest.length % 2 = 0 := by
      simp only [List.length_cons] at h
      omega
    rw [segmentsOf, octetsOf, List.flatMap_cons, hhi, hlo, UInt8.ofNat_toNat, UInt8.ofNat_toNat]
    show [hi, lo] ++ octetsOf (segmentsOf rest) = _
    rw [octetsOf_segmentsOf hrest]
    rfl

def ZeroRun (segments : List Nat) (run : Run) : Prop :=
  run.start + run.len ≤ segments.length ∧
    (segments.drop run.start).take run.len = List.replicate run.len 0

theorem longestRun_spec (all : List Nat) :
    ∀ (rest : List Nat) (i : Nat) (current longest : Run), all.drop i = rest → i ≤ all.length →
      ZeroRun all current → ZeroRun all longest →
      (current.len = 0 ∨ current.start + current.len = i) →
      ZeroRun all (longestRun i current longest rest) := by
  intro rest
  induction rest with
  | nil => intro i current longest _ _ _ hl _; exact hl
  | cons segment rest ih =>
    intro i current longest hdrop hi hc hl hend
    have hlt : i < all.length := by grind
    have hget : all[i] = segment := by grind [List.drop_eq_getElem_cons]
    have hrest : all.drop (i + 1) = rest := by grind [List.drop_eq_getElem_cons]
    rw [longestRun]
    split
    · rename_i hzero
      -- the current run grows by this group
      generalize hnew : (if current.len = 0 then (⟨i, 1⟩ : Run)
        else ⟨current.start, current.len + 1⟩) = grown
      have hgrown : ZeroRun all grown ∧ grown.start + grown.len = i + 1 := by
        rw [← hnew]
        split
        · refine ⟨⟨by show i + 1 ≤ _; omega, ?_⟩, rfl⟩
          show (all.drop i).take 1 = [0]
          rw [hdrop, hzero]
          rfl
        · rename_i hlen
          have hstart := hend.resolve_left hlen
          refine ⟨⟨by show current.start + (current.len + 1) ≤ _; omega, ?_⟩, by
            show current.start + (current.len + 1) = i + 1; omega⟩
          show (all.drop current.start).take (current.len + 1) = List.replicate (current.len + 1) 0
          rw [List.take_add_one, hc.2, List.getElem?_drop, hstart, List.getElem?_eq_getElem hlt, hget,
            hzero, List.replicate_succ']
          rfl
      refine ih (i + 1) _ _ hrest (by omega) hgrown.1 ?_ (.inr hgrown.2)
      split
      · exact hgrown.1
      · exact hl
    · exact ih (i + 1) ⟨0, 0⟩ longest hrest (by omega) ⟨by simp, by simp⟩ hl (.inl rfl)

theorem readIpv6_showSegments {segments : List Nat} (hlen : segments.length = 8)
    (hsmall : ∀ g ∈ segments, g < 65536) :
    readIpv6 (showSegments segments) = some (segments, []) := by
  have hrun := longestRun_spec segments segments 0 ⟨0, 0⟩ ⟨0, 0⟩ rfl (by omega) ⟨by simp, by simp⟩
    ⟨by simp, by simp⟩ (.inl rfl)
  rw [showSegments]
  generalize longestRun 0 ⟨0, 0⟩ ⟨0, 0⟩ segments = zeroes at hrun ⊢
  obtain ⟨start, len⟩ := zeroes
  obtain ⟨hbound, hzeros⟩ := hrun
  dsimp only at hbound hzeros ⊢
  split
  · rename_i hlong
    have hfront := @readGroups_row (':' :: ':' :: showGroups (segments.drop (start + len)))
      (.inr ⟨_, rfl⟩) (segments.take start) 0 8
      (fun g hg => hsmall g (List.mem_of_mem_take hg)) (by rw [List.length_take]; omega)
    have hback := @readGroups_row [] (.inl rfl) (segments.drop (start + len)) 0
      (8 - ((segments.take start).length + 1))
      (fun g hg => hsmall g (List.mem_of_mem_drop hg))
      (by rw [List.length_drop, List.length_take]; omega)
    rw [rowText, if_pos rfl] at hfront hback
    rw [List.append_nil] at hback
    rw [readIpv6, hfront]
    dsimp only
    rw [if_neg (by rw [List.length_take]; omega), if_neg (by decide)]
    show some (segments.take start ++ List.replicate (8 - (segments.take start).length -
      (readGroups 0 _ _).1.length) 0 ++ (readGroups 0 _ _).1, (readGroups 0 _ _).2.2) = _
    rw [hback]
    dsimp only
    have hmiddle : 8 - (segments.take start).length - (segments.drop (start + len)).length = len := by
      rw [List.length_take, List.length_drop]
      omega
    rw [hmiddle, ← hzeros, ← List.drop_drop, List.append_assoc, List.take_append_drop,
      List.take_append_drop]
  · have hall := @readGroups_row [] (.inl rfl) segments 0 8 hsmall (by omega)
    rw [rowText, if_pos rfl, List.append_nil] at hall
    rw [readIpv6, hall]
    dsimp only
    rw [if_pos hlen]

theorem readIpv6_mapped (a b c d : UInt8) :
    readIpv6 ("::ffff:".toList ++ showIpv4 [a, b, c, d])
      = some ([0, 0, 0, 0, 0, 65535, a.toNat * 256 + b.toNat, c.toNat * 256 + d.toNat], []) := by
  have hquad := readIpv4_show a b c d (endsNumber_nil 10)
  rw [List.append_nil] at hquad
  have hhead : readGroups 0 8 ("::ffff:".toList ++ showIpv4 [a, b, c, d])
      = ([], false, "::ffff:".toList ++ showIpv4 [a, b, c, d]) :=
    readGroups_none (.inr ⟨_, rfl⟩) 0 8
  have hffff : ∀ {α : Type} (inner : Text → Option (α × Text)) (text : Text),
      readSeparator ':' 0 inner text = inner text := fun inner text => rfl
  have hcolon : ∀ {α : Type} (inner : Text → Option (α × Text)) (text : Text),
      readSeparator ':' 1 inner (':' :: text) = inner text := fun inner text => rfl
  have hgroup : readNumber 16 4 true 65536 ("ffff:".toList ++ showIpv4 [a, b, c, d])
      = some (65535, ':' :: showIpv4 [a, b, c, d]) :=
    @readNumber_hexadecimal 65535 (':' :: showIpv4 [a, b, c, d]) (by decide)
      (endsNumber_cons (by decide) _)
  have hno : readIpv4 ("ffff:".toList ++ showIpv4 [a, b, c, d]) = none :=
    readIpv4_none (by simp [isDigitOf, toDigit])
  have htail : readGroups 0 7 ("ffff:".toList ++ showIpv4 [a, b, c, d])
      = ([65535, a.toNat * 256 + b.toNat, c.toNat * 256 + d.toNat], true, []) := by
    rw [readGroups, hffff, hffff, hno, ite_self, hgroup]
    dsimp only
    rw [readGroups, hcolon, hquad]
    rfl
  rw [readIpv6, hhead]
  dsimp only
  rw [if_neg (by decide), if_neg (by decide)]
  show some (List.replicate (8 - (readGroups 0 7 ("ffff:".toList ++ _)).1.length) 0 ++
    (readGroups 0 7 ("ffff:".toList ++ _)).1, (readGroups 0 7 ("ffff:".toList ++ _)).2.2) = _
  rw [htail]
  rfl

/-- **An IPv6 address reads back.** -/
theorem parseIpv6_show {octets : Octets} (h : octets.length = 16) :
    parseIpv6 (showIpv6 octets) = some octets := by
  have hback : octetsOf (segmentsOf octets) = octets := octetsOf_segmentsOf (by omega)
  rw [showIpv6]
  split
  · rename_i hmapped
    obtain ⟨a, b, c, d, hquad⟩ : ∃ a b c d, octets.drop 12 = [a, b, c, d] := by
      match octets, h with
      | [_, _, _, _, _, _, _, _, _, _, _, _, a, b, c, d], _ => exact ⟨a, b, c, d, rfl⟩
    have hall : octets = [0, 0, 0, 0, 0, 0, 0, 0, 0, 0, 0xff, 0xff] ++ [a, b, c, d] := by
      rw [← hmapped, ← hquad, List.take_append_drop]
    rw [hquad, parseIpv6, readIpv6_mapped]
    dsimp only
    rw [← hback, hall]
    rfl
  · rw [parseIpv6, readIpv6_showSegments (length_segmentsOf h) (segmentsOf_lt octets)]
    exact congrArg some hback

end Rdns.Lib
