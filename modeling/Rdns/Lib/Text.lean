import Rdns.Lib.Octets

/-!
# Text

Text as a list of characters, with the operations of the standard library that a
line-oriented format is read and written with: lines, trimming, words, numbers, padding,
and the UTF-8 octets of a text.

  * `parseDigits_decimal`, `parseU32_decimal`, `parseI32_signed` and their kin — a number
    written in decimal reads back;
  * `toBytes_ascii` — for ASCII text the octets are the characters.
-/

namespace Rdns.Lib

abbrev Text := List Char

/-! ## Whitespace, lines and words -/

def isWhitespace (c : Char) : Bool :=
  let n := c.toNat
  n == 32 || (9 ≤ n && n ≤ 13) || n == 0x85 || n == 0xA0 || n == 0x1680 ||
    (0x2000 ≤ n && n ≤ 0x200A) || n == 0x2028 || n == 0x2029 || n == 0x202F || n == 0x205F ||
    n == 0x3000

def trimStart (text : Text) : Text := text.dropWhile isWhitespace

def trimEnd (text : Text) : Text := (text.reverse.dropWhile isWhitespace).reverse

def trim (text : Text) : Text := trimEnd (trimStart text)

def stripCr (line : Text) : Text :=
  if line.getLast? = some '\r' then line.dropLast else line

def linesFrom (current : Text) : Text → List Text
  | [] => if current.isEmpty then [] else [current]
  | c :: rest =>
    if c = '\n' then stripCr current :: linesFrom [] rest else linesFrom (current ++ [c]) rest

def lines (content : Text) : List Text := linesFrom [] content

def wordsFrom (current : Text) : Text → List Text
  | [] => if current.isEmpty then [] else [current]
  | c :: rest =>
    if isWhitespace c then
      if current.isEmpty then wordsFrom [] rest else current :: wordsFrom [] rest
    else wordsFrom (current ++ [c]) rest

def splitWhitespace (text : Text) : List Text := wordsFrom [] text

def padRight (width : Nat) (text : Text) : Text :=
  text ++ List.replicate (width - text.length) ' '

theorem linesFrom_append {line : Text} (h : '\n' ∉ line) (current rest : Text) :
    linesFrom current (line ++ rest) = linesFrom (current ++ line) rest := by
  induction line generalizing current with
  | nil => rw [List.nil_append, List.append_nil]
  | cons c line ih =>
    obtain ⟨hc, hline⟩ := not_or.mp (List.mem_cons.not.mp h)
    rw [List.cons_append, linesFrom, if_neg (fun heq => hc heq.symm), ih hline, List.append_assoc]
    rfl

/-- **A line comes off the front with its newline.** -/
theorem lines_line {line : Text} (h : '\n' ∉ line) (hcr : line.getLast? ≠ some '\r')
    (rest : Text) : lines (line ++ '\n' :: rest) = line :: lines rest := by
  rw [lines, linesFrom_append h, List.nil_append, linesFrom, if_pos rfl, stripCr, if_neg hcr, lines]

variable {c : Char} {text : Text}

theorem trimStart_cons (h : isWhitespace c = false) : trimStart (c :: text) = c :: text := by
  rw [trimStart, List.dropWhile_cons, if_neg (by rw [h]; decide)]

theorem trimEnd_concat (h : isWhitespace c = false) : trimEnd (text ++ [c]) = text ++ [c] := by
  rw [trimEnd, List.reverse_append, List.reverse_singleton, List.singleton_append,
    List.dropWhile_cons, if_neg (by rw [h]; decide), List.reverse_cons, List.reverse_reverse]

theorem trim_eq_self (hne : text ≠ []) (hhead : ∀ c, text.head? = some c → isWhitespace c = false)
    (hlast : ∀ c, text.getLast? = some c → isWhitespace c = false) : trim text = text := by
  cases text with
  | nil => exact absurd rfl hne
  | cons c rest =>
    rw [trim, trimStart_cons (hhead c rfl)]
    obtain ⟨front, last, hlast'⟩ : ∃ front last, c :: rest = front ++ [last] :=
      ⟨_, _, (List.dropLast_append_getLast (List.cons_ne_nil c rest)).symm⟩
    rw [hlast', trimEnd_concat (hlast last (by rw [hlast', List.getLast?_concat]))]

theorem trimStart_spaces (count : Nat) (text : Text) :
    trimStart (List.replicate count ' ' ++ text) = trimStart text := by
  induction count with
  | zero => rfl
  | succ count ih =>
    rw [List.replicate_succ, List.cons_append, trimStart, List.dropWhile_cons, if_pos (by decide)]
    exact ih

theorem trimEnd_spaces (count : Nat) (text : Text) :
    trimEnd (text ++ List.replicate count ' ') = trimEnd text := by
  have hstart := trimStart_spaces count text.reverse
  rw [trimStart, trimStart] at hstart
  rw [trimEnd, List.reverse_append, List.reverse_replicate, hstart, trimEnd]

theorem trim_spaces (hne : text ≠ []) (hhead : ∀ c, text.head? = some c → isWhitespace c = false)
    (hlast : ∀ c, text.getLast? = some c → isWhitespace c = false) (before after : Nat) :
    trim (List.replicate before ' ' ++ (text ++ List.replicate after ' ')) = text := by
  have hstart : trimStart (text ++ List.replicate after ' ') = text ++ List.replicate after ' ' := by
    cases text with
    | nil => exact absurd rfl hne
    | cons c rest => exact trimStart_cons (hhead c rfl)
  have hself := trim_eq_self hne hhead hlast
  rw [trim] at hself ⊢
  rw [trimStart_spaces, hstart, trimEnd_spaces]
  cases text with
  | nil => exact absurd rfl hne
  | cons c rest => rwa [trimStart_cons (hhead c rfl)] at hself

theorem head?_trim (h : (trim text).head? = some c) : isWhitespace c = false := by
  have hprefix : trim text <+: trimStart text := by grind [trim, trimEnd, List.dropWhile_suffix]
  have hhead : (trimStart text).head? = some c := by
    obtain ⟨tail, htail⟩ := hprefix
    rw [← htail, List.head?_append, h, Option.some_or]
  rw [trimStart] at hhead
  have hstop := List.head?_dropWhile_not isWhitespace text
  rw [hhead] at hstop
  exact hstop

theorem trim_replicate (count : Nat) : trim (List.replicate count ' ') = [] := by
  have hstart := trimStart_spaces count []
  rw [List.append_nil] at hstart
  rw [trim, hstart]
  rfl

/-! ## Numbers -/

def decimal (n : Nat) : Text := Nat.toDigits 10 n

def signedDecimal (n : Int) : Text :=
  if n < 0 then '-' :: decimal n.natAbs else decimal n.natAbs

def zeroPadded (width n : Nat) : Text :=
  List.replicate (width - (decimal n).length) '0' ++ decimal n

def parseDigits (text : Text) : Option Nat :=
  if text.isEmpty || !text.all Char.isDigit then none else some (Nat.ofDigitChars 10 text 0)

def parseUnsigned : Text → Option Nat
  | '+' :: digits => parseDigits digits
  | text => parseDigits text

def parseBelow (limit : Nat) (text : Text) : Option Nat :=
  (parseUnsigned text).bind fun n => if n < limit then some n else none

def parseU8 (text : Text) : Option UInt8 := (parseBelow 256 text).map UInt8.ofNat

def parseU16 (text : Text) : Option UInt16 := (parseBelow 65536 text).map UInt16.ofNat

def parseU32 (text : Text) : Option UInt32 := (parseBelow 4294967296 text).map UInt32.ofNat

def parseUsize (text : Text) : Option Nat := parseBelow 18446744073709551616 text

def parseI32 : Text → Option Int32
  | '-' :: digits =>
    (parseDigits digits).bind fun n =>
      if n ≤ 2147483648 then some (Int32.ofInt (-(n : Int))) else none
  | text => (parseBelow 2147483648 text).map fun n => Int32.ofInt n

theorem isDigit_of_mem_decimal {n : Nat} (h : c ∈ decimal n) : c.isDigit = true :=
  Nat.isDigit_of_mem_toDigits (by decide) (by decide) h

theorem decimal_ne_nil (n : Nat) : decimal n ≠ [] := Nat.toDigits_ne_nil

theorem parseDigits_decimal (n : Nat) : parseDigits (decimal n) = some n := by
  have hempty : (decimal n).isEmpty = false := by
    rw [List.isEmpty_eq_false_iff]
    exact decimal_ne_nil n
  have hall : (decimal n).all Char.isDigit = true :=
    List.all_eq_true.mpr fun c hc => isDigit_of_mem_decimal hc
  rw [parseDigits, hempty, hall]
  exact congrArg some Nat.ofDigitChars_ten_toDigits

theorem decimal_cons (n : Nat) : ∃ c rest, decimal n = c :: rest ∧ c.isDigit = true := by
  cases h : decimal n with
  | nil => exact absurd h (decimal_ne_nil n)
  | cons c rest =>
    exact ⟨c, rest, rfl, isDigit_of_mem_decimal (n := n) (by rw [h]; exact List.mem_cons_self)⟩

theorem parseUnsigned_decimal (n : Nat) : parseUnsigned (decimal n) = some n := by
  obtain ⟨c, rest, h, hc⟩ := decimal_cons n
  have hplus : c ≠ '+' := by
    rintro rfl
    cases hc
  rw [← parseDigits_decimal n, h, parseUnsigned]
  rintro digits heq
  exact hplus (List.cons.inj heq).1

theorem parseBelow_decimal {n limit : Nat} (h : n < limit) :
    parseBelow limit (decimal n) = some n := by
  rw [parseBelow, parseUnsigned_decimal, Option.bind_some, if_pos h]

theorem parseU16_decimal (value : UInt16) : parseU16 (decimal value.toNat) = some value := by
  rw [parseU16, parseBelow_decimal value.toNat_lt, Option.map_some, UInt16.ofNat_toNat]

theorem parseU32_decimal (value : UInt32) : parseU32 (decimal value.toNat) = some value := by
  rw [parseU32, parseBelow_decimal value.toNat_lt, Option.map_some, UInt32.ofNat_toNat]

theorem parseI32_decimal {n : Nat} (h : n < 2147483648) :
    parseI32 (decimal n) = some (Int32.ofInt n) := by
  obtain ⟨c, rest, hcons, hc⟩ := decimal_cons n
  have hminus : c ≠ '-' := by
    rintro rfl
    cases hc
  have hparse := parseBelow_decimal h
  rw [hcons] at hparse ⊢
  rw [parseI32, hparse]
  · rfl
  · rintro digits heq
    exact hminus (List.cons.inj heq).1

/-- **A signed number reads back.** -/
theorem parseI32_signed (value : Int32) : parseI32 (signedDecimal value.toInt) = some value := by
  have hlow := value.le_toInt
  have hhigh := value.toInt_lt
  rw [signedDecimal]
  split
  · rename_i hneg
    rw [parseI32, parseDigits_decimal, Option.bind_some, if_pos (by omega)]
    have habs : -(value.toInt.natAbs : Int) = value.toInt := by omega
    rw [habs, Int32.ofInt_toInt]
  · rename_i hpos
    rw [parseI32_decimal (by omega)]
    have habs : (value.toInt.natAbs : Int) = value.toInt := by omega
    rw [habs, Int32.ofInt_toInt]

/-! ## Octets of a text -/

def toBytes (text : Text) : Octets := text.flatMap String.utf8EncodeChar

def charOf (octet : UInt8) : Char := Char.ofNat octet.toNat

def IsAscii (text : Text) : Prop := ∀ c ∈ text, c.toNat < 128

@[simp]
theorem toBytes_append (a b : Text) : toBytes (a ++ b) = toBytes a ++ toBytes b :=
  List.flatMap_append

@[simp]
theorem toBytes_nil : toBytes [] = [] := rfl

theorem utf8_of_ascii (h : c.toNat < 128) : String.utf8EncodeChar c = [UInt8.ofNat c.toNat] := by
  have hle : c.val.toNat ≤ 127 := by
    have : c.val.toNat = c.toNat := rfl
    omega
  rw [String.utf8EncodeChar, if_pos (by simpa [UInt32.le_iff_toNat_le] using hle)]
  rfl

theorem toBytes_cons_ascii (h : c.toNat < 128) (rest : Text) :
    toBytes (c :: rest) = UInt8.ofNat c.toNat :: toBytes rest := by
  rw [toBytes, List.flatMap_cons, utf8_of_ascii h]
  rfl

theorem length_toBytes (h : IsAscii text) : (toBytes text).length = text.length := by
  induction text with
  | nil => rfl
  | cons c rest ih =>
    rw [toBytes_cons_ascii (h c List.mem_cons_self), List.length_cons, List.length_cons,
      ih fun d hd => h d (List.mem_cons_of_mem _ hd)]

theorem isAscii_append {a b : Text} (ha : IsAscii a) (hb : IsAscii b) : IsAscii (a ++ b) := by
  intro c hc
  rcases List.mem_append.mp hc with hc | hc
  · exact ha c hc
  · exact hb c hc

theorem isAscii_cons (hc : c.toNat < 128) (h : IsAscii text) : IsAscii (c :: text) := by
  intro d hd
  rcases List.mem_cons.mp hd with rfl | hd
  · exact hc
  · exact h d hd

theorem isAscii_decimal (n : Nat) : IsAscii (decimal n) := by
  intro c hc
  have hdigit := isDigit_of_mem_decimal hc
  simp only [Char.isDigit, Bool.and_eq_true, decide_eq_true_eq] at hdigit
  have hle : c.val.toNat ≤ 57 := UInt32.le_iff_toNat_le.mp hdigit.2
  have hval : c.toNat = c.val.toNat := rfl
  omega

theorem toNat_charOf (octet : UInt8) : (charOf octet).toNat = octet.toNat := by
  have hlt := octet.toNat_lt
  rw [charOf, Char.ofNat, dif_pos (Or.inl (by omega))]
  rfl

theorem toBytes_cons_charOf {octet : UInt8} (h : octet.toNat < 128) (rest : Text) :
    toBytes (charOf octet :: rest) = octet :: toBytes rest := by
  rw [toBytes_cons_ascii (by rw [toNat_charOf]; exact h), toNat_charOf, UInt8.ofNat_toNat]

theorem toLower_eq (c : Char) : c.toLower = c ∨ ∃ n : Fin 26, c.toLower = Char.ofNat (97 + n.val) := by
  by_cases h : c.val ≥ 'A'.val ∧ c.val ≤ 'Z'.val
  · have hletter : c.toLower.val = c.val + ('a'.val - 'A'.val) := congrArg Char.val (dif_pos h)
    have hlow : 65 ≤ c.toNat := UInt32.le_iff_toNat_le.mp h.1
    have hhigh : c.toNat ≤ 90 := UInt32.le_iff_toNat_le.mp h.2
    refine .inr ⟨⟨c.toNat - 65, by omega⟩, ?_⟩
    have hvalid : Nat.isValidChar (97 + (c.toNat - 65)) := .inl (by omega)
    unfold Char.ofNat
    rw [dif_pos hvalid]
    apply Char.ext
    apply UInt32.toNat_inj.mp
    have hval : (c.val + ('a'.val - 'A'.val)).toNat = c.toNat + 32 := by
      rw [UInt32.toNat_add]
      show (c.toNat + 32) % 2 ^ 32 = c.toNat + 32
      omega
    show c.toLower.val.toNat = 97 + (c.toNat - 65)
    rw [hletter, hval]
    omega
  · exact .inl (dif_neg h)

theorem toLower_toLower (c : Char) : c.toLower.toLower = c.toLower := by
  have hall : ∀ n : Fin 26, (Char.ofNat (97 + n.val)).toLower = Char.ofNat (97 + n.val) := by decide
  rcases toLower_eq c with h | ⟨n, h⟩
  · rw [h, h]
  · rw [h, hall]

theorem isWhitespace_toLower {c : Char} (h : isWhitespace c = false) : isWhitespace c.toLower = false := by
  have hall : ∀ n : Fin 26, isWhitespace (Char.ofNat (97 + n.val)) = false := by decide
  rcases toLower_eq c with hsame | ⟨n, hletter⟩
  · rw [hsame, h]
  · rw [hletter, hall]
end Rdns.Lib
