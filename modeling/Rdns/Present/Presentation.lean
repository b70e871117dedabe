import Rdns.Core.Name
import Rdns.Lib.Text

/-!
# Rdns — Octets as presentation text

The presentation halves of `rdns-core`: names (`name.rs`), character-strings and hex
(`codecs.rs`) and type names (`record_types.rs`). Text is read as its UTF-8 octets, as
the source reads it.

`Bare` and `Quoted` describe the text that comes out: what a line of a zone file may
hold outside quotes and between them.
-/

namespace Rdns.Present

open Rdns.Lib Rdns.Core RecordTypes

/-! ## Escapes -/

def isAsciiDigit (octet : UInt8) : Bool := 48 ≤ octet && octet ≤ 57

def threeDigits (octet : UInt8) : Text :=
  [charOf (48 + octet / 100), charOf (48 + octet / 10 % 10), charOf (48 + octet % 10)]

/-- One octet as text: escaped where the syntax would read it, itself where it is
printable from `low` on, and `\DDD` otherwise. -/
def escapeOctet (special : UInt8 → Bool) (low octet : UInt8) : Text :=
  if special octet then ['\\', charOf octet]
  else if low ≤ octet ∧ octet ≤ 0x7e then [charOf octet]
  else '\\' :: threeDigits octet

def isNameSyntax (octet : UInt8) : Bool :=
  octet == 46 || octet == 92 || octet == 59 || octet == 34 || octet == 40 || octet == 41 ||
    octet == 64 || octet == 36

def isQuoteSyntax (octet : UInt8) : Bool := octet == 34 || octet == 92

def decimalEscape (what : String) (next : UInt8) : Octets → Except WireError (UInt8 × Octets)
  | b :: c :: rest =>
    if isAsciiDigit b && isAsciiDigit c then
      let value := (next.toNat - 48) * 100 + (b.toNat - 48) * 10 + (c.toNat - 48)
      if value ≤ 255 then .ok (UInt8.ofNat value, rest)
      else .error (.malformed what "the decimal escape is over 255")
    else .error (.malformed what "a backslash before a digit begins a three-digit decimal escape")
  | _ => .error (.malformed what "a backslash before a digit begins a three-digit decimal escape")

def decodeEscape (what : String) : Octets → Except WireError (UInt8 × Octets)
  | [] => .error (.malformed what "it ends with a backslash, which escapes nothing")
  | next :: rest =>
    if !isAsciiDigit next then .ok (next, rest) else decimalEscape what next rest

variable {c : Char} {octet : UInt8} {pos : Nat} {text : Text}

theorem decodeEscape_length {what : String} {bytes rest : Octets}
    (h : decodeEscape what bytes = .ok (octet, rest)) : rest.length < bytes.length := by
  cases bytes with
  | nil => cases h
  | cons next tail =>
    rw [decodeEscape] at h
    split at h
    · cases h
      exact Nat.lt_succ_self _
    · unfold decimalEscape at h
      split at h
      · grind
      · cases h

/-! ## Names -/

def escapeLabel (label : Octets) : Text := label.flatMap (escapeOctet isNameSyntax 0x21)

def toPresentation (name : Name) : Text :=
  if name.isRoot then ['.'] else name.labels.flatMap fun label => escapeLabel label ++ ['.']

def pushOctet (pos : Nat) : Except WireError Nat :=
  if pos ≥ MAX_NAME_LEN then .error (.tooLong "a domain name" MAX_NAME_LEN (pos + 1))
  else .ok (pos + 1)

def pushLabel (pos : Nat) (current : Option Octets) (octet : UInt8) :
    Except WireError (Nat × Octets) := do
  let pos ← match current with
    | none => pushOctet pos
    | some _ => .ok pos
  let pos ← pushOctet pos
  return (pos, current.getD [] ++ [octet])

def finishLabel (label : Octets) : Except WireError Unit :=
  if label.length > MAX_LABEL_LEN then .error (.tooLong "a label" MAX_LABEL_LEN label.length)
  else .ok ()

def presentationWalk (pos : Nat) (finished : List Octets) (current : Option Octets)
    (bytes : Octets) : Except WireError (List Octets) :=
  match bytes with
  | [] => do
    let finished ← match current with
      | none => Except.ok finished
      | some label => (finishLabel label).map fun _ => finished ++ [label]
    let _ ← pushOctet pos
    return finished
  | octet :: rest =>
    if octet = 46 then
      match current with
      | none => .error (.malformed "a domain name" "a label may not be empty")
      | some label => do
        finishLabel label
        presentationWalk pos (finished ++ [label]) none rest
    else if octet = 92 then
      match hescape : decodeEscape "a domain name" rest with
      | .error e => .error e
      | .ok (decoded, after) => do
        have := decodeEscape_length hescape
        let (pos, label) ← pushLabel pos current decoded
        presentationWalk pos finished (some label) after
    else do
      let (pos, label) ← pushLabel pos current octet
      presentationWalk pos finished (some label) rest
termination_by bytes.length
decreasing_by
  all_goals simp only [List.length_cons]
  all_goals omega

def fromPresentation (text : Text) : Except WireError Name :=
  if text = [] ∨ text = ['.'] then .ok Name.root
  else do
    let labels ← presentationWalk 0 [] none (toBytes text)
    Name.ofLabels labels

def absolutized (text : Text) (origin : Name) : Except WireError Name :=
  let text := trim text
  if text = [] ∨ text = ['@'] then .ok origin
  else do
    let name ← fromPresentation text
    if text.getLast? = some '.' then return name
    else do
      checkNameLen (name.wire.length - 1 + origin.wire.length)
      Name.ofLabels (name.labels ++ origin.labels)

/-! ## Character-strings and hex -/

def charStringEscaped (octets : Octets) : Text := octets.flatMap (escapeOctet isQuoteSyntax 0x20)

def charStringDecode (bytes : Octets) : Except WireError Octets :=
  match bytes with
  | [] => .ok []
  | octet :: rest =>
    if octet ≠ 92 then do
      let out ← charStringDecode rest
      return octet :: out
    else match hescape : decodeEscape "a character-string" rest with
      | .error e => .error e
      | .ok (decoded, after) => do
        have := decodeEscape_length hescape
        let out ← charStringDecode after
        return decoded :: out
termination_by bytes.length
decreasing_by
  all_goals simp only [List.length_cons]
  all_goals omega

def hexDigit (nibble : UInt8) : Char :=
  if nibble < 10 then charOf (48 + nibble) else charOf (55 + nibble)

def hexEncode (octets : Octets) : Text :=
  octets.flatMap fun octet => [hexDigit (octet / 16), hexDigit (octet % 16)]

def nibbleOf (c : UInt8) : Option UInt8 :=
  if 48 ≤ c ∧ c ≤ 57 then some (c - 48)
  else if 97 ≤ c ∧ c ≤ 102 then some (c - 97 + 10)
  else if 65 ≤ c ∧ c ≤ 70 then some (c - 65 + 10)
  else none

def isAsciiWhitespace (c : UInt8) : Bool := c == 32 || c == 9 || c == 10 || c == 12 || c == 13

def hexLoop (high : Option UInt8) : Octets → Except WireError Octets
  | [] => match high with
    | some _ => .error (.malformed "hex text" "an odd number of digits")
    | none => .ok []
  | c :: rest =>
    if isAsciiWhitespace c then hexLoop high rest
    else match nibbleOf c with
      | none => .error (.malformed "hex text" "invalid character")
      | some nibble => match high with
        | none => hexLoop (some nibble) rest
        | some h => do
          let out ← hexLoop none rest
          return (h * 16 + nibble) :: out

def hexDecode (text : Text) : Except WireError Octets := hexLoop none (toBytes text)

/-! ## Type names -/

def knownTypes : List (Text × Rtype) :=
  [("A".toList, A), ("NS".toList, NS), ("CNAME".toList, CNAME),
    ("SOA".toList, SOA), ("PTR".toList, PTR), ("MX".toList, MX),
    ("TXT".toList, TXT), ("AAAA".toList, AAAA),
    ("DNAME".toList, DNAME), ("DS".toList, DS),
    ("CDS".toList, CDS), ("CDNSKEY".toList, CDNSKEY),
    ("SVCB".toList, SVCB), ("HTTPS".toList, HTTPS),
    ("DNSKEY".toList, DNSKEY), ("RRSIG".toList, RRSIG),
    ("NSEC".toList, NSEC), ("NSEC3".toList, NSEC3)]

/-- The mnemonic for a type code, or its `TYPEnnn` form (RFC 3597 §5). -/
def recordTypeName (rtype : Rtype) : Text :=
  match knownTypes.find? fun entry => entry.2 == rtype with
  | some entry => entry.1
  | none => "TYPE".toList ++ decimal rtype.code.toNat

def stripFront (front text : Text) : Option Text :=
  if front.isPrefixOf text then some (text.drop front.length) else none

def recordTypeNameToCode (kind : Text) : Option Rtype :=
  match knownTypes.find? fun entry => entry.1 == kind with
  | some entry => some entry.2
  | none =>
    (((stripFront "TYPE".toList kind).or (stripFront "type".toList kind)).bind parseU16).map Rtype.mk

/-! ## Escapes read back -/

theorem toNat_threeDigits (octet : UInt8) :
    (48 + octet / 100).toNat = 48 + octet.toNat / 100 ∧
    (48 + octet / 10 % 10).toNat = 48 + octet.toNat / 10 % 10 ∧
    (48 + octet % 10).toNat = 48 + octet.toNat % 10 := by
  have := octet.toNat_lt
  refine ⟨?_, ?_, ?_⟩
  · simp only [UInt8.toNat_add, UInt8.toNat_div, UInt8.toNat_ofNat, Nat.reducePow, Nat.reduceMod]
    omega
  · grind [UInt8.toNat_add, UInt8.toNat_div, UInt8.toNat_mod]
  · simp only [UInt8.toNat_add, UInt8.toNat_mod, UInt8.toNat_ofNat, Nat.reducePow, Nat.reduceMod]
    omega

theorem isAsciiDigit_iff : isAsciiDigit octet = true ↔ 48 ≤ octet.toNat ∧ octet.toNat ≤ 57 := by
  rw [isAsciiDigit, Bool.and_eq_true, decide_eq_true_eq, decide_eq_true_eq, UInt8.le_iff_toNat_le,
    UInt8.le_iff_toNat_le]
  rfl

theorem toBytes_threeDigits (octet : UInt8) :
    toBytes (threeDigits octet) = [48 + octet / 100, 48 + octet / 10 % 10, 48 + octet % 10] := by
  obtain ⟨h1, h2, h3⟩ := toNat_threeDigits octet
  have := octet.toNat_lt
  rw [threeDigits, toBytes_cons_charOf (by omega), toBytes_cons_charOf (by omega),
    toBytes_cons_charOf (by omega)]
  rfl

theorem decodeEscape_threeDigits (what : String) (octet : UInt8) (tail : Octets) :
    decodeEscape what (toBytes (threeDigits octet) ++ tail) = .ok (octet, tail) := by
  obtain ⟨h1, h2, h3⟩ := toNat_threeDigits octet
  have := octet.toNat_lt
  have hdigit : ∀ d : UInt8, 48 ≤ d.toNat → d.toNat ≤ 57 → isAsciiDigit d = true :=
    fun d hlow hhigh => isAsciiDigit_iff.mpr ⟨hlow, hhigh⟩
  have hvalue : ((48 + octet / 100).toNat - 48) * 100 + ((48 + octet / 10 % 10).toNat - 48) * 10 +
      ((48 + octet % 10).toNat - 48) = octet.toNat := by
    rw [h1, h2, h3]
    omega
  rw [toBytes_threeDigits]
  show decodeEscape what (_ :: _ :: _ :: tail) = _
  rw [decodeEscape, hdigit _ (by omega) (by omega), if_neg (by decide), decimalEscape,
    hdigit _ (by omega) (by omega), hdigit _ (by omega) (by omega)]
  dsimp only
  rw [Bool.and_self, if_pos rfl, hvalue, if_pos (by omega), UInt8.ofNat_toNat]

/-- **What an octet is written as reads back**: it stands for itself, or it follows a
backslash that decodes to it. -/
theorem escapeOctet_reads {special : UInt8 → Bool} {low : UInt8}
    (hspecial : ∀ octet, special octet = true → octet.toNat < 128 ∧ isAsciiDigit octet = false)
    (octet : UInt8) :
    (toBytes (escapeOctet special low octet) = [octet] ∧ special octet = false) ∨
    ∃ body, toBytes (escapeOctet special low octet) = 92 :: body ∧
      ∀ what tail, decodeEscape what (body ++ tail) = .ok (octet, tail) := by
  have hback : ∀ rest, toBytes ('\\' :: rest) = 92 :: toBytes rest := toBytes_cons_ascii (by decide)
  rw [escapeOctet]
  split
  · rename_i h
    obtain ⟨hascii, hdigit⟩ := hspecial octet h
    refine .inr ⟨[octet], ?_, fun what tail => ?_⟩
    · rw [hback, toBytes_cons_charOf hascii, toBytes_nil]
    · show decodeEscape what (octet :: tail) = _
      rw [decodeEscape, hdigit]
      rfl
  · rename_i h
    split
    · rename_i hprint
      have hascii : octet.toNat < 128 := by
        have := UInt8.le_iff_toNat_le.mp hprint.2
        simp only [UInt8.toNat_ofNat] at this
        omega
      refine .inl ⟨?_, Bool.not_eq_true _ |>.mp h⟩
      rw [toBytes_cons_charOf hascii, toBytes_nil]
    · refine .inr ⟨toBytes (threeDigits octet), hback _, fun what tail => ?_⟩
      exact decodeEscape_threeDigits what octet tail

theorem isNameSyntax_spec (octet : UInt8) (h : isNameSyntax octet = true) :
    octet.toNat < 128 ∧ isAsciiDigit octet = false := by
  simp only [isNameSyntax, Bool.or_eq_true, beq_iff_eq] at h
  rcases h with (((((((h | h) | h) | h) | h) | h) | h) | h) <;> subst h <;> decide

theorem isQuoteSyntax_spec (octet : UInt8) (h : isQuoteSyntax octet = true) :
    octet.toNat < 128 ∧ isAsciiDigit octet = false := by
  simp only [isQuoteSyntax, Bool.or_eq_true, beq_iff_eq] at h
  rcases h with h | h <;> subst h <;> decide

/-! ## Names read back -/

theorem presentationWalk_octet (octet : UInt8) (pos : Nat) (finished : List Octets)
    (current : Option Octets) (rest : Octets) :
    presentationWalk pos finished current (toBytes (escapeOctet isNameSyntax 0x21 octet) ++ rest)
      = pushLabel pos current octet >>= fun next =>
        presentationWalk next.1 finished (some next.2) rest := by
  rcases escapeOctet_reads isNameSyntax_spec octet with ⟨hbytes, hplain⟩ | ⟨body, hbytes, hdecode⟩
  · have h46 : octet ≠ 46 := by
      rintro rfl
      cases hplain
    have h92 : octet ≠ 92 := by
      rintro rfl
      cases hplain
    rw [hbytes]
    show presentationWalk pos finished current (octet :: rest) = _
    rw [presentationWalk.eq_def]
    dsimp only
    rw [if_neg h46, if_neg h92]
  · rw [hbytes]
    show presentationWalk pos finished current (92 :: (body ++ rest)) = _
    rw [presentationWalk.eq_def]
    dsimp only
    rw [if_neg (by decide), if_pos rfl]
    split
    · grind
    · grind

theorem pushLabel_some (h : pos < MAX_NAME_LEN) (label : Octets) (octet : UInt8) :
    pushLabel pos (some label) octet = .ok (pos + 1, label ++ [octet]) := by
  show (pushOctet pos >>= _) = _
  rw [pushOctet, if_neg (by omega)]
  rfl

theorem pushLabel_none (h : pos + 1 < MAX_NAME_LEN) (octet : UInt8) :
    pushLabel pos none octet = .ok (pos + 2, [octet]) := by
  show (pushOctet pos >>= fun pos => pushOctet pos >>= _) = _
  rw [pushOctet, if_neg (by omega)]
  show (pushOctet (pos + 1) >>= _) = _
  rw [pushOctet, if_neg (by omega)]
  rfl

theorem presentationWalk_label {finished : List Octets} {rest : Octets} :
    ∀ (octets label : Octets) (pos : Nat), pos + octets.length ≤ MAX_NAME_LEN →
      label.length + octets.length ≤ MAX_LABEL_LEN →
      presentationWalk pos finished (some label) (toBytes (escapeLabel octets) ++ 46 :: rest)
        = presentationWalk (pos + octets.length) (finished ++ [label ++ octets]) none rest := by
  intro octets
  induction octets with
  | nil =>
    intro label pos _ hlen
    rw [escapeLabel, List.flatMap_nil, toBytes_nil, List.nil_append, presentationWalk, if_pos rfl,
      finishLabel, if_neg (by simpa using hlen), List.append_nil]
    rfl
  | cons octet octets ih =>
    intro label pos hpos hlen
    rw [List.length_cons] at hpos hlen
    rw [escapeLabel, List.flatMap_cons, toBytes_append, List.append_assoc, presentationWalk_octet,
      pushLabel_some (by omega)]
    show presentationWalk (pos + 1) finished (some (label ++ [octet]))
      (toBytes (escapeLabel octets) ++ 46 :: rest) = _
    have hlabel : (label ++ [octet]).length + octets.length ≤ MAX_LABEL_LEN := by
      rw [List.length_append, List.length_singleton]
      omega
    rw [ih (label ++ [octet]) (pos + 1) (by omega) hlabel, List.append_assoc, List.length_cons]
    have hsum : pos + 1 + octets.length = pos + (octets.length + 1) := by omega
    rw [hsum]
    rfl

def labelsText (labels : List Octets) : Text :=
  labels.flatMap fun label => escapeLabel label ++ ['.']

theorem presentationWalk_labels :
    ∀ (labels finished : List Octets) (pos : Nat) (rest : Octets), (∀ l ∈ labels, ValidLabel l) →
      pos + (labelsOctets labels).length ≤ MAX_NAME_LEN →
      presentationWalk pos finished none (toBytes (labelsText labels) ++ rest) =
        presentationWalk (pos + (labelsOctets labels).length) (finished ++ labels) none rest := by
  intro labels
  induction labels with
  | nil =>
    intro finished pos rest _ _
    rw [labelsText, List.flatMap_nil, toBytes_nil, List.nil_append, List.append_nil]
    rfl
  | cons label labels ih =>
    intro finished pos rest hvalid hpos
    have hlabel := hvalid label List.mem_cons_self
    rw [labelsOctets, List.length_append, length_labelOctets] at hpos
    have hdot : toBytes (labelsText (label :: labels)) ++ rest
        = toBytes (escapeLabel label) ++ 46 :: (toBytes (labelsText labels) ++ rest) := by
      rw [labelsText, List.flatMap_cons, toBytes_append, toBytes_append, List.append_assoc, List.append_assoc]
      rfl
    rw [hdot]
    cases label with
    | nil => exact absurd hlabel (by decide)
    | cons octet octets =>
      have hmax : (octet :: octets).length ≤ MAX_LABEL_LEN := hlabel.2
      rw [List.length_cons] at hpos hmax
      rw [escapeLabel, List.flatMap_cons, toBytes_append, List.append_assoc, presentationWalk_octet,
        pushLabel_none (by omega)]
      show presentationWalk (pos + 2) finished (some [octet])
        (toBytes (escapeLabel octets) ++ 46 :: (toBytes (labelsText labels) ++ rest)) = _
      rw [presentationWalk_label octets [octet] (pos + 2) (by omega)
        (by rw [List.length_singleton]; omega),
        ih _ _ _ (fun l hl => hvalid l (List.mem_cons_of_mem _ hl)) (by omega), List.append_assoc]
      have hsum : pos + 2 + octets.length + (labelsOctets labels).length =
          pos + (labelsOctets ((octet :: octets) :: labels)).length := by
        rw [labelsOctets, List.length_append, length_labelOctets, List.length_cons]
        omega
      rw [hsum]
      rfl

theorem presentationWalk_end (h : pos < MAX_NAME_LEN) (finished : List Octets) :
    presentationWalk pos finished none [] = .ok finished := by
  rw [presentationWalk]
  show (pushOctet pos >>= _) = _
  rw [pushOctet, if_neg (by omega)]
  rfl

theorem toPresentation_eq (name : Name) :
    toPresentation name = if name.labels = [] then ['.'] else labelsText name.labels := by
  rw [toPresentation, labelsText]
  by_cases h : name.labels = []
  · rw [if_pos h, if_pos (Name.isRoot_iff.mpr h)]
  · rw [if_neg h, if_neg (fun hroot => h (Name.isRoot_iff.mp hroot))]

theorem getLast?_toPresentation (name : Name) : (toPresentation name).getLast? = some '.' := by
  rw [toPresentation_eq]
  split
  · rfl
  · rename_i h
    obtain ⟨front, last, heq⟩ : ∃ front last, name.labels = front ++ [last] :=
      ⟨_, _, (List.dropLast_append_getLast h).symm⟩
    rw [heq, labelsText, List.flatMap_append, List.flatMap_singleton, ← List.append_assoc,
      List.getLast?_concat]

/-- **A name reads back from its presentation text**, whatever octets its labels
hold. -/
theorem fromPresentation_toPresentation (name : Name) :
    fromPresentation (toPresentation name) = .ok name := by
  by_cases hroot : name.labels = []
  · rw [toPresentation_eq, if_pos hroot, fromPresentation, if_pos (.inr rfl)]
    exact congrArg Except.ok (Name.ext hroot.symm)
  · have hlen := name.length_ok
    rw [encodedLen] at hlen
    have hwalk := presentationWalk_labels name.labels [] 0 [] name.labels_ok (by omega)
    rw [List.append_nil, List.nil_append, presentationWalk_end (by omega)] at hwalk
    have htext : ¬ (labelsText name.labels = [] ∨ labelsText name.labels = ['.']) := by
      cases hlabels : name.labels with
      | nil => exact absurd hlabels hroot
      | cons label labels =>
        have hvalid := name.labels_ok label (by rw [hlabels]; exact List.mem_cons_self)
        have hbytes : toBytes (labelsText (label :: labels)) ≠ [] ∧
            toBytes (labelsText (label :: labels)) ≠ [46] := by
          rw [hlabels] at hwalk
          refine ⟨fun hnil => ?_, fun hdot => ?_⟩
          · rw [hnil, presentationWalk] at hwalk
            cases hwalk
          · rw [hdot, presentationWalk, if_pos rfl] at hwalk
            cases hwalk
        rintro (hnil | hdot)
        · exact hbytes.1 (by rw [hnil]; rfl)
        · exact hbytes.2 (by rw [hdot]; rfl)
    rw [toPresentation_eq, if_neg hroot, fromPresentation, if_neg htext, hwalk]
    exact Name.ofLabels_labels name

/-! ## Character-strings, hex and type names read back -/

theorem charStringDecode_octet {low : UInt8} (octet : UInt8) (rest : Octets) :
    charStringDecode (toBytes (escapeOctet isQuoteSyntax low octet) ++ rest)
      = charStringDecode rest >>= fun out => .ok (octet :: out) := by
  rcases escapeOctet_reads isQuoteSyntax_spec octet with ⟨hbytes, hplain⟩ | ⟨body, hbytes, hdecode⟩
  · have h92 : octet ≠ 92 := by
      rintro rfl
      cases hplain
    rw [hbytes]
    show charStringDecode (octet :: rest) = _
    rw [charStringDecode, if_pos h92]
    rfl
  · rw [hbytes]
    show charStringDecode (92 :: (body ++ rest)) = _
    rw [charStringDecode, if_neg (by decide)]
    split
    · grind
    · rename_i decoded after hok
      rw [hdecode] at hok
      cases hok
      rfl

theorem charStringDecode_flatMap (low : UInt8) (octets : Octets) :
    charStringDecode (toBytes (octets.flatMap (escapeOctet isQuoteSyntax low))) = .ok octets := by
  induction octets with
  | nil => rw [List.flatMap_nil, toBytes_nil, charStringDecode]
  | cons octet octets ih =>
    rw [List.flatMap_cons, toBytes_append, charStringDecode_octet, ih]
    rfl

/-- **A character-string reads back from the text between its quotes.** -/
theorem charStringDecode_escaped (octets : Octets) :
    charStringDecode (toBytes (charStringEscaped octets)) = .ok octets := charStringDecode_flatMap 0x20 octets

theorem hexDigit_reads (nibble : UInt8) (h : nibble.toNat < 16) :
    (hexDigit nibble).toNat < 128 ∧
    isAsciiWhitespace (UInt8.ofNat (hexDigit nibble).toNat) = false ∧
    nibbleOf (UInt8.ofNat (hexDigit nibble).toNat) = some nibble := by
  have hall : ∀ n : Fin 16, (hexDigit (UInt8.ofNat n)).toNat < 128 ∧
      isAsciiWhitespace (UInt8.ofNat (hexDigit (UInt8.ofNat n)).toNat) = false ∧
      nibbleOf (UInt8.ofNat (hexDigit (UInt8.ofNat n)).toNat) = some (UInt8.ofNat n) := by
    decide +kernel
  have hn := hall ⟨nibble.toNat, h⟩
  rwa [UInt8.ofNat_toNat] at hn

theorem nibbles_join (octet : UInt8) : octet / 16 * 16 + octet % 16 = octet := by
  apply UInt8.toNat_inj.mp
  have := octet.toNat_lt
  simp only [UInt8.toNat_add, UInt8.toNat_mul, UInt8.toNat_div, UInt8.toNat_mod,
    UInt8.toNat_ofNat, Nat.reducePow, Nat.reduceMod]
  omega

/-- **Octets read back from their hex.** -/
theorem hexDecode_encode (octets : Octets) : hexDecode (hexEncode octets) = .ok octets := by
  rw [hexDecode]
  induction octets with
  | nil => rfl
  | cons octet octets ih =>
    have hlt := octet.toNat_lt
    obtain ⟨ha1, hs1, hn1⟩ := hexDigit_reads (octet / 16) (by
      simp only [UInt8.toNat_div, UInt8.toNat_ofNat, Nat.reducePow, Nat.reduceMod]
      omega)
    obtain ⟨ha2, hs2, hn2⟩ := hexDigit_reads (octet % 16) (by
      simp only [UInt8.toNat_mod, UInt8.toNat_ofNat, Nat.reducePow, Nat.reduceMod]
      omega)
    rw [hexEncode, List.flatMap_cons]
    show hexLoop none (toBytes (_ :: _ :: hexEncode octets)) = _
    rw [toBytes_cons_ascii ha1, toBytes_cons_ascii ha2, hexLoop, hs1, if_neg (by decide), hn1]
    dsimp only
    rw [hexLoop, hs2, if_neg (by decide), hn2]
    dsimp only
    rw [ih, nibbles_join]
    rfl

/-- **A type reads back from its name.** -/
theorem recordTypeNameToCode_name (rtype : Rtype) :
    recordTypeNameToCode (recordTypeName rtype) = some rtype := by
  rw [recordTypeName]
  split
  · rename_i entry hfind
    have hmem := List.mem_of_find?_eq_some hfind
    have hcode := List.find?_some hfind
    rw [← eq_of_beq hcode]
    have hall : ∀ entry ∈ knownTypes, recordTypeNameToCode entry.1 = some entry.2 := by
      decide +kernel
    exact hall entry hmem
  · have hnone : (knownTypes.find? fun entry =>
        entry.1 == "TYPE".toList ++ decimal rtype.code.toNat) = none := by
      rw [List.find?_eq_none]
      intro entry hentry heq
      have hpre : "TYPE".toList <+: entry.1 := ⟨_, (eq_of_beq heq).symm⟩
      have hall : ∀ entry ∈ knownTypes, ¬ "TYPE".toList <+: entry.1 := by decide
      exact hall entry hentry hpre
    have hstrip : stripFront "TYPE".toList ("TYPE".toList ++ decimal rtype.code.toNat)
        = some (decimal rtype.code.toNat) := by
      rw [stripFront, if_pos (by simp), List.drop_left]
    rw [recordTypeNameToCode, hnone]
    dsimp only
    rw [hstrip, Option.some_or, Option.bind_some, parseU16_decimal, Option.map_some]

/-! ## What the text holds -/

def isGraphic (c : Char) : Bool := 0x21 ≤ c.toNat && c.toNat ≤ 0x7e

def isPlain (c : Char) : Bool :=
  isGraphic c && c != ';' && c != '"' && c != '(' && c != ')' && c != '\\'

inductive Bare : Text → Prop
  | nil : Bare []
  | plain {c : Char} {rest : Text} : isPlain c = true → Bare rest → Bare (c :: rest)
  | escaped {c : Char} {rest : Text} :
    isGraphic c = true → Bare rest → Bare ('\\' :: c :: rest)

inductive Quoted : Text → Prop
  | nil : Quoted []
  | plain {c : Char} {rest : Text} : isGraphic c = true ∨ c = ' ' → c ≠ '"' → c ≠ '\\' →
    Quoted rest → Quoted (c :: rest)
  | escaped {c : Char} {rest : Text} :
    isGraphic c = true → Quoted rest → Quoted ('\\' :: c :: rest)

theorem isGraphic_iff : isGraphic c = true ↔ 0x21 ≤ c.toNat ∧ c.toNat ≤ 0x7e := by
  rw [isGraphic, Bool.and_eq_true, decide_eq_true_eq, decide_eq_true_eq]

theorem isPlain_iff : isPlain c = true ↔
    isGraphic c = true ∧ c ≠ ';' ∧ c ≠ '"' ∧ c ≠ '(' ∧ c ≠ ')' ∧ c ≠ '\\' := by
  simp only [isPlain, Bool.and_eq_true, bne_iff_ne, and_assoc]

theorem isWhitespace_of_graphic (h : isGraphic c = true) : isWhitespace c = false := by
  obtain ⟨hlow, hhigh⟩ := isGraphic_iff.mp h
  simp only [isWhitespace, Bool.or_eq_false_iff, Bool.and_eq_false_iff, beq_eq_false_iff_ne,
    decide_eq_false_iff_not]
  omega

theorem Bare.append {a b : Text} (ha : Bare a) (hb : Bare b) : Bare (a ++ b) := by
  induction ha with
  | nil => exact hb
  | plain hc _ ih => exact .plain hc ih
  | escaped hc _ ih => exact .escaped hc ih

theorem Quoted.append {a b : Text} (ha : Quoted a) (hb : Quoted b) : Quoted (a ++ b) := by
  induction ha with
  | nil => exact hb
  | plain hc hquote hback _ ih => exact .plain hc hquote hback ih
  | escaped hc _ ih => exact .escaped hc ih

theorem bare_of_plain (h : ∀ c ∈ text, isPlain c = true) : Bare text := by
  induction text with
  | nil => exact .nil
  | cons c text ih =>
    exact .plain (h c List.mem_cons_self) (ih fun d hd => h d (List.mem_cons_of_mem _ hd))

theorem Bare.graphic (h : Bare text) : ∀ c ∈ text, isGraphic c = true := by
  induction h with
  | nil =>
    intro c hc
    cases hc
  | plain hc _ ih =>
    intro d hd
    rcases List.mem_cons.mp hd with rfl | hd
    · exact (isPlain_iff.mp hc).1
    · exact ih d hd
  | escaped hc _ ih =>
    intro d hd
    rcases List.mem_cons.mp hd with rfl | hd
    · decide
    · rcases List.mem_cons.mp hd with rfl | hd
      · exact hc
      · exact ih d hd

theorem Quoted.printable (h : Quoted text) : ∀ c ∈ text, isGraphic c = true ∨ c = ' ' := by
  induction h with
  | nil =>
    intro c hc
    cases hc
  | plain hc _ _ _ ih =>
    intro d hd
    rcases List.mem_cons.mp hd with rfl | hd
    · exact hc
    · exact ih d hd
  | escaped hc _ ih =>
    intro d hd
    rcases List.mem_cons.mp hd with rfl | hd
    · exact .inl (by decide)
    · rcases List.mem_cons.mp hd with rfl | hd
      · exact .inl hc
      · exact ih d hd

theorem isGraphic_charOf (hlow : 0x21 ≤ octet.toNat) (hhigh : octet.toNat ≤ 0x7e) :
    isGraphic (charOf octet) = true :=
  isGraphic_iff.mpr (by rw [toNat_charOf]; exact ⟨hlow, hhigh⟩)

theorem charOf_ne (h : octet.toNat ≠ c.toNat) : charOf octet ≠ c := by
  intro heq
  rw [← heq, toNat_charOf] at h
  exact h rfl

theorem isPlain_of_alphanumeric (h : 48 ≤ c.toNat ∧ c.toNat ≤ 57 ∨
    65 ≤ c.toNat ∧ c.toNat ≤ 90 ∨ 97 ≤ c.toNat ∧ c.toNat ≤ 122) : isPlain c = true := by
  have hne : ∀ d : Char, ¬ (48 ≤ d.toNat ∧ d.toNat ≤ 57 ∨ 65 ≤ d.toNat ∧ d.toNat ≤ 90 ∨
      97 ≤ d.toNat ∧ d.toNat ≤ 122) → c ≠ d := by
    rintro d hd rfl
    exact hd h
  exact isPlain_iff.mpr ⟨isGraphic_iff.mpr (by omega), hne _ (by decide), hne _ (by decide),
    hne _ (by decide), hne _ (by decide), hne _ (by decide)⟩

theorem isPlain_of_isDigit (h : c.isDigit = true) : isPlain c = true := by
  simp only [Char.isDigit, Bool.and_eq_true, decide_eq_true_eq, UInt32.le_iff_toNat_le] at h
  exact isPlain_of_alphanumeric (.inl h)

theorem isPlain_threeDigits (octet : UInt8) : ∀ c ∈ threeDigits octet, isPlain c = true := by
  obtain ⟨h1, h2, h3⟩ := toNat_threeDigits octet
  have := octet.toNat_lt
  have hdigit : ∀ d : UInt8, 48 ≤ d.toNat → d.toNat ≤ 57 → isPlain (charOf d) = true := by grind [isPlain_of_alphanumeric, toNat_charOf]
  intro c hc
  simp only [threeDigits, List.mem_cons, List.not_mem_nil, or_false] at hc
  rcases hc with rfl | rfl | rfl <;> exact hdigit _ (by omega) (by omega)

theorem isGraphic_of_isNameSyntax (h : isNameSyntax octet = true) :
    isGraphic (charOf octet) = true := by
  simp only [isNameSyntax, Bool.or_eq_true, beq_iff_eq] at h
  rcases h with (((((((h | h) | h) | h) | h) | h) | h) | h) <;> subst h <;> decide

theorem bare_escapeOctet (octet : UInt8) : Bare (escapeOctet isNameSyntax 0x21 octet) := by
  rw [escapeOctet]
  split
  · rename_i h
    exact .escaped (isGraphic_of_isNameSyntax h) .nil
  · rename_i h
    split
    · rename_i hprint
      have hlow := UInt8.le_iff_toNat_le.mp hprint.1
      have hhigh := UInt8.le_iff_toNat_le.mp hprint.2
      have hne : ∀ c : Char, isNameSyntax (UInt8.ofNat c.toNat) = true → charOf octet ≠ c := by grind [charOf_ne, UInt8.ofNat_toNat]
      refine .plain (isPlain_iff.mpr ⟨isGraphic_charOf hlow hhigh, ?_, ?_, ?_, ?_, ?_⟩) .nil
      all_goals exact hne _ (by decide)
    · have hdigits := isPlain_threeDigits octet
      exact .escaped (isPlain_iff.mp (hdigits _ List.mem_cons_self)).1
        (bare_of_plain fun c hc => hdigits c (List.mem_cons_of_mem _ hc))

theorem bare_escapeLabel (label : Octets) : Bare (escapeLabel label) := by
  induction label with
  | nil => exact .nil
  | cons octet label ih => exact (bare_escapeOctet octet).append ih

theorem bare_labelsText (labels : List Octets) : Bare (labelsText labels) := by
  induction labels with
  | nil => exact .nil
  | cons label labels ih =>
    exact ((bare_escapeLabel label).append (bare_of_plain (by decide))).append ih

/-- **A name is one field**, whatever octets its labels hold. -/
theorem bare_toPresentation (name : Name) : Bare (toPresentation name) := by
  rw [toPresentation_eq]
  split
  · exact bare_of_plain (by decide)
  · exact bare_labelsText _

theorem toPresentation_ne_nil (name : Name) : toPresentation name ≠ [] := by
  intro h
  have hlast := getLast?_toPresentation name
  rw [h] at hlast
  cases hlast

/-- **A name reads back against any origin**, as it is written absolute. -/
theorem absolutized_toPresentation (name origin : Name) :
    absolutized (toPresentation name) origin = .ok name := by
  have hgraphic := (bare_toPresentation name).graphic
  have hne := toPresentation_ne_nil name
  have hlast := getLast?_toPresentation name
  have htrim : trim (toPresentation name) = toPresentation name :=
    trim_eq_self hne
      (fun c hc => isWhitespace_of_graphic (hgraphic c (List.mem_of_mem_head? hc)))
      (fun c hc => isWhitespace_of_graphic (hgraphic c (List.mem_of_getLast? hc)))
  have hat : ¬ (toPresentation name = [] ∨ toPresentation name = ['@']) := by
    rintro (h | h)
    · exact hne h
    · rw [h] at hlast
      cases hlast
  rw [absolutized, htrim, if_neg hat, fromPresentation_toPresentation]
  show (if (toPresentation name).getLast? = some '.' then Except.ok name else _) = _
  rw [if_pos hlast]

/-- **A character-string may stand between quotes**, whatever octets it holds. -/
theorem quoted_charStringEscaped (octets : Octets) : Quoted (charStringEscaped octets) := by
  have hoctet : ∀ octet : UInt8, Quoted (escapeOctet isQuoteSyntax 0x20 octet) := by
    intro octet
    rw [escapeOctet]
    split
    · rename_i h
      simp only [isQuoteSyntax, Bool.or_eq_true, beq_iff_eq] at h
      rcases h with rfl | rfl <;> exact .escaped (by decide) .nil
    · rename_i h
      split
      · rename_i hprint
        have hlow := UInt8.le_iff_toNat_le.mp hprint.1
        have hhigh := UInt8.le_iff_toNat_le.mp hprint.2
        have hne : ∀ c : Char, isQuoteSyntax (UInt8.ofNat c.toNat) = true → charOf octet ≠ c := by grind [charOf_ne, UInt8.ofNat_toNat]
        refine .plain ?_ (hne _ (by decide)) (hne _ (by decide)) .nil
        rcases Nat.lt_or_ge octet.toNat 0x21 with hlt | hge
        · have hspace : octet = 0x20 := UInt8.toNat_inj.mp (Nat.le_antisymm (Nat.lt_succ_iff.mp hlt) hlow)
          subst hspace
          exact .inr rfl
        · exact .inl (isGraphic_charOf hge hhigh)
      · have hdigits := isPlain_threeDigits octet
        refine .escaped (isPlain_iff.mp (hdigits _ List.mem_cons_self)).1 ?_
        have hplain : ∀ c ∈ threeDigits octet, ∀ rest, Quoted rest → Quoted (c :: rest) := by
          intro c hc rest hrest
          obtain ⟨hgraphic, -, hquote, -, -, hback⟩ := isPlain_iff.mp (hdigits c hc)
          exact .plain (.inl hgraphic) hquote hback hrest
        exact hplain _ (by simp [threeDigits]) _ (hplain _ (by simp [threeDigits]) _ .nil)
  induction octets with
  | nil => exact .nil
  | cons octet octets ih => exact (hoctet octet).append ih

theorem bare_decimal (n : Nat) : Bare (decimal n) :=
  bare_of_plain fun _ hc => isPlain_of_isDigit (isDigit_of_mem_decimal hc)

theorem bare_signedDecimal (n : Int) : Bare (signedDecimal n) := by
  rw [signedDecimal]
  split
  · exact .plain (by decide) (bare_decimal _)
  · exact bare_decimal _

theorem bare_hexEncode (octets : Octets) : Bare (hexEncode octets) := by
  have hdigit : ∀ nibble : UInt8, nibble.toNat < 16 → isPlain (hexDigit nibble) = true := by
    intro nibble h
    have hall : ∀ n : Fin 16, isPlain (hexDigit (UInt8.ofNat n)) = true := by decide +kernel
    have hn := hall ⟨nibble.toNat, h⟩
    rwa [UInt8.ofNat_toNat] at hn
  induction octets with
  | nil => exact .nil
  | cons octet octets ih =>
    have hlt := octet.toNat_lt
    refine .plain (hdigit _ ?_) (.plain (hdigit _ ?_) ih)
    · simp only [UInt8.toNat_div, UInt8.toNat_ofNat, Nat.reducePow, Nat.reduceMod]
      omega
    · simp only [UInt8.toNat_mod, UInt8.toNat_ofNat, Nat.reducePow, Nat.reduceMod]
      omega

theorem bare_recordTypeName (rtype : Rtype) :
    Bare (recordTypeName rtype) ∧ recordTypeName rtype ≠ [] := by
  rw [recordTypeName]
  split
  · rename_i entry hfind
    have hall : ∀ entry ∈ knownTypes, (∀ c ∈ entry.1, isPlain c = true) ∧ entry.1 ≠ [] := by
      decide +kernel
    obtain ⟨hplain, hne⟩ := hall entry (List.mem_of_find?_eq_some hfind)
    exact ⟨bare_of_plain hplain, hne⟩
  · exact ⟨(bare_of_plain (by decide)).append (bare_decimal _), by simp⟩

end Rdns.Present
