import Rdns.Zones.Parse

/-!
# Rdns — A record reads back from its line

For the types that are written without base64, base32hex or a bitmap: what
`record_line` writes assembles to one logical line (`Tail`), and what the parser makes
of that line's fields is the stored record again (`rdata_reads_back`).
-/

namespace Rdns.Zones

open Rdns.Lib Rdns.Core Rdns.Present RecordTypes

/-! ## Which records -/

def Built (stored : RecordData) : Prop :=
  (∃ rtype rdata data, RecordData.fromWire rtype rdata data = .ok stored) ∨
    ∃ parsed, RecordData.fromParsed parsed = .ok stored

def plainTypes : List Rtype :=
  [A, AAAA, NS, CNAME, PTR, DNAME, MX, SOA, TXT]

def PlainType (rtype : Rtype) : Prop := rtype ∈ plainTypes ∨ rtype ∉ decodedTypes

variable {stored : RecordData} {parsed : ParsedRecord} {c : Char} {text : Text}

theorem canonical_of_plain (h : PlainType parsed.rtype) : parsed.canonical = parsed := by
  cases parsed with
  | svcb rtype priority target params =>
    have hnever : ∀ rtype : SvcbType, rtype.rtype ∉ plainTypes ∧ rtype.rtype ∈ decodedTypes := by
      intro rtype
      cases rtype <;> decide
    rcases h with h | h
    · exact absurd h (hnever rtype).1
    · exact absurd (hnever rtype).2 h
  | _ => rfl

/-- **Stored RDATA** whose records are in canonical form is opaque octets, or the encoding
of the record it parses as. -/
theorem parse_of_canonical (hbuilt : Built stored)
    (hcanonical : ∀ parsed : ParsedRecord, parsed.rtype = stored.rtype → parsed.canonical = parsed) :
    stored.parse = .ok (.unknown stored.rtype) ∨
      ∃ parsed : ParsedRecord, parsed.isUnknown = false ∧ parsed.rtype = stored.rtype ∧
        stored.parse = .ok parsed ∧ RecordData.fromParsed parsed = .ok stored := by
  have hempty : stored.rdata = [] → stored.parse = .ok (.unknown stored.rtype) := by
    intro h
    rw [RecordData.parse, ParsedRecord.decode, h]
    rfl
  -- the encoding of a typed record, however it was reached
  have htyped : ∀ parsed : ParsedRecord, parsed.isUnknown = false → parsed.rtype = stored.rtype →
      parsed.encodeRdata = .ok stored.rdata → stored.rdata ≠ [] →
      stored.parse = .ok parsed ∧ RecordData.fromParsed parsed = .ok stored := by
    intro parsed hknown hrtype hencode hne
    have hfrom : RecordData.fromParsed parsed = .ok stored := by
      rw [RecordData.fromParsed, ParsedRecord.encode, hencode, hrtype]
      rfl
    refine ⟨?_, hfrom⟩
    rw [RecordData.fromParsed_parse hfrom hne, hcanonical parsed hrtype]
  by_cases hne : stored.rdata = []
  · exact .inl (hempty hne)
  rcases hbuilt with ⟨rtype, rdata, data, hwire⟩ | ⟨parsed, hparsed⟩
  · rcases RecordData.fromWire_cases hwire with ⟨rfl, hwhy⟩ | ⟨parsed, hknown, hrtype, hst, henc⟩
    · rcases hwhy with hnil | hopaque
      · exact absurd hnil hne
      · refine .inl ?_
        show ParsedRecord.decode rtype rdata rdata = .ok (.unknown rtype)
        exact ParsedRecord.decode_opaque hopaque
    · exact .inr ⟨parsed, hknown, hrtype.trans hst.symm,
        htyped parsed hknown (hrtype.trans hst.symm) henc hne⟩
  · obtain ⟨hrtype, hencode⟩ := RecordData.fromParsed_eq_ok hparsed
    cases hknown : parsed.isUnknown with
    | false => exact .inr ⟨parsed, hknown, hrtype.symm, htyped parsed hknown hrtype.symm hencode hne⟩
    | true =>
      cases parsed with
      | unknown rtype => exact absurd (Except.ok.inj hencode).symm hne
      | _ => cases hknown

theorem parse_of_built (hbuilt : Built stored) (hplain : PlainType stored.rtype) :
    stored.parse = .ok (.unknown stored.rtype) ∨
      ∃ parsed : ParsedRecord, parsed.isUnknown = false ∧ parsed.rtype = stored.rtype ∧
        stored.parse = .ok parsed ∧ RecordData.fromParsed parsed = .ok stored :=
  parse_of_canonical hbuilt fun _ hrtype => canonical_of_plain (hrtype ▸ hplain)

/-! ## The text of the fields -/

theorem padRight_append (width : Nat) (text rest : Text) :
    padRight width text ++ ' ' :: rest
      = text ++ (List.replicate (width - text.length + 1) ' ' ++ rest) := by
  rw [padRight, List.append_assoc, List.replicate_succ', List.append_assoc]
  rfl

theorem mem_joined {sep : Char} {parts : List Text} (h : c ∈ joined sep parts) :
    c = sep ∨ ∃ part ∈ parts, c ∈ part := by
  have hsep : ∀ parts : List Text, c ∈ separated sep parts → c = sep ∨ ∃ part ∈ parts, c ∈ part := by
    intro parts hc
    obtain ⟨part, hpart, hc⟩ := List.mem_flatMap.mp hc
    rcases List.mem_cons.mp hc with hc | hc
    · exact .inl hc
    · exact .inr ⟨part, hpart, hc⟩
  cases parts with
  | nil => cases h
  | cons part parts =>
    rcases List.mem_append.mp h with h | h
    · exact .inr ⟨part, List.mem_cons_self, h⟩
    · grind

theorem isPlain_of_isDigitOf {radix : Nat} (h : isDigitOf radix c = true) : isPlain c = true := by
  have hle : ∀ {a b : Char}, a ≤ b → a.toNat ≤ b.toNat := fun h => UInt32.le_iff_toNat_le.mp h
  rw [isDigitOf, toDigit] at h
  apply isPlain_of_alphanumeric
  split at h
  · rename_i hdigit
    exact .inl ⟨hle hdigit.1, hle hdigit.2⟩
  · grind

theorem isPlain_showIpv4 (octets : Octets) : ∀ c ∈ showIpv4 octets, isPlain c = true := by
  intro c hc
  rcases mem_joined hc with rfl | ⟨part, hpart, hc⟩
  · decide
  · obtain ⟨octet, -, rfl⟩ := List.mem_map.mp hpart
    exact isPlain_of_isDigit (isDigit_of_mem_decimal hc)

theorem isPlain_showGroups (segments : List Nat) :
    ∀ c ∈ showGroups segments, isPlain c = true := by
  intro c hc
  rcases mem_joined hc with rfl | ⟨part, hpart, hc⟩
  · decide
  · obtain ⟨group, -, rfl⟩ := List.mem_map.mp hpart
    exact isPlain_of_isDigitOf (isDigitOf_of_mem_hexadecimal hc)

theorem isPlain_showIpv6 (octets : Octets) : ∀ c ∈ showIpv6 octets, isPlain c = true := by
  intro c hc
  rw [showIpv6] at hc
  split at hc
  · rcases List.mem_append.mp hc with hc | hc
    · have hall : ∀ c ∈ "::ffff:".toList, isPlain c = true := by decide
      exact hall c hc
    · exact isPlain_showIpv4 _ c hc
  · rw [showSegments] at hc
    split at hc
    · rcases List.mem_append.mp hc with hc | hc
      · exact isPlain_showGroups _ c hc
      · rcases List.mem_cons.mp hc with rfl | hc
        · decide
        · rcases List.mem_cons.mp hc with rfl | hc
          · decide
          · exact isPlain_showGroups _ c hc
    · exact isPlain_showGroups _ c hc

/-! ## From the type on -/

def Tail (text : Text) (tokens : List Text) : Prop :=
  ∀ (front : Text) (before : List Text) (gap : Nat), Fields front before →
    Block (front ++ (List.replicate (gap + 1) ' ' ++ text)) (before ++ tokens)

theorem Fields.tail {tokens : List Text} (h : Fields text tokens) : Tail text tokens :=
  fun _ _ gap hfront => (hfront.append h gap).block

theorem Fields.name (name : Name) : Fields (toPresentation name) [toPresentation name] :=
  .one (.bare (bare_toPresentation name) (toPresentation_ne_nil name))

theorem Fields.number (n : Nat) : Fields (decimal n) [decimal n] :=
  .one (.bare (bare_decimal n) (decimal_ne_nil n))

theorem Fields.space {a b : Text} {xs ys : List Text} (ha : Fields a xs) (hb : Fields b ys) :
    Fields (a ++ ' ' :: b) (xs ++ ys) :=
  ha.append hb 0

def genericTokens (stored : RecordData) : List Text :=
  "\\#".toList :: decimal stored.rdata.length ::
    (if stored.rdata = [] then [] else [hexEncode stored.rdata])

theorem fields_genericRdata (stored : RecordData) :
    Fields (genericRdata stored) (genericTokens stored) := by
  have hmark : Fields "\\#".toList ["\\#".toList] :=
    .one (.bare (.escaped (by decide) .nil) (by decide))
  have hhead := hmark.space (Fields.number stored.rdata.length)
  rw [genericRdata, genericTokens]
  split
  · rw [List.append_nil]
    exact hhead
  · rename_i hne
    have hhex : hexEncode stored.rdata ≠ [] := by
      intro h
      cases hdata : stored.rdata with
      | nil => exact hne hdata
      | cons octet rest =>
        rw [hdata] at h
        cases h
    exact hhead.space (.one (.bare (bare_hexEncode _) hhex))

theorem fields_quotedStrings :
    ∀ (strings : List Octets), strings ≠ [] →
      Fields (joined ' ' (strings.map quotedString)) (strings.map charStringEscaped)
  | [], h => absurd rfl h
  | [only], _ => by
    rw [List.map_singleton, List.map_singleton, joined, separated, List.flatMap_nil,
      List.append_nil]
    exact .one (.quoted (quoted_charStringEscaped only))
  | first :: second :: rest, _ =>
    .more 0 (.quoted (quoted_charStringEscaped first))
      (fields_quotedStrings (second :: rest) (List.cons_ne_nil _ _))

theorem printable_of_all (h : (text.all fun c => isGraphic c || c == ' ') = true) :
    Printable text := by
  intro c hc
  have := List.all_eq_true.mp h c hc
  simpa using this

theorem groupItem_soaTimer {value : Text} (hbare : Bare value) (hne : value ≠ [])
    {comment : String} (hcomment : Printable (' ' :: comment.toList)) :
    GroupItem (soaTimer value comment) value where
  bare := hbare
  ne_nil := hne
  shape := by
    refine ⟨45, 12 - value.length + 1, ' ' :: comment.toList, hcomment, ?_⟩
    rw [soaTimer, ← padRight_append]
    simp

def soaTokens (mname rname : Name) (serial : Serial) (refresh retry expire : Int32)
    (minimum : UInt32) : List Text :=
  [toPresentation mname, toPresentation rname, decimal serial.value.toNat,
    signedDecimal refresh.toInt, signedDecimal retry.toInt, signedDecimal expire.toInt,
    decimal minimum.toNat]

theorem signedDecimal_ne_nil (n : Int) : signedDecimal n ≠ [] := by
  rw [signedDecimal]
  split
  · exact List.cons_ne_nil _ _
  · exact decimal_ne_nil _

theorem tail_soaText (mname rname : Name) (serial : Serial) (refresh retry expire : Int32)
    (minimum : UInt32) :
    Tail (soaText mname rname serial refresh retry expire minimum)
      (soaTokens mname rname serial refresh retry expire minimum) := by
  intro front before gap hfront
  have hhead := (hfront.append (Fields.name mname) gap).space (Fields.name rname)
  have hblock := hhead.group
    [(soaTimer (decimal serial.value.toNat) "serial", decimal serial.value.toNat),
      (soaTimer (signedDecimal refresh.toInt) "refresh", signedDecimal refresh.toInt),
      (soaTimer (signedDecimal retry.toInt) "retry", signedDecimal retry.toInt),
      (soaTimer (signedDecimal expire.toInt) "expire", signedDecimal expire.toInt),
      (soaTimer (decimal minimum.toNat) "minimum (negative TTL)", decimal minimum.toNat)]
    (by
      intro item hitem
      simp only [List.mem_cons, List.not_mem_nil, or_false] at hitem
      rcases hitem with rfl | rfl | rfl | rfl | rfl
      · exact groupItem_soaTimer (bare_decimal _) (decimal_ne_nil _) (printable_of_all (by decide))
      · exact groupItem_soaTimer (bare_signedDecimal _) (signedDecimal_ne_nil _)
          (printable_of_all (by decide))
      · exact groupItem_soaTimer (bare_signedDecimal _) (signedDecimal_ne_nil _)
          (printable_of_all (by decide))
      · exact groupItem_soaTimer (bare_signedDecimal _) (signedDecimal_ne_nil _)
          (printable_of_all (by decide))
      · exact groupItem_soaTimer (bare_decimal _) (decimal_ne_nil _) (printable_of_all (by decide)))
    45
  simp only [List.flatMap_cons, List.flatMap_nil, List.map_cons, List.map_nil, List.append_assoc,
    List.append_nil, List.cons_append, List.nil_append] at hblock
  simp only [soaText, soaTokens, List.append_assoc, List.cons_append]
  exact hblock

/-! ## What the parser makes of the fields -/

theorem readField_eq_ok {α β : Type} {parse : α → Option β} {ln : Nat} {detail : String} {value : α}
    {found : β} (h : parse value = some found) : readField parse ln detail value = .ok found := by
  rw [readField, h]

theorem nameAt_toPresentation (name origin : Name) (ln : Nat) :
    nameAt (toPresentation name) origin ln = .ok name :=
  readField_eq_ok (by rw [absolutized_toPresentation]; rfl)

theorem oneName_toPresentation (name origin : Name) (ln : Nat) :
    oneName [toPresentation name] origin ln = .ok name :=
  nameAt_toPresentation name origin ln

theorem addressA_show (addr : Ipv4Addr) : addressA (showIpv4 addr.octets) = some addr := by
  rw [addressA, parseIpv4_show addr.length_ok, Option.bind_some, dif_pos addr.length_ok]

theorem addressAaaa_show (addr : Ipv6Addr) : addressAaaa (showIpv6 addr.octets) = some addr := by
  rw [addressAaaa, parseIpv6_show addr.length_ok, Option.bind_some, dif_pos addr.length_ok]

theorem joined_singleton (sep : Char) (part : Text) : joined sep [part] = part :=
  List.append_nil part

theorem txtFields_escaped (strings : List Octets) (h : strings ≠ []) (ln : Nat) :
    txtFields (strings.map charStringEscaped) ln = .ok (.txt strings) := by
  have hread : ∀ strings : List Octets, ((strings.map charStringEscaped).mapM fun text =>
      readField (fun text => (charStringDecode (toBytes text)).toOption) ln "TXT record" text)
      = .ok strings := by
    intro strings
    induction strings with
    | nil => rfl
    | cons string strings ih =>
      have hstring : readField (fun text => (charStringDecode (toBytes text)).toOption) ln
          "TXT record" (charStringEscaped string) = .ok string :=
        readField_eq_ok (by rw [charStringDecode_escaped]; rfl)
      rw [List.map_cons, List.mapM_cons, hstring, ih]
      rfl
  rw [txtFields, hread]
  show (if strings.isEmpty = true then _ else _) = _
  rw [if_neg (by rw [List.isEmpty_iff]; exact h)]
  rfl

theorem soaFields_tokens (mname rname : Name) (serial : Serial) (refresh retry expire : Int32)
    (minimum : UInt32) (origin : Name) (ln : Nat) :
    soaFields (soaTokens mname rname serial refresh retry expire minimum) origin ln
      = .ok (.soa mname rname serial refresh retry expire minimum) := by
  rw [soaTokens, soaFields, readField_eq_ok (parseU32_decimal _),
    readField_eq_ok (parseI32_signed refresh), readField_eq_ok (parseI32_signed retry),
    readField_eq_ok (parseI32_signed expire), readField_eq_ok (parseU32_decimal _)]
  show (nameAt (toPresentation mname) origin ln >>= fun _ => _) = _
  rw [nameAt_toPresentation]
  show (nameAt (toPresentation rname) origin ln >>= fun _ => _) = _
  rw [nameAt_toPresentation]
  rfl

theorem mxFields_tokens (preference : UInt16) (exchange origin : Name) (ln : Nat) :
    mxFields [decimal preference.toNat, toPresentation exchange] origin ln
      = .ok (.mx preference exchange) := by
  rw [mxFields, readField_eq_ok (parseU16_decimal _)]
  show (nameAt (toPresentation exchange) origin ln >>= fun _ => _) = _
  rw [nameAt_toPresentation]
  rfl

/-! ## None of it looks like the generic form -/

theorem toPresentation_ne_mark (name : Name) : toPresentation name ≠ "\\#".toList := by
  intro h
  have hlast := getLast?_toPresentation name
  rw [h] at hlast
  exact absurd hlast (by decide)

theorem plain_ne_mark (h : ∀ c ∈ text, isPlain c = true) : text ≠ "\\#".toList := by
  rintro rfl
  exact absurd (h '\\' (by decide)) (by decide)

theorem charStringEscaped_ne_mark (octets : Octets) : charStringEscaped octets ≠ "\\#".toList := by
  intro h
  have hdecode := charStringDecode_escaped octets
  have hmark : charStringDecode (toBytes "\\#".toList) = .ok [35] := by decide +kernel
  rw [h, hmark] at hdecode
  cases hdecode
  exact absurd h (by decide)

/-! ## Each plain type -/

variable (b64 : Base64)

def TextReads (parsed : ParsedRecord) : Prop :=
  ∃ text tokens, presentationRdata b64 parsed = some text ∧ Tail text tokens ∧
    tokens.head? ≠ some "\\#".toList ∧
    ∀ origin ln, rdataFromFields b64 tokens origin ln (recordTypeName parsed.rtype) = .ok parsed

theorem textReads_a (addr : Ipv4Addr) : TextReads b64 (.a addr) := by
  have hplain := isPlain_showIpv4 addr.octets
  have hne : showIpv4 addr.octets ≠ [] := by
    intro h
    have := addressA_show addr
    rw [h] at this
    cases this
  refine ⟨_, _, rfl, (Fields.one (.bare (bare_of_plain hplain) hne)).tail,
    fun h => plain_ne_mark hplain (Option.some.inj h), fun origin ln => ?_⟩
  rw [show recordTypeName (ParsedRecord.a addr).rtype = "A".toList from rfl, rdataFromFields,
    if_pos rfl, joined_singleton, readField_eq_ok (addressA_show addr)]
  rfl

theorem textReads_aaaa (addr : Ipv6Addr) : TextReads b64 (.aaaa addr) := by
  have hplain := isPlain_showIpv6 addr.octets
  have hne : showIpv6 addr.octets ≠ [] := by
    intro h
    have := addressAaaa_show addr
    rw [h] at this
    cases this
  refine ⟨_, _, rfl, (Fields.one (.bare (bare_of_plain hplain) hne)).tail,
    fun h => plain_ne_mark hplain (Option.some.inj h), fun origin ln => ?_⟩
  rw [show recordTypeName (ParsedRecord.aaaa addr).rtype = "AAAA".toList from rfl, rdataFromFields,
    if_neg (by decide), if_pos rfl, joined_singleton, readField_eq_ok (addressAaaa_show addr)]
  rfl

theorem textReads_name (make : Name → ParsedRecord) (name : Name)
    (htext : presentationRdata b64 (make name) = some (toPresentation name))
    (hfields : ∀ fields origin ln, rdataFromFields b64 fields origin ln
      (recordTypeName (make name).rtype) = (do return make (← oneName fields origin ln))) :
    TextReads b64 (make name) := by
  refine ⟨_, _, htext, (Fields.name name).tail,
    fun h => toPresentation_ne_mark name (Option.some.inj h), fun origin ln => ?_⟩
  rw [hfields, oneName_toPresentation]
  rfl

theorem textReads_ns (name : Name) : TextReads b64 (.ns name) :=
  textReads_name b64 .ns name rfl fun _ _ _ => rfl

theorem textReads_cname (name : Name) : TextReads b64 (.cname name) :=
  textReads_name b64 .cname name rfl fun _ _ _ => rfl

theorem textReads_ptr (name : Name) : TextReads b64 (.ptr name) :=
  textReads_name b64 .ptr name rfl fun _ _ _ => rfl

theorem textReads_dname (name : Name) : TextReads b64 (.dname name) :=
  textReads_name b64 .dname name rfl fun _ _ _ => rfl

theorem textReads_mx (preference : UInt16) (exchange : Name) :
    TextReads b64 (.mx preference exchange) := by
  refine ⟨_, _, rfl, ((Fields.number preference.toNat).space (Fields.name exchange)).tail,
    fun h => ?_, fun origin ln => ?_⟩
  · exact plain_ne_mark (fun c hc => isPlain_of_isDigit (isDigit_of_mem_decimal hc))
      (Option.some.inj h)
  · exact mxFields_tokens preference exchange origin ln

theorem textReads_soa (mname rname : Name) (serial : Serial) (refresh retry expire : Int32)
    (minimum : UInt32) : TextReads b64 (.soa mname rname serial refresh retry expire minimum) := by
  refine ⟨_, _, rfl, tail_soaText mname rname serial refresh retry expire minimum,
    fun h => toPresentation_ne_mark mname (Option.some.inj h), fun origin ln => ?_⟩
  exact soaFields_tokens mname rname serial refresh retry expire minimum origin ln

theorem textReads_txt {strings : List Octets} (h : strings ≠ []) : TextReads b64 (.txt strings) := by
  refine ⟨_, _, rfl, (fields_quotedStrings strings h).tail, fun hmark => ?_, fun origin ln => ?_⟩
  · cases strings with
    | nil => exact h rfl
    | cons string strings => exact charStringEscaped_ne_mark string (Option.some.inj hmark)
  · exact txtFields_escaped strings h ln

/-- **A typed record of a plain type reads back from its text.** -/
theorem textReads_of_plain {rdata : Octets} (hknown : parsed.isUnknown = false)
    (hplain : PlainType parsed.rtype) (hencode : parsed.encodeRdata = .ok rdata) :
    TextReads b64 parsed := by
  have hnever : ∀ rtype, parsed.rtype = rtype → rtype ∉ plainTypes → rtype ∈ decodedTypes →
      TextReads b64 parsed := by
    rintro rtype rfl hout hin
    exact absurd hplain (not_or.mpr ⟨hout, not_not_intro hin⟩)
  cases parsed with
  | a addr => exact textReads_a b64 addr
  | aaaa addr => exact textReads_aaaa b64 addr
  | ns name => exact textReads_ns b64 name
  | cname name => exact textReads_cname b64 name
  | ptr name => exact textReads_ptr b64 name
  | dname name => exact textReads_dname b64 name
  | mx preference exchange => exact textReads_mx b64 preference exchange
  | soa mname rname serial refresh retry expire minimum =>
    exact textReads_soa b64 mname rname serial refresh retry expire minimum
  | txt strings =>
    refine textReads_txt b64 ?_
    rintro rfl
    cases hencode
  | svcb rtype _ _ _ =>
    exact hnever rtype.rtype rfl (by cases rtype <;> decide) (by cases rtype <;> decide)
  | dnskey rtype _ _ _ _ =>
    exact hnever rtype.rtype rfl (by cases rtype <;> decide) (by cases rtype <;> decide)
  | ds rtype _ _ _ _ =>
    exact hnever rtype.rtype rfl (by cases rtype <;> decide) (by cases rtype <;> decide)
  | rrsig => exact hnever RRSIG rfl (by decide) (by decide)
  | nsec => exact hnever NSEC rfl (by decide) (by decide)
  | nsec3 => exact hnever NSEC3 rfl (by decide) (by decide)
  | unknown => cases hknown

/-! ## The type field -/

theorem toUpper_of_isDigit (h : c.isDigit = true) : c.toUpper = c := by
  simp only [Char.isDigit, Bool.and_eq_true, decide_eq_true_eq, UInt32.le_iff_toNat_le] at h
  refine dif_neg ?_
  intro hlower
  have h97 : (97 : Nat) ≤ c.val.toNat := UInt32.le_iff_toNat_le.mp hlower.1
  have h57 : c.val.toNat ≤ 57 := h.2
  omega

theorem length_decimal_u16 (value : UInt16) : (decimal value.toNat).length ≤ 5 :=
  (Nat.length_toDigits_le_iff (by decide) (by decide)).mpr (by have := value.toNat_lt; omega)

theorem upperOr_recordTypeName (rtype : Rtype) :
    upperOr (recordTypeName rtype) = recordTypeName rtype := by
  rw [recordTypeName]
  split
  · rename_i entry hfind
    have hall : ∀ entry ∈ knownTypes, upperOr entry.1 = entry.1 := by decide +kernel
    exact hall entry (List.mem_of_find?_eq_some hfind)
  · have hascii : IsAscii ("TYPE".toList ++ decimal rtype.code.toNat) := by
      have hhead : ∀ c ∈ "TYPE".toList, c.toNat < 128 := by decide
      exact isAscii_append hhead (isAscii_decimal _)
    have hall : (("TYPE".toList ++ decimal rtype.code.toNat).all
        fun c => decide (c.toNat < 128)) = true :=
      List.all_eq_true.mpr fun c hc => decide_eq_true (hascii c hc)
    have hlength : (toBytes ("TYPE".toList ++ decimal rtype.code.toNat)).length ≤ 32 := by
      have := length_decimal_u16 rtype.code
      rw [length_toBytes hascii, List.length_append]
      show 4 + _ ≤ 32
      omega
    have hdigits : (decimal rtype.code.toNat).map Char.toUpper = decimal rtype.code.toNat := by
      conv_rhs => rw [← List.map_id (decimal rtype.code.toNat)]
      exact List.map_congr_left fun c hc => toUpper_of_isDigit (isDigit_of_mem_decimal hc)
    rw [upperOr, upperInto, if_pos ⟨hall, hlength⟩, List.map_append, hdigits]
    rfl

theorem recordTypeName_isType (rtype : Rtype) : parseI32 (recordTypeName rtype) = none ∧
    eqIgnoreCase (recordTypeName rtype) "IN".toList = false ∧
    eqIgnoreCase (recordTypeName rtype) "CH".toList = false ∧
    eqIgnoreCase (recordTypeName rtype) "HS".toList = false := by
  rw [recordTypeName]
  split
  · rename_i entry hfind
    have hall : ∀ entry ∈ knownTypes, parseI32 entry.1 = none ∧
        eqIgnoreCase entry.1 "IN".toList = false ∧ eqIgnoreCase entry.1 "CH".toList = false ∧
        eqIgnoreCase entry.1 "HS".toList = false := by
      decide +kernel
    exact hall entry (List.mem_of_find?_eq_some hfind)
  · exact ⟨rfl, rfl, rfl, rfl⟩

/-! ## Any record -/

/-- **What it is for a record's text to read back**: it ends a logical line, and from the
type on the parser makes the record of it that was written. -/
def ReadsBack (stored : RecordData) : Prop :=
  ∃ tokens, Tail (rdataToString b64 stored) tokens ∧
    ∀ zone origin owner ttl ln,
      readRecord b64 zone origin owner ttl ln (recordTypeName stored.rtype) tokens
        = .ok (zone.takeIn ⟨owner, ttl, .IN, stored⟩)

theorem rdataToString_unknown (h : stored.parse = .ok (.unknown stored.rtype)) :
    rdataToString b64 stored = genericRdata stored := by
  rw [rdataToString, h]
  show (if [] = stored.rdata then genericRdata stored else genericRdata stored) = _
  rw [ite_self]

/-- **The generic form reads back**, for any octets that parse as their type. -/
theorem parseGenericRdata_tokens (hparse : stored.parse = .ok parsed)
    (hlen : stored.rdata.length < 18446744073709551616) (ln : Nat) :
    parseGenericRdata (recordTypeName stored.rtype) ((genericTokens stored).drop 1) ln
      = .ok stored := by
  have hhex : (hexDecode (if stored.rdata = [] then [] else [hexEncode stored.rdata]).flatten).toOption
      = some stored.rdata := by
    split
    · rename_i hnil
      rw [hnil]
      rfl
    · rw [List.flatten_cons, List.flatten_nil, List.append_nil, hexDecode_encode]
      rfl
  have hnew : (RecordData.new stored.rtype stored.rdata).toOption = some stored := by
    rw [RecordData.new]
    show (stored.parse >>= fun _ => _).toOption = _
    rw [hparse]
    rfl
  have hlength : parseUsize (decimal stored.rdata.length) = some stored.rdata.length :=
    parseBelow_decimal hlen
  show parseGenericRdata (recordTypeName stored.rtype) (decimal stored.rdata.length ::
    (if stored.rdata = [] then [] else [hexEncode stored.rdata])) ln = .ok stored
  rw [parseGenericRdata, readField_eq_ok (recordTypeNameToCode_name _)]
  show (readField parseUsize ln _ (decimal stored.rdata.length) >>= fun _ => _) = _
  rw [readField_eq_ok hlength]
  show (readField _ ln _ (List.flatten _) >>= fun _ => _) = _
  rw [@readField_eq_ok _ _ (fun text => (hexDecode text).toOption) _ _ _ _ hhex]
  show (if stored.rdata.length ≠ stored.rdata.length then _ else _) = _
  rw [if_neg (not_not_intro rfl)]
  exact readField_eq_ok hnew

theorem readsBack_generic (h : stored.parse = .ok (.unknown stored.rtype))
    (hlen : stored.rdata.length ≤ 65535) : ReadsBack b64 stored := by
  refine ⟨genericTokens stored, ?_, fun zone origin owner ttl ln => ?_⟩
  · rw [rdataToString_unknown b64 h]
    exact (fields_genericRdata stored).tail
  · have hmark : (genericTokens stored).head? = some "\\#".toList := rfl
    rw [readRecord, upperOr_recordTypeName, if_pos hmark, parseGenericRdata_tokens h (by omega)]
    show Except.ok (zone.takeIn ⟨owner, ttl, .IN, Zones.stored stored⟩) = _
    rw [stored_eq_self hlen]

theorem readsBack_typed (hparse : stored.parse = .ok parsed)
    (hfrom : RecordData.fromParsed parsed = .ok stored) (hlen : stored.rdata.length ≤ 65535)
    (hreads : TextReads b64 parsed) :
    ReadsBack b64 stored := by
  obtain ⟨text, tokens, htext, htail, hmark, hread⟩ := hreads
  have hrtype : stored.rtype = parsed.rtype := (RecordData.fromParsed_eq_ok hfrom).1
  refine ⟨tokens, ?_, fun zone origin owner ttl ln => ?_⟩
  · have hstring : rdataToString b64 stored = text := by
      rw [rdataToString, hparse]
      dsimp only
      rw [hfrom]
      dsimp only
      rw [if_pos rfl, htext, Option.getD_some]
    rw [hstring]
    exact htail
  · have hstored : storedParsed parsed = .ok stored := by
      rw [storedParsed, hfrom]
      show (if stored.rdata.length > 65535 then _ else _) = _
      rw [if_neg (by omega)]
      rfl
    have hadd : (zone.addParsed owner ttl .IN parsed).toOption
        = some (zone.takeIn ⟨owner, ttl, .IN, stored⟩) := by
      rw [Zone.addParsed, hstored]
      rfl
    rw [readRecord, upperOr_recordTypeName, if_neg hmark, hrtype, hread]
    exact readField_eq_ok hadd

/-- **Every record of a plain type reads back**, whatever octets it holds. -/
theorem readsBack_of_plain (hbuilt : Built stored) (hplain : PlainType stored.rtype)
    (hlen : stored.rdata.length ≤ 65535) :
    ReadsBack b64 stored := by
  rcases parse_of_built hbuilt hplain with hopaque | ⟨parsed, hknown, hrtype, hparse, hfrom⟩
  · exact readsBack_generic b64 hopaque hlen
  · have hencode := (RecordData.fromParsed_eq_ok hfrom).2
    exact readsBack_typed b64 hparse hfrom hlen
      (textReads_of_plain b64 hknown (hrtype ▸ hplain) hencode)

end Rdns.Zones
