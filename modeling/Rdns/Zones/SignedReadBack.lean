import Rdns.Present.DenialText
import Rdns.Present.TimeText
import Rdns.Zones.RecordReadBack

/-!
# Rdns — A DNSSEC record read back from its line

The types written with base64, base32hex, dates or a type list. The text of a field that
is empty is nothing at all, so the reader, which counts fields, misses it.
-/

namespace Rdns.Zones

open Rdns.Lib Rdns.Core Rdns.Present RecordTypes

/-! ## Reading one line -/

section Line

variable (b64 : Base64)

def readRdata (recordType : Text) (fields : List Text) (origin : Name) (ln : Nat) :
    Except ZoneError RecordData :=
  if fields.head? = some "\\#".toList then parseGenericRdata recordType (fields.drop 1) ln
  else do
    let parsed ← rdataFromFields b64 fields origin ln recordType
    readField (fun parsed => (RecordData.fromParsed parsed).toOption) ln "record" parsed

def lineRdata (origin : Name) (text : Text) : Except ZoneError RecordData := do
  let lines ← logicalLines (text ++ ['\n'])
  match lines with
  | [line] =>
    match tokenize line.text with
    | _ :: _ :: _ :: kind :: fields => readRdata b64 (upperOr kind) fields origin line.lineNo
    | _ => throw (.syntaxAt line.lineNo "the line does not state all four")
  | _ => throw (.invalid "not one line")

theorem logicalLines_block {text : Text} {tokens : List Text} (h : Block text tokens) :
    ∃ line, logicalLines (text ++ ['\n']) = .ok [line] ∧ tokenize line.text = tokens := by
  obtain ⟨found, hfound, hall⟩ := assembleFrom_blocks [(text, tokens)]
    (fun b hb => by rw [List.mem_singleton.mp hb]; exact h) [] 0
  obtain ⟨line, rest, ⟨-, hfields⟩, hrest, rfl⟩ := List.forall₂_cons_right_iff.mp hall
  cases hrest
  refine ⟨line, ?_, hfields.tokenize⟩
  rw [List.flatMap_singleton] at hfound
  rw [logicalLines, hfound]
  rfl

theorem bare_className {cls : Core.Class} {classText : Text} (h : className cls = some classText) :
    Bare classText ∧ classText ≠ [] := by
  rw [className] at h
  rcases ite_eq_iff.mp h with ⟨-, h⟩ | ⟨-, h⟩
  · cases h
    exact ⟨bare_of_plain (by decide), by decide⟩
  rcases ite_eq_iff.mp h with ⟨-, h⟩ | ⟨-, h⟩
  · cases h
    exact ⟨bare_of_plain (by decide), by decide⟩
  rcases ite_eq_iff.mp h with ⟨-, h⟩ | ⟨-, h⟩
  · cases h
    exact ⟨bare_of_plain (by decide), by decide⟩
  · cases h

variable {stored : RecordData}

/-- **A written line is read from the fields its RDATA ends in.** -/
theorem lineRdata_of_tail {fields : List Text} {owner : Name} {ttl : Ttl} {cls : Core.Class}
    {text : Text} (htail : Tail (rdataToString b64 stored) fields)
    (hline : recordLine b64 owner ttl cls stored = .ok text) (origin : Name) :
    ∃ ln, lineRdata b64 origin text
      = readRdata b64 (recordTypeName stored.rtype) fields origin ln := by
  rw [recordLine] at hline
  cases hclass : className cls with
  | none =>
    rw [hclass] at hline
    cases hline
  | some classText =>
    rw [hclass] at hline
    dsimp only at hline
    obtain ⟨hbareClass, hneClass⟩ := bare_className hclass
    obtain ⟨hbare, hne⟩ := bare_recordTypeName stored.rtype
    have hfront := (((Fields.name owner).append (Fields.number ttl.secs.toNat)
      (24 - (toPresentation owner).length)).append (.one (.bare hbareClass hneClass)) 0).append
      (.one (.bare hbare hne)) (3 - classText.length)
    have hblock := htail _ _ (7 - (recordTypeName stored.rtype).length) hfront
    have htext := Except.ok.inj hline
    simp only [List.append_assoc, List.cons_append, padRight_append] at htext
    have hwritten : Block text ([toPresentation owner, decimal ttl.secs.toNat, classText,
        recordTypeName stored.rtype] ++ fields) := by
      rw [← htext]
      simp only [List.append_assoc, List.cons_append, List.nil_append, List.replicate_one,
        Nat.zero_add] at hblock ⊢
      exact hblock
    obtain ⟨line, hlines, htokens⟩ := logicalLines_block hwritten
    refine ⟨line.lineNo, ?_⟩
    rw [lineRdata, hlines]
    dsimp only [bind, Except.bind]
    rw [htokens]
    dsimp only [List.cons_append, List.nil_append]
    rw [upperOr_recordTypeName]

theorem rdata_ne_nil {parsed : ParsedRecord} (hparse : stored.parse = .ok parsed)
    (hknown : parsed.isUnknown = false) : stored.rdata ≠ [] := by
  intro hnil
  rw [RecordData.parse, ParsedRecord.decode, hnil] at hparse
  cases hparse
  cases hknown

/-- **The type's own reader decides**: the stored octets have one parse, so only the
record itself encodes to them. -/
theorem readRdata_typed {parsed : ParsedRecord}
    (hcanonical : ∀ parsed : ParsedRecord, parsed.rtype = stored.rtype → parsed.canonical = parsed)
    (hparse : stored.parse = .ok parsed) (hknown : parsed.isUnknown = false)
    (hfrom : RecordData.fromParsed parsed = .ok stored) {fields : List Text}
    (hmark : fields.head? ≠ some "\\#".toList) (recordType : Text) (origin : Name) (ln : Nat) :
    readRdata b64 recordType fields origin ln = .ok stored ↔
      rdataFromFields b64 fields origin ln recordType = .ok parsed := by
  rw [readRdata, if_neg hmark]
  constructor
  · intro h
    obtain ⟨other, hother, h⟩ := except_bind_eq_ok.mp h
    have hencoded : RecordData.fromParsed other = .ok stored := by
      have h := of_readField_eq_ok h
      cases hfromOther : RecordData.fromParsed other with
      | error e =>
        rw [hfromOther] at h
        cases h
      | ok found =>
        rw [hfromOther] at h
        cases h
        rfl
    have hsame := RecordData.fromParsed_parse hencoded (rdata_ne_nil hparse hknown)
    rw [hcanonical other (RecordData.fromParsed_eq_ok hencoded).1.symm, hparse] at hsame
    rw [hother, ← Except.ok.inj hsame]
  · intro h
    rw [h]
    exact readField_eq_ok (by rw [hfrom]; rfl)

end Line

/-! ## Fields that are joined -/

theorem fields_joined : ∀ {parts : List Text}, parts ≠ [] → (∀ part ∈ parts, Bare part ∧ part ≠ []) →
    Fields (joined ' ' parts) parts
  | [], hne, _ => absurd rfl hne
  | [part], _, h => by
    rw [joined, separated, List.flatMap_nil, List.append_nil]
    obtain ⟨hbare, hne⟩ := h part List.mem_cons_self
    exact .one (.bare hbare hne)
  | part :: next :: rest, _, h => by
    obtain ⟨hbare, hne⟩ := h part List.mem_cons_self
    exact .more 0 (.bare hbare hne)
      (fields_joined (List.cons_ne_nil _ _) fun other hother => h other (List.mem_cons_of_mem _ hother))

theorem joined_concat_nil {parts : List Text} (h : parts ≠ []) :
    joined ' ' (parts ++ [[]]) = joined ' ' parts ++ [' '] := by
  cases parts with
  | nil => exact absurd rfl h
  | cons part rest =>
    show part ++ separated ' ' (rest ++ [[]]) = part ++ separated ' ' rest ++ [' ']
    rw [separated, separated, List.flatMap_append, List.flatMap_singleton, List.append_assoc]

/-- **A space after the last field is no field.** -/
theorem Fields.tail_space {text : Text} {tokens : List Text} (h : Fields text tokens) :
    Tail (text ++ [' ']) tokens := by
  intro front before gap hfront out n rest
  have hall := hfront.append h gap
  refine ⟨n + 1, ⟨n + 1, front ++ (List.replicate (gap + 1) ' ' ++ text), false⟩, rfl, hall, ?_⟩
  have htext : front ++ (List.replicate (gap + 1) ' ' ++ (text ++ [' '])) =
      front ++ (List.replicate (gap + 1) ' ' ++ text) ++ [' '] := by
    simp only [List.append_assoc]
  rw [htext]
  generalize front ++ (List.replicate (gap + 1) ' ' ++ text) = line at hall
  have hstrip : stripLoop (n + 1) 0 false false [] (line ++ [' ']) = .ok (line ++ [' '], 0, false) := by
    rw [hall.strip, List.nil_append]
    exact stripLoop_spaces 1 (n + 1) 0 line []
  have htrim : trim (line ++ [' ']) = line := by
    have := hall.solid.trim 0 1
    rwa [List.replicate_zero, List.nil_append] at this
  have hprint : Printable (line ++ [' ']) := hall.printable.append (printable_spaces 1)
  rw [hprint.lines, assembleFrom_cons, assembleSlowly_of_strip (a := ⟨out, none, 0⟩) hstrip,
    Assembly.file, if_pos rfl]
  dsimp only
  rw [htrim, if_neg (fun hempty => hall.solid.ne_nil hempty.1), hall.solid.startsWithWhitespace]
  rfl

theorem Fields.types {head : Text} {tokens : List Text} (h : Fields head tokens)
    (types : List Rtype) :
    Fields (head ++ types.flatMap fun rtype => ' ' :: recordTypeName rtype)
      (tokens ++ types.map recordTypeName) := by
  induction types generalizing head tokens with
  | nil => grind
  | cons rtype types ih =>
    obtain ⟨hbare, hne⟩ := bare_recordTypeName rtype
    have hmore := ih (h.append (.one (.bare hbare hne)) 0)
    rw [List.append_assoc, List.append_assoc, List.append_assoc] at hmore
    exact hmore

theorem parseU8_decimal (value : UInt8) : parseU8 (decimal value.toNat) = some value := by
  rw [parseU8, parseBelow_decimal value.toNat_lt, Option.map_some, UInt8.ofNat_toNat]

theorem decimal_ne_mark (n : Nat) : decimal n ≠ "\\#".toList :=
  plain_ne_mark fun _ hc => isPlain_of_isDigit (isDigit_of_mem_decimal hc)

theorem bare_number (n : Nat) : Bare (decimal n) ∧ decimal n ≠ [] :=
  ⟨bare_decimal n, decimal_ne_nil n⟩

theorem bare_name (name : Name) : Bare (toPresentation name) ∧ toPresentation name ≠ [] :=
  ⟨bare_toPresentation name, toPresentation_ne_nil name⟩

variable {bitmap octets : Octets}

theorem bare_hex (h : octets ≠ []) : Bare (hexEncode octets) ∧ hexEncode octets ≠ [] := by
  refine ⟨bare_hexEncode octets, ?_⟩
  cases octets with
  | nil => exact absurd rfl h
  | cons octet rest => exact List.cons_ne_nil _ _

theorem bare_time (epoch : UInt32) :
    Bare (formatDnssecTime epoch) ∧ formatDnssecTime epoch ≠ [] := by
  refine ⟨bare_of_plain fun c hc => isPlain_of_isDigit (isDigit_of_mem_formatDnssecTime hc), fun h => ?_⟩
  have hread := parseDnssecTime_format epoch
  rw [h] at hread
  cases hread

theorem recordTypeName_ne_mark (rtype : Rtype) : recordTypeName rtype ≠ "\\#".toList := by
  intro h
  have hcode := recordTypeNameToCode_name rtype
  have hnone : recordTypeNameToCode "\\#".toList = none := by decide +kernel
  rw [h, hnone] at hcode
  cases hcode

/-! ## Each type -/

/-- What is documented of base64: nothing for no octets, an alphabet of letters, digits
and three signs, and a decoder that inverts it. -/
structure Standard (b64 : Base64) : Prop where
  empty : b64.encode [] = []
  alphabet : ∀ octets, ∀ c ∈ b64.encode octets, c.isAlphanum = true ∨ c ∈ ['+', '/', '=']
  decodes : ∀ octets, b64.decode (b64.encode octets) = some octets

theorem isPlain_of_isAlphanum {c : Char} (h : c.isAlphanum = true) : isPlain c = true := by
  apply isPlain_of_alphanumeric
  rcases Bool.or_eq_true_iff.mp h with hletter | hdigit
  · rcases Bool.or_eq_true_iff.mp hletter with hupper | hlower
    · obtain ⟨hlo, hhi⟩ := of_decide_eq_true hupper
      exact .inr (.inl ⟨UInt32.le_iff_toNat_le.mp hlo, UInt32.le_iff_toNat_le.mp hhi⟩)
    · obtain ⟨hlo, hhi⟩ := Bool.and_eq_true_iff.mp hlower
      exact .inr (.inr ⟨UInt32.le_iff_toNat_le.mp (of_decide_eq_true hlo),
        UInt32.le_iff_toNat_le.mp (of_decide_eq_true hhi)⟩)
  · obtain ⟨hlo, hhi⟩ := Bool.and_eq_true_iff.mp hdigit
    exact .inl ⟨UInt32.le_iff_toNat_le.mp (of_decide_eq_true hlo),
      UInt32.le_iff_toNat_le.mp (of_decide_eq_true hhi)⟩

theorem Standard.bare {b64 : Base64} (h : Standard b64) (hne : octets ≠ []) :
    Bare (b64.encode octets) ∧ b64.encode octets ≠ [] := by
  refine ⟨bare_of_plain fun c hc => ?_, fun hnil => hne ?_⟩
  · rcases h.alphabet octets c hc with hc | hc
    · exact isPlain_of_isAlphanum hc
    · have hsigns : ∀ c ∈ ['+', '/', '='], isPlain c = true := by decide
      exact hsigns c hc
  · have hread := h.decodes octets
    rw [hnil, ← h.empty, h.decodes] at hread
    exact (Option.some.inj hread).symm

variable (b64 : Base64)

structure Spelled (parsed : ParsedRecord) (tokens : List Text) : Prop where
  text : ∃ text, presentationRdata b64 parsed = some text ∧ Tail text tokens
  mark : tokens.head? ≠ some "\\#".toList

def ReadsWhen (parsed : ParsedRecord) (P : Prop) : Prop :=
  ∃ tokens, Spelled b64 parsed tokens ∧ ∀ origin ln,
    rdataFromFields b64 tokens origin ln (recordTypeName parsed.rtype) = .ok parsed ↔ P

variable {parsed : ParsedRecord}

theorem spelled_joined {first : Text} {rest : List Text}
    (htext : presentationRdata b64 parsed = some (joined ' ' (first :: rest)))
    (hbare : ∀ part ∈ first :: rest, Bare part ∧ part ≠ []) (hmark : first ≠ "\\#".toList) :
    Spelled b64 parsed (first :: rest) :=
  ⟨⟨_, htext, (fields_joined (List.cons_ne_nil _ _) hbare).tail⟩, fun h => hmark (Option.some.inj h)⟩

theorem spelled_lost {first : Text} {rest : List Text}
    (htext : presentationRdata b64 parsed = some (joined ' ' (first :: rest ++ [[]])))
    (hbare : ∀ part ∈ first :: rest, Bare part ∧ part ≠ []) (hmark : first ≠ "\\#".toList) :
    Spelled b64 parsed (first :: rest) := by
  rw [joined_concat_nil (List.cons_ne_nil _ _)] at htext
  exact ⟨⟨_, htext, (fields_joined (List.cons_ne_nil _ _) hbare).tail_space⟩,
    fun h => hmark (Option.some.inj h)⟩

theorem rdataFromFields_dnskey (rtype : DnskeyType) (fields : List Text) (origin : Name) (ln : Nat) :
    rdataFromFields b64 fields origin ln (recordTypeName rtype.rtype) = dnskeyFields b64 fields ln rtype := by
  cases rtype <;> rfl

theorem rdataFromFields_ds (rtype : DsType) (fields : List Text) (origin : Name) (ln : Nat) :
    rdataFromFields b64 fields origin ln (recordTypeName rtype.rtype) = dsFields fields ln rtype := by
  cases rtype <;> rfl

theorem rdataFromFields_rrsig (fields : List Text) (origin : Name) (ln : Nat) :
    rdataFromFields b64 fields origin ln (recordTypeName RRSIG)
      = rrsigFields b64 fields origin ln :=
  rfl

theorem rdataFromFields_nsec (fields : List Text) (origin : Name) (ln : Nat) :
    rdataFromFields b64 fields origin ln (recordTypeName NSEC)
      = nsecFields fields origin ln :=
  rfl

theorem dnskey_readsWhen (hb64 : Standard b64) (rtype : DnskeyType) (flags : UInt16)
    (protocol algorithm : UInt8) (publicKey : Octets) :
    ReadsWhen b64 (.dnskey rtype flags protocol algorithm publicKey) (publicKey ≠ []) := by
  by_cases hempty : publicKey = []
  · subst hempty
    refine ⟨[decimal flags.toNat, decimal protocol.toNat, decimal algorithm.toNat],
      spelled_lost b64 (by rw [presentationRdata, hb64.empty]; rfl) ?_ (decimal_ne_mark _),
      fun origin ln => ⟨fun h => ?_, fun h => absurd rfl h⟩⟩
    · simp only [List.forall_mem_cons]
      exact ⟨bare_number _, bare_number _, bare_number _, fun _ h => absurd h List.not_mem_nil⟩
    · rw [show (ParsedRecord.dnskey rtype flags protocol algorithm []).rtype = rtype.rtype from rfl,
        rdataFromFields_dnskey] at h
      cases h
  · refine ⟨[decimal flags.toNat, decimal protocol.toNat, decimal algorithm.toNat,
      b64.encode publicKey], spelled_joined b64 rfl ?_ (decimal_ne_mark _),
      fun origin ln => ⟨fun _ => hempty, fun _ => ?_⟩⟩
    · simp only [List.forall_mem_cons]
      exact ⟨bare_number _, bare_number _, bare_number _, hb64.bare hempty,
        fun _ h => absurd h List.not_mem_nil⟩
    · rw [show (ParsedRecord.dnskey rtype flags protocol algorithm publicKey).rtype = rtype.rtype from rfl,
        rdataFromFields_dnskey, dnskeyFields, readField_eq_ok (parseU16_decimal _),
        readField_eq_ok (parseU8_decimal _), readField_eq_ok (parseU8_decimal _)]
      show (readField b64.decode ln _ (List.flatten [b64.encode publicKey]) >>= fun _ => _) = _
      rw [List.flatten_singleton, readField_eq_ok (hb64.decodes publicKey)]
      rfl

theorem ds_readsWhen (rtype : DsType) (keyTag : UInt16) (algorithm digestType : UInt8)
    (digest : Octets) :
    ReadsWhen b64 (.ds rtype keyTag algorithm digestType digest) (digest ≠ []) := by
  by_cases hempty : digest = []
  · subst hempty
    refine ⟨[decimal keyTag.toNat, decimal algorithm.toNat, decimal digestType.toNat],
      spelled_lost b64 rfl ?_ (decimal_ne_mark _), fun origin ln => ⟨fun h => ?_, fun h => absurd rfl h⟩⟩
    · simp only [List.forall_mem_cons]
      exact ⟨bare_number _, bare_number _, bare_number _, fun _ h => absurd h List.not_mem_nil⟩
    · rw [show (ParsedRecord.ds rtype keyTag algorithm digestType []).rtype = rtype.rtype from rfl,
        rdataFromFields_ds] at h
      cases h
  · refine ⟨[decimal keyTag.toNat, decimal algorithm.toNat, decimal digestType.toNat,
      hexEncode digest], spelled_joined b64 rfl ?_ (decimal_ne_mark _),
      fun origin ln => ⟨fun _ => hempty, fun _ => ?_⟩⟩
    · simp only [List.forall_mem_cons]
      exact ⟨bare_number _, bare_number _, bare_number _, bare_hex hempty,
        fun _ h => absurd h List.not_mem_nil⟩
    · have hdigest : (fun text => (hexDecode text).toOption) (hexEncode digest) = some digest := by
        dsimp only
        rw [hexDecode_encode]
        rfl
      rw [show (ParsedRecord.ds rtype keyTag algorithm digestType digest).rtype = rtype.rtype from rfl,
        rdataFromFields_ds, dsFields, readField_eq_ok (parseU16_decimal _),
        readField_eq_ok (parseU8_decimal _), readField_eq_ok (parseU8_decimal _)]
      show (readField _ ln _ (List.flatten [hexEncode digest]) >>= fun _ => _) = _
      rw [List.flatten_singleton,
        @readField_eq_ok _ _ (fun text => (hexDecode text).toOption) _ _ _ _ hdigest]
      rfl

theorem rrsig_readsWhen (hb64 : Standard b64) (covered : Rtype) (algorithm labels : UInt8)
    (originalTtl inception expiration : UInt32) (keyTag : UInt16) (signer : Name)
    (signature : Octets) :
    ReadsWhen b64 (.rrsig covered algorithm labels originalTtl inception expiration keyTag signer
      signature) (signature ≠ []) := by
  have hfront : ∀ part ∈ [recordTypeName covered, decimal algorithm.toNat, decimal labels.toNat,
      decimal originalTtl.toNat, formatDnssecTime expiration, formatDnssecTime inception,
      decimal keyTag.toNat, toPresentation signer], Bare part ∧ part ≠ [] := by
    simp only [List.forall_mem_cons]
    exact ⟨bare_recordTypeName covered, bare_number _, bare_number _, bare_number _,
      bare_time expiration, bare_time inception, bare_number _, bare_name signer,
      fun _ h => absurd h List.not_mem_nil⟩
  by_cases hempty : signature = []
  · subst hempty
    refine ⟨_, spelled_lost b64 (by rw [presentationRdata, hb64.empty]; rfl) hfront
      (recordTypeName_ne_mark covered), fun origin ln => ⟨fun h => ?_, fun h => absurd rfl h⟩⟩
    cases h
  · refine ⟨[recordTypeName covered, decimal algorithm.toNat, decimal labels.toNat,
      decimal originalTtl.toNat, formatDnssecTime expiration, formatDnssecTime inception,
      decimal keyTag.toNat, toPresentation signer, b64.encode signature], spelled_joined b64 rfl ?_
      (recordTypeName_ne_mark covered), fun origin ln => ⟨fun _ => hempty, fun _ => ?_⟩⟩
    · simp only [List.forall_mem_cons] at hfront ⊢
      obtain ⟨h1, h2, h3, h4, h5, h6, h7, h8, -⟩ := hfront
      exact ⟨h1, h2, h3, h4, h5, h6, h7, h8, hb64.bare hempty, fun _ h => absurd h List.not_mem_nil⟩
    · show rdataFromFields b64 _ origin ln (recordTypeName RRSIG) = _
      rw [rdataFromFields_rrsig, rrsigFields, readField_eq_ok (recordTypeNameToCode_name covered),
        readField_eq_ok (parseU8_decimal _), readField_eq_ok (parseU8_decimal _),
        readField_eq_ok (parseU32_decimal _), readField_eq_ok (parseDnssecTime_format expiration),
        readField_eq_ok (parseDnssecTime_format inception), readField_eq_ok (parseU16_decimal _)]
      show (nameAt (toPresentation signer) origin ln >>= fun _ => _) = _
      rw [nameAt_toPresentation]
      show (readField b64.decode ln _ (List.flatten [b64.encode signature]) >>= fun _ => _) = _
      rw [List.flatten_singleton, readField_eq_ok (hb64.decodes signature)]
      rfl

/-! ## Type lists -/

def Listable (bitmap : Octets) : Prop :=
  ∃ types, bitmapTypesExact [] bitmap = .ok types ∧ buildTypeBitmap types = bitmap

theorem bitmapToString_of_types {types : List Rtype}
    (hread : bitmapTypesExact [] bitmap = .ok types) (hbuild : buildTypeBitmap types = bitmap) :
    bitmapToString bitmap = some (types.flatMap fun rtype => ' ' :: recordTypeName rtype) := by
  rw [bitmapToString, hread]
  dsimp only
  rw [if_neg (not_not_intro hbuild)]

theorem bitmapToString_none (h : ¬ Listable bitmap) : bitmapToString bitmap = none := by
  rw [bitmapToString]
  cases hread : bitmapTypesExact [] bitmap with
  | error types => rfl
  | ok types =>
    dsimp only
    rw [if_pos fun hbuild => h ⟨types, hread, hbuild⟩]

/-- **A written type list reads back**, if its types ascend. -/
theorem constructTypeBitmap_names {types : List Rtype} (h : types.Pairwise Before) (ln : Nat) :
    constructTypeBitmap ln (types.map recordTypeName) = .ok (buildTypeBitmap types) := by
  have hread : ∀ types : List Rtype, ((types.map recordTypeName).mapM fun name =>
      readField recordTypeNameToCode ln "unknown record type in type bitmap" (upperOr name))
      = .ok types := by
    intro types
    induction types with
    | nil => rfl
    | cons rtype types ih =>
      rw [List.map_cons, List.mapM_cons, upperOr_recordTypeName,
        readField_eq_ok (recordTypeNameToCode_name rtype), ih]
      rfl
  rw [constructTypeBitmap, hread]
  show Except.ok (buildTypeBitmap (types.mergeSort fun a b => a.code ≤ b.code).eraseReps) = _
  rw [eraseReps_mergeSort h]

theorem types_eq_nil_iff {types : List Rtype} (hread : bitmapTypesExact [] bitmap = .ok types)
    (hbuild : buildTypeBitmap types = bitmap) :
    types = [] ↔ bitmap = [] := by
  constructor
  · rintro rfl
    rw [← hbuild, buildTypeBitmap, List.foldl_nil, List.mergeSort_nil, List.flatMap_nil]
  · grind [bitmapTypesExact]

theorem listable_nil : Listable [] := by
  refine ⟨[], ?_, ?_⟩
  · rw [bitmapTypesExact]
  · rw [buildTypeBitmap, List.foldl_nil, List.mergeSort_nil, List.flatMap_nil]

theorem nsec_readsWhen (next : Name) (h : Listable bitmap) :
    ReadsWhen b64 (.nsec next bitmap) (bitmap ≠ []) := by
  obtain ⟨types, hread, hbuild⟩ := h
  have htext : presentationRdata b64 (.nsec next bitmap) =
      some (toPresentation next ++ types.flatMap fun rtype => ' ' :: recordTypeName rtype) := by
    rw [presentationRdata, bitmapToString_of_types hread hbuild]
    rfl
  refine ⟨toPresentation next :: types.map recordTypeName,
    ⟨⟨_, htext, ((Fields.name next).types types).tail⟩,
      fun h => toPresentation_ne_mark next (Option.some.inj h)⟩, fun origin ln => ?_⟩
  show rdataFromFields b64 _ origin ln (recordTypeName NSEC) = _ ↔ ¬ bitmap = []
  rw [rdataFromFields_nsec, ← not_iff_not.mpr (types_eq_nil_iff hread hbuild)]
  cases types with
  | nil =>
    refine ⟨fun h => ?_, fun h => absurd rfl h⟩
    cases h
  | cons rtype types =>
    refine ⟨fun _ => List.cons_ne_nil _ _, fun _ => ?_⟩
    rw [List.map_cons, nsecFields, nameAt_toPresentation]
    show (constructTypeBitmap ln ((rtype :: types).map recordTypeName) >>= fun _ => _) = _
    rw [constructTypeBitmap_names (bitmapTypesExact_ascending hread hbuild), hbuild]
    rfl

theorem saltField_written (salt : Octets) :
    saltField (if salt = [] then ['-'] else hexEncode salt) = some salt := by
  split
  · rename_i hempty
    rw [saltField, if_pos rfl, hempty]
  · rename_i hne
    have hdash : hexEncode salt ≠ ['-'] := by
      cases salt with
      | nil => exact absurd rfl hne
      | cons octet rest =>
        intro h
        exact absurd (List.cons.inj h).2 (List.cons_ne_nil _ _)
    rw [saltField, if_neg hdash, hexDecode_encode]
    rfl

theorem bare_salt (salt : Octets) : Bare (if salt = [] then ['-'] else hexEncode salt) ∧
    (if salt = [] then ['-'] else hexEncode salt) ≠ [] := by
  split
  · exact ⟨bare_of_plain (by decide), List.cons_ne_nil _ _⟩
  · rename_i hne
    exact bare_hex hne

theorem bare_base32hex (h : octets ≠ []) :
    Bare (base32hexEncode octets) ∧ base32hexEncode octets ≠ [] :=
  ⟨bare_of_plain fun _ hc => isPlain_of_isAlphanum (isAlphanum_of_mem_base32hexEncode hc),
    base32hexEncode_ne_nil h⟩

/-- The four fields an NSEC3 line starts with. -/
def nsec3Head (hashAlgorithm flags : UInt8) (iterations : UInt16) (salt : Octets) : List Text :=
  [decimal hashAlgorithm.toNat, decimal flags.toNat, decimal iterations.toNat,
    if salt = [] then ['-'] else hexEncode salt]

theorem bare_nsec3Head (hashAlgorithm flags : UInt8) (iterations : UInt16) (salt : Octets) :
    ∀ part ∈ nsec3Head hashAlgorithm flags iterations salt, Bare part ∧ part ≠ [] := by
  simp only [nsec3Head, List.forall_mem_cons]
  exact ⟨bare_number _, bare_number _, bare_number _, bare_salt salt,
    fun _ h => absurd h List.not_mem_nil⟩

theorem nsec3Fields_head (hashAlgorithm flags : UInt8) (iterations : UInt16) (salt : Octets)
    (next : Text) (types : List Text) (ln : Nat) :
    nsec3Fields (nsec3Head hashAlgorithm flags iterations salt ++ next :: types) ln =
      (readField (fun text => (base32hexDecode (toBytes text)).toOption) ln
        "invalid NSEC3 next hashed owner" next >>= fun next =>
          constructTypeBitmap ln types >>= fun bitmap =>
            .ok (.nsec3 hashAlgorithm flags iterations salt next bitmap)) := by
  show nsec3Fields (decimal hashAlgorithm.toNat :: decimal flags.toNat :: decimal iterations.toNat ::
    (if salt = [] then ['-'] else hexEncode salt) :: next :: types) ln = _
  rw [nsec3Fields, readField_eq_ok (parseU8_decimal _), readField_eq_ok (parseU8_decimal _),
    readField_eq_ok (parseU16_decimal _), readField_eq_ok (saltField_written salt)]
  rfl

theorem nsec3_readsWhen (hashAlgorithm flags : UInt8) (iterations : UInt16) (salt next : Octets)
    (h : Listable bitmap) :
    ReadsWhen b64 (.nsec3 hashAlgorithm flags iterations salt next bitmap) (next ≠ []) := by
  obtain ⟨types, hread, hbuild⟩ := h
  have hascending := bitmapTypesExact_ascending hread hbuild
  have hhead := bare_nsec3Head hashAlgorithm flags iterations salt
  have hmark := decimal_ne_mark hashAlgorithm.toNat
  have hne : nsec3Head hashAlgorithm flags iterations salt ≠ [] := List.cons_ne_nil _ _
  have htext : presentationRdata b64 (.nsec3 hashAlgorithm flags iterations salt next bitmap) =
      some (joined ' ' (nsec3Head hashAlgorithm flags iterations salt ++ [base32hexEncode next]) ++
        types.flatMap fun rtype => ' ' :: recordTypeName rtype) := by
    rw [presentationRdata, bitmapToString_of_types hread hbuild]
    rfl
  by_cases hempty : next = []
  · subst hempty
    have hnothing : base32hexEncode [] = [] := by rw [base32hexEncode]
    have hfields := fields_joined hne hhead
    rw [hnothing, joined_concat_nil hne, List.append_assoc] at htext
    cases types with
    | nil =>
      refine ⟨nsec3Head hashAlgorithm flags iterations salt, ⟨⟨_, htext, ?_⟩,
        fun h => hmark (Option.some.inj h)⟩, fun origin ln => ⟨fun h => ?_, fun h => absurd rfl h⟩⟩
      · exact hfields.tail_space
      · cases h
    | cons rtype types =>
      -- the first type's name stands where the hash should
      refine ⟨nsec3Head hashAlgorithm flags iterations salt ++
        recordTypeName rtype :: types.map recordTypeName, ⟨⟨_, htext, ?_⟩,
        fun h => hmark (Option.some.inj h)⟩, fun origin ln => ⟨fun h => ?_, fun h => absurd rfl h⟩⟩
      · obtain ⟨hbare, hne⟩ := bare_recordTypeName rtype
        have hmore := (hfields.append (.one (.bare hbare hne)) 1).types types
        rw [List.append_assoc, List.append_assoc, List.append_assoc] at hmore
        exact hmore.tail
      · exfalso
        obtain ⟨hfirst, hrest⟩ := List.pairwise_cons.mp hascending
        have h : nsec3Fields (nsec3Head hashAlgorithm flags iterations salt ++
          recordTypeName rtype :: types.map recordTypeName) ln = _ := h
        rw [nsec3Fields_head] at h
        obtain ⟨found, -, h⟩ := except_bind_eq_ok.mp h
        rw [constructTypeBitmap_names hrest] at h
        have hsame : buildTypeBitmap types = bitmap := by
          cases h
          rfl
        have hlisted : rtype ∈ types := by
          rw [← bitmapHasType_build, hsame, ← hbuild, bitmapHasType_build]
          exact List.mem_cons_self
        exact absurd (hfirst rtype hlisted) (lt_irrefl _)
  · refine ⟨nsec3Head hashAlgorithm flags iterations salt ++
      base32hexEncode next :: types.map recordTypeName, ⟨⟨_, htext, ?_⟩,
      fun h => hmark (Option.some.inj h)⟩, fun origin ln => ⟨fun _ => hempty, fun _ => ?_⟩⟩
    · have hparts : ∀ part ∈ nsec3Head hashAlgorithm flags iterations salt ++ [base32hexEncode next],
          Bare part ∧ part ≠ [] := by
        intro part hpart
        rcases List.mem_append.mp hpart with hpart | hpart
        · exact hhead part hpart
        · rw [List.mem_singleton.mp hpart]
          exact bare_base32hex hempty
      have hmore := (fields_joined (List.append_ne_nil_of_left_ne_nil hne _) hparts).types types
      rw [List.append_assoc (nsec3Head hashAlgorithm flags iterations salt)] at hmore
      exact hmore.tail
    · have hhash : (fun text => (base32hexDecode (toBytes text)).toOption) (base32hexEncode next)
          = some next := by
        dsimp only
        rw [base32hexDecode_encode]
        rfl
      show nsec3Fields (nsec3Head hashAlgorithm flags iterations salt ++
        base32hexEncode next :: types.map recordTypeName) ln = _
      rw [nsec3Fields_head,
        @readField_eq_ok _ _ (fun text => (base32hexDecode (toBytes text)).toOption) _ _ _ _ hhash]
      show (constructTypeBitmap ln (types.map recordTypeName) >>= fun _ => _) = _
      rw [constructTypeBitmap_names hascending, hbuild]
      rfl

/-! ## Whatever was read off the wire -/

def signedTypes : List Rtype :=
  [DNSKEY, CDNSKEY, DS, CDS, RRSIG, NSEC, NSEC3]

def FieldsKept : ParsedRecord → Prop
  | .dnskey _ _ _ _ publicKey => publicKey ≠ []
  | .ds _ _ _ _ digest => digest ≠ []
  | .rrsig _ _ _ _ _ _ _ _ signature => signature ≠ []
  | .nsec _ bitmap => bitmap ≠ []
  | .nsec3 _ _ _ _ next bitmap => next ≠ [] ∨ ¬ Listable bitmap
  | _ => True

theorem canonical_of_signed (h : parsed.rtype ∈ signedTypes) : parsed.canonical = parsed := by
  cases parsed with
  | svcb rtype priority target params =>
    have hnever : ∀ rtype : SvcbType, rtype.rtype ∉ signedTypes := by
      intro rtype
      cases rtype <;> decide
    exact absurd h (hnever rtype)
  | _ => rfl

section Stored

variable {stored : RecordData} {parsed : ParsedRecord} {owner : Name} {ttl : Ttl}
  {cls : Core.Class} {text : Text}

theorem lineRdata_generic (hparse : stored.parse = .ok parsed)
    (hsize : stored.rdata.length < 18446744073709551616)
    (htext : rdataToString b64 stored = genericRdata stored)
    (hline : recordLine b64 owner ttl cls stored = .ok text) (origin : Name) :
    lineRdata b64 origin text = .ok stored := by
  have htail : Tail (rdataToString b64 stored) (genericTokens stored) := by
    rw [htext]
    exact (fields_genericRdata stored).tail
  obtain ⟨ln, hread⟩ := lineRdata_of_tail b64 htail hline origin
  have hmark : (genericTokens stored).head? = some "\\#".toList := rfl
  rw [hread, readRdata, if_pos hmark, parseGenericRdata_tokens hparse hsize]

theorem rdataToString_typed (hparse : stored.parse = .ok parsed)
    (hfrom : RecordData.fromParsed parsed = .ok stored) :
    rdataToString b64 stored = (presentationRdata b64 parsed).getD (genericRdata stored) := by
  rw [rdataToString, hparse]
  dsimp only
  rw [hfrom]
  dsimp only
  rw [if_pos rfl]

theorem lineRdata_typed (hstored : stored.rtype ∈ signedTypes) (hparse : stored.parse = .ok parsed)
    (hknown : parsed.isUnknown = false) (hfrom : RecordData.fromParsed parsed = .ok stored)
    {P : Prop} (hwhen : ReadsWhen b64 parsed P)
    (hline : recordLine b64 owner ttl cls stored = .ok text) (origin : Name) :
    lineRdata b64 origin text = .ok stored ↔ P := by
  obtain ⟨tokens, ⟨⟨written, htext, htail⟩, hmark⟩, hread⟩ := hwhen
  have hstring : rdataToString b64 stored = written := by
    rw [rdataToString_typed b64 hparse hfrom, htext, Option.getD_some]
  obtain ⟨ln, hline⟩ := lineRdata_of_tail b64 (hstring ▸ htail) hline origin
  rw [hline, readRdata_typed b64 (fun other h => canonical_of_signed (h ▸ hstored)) hparse hknown
    hfrom hmark, (RecordData.fromParsed_eq_ok hfrom).1]
  exact hread origin ln

end Stored

/-- **A DNSSEC record's line reads back as its octets** exactly when no field that the
reader counts on is empty. -/
theorem signed_reads_iff (hb64 : Standard b64) {rtype : Rtype} {rdata data : Octets}
    {stored : RecordData} (hwire : RecordData.fromWire rtype rdata data = .ok stored)
    (htype : rtype ∈ signedTypes) (hsize : stored.rdata.length < 18446744073709551616)
    {owner : Name} {ttl : Ttl} {cls : Core.Class} {text : Text}
    (hline : recordLine b64 owner ttl cls stored = .ok text) (origin : Name) :
    lineRdata b64 origin text = .ok stored ↔
      ∀ parsed, stored.parse = .ok parsed → FieldsKept parsed := by
  have hstored : stored.rtype ∈ signedTypes := by
    rcases RecordData.fromWire_cases hwire with ⟨rfl, -⟩ | ⟨-, -, -, hsame, -⟩
    · exact htype
    · rw [hsame]
      exact htype
  rcases parse_of_canonical (.inl ⟨rtype, rdata, data, hwire⟩)
    (fun other h => canonical_of_signed (h ▸ hstored)) with hgeneric | ⟨parsed, hknown, hrtype, hparse, hfrom⟩
  · refine ⟨fun _ parsed hparse => ?_, fun _ =>
      lineRdata_generic b64 hgeneric hsize (rdataToString_unknown b64 hgeneric) hline origin⟩
    cases Except.ok.inj (hgeneric.symm.trans hparse)
    trivial
  have hone : (∀ other, stored.parse = .ok other → FieldsKept other) ↔ FieldsKept parsed := by grind
  rw [hone]
  -- a bitmap that is not listed puts the whole record in the generic form
  have hgeneric : presentationRdata b64 parsed = none → lineRdata b64 origin text = .ok stored := by grind [lineRdata_generic, rdataToString_typed]
  have hother : ∀ other, parsed.rtype = other → other ∉ signedTypes →
      (lineRdata b64 origin text = .ok stored ↔ FieldsKept parsed) := by
    rintro other rfl hout
    rw [hrtype] at hout
    exact absurd hstored hout
  cases parsed with
  | dnskey =>
    exact lineRdata_typed b64 hstored hparse hknown hfrom (dnskey_readsWhen b64 hb64 _ _ _ _ _) hline origin
  | ds => exact lineRdata_typed b64 hstored hparse hknown hfrom (ds_readsWhen b64 _ _ _ _ _) hline origin
  | rrsig =>
    exact lineRdata_typed b64 hstored hparse hknown hfrom
      (rrsig_readsWhen b64 hb64 _ _ _ _ _ _ _ _ _) hline origin
  | nsec next bitmap =>
    by_cases hlist : Listable bitmap
    · exact lineRdata_typed b64 hstored hparse hknown hfrom (nsec_readsWhen b64 next hlist) hline origin
    · have hnone : presentationRdata b64 (.nsec next bitmap) = none := by
        rw [presentationRdata, bitmapToString_none hlist]
        rfl
      refine ⟨fun _ hempty => hlist ?_, fun _ => hgeneric hnone⟩
      rw [hempty]
      exact listable_nil
  | nsec3 hashAlgorithm flags iterations salt next bitmap =>
    by_cases hlist : Listable bitmap
    · rw [lineRdata_typed b64 hstored hparse hknown hfrom
        (nsec3_readsWhen b64 hashAlgorithm flags iterations salt next hlist) hline origin]
      exact ⟨.inl, fun h => h.resolve_right (not_not_intro hlist)⟩
    · have hnone : presentationRdata b64 (.nsec3 hashAlgorithm flags iterations salt next bitmap) =
          none := by
        rw [presentationRdata, bitmapToString_none hlist]
        rfl
      exact ⟨fun _ => .inr hlist, fun _ => hgeneric hnone⟩
  | a => exact hother A rfl (by decide)
  | aaaa => exact hother AAAA rfl (by decide)
  | ns => exact hother NS rfl (by decide)
  | cname => exact hother CNAME rfl (by decide)
  | ptr => exact hother PTR rfl (by decide)
  | dname => exact hother DNAME rfl (by decide)
  | mx => exact hother MX rfl (by decide)
  | soa => exact hother SOA rfl (by decide)
  | txt => exact hother TXT rfl (by decide)
  | svcb kind => exact hother kind.rtype rfl (by cases kind <;> decide)
  | unknown => cases hknown

/-- Hexadecimal in the place of base64, for records that have none. -/
def hexForBase64 : Base64 where
  encode := hexEncode
  decode := fun text => (hexDecode text).toOption

theorem standard_hexForBase64 : Standard hexForBase64 where
  empty := rfl
  alphabet := by
    have hdigit : ∀ n : Fin 16, (hexDigit (UInt8.ofNat n.val)).isAlphanum = true := by decide
    have hnibble : ∀ nibble : UInt8, nibble.toNat < 16 → (hexDigit nibble).isAlphanum = true := by
      intro nibble h
      have hn := hdigit ⟨nibble.toNat, h⟩
      rwa [UInt8.ofNat_toNat] at hn
    intro octets c hc
    obtain ⟨octet, -, hc⟩ := List.mem_flatMap.mp hc
    have hlt := octet.toNat_lt
    have hhigh : (octet / 16).toNat < 16 := by grind [UInt8.toNat_div]
    have hlow : (octet % 16).toNat < 16 := by grind [UInt8.toNat_mod]
    simp only [List.mem_cons, List.not_mem_nil, or_false] at hc
    rcases hc with rfl | rfl
    · exact .inl (hnibble _ hhigh)
    · exact .inl (hnibble _ hlow)
  decodes := fun octets => by
    show (hexDecode (hexEncode octets)).toOption = some octets
    rw [hexDecode_encode]
    rfl

def shortDigest : RecordData := ⟨DS, [0, 1, 8, 2, 171]⟩

theorem shortDigest_reads :
    ∃ text, recordLine hexForBase64 Name.root ⟨3600⟩ .IN shortDigest = .ok text ∧
      lineRdata hexForBase64 Name.root text = .ok shortDigest := by
  have hwire : RecordData.fromWire DS [0, 1, 8, 2, 171] [] = .ok shortDigest := rfl
  have hwritten : ∃ text, recordLine hexForBase64 Name.root ⟨3600⟩ .IN shortDigest = .ok text :=
    ⟨_, rfl⟩
  obtain ⟨text, hline⟩ := hwritten
  refine ⟨text, hline, (signed_reads_iff hexForBase64 standard_hexForBase64 hwire (by decide)
    (by decide) hline Name.root).mpr fun parsed hparse => ?_⟩
  have hread : shortDigest.parse = .ok (.ds .ds 1 8 2 [171]) := rfl
  cases Except.ok.inj (hread.symm.trans hparse)
  exact List.cons_ne_nil _ _

/-- **A DS with no digest does not read back**: its line has three fields, and the reader
wants four. -/
theorem emptyDigest_lost :
    RecordData.fromWire DS [0, 1, 8, 2] [] = .ok ⟨DS, [0, 1, 8, 2]⟩ ∧
      ∃ text, recordLine hexForBase64 Name.root ⟨3600⟩ .IN ⟨DS, [0, 1, 8, 2]⟩ = .ok text ∧
        lineRdata hexForBase64 Name.root text = .error (.syntaxAt 1 "DS record needs 4 fields") :=
  ⟨rfl, _, rfl, by decide +kernel⟩

end Rdns.Zones
