import Rdns.Core.Record

/-!
# Rdns — RDATA both ways

`ParsedRecord::decode` and `ParsedRecord::encode_into` of `rdns-core/src/record.rs`, each the
other's inverse. RDATA is laid out in fields (`layout`); where its names are written in full
and nothing trails the last field, the octets come back as they were read.
-/

namespace Rdns.Core

open Rdns.Lib RecordTypes

/-! ## The fields of an RDATA -/

inductive Field where
  | octets (width : Nat)
  | name
  | counted
  | remainder

def Field.skip : Field → Octets → Option Octets
  | .octets width, rdata => if rdata.length < width then none else some (rdata.drop width)
  | .name, rdata => (Name.fromWire rdata).toOption.map Prod.snd
  | .counted, [] => none
  | .counted, len :: rest => if rest.length < len.toNat then none else some (rest.drop len.toNat)
  | .remainder, _ => some []

def skipFields : List Field → Octets → Option Octets
  | [], rdata => some rdata
  | field :: fields, rdata => (field.skip rdata).bind (skipFields fields)

def layout (rtype : Rtype) : List Field :=
  if rtype = A then [.octets 4]
  else if rtype = AAAA then [.octets 16]
  else if rtype ∈ [NS, CNAME, PTR, DNAME] then [.name]
  else if rtype = SOA then [.name, .name, .octets 20]
  else if rtype ∈ [SVCB, HTTPS] then [.octets 2, .name, .remainder]
  else if rtype = MX then [.octets 2, .name]
  else if rtype ∈ [DS, CDS, DNSKEY, CDNSKEY] then [.octets 4, .remainder]
  else if rtype = RRSIG then [.octets 18, .name, .remainder]
  else if rtype = NSEC then [.name, .remainder]
  else if rtype = NSEC3 then [.octets 4, .counted, .counted, .remainder]
  else [.remainder]

/-- **Exact RDATA**: every name in full, and nothing after the last field. -/
def Exact (rtype : Rtype) (rdata : Octets) : Prop :=
  skipFields (layout rtype) rdata = some []

instance instDecidableExact (rtype : Rtype) (rdata : Octets) : Decidable (Exact rtype rdata) :=
  inferInstanceAs (Decidable (skipFields (layout rtype) rdata = some []))

variable {rest rdata : Octets}

theorem skipFields_cons {field : Field} {fields : List Field} :
    skipFields (field :: fields) rdata = some rest ↔
      ∃ after, field.skip rdata = some after ∧ skipFields fields after = some rest :=
  Option.bind_eq_some_iff

theorem skip_octets_append {width : Nat} {front : Octets} (h : front.length = width) :
    (Field.octets width).skip (front ++ rest) = some rest := by
  subst h
  rw [Field.skip, if_neg (by rw [List.length_append]; omega), List.drop_left]

theorem skip_name {data after : Octets} {name : Name}
    (hread : Name.fromWireIn data rdata = .ok (name, rest))
    (hskip : Field.name.skip rdata = some after) :
    rdata = name.wire ++ rest ∧ after = rest := by
  rw [Field.skip] at hskip
  cases hplain : Name.fromWire rdata with
  | error e =>
    rw [hplain] at hskip
    cases hskip
  | ok found =>
    obtain ⟨name', rest'⟩ := found
    rw [hplain] at hskip
    cases hskip
    obtain rfl := Name.fromWire_eq_ok hplain
    rw [Name.fromWireIn_wire] at hread
    cases hread
    exact ⟨rfl, rfl⟩

/-! ## What each reader consumed -/

theorem be32_ofBe32 (b₃ b₂ b₁ b₀ : UInt8) : be32 (ofBe32 b₃ b₂ b₁ b₀) = [b₃, b₂, b₁, b₀] := by
  have hword := toNat_ofBe32 b₃ b₂ b₁ b₀
  have h₃ := b₃.toNat_lt
  have h₂ := b₂.toNat_lt
  have h₁ := b₁.toNat_lt
  have h₀ := b₀.toNat_lt
  simp only [be32, hword, List.cons.injEq, and_true]
  refine ⟨?_, ?_, ?_, ?_⟩ <;>
    (apply UInt8.toNat_inj.mp
     rw [UInt8.toNat_ofNat']
     omega)

section Readers

variable {rdata rest : Octets}

theorem readU16_consumed {value : UInt16} (h : readU16 rdata = .ok (value, rest)) :
    rdata = be16 value ++ rest := by
  unfold readU16 at h
  split at h
  · cases h
    rw [be16_ofBe16]
    rfl
  · cases h

theorem readWord32_consumed {what : String} {value : UInt32} (h : readWord32 what rdata = .ok (value, rest)) :
    rdata = be32 value ++ rest := by
  unfold readWord32 at h
  split at h
  · cases h
    rw [be32_ofBe32]
    rfl
  · cases h

theorem readU32_consumed {value : UInt32} (h : readU32 rdata = .ok (value, rest)) :
    rdata = be32 value ++ rest :=
  readWord32_consumed h

theorem readI32_consumed {value : Int32} (h : readI32 rdata = .ok (value, rest)) :
    rdata = be32 value.toUInt32 ++ rest := by
  obtain ⟨⟨bits, after⟩, hbits, h⟩ := except_bind_eq_ok.mp h
  cases h
  exact readWord32_consumed hbits

theorem readPair_consumed {what : String} {whole : Octets} {first second : UInt8}
    (h : readPair what whole rdata = .ok (first, second, rest)) : rdata = [first, second] ++ rest := by
  unfold readPair at h
  split at h
  · cases h
    rfl
  · cases h

end Readers

theorem encodeStrings_decodeStrings {strings : List Octets} (h : decodeStrings rest = .ok strings) :
    encodeStrings strings = .ok rest := by
  induction hn : rest.length using Nat.strongRecOn generalizing rest strings with
  | ind n ih =>
    subst hn
    cases rest with
    | nil =>
      rw [decodeStrings] at h
      cases h
      rfl
    | cons len after =>
      rw [decodeStrings] at h
      split at h
      case isTrue => cases h
      case isFalse hfits =>
        cases htail : decodeStrings (after.drop len.toNat) with
        | error e =>
          rw [htail] at h
          cases h
        | ok tail =>
          rw [htail] at h
          cases h
          have hrest := ih _ (by rw [List.length_drop, List.length_cons]; omega) htail rfl
          have hlen : (after.take len.toNat).length = len.toNat := by
            rw [List.length_take]
            omega
          have hbyte := len.toNat_lt
          rw [encodeStrings, hlen, if_neg (by omega), hrest]
          simp only [UInt8.ofNat_toNat, List.cons_append, List.take_append_drop]

theorem encodeSorted_decodeSvcParams {previous : Option UInt16} {params : List (UInt16 × Octets)}
    (h : decodeSvcParams previous rest = .ok params) :
    encodeSorted previous params = .ok rest ∧ params.Pairwise (fun p q => p.1 < q.1) ∧
      ∀ last ∈ previous, ∀ p ∈ params, last < p.1 := by
  induction hn : rest.length using Nat.strongRecOn generalizing rest previous params with
  | ind n ih =>
    subst hn
    unfold decodeSvcParams at h
    split at h
    · cases h
      exact ⟨rfl, .nil, by simp⟩
    · rename_i k₁ k₀ l₁ l₀ tail
      simp only at h
      split at h
      case isTrue => cases h
      case isFalse hfits =>
        split at h
        case isTrue => cases h
        case isFalse hordered =>
          cases htail : decodeSvcParams (some (ofBe16 k₁ k₀)) (tail.drop (ofBe16 l₁ l₀).toNat) with
          | error e =>
            rw [htail] at h
            cases h
          | ok others =>
            rw [htail] at h
            cases h
            obtain ⟨hencode, hpair, habove⟩ :=
              ih _ (by rw [List.length_drop]; simp only [List.length_cons]; omega) htail rfl
            have hnext : ∀ p ∈ others, ofBe16 k₁ k₀ < p.1 := habove _ rfl
            have hbefore : ∀ last ∈ previous, last < ofBe16 k₁ k₀ := by
              rintro last rfl
              simpa only [Option.any_some, decide_eq_true_eq, UInt16.not_le] using hordered
            refine ⟨?_, List.pairwise_cons.mpr ⟨hnext, hpair⟩, ?_⟩
            · have hlen : (tail.take (ofBe16 l₁ l₀).toNat).length = (ofBe16 l₁ l₀).toNat := by
                rw [List.length_take]
                omega
              have hword := (ofBe16 l₁ l₀).toNat_lt
              have hfresh : previous ≠ some (ofBe16 k₁ k₀) := by grind
              rw [encodeSorted, if_neg hfresh, hlen, if_neg (by omega), hencode]
              simp only [UInt16.ofNat_toNat, be16_ofBe16, List.cons_append, List.nil_append,
                List.take_append_drop]
            · grind
    · cases h
    · cases h

theorem encodeSvcParams_decodeSvcParams {params : List (UInt16 × Octets)}
    (h : decodeSvcParams none rest = .ok params) : encodeSvcParams params = .ok rest := by
  obtain ⟨hencode, hpair, -⟩ := encodeSorted_decodeSvcParams h
  have hsorted : sortParams params = params :=
    List.mergeSort_of_pairwise (hpair.imp fun hlt => decide_eq_true (UInt16.le_of_lt hlt))
  rw [encodeSvcParams, hsorted]
  exact hencode

theorem encode_decodeNsec3 {hashAlgorithm flags : UInt8} {iterations : UInt16}
    {salt next bitmap : Octets}
    (h : decodeNsec3 rdata = .ok (.nsec3 hashAlgorithm flags iterations salt next bitmap)) :
    (ParsedRecord.nsec3 hashAlgorithm flags iterations salt next bitmap).encodeRdata = .ok rdata := by
  unfold decodeNsec3 at h
  split at h
  case h_2 => cases h
  case h_1 saltLen rest =>
    split at h
    case isTrue => cases h
    case isFalse hsaltFits =>
      split at h
      · cases h
      · rename_i nextLen tail htail
        split at h
        case isTrue => cases h
        case isFalse hnextFits =>
          cases h
          have octet : ∀ (what : String) (len : UInt8) (field : Octets), ¬ field.length < len.toNat →
              lengthOctet what (field.take len.toNat) = .ok len := by
            intro what len field hfits
            have hlen : (field.take len.toNat).length = len.toNat := by
              rw [List.length_take]
              omega
            have hbyte := len.toNat_lt
            rw [lengthOctet, hlen, if_neg (by omega), UInt8.ofNat_toNat]
          simp only [ParsedRecord.encodeRdata, octet _ _ _ hsaltFits, octet _ _ _ hnextFits, bind,
            Except.bind, pure, Except.pure, be16_ofBe16, List.cons_append, List.nil_append,
            List.append_assoc, List.take_append_drop]
          rw [← htail, List.take_append_drop]

/-! ## Decoded, then encoded -/

/-- **Decoded, then encoded**: exact RDATA comes back octet for octet. -/
theorem encode_decode {data : Octets} {parsed : ParsedRecord} (hne : rdata ≠ [])
    (hknown : parsed.isUnknown = false)
    (h : ParsedRecord.decode parsed.rtype rdata data = .ok parsed)
    (hexact : Exact parsed.rtype rdata) : parsed.encodeRdata = .ok rdata := by
  have hempty : ¬ rdata.isEmpty = true := by rwa [List.isEmpty_iff]
  rw [ParsedRecord.decode, if_neg hempty] at h
  -- NS, CNAME, PTR and DNAME alike: one name, and the RDATA ends with it
  have oneName : ∀ (wrap : Name → ParsedRecord) {name : Name}, (∀ a b, wrap a = wrap b → a = b) →
      parsed = wrap name → decodeOneName wrap data rdata = .ok parsed →
      skipFields [.name] rdata = some [] → name.wire = rdata := by
    intro wrap name hinj hparsed h hexact
    obtain ⟨⟨name', rest⟩, hname, h⟩ := except_bind_eq_ok.mp h
    obtain ⟨after, hskip, hend⟩ := skipFields_cons.mp hexact
    obtain ⟨hrdata, rfl⟩ := skip_name hname hskip
    cases hend
    have hwrap : wrap name' = wrap name := (Except.ok.inj h).trans hparsed
    rw [hrdata, List.append_nil, hinj _ _ hwrap]
  cases parsed with
  | a addr =>
    change decodeA rdata = _ at h
    unfold decodeA at h
    split at h
    · cases h
      rfl
    · cases h
  | aaaa addr =>
    change decodeAaaa rdata = _ at h
    unfold decodeAaaa at h
    split at h
    · cases h
      rfl
    · cases h
  | ns name =>
    exact congrArg Except.ok (oneName .ns (fun _ _ heq => ParsedRecord.ns.inj heq) rfl h hexact)
  | cname name =>
    exact congrArg Except.ok (oneName .cname (fun _ _ heq => ParsedRecord.cname.inj heq) rfl h hexact)
  | ptr name =>
    exact congrArg Except.ok (oneName .ptr (fun _ _ heq => ParsedRecord.ptr.inj heq) rfl h hexact)
  | dname name =>
    exact congrArg Except.ok (oneName .dname (fun _ _ heq => ParsedRecord.dname.inj heq) rfl h hexact)
  | svcb rtype priority target params =>
    have hread : decodeSvcb rtype data rdata = .ok (.svcb rtype priority target params) := by
      cases rtype <;> exact h
    have hfields : skipFields [.octets 2, .name, .remainder] rdata = some [] := by
      cases rtype <;> exact hexact
    obtain ⟨⟨priority', after⟩, hpriority, h⟩ := except_bind_eq_ok.mp hread
    obtain ⟨⟨target', field⟩, htarget, h⟩ := except_bind_eq_ok.mp h
    obtain ⟨params', hparams, h⟩ := except_bind_eq_ok.mp h
    cases h
    obtain rfl := readU16_consumed hpriority
    obtain ⟨after', hskip, hfields⟩ := skipFields_cons.mp hfields
    rw [skip_octets_append (length_be16 priority)] at hskip
    cases hskip
    obtain ⟨field', hskip, -⟩ := skipFields_cons.mp hfields
    obtain ⟨rfl, rfl⟩ := skip_name htarget hskip
    simp only [ParsedRecord.encodeRdata, encodeSvcParams_decodeSvcParams hparams, bind, Except.bind, pure,
      Except.pure, List.append_assoc]
  | mx preference exchange =>
    change decodeMx data rdata = _ at h
    obtain ⟨⟨preference', after⟩, hpreference, h⟩ := except_bind_eq_ok.mp h
    obtain ⟨⟨exchange', rest⟩, hexchange, h⟩ := except_bind_eq_ok.mp h
    cases h
    obtain rfl := readU16_consumed hpreference
    obtain ⟨after', hskip, hfields⟩ := skipFields_cons.mp
      (show skipFields [.octets 2, .name] (be16 preference ++ after) = some [] from hexact)
    rw [skip_octets_append (length_be16 preference)] at hskip
    cases hskip
    obtain ⟨rest', hskip, hend⟩ := skipFields_cons.mp hfields
    obtain ⟨rfl, rfl⟩ := skip_name hexchange hskip
    cases hend
    rw [ParsedRecord.encodeRdata, List.append_nil]
  | txt strings =>
    change decodeTxt rdata = _ at h
    obtain ⟨strings', hstrings, h⟩ := except_bind_eq_ok.mp h
    cases h
    have hwritten := encodeStrings_decodeStrings hstrings
    rw [ParsedRecord.encodeRdata, hwritten, if_neg]
    -- no strings would be no octets
    intro hnone
    rw [List.isEmpty_iff.mp hnone] at hwritten
    cases hwritten
    exact hne rfl
  | soa mname rname serial refresh retry expire minimum =>
    change decodeSoa data rdata = _ at h
    obtain ⟨⟨mname', r₁⟩, hmname, h⟩ := except_bind_eq_ok.mp h
    obtain ⟨⟨rname', r₂⟩, hrname, h⟩ := except_bind_eq_ok.mp h
    obtain ⟨⟨serial', r₃⟩, hserial, h⟩ := except_bind_eq_ok.mp h
    obtain ⟨⟨refresh', r₄⟩, hrefresh, h⟩ := except_bind_eq_ok.mp h
    obtain ⟨⟨retry', r₅⟩, hretry, h⟩ := except_bind_eq_ok.mp h
    obtain ⟨⟨expire', r₆⟩, hexpire, h⟩ := except_bind_eq_ok.mp h
    obtain ⟨⟨minimum', r₇⟩, hminimum, h⟩ := except_bind_eq_ok.mp h
    cases h
    obtain rfl := readU32_consumed hserial
    obtain rfl := readI32_consumed hrefresh
    obtain rfl := readI32_consumed hretry
    obtain rfl := readI32_consumed hexpire
    obtain rfl := readU32_consumed hminimum
    obtain ⟨after, hskip, hfields⟩ := skipFields_cons.mp
      (show skipFields [.name, .name, .octets 20] rdata = some [] from hexact)
    obtain ⟨rfl, rfl⟩ := skip_name hmname hskip
    obtain ⟨after, hskip, hfields⟩ := skipFields_cons.mp hfields
    obtain ⟨rfl, rfl⟩ := skip_name hrname hskip
    obtain ⟨after, hskip, hend⟩ := skipFields_cons.mp hfields
    -- the five numbers come to the 20 octets of the last field
    simp only [← List.append_assoc] at hskip
    rw [skip_octets_append (by simp only [List.length_append, length_be32])] at hskip
    cases hskip
    cases hend
    simp only [ParsedRecord.encodeRdata, List.append_assoc, List.append_nil]
  | dnskey rtype flags protocol algorithm publicKey =>
    have hread : decodeDnskey rtype rdata = .ok (.dnskey rtype flags protocol algorithm publicKey) := by
      cases rtype <;> exact h
    obtain ⟨⟨flags', after⟩, hflags, h⟩ := except_bind_eq_ok.mp hread
    obtain ⟨⟨protocol', algorithm', key⟩, hpair, h⟩ := except_bind_eq_ok.mp h
    cases h
    obtain rfl := readU16_consumed hflags
    obtain rfl := readPair_consumed hpair
    rw [ParsedRecord.encodeRdata, List.append_assoc]
  | rrsig covered algorithm labels ttl inception expiration keyTag signer signature =>
    change decodeRrsig data rdata = _ at h
    obtain ⟨⟨covered', r₁⟩, hcovered, h⟩ := except_bind_eq_ok.mp h
    obtain ⟨⟨algorithm', labels', r₂⟩, hpair, h⟩ := except_bind_eq_ok.mp h
    obtain ⟨⟨ttl', r₃⟩, httl, h⟩ := except_bind_eq_ok.mp h
    obtain ⟨⟨expiration', r₄⟩, hexpiration, h⟩ := except_bind_eq_ok.mp h
    obtain ⟨⟨inception', r₅⟩, hinception, h⟩ := except_bind_eq_ok.mp h
    obtain ⟨⟨keyTag', r₆⟩, htag, h⟩ := except_bind_eq_ok.mp h
    obtain ⟨⟨signer', field⟩, hsigner, h⟩ := except_bind_eq_ok.mp h
    cases h
    obtain rfl := readU16_consumed htag
    obtain rfl := readU32_consumed hinception
    obtain rfl := readU32_consumed hexpiration
    obtain rfl := readU32_consumed httl
    obtain rfl := readPair_consumed hpair
    obtain rfl := readU16_consumed hcovered
    obtain ⟨after, hskip, hfields⟩ := skipFields_cons.mp
      (show skipFields [.octets 18, .name, .remainder] _ = some [] from hexact)
    -- the fixed fields come to 18 octets in front of the signer
    simp only [← List.append_assoc] at hskip
    rw [skip_octets_append (by simp only [List.length_append, length_be16, length_be32, List.length_cons,
      List.length_nil])] at hskip
    cases hskip
    obtain ⟨after, hskip, -⟩ := skipFields_cons.mp hfields
    obtain ⟨rfl, rfl⟩ := skip_name hsigner hskip
    simp only [ParsedRecord.encodeRdata, List.append_assoc]
  | ds rtype keyTag algorithm digestType digest =>
    have hread : decodeDs rtype rdata = .ok (.ds rtype keyTag algorithm digestType digest) := by
      cases rtype <;> exact h
    obtain ⟨⟨keyTag', after⟩, htag, h⟩ := except_bind_eq_ok.mp hread
    obtain ⟨⟨algorithm', digestType', field⟩, hpair, h⟩ := except_bind_eq_ok.mp h
    cases h
    obtain rfl := readU16_consumed htag
    obtain rfl := readPair_consumed hpair
    rw [ParsedRecord.encodeRdata, List.append_assoc]
  | nsec next bitmap =>
    change decodeNsec data rdata = _ at h
    obtain ⟨⟨next', field⟩, hnext, h⟩ := except_bind_eq_ok.mp h
    cases h
    obtain ⟨after, hskip, -⟩ := skipFields_cons.mp
      (show skipFields [.name, .remainder] rdata = some [] from hexact)
    obtain ⟨rfl, rfl⟩ := skip_name hnext hskip
    rw [ParsedRecord.encodeRdata]
  | nsec3 hashAlgorithm flags iterations salt next bitmap => exact encode_decodeNsec3 h
  | unknown rtype => cases hknown

/-- **The RDATA codec's two inverses.** What a typed record encodes to decodes under the TYPE it
came with to that record, SvcParams in key order; and what decodes from exact RDATA, unless it
is RDATA of a TYPE with no decoder, encodes back to the same octets. -/
theorem rdata_codec_inverse :
    (∀ (parsed : ParsedRecord) (rtype : Rtype) (rdata data : Octets), parsed.isUnknown = false →
      parsed.encode = .ok (rtype, rdata) → rdata ≠ [] →
      ParsedRecord.decode rtype rdata data = .ok parsed.canonical) ∧
    (∀ (parsed : ParsedRecord) (rtype : Rtype) (rdata data : Octets),
      ParsedRecord.decode rtype rdata data = .ok parsed → Exact rtype rdata →
      parsed.isUnknown = false ∨ rdata = [] → parsed.encode = .ok (rtype, rdata)) := by
  constructor
  · intro parsed rtype rdata data _ hencode hne
    obtain ⟨out, hout, h⟩ := except_bind_eq_ok.mp hencode
    cases h
    exact ParsedRecord.decode_encodeRdata data hout hne
  · intro parsed rtype rdata data hdecode hexact hkind
    rcases ParsedRecord.decode_cases hdecode with ⟨rfl, -⟩ | ⟨hne, hrtype, hknown⟩
    · obtain rfl : rdata = [] := hkind.resolve_left Bool.noConfusion
      rfl
    · subst hrtype
      rw [ParsedRecord.encode, encode_decode hne hknown hdecode hexact]
      rfl

theorem mx_codec_inverse :
    ParsedRecord.decode MX [0, 10, 0] [] =
        .ok (ParsedRecord.mx 10 Name.root).canonical ∧
      (ParsedRecord.mx 10 Name.root).encode = .ok (MX, [0, 10, 0]) := by
  have hdecode := rdata_codec_inverse.1 (.mx 10 Name.root) MX
    [0, 10, 0] [] rfl rfl (by decide)
  exact ⟨hdecode, rdata_codec_inverse.2 _ MX [0, 10, 0] [] hdecode
    (by decide +kernel) (.inl rfl)⟩

theorem opaque_rdata_not_encoded :
    ¬ ∀ (parsed : ParsedRecord) (rtype : Rtype) (rdata data : Octets),
      ParsedRecord.decode rtype rdata data = .ok parsed → Exact rtype rdata →
      parsed.encode = .ok (rtype, rdata) := by
  intro h
  have hencode := h (.unknown ⟨65280⟩) ⟨65280⟩ [1] [] rfl rfl
  cases hencode

end Rdns.Core
