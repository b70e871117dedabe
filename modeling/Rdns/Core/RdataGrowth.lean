import Rdns.Core.RdataInverse

/-!
# Rdns — What RDATA grows to

Reading RDATA off the wire spells out the names its compression pointers stand for, so what is
stored can be longer than what arrived. The fields beside the names keep their length.
-/

namespace Rdns.Core

open Rdns.Lib RecordTypes

/-! ## What RDATA off the wire grows to -/

variable {out : Octets}

theorem length_encodeStrings {strings : List Octets} (h : encodeStrings strings = .ok out) :
    out.length = (strings.map fun s => s.length + 1).sum := by
  induction strings generalizing out with
  | nil =>
    cases h
    rfl
  | cons s rest ih =>
    rw [encodeStrings] at h
    split at h
    case isTrue => cases h
    case isFalse =>
      cases hrest : encodeStrings rest with
      | error e =>
        rw [hrest] at h
        cases h
      | ok tail =>
        rw [hrest] at h
        cases h
        simp only [List.length_append, List.length_cons, List.map_cons, List.sum_cons, ih hrest]

theorem length_decodeStrings {rest : Octets} {strings : List Octets} (h : decodeStrings rest = .ok strings) :
    rest.length = (strings.map fun s => s.length + 1).sum :=
  length_encodeStrings (encodeStrings_decodeStrings h)

variable {params : List (UInt16 × Octets)}

theorem length_encodeSorted {previous : Option UInt16} (h : encodeSorted previous params = .ok out) :
    out.length = (params.map fun p => p.2.length + 4).sum := by
  induction params generalizing previous out with
  | nil =>
    cases h
    rfl
  | cons p rest ih =>
    obtain ⟨key, value⟩ := p
    rw [encodeSorted] at h
    split at h
    case isTrue => cases h
    case isFalse =>
      split at h
      case isTrue => cases h
      case isFalse =>
        cases hrest : encodeSorted (some key) rest with
        | error e =>
          rw [hrest] at h
          cases h
        | ok tail =>
          rw [hrest] at h
          cases h
          simp only [List.length_append, length_be16, List.map_cons, List.sum_cons, ih hrest]
          omega

theorem length_encodeSvcParams (h : encodeSvcParams params = .ok out) :
    out.length = (params.map fun p => p.2.length + 4).sum := by
  rw [length_encodeSorted h]
  exact ((List.mergeSort_perm params _).map _).sum_nat

theorem length_decodeSvcParams {rest : Octets} {previous : Option UInt16}
    (h : decodeSvcParams previous rest = .ok params) :
    rest.length = (params.map fun p => p.2.length + 4).sum :=
  length_encodeSorted (encodeSorted_decodeSvcParams h).1

def nameAfter (rtype : Rtype) : Option Nat :=
  if rtype = SVCB ∨ rtype = HTTPS then some 2
  else if rtype = RRSIG then some 18
  else if rtype = NSEC then some 0
  else none

def ExpansionFits (rtype : Rtype) (rdata data : Octets) : Prop :=
  ∀ front, nameAfter rtype = some front →
    ∀ name rest, Name.fromWireIn data (rdata.drop front) = .ok (name, rest) →
      front + name.wire.length + rest.length ≤ 65535

section Growth

variable {data rdata out rest : Octets} {parsed : ParsedRecord}

theorem readU16_eq_ok {value : UInt16} (h : readU16 rdata = .ok (value, rest)) :
    rest = rdata.drop 2 ∧ rdata.length = 2 + rest.length := by
  obtain rfl := readU16_consumed h
  exact ⟨rfl, by rw [List.length_append, length_be16]⟩

theorem readU32_eq_ok {value : UInt32} (h : readU32 rdata = .ok (value, rest)) :
    rest = rdata.drop 4 ∧ rdata.length = 4 + rest.length := by
  obtain rfl := readU32_consumed h
  exact ⟨rfl, by rw [List.length_append, length_be32]⟩

theorem readPair_eq_ok {what : String} {whole : Octets} {first second : UInt8}
    (h : readPair what whole rdata = .ok (first, second, rest)) :
    rest = rdata.drop 2 ∧ rdata.length = 2 + rest.length := by
  obtain rfl := readPair_consumed h
  exact ⟨rfl, by rw [List.length_append]; rfl⟩

theorem fits_iff_of_name {rtype : Rtype} {front : Nat} {name : Name} (hfront : nameAfter rtype = some front)
    (hname : Name.fromWireIn data (rdata.drop front) = .ok (name, rest))
    (hlen : out.length = front + name.wire.length + rest.length) :
    out.length ≤ 65535 ↔ ExpansionFits rtype rdata data := by
  refine ⟨fun h front' hfront' name' rest' hname' => ?_, fun h => ?_⟩
  · grind
  · rw [hlen]
    exact h front hfront name rest hname

theorem fits_iff_of_none {rtype : Rtype} (hnone : nameAfter rtype = none) (hlen : out.length ≤ 65535) :
    out.length ≤ 65535 ↔ ExpansionFits rtype rdata data :=
  iff_of_true hlen fun front hfront => by
    rw [hnone] at hfront
    cases hfront

theorem encodeRdata_fits_iff (hne : rdata ≠ []) (hlen : rdata.length ≤ 65535)
    (hknown : parsed.isUnknown = false) (h : ParsedRecord.decode parsed.rtype rdata data = .ok parsed)
    (hencode : parsed.encodeRdata = .ok out) :
    out.length ≤ 65535 ↔ ExpansionFits parsed.rtype rdata data := by
  have hempty : ¬ rdata.isEmpty = true := by rwa [List.isEmpty_iff]
  rw [ParsedRecord.decode, if_neg hempty] at h
  cases parsed with
  | a addr =>
    cases hencode
    exact fits_iff_of_none rfl (addr.length_ok ▸ by decide)
  | aaaa addr =>
    cases hencode
    exact fits_iff_of_none rfl (addr.length_ok ▸ by decide)
  | ns name =>
    cases hencode
    exact fits_iff_of_none rfl (name.length_wire_le.trans (by decide))
  | cname name =>
    cases hencode
    exact fits_iff_of_none rfl (name.length_wire_le.trans (by decide))
  | ptr name =>
    cases hencode
    exact fits_iff_of_none rfl (name.length_wire_le.trans (by decide))
  | dname name =>
    cases hencode
    exact fits_iff_of_none rfl (name.length_wire_le.trans (by decide))
  | svcb rtype priority target params =>
    have hread : decodeSvcb rtype data rdata = .ok (.svcb rtype priority target params) := by
      cases rtype <;> exact h
    obtain ⟨⟨priority', after⟩, hpriority, h⟩ := except_bind_eq_ok.mp hread
    obtain ⟨⟨target', field⟩, htarget, h⟩ := except_bind_eq_ok.mp h
    obtain ⟨params', hparams, h⟩ := except_bind_eq_ok.mp h
    cases h
    obtain ⟨encoded, hencoded, hout⟩ := except_bind_eq_ok.mp hencode
    cases hout
    obtain ⟨rfl, -⟩ := readU16_eq_ok hpriority
    have hfront : nameAfter rtype.rtype = some 2 := by cases rtype <;> rfl
    refine fits_iff_of_name hfront htarget ?_
    rw [List.length_append, List.length_append, length_be16, length_encodeSvcParams hencoded,
      length_decodeSvcParams hparams]
  | mx preference exchange =>
    cases hencode
    refine fits_iff_of_none rfl ?_
    rw [List.length_append, length_be16]
    have hwire := exchange.length_wire_le
    omega
  | txt strings =>
    change decodeTxt rdata = _ at h
    obtain ⟨strings', hstrings, h⟩ := except_bind_eq_ok.mp h
    cases h
    rw [ParsedRecord.encodeRdata] at hencode
    split at hencode
    case isTrue => cases hencode
    case isFalse =>
      refine fits_iff_of_none rfl ?_
      rwa [length_encodeStrings hencode, ← length_decodeStrings hstrings]
  | soa mname rname serial refresh retry expire minimum =>
    cases hencode
    refine fits_iff_of_none rfl ?_
    simp only [List.length_append, length_be32]
    have hmname := mname.length_wire_le
    have hrname := rname.length_wire_le
    omega
  | dnskey rtype flags protocol algorithm publicKey =>
    cases hencode
    have hread : decodeDnskey rtype rdata = .ok (.dnskey rtype flags protocol algorithm publicKey) := by
      cases rtype <;> exact h
    obtain ⟨⟨flags', after⟩, hflags, h⟩ := except_bind_eq_ok.mp hread
    obtain ⟨⟨protocol', algorithm', key⟩, hpair, h⟩ := except_bind_eq_ok.mp h
    cases h
    refine fits_iff_of_none (by cases rtype <;> rfl) ?_
    have hfirst := (readU16_eq_ok hflags).2
    have hsecond := (readPair_eq_ok hpair).2
    simp only [List.length_append, length_be16, List.length_cons, List.length_nil]
    omega
  | rrsig covered algorithm labels ttl inception expiration keyTag signer signature =>
    cases hencode
    change decodeRrsig data rdata = _ at h
    obtain ⟨⟨covered', r₁⟩, hcovered, h⟩ := except_bind_eq_ok.mp h
    obtain ⟨⟨algorithm', labels', r₂⟩, hpair, h⟩ := except_bind_eq_ok.mp h
    obtain ⟨⟨ttl', r₃⟩, httl, h⟩ := except_bind_eq_ok.mp h
    obtain ⟨⟨expiration', r₄⟩, hexpiration, h⟩ := except_bind_eq_ok.mp h
    obtain ⟨⟨inception', r₅⟩, hinception, h⟩ := except_bind_eq_ok.mp h
    obtain ⟨⟨keyTag', r₆⟩, htag, h⟩ := except_bind_eq_ok.mp h
    obtain ⟨⟨signer', field⟩, hsigner, h⟩ := except_bind_eq_ok.mp h
    cases h
    -- the six fixed fields in front of the signer come to 18 octets
    obtain ⟨rfl, -⟩ := readU16_eq_ok hcovered
    obtain ⟨rfl, -⟩ := readPair_eq_ok hpair
    obtain ⟨rfl, -⟩ := readU32_eq_ok httl
    obtain ⟨rfl, -⟩ := readU32_eq_ok hexpiration
    obtain ⟨rfl, -⟩ := readU32_eq_ok hinception
    obtain ⟨rfl, -⟩ := readU16_eq_ok htag
    simp only [List.drop_drop] at hsigner
    refine fits_iff_of_name rfl hsigner ?_
    simp only [List.length_append, length_be16, length_be32, List.length_cons, List.length_nil]
  | ds rtype keyTag algorithm digestType digest =>
    cases hencode
    have hread : decodeDs rtype rdata = .ok (.ds rtype keyTag algorithm digestType digest) := by
      cases rtype <;> exact h
    obtain ⟨⟨keyTag', after⟩, htag, h⟩ := except_bind_eq_ok.mp hread
    obtain ⟨⟨algorithm', digestType', field⟩, hpair, h⟩ := except_bind_eq_ok.mp h
    cases h
    refine fits_iff_of_none (by cases rtype <;> rfl) ?_
    have hfirst := (readU16_eq_ok htag).2
    have hsecond := (readPair_eq_ok hpair).2
    simp only [List.length_append, length_be16, List.length_cons, List.length_nil]
    omega
  | nsec next bitmap =>
    cases hencode
    change decodeNsec data rdata = _ at h
    obtain ⟨⟨next', field⟩, hnext, h⟩ := except_bind_eq_ok.mp h
    cases h
    refine fits_iff_of_name rfl hnext ?_
    rw [List.length_append, Nat.zero_add]
  | nsec3 hashAlgorithm flags iterations salt next bitmap =>
    obtain ⟨saltLen, hsalt, hencode⟩ := except_bind_eq_ok.mp hencode
    obtain ⟨nextLen, hnext, hencode⟩ := except_bind_eq_ok.mp hencode
    cases hencode
    change decodeNsec3 rdata = _ at h
    refine fits_iff_of_none rfl ?_
    unfold decodeNsec3 at h
    split at h
    case h_1 hashAlgorithm' flags' i₁ i₀ saltLen' tail =>
      split at h
      case isTrue => cases h
      case isFalse hsaltFits =>
        split at h
        · cases h
        · rename_i nextLen' after hafter
          split at h
          case isTrue => cases h
          case isFalse hnextFits =>
            cases h
            have hdrop := congrArg List.length hafter
            rw [List.length_drop, List.length_cons] at hdrop
            simp only [List.length_append, length_be16, List.length_cons, List.length_nil, List.length_take,
              List.length_drop] at hlen ⊢
            omega
    case h_2 => cases h
  | unknown rtype => cases hknown

end Growth

theorem fromWireIn_nil (data : Octets) (name : Name) (rest : Octets) :
    Name.fromWireIn data [] ≠ .ok (name, rest) := by
  intro h
  rw [Name.fromWireIn] at h
  cases hread : DName.tryFromBytes [] with
  | error e =>
    rw [hread] at h
    cases h
  | ok read => grind [DName.tryFromBytes, Label.ne_nil_of_tryFromBytes]

/-- **When what is stored of RDATA off the wire fits 16 bits of length**: always, but for a type that
goes on after a name, and then as long as the name spelled out leaves room. -/
theorem fits_iff {rtype : Rtype} {rdata data : Octets} {stored : RecordData} (hlen : rdata.length ≤ 65535)
    (h : RecordData.fromWire rtype rdata data = .ok stored) :
    stored.rdata.length ≤ 65535 ↔ ExpansionFits rtype rdata data := by
  obtain ⟨parsed, hdecode, hstored⟩ := except_bind_eq_ok.mp h
  rcases ParsedRecord.decode_cases hdecode with ⟨rfl, hwhy⟩ | ⟨hne, rfl, hknown⟩
  · cases hstored
    rcases hwhy with rfl | hopaque
    · refine iff_of_true hlen fun front hfront name rest hname => ?_
      rw [List.drop_nil] at hname
      exact absurd hname (fromWireIn_nil data name rest)
    · have hnone : nameAfter rtype = none := by
        simp only [decodedTypes, List.mem_cons, List.not_mem_nil, or_false, not_or] at hopaque
        rw [nameAfter, if_neg (by tauto), if_neg (by tauto), if_neg (by tauto)]
      exact fits_iff_of_none hnone hlen
  · have hfrom : RecordData.fromParsed parsed = .ok stored := by
      cases parsed <;> first | exact hstored | cases hknown
    exact encodeRdata_fits_iff hne hlen hknown hdecode (RecordData.fromParsed_eq_ok hfrom).2

end Rdns.Core
