import Rdns.Core.RdataInverse

/-!
# Rdns — Fields read by their offset

The accessors of `rdns-core/src/record_data.rs` that answer from stored RDATA without
parsing it: the SOA's SERIAL and MINIMUM, the RRSIG's TYPE COVERED, the NSEC3's iterations
and salt. They walk offsets as if every stored name were written in full; `parse` also
follows a pointer into the RDATA itself.
-/

namespace Rdns.Core

open Rdns.Lib RecordTypes

/-! ## The accessors -/

/-- Past the name at the start of `data`. -/
def skipUncompressedName (data : Octets) : Option Octets :=
  match data with
  | [] => none
  | len :: rest =>
    if len.toNat / 64 ≠ 0 then none
    else if len = 0 then some rest
    else skipUncompressedName (rest.drop len.toNat)
termination_by data.length
decreasing_by
  rw [List.length_drop, List.length_cons]
  omega

def wordAt (scalars : Octets) (i : Nat) : UInt32 :=
  ofBe32 (scalars.getD i 0) (scalars.getD (i + 1) 0) (scalars.getD (i + 2) 0) (scalars.getD (i + 3) 0)

namespace RecordData

def soaScalars (data : RecordData) : Option Octets := do
  if data.rtype ≠ SOA then none
  let afterMname ← skipUncompressedName data.rdata
  let afterRname ← skipUncompressedName afterMname
  if afterRname.length < 20 then none else some (afterRname.take 20)

def soaSerial (data : RecordData) : Option Serial := do
  let s ← data.soaScalars
  return ⟨wordAt s 0⟩

def soaMinimum (data : RecordData) : Option UInt32 := do
  let s ← data.soaScalars
  return wordAt s 16

def rrsigTypeCovered (data : RecordData) : Option Rtype :=
  if data.rtype ≠ RRSIG then none
  else match data.rdata with
    | hi :: lo :: _ => some ⟨ofBe16 hi lo⟩
    | _ => none

def nsec3Parameters (data : RecordData) : Option (UInt16 × Octets) :=
  if data.rtype ≠ NSEC3 then none
  else match data.rdata with
    | _ :: _ :: i₁ :: i₀ :: saltLen :: rest =>
      if rest.length < saltLen.toNat then none else some (ofBe16 i₁ i₀, rest.take saltLen.toNat)
    | _ => none

inductive Built : RecordData → Prop
  | new {rtype : Rtype} {rdata : Octets} {data : RecordData} (h : RecordData.new rtype rdata = .ok data) :
    Built data
  | fromWire {rtype : Rtype} {rdata message : Octets} {data : RecordData}
    (h : RecordData.fromWire rtype rdata message = .ok data) : Built data
  | fromParsed {parsed : ParsedRecord} {data : RecordData} (h : RecordData.fromParsed parsed = .ok data) :
    Built data

/-- Each accessor answers exactly where `parse` yields its variant, with that variant's field. -/
structure AccessorsAgree (data : RecordData) : Prop where
  soaSerial : ∀ serial, data.soaSerial = some serial ↔
    ∃ mname rname refresh retry expire minimum,
      data.parse = .ok (.soa mname rname serial refresh retry expire minimum)
  soaMinimum : ∀ minimum, data.soaMinimum = some minimum ↔
    ∃ mname rname serial refresh retry expire,
      data.parse = .ok (.soa mname rname serial refresh retry expire minimum)
  rrsigTypeCovered : ∀ covered, data.rrsigTypeCovered = some covered ↔
    ∃ algorithm labels ttl inception expiration keyTag signer signature,
      data.parse = .ok (.rrsig covered algorithm labels ttl inception expiration keyTag signer signature)
  nsec3Parameters : ∀ iterations salt, data.nsec3Parameters = some (iterations, salt) ↔
    ∃ hashAlgorithm flags next bitmap,
      data.parse = .ok (.nsec3 hashAlgorithm flags iterations salt next bitmap)

def WrittenInFull (data : RecordData) : Prop :=
  data.rtype = SOA →
    ∀ mname rest rname rest', DName.tryFromBytes data.rdata = .ok (mname, rest) →
      DName.tryFromBytes rest = .ok (rname, rest') → mname.pointer = none ∧ rname.pointer = none

end RecordData

/-! ## Skipping a name -/

theorem skipUncompressedName_wireOf {labels : List Octets} (h : ∀ l ∈ labels, ValidLabel l) (rest : Octets) :
    skipUncompressedName (wireOf labels ++ rest) = some rest := by
  induction labels with
  | nil =>
    show skipUncompressedName (0 :: rest) = some rest
    rw [skipUncompressedName, if_neg (by decide), if_pos rfl]
  | cons label labels ih =>
    obtain ⟨hvalid, hlabels⟩ := List.forall_mem_cons.mp h
    have hlen := toNat_lengthOctet hvalid
    obtain ⟨hpos, hshort⟩ := hvalid
    unfold MAX_LABEL_LEN at hshort
    have hzero : UInt8.ofNat label.length ≠ 0 := by
      intro heq
      rw [heq] at hlen
      exact absurd hlen.symm (by simp only [UInt8.toNat_zero]; omega)
    rw [wireOf_cons, List.append_assoc, labelOctets, List.cons_append, skipUncompressedName, hlen,
      if_neg (by omega), if_neg hzero, List.drop_left]
    exact ih hlabels

variable {data rest : Octets}

theorem skipUncompressedName_eq_some (h : skipUncompressedName data = some rest) :
    ∃ labels, (∀ l ∈ labels, ValidLabel l) ∧ data = wireOf labels ++ rest := by
  induction hn : data.length using Nat.strongRecOn generalizing data with
  | ind n ih =>
    subst hn
    cases data with
    | nil =>
      rw [skipUncompressedName] at h
      cases h
    | cons len tail =>
      rw [skipUncompressedName] at h
      split at h
      case isTrue => cases h
      case isFalse hkind =>
        split at h
        case isTrue hzero =>
          cases h
          subst hzero
          exact ⟨[], by simp, rfl⟩
        case isFalse hpos =>
          obtain ⟨labels, hlabels, htail⟩ :=
            ih _ (by rw [List.length_drop, List.length_cons]; omega) h rfl
          -- a label that ran past the end would leave nothing, which no name starts with
          have hfits : len.toNat ≤ tail.length := by
            by_contra hshort
            rw [List.drop_eq_nil_of_le (by omega)] at htail
            exact wireOf_ne_nil labels (List.append_eq_nil_iff.mp htail.symm).1
          have hlen : (tail.take len.toNat).length = len.toNat := by
            rw [List.length_take]
            omega
          have hne : len.toNat ≠ 0 := fun heq => hpos (UInt8.toNat_inj.mp heq)
          have hvalid : ValidLabel (tail.take len.toNat) :=
            ⟨by omega, by unfold MAX_LABEL_LEN; omega⟩
          refine ⟨tail.take len.toNat :: labels, List.forall_mem_cons.mpr ⟨hvalid, hlabels⟩, ?_⟩
          rw [wireOf_cons, List.append_assoc, ← htail, labelOctets, hlen, UInt8.ofNat_toNat,
            List.cons_append, List.take_append_drop]

theorem skipUncompressedName_iff :
    skipUncompressedName data = some rest ↔
      ∃ name, DName.tryFromBytes data = .ok (name, rest) ∧ name.pointer = none := by
  constructor
  · intro h
    obtain ⟨labels, hlabels, rfl⟩ := skipUncompressedName_eq_some h
    exact ⟨_, DName.tryFromBytes_wireOf hlabels rest, rfl⟩
  · rintro ⟨name, hread, hnone⟩
    obtain ⟨hlabels, hdata, -⟩ := DName.tryFromBytes_eq_ok hread
    rw [hdata hnone]
    exact skipUncompressedName_wireOf hlabels rest

theorem wordAt_be32 (front rest : Octets) (value : UInt32) :
    wordAt (front ++ (be32 value ++ rest)) front.length = value := by
  have hat : ∀ k, (front ++ (be32 value ++ rest)).getD (front.length + k) 0 = (be32 value ++ rest).getD k 0 := by
    intro k
    rw [List.getD_eq_getElem?_getD, List.getElem?_append_right (by omega), Nat.add_sub_cancel_left,
      ← List.getD_eq_getElem?_getD]
  rw [wordAt, hat 1, hat 2, hat 3, ← Nat.add_zero front.length, hat 0]
  exact ofBe32_be32 value

/-! ## What was built parses -/

namespace RecordData

variable {data : RecordData}

theorem parse_of_encodeRdata {parsed : ParsedRecord} (hrtype : data.rtype = parsed.rtype)
    (h : parsed.encodeRdata = .ok data.rdata) : ∃ again, data.parse = .ok again := by
  by_cases hne : data.rdata = []
  · exact ⟨.unknown data.rtype, by rw [parse, hne]; rfl⟩
  · exact ⟨parsed.canonical, by rw [parse, hrtype]; exact ParsedRecord.decode_encodeRdata _ h hne⟩

theorem Built.parses (h : data.Built) : ∃ parsed, data.parse = .ok parsed := by
  cases h with
  | new h =>
    obtain ⟨parsed, hparse, h⟩ := except_bind_eq_ok.mp h
    cases h
    exact ⟨parsed, hparse⟩
  | fromWire h =>
    rcases fromWire_cases h with ⟨rfl, rfl | hopaque⟩ | ⟨parsed, -, hrtype, hstored, hencode⟩
    · exact ⟨_, rfl⟩
    · exact ⟨_, ParsedRecord.decode_opaque hopaque⟩
    · exact parse_of_encodeRdata (hstored.trans hrtype.symm) hencode
  | fromParsed h =>
    obtain ⟨hrtype, hencode⟩ := fromParsed_eq_ok h
    exact parse_of_encodeRdata hrtype hencode

theorem of_parse {parsed : ParsedRecord} (h : data.parse = .ok parsed)
    (hknown : parsed.isUnknown = false) : data.rtype = parsed.rtype ∧ data.rdata ≠ [] := by
  rcases ParsedRecord.decode_cases h with ⟨rfl, -⟩ | ⟨hne, hrtype, -⟩
  · cases hknown
  · exact ⟨hrtype.symm, hne⟩

end RecordData

/-! ## The two readings side by side -/

theorem tryFromBytes_of_fromWireIn {bytes : Octets} {name : Name}
    (h : Name.fromWireIn data bytes = .ok (name, rest)) :
    ∃ walked, DName.tryFromBytes bytes = .ok (walked, rest) := by
  unfold Name.fromWireIn at h
  split at h
  · cases h
  · rename_i walked after hwalk
    obtain ⟨name', -, h⟩ := except_bind_eq_ok.mp h
    cases h
    exact ⟨walked, hwalk⟩

theorem ne_nil_of_tryFromBytes {walked : DName × Octets} (h : DName.tryFromBytes data = .ok walked) :
    data ≠ [] := by
  rintro rfl
  unfold DName.tryFromBytes at h
  split at h
  · cases h
  · rename_i hlabel
    cases hlabel
  · rename_i hlabel
    cases hlabel
  · rename_i hlabel
    cases hlabel

theorem decodeSoa_consumed {rdata : Octets} {parsed : ParsedRecord}
    (h : decodeSoa data rdata = .ok parsed) :
    ∃ mname r₁ rname r₂ serial, ∃ refresh retry expire : Int32, ∃ minimum rest,
      Name.fromWireIn data rdata = .ok (mname, r₁) ∧ Name.fromWireIn data r₁ = .ok (rname, r₂) ∧
      r₂ = be32 serial ++ (be32 refresh.toUInt32 ++ (be32 retry.toUInt32 ++ (be32 expire.toUInt32 ++
        (be32 minimum ++ rest)))) ∧
      parsed = .soa mname rname ⟨serial⟩ refresh retry expire minimum := by
  obtain ⟨⟨mname, r₁⟩, hmname, h⟩ := except_bind_eq_ok.mp h
  obtain ⟨⟨rname, r₂⟩, hrname, h⟩ := except_bind_eq_ok.mp h
  obtain ⟨⟨serial, r₃⟩, hserial, h⟩ := except_bind_eq_ok.mp h
  obtain ⟨⟨refresh, r₄⟩, hrefresh, h⟩ := except_bind_eq_ok.mp h
  obtain ⟨⟨retry, r₅⟩, hretry, h⟩ := except_bind_eq_ok.mp h
  obtain ⟨⟨expire, r₆⟩, hexpire, h⟩ := except_bind_eq_ok.mp h
  obtain ⟨⟨minimum, r₇⟩, hminimum, h⟩ := except_bind_eq_ok.mp h
  cases h
  obtain rfl := readU32_consumed hserial
  obtain rfl := readI32_consumed hrefresh
  obtain rfl := readI32_consumed hretry
  obtain rfl := readI32_consumed hexpire
  obtain rfl := readU32_consumed hminimum
  exact ⟨mname, r₁, rname, _, serial, refresh, retry, expire, minimum, r₇, hmname, hrname, rfl, rfl⟩

namespace RecordData

variable {data : RecordData}

theorem soaScalars_eq_some {scalars : Octets} (h : data.soaScalars = some scalars) :
    data.rtype = SOA ∧ ∃ after rest, skipUncompressedName data.rdata = some after ∧
      skipUncompressedName after = some rest := by
  unfold soaScalars at h
  split at h
  case isTrue => cases h
  case isFalse hrtype =>
    obtain ⟨after, hafter, h⟩ := Option.bind_eq_some_iff.mp h
    obtain ⟨rest, hrest, -⟩ := Option.bind_eq_some_iff.mp h
    exact ⟨Decidable.not_not.mp hrtype, after, rest, hafter, hrest⟩

theorem soa_read (hbuilt : data.Built) (hrtype : data.rtype = SOA) (hne : data.rdata ≠ [])
    (hfull : data.WrittenInFull) :
    ∃ mname rname serial refresh retry expire minimum,
      data.parse = .ok (.soa mname rname serial refresh retry expire minimum) ∧
      data.soaSerial = some serial ∧ data.soaMinimum = some minimum := by
  obtain ⟨parsed, hparse⟩ := hbuilt.parses
  have hread : decodeSoa data.rdata data.rdata = .ok parsed := by
    rw [parse, hrtype, ParsedRecord.decode, if_neg (by rwa [List.isEmpty_iff])] at hparse
    exact hparse
  obtain ⟨mname, r₁, rname, r₂, serial, refresh, retry, expire, minimum, rest, hmname, hrname, hscalars,
    rfl⟩ := decodeSoa_consumed hread
  obtain ⟨walked₁, hwalk₁⟩ := tryFromBytes_of_fromWireIn hmname
  obtain ⟨walked₂, hwalk₂⟩ := tryFromBytes_of_fromWireIn hrname
  obtain ⟨hnone₁, hnone₂⟩ := hfull hrtype _ _ _ _ hwalk₁ hwalk₂
  have hskip₁ := skipUncompressedName_iff.mpr ⟨walked₁, hwalk₁, hnone₁⟩
  have hskip₂ := skipUncompressedName_iff.mpr ⟨walked₂, hwalk₂, hnone₂⟩
  have htaken : data.soaScalars = some (be32 serial ++ (be32 refresh.toUInt32 ++ (be32 retry.toUInt32 ++
      (be32 expire.toUInt32 ++ be32 minimum)))) := by
    have hlong : ¬ r₂.length < 20 := by grind [length_be32]
    rw [soaScalars, if_neg (not_not.mpr hrtype), hskip₁]
    show (skipUncompressedName r₁).bind _ = _
    rw [hskip₂, Option.bind_some, if_neg hlong, hscalars]
    simp only [← List.append_assoc]
    rw [List.take_left' (by simp only [List.length_append, length_be32])]
  refine ⟨mname, rname, ⟨serial⟩, refresh, retry, expire, minimum, hparse, ?_, ?_⟩
  · rw [soaSerial, htaken]
    exact congrArg some (congrArg Serial.mk (wordAt_be32 [] _ serial))
  · have hlast := wordAt_be32 (be32 serial ++ be32 refresh.toUInt32 ++ be32 retry.toUInt32 ++
      be32 expire.toUInt32) [] minimum
    simp only [List.append_assoc, List.append_nil] at hlast
    rw [soaMinimum, htaken]
    exact congrArg some hlast

theorem rrsig_read {parsed : ParsedRecord} (hparse : data.parse = .ok parsed)
    (hrtype : data.rtype = RRSIG) (hne : data.rdata ≠ []) :
    ∃ covered algorithm labels ttl inception expiration keyTag signer signature,
      data.parse = .ok (.rrsig covered algorithm labels ttl inception expiration keyTag signer signature) ∧
      data.rrsigTypeCovered = some covered := by
  have hread : decodeRrsig data.rdata data.rdata = .ok parsed := by
    rw [parse, hrtype, ParsedRecord.decode, if_neg (by rwa [List.isEmpty_iff])] at hparse
    exact hparse
  obtain ⟨⟨covered, r₁⟩, hcovered, h⟩ := except_bind_eq_ok.mp hread
  obtain ⟨⟨algorithm, labels, r₂⟩, hpair, h⟩ := except_bind_eq_ok.mp h
  obtain ⟨⟨ttl, r₃⟩, httl, h⟩ := except_bind_eq_ok.mp h
  obtain ⟨⟨expiration, r₄⟩, hexpiration, h⟩ := except_bind_eq_ok.mp h
  obtain ⟨⟨inception, r₅⟩, hinception, h⟩ := except_bind_eq_ok.mp h
  obtain ⟨⟨keyTag, r₆⟩, htag, h⟩ := except_bind_eq_ok.mp h
  obtain ⟨⟨signer, signature⟩, hsigner, h⟩ := except_bind_eq_ok.mp h
  cases h
  refine ⟨⟨covered⟩, algorithm, labels, ttl, inception, expiration, keyTag, signer, signature, hparse, ?_⟩
  rw [rrsigTypeCovered, if_neg (not_not.mpr hrtype), readU16_consumed hcovered]
  exact congrArg some (congrArg Rtype.mk (ofBe16_be16 covered))

theorem nsec3_read {parsed : ParsedRecord} (hparse : data.parse = .ok parsed)
    (hrtype : data.rtype = NSEC3) (hne : data.rdata ≠ []) :
    ∃ hashAlgorithm flags iterations salt next bitmap,
      data.parse = .ok (.nsec3 hashAlgorithm flags iterations salt next bitmap) ∧
      data.nsec3Parameters = some (iterations, salt) := by
  have hread : decodeNsec3 data.rdata = .ok parsed := by
    rw [parse, hrtype, ParsedRecord.decode, if_neg (by rwa [List.isEmpty_iff])] at hparse
    exact hparse
  unfold decodeNsec3 at hread
  split at hread
  case h_2 => cases hread
  case h_1 hashAlgorithm flags i₁ i₀ saltLen rest hrdata =>
    split at hread
    case isTrue => cases hread
    case isFalse hsaltFits =>
      split at hread
      · cases hread
      · split at hread
        case isTrue => cases hread
        case isFalse => grind [nsec3Parameters]

/-- **The accessors agree with the parse** on all that was built, exactly where an SOA's names are
in full. -/
theorem accessors_agree_iff (hbuilt : data.Built) : data.AccessorsAgree ↔ data.WrittenInFull := by
  obtain ⟨parsed, hparse⟩ := hbuilt.parses
  constructor
  · intro hagree hsoa mname rest rname rest' hmname hrname
    have hne := ne_nil_of_tryFromBytes hmname
    have hread : decodeSoa data.rdata data.rdata = .ok parsed := by
      rw [parse, hsoa, ParsedRecord.decode, if_neg (by rwa [List.isEmpty_iff])] at hparse
      exact hparse
    obtain ⟨m, _, r, _, s, f, t, e, n, _, -, -, -, rfl⟩ := decodeSoa_consumed hread
    -- the accessor answers, so it got past both names
    have hserial := (hagree.soaSerial _).mpr ⟨m, r, f, t, e, n, hparse⟩
    obtain ⟨scalars, hscalars, -⟩ := Option.bind_eq_some_iff.mp hserial
    obtain ⟨-, after, last, hafter, hlast⟩ := soaScalars_eq_some hscalars
    obtain ⟨name₁, hname₁, hnone₁⟩ := skipUncompressedName_iff.mp hafter
    cases hmname.symm.trans hname₁
    obtain ⟨name₂, hname₂, hnone₂⟩ := skipUncompressedName_iff.mp hlast
    cases hrname.symm.trans hname₂
    exact ⟨hnone₁, hnone₂⟩
  · intro hfull
    -- an accessor that answers has a record of its TYPE with octets in it
    have hsoa : ∀ scalars, data.soaScalars = some scalars →
        data.rtype = SOA ∧ data.rdata ≠ [] := by
      intro scalars h
      obtain ⟨hrtype, after, rest, hafter, -⟩ := soaScalars_eq_some h
      refine ⟨hrtype, fun hnil => ?_⟩
      rw [hnil, skipUncompressedName] at hafter
      cases hafter
    constructor
    · intro serial
      constructor
      · intro h
        obtain ⟨scalars, hscalars, -⟩ := Option.bind_eq_some_iff.mp h
        obtain ⟨hrtype, hne⟩ := hsoa scalars hscalars
        obtain ⟨m, r, s, f, t, e, n, hparsed, hserial, -⟩ := soa_read hbuilt hrtype hne hfull
        cases h.symm.trans hserial
        exact ⟨m, r, f, t, e, n, hparsed⟩
      · rintro ⟨m, r, f, t, e, n, hparsed⟩
        obtain ⟨hrtype, hne⟩ := of_parse hparsed rfl
        obtain ⟨m', r', s', f', t', e', n', hparsed', hserial, -⟩ := soa_read hbuilt hrtype hne hfull
        cases hparsed.symm.trans hparsed'
        exact hserial
    · intro minimum
      constructor
      · intro h
        obtain ⟨scalars, hscalars, -⟩ := Option.bind_eq_some_iff.mp h
        obtain ⟨hrtype, hne⟩ := hsoa scalars hscalars
        obtain ⟨m, r, s, f, t, e, n, hparsed, -, hminimum⟩ := soa_read hbuilt hrtype hne hfull
        cases h.symm.trans hminimum
        exact ⟨m, r, s, f, t, e, hparsed⟩
      · rintro ⟨m, r, s, f, t, e, hparsed⟩
        obtain ⟨hrtype, hne⟩ := of_parse hparsed rfl
        obtain ⟨m', r', s', f', t', e', n', hparsed', -, hminimum⟩ := soa_read hbuilt hrtype hne hfull
        cases hparsed.symm.trans hparsed'
        exact hminimum
    · intro covered
      constructor
      · intro h
        have hshape : data.rtype = RRSIG ∧ data.rdata ≠ [] := by
          unfold RecordData.rrsigTypeCovered at h
          split at h
          · cases h
          · rename_i hrtype
            refine ⟨not_not.mp hrtype, fun hnil => ?_⟩
            rw [hnil] at h
            cases h
        obtain ⟨c, a, l, ttl, i, x, k, s, sig, hparsed, hcovered⟩ := rrsig_read hparse hshape.1 hshape.2
        cases h.symm.trans hcovered
        exact ⟨a, l, ttl, i, x, k, s, sig, hparsed⟩
      · rintro ⟨a, l, ttl, i, x, k, s, sig, hparsed⟩
        obtain ⟨hrtype, hne⟩ := of_parse hparsed rfl
        obtain ⟨c, a', l', ttl', i', x', k', s', sig', hparsed', hcovered⟩ := rrsig_read hparse hrtype hne
        cases hparsed.symm.trans hparsed'
        exact hcovered
    · intro iterations salt
      constructor
      · intro h
        have hshape : data.rtype = NSEC3 ∧ data.rdata ≠ [] := by
          unfold RecordData.nsec3Parameters at h
          split at h
          · cases h
          · rename_i hrtype
            refine ⟨not_not.mp hrtype, fun hnil => ?_⟩
            rw [hnil] at h
            cases h
        obtain ⟨a, f, i, s, n, b, hparsed, hparams⟩ := nsec3_read hparse hshape.1 hshape.2
        cases h.symm.trans hparams
        exact ⟨a, f, n, b, hparsed⟩
      · rintro ⟨a, f, n, b, hparsed⟩
        obtain ⟨hrtype, hne⟩ := of_parse hparsed rfl
        obtain ⟨a', f', i', s', n', b', hparsed', hparams⟩ := nsec3_read hparse hrtype hne
        cases hparsed.symm.trans hparsed'
        exact hparams

def pointedSoa : RecordData :=
  ⟨SOA, [0, 0xc0, 0] ++ List.replicate 20 0⟩

theorem pointedSoa_new : RecordData.new SOA pointedSoa.rdata = .ok pointedSoa := by
  decide +kernel

def rootSoa : RecordData := ⟨SOA, 0 :: 0 :: List.replicate 20 0⟩

theorem rootSoa_new : RecordData.new SOA rootSoa.rdata = .ok rootSoa := by
  decide +kernel

theorem rootSoa_agrees : rootSoa.AccessorsAgree :=
  (accessors_agree_iff (.new rootSoa_new)).mpr fun _ mname rest rname rest' hmname hrname => by
    have hfirst : DName.tryFromBytes rootSoa.rdata = .ok (⟨[], none⟩, 0 :: List.replicate 20 0) :=
      DName.tryFromBytes_root _
    cases hmname.symm.trans hfirst
    have hsecond : DName.tryFromBytes (0 :: List.replicate 20 0) = .ok (⟨[], none⟩, List.replicate 20 0) :=
      DName.tryFromBytes_root _
    cases hrname.symm.trans hsecond
    exact ⟨rfl, rfl⟩

theorem pointedSoa_disagrees : ¬ ∀ data : RecordData, data.Built → data.AccessorsAgree := by
  intro h
  have hserial := (h pointedSoa (.new pointedSoa_new)).soaSerial ⟨0⟩
  have hnone : pointedSoa.soaSerial = none := by decide +kernel
  have hparse : pointedSoa.parse = .ok (.soa Name.root Name.root ⟨0⟩ 0 0 0 0) := by decide +kernel
  have hsome := hserial.mpr ⟨_, _, _, _, _, _, hparse⟩
  rw [hnone] at hsome
  cases hsome

end RecordData

end Rdns.Core
