import Rdns.Core.DName
import Mathlib.Data.List.Sort

/-!
# Rdns — Resource record data

`rdns-core/src/record.rs` and `record_data.rs`: the typed view of RDATA, its wire
form both ways, and the compact form a record is stored in.

`ParsedRecord.encode` writes a typed record as uncompressed RDATA and
`ParsedRecord.decode` reads RDATA found in a message, names resolved against that
message.
-/

namespace Rdns.Core

open Rdns.Lib RecordTypes

/-! ## Reading integers -/

def readU16 : Octets → Except WireError (UInt16 × Octets)
  | hi :: lo :: rest => .ok (ofBe16 hi lo, rest)
  | data => .error (.truncated "u16" 2 data.length)

def readWord32 (what : String) : Octets → Except WireError (UInt32 × Octets)
  | b₃ :: b₂ :: b₁ :: b₀ :: rest => .ok (ofBe32 b₃ b₂ b₁ b₀, rest)
  | data => .error (.truncated what 4 data.length)

def readU32 (data : Octets) : Except WireError (UInt32 × Octets) :=
  readWord32 "u32" data

def readI32 (data : Octets) : Except WireError (Int32 × Octets) := do
  let (bits, rest) ← readWord32 "i32" data
  return (Int32.ofUInt32 bits, rest)

@[simp]
theorem readU16_be16 (value : UInt16) (rest : Octets) :
    readU16 (be16 value ++ rest) = .ok (value, rest) := by
  rw [be16, List.cons_append, List.cons_append, List.nil_append, readU16, ofBe16_be16]

@[simp]
theorem readWord32_be32 (what : String) (value : UInt32) (rest : Octets) :
    readWord32 what (be32 value ++ rest) = .ok (value, rest) := by
  simp only [be32, List.cons_append, List.nil_append, readWord32, ofBe32_be32]

@[simp]
theorem readU32_be32 (value : UInt32) (rest : Octets) :
    readU32 (be32 value ++ rest) = .ok (value, rest) :=
  readWord32_be32 "u32" value rest

@[simp]
theorem readI32_be32 (value : Int32) (rest : Octets) :
    readI32 (be32 value.toUInt32 ++ rest) = .ok (value, rest) := by
  rw [readI32, readWord32_be32]
  rfl

/-! ## The typed view -/

/-- `Ipv4Addr`: four octets. -/
structure Ipv4Addr where
  octets : Octets
  length_ok : octets.length = 4
deriving DecidableEq

/-- `Ipv6Addr`: sixteen octets. -/
structure Ipv6Addr where
  octets : Octets
  length_ok : octets.length = 16
deriving DecidableEq

inductive SvcbType where
  | svcb
  | https
deriving DecidableEq

inductive DnskeyType where
  | dnskey
  | cdnskey
deriving DecidableEq

inductive DsType where
  | ds
  | cds
deriving DecidableEq

def SvcbType.rtype : SvcbType → Rtype
  | .svcb => SVCB
  | .https => HTTPS

def DnskeyType.rtype : DnskeyType → Rtype
  | .dnskey => DNSKEY
  | .cdnskey => CDNSKEY

def DsType.rtype : DsType → Rtype
  | .ds => DS
  | .cds => CDS

inductive ParsedRecord where
  | a (addr : Ipv4Addr)
  | ns (name : Name)
  | cname (name : Name)
  | soa (mname rname : Name) (serial : Serial) (refresh retry expire : Int32) (minimum : UInt32)
  | ptr (name : Name)
  | dname (name : Name)
  | svcb (rtype : SvcbType) (priority : UInt16) (target : Name) (params : List (UInt16 × Octets))
  | mx (preference : UInt16) (exchange : Name)
  | txt (strings : List Octets)
  | aaaa (addr : Ipv6Addr)
  | dnskey (rtype : DnskeyType) (flags : UInt16) (protocol algorithm : UInt8) (publicKey : Octets)
  | rrsig (typeCovered : Rtype) (algorithm labels : UInt8)
      (originalTtl inception expiration : UInt32) (keyTag : UInt16) (signerName : Name)
      (signature : Octets)
  | ds (rtype : DsType) (keyTag : UInt16) (algorithm digestType : UInt8) (digest : Octets)
  | nsec (nextDomainName : Name) (typeBitmap : Octets)
  | nsec3 (hashAlgorithm flags : UInt8) (iterations : UInt16) (salt nextHashedOwner : Octets)
      (typeBitmap : Octets)
  | unknown (rtype : Rtype)
deriving DecidableEq

def ParsedRecord.rtype : ParsedRecord → Rtype
  | .a _ => A
  | .ns _ => NS
  | .cname _ => CNAME
  | .soa .. => SOA
  | .ptr _ => PTR
  | .dname _ => DNAME
  | .svcb rtype .. => rtype.rtype
  | .mx .. => MX
  | .txt _ => TXT
  | .aaaa _ => AAAA
  | .dnskey rtype .. => rtype.rtype
  | .rrsig .. => RRSIG
  | .ds rtype .. => rtype.rtype
  | .nsec .. => NSEC
  | .nsec3 .. => NSEC3
  | .unknown rtype => rtype

def ParsedRecord.folded : ParsedRecord → ParsedRecord
  | .ns name => .ns name.toFolded
  | .cname name => .cname name.toFolded
  | .soa mname rname serial refresh retry expire minimum =>
    .soa mname.toFolded rname.toFolded serial refresh retry expire minimum
  | .ptr name => .ptr name.toFolded
  | .dname name => .dname name.toFolded
  | .svcb rtype priority target params => .svcb rtype priority target.toFolded params
  | .mx preference exchange => .mx preference exchange.toFolded
  | .rrsig covered algorithm labels ttl inception expiration keyTag signer signature =>
    .rrsig covered algorithm labels ttl inception expiration keyTag signer.toFolded signature
  | .nsec next bitmap => .nsec next.toFolded bitmap
  | other => other

/-! ## SvcParams and character-strings -/

def decodeSvcParams (previous : Option UInt16) (rest : Octets) :
    Except WireError (List (UInt16 × Octets)) :=
  match rest with
  | [] => .ok []
  | k₁ :: k₀ :: l₁ :: l₀ :: tail =>
    let key := ofBe16 k₁ k₀
    let len := (ofBe16 l₁ l₀).toNat
    if tail.length < len then
      .error (.truncated "an SVCB parameter value" len tail.length)
    else if previous.any (key ≤ ·) then
      let last := previous.getD 0
      .error (.malformed "SVCB RDATA"
        s!"SvcParamKeys must be in strictly increasing order (RFC 9460 §2.2); {key} follows {last}")
    else
      match decodeSvcParams (some key) (tail.drop len) with
      | .error e => .error e
      | .ok params => .ok ((key, tail.take len) :: params)
  | [_] => .error (.truncated "u16" 2 1)
  | _ :: _ :: tail => .error (.truncated "u16" 2 tail.length)
termination_by rest.length
decreasing_by
  simp only [List.length_drop, List.length_cons]
  omega

def encodeSorted (previous : Option UInt16) :
    List (UInt16 × Octets) → Except WireError Octets
  | [] => .ok []
  | (key, value) :: rest =>
    if previous = some key then
      .error (.malformed "SVCB RDATA"
        s!"SvcParamKey {key} appears twice, and only one value can be sent")
    else if value.length > 65535 then
      .error (.tooLong "an SVCB parameter value" 65535 value.length)
    else
      match encodeSorted (some key) rest with
      | .error e => .error e
      | .ok out => .ok (be16 key ++ be16 (UInt16.ofNat value.length) ++ value ++ out)

def sortParams (params : List (UInt16 × Octets)) : List (UInt16 × Octets) :=
  params.mergeSort fun p q => p.1 ≤ q.1

def encodeSvcParams (params : List (UInt16 × Octets)) : Except WireError Octets :=
  encodeSorted none (sortParams params)

def decodeStrings (rest : Octets) : Except WireError (List Octets) :=
  match rest with
  | [] => .ok []
  | len :: afterLen =>
    if afterLen.length < len.toNat then
      .error (.truncated "a TXT character-string" len.toNat afterLen.length)
    else
      match decodeStrings (afterLen.drop len.toNat) with
      | .error e => .error e
      | .ok strings => .ok (afterLen.take len.toNat :: strings)
termination_by rest.length
decreasing_by
  simp only [List.length_drop, List.length_cons]
  omega

def encodeStrings : List Octets → Except WireError Octets
  | [] => .ok []
  | s :: rest =>
    if s.length > 255 then .error (.tooLong "a TXT character-string" 255 s.length)
    else
      match encodeStrings rest with
      | .error e => .error e
      | .ok out => .ok (UInt8.ofNat s.length :: s ++ out)

/-! ## RDATA both ways -/

def lengthOctet (what : String) (field : Octets) : Except WireError UInt8 :=
  if field.length > 255 then .error (.tooLong what 255 field.length)
  else .ok (UInt8.ofNat field.length)

/-- Encode as uncompressed wire-format RDATA; the TYPE beside it is
`ParsedRecord.rtype`. -/
def ParsedRecord.encodeRdata : ParsedRecord → Except WireError Octets
  | .a addr => .ok addr.octets
  | .aaaa addr => .ok addr.octets
  | .ns name | .cname name | .ptr name | .dname name => .ok name.wire
  | .svcb _ priority target params => do
    let encoded ← encodeSvcParams params
    return be16 priority ++ target.wire ++ encoded
  | .mx preference exchange => .ok (be16 preference ++ exchange.wire)
  | .txt strings =>
    if strings.isEmpty then
      .error (.malformed "a TXT record" "it must carry at least one character-string")
    else encodeStrings strings
  | .soa mname rname serial refresh retry expire minimum =>
    .ok (mname.wire ++ rname.wire ++ be32 serial.value ++ be32 refresh.toUInt32
      ++ be32 retry.toUInt32 ++ be32 expire.toUInt32 ++ be32 minimum)
  | .dnskey _ flags protocol algorithm publicKey =>
    .ok (be16 flags ++ [protocol, algorithm] ++ publicKey)
  | .rrsig covered algorithm labels ttl inception expiration keyTag signer signature =>
    -- expiration first, then inception (RFC 4034 §3.1)
    .ok (be16 covered.code ++ [algorithm, labels] ++ be32 ttl ++ be32 expiration
      ++ be32 inception ++ be16 keyTag ++ signer.wire ++ signature)
  | .ds _ keyTag algorithm digestType digest =>
    .ok (be16 keyTag ++ [algorithm, digestType] ++ digest)
  | .nsec next bitmap => .ok (next.wire ++ bitmap)
  | .nsec3 hashAlgorithm flags iterations salt next bitmap => do
    let saltLen ← lengthOctet "an NSEC3 salt" salt
    let nextLen ← lengthOctet "an NSEC3 next hashed owner" next
    return [hashAlgorithm, flags] ++ be16 iterations ++ [saltLen] ++ salt ++ [nextLen] ++ next
      ++ bitmap
  | .unknown _ => .ok []

def ParsedRecord.encode (parsed : ParsedRecord) : Except WireError (Rtype × Octets) := do
  let rdata ← parsed.encodeRdata
  return (parsed.rtype, rdata)

def wrongWidth : WireError := .malformed "RDATA" "a fixed-width field has the wrong length"

def decodeA (rdata : Octets) : Except WireError ParsedRecord :=
  if h : rdata.length = 4 then .ok (.a ⟨rdata, h⟩) else .error wrongWidth

def decodeAaaa (rdata : Octets) : Except WireError ParsedRecord :=
  if h : rdata.length = 16 then .ok (.aaaa ⟨rdata, h⟩) else .error wrongWidth

def decodeOneName (wrap : Name → ParsedRecord) (data rdata : Octets) :
    Except WireError ParsedRecord := do
  let (name, _) ← Name.fromWireIn data rdata
  return wrap name

def decodeSoa (data rdata : Octets) : Except WireError ParsedRecord := do
  let (mname, rest) ← Name.fromWireIn data rdata
  let (rname, rest) ← Name.fromWireIn data rest
  let (serial, rest) ← readU32 rest
  let (refresh, rest) ← readI32 rest
  let (retry, rest) ← readI32 rest
  let (expire, rest) ← readI32 rest
  let (minimum, _) ← readU32 rest
  return .soa mname rname ⟨serial⟩ refresh retry expire minimum

def decodeSvcb (rtype : SvcbType) (data rdata : Octets) : Except WireError ParsedRecord := do
  let (priority, rest) ← readU16 rdata
  let (target, rest) ← Name.fromWireIn data rest
  let params ← decodeSvcParams none rest
  return .svcb rtype priority target params

def decodeMx (data rdata : Octets) : Except WireError ParsedRecord := do
  let (preference, rest) ← readU16 rdata
  let (exchange, _) ← Name.fromWireIn data rest
  return .mx preference exchange

def decodeTxt (rdata : Octets) : Except WireError ParsedRecord := do
  let strings ← decodeStrings rdata
  return .txt strings

/-- The two octets after a leading 16-bit field, in DS, DNSKEY and RRSIG alike. -/
def readPair (what : String) (rdata rest : Octets) : Except WireError (UInt8 × UInt8 × Octets) :=
  match rest with
  | first :: second :: after => .ok (first, second, after)
  | _ => .error (.truncated what 4 rdata.length)

def decodeDs (rtype : DsType) (rdata : Octets) : Except WireError ParsedRecord := do
  let (keyTag, rest) ← readU16 rdata
  let (algorithm, digestType, digest) ← readPair "DS RDATA" rdata rest
  return .ds rtype keyTag algorithm digestType digest

def decodeDnskey (rtype : DnskeyType) (rdata : Octets) : Except WireError ParsedRecord := do
  let (flags, rest) ← readU16 rdata
  let (protocol, algorithm, publicKey) ← readPair "DNSKEY RDATA" rdata rest
  return .dnskey rtype flags protocol algorithm publicKey

def decodeRrsig (data rdata : Octets) : Except WireError ParsedRecord := do
  let (covered, rest) ← readU16 rdata
  let (algorithm, labels, rest) ← readPair "RRSIG RDATA" rdata rest
  let (ttl, rest) ← readU32 rest
  let (expiration, rest) ← readU32 rest
  let (inception, rest) ← readU32 rest
  let (keyTag, rest) ← readU16 rest
  let (signer, signature) ← Name.fromWireIn data rest
  return .rrsig ⟨covered⟩ algorithm labels ttl inception expiration keyTag signer signature

def decodeNsec (data rdata : Octets) : Except WireError ParsedRecord := do
  let (next, bitmap) ← Name.fromWireIn data rdata
  return .nsec next bitmap

/-- NSEC3 (RFC 5155 §3.2): two length-prefixed octet strings among fixed fields. -/
def decodeNsec3 (rdata : Octets) : Except WireError ParsedRecord :=
  match rdata with
  | hashAlgorithm :: flags :: i₁ :: i₀ :: saltLen :: rest =>
    if rest.length < saltLen.toNat then
      .error (.malformed "NSEC3 RDATA" "the salt extends past the end of the record")
    else match rest.drop saltLen.toNat with
      | [] => .error (.malformed "NSEC3 RDATA" "there is no next-hashed-owner field")
      | nextLen :: tail =>
        if tail.length < nextLen.toNat then
          .error (.malformed "NSEC3 RDATA"
            "the next-hashed-owner field extends past the end of the record")
        else
          .ok (.nsec3 hashAlgorithm flags (ofBe16 i₁ i₀) (rest.take saltLen.toNat)
            (tail.take nextLen.toNat) (tail.drop nextLen.toNat))
  | _ => .error (.truncated "NSEC3 RDATA" 5 rdata.length)

/-- Decode wire-format RDATA found in the message `data`. -/
def ParsedRecord.decode (rtype : Rtype) (rdata data : Octets) : Except WireError ParsedRecord :=
  if rdata.isEmpty then .ok (.unknown rtype)
  else if rtype = A then decodeA rdata
  else if rtype = NS then decodeOneName .ns data rdata
  else if rtype = CNAME then decodeOneName .cname data rdata
  else if rtype = SOA then decodeSoa data rdata
  else if rtype = PTR then decodeOneName .ptr data rdata
  else if rtype = DNAME then decodeOneName .dname data rdata
  else if rtype = SVCB then decodeSvcb .svcb data rdata
  else if rtype = HTTPS then decodeSvcb .https data rdata
  else if rtype = MX then decodeMx data rdata
  else if rtype = TXT then decodeTxt rdata
  else if rtype = AAAA then decodeAaaa rdata
  else if rtype = DS then decodeDs .ds rdata
  else if rtype = CDS then decodeDs .cds rdata
  else if rtype = RRSIG then decodeRrsig data rdata
  else if rtype = NSEC then decodeNsec data rdata
  else if rtype = DNSKEY then decodeDnskey .dnskey rdata
  else if rtype = CDNSKEY then decodeDnskey .cdnskey rdata
  else if rtype = NSEC3 then decodeNsec3 rdata
  else .ok (.unknown rtype)

/-! ## Stored record data -/

/-- A record's data, stored as uncompressed, self-contained wire-format bytes. -/
structure RecordData where
  rtype : Rtype
  rdata : Octets
deriving DecidableEq

namespace RecordData

def fromWire (rtype : Rtype) (rdata data : Octets) : Except WireError RecordData := do
  let parsed ← ParsedRecord.decode rtype rdata data
  match parsed with
  | .unknown _ => return ⟨rtype, rdata⟩
  | parsed => do
    let (rtype, out) ← parsed.encode
    return ⟨rtype, out⟩

def fromParsed (parsed : ParsedRecord) : Except WireError RecordData := do
  let (rtype, rdata) ← parsed.encode
  return ⟨rtype, rdata⟩

def parse (data : RecordData) : Except WireError ParsedRecord :=
  ParsedRecord.decode data.rtype data.rdata data.rdata

def new (rtype : Rtype) (rdata : Octets) : Except WireError RecordData := do
  let stored : RecordData := ⟨rtype, rdata⟩
  let _ ← stored.parse
  return stored

end RecordData

/-! ## The round trip -/

def ParsedRecord.canonical : ParsedRecord → ParsedRecord
  | .svcb rtype priority target params => .svcb rtype priority target (sortParams params)
  | other => other

theorem toNat_ofNat_u16 {n : Nat} (h : n ≤ 65535) : (UInt16.ofNat n).toNat = n := by
  rw [UInt16.toNat_ofNat']
  omega

theorem toNat_ofNat_u8 {n : Nat} (h : n ≤ 255) : (UInt8.ofNat n).toNat = n := by
  rw [UInt8.toNat_ofNat']
  omega

variable {out : Octets} {stored : RecordData}

theorem decodeStrings_encodeStrings {strings : List Octets} (h : encodeStrings strings = .ok out) :
    decodeStrings out = .ok strings := by
  induction strings generalizing out with
  | nil =>
    cases h
    rw [decodeStrings]
  | cons s rest ih =>
    unfold encodeStrings at h
    split at h
    · cases h
    · rename_i hlen
      split at h
      · cases h
      · rename_i tail htail
        cases h
        have hnat : (UInt8.ofNat s.length).toNat = s.length := toNat_ofNat_u8 (by omega)
        rw [List.cons_append, decodeStrings, hnat, if_neg (by simp), List.drop_left, ih htail,
          List.take_left]

theorem decodeSvcParams_encodeSorted {params : List (UInt16 × Octets)} {previous : Option UInt16}
    (hsorted : params.Pairwise fun p q => p.1 ≤ q.1)
    (hprev : ∀ key ∈ previous, ∀ p ∈ params, key ≤ p.1) (h : encodeSorted previous params = .ok out) :
    decodeSvcParams previous out = .ok params := by
  induction params generalizing previous out with
  | nil =>
    cases h
    rw [decodeSvcParams]
  | cons param rest ih =>
    obtain ⟨key, value⟩ := param
    obtain ⟨hhead, htail⟩ := List.pairwise_cons.mp hsorted
    unfold encodeSorted at h
    split at h
    · cases h
    · rename_i hfresh
      split at h
      · cases h
      · rename_i hlen
        split at h
        · cases h
        · rename_i encoded hencoded
          cases h
          have hnat : (UInt16.ofNat value.length).toNat = value.length :=
            toNat_ofNat_u16 (by omega)
          have horder : previous.any (fun last => decide (key ≤ last)) = false := by
            cases previous with
            | none => rfl
            | some last =>
              -- sorted gives `last ≤ key`, and the repeat check excluded equality
              have hle := hprev last rfl (key, value) (List.mem_cons_self ..)
              have hne : last ≠ key := fun heq => hfresh (by rw [heq])
              simp only [Option.any_some, decide_eq_false_iff_not]
              exact fun hge => hne (UInt16.le_antisymm hle hge)
          have hrest := ih htail (fun k hk p hp => by cases hk; exact hhead p hp) hencoded
          simp only [be16, List.cons_append, List.nil_append, decodeSvcParams, ofBe16_be16]
          rw [hnat, if_neg (by simp), horder, if_neg (by simp), List.drop_left, hrest,
            List.take_left]

theorem sortParams_pairwise (params : List (UInt16 × Octets)) :
    (sortParams params).Pairwise fun p q => p.1 ≤ q.1 := by
  have h : (sortParams params).Pairwise fun p q => decide (p.1 ≤ q.1) = true := by
    apply List.pairwise_mergeSort
    · grind
    · simp [UInt16.le_total]
  exact h.imp fun hle => of_decide_eq_true hle

theorem decodeSvcParams_encodeSvcParams {params : List (UInt16 × Octets)}
    (h : encodeSvcParams params = .ok out) :
    decodeSvcParams none out = .ok (sortParams params) :=
  decodeSvcParams_encodeSorted (sortParams_pairwise params) (by simp) h

theorem lengthOctet_eq_ok {what : String} {field : Octets} {octet : UInt8}
    (h : lengthOctet what field = .ok octet) : octet.toNat = field.length := by
  unfold lengthOctet at h
  split at h
  · cases h
  · cases h
    exact toNat_ofNat_u8 (by omega)

theorem decodeNsec3_encode {hashAlgorithm flags saltLen nextLen : UInt8} {iterations : UInt16}
    {salt next bitmap : Octets} (hsalt : saltLen.toNat = salt.length)
    (hnext : nextLen.toNat = next.length) :
    decodeNsec3 ([hashAlgorithm, flags] ++ be16 iterations ++ [saltLen] ++ salt ++ [nextLen] ++ next
      ++ bitmap) = .ok (.nsec3 hashAlgorithm flags iterations salt next bitmap) := by
  simp only [be16, List.cons_append, List.nil_append, List.append_assoc, decodeNsec3, ofBe16_be16]
  rw [hsalt, if_neg (by simp), List.drop_left, List.take_left]
  simp only
  rw [hnext, if_neg (by simp), List.drop_left, List.take_left]

variable {parsed : ParsedRecord}

/-- **RDATA round trip.** What a typed record encodes to, if anything, decodes in
any message to the same record, SvcParams in wire order. -/
theorem ParsedRecord.decode_encodeRdata {rdata : Octets} (data : Octets)
    (h : parsed.encodeRdata = .ok rdata) (hne : rdata ≠ []) :
    ParsedRecord.decode parsed.rtype rdata data = .ok parsed.canonical := by
  have hempty : ¬ rdata.isEmpty = true := by rwa [List.isEmpty_iff]
  rw [ParsedRecord.decode, if_neg hempty]
  cases parsed with
  | a addr =>
    cases h
    exact dif_pos addr.length_ok
  | aaaa addr =>
    cases h
    exact dif_pos addr.length_ok
  | ns name =>
    cases h
    show decodeOneName .ns data name.wire = _
    rw [decodeOneName, ← List.append_nil name.wire, Name.fromWireIn_wire]
    rfl
  | cname name =>
    cases h
    show decodeOneName .cname data name.wire = _
    rw [decodeOneName, ← List.append_nil name.wire, Name.fromWireIn_wire]
    rfl
  | ptr name =>
    cases h
    show decodeOneName .ptr data name.wire = _
    rw [decodeOneName, ← List.append_nil name.wire, Name.fromWireIn_wire]
    rfl
  | dname name =>
    cases h
    show decodeOneName .dname data name.wire = _
    rw [decodeOneName, ← List.append_nil name.wire, Name.fromWireIn_wire]
    rfl
  | soa mname rname serial refresh retry expire minimum =>
    cases h
    show decodeSoa data _ = _
    simp only [decodeSoa, List.append_assoc]
    rw [Name.fromWireIn_wire]
    simp only [bind, Except.bind]
    rw [Name.fromWireIn_wire]
    simp only [readU32_be32, readI32_be32]
    rw [← List.append_nil (be32 minimum), readU32_be32]
    rfl
  | svcb rtype priority target params =>
    obtain ⟨encoded, hencoded, rfl⟩ : ∃ encoded, encodeSvcParams params = .ok encoded ∧
        rdata = be16 priority ++ target.wire ++ encoded := by
      simp only [encodeRdata] at h
      cases hparams : encodeSvcParams params with
      | error e => rw [hparams] at h; cases h
      | ok encoded => rw [hparams] at h; cases h; exact ⟨encoded, rfl, rfl⟩
    have hdecode : decodeSvcb rtype data (be16 priority ++ target.wire ++ encoded)
        = .ok (.svcb rtype priority target (sortParams params)) := by
      simp only [decodeSvcb, List.append_assoc, readU16_be16, bind, Except.bind]
      rw [Name.fromWireIn_wire]
      simp only [decodeSvcParams_encodeSvcParams hencoded]
      rfl
    cases rtype with
    | svcb => exact hdecode
    | https => exact hdecode
  | mx preference exchange =>
    cases h
    show decodeMx data _ = _
    simp only [decodeMx, readU16_be16, bind, Except.bind]
    rw [← List.append_nil exchange.wire, Name.fromWireIn_wire]
    rfl
  | txt strings =>
    show decodeTxt _ = _
    simp only [encodeRdata] at h
    split at h
    · cases h
    · rw [decodeTxt, decodeStrings_encodeStrings h]
      rfl
  | dnskey rtype flags protocol algorithm publicKey =>
    cases h
    have hdecode : decodeDnskey rtype (be16 flags ++ [protocol, algorithm] ++ publicKey)
        = .ok (.dnskey rtype flags protocol algorithm publicKey) := by
      simp only [decodeDnskey, List.append_assoc, readU16_be16, bind, Except.bind]
      rfl
    cases rtype with
    | dnskey => exact hdecode
    | cdnskey => exact hdecode
  | rrsig covered algorithm labels ttl inception expiration keyTag signer signature =>
    cases h
    show decodeRrsig data _ = _
    simp only [decodeRrsig, List.append_assoc, readU16_be16, bind, Except.bind, List.cons_append,
      List.nil_append, readPair, readU32_be32]
    rw [Name.fromWireIn_wire]
    rfl
  | ds rtype keyTag algorithm digestType digest =>
    cases h
    have hdecode : decodeDs rtype (be16 keyTag ++ [algorithm, digestType] ++ digest)
        = .ok (.ds rtype keyTag algorithm digestType digest) := by
      simp only [decodeDs, List.append_assoc, readU16_be16, bind, Except.bind]
      rfl
    cases rtype with
    | ds => exact hdecode
    | cds => exact hdecode
  | nsec next bitmap =>
    cases h
    show decodeNsec data _ = _
    rw [decodeNsec, Name.fromWireIn_wire]
    rfl
  | nsec3 hashAlgorithm flags iterations salt next bitmap =>
    show decodeNsec3 _ = _
    simp only [encodeRdata, bind, Except.bind] at h
    split at h
    · cases h
    · rename_i saltLen hsalt
      split at h
      · cases h
      · rename_i nextLen hnext
        cases h
        exact decodeNsec3_encode (lengthOctet_eq_ok hsalt) (lengthOctet_eq_ok hnext)
  | unknown rtype =>
    cases h
    exact absurd rfl hne

/-! ## What decoding can yield -/

def decodedTypes : List Rtype :=
    [A, NS, CNAME, SOA, PTR, DNAME, SVCB, HTTPS, MX, TXT, AAAA, DS, CDS, RRSIG, NSEC, DNSKEY,
    CDNSKEY, NSEC3]

def ParsedRecord.isUnknown : ParsedRecord → Bool
  | .unknown _ => true
  | _ => false

section Inversion

variable {data rdata : Octets} {parsed : ParsedRecord}

theorem decodeA_eq_ok (h : decodeA rdata = .ok parsed) :
    parsed.rtype = A ∧ parsed.isUnknown = false := by
  unfold decodeA at h
  split at h
  · cases h; exact ⟨rfl, rfl⟩
  · cases h

theorem decodeAaaa_eq_ok (h : decodeAaaa rdata = .ok parsed) :
    parsed.rtype = AAAA ∧ parsed.isUnknown = false := by
  unfold decodeAaaa at h
  split at h
  · cases h; exact ⟨rfl, rfl⟩
  · cases h

theorem decodeOneName_eq_ok {wrap : Name → ParsedRecord}
    (h : decodeOneName wrap data rdata = .ok parsed) : ∃ name, parsed = wrap name := by
  obtain ⟨⟨name, _⟩, -, h⟩ := except_bind_eq_ok.mp h
  cases h
  exact ⟨name, rfl⟩

theorem decodeSoa_eq_ok (h : decodeSoa data rdata = .ok parsed) :
    parsed.rtype = SOA ∧ parsed.isUnknown = false := by
  unfold decodeSoa at h
  obtain ⟨⟨mname, _⟩, -, h⟩ := except_bind_eq_ok.mp h
  obtain ⟨⟨rname, _⟩, -, h⟩ := except_bind_eq_ok.mp h
  obtain ⟨⟨serial, _⟩, -, h⟩ := except_bind_eq_ok.mp h
  obtain ⟨⟨refresh, _⟩, -, h⟩ := except_bind_eq_ok.mp h
  obtain ⟨⟨retry, _⟩, -, h⟩ := except_bind_eq_ok.mp h
  obtain ⟨⟨expire, _⟩, -, h⟩ := except_bind_eq_ok.mp h
  obtain ⟨⟨minimum, _⟩, -, h⟩ := except_bind_eq_ok.mp h
  cases h
  exact ⟨rfl, rfl⟩

theorem decodeSvcb_eq_ok {rtype : SvcbType} (h : decodeSvcb rtype data rdata = .ok parsed) :
    parsed.rtype = rtype.rtype ∧ parsed.isUnknown = false := by
  unfold decodeSvcb at h
  obtain ⟨⟨priority, _⟩, -, h⟩ := except_bind_eq_ok.mp h
  obtain ⟨⟨target, _⟩, -, h⟩ := except_bind_eq_ok.mp h
  obtain ⟨params, -, h⟩ := except_bind_eq_ok.mp h
  cases h
  exact ⟨rfl, rfl⟩

theorem decodeMx_eq_ok (h : decodeMx data rdata = .ok parsed) :
    parsed.rtype = MX ∧ parsed.isUnknown = false := by
  unfold decodeMx at h
  obtain ⟨⟨preference, _⟩, -, h⟩ := except_bind_eq_ok.mp h
  obtain ⟨⟨exchange, _⟩, -, h⟩ := except_bind_eq_ok.mp h
  cases h
  exact ⟨rfl, rfl⟩

theorem decodeTxt_eq_ok (h : decodeTxt rdata = .ok parsed) :
    parsed.rtype = TXT ∧ parsed.isUnknown = false := by
  obtain ⟨strings, -, h⟩ := except_bind_eq_ok.mp h
  cases h
  exact ⟨rfl, rfl⟩

theorem decodeDs_eq_ok {rtype : DsType} (h : decodeDs rtype rdata = .ok parsed) :
    parsed.rtype = rtype.rtype ∧ parsed.isUnknown = false := by
  unfold decodeDs at h
  obtain ⟨⟨keyTag, _⟩, -, h⟩ := except_bind_eq_ok.mp h
  obtain ⟨⟨algorithm, digestType, digest⟩, -, h⟩ := except_bind_eq_ok.mp h
  cases h
  exact ⟨rfl, rfl⟩

theorem decodeDnskey_eq_ok {rtype : DnskeyType} (h : decodeDnskey rtype rdata = .ok parsed) :
    parsed.rtype = rtype.rtype ∧ parsed.isUnknown = false := by
  unfold decodeDnskey at h
  obtain ⟨⟨flags, _⟩, -, h⟩ := except_bind_eq_ok.mp h
  obtain ⟨⟨protocol, algorithm, publicKey⟩, -, h⟩ := except_bind_eq_ok.mp h
  cases h
  exact ⟨rfl, rfl⟩

theorem decodeRrsig_eq_ok (h : decodeRrsig data rdata = .ok parsed) :
    parsed.rtype = RRSIG ∧ parsed.isUnknown = false := by
  unfold decodeRrsig at h
  obtain ⟨⟨covered, _⟩, -, h⟩ := except_bind_eq_ok.mp h
  obtain ⟨⟨algorithm, labels, _⟩, -, h⟩ := except_bind_eq_ok.mp h
  obtain ⟨⟨ttl, _⟩, -, h⟩ := except_bind_eq_ok.mp h
  obtain ⟨⟨expiration, _⟩, -, h⟩ := except_bind_eq_ok.mp h
  obtain ⟨⟨inception, _⟩, -, h⟩ := except_bind_eq_ok.mp h
  obtain ⟨⟨keyTag, _⟩, -, h⟩ := except_bind_eq_ok.mp h
  obtain ⟨⟨signer, signature⟩, -, h⟩ := except_bind_eq_ok.mp h
  cases h
  exact ⟨rfl, rfl⟩

theorem decodeNsec_eq_ok (h : decodeNsec data rdata = .ok parsed) :
    parsed.rtype = NSEC ∧ parsed.isUnknown = false := by
  obtain ⟨⟨next, bitmap⟩, -, h⟩ := except_bind_eq_ok.mp h
  cases h
  exact ⟨rfl, rfl⟩

theorem decodeNsec3_eq_ok (h : decodeNsec3 rdata = .ok parsed) :
    parsed.rtype = NSEC3 ∧ parsed.isUnknown = false := by
  unfold decodeNsec3 at h
  split at h
  · split at h
    · cases h
    · split at h
      · cases h
      · split at h
        · cases h
        · cases h; exact ⟨rfl, rfl⟩
  · cases h

/-- **What decoding can yield**: an unknown record, for empty RDATA or a type with
no decoder; or else a typed record of the very TYPE that was asked for. -/
theorem ParsedRecord.decode_cases {rtype : Rtype}
    (h : ParsedRecord.decode rtype rdata data = .ok parsed) :
    (parsed = .unknown rtype ∧ (rdata = [] ∨ rtype ∉ decodedTypes)) ∨
      (rdata ≠ [] ∧ parsed.rtype = rtype ∧ parsed.isUnknown = false) := by
  unfold ParsedRecord.decode at h
  rcases ite_eq_iff.mp h with ⟨hempty, h⟩ | ⟨hempty, h⟩
  · cases h
    exact .inl ⟨rfl, .inl (List.isEmpty_iff.mp hempty)⟩
  have hne : rdata ≠ [] := fun h => hempty (List.isEmpty_iff.mpr h)
  have oneName : ∀ {wrap : Name → ParsedRecord}, decodeOneName wrap data rdata = .ok parsed →
      (∀ name, (wrap name).rtype = rtype ∧ (wrap name).isUnknown = false) →
      parsed.rtype = rtype ∧ parsed.isUnknown = false := by
    intro wrap h hwrap
    obtain ⟨name, rfl⟩ := decodeOneName_eq_ok h
    exact hwrap name
  -- one case per type code the source matches, in its order
  rcases ite_eq_iff.mp h with ⟨rfl, h⟩ | ⟨hA, h⟩
  · exact .inr ⟨hne, decodeA_eq_ok h⟩
  rcases ite_eq_iff.mp h with ⟨rfl, h⟩ | ⟨hNS, h⟩
  · exact .inr ⟨hne, oneName h fun _ => ⟨rfl, rfl⟩⟩
  rcases ite_eq_iff.mp h with ⟨rfl, h⟩ | ⟨hCNAME, h⟩
  · exact .inr ⟨hne, oneName h fun _ => ⟨rfl, rfl⟩⟩
  rcases ite_eq_iff.mp h with ⟨rfl, h⟩ | ⟨hSOA, h⟩
  · exact .inr ⟨hne, decodeSoa_eq_ok h⟩
  rcases ite_eq_iff.mp h with ⟨rfl, h⟩ | ⟨hPTR, h⟩
  · exact .inr ⟨hne, oneName h fun _ => ⟨rfl, rfl⟩⟩
  rcases ite_eq_iff.mp h with ⟨rfl, h⟩ | ⟨hDNAME, h⟩
  · exact .inr ⟨hne, oneName h fun _ => ⟨rfl, rfl⟩⟩
  rcases ite_eq_iff.mp h with ⟨rfl, h⟩ | ⟨hSVCB, h⟩
  · exact .inr ⟨hne, decodeSvcb_eq_ok h⟩
  rcases ite_eq_iff.mp h with ⟨rfl, h⟩ | ⟨hHTTPS, h⟩
  · exact .inr ⟨hne, decodeSvcb_eq_ok h⟩
  rcases ite_eq_iff.mp h with ⟨rfl, h⟩ | ⟨hMX, h⟩
  · exact .inr ⟨hne, decodeMx_eq_ok h⟩
  rcases ite_eq_iff.mp h with ⟨rfl, h⟩ | ⟨hTXT, h⟩
  · exact .inr ⟨hne, decodeTxt_eq_ok h⟩
  rcases ite_eq_iff.mp h with ⟨rfl, h⟩ | ⟨hAAAA, h⟩
  · exact .inr ⟨hne, decodeAaaa_eq_ok h⟩
  rcases ite_eq_iff.mp h with ⟨rfl, h⟩ | ⟨hDS, h⟩
  · exact .inr ⟨hne, decodeDs_eq_ok h⟩
  rcases ite_eq_iff.mp h with ⟨rfl, h⟩ | ⟨hCDS, h⟩
  · exact .inr ⟨hne, decodeDs_eq_ok h⟩
  rcases ite_eq_iff.mp h with ⟨rfl, h⟩ | ⟨hRRSIG, h⟩
  · exact .inr ⟨hne, decodeRrsig_eq_ok h⟩
  rcases ite_eq_iff.mp h with ⟨rfl, h⟩ | ⟨hNSEC, h⟩
  · exact .inr ⟨hne, decodeNsec_eq_ok h⟩
  rcases ite_eq_iff.mp h with ⟨rfl, h⟩ | ⟨hDNSKEY, h⟩
  · exact .inr ⟨hne, decodeDnskey_eq_ok h⟩
  rcases ite_eq_iff.mp h with ⟨rfl, h⟩ | ⟨hCDNSKEY, h⟩
  · exact .inr ⟨hne, decodeDnskey_eq_ok h⟩
  rcases ite_eq_iff.mp h with ⟨rfl, h⟩ | ⟨hNSEC3, h⟩
  · exact .inr ⟨hne, decodeNsec3_eq_ok h⟩
  cases h
  refine .inl ⟨rfl, .inr ?_⟩
  simp only [decodedTypes, List.mem_cons, List.not_mem_nil, or_false, not_or]
  exact ⟨hA, hNS, hCNAME, hSOA, hPTR, hDNAME, hSVCB, hHTTPS, hMX,
    hTXT, hAAAA, hDS, hCDS, hRRSIG, hNSEC, hDNSKEY, hCDNSKEY, hNSEC3⟩

theorem ParsedRecord.decode_opaque {rtype : Rtype} (h : rtype ∉ decodedTypes) :
    ParsedRecord.decode rtype rdata data = .ok (.unknown rtype) := by
  simp only [decodedTypes, List.mem_cons, List.not_mem_nil, or_false, not_or] at h
  obtain ⟨hA, hNS, hCNAME, hSOA, hPTR, hDNAME, hSVCB, hHTTPS, hMX, hTXT, hAAAA, hDS, hCDS, hRRSIG,
    hNSEC, hDNSKEY, hCDNSKEY, hNSEC3⟩ := h
  unfold ParsedRecord.decode
  rw [if_neg hA, if_neg hNS, if_neg hCNAME, if_neg hSOA, if_neg hPTR, if_neg hDNAME,
    if_neg hSVCB, if_neg hHTTPS, if_neg hMX, if_neg hTXT, if_neg hAAAA, if_neg hDS, if_neg hCDS,
    if_neg hRRSIG, if_neg hNSEC, if_neg hDNSKEY, if_neg hCDNSKEY, if_neg hNSEC3, ite_self]

end Inversion

/-- **What reading RDATA off the wire can store**: the octets verbatim, for empty
RDATA or a type with no decoder; or else the encoding of a typed record of that
TYPE. -/
theorem RecordData.fromWire_cases {rtype : Rtype} {rdata data : Octets}
    (h : RecordData.fromWire rtype rdata data = .ok stored) :
    (stored = ⟨rtype, rdata⟩ ∧ (rdata = [] ∨ rtype ∉ decodedTypes)) ∨
      ∃ parsed : ParsedRecord, parsed.isUnknown = false ∧ parsed.rtype = rtype ∧
        stored.rtype = rtype ∧ parsed.encodeRdata = .ok stored.rdata := by
  unfold RecordData.fromWire at h
  obtain ⟨parsed, hdecode, h⟩ := except_bind_eq_ok.mp h
  rcases ParsedRecord.decode_cases hdecode with ⟨rfl, hwhy⟩ | ⟨-, hrtype, hknown⟩
  · cases h
    exact .inl ⟨rfl, hwhy⟩
  · have hencode : (parsed.encode >>= fun (rtype, out) => pure ⟨rtype, out⟩) = .ok stored := by
      cases parsed <;> first | exact h | cases hknown
    obtain ⟨⟨rtype', out⟩, hparsed, hstored⟩ := except_bind_eq_ok.mp hencode
    obtain ⟨encoded, hencoded, hpair⟩ := except_bind_eq_ok.mp hparsed
    cases hpair
    cases hstored
    exact .inr ⟨parsed, hknown, hrtype, hrtype, hencoded⟩

theorem RecordData.fromParsed_eq_ok (h : RecordData.fromParsed parsed = .ok stored) :
    stored.rtype = parsed.rtype ∧ parsed.encodeRdata = .ok stored.rdata := by
  obtain ⟨⟨rtype, out⟩, hencode, h⟩ := except_bind_eq_ok.mp h
  obtain ⟨encoded, hencoded, hpair⟩ := except_bind_eq_ok.mp hencode
  cases hpair
  cases h
  exact ⟨rfl, hencoded⟩

/-- **Stored octets decode as their TYPE**, to the record they were built from. -/
theorem RecordData.fromParsed_parse (h : RecordData.fromParsed parsed = .ok stored)
    (hne : stored.rdata ≠ []) :
    stored.parse = .ok parsed.canonical := by
  obtain ⟨hrtype, hencoded⟩ := RecordData.fromParsed_eq_ok h
  rw [RecordData.parse, hrtype]
  exact ParsedRecord.decode_encodeRdata _ hencoded hne

end Rdns.Core
