import Rdns.Core.Compression

/-!
# Rdns — The message

`rdns-core/src/message.rs`, the record half of `record.rs`, `edns.rs`, and the
encoders of `response.rs` that `DnsMessage::to_bytes_with` and the response
writer share: header, question, record and OPT.

Bit fields of the source that never overlap are written as sums here: `a << 7 | b`
is `a * 128 + b` for a `b` below 128, and `x >> 3 & 0xf` is `x / 8 % 16`.
-/

namespace Rdns.Core

open Rdns.Lib RecordTypes

def CLASSIC_UDP_SIZE : Nat := 512

/-! ## The parts of a message -/

structure QuerySection where
  qname : Name
  qtype : Qtype
  qclass : QueryClass
deriving DecidableEq

structure ResourceRecord where
  name : Name
  cls : Class
  ttl : Ttl
  rdata : RecordData
deriving DecidableEq

/-- A single EDNS option (RFC 6891 §6.1.2), its data stored verbatim. -/
structure EdnsOption where
  code : UInt16
  data : Octets
deriving DecidableEq

/-- The EDNS0 OPT pseudo-record. The option list is held unparsed. -/
structure Edns where
  udpPayloadSize : UInt16
  version : UInt8
  doBit : Bool
  rdata : Octets
deriving DecidableEq

def MAX_EXTRA_TEXT : Nat := 128

/-- The reason beside the RCODE (RFC 8914): an INFO-CODE and UTF-8 text, bounded
by its constructor. -/
structure ExtendedError where
  infoCode : UInt16
  extraText : Octets
  bounded : extraText.length ≤ MAX_EXTRA_TEXT
deriving DecidableEq

def EDNS_OPTION_EXTENDED_ERROR : UInt16 := 15

structure DnsMessage where
  id : UInt16
  response : Bool
  opcode : OpCode
  authoritive : Bool
  truncation : Bool
  recursion : Bool
  recursionOk : Bool
  ad : Bool
  cd : Bool
  rcode : ResponseCode
  queries : List QuerySection
  answers : List ResourceRecord
  authorities : List ResourceRecord
  additionals : List ResourceRecord
  edns : Option Edns
deriving DecidableEq

def DnsMessage.records (m : DnsMessage) : List ResourceRecord :=
  m.answers ++ m.authorities ++ m.additionals

def EdnsOption.appendTo (option : EdnsOption) (rdata : Octets) : Except WireError Octets :=
  if option.data.length > 65535 then
    .error (.tooLong "EDNS option data" 65535 option.data.length)
  else .ok (rdata ++ be16 option.code ++ be16 (UInt16.ofNat option.data.length) ++ option.data)

def ExtendedError.toOption (error : ExtendedError) : EdnsOption :=
  ⟨EDNS_OPTION_EXTENDED_ERROR, be16 error.infoCode ++ error.extraText⟩

def Edns.withExtendedError (edns : Edns) (error : ExtendedError) : Except WireError Edns := do
  let rdata ← error.toOption.appendTo edns.rdata
  return { edns with rdata }

/-! ## Reading -/

def readMany {α : Type} (parse : Octets → Except WireError (α × Octets)) :
    Nat → Octets → Except WireError (List α × Octets)
  | 0, rest => .ok ([], rest)
  | n + 1, rest => do
    let (x, rest) ← parse rest
    let (xs, rest) ← readMany parse n rest
    return (x :: xs, rest)

def QuerySection.tryFromBytes (data bytes : Octets) : Except WireError (QuerySection × Octets) := do
  let (qname, rest) ← Name.fromWireIn data bytes
  let (qtype, rest) ← readU16 rest
  let (qclass, rest) ← readU16 rest
  return (⟨qname, ⟨qtype⟩, QueryClass.fromU16 qclass⟩, rest)

/-- The fields of one resource record, read straight off the wire. -/
structure RecordParts where
  name : DName
  rtype : Rtype
  cls : UInt16
  ttlBits : UInt32
  rdata : Octets

def readRecordParts (bytes : Octets) : Except WireError (RecordParts × Octets) := do
  let (name, rest) ← DName.tryFromBytes bytes
  let (rtype, rest) ← readU16 rest
  let (cls, rest) ← readU16 rest
  let (ttlBits, rest) ← readWord32 "i32" rest
  let (rdatalen, rest) ← readU16 rest
  if rest.length < rdatalen.toNat then
    throw (.truncated "RDATA" rdatalen.toNat rest.length)
  return (⟨name, ⟨rtype⟩, cls, ttlBits, rest.take rdatalen.toNat⟩, rest.drop rdatalen.toNat)

def ResourceRecord.fromParts (data : Octets) (parts : RecordParts) :
    Except WireError ResourceRecord := do
  let name ← decodeWire data parts.name
  let rdata ← RecordData.fromWire parts.rtype parts.rdata data
  return ⟨name, ⟨parts.cls⟩, Ttl.fromWire parts.ttlBits, rdata⟩

def ResourceRecord.tryFromBytes (data bytes : Octets) :
    Except WireError (ResourceRecord × Octets) := do
  let (parts, rest) ← readRecordParts bytes
  let rr ← ResourceRecord.fromParts data parts
  return (rr, rest)

def Edns.fromOpt (udpPayloadSize : UInt16) (flags : UInt32) (rdata : Octets) : Edns where
  udpPayloadSize := udpPayloadSize
  version := UInt8.ofNat (flags.toNat / 65536 % 256)
  doBit := flags.toNat / 32768 % 2 == 1
  rdata := rdata

/-- One record of the additional section: an ordinary record, or the OPT
pseudo-record it is not, with its raw flags word. -/
inductive Additional where
  | record (rr : ResourceRecord)
  | opt (edns : Edns) (flags : UInt32)

def Additional.tryFromBytes (data bytes : Octets) : Except WireError (Additional × Octets) := do
  let (parts, rest) ← readRecordParts bytes
  if parts.rtype = OPT then
    return (.opt (Edns.fromOpt parts.cls parts.ttlBits parts.rdata) parts.ttlBits, rest)
  else do
    let rr ← ResourceRecord.fromParts data parts
    return (.record rr, rest)

def readAdditionals (data : Octets) :
    Nat → Option (Edns × UInt16) → Octets →
      Except WireError (List ResourceRecord × Option (Edns × UInt16))
  | 0, edns, _ => .ok ([], edns)
  | n + 1, edns, rest => do
    let (item, rest) ← Additional.tryFromBytes data rest
    match item with
    | .record rr => do
      let (rrs, edns) ← readAdditionals data n edns rest
      return (rr :: rrs, edns)
    | .opt opt flags =>
      if edns.isSome then
        throw (.malformed "the additional section"
          "more than one OPT record; RFC 6891 §6.1.1 allows one")
      else readAdditionals data n (some (opt, UInt16.ofNat (flags.toNat / 16777216))) rest

def DnsMessage.tryFromBytes (data : Octets) : Except WireError DnsMessage :=
  match data with
  | id₁ :: id₀ :: hi :: lo :: qd₁ :: qd₀ :: an₁ :: an₀ :: ns₁ :: ns₀ :: ar₁ :: ar₀ :: rest => do
    let (queries, rest) ← readMany (QuerySection.tryFromBytes data) (ofBe16 qd₁ qd₀).toNat rest
    let (answers, rest) ← readMany (ResourceRecord.tryFromBytes data) (ofBe16 an₁ an₀).toNat rest
    let (authorities, rest) ←
      readMany (ResourceRecord.tryFromBytes data) (ofBe16 ns₁ ns₀).toNat rest
    let (additionals, opt) ← readAdditionals data (ofBe16 ar₁ ar₀).toNat none rest
    -- RCODE is 12 bits: 4 in the header, 8 in the OPT flags
    let extRcode := (opt.map fun (_, high) => high.toNat).getD 0
    return {
      id := ofBe16 id₁ id₀
      response := hi.toNat / 128 == 1
      opcode := OpCode.fromU8 (UInt8.ofNat (hi.toNat / 8))
      authoritive := hi.toNat / 4 % 2 == 1
      truncation := hi.toNat / 2 % 2 == 1
      recursion := hi.toNat % 2 == 1
      recursionOk := lo.toNat / 128 == 1
      ad := lo.toNat / 32 % 2 == 1
      cd := lo.toNat / 16 % 2 == 1
      rcode := ResponseCode.fromU16 (UInt16.ofNat (extRcode * 16 + lo.toNat % 16))
      queries, answers, authorities, additionals
      edns := opt.map Prod.fst }
  | _ => .error (.truncated "the DNS header" 12 data.length)

/-! ## Writing -/

def wireRcode (rcode : ResponseCode) (hasEdns : Bool) : Except WireError UInt16 :=
  let value := rcode.toU16
  if value.toNat > 0xfff then
    .error (.malformed "the header"
      s!"RCODE {value} does not fit the 12 bits RFC 6891 §6.1.3 gives it")
  else if value.toNat > 0xf ∧ hasEdns = false then
    .error (.malformed "the header"
      s!"extended RCODE {value} needs an EDNS0 OPT record to carry its high bits (RFC 6891 §6.1.3)")
  else .ok value

def sectionCount (len : Nat) (what : String) : Except WireError UInt16 :=
  if len > 65535 then .error (.tooLong what 65535 len) else .ok (UInt16.ofNat len)

structure Header where
  id : UInt16
  response : Bool
  opcode : OpCode
  authoritive : Bool
  truncation : Bool
  recursion : Bool
  recursionOk : Bool
  ad : Bool
  cd : Bool
  rcode : ResponseCode
deriving DecidableEq

structure Counts where
  qd : UInt16
  an : UInt16
  ns : UInt16
  ar : UInt16
deriving DecidableEq

def HEADER_LEN : Nat := 12

def headerOctets (header : Header) (rcode : UInt16) (counts : Counts) : Octets :=
  let hi := header.response.toNat * 128 + header.opcode.toU8.toNat % 16 * 8
    + header.authoritive.toNat * 4 + header.truncation.toNat * 2 + header.recursion.toNat
  let lo := header.recursionOk.toNat * 128 + header.ad.toNat * 32 + header.cd.toNat * 16
    + rcode.toNat % 16
  be16 header.id ++ [UInt8.ofNat hi, UInt8.ofNat lo]
    ++ be16 counts.qd ++ be16 counts.an ++ be16 counts.ns ++ be16 counts.ar

def writeHeader (header : Header) (rcode : UInt16) (counts : Counts) : WireM Nat := do
  let hi := header.response.toNat * 128 + header.opcode.toU8.toNat % 16 * 8
    + header.authoritive.toNat * 4 + header.truncation.toNat * 2 + header.recursion.toNat
  let lo := header.recursionOk.toNat * 128 + header.ad.toNat * 32 + header.cd.toNat * 16
    + rcode.toNat % 16
  let pos ← put 0 (be16 header.id)
  let pos ← put pos [UInt8.ofNat hi, UInt8.ofNat lo]
  let pos ← put pos (be16 counts.qd)
  let pos ← put pos (be16 counts.an)
  let pos ← put pos (be16 counts.ns)
  put pos (be16 counts.ar)

def writeQuery (q : QuerySection) (pos : Nat) : WireM Nat := do
  let pos ← writeName q.qname pos
  let pos ← put pos (be16 q.qtype.code)
  put pos (be16 q.qclass.toU16)

def writeRr (rr : ResourceRecord) (pos : Nat) : WireM Nat := do
  let pos ← writeName rr.name pos
  let pos ← put pos (be16 rr.rdata.rtype.code)
  let pos ← put pos (be16 rr.cls.code)
  let pos ← put pos (be32 rr.ttl.secs)
  let rdlenAt := pos
  let rdataAt ← put pos [0, 0]
  let pos ← writeRdata rr.rdata.rtype rr.rdata.rdata rdataAt
  if pos - rdataAt > 65535 then throw (.tooLong "RDATA" 65535 (pos - rdataAt))
  else do
    let _ ← put rdlenAt (be16 (UInt16.ofNat (pos - rdataAt)))
    return pos

/-- The extended RCODE, the version and the DO flag, packed as RFC 6891 §6.1.3 has
them. -/
def optFlags (edns : Edns) (rcode : UInt16) : UInt32 :=
  UInt32.ofNat (rcode.toNat / 16 % 256 * 16777216 + edns.version.toNat * 65536
    + edns.doBit.toNat * 32768)

def writeOpt (edns : Edns) (rcode : UInt16) (pos : Nat) : WireM Nat := do
  let pos ← put pos [0]
  let pos ← put pos (be16 OPT.code)
  let pos ← put pos (be16 edns.udpPayloadSize)
  let pos ← put pos (be32 (optFlags edns rcode))
  if edns.rdata.length > 65535 then throw (.tooLong "OPT RDATA" 65535 edns.rdata.length)
  else do
    let pos ← put pos (be16 (UInt16.ofNat edns.rdata.length))
    put pos edns.rdata

def DnsMessage.header (m : DnsMessage) : Header where
  id := m.id
  response := m.response
  opcode := m.opcode
  authoritive := m.authoritive
  truncation := m.truncation
  recursion := m.recursion
  recursionOk := m.recursionOk
  ad := m.ad
  cd := m.cd
  rcode := m.rcode

def DnsMessage.counts (m : DnsMessage) : Except WireError Counts := do
  let qd ← sectionCount m.queries.length "the question section"
  let an ← sectionCount m.answers.length "the answer section"
  let ns ← sectionCount m.authorities.length "the authority section"
  let ar ← sectionCount (m.additionals.length + m.edns.isSome.toNat) "the additional section"
  return ⟨qd, an, ns, ar⟩

def DnsMessage.toBytesWith (m : DnsMessage) : WireM Nat := do
  setState NameCompressor.new
  let rcode ← attempt (wireRcode m.rcode m.edns.isSome)
  let counts ← attempt m.counts
  let pos ← writeHeader m.header rcode counts
  let pos ← m.queries.foldlM (fun pos q => writeQuery q pos) pos
  let pos ← m.answers.foldlM (fun pos rr => writeRr rr pos) pos
  let pos ← m.authorities.foldlM (fun pos rr => writeRr rr pos) pos
  let pos ← m.additionals.foldlM (fun pos rr => writeRr rr pos) pos
  match m.edns with
  | some edns => writeOpt edns rcode pos
  | none => return pos

def DnsMessage.toBytes (m : DnsMessage) (output : Octets) : Except WireError Nat × Octets :=
  let (result, sink) := exec m.toBytesWith ⟨NameCompressor.new, output⟩
  (result, sink.buf)

end Rdns.Core
