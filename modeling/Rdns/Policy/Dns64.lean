import Rdns.Policy.PolicyZone

/-!
# Rdns — An AAAA for a name that has none

`rdns/src/dns64.rs`: where an IPv4 address sits inside an IPv6 one (RFC 6052 §2.2), which answers
count as none, and the records that are made of an A answer (RFC 6147 §5.1).
-/

namespace Rdns.Policy

open Rdns.Lib Rdns.Core Rdns.Present

def embeddedOctets (len : Nat) : Option { slots : List Nat // slots.length = 4 } :=
  if len = 32 then some ⟨[4, 5, 6, 7], rfl⟩
  else if len = 40 then some ⟨[5, 6, 7, 9], rfl⟩
  else if len = 48 then some ⟨[6, 7, 9, 10], rfl⟩
  else if len = 56 then some ⟨[7, 9, 10, 11], rfl⟩
  else if len = 64 then some ⟨[9, 10, 11, 12], rfl⟩
  else if len = 96 then some ⟨[12, 13, 14, 15], rfl⟩
  else none

structure Nat64Prefix where
  octets : Octets
  len : Nat
  slots : { slots : List Nat // slots.length = 4 }
  sixteen : octets.length = 16
  legal : embeddedOctets len = some slots

theorem length_foldl_set (slots : List (Nat × UInt8)) (octets : Octets) :
    (slots.foldl (fun octets slot => octets.set slot.1 slot.2) octets).length = octets.length := by
  induction slots generalizing octets with
  | nil => rfl
  | cons slot rest ih => rw [List.foldl_cons, ih, List.length_set]

namespace Nat64Prefix

variable (nat64 : Nat64Prefix)

def embed (v4 : Ipv4Addr) : Ipv6Addr where
  octets := (nat64.slots.val.zip v4.octets).foldl (fun octets slot => octets.set slot.1 slot.2) nat64.octets
  length_ok := (length_foldl_set _ _).trans nat64.sixteen

def extract (v6 : Ipv6Addr) : Option Ipv4Addr :=
  let whole := nat64.len / 8
  if v6.octets.take whole ≠ nat64.octets.take whole then none
  else if nat64.len < 96 ∧ v6.octets.getD 8 0 ≠ 0 then none
  else some ⟨nat64.slots.val.map fun slot => v6.octets.getD slot 0, (List.length_map _).trans nat64.slots.property⟩

end Nat64Prefix

/-- A v6 prefix: its octets and how many bits of them count. -/
structure Ipv6Range where
  addr : Ipv6Addr
  bits : Nat

def Ipv6Range.holds (range : Ipv6Range) (addr : Ipv6Addr) : Bool :=
  bigEndian addr.octets / 2 ^ (128 - range.bits) == bigEndian range.addr.octets / 2 ^ (128 - range.bits)

/-- The DNS64 policy in force: the prefix, and the AAAA answers that are read as no answer. -/
structure Dns64 where
  nat64 : Nat64Prefix
  exclude : List Ipv6Range

def addressInIp6Arpa (qname : Name) : Option Ipv6Addr := do
  if qname.labelCount ≠ 34 then none
  else if !eqIgnoreAsciiCase (qname.labels.getD 32 []) (toBytes "ip6".toList) ||
      !eqIgnoreAsciiCase (qname.labels.getD 33 []) (toBytes "arpa".toList) then none
  else
    let nibbles ← (qname.labels.take 32).mapM fun label =>
      match label with
      | [digit] => toDigit 16 (charOf digit)
      | _ => none
    let octets := (List.range 16).map fun i =>
      UInt8.ofNat (nibbles.getD (31 - 2 * i) 0 * 16 + nibbles.getD (30 - 2 * i) 0)
    if h : octets.length = 16 then some ⟨octets, h⟩ else none

namespace Dns64

variable (dns64 : Dns64)

def excluded (addr : Ipv6Addr) : Bool := dns64.exclude.any fun range => range.holds addr

def answered (answers : List ResourceRecord) : Bool :=
  answers.any fun rr =>
    match rr.rdata.parse with
    | .ok (.aaaa addr) => !dns64.excluded addr
    | _ => false

def synthesizeOne (ttlCap : Option Ttl) (record : ResourceRecord) : Option ResourceRecord :=
  match record.rdata.parse with
  | .ok (.a v4) =>
    match RecordData.fromParsed (.aaaa (dns64.nat64.embed v4)) with
    | .ok rdata =>
      let ttl := match ttlCap with
        | some cap => if cap.secs < record.ttl.secs then cap else record.ttl
        | none => record.ttl
      some { record with ttl, rdata }
    | .error _ => none
  | .ok (.cname _) => some record
  | _ => none

def synthesize (aAnswer : List ResourceRecord) (ttlCap : Option Ttl) : List ResourceRecord :=
  aAnswer.filterMap (dns64.synthesizeOne ttlCap)

def reverseTarget (qname : Name) : Option Name := do
  let v6 ← addressInIp6Arpa qname
  let v4 ← dns64.nat64.extract v6
  (fromPresentation (joined '.' (v4.octets.reverse.map fun octet => decimal octet.toNat) ++
    ".in-addr.arpa.".toList)).toOption

end Dns64

end Rdns.Policy
