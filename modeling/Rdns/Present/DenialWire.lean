import Rdns.Core.Name
import Rdns.Lib.Gaps
import Rdns.Lib.Text

/-!
# Rdns — The encodings a denial record is written in

`rdns-present/src/denial_wire.rs`: canonical name order, the sort key that files an NSEC
record, type bitmaps, and base32hex, which is how an NSEC3 record's owner carries its
hash.
-/

namespace Rdns.Present

open Rdns.Lib Rdns.Core

def NSEC3_HASH_LEN : Nat := 20

/-- The 20 octets a name hashes to (RFC 5155 §5), and the only length one can be. -/
structure Nsec3Hash where
  octets : Octets
  length_eq : octets.length = NSEC3_HASH_LEN
deriving DecidableEq

def Nsec3Hash.fromWire (octets : Octets) : Option Nsec3Hash :=
  if h : octets.length = NSEC3_HASH_LEN then some ⟨octets, h⟩ else none

def reversedLabels (name : Name) : List Octets := name.labels.reverse

def canonicalLabels (name : Name) : List Octets := (reversedLabels name).map foldCase

/-- Compare two names in DNSSEC canonical order (RFC 4034 §6.1). -/
def canonicalNameCmp (a b : Name) : Ordering :=
  compareOfLessAndEq (canonicalLabels a) (canonicalLabels b)

def canonicalSortKey (name : Name) : Octets :=
  (reversedLabels name).flatMap fun label => foldCase label ++ [0]

/-! ## Type bitmaps -/

def setTypeBit (bits : Octets) (bit : Nat) : Octets :=
  let byte := bit / 8
  let bits := bits ++ List.replicate (byte + 1 - bits.length) 0
  bits.set byte (bits.getD byte 0 ||| (0x80 >>> UInt8.ofNat (bit % 8)))

def noteType (windows : List (Nat × Octets)) (rtype : Rtype) : List (Nat × Octets) :=
  let window := rtype.code.toNat / 256
  let bit := rtype.code.toNat % 256
  if windows.any fun entry => entry.1 == window then
    windows.map fun entry => if entry.1 = window then (window, setTypeBit entry.2 bit) else entry
  else windows ++ [(window, setTypeBit [] bit)]

def buildTypeBitmap (types : List Rtype) : Octets :=
  ((types.foldl noteType []).mergeSort fun a b => a.1 ≤ b.1).flatMap fun (window, bits) =>
    UInt8.ofNat window :: UInt8.ofNat bits.length :: bits

def typeBitSet (bits : Octets) (bit : Nat) : Bool :=
  bits.getD (bit / 8) 0 &&& (0x80 >>> UInt8.ofNat (bit % 8)) != 0

def bitmapHasType (rest : Octets) (rtype : Rtype) : Bool :=
  match rest with
  | window :: len :: tail =>
    if len.toNat = 0 ∨ len.toNat > 32 ∨ tail.length < len.toNat then false
    else if window.toNat = rtype.code.toNat / 256 then
      typeBitSet (tail.take len.toNat) (rtype.code.toNat % 256)
    else bitmapHasType (tail.drop len.toNat) rtype
  | _ => false
termination_by rest.length
decreasing_by
  simp only [List.length_drop, List.length_cons]
  omega

def octetTypes (window byte : Nat) (bits : UInt8) : List Rtype :=
  (List.range 8).filterMap fun bit =>
    if bits &&& (0x80 >>> UInt8.ofNat bit) ≠ 0 then
      some ⟨UInt16.ofNat (window * 256 + byte * 8 + bit)⟩
    else none

def bitmapTypesExact (types : List Rtype) (rest : Octets) : Except (List Rtype) (List Rtype) :=
  match rest with
  | [] => .ok types
  | [_] => .error types
  | window :: len :: tail =>
    if len.toNat = 0 ∨ len.toNat > 32 ∨ tail.length < len.toNat then .error types
    else
      let found := (tail.take len.toNat).zipIdx.flatMap fun (bits, byte) =>
        octetTypes window.toNat byte bits
      bitmapTypesExact (types ++ found) (tail.drop len.toNat)
termination_by rest.length
decreasing_by
  simp only [List.length_drop, List.length_cons]
  omega

/-! ## base32hex -/

def base32hexDigit (value : Nat) : Char := Char.ofNat (if value < 10 then 48 + value else 55 + value)

def base32hexChunk (chunk : Octets) : Text :=
  let bits := (chunk ++ List.replicate (5 - chunk.length) 0).foldl
    (fun (acc : Nat) (octet : UInt8) => acc * 256 + octet.toNat) 0
  (List.range ((chunk.length * 8 + 4) / 5)).map fun i =>
    base32hexDigit (bits / 2 ^ (35 - i * 5) % 32)

def base32hexEncode (octets : Octets) : Text :=
  match octets with
  | [] => []
  | octet :: rest => base32hexChunk ((octet :: rest).take 5) ++ base32hexEncode (rest.drop 4)
termination_by octets.length
decreasing_by
  simp only [List.length_drop, List.length_cons]
  omega

def base32hexValue (c : UInt8) : Option UInt8 :=
  if 48 ≤ c ∧ c ≤ 57 then some (c - 48)
  else if 97 ≤ c ∧ c ≤ 118 then some (c - 97 + 10)
  else if 65 ≤ c ∧ c ≤ 86 then some (c - 65 + 10)
  else none

def base32hexLoop (acc : UInt64) (bits : Nat) (out : Octets) : Octets → Except WireError Octets
  | [] => .ok out
  | c :: rest =>
    match base32hexValue c with
    | none => .error (.malformed "base32hex text" "invalid character")
    | some value =>
      let acc := (acc <<< 5) ||| value.toUInt64
      let bits := bits + 5
      if bits ≥ 8 then
        base32hexLoop acc (bits - 8) (out ++ [(acc >>> UInt64.ofNat (bits - 8)).toUInt8]) rest
      else base32hexLoop acc bits out rest

def base32hexDecode (text : Octets) : Except WireError Octets :=
  base32hexLoop 0 0 [] text

end Rdns.Present
