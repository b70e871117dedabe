import Rdns.Lib.Buffer
import Rdns.Core.Record

/-!
# Rdns — Domain-name compression for message output

`rdns-core/src/compression.rs`, with `write_bytes` of `dname.rs`. The compressor
keeps every suffix it has written, as a range of an arena with the offset the
suffix went out at; a name is written up to the longest suffix already there,
then a pointer to it. Past `SCAN_LIMIT` suffixes the search goes through a hash
index instead of a scan.

Each writer has its plan (`namePlan`, `rdataPlan`) and the theorem that ties the
two (`writeName_implements`, `writeRdata_implements`).
-/

namespace Rdns.Core

open Rdns.Lib

def outputFull (need remain : Nat) : WireError :=
  .truncated "the output buffer" need remain

/-! ## The table -/

def SCAN_LIMIT : Nat := 128

/-- One suffix written: its octet range in the arena, and where it begins in the
message. -/
structure Suffix where
  start : Nat
  stop : Nat
  offset : UInt16
deriving DecidableEq

structure NameCompressor where
  arena : Octets
  seen : List Suffix
  index : List (UInt64 × Nat)
deriving DecidableEq

def foldedHash (bytes : Octets) : UInt64 :=
  bytes.foldl (fun hash byte =>
    (hash ^^^ UInt64.ofNat (toAsciiLowercase byte).toNat) * 0x100000001b3) 0xcbf29ce484222325

namespace NameCompressor

def new : NameCompressor := ⟨[], [], []⟩

def octetsOf (c : NameCompressor) (entry : Suffix) : Octets :=
  (c.arena.drop entry.start).take (entry.stop - entry.start)

def lookup (c : NameCompressor) (needle : Octets) : Option UInt16 :=
  if c.index.isEmpty then
    (c.seen.find? fun s => eqIgnoreAsciiCase (c.octetsOf s) needle).map Suffix.offset
  else
    match c.index.lookup (foldedHash needle) with
    | none => none
    | some i =>
      match c.seen[i]? with
      | none => none
      | some entry => if eqIgnoreAsciiCase (c.octetsOf entry) needle then some entry.offset else none

def note (c : NameCompressor) (i : Nat) : NameCompressor :=
  match c.seen[i]? with
  | none => c
  | some entry =>
    let hash := foldedHash (c.octetsOf entry)
    if (c.index.lookup hash).isSome then c else { c with index := (hash, i) :: c.index }

def indexFrom (c : NameCompressor) (first : Nat) : NameCompressor :=
  if c.index.isEmpty then
    if c.seen.length ≤ SCAN_LIMIT then c
    else (List.range c.seen.length).foldl note c
  else (List.range' first (c.seen.length - first)).foldl note c

/-- Forget every suffix at or past `at`, keeping the rest: `seen` is ordered by
offset. -/
def rewind (c : NameCompressor) (mark : Nat) : NameCompressor :=
  let keep := (c.seen.takeWhile fun s => s.offset.toNat < mark).length
  if keep = c.seen.length then c
  else { c with seen := c.seen.take keep, index := c.index.filter fun (_, i) => i < keep }

def matchSuffix (c : NameCompressor) (wireLen : Nat) : List Octets → Option (Nat × UInt16)
  | [] => none
  | label :: rest =>
    match c.lookup (wireOf (label :: rest)) with
    | some target => some (wireLen - encodedLen (label :: rest), target)
    | none => matchSuffix c wireLen rest

def freshSuffixes (wireLen base stop pos freshEnd : Nat) : List Octets → List Suffix
  | [] => []
  | label :: rest =>
    let start := wireLen - encodedLen (label :: rest)
    if start ≥ freshEnd then []
    else if pos + start ≤ POINTER_MASK then
      ⟨base + start, stop, UInt16.ofNat (pos + start)⟩
        :: freshSuffixes wireLen base stop pos freshEnd rest
    else freshSuffixes wireLen base stop pos freshEnd rest

def record (c : NameCompressor) (name : Name) (pos freshEnd : Nat) : NameCompressor :=
  if freshEnd > 0 then
    let base := c.arena.length
    let stop := base + name.wire.length
    indexFrom
      { c with
        arena := c.arena ++ name.wire
        seen := c.seen ++ freshSuffixes name.wire.length base stop pos freshEnd name.labels }
      c.seen.length
  else c

end NameCompressor

/-! ## Writing -/

abbrev WireM := WriteM NameCompressor WireError

def put (pos : Nat) (bytes : Octets) : WireM Nat :=
  writeBytes outputFull pos bytes

def freshEndOf (name : Name) (matched : Option (Nat × UInt16)) : Nat :=
  match matched with
  | some (start, _) => start
  | none => name.wire.length - 1

def writeName (name : Name) (pos : Nat) : WireM Nat :=
  if name.isRoot then put pos [0]
  else do
    let c ← getState
    let matched := c.matchSuffix name.wire.length name.labels
    let freshEnd := freshEndOf name matched
    setState (c.record name pos freshEnd)
    let out ← put pos (name.wire.take freshEnd)
    match matched with
    | some (_, target) => put out (pointerOctets target)
    | none => put out [0]

open RecordTypes in
/-- `NameCompressor::write_rdata`: embedded names are compressed, by `writeName`, only for the
types RFC 1035 defines; the rest goes out byte for byte. -/
def writeRdataBy {σ : Type} (writeName : Name → Nat → WriteM σ WireError Nat) (rtype : Rtype) (rdata : Octets)
    (pos : Nat) : WriteM σ WireError Nat :=
  let put := writeBytes outputFull
  if rtype = NS ∨ rtype = CNAME ∨ rtype = PTR then do
    let (name, rest) ← attempt (Name.fromWire rdata)
    let pos ← writeName name pos
    put pos rest
  else if rtype = SOA then do
    let (mname, rest) ← attempt (Name.fromWire rdata)
    let (rname, rest) ← attempt (Name.fromWire rest)
    let pos ← writeName mname pos
    let pos ← writeName rname pos
    put pos rest
  else if rtype = MX then
    if rdata.length < 2 then throw (.truncated "MX RDATA" 2 rdata.length)
    else do
      let pos ← put pos (rdata.take 2)
      let (exchange, rest) ← attempt (Name.fromWire (rdata.drop 2))
      let pos ← writeName exchange pos
      put pos rest
  else put pos rdata

def writeRdata (rtype : Rtype) (rdata : Octets) (pos : Nat) : WireM Nat :=
  writeRdataBy writeName rtype rdata pos

/-! ## The plans -/

abbrev WirePlan := Plan NameCompressor WireError

def nameOctets (c : NameCompressor) (name : Name) : Octets :=
  match c.matchSuffix name.wire.length name.labels with
  | some (start, target) => name.wire.take start ++ pointerOctets target
  | none => name.wire

def afterName (c : NameCompressor) (name : Name) (pos : Nat) : NameCompressor :=
  if name.isRoot then c
  else c.record name pos (freshEndOf name (c.matchSuffix name.wire.length name.labels))

def namePlan (name : Name) : WirePlan := fun c pos =>
  (nameOctets c name, .ok (afterName c name pos))

open RecordTypes in
def rdataPlan (rtype : Rtype) (rdata : Octets) : WirePlan :=
  if rtype = NS ∨ rtype = CNAME ∨ rtype = PTR then
    Plan.attempt (Name.fromWire rdata) fun (name, rest) => (namePlan name).seq (Plan.octets rest)
  else if rtype = SOA then
    Plan.attempt (Name.fromWire rdata) fun (mname, rest) =>
      Plan.attempt (Name.fromWire rest) fun (rname, rest) =>
        (namePlan mname).seq ((namePlan rname).seq (Plan.octets rest))
  else if rtype = MX then
    if rdata.length < 2 then Plan.fail (.truncated "MX RDATA" 2 rdata.length)
    else
      (Plan.octets (rdata.take 2)).seq <|
        Plan.attempt (Name.fromWire (rdata.drop 2)) fun (exchange, rest) =>
          (namePlan exchange).seq (Plan.octets rest)
  else Plan.octets rdata

theorem put_implements (bytes : Octets) :
    Implements outputFull (fun pos => put pos bytes) (Plan.octets bytes) :=
  implements_writeBytes outputFull bytes

theorem Name.wire_eq_take_append (name : Name) :
    name.wire = name.wire.take (name.wire.length - 1) ++ [0] := by
  have hlen : name.wire.length - 1 = (labelsOctets name.labels).length := by
    rw [Name.length_wire, encodedLen]
    omega
  rw [hlen, Name.wire, wireOf, List.take_left]

theorem writeName_implements (name : Name) :
    Implements outputFull (writeName name) (namePlan name) := by
  intro pos c
  show Emits _ _ _ _ (nameOctets c name) (.ok (afterName c name pos))
  unfold writeName
  by_cases hroot : name.isRoot = true
  · rw [if_pos hroot, afterName, if_pos hroot]
    have hlabels := Name.isRoot_iff.mp hroot
    have hbytes : nameOctets c name = [0] := by
      simp [nameOctets, hlabels, NameCompressor.matchSuffix, Name.wire, wireOf, labelsOctets]
    rw [hbytes]
    exact emits_writeBytes outputFull pos [0] c
  · rw [if_neg hroot, afterName, if_neg hroot]
    apply Emits.getState
    apply Emits.setState
    unfold nameOctets
    cases c.matchSuffix name.wire.length name.labels with
    | none =>
      refine Emits.congr ?_ (Name.wire_eq_take_append name).symm
      exact Emits.bind (emits_writeBytes outputFull pos _ _) (emits_writeBytes outputFull _ [0] _)
    | some found =>
      exact Emits.bind (emits_writeBytes outputFull pos _ _) (emits_writeBytes outputFull _ _ _)

theorem writeRdata_implements (rtype : Rtype) (rdata : Octets) :
    Implements outputFull (writeRdata rtype rdata) (rdataPlan rtype rdata) := by
  have oneName : ∀ x : Name × Octets,
      Implements outputFull (fun pos => writeName x.1 pos >>= fun pos => put pos x.2)
        ((namePlan x.1).seq (Plan.octets x.2)) :=
    fun x => (writeName_implements x.1).seq (put_implements x.2)
  have twoNames : ∀ (mname : Name) (x : Name × Octets),
      Implements outputFull
        (fun pos => writeName mname pos >>= fun pos => writeName x.1 pos >>= fun pos => put pos x.2)
        ((namePlan mname).seq ((namePlan x.1).seq (Plan.octets x.2))) :=
    fun mname x => (writeName_implements mname).seq (oneName x)
  intro pos c
  unfold rdataPlan writeRdata writeRdataBy
  split
  · exact Implements.attempt oneName (Name.fromWire rdata) pos c
  split
  · exact Implements.attempt
      (fun x => Implements.attempt (twoNames x.1) (Name.fromWire x.2)) (Name.fromWire rdata) pos c
  split
  · split
    · exact emits_throw outputFull pos c _
    · exact ((put_implements _).seq (Implements.attempt oneName (Name.fromWire _))) pos c
  · exact put_implements rdata pos c

end Rdns.Core
