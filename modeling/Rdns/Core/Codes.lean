import Rdns.Lib.Octets

/-!
# Rdns — The numbers a message is written in

`rdns-core/src/codes.rs`, `record_types.rs` and the wire half of `error.rs`:
opcodes, classes, types, TTLs, serials, response codes, and the four ways a
message can fail to decode.

The three open enumerations (`OpCode`, `QueryClass`, `ResponseCode`) keep a value
they have no name for in an `other` constructor. The source states that such a
value is never one that has a name — the conversions are each other's inverse —
so the constructor here carries that fact, and `from`/`to` are mutually inverse
with no side condition.
-/

namespace Rdns.Core

open Rdns.Lib

/-- A message, record, or name that does not decode (`WireError`). -/
inductive WireError where
  | truncated (what : String) (need remain : Nat)
  | tooLong (what : String) (limit actual : Nat)
  | unsupported (what : String)
  | malformed (what detail : String)
deriving DecidableEq, Repr

/-- Zone text that is refused (`ZoneError`). -/
inductive ZoneError where
  | syntaxAt (line : Nat) (detail : String)
  | invalid (detail : String)
  | io (path : String)
  | encoding (name : String) (source : WireError)
deriving DecidableEq, Repr

variable {α ε β : Type} {p : Prop} {x : Except ε α} {good : α → Prop} {f : α → Except ε β}

theorem except_bind_eq_ok {b : β} : (x >>= f) = .ok b ↔ ∃ a, x = .ok a ∧ f a = .ok b := by
  constructor
  · intro h
    cases x with
    | error e => cases h
    | ok a => exact ⟨a, rfl, h⟩
  · rintro ⟨a, rfl, hf⟩
    exact hf

theorem mapError_eq_ok {ε' : Type} {f : ε → ε'} {a : α} : x.mapError f = .ok a ↔ x = .ok a := by
  cases x with
  | error e => exact ⟨fun h => (by cases h), fun h => (by cases h)⟩
  | ok b => exact ⟨fun h => congrArg _ (Except.ok.inj h), fun h => congrArg _ (Except.ok.inj h)⟩

theorem mem_of_mapM_ok {xs : List α} {ys : List β} (h : xs.mapM f = .ok ys) {y : β} (hy : y ∈ ys) :
    ∃ x ∈ xs, f x = .ok y := by
  induction xs generalizing ys with
  | nil =>
    cases h
    cases hy
  | cons x xs ih =>
    rw [List.mapM_cons] at h
    obtain ⟨first, hfirst, h⟩ := except_bind_eq_ok.mp h
    obtain ⟨rest, hrest, h⟩ := except_bind_eq_ok.mp h
    cases h
    rcases List.mem_cons.mp hy with rfl | hy
    · exact ⟨x, List.mem_cons_self, hfirst⟩
    · obtain ⟨x', hx', hf⟩ := ih hrest hy
      exact ⟨x', List.mem_cons_of_mem _ hx', hf⟩

theorem exists_of_mapM_ok {xs : List α} {ys : List β} (h : xs.mapM f = .ok ys) {x : α} (hx : x ∈ xs) :
    ∃ y ∈ ys, f x = .ok y := by
  induction xs generalizing ys with
  | nil => cases hx
  | cons first xs ih =>
    rw [List.mapM_cons] at h
    obtain ⟨y, hy, h⟩ := except_bind_eq_ok.mp h
    obtain ⟨rest, hrest, h⟩ := except_bind_eq_ok.mp h
    cases h
    rcases List.mem_cons.mp hx with rfl | hmem
    · exact ⟨y, List.mem_cons_self, hy⟩
    · obtain ⟨z, hz, hfz⟩ := ih hrest hmem
      exact ⟨z, List.mem_cons_of_mem _ hz, hfz⟩

def Decides {α ε : Type} (x : Except ε α) (fits : Prop) (good : α → Prop) : Prop :=
  (fits → ∃ a, x = .ok a ∧ good a) ∧ (¬ fits → ∃ e, x = .error e)

theorem Decides.bind {k : α → Except ε β} {q : Prop} {good' : β → Prop} (hx : Decides x p good)
    (hk : ∀ a, good a → Decides (k a) q good') :
    Decides (x >>= k) (p ∧ q) good' := by
  by_cases hp : p
  · obtain ⟨a, ha, hgood⟩ := hx.1 hp
    subst ha
    exact ⟨fun h => (hk a hgood).1 h.2, fun h => (hk a hgood).2 fun hq => h ⟨hp, hq⟩⟩
  · obtain ⟨e, he⟩ := hx.2 hp
    subst he
    exact ⟨fun h => absurd h.1 hp, fun _ => ⟨e, rfl⟩⟩

theorem Decides.bind_ok {k : α → Except ε β} {good' : β → Prop} (hx : Decides x p good)
    (hk : ∀ a, good a → ∃ b, k a = .ok b ∧ good' b) :
    Decides (x >>= k) p good' := by
  refine ⟨fun hp => ?_, fun hp => ?_⟩
  · obtain ⟨a, ha, hgood⟩ := hx.1 hp
    subst ha
    exact hk a hgood
  · obtain ⟨e, he⟩ := hx.2 hp
    subst he
    exact ⟨e, rfl⟩

theorem Decides.congr {q : Prop} (h : Decides x p good) (hpq : p ↔ q) : Decides x q good :=
  ⟨fun hq => h.1 (hpq.mpr hq), fun hq => h.2 fun hp => hq (hpq.mp hp)⟩

theorem decides_true {a : α} (hx : x = .ok a) (hgood : good a) : Decides x True good :=
  ⟨fun _ => ⟨a, hx, hgood⟩, fun h => absurd trivial h⟩

theorem Decides.ok_iff (h : Decides x p good) : (∃ a, x = .ok a ∧ good a) ↔ p := by
  refine ⟨fun ⟨a, ha, _⟩ => ?_, h.1⟩
  by_contra hp
  obtain ⟨e, he⟩ := h.2 hp
  rw [ha] at he
  cases he

/-! ## OPCODE -/

def namedOpcodes : List UInt8 := [0, 1, 2, 4, 5]

/-- The four-bit OPCODE of RFC 1035 §4.1.1. -/
inductive OpCode where
  | query
  | iQuery
  | status
  | notify
  | update
  | other (value : UInt8) (unnamed : value ∉ namedOpcodes ∧ value.toNat < 16)
deriving DecidableEq

def lowNibble (value : UInt8) : UInt8 := UInt8.ofNat (value.toNat % 16)

theorem toNat_lowNibble (value : UInt8) : (lowNibble value).toNat = value.toNat % 16 := by
  rw [lowNibble, UInt8.toNat_ofNat']
  omega

theorem lowNibble_lt (value : UInt8) : (lowNibble value).toNat < 16 := by
  rw [toNat_lowNibble]
  omega

def OpCode.ofNibble (nibble : UInt8) (fits : nibble.toNat < 16) : OpCode :=
  if unnamed : nibble ∉ namedOpcodes then .other nibble ⟨unnamed, fits⟩
  else match nibble.toNat with
    | 1 => .iQuery
    | 2 => .status
    | 4 => .notify
    | 5 => .update
    | _ => .query

def OpCode.fromU8 (value : UInt8) : OpCode :=
  .ofNibble (lowNibble value) (lowNibble_lt value)

def OpCode.toU8 : OpCode → UInt8
  | .query => 0
  | .iQuery => 1
  | .status => 2
  | .notify => 4
  | .update => 5
  | .other value _ => value

theorem OpCode.toU8_lt (opcode : OpCode) : opcode.toU8.toNat < 16 := by
  cases opcode with
  | other value unnamed => exact unnamed.2
  | _ => decide

theorem OpCode.fromU8_of_lowNibble {value : UInt8} {opcode : OpCode}
    (h : lowNibble value = opcode.toU8) : OpCode.fromU8 value = opcode := by
  have ofNibble_toU8 : ∀ nibble fits, nibble = opcode.toU8 →
      OpCode.ofNibble nibble fits = opcode := by
    rintro nibble fits rfl
    cases opcode with
    | other value unnamed => exact dif_pos unnamed.1
    | _ => rfl
  exact ofNibble_toU8 _ _ h

/-! ## CLASS and QCLASS -/

def namedClasses : List UInt16 := [1, 3, 4, 254, 255]

/-- The class a *question* asks for (RFC 6895 §3.2). -/
inductive QueryClass where
  | «in»
  | ch
  | hs
  | none
  | any
  | other (value : UInt16) (unnamed : value ∉ namedClasses)
deriving DecidableEq

def QueryClass.fromU16 (value : UInt16) : QueryClass :=
  if unnamed : value ∉ namedClasses then .other value unnamed
  else match value.toNat with
    | 3 => .ch
    | 4 => .hs
    | 254 => .none
    | 255 => .any
    | _ => .in

def QueryClass.toU16 : QueryClass → UInt16
  | .in => 1
  | .ch => 3
  | .hs => 4
  | .none => 254
  | .any => 255
  | .other value _ => value

@[simp]
theorem QueryClass.fromU16_toU16 (qclass : QueryClass) :
    QueryClass.fromU16 qclass.toU16 = qclass := by
  cases qclass with
  | other value unnamed => exact dif_pos unnamed
  | _ => rfl

@[simp]
theorem QueryClass.toU16_fromU16 (value : UInt16) :
    (QueryClass.fromU16 value).toU16 = value := by
  by_cases unnamed : value ∉ namedClasses
  · rw [fromU16, dif_pos unnamed, toU16]
  · simp only [namedClasses, List.mem_cons, List.not_mem_nil, or_false, not_not] at unnamed
    rcases unnamed with rfl | rfl | rfl | rfl | rfl <;> rfl

/-- The class a *record* is in (RFC 1035 §3.2.4). -/
structure Class where
  code : UInt16
deriving DecidableEq, Repr

def Class.IN : Class := ⟨1⟩
def Class.CH : Class := ⟨3⟩
def Class.HS : Class := ⟨4⟩

def QueryClass.matches (qclass : QueryClass) (cls : Class) : Bool :=
  qclass == .any || qclass.toU16 == cls.code

/-! ## TYPE and QTYPE -/

/-- The type a *record* has (RFC 1035 §3.2.1). -/
structure Rtype where
  code : UInt16
deriving DecidableEq, Repr

namespace RecordTypes

def A : Rtype := ⟨1⟩
def NS : Rtype := ⟨2⟩
def CNAME : Rtype := ⟨5⟩
def SOA : Rtype := ⟨6⟩
def PTR : Rtype := ⟨12⟩
def MX : Rtype := ⟨15⟩
def TXT : Rtype := ⟨16⟩
def AAAA : Rtype := ⟨28⟩
def DNAME : Rtype := ⟨39⟩
def OPT : Rtype := ⟨41⟩
def DS : Rtype := ⟨43⟩
def RRSIG : Rtype := ⟨46⟩
def NSEC : Rtype := ⟨47⟩
def DNSKEY : Rtype := ⟨48⟩
def NSEC3 : Rtype := ⟨50⟩
def NSEC3PARAM : Rtype := ⟨51⟩
def CDS : Rtype := ⟨59⟩
def CDNSKEY : Rtype := ⟨60⟩
def SVCB : Rtype := ⟨64⟩
def HTTPS : Rtype := ⟨65⟩
def IXFR : Rtype := ⟨251⟩
def AXFR : Rtype := ⟨252⟩
def ANY : Rtype := ⟨255⟩

end RecordTypes

def Rtype.isMeta (rtype : Rtype) : Bool :=
  rtype == RecordTypes.ANY || rtype == RecordTypes.AXFR || rtype == RecordTypes.IXFR

/-- The type a *question* asks for (RFC 1035 §3.2.3). -/
structure Qtype where
  code : UInt16
deriving DecidableEq, Repr

def Qtype.ANY : Qtype := ⟨255⟩
def Qtype.AXFR : Qtype := ⟨252⟩
def Qtype.IXFR : Qtype := ⟨251⟩

def Qtype.of (rtype : Rtype) : Qtype := ⟨rtype.code⟩

def Qtype.matches (qtype : Qtype) (rtype : Rtype) : Bool :=
  if qtype = Qtype.ANY then
    !(rtype == RecordTypes.RRSIG || rtype == RecordTypes.NSEC || rtype == RecordTypes.NSEC3)
  else qtype.code == rtype.code

def Qtype.is (qtype : Qtype) (rtype : Rtype) : Bool :=
  qtype.code == rtype.code

/-! ## TTL and SERIAL -/

structure Ttl where
  secs : UInt32
deriving DecidableEq, Repr

/-- A TTL as it came off the wire, clamped per RFC 2181 §8: the field is signed
there, and a negative one is zero. -/
def Ttl.fromWire (seconds : UInt32) : Ttl :=
  ⟨if seconds.toNat < 2147483648 then seconds else 0⟩

/-- The lesser of the SOA's own TTL and its MINIMUM (RFC 2308 §5). -/
def Ttl.negativeAnswer (soaTtl : Ttl) (minimum : UInt32) : Ttl :=
  ⟨if soaTtl.secs < minimum then soaTtl.secs else minimum⟩

theorem Ttl.fromWire_secs {ttl : Ttl} (h : ttl.secs.toNat < 2147483648) :
    Ttl.fromWire ttl.secs = ttl := by
  rw [Ttl.fromWire, if_pos h]

/-- A zone's version number; RFC 1982 sequence space, so not ordered. -/
structure Serial where
  value : UInt32
deriving DecidableEq, Repr

/-- RFC 1982 §3.2: the forward distance is in the first half of the space, and
equal is not newer. -/
def Serial.isNewerThan (serial other : Serial) : Bool :=
  let forward := serial.value - other.value
  forward != 0 && forward.toNat < 2147483648

def Serial.wrappingAdd (serial : Serial) (increment : UInt32) : Serial :=
  ⟨serial.value + increment⟩

/-! ## RCODE -/

def namedRcodes : List UInt16 :=
  [0, 1, 2, 3, 4, 5, 6, 7, 8, 9, 10, 11, 16, 17, 18, 19, 20, 21, 22, 23]

/-- A response code: the 12-bit value of RFC 6891 §6.1.3. -/
inductive ResponseCode where
  | ok
  | formatError
  | serverFailure
  | noSuchDomain
  | notImplemented
  | refused
  | domainExistsForSomeReason
  | resourceRecordSetExistsForSomeReason
  | noSuchResourceRecordSet
  | notAuthorized
  | nameNotInZone
  | dsoTypeNotImplemented
  | badOptVersion
  | badKey
  | badTime
  | badTkeyMode
  | badName
  | badAlgorithm
  | badTruncation
  | badCookie
  | other (value : UInt16) (unnamed : value ∉ namedRcodes)
deriving DecidableEq

def ResponseCode.fromU16 (value : UInt16) : ResponseCode :=
  if unnamed : value ∉ namedRcodes then .other value unnamed
  else match value.toNat with
    | 1 => .formatError
    | 2 => .serverFailure
    | 3 => .noSuchDomain
    | 4 => .notImplemented
    | 5 => .refused
    | 6 => .domainExistsForSomeReason
    | 7 => .resourceRecordSetExistsForSomeReason
    | 8 => .noSuchResourceRecordSet
    | 9 => .notAuthorized
    | 10 => .nameNotInZone
    | 11 => .dsoTypeNotImplemented
    | 16 => .badOptVersion
    | 17 => .badKey
    | 18 => .badTime
    | 19 => .badTkeyMode
    | 20 => .badName
    | 21 => .badAlgorithm
    | 22 => .badTruncation
    | 23 => .badCookie
    | _ => .ok

def ResponseCode.toU16 : ResponseCode → UInt16
  | .ok => 0
  | .formatError => 1
  | .serverFailure => 2
  | .noSuchDomain => 3
  | .notImplemented => 4
  | .refused => 5
  | .domainExistsForSomeReason => 6
  | .resourceRecordSetExistsForSomeReason => 7
  | .noSuchResourceRecordSet => 8
  | .notAuthorized => 9
  | .nameNotInZone => 10
  | .dsoTypeNotImplemented => 11
  | .badOptVersion => 16
  | .badKey => 17
  | .badTime => 18
  | .badTkeyMode => 19
  | .badName => 20
  | .badAlgorithm => 21
  | .badTruncation => 22
  | .badCookie => 23
  | .other value _ => value

@[simp]
theorem ResponseCode.fromU16_toU16 (rcode : ResponseCode) :
    ResponseCode.fromU16 rcode.toU16 = rcode := by
  cases rcode with
  | other value unnamed => exact dif_pos unnamed
  | _ => rfl

@[simp]
theorem ResponseCode.toU16_fromU16 (value : UInt16) :
    (ResponseCode.fromU16 value).toU16 = value := by
  by_cases unnamed : value ∉ namedRcodes
  · rw [fromU16, dif_pos unnamed, toU16]
  · simp only [namedRcodes, List.mem_cons, List.not_mem_nil, or_false, not_not] at unnamed
    rcases unnamed with rfl | rfl | rfl | rfl | rfl | rfl | rfl | rfl | rfl | rfl | rfl | rfl |
      rfl | rfl | rfl | rfl | rfl | rfl | rfl | rfl <;> rfl

end Rdns.Core
