import Rdns.Core.RdataGrowth
import Rdns.Core.Relay

/-!
# Rdns — The RDATA arena

`rdns-core/src/record_data.rs`: every record's RDATA in one append-only run of octets, each record
a span of it. A span keeps its length in 16 bits; `push` casts to them, and `push_parsed` checks
the length after the octets are already in the arena.
-/

namespace Rdns.Core

open Rdns.Lib RecordTypes

/-! ## Encoding into a buffer -/

def encodeStringsInto (out : Octets) : List Octets → Octets × Except WireError Unit
  | [] => (out, .ok ())
  | s :: rest =>
    if s.length > 255 then (out, .error (.tooLong "a TXT character-string" 255 s.length))
    else encodeStringsInto (out ++ [UInt8.ofNat s.length] ++ s) rest

/-- `ParsedRecord::encode_into`: the buffer after it, and what it returns. -/
def ParsedRecord.encodeInto (parsed : ParsedRecord) (out : Octets) : Octets × Except WireError Rtype :=
  match parsed with
  | .svcb rtype priority target params =>
    let out := out ++ be16 priority ++ target.wire
    match encodeSvcParams params with
    | .error e => (out, .error e)
    | .ok encoded => (out ++ encoded, .ok rtype.rtype)
  | .txt strings =>
    if strings.isEmpty then
      (out, .error (.malformed "a TXT record" "it must carry at least one character-string"))
    else
      let (out, written) := encodeStringsInto out strings
      (out, written.map fun _ => TXT)
  | .nsec3 hashAlgorithm flags iterations salt next bitmap =>
    let out := out ++ [hashAlgorithm, flags] ++ be16 iterations
    match lengthOctet "an NSEC3 salt" salt with
    | .error e => (out, .error e)
    | .ok saltLen =>
      let out := out ++ [saltLen] ++ salt
      match lengthOctet "an NSEC3 next hashed owner" next with
      | .error e => (out, .error e)
      | .ok nextLen => (out ++ [nextLen] ++ next ++ bitmap, .ok NSEC3)
  | other =>
    match other.encodeRdata with
    | .error e => (out, .error e)
    | .ok rdata => (out ++ rdata, .ok other.rtype)

def Appends {α : Type} (out : Octets) (whole : Except WireError Octets) (value : α)
    (written : Octets × Except WireError α) : Prop :=
  (∀ rdata, whole = .ok rdata → written = (out ++ rdata, .ok value)) ∧
    ∀ e, whole = .error e → out <+: written.1 ∧ written.2 = .error e

theorem encodeStringsInto_appends (out : Octets) (strings : List Octets) :
    Appends out (encodeStrings strings) () (encodeStringsInto out strings) := by
  induction strings generalizing out with
  | nil =>
    refine ⟨fun rdata h => ?_, fun e h => absurd h (by rintro ⟨⟩)⟩
    cases h
    rw [encodeStringsInto, List.append_nil]
  | cons s rest ih =>
    rw [encodeStrings, encodeStringsInto]
    split
    case isTrue =>
      refine ⟨fun rdata h => absurd h (by rintro ⟨⟩), fun e h => ?_⟩
      cases h
      exact ⟨List.prefix_rfl, rfl⟩
    case isFalse =>
      obtain ⟨hok, herr⟩ := ih (out ++ [UInt8.ofNat s.length] ++ s)
      cases hrest : encodeStrings rest with
      | error e =>
        refine ⟨fun rdata h => absurd h (by rintro ⟨⟩), fun e' h => ?_⟩
        obtain ⟨hleads, hresult⟩ := herr e hrest
        cases h
        have hmore := (List.append_assoc _ _ _ ▸ List.prefix_append out _).trans hleads
        exact ⟨hmore, hresult⟩
      | ok tail =>
        refine ⟨fun rdata h => ?_, fun e h => absurd h (by rintro ⟨⟩)⟩
        cases h
        rw [hok tail hrest]
        simp only [List.append_assoc, List.cons_append, List.nil_append]

/-- **Encoding into a buffer** appends what `encode` gives beside the TYPE; a failed one has
appended something or nothing. -/
theorem encodeInto_appends (parsed : ParsedRecord) (out : Octets) :
    Appends out parsed.encodeRdata parsed.rtype (parsed.encodeInto out) := by
  have plain : ∀ {rdata : Octets}, parsed.encodeRdata = .ok rdata →
      parsed.encodeInto out = (out ++ rdata, .ok parsed.rtype) →
      Appends out parsed.encodeRdata parsed.rtype (parsed.encodeInto out) := by
    intro rdata hencode hinto
    rw [hencode, hinto]
    exact ⟨fun rdata h => by cases h; rfl, fun e h => by cases h⟩
  cases parsed
  case svcb rtype priority target params =>
    rw [ParsedRecord.encodeRdata, ParsedRecord.encodeInto]
    cases hparams : encodeSvcParams params with
    | error e =>
      refine ⟨fun rdata h => (by cases h), fun e' h => ?_⟩
      cases h
      exact ⟨by rw [List.append_assoc]; exact List.prefix_append _ _, rfl⟩
    | ok encoded =>
      refine ⟨fun rdata h => ?_, fun e h => by cases h⟩
      cases h
      simp only [List.append_assoc]
      rfl
  case txt strings =>
    rw [ParsedRecord.encodeRdata, ParsedRecord.encodeInto]
    split
    case isTrue =>
      refine ⟨fun rdata h => (by cases h), fun e' h => ?_⟩
      cases h
      exact ⟨List.prefix_rfl, rfl⟩
    case isFalse =>
      obtain ⟨hok, herr⟩ := encodeStringsInto_appends out strings
      refine ⟨fun rdata h => ?_, fun e h => ?_⟩
      · simp only [hok rdata h]
        rfl
      · obtain ⟨hleads, hresult⟩ := herr e h
        refine ⟨hleads, ?_⟩
        show Except.map _ (encodeStringsInto out strings).2 = _
        rw [hresult]
        rfl
  case nsec3 hashAlgorithm flags iterations salt next bitmap =>
    rw [ParsedRecord.encodeRdata, ParsedRecord.encodeInto]
    cases hsalt : lengthOctet "an NSEC3 salt" salt with
    | error e =>
      refine ⟨fun rdata h => (by cases h), fun e' h => ?_⟩
      cases h
      exact ⟨by rw [List.append_assoc]; exact List.prefix_append _ _, rfl⟩
    | ok saltLen =>
      cases hnext : lengthOctet "an NSEC3 next hashed owner" next with
      | error e =>
        refine ⟨fun rdata h => (by cases h), fun e' h => ?_⟩
        cases h
        exact ⟨by simp only [List.append_assoc]; exact List.prefix_append _ _, rfl⟩
      | ok nextLen =>
        refine ⟨fun rdata h => ?_, fun e h => by cases h⟩
        cases h
        simp only [List.append_assoc]
        rfl
  all_goals exact plain rfl rfl

/-! ## The arena -/

structure RdataSpan where
  off : UInt32
  len : UInt16
  rtype : Rtype

structure RdataArena where
  bytes : Octets
deriving DecidableEq

namespace RdataArena

def new : RdataArena := ⟨[]⟩

def offset (arena : RdataArena) : Option UInt32 :=
  if arena.bytes.length < 2 ^ 32 then some (UInt32.ofNat arena.bytes.length) else none

/-- Copy octets in and give back where they went. The length is cast to its 16 bits. -/
def push (arena : RdataArena) (data : RecordData) : RdataArena × Option RdataSpan :=
  (⟨arena.bytes ++ data.rdata⟩,
    arena.offset.map fun off => ⟨off, UInt16.ofNat data.rdata.length, data.rtype⟩)

def pushParsed (arena : RdataArena) (parsed : ParsedRecord) :
    RdataArena × Option (Except WireError RdataSpan) :=
  let (bytes, encoded) := parsed.encodeInto arena.bytes
  match encoded with
  | .error e => (⟨bytes.take arena.bytes.length⟩, some (.error e))
  | .ok rtype =>
    let len := bytes.length - arena.bytes.length
    (⟨bytes⟩, arena.offset.map fun off =>
      if len ≤ 65535 then .ok ⟨off, UInt16.ofNat len, rtype⟩
      else .error (.tooLong "a record's RDATA" 65535 len))

def get (arena : RdataArena) (span : RdataSpan) : Option RecordData :=
  if span.off.toNat + span.len.toNat ≤ arena.bytes.length then
    some ⟨span.rtype, (arena.bytes.drop span.off.toNat).take span.len.toNat⟩
  else none

inductive Minted : RdataArena → List RdataSpan → Prop where
  | new : Minted new []
  | push {arena : RdataArena} {spans : List RdataSpan} {data : RecordData} {span : RdataSpan}
      (before : Minted arena spans) (minted : (arena.push data).2 = some span) :
      Minted (arena.push data).1 (span :: spans)
  | pushParsed {arena : RdataArena} {spans : List RdataSpan} {parsed : ParsedRecord} {span : RdataSpan}
      (before : Minted arena spans) (minted : (arena.pushParsed parsed).2 = some (.ok span)) :
      Minted (arena.pushParsed parsed).1 (span :: spans)
  | refused {arena : RdataArena} {spans : List RdataSpan} {parsed : ParsedRecord} {e : WireError}
      (before : Minted arena spans) (refused : (arena.pushParsed parsed).2 = some (.error e)) :
      Minted (arena.pushParsed parsed).1 spans

def InRange (arena : RdataArena) (span : RdataSpan) : Prop :=
  span.off.toNat + span.len.toNat ≤ arena.bytes.length

def Keeps (arena after : RdataArena) (span : RdataSpan) : Prop :=
  ∃ data, arena.get span = some data ∧ after.get span = some data

variable {arena : RdataArena} {span : RdataSpan}

theorem get_of_inRange (h : arena.InRange span) :
    arena.get span = some ⟨span.rtype, (arena.bytes.drop span.off.toNat).take span.len.toNat⟩ := if_pos h

/-- **What is appended leaves every span as it was.** -/
theorem keeps_of_leads {after : RdataArena} (hleads : arena.bytes <+: after.bytes)
    (h : arena.InRange span) : after.InRange span ∧ Keeps arena after span := by
  obtain ⟨more, hmore⟩ := hleads
  have hafter : after.InRange span := by
    rw [InRange, ← hmore, List.length_append]
    exact Nat.le_add_right_of_le h
  refine ⟨hafter, _, get_of_inRange h, ?_⟩
  rw [InRange] at h
  rw [get_of_inRange hafter, ← hmore, List.drop_append_of_le_length (by omega),
    List.take_append_of_le_length (by rw [List.length_drop]; omega)]

theorem offset_eq_some {off : UInt32} (h : arena.offset = some off) :
    off.toNat = arena.bytes.length := by
  rw [offset] at h
  split at h
  case isTrue hlt => grind [UInt32.toNat_ofNat']
  case isFalse => cases h

theorem offset_eq_none : arena.offset = none ↔ 2 ^ 32 ≤ arena.bytes.length := by
  rw [offset]
  split
  case isTrue hlt => exact iff_of_false (by rintro ⟨⟩) (by omega)
  case isFalse hge => exact iff_of_true rfl (by omega)

/-- **A span over what was just appended** reads it, if its length is the one that was appended. -/
theorem get_appended {off : UInt32} (hoff : arena.offset = some off) (rtype : Rtype)
    (rdata : Octets) (hlen : rdata.length ≤ 65535) :
    get ⟨arena.bytes ++ rdata⟩ ⟨off, UInt16.ofNat rdata.length, rtype⟩ = some ⟨rtype, rdata⟩ := by
  have hcast := toNat_ofNat_u16 hlen
  have hat := offset_eq_some hoff
  rw [get_of_inRange]
  · simp only [hcast, hat, List.drop_left, List.take_length]
  · simp only [InRange, hcast, hat, List.length_append, le_refl]

/-! ## What each call does -/

theorem push_eq_some {data : RecordData} (h : (arena.push data).2 = some span) :
    (arena.push data).1.InRange span := by
  obtain ⟨off, hoff, rfl⟩ := Option.map_eq_some_iff.mp h
  have hcast : (UInt16.ofNat data.rdata.length).toNat ≤ data.rdata.length := by
    rw [UInt16.toNat_ofNat']
    exact Nat.mod_le _ _
  show off.toNat + (UInt16.ofNat data.rdata.length).toNat ≤ (arena.bytes ++ data.rdata).length
  rw [offset_eq_some hoff, List.length_append]
  omega

/-- **What encoding into the arena does**: nothing, with the encoder's error; or it appends the
record's RDATA and then panics, refuses the length or mints the span. -/
theorem pushParsed_cases (arena : RdataArena) (parsed : ParsedRecord) :
    (∃ e, parsed.encodeRdata = .error e ∧ arena.pushParsed parsed = (arena, some (.error e))) ∨
      ∃ rdata, parsed.encodeRdata = .ok rdata ∧ (arena.pushParsed parsed).1 = ⟨arena.bytes ++ rdata⟩ ∧
        (arena.pushParsed parsed).2 = arena.offset.map fun off =>
          if rdata.length ≤ 65535 then .ok ⟨off, UInt16.ofNat rdata.length, parsed.rtype⟩
          else .error (.tooLong "a record's RDATA" 65535 rdata.length) := by
  obtain ⟨hok, herr⟩ := encodeInto_appends parsed arena.bytes
  cases hencode : parsed.encodeRdata with
  | error e =>
    obtain ⟨hleads, hresult⟩ := herr e hencode
    refine .inl ⟨e, rfl, ?_⟩
    have hback : (parsed.encodeInto arena.bytes).1.take arena.bytes.length = arena.bytes :=
      List.prefix_iff_eq_take.mp hleads |>.symm
    rw [pushParsed]
    simp only [hresult, hback]
  | ok rdata =>
    refine .inr ⟨rdata, rfl, ?_⟩
    rw [pushParsed]
    simp only [hok rdata hencode, List.length_append, Nat.add_sub_cancel_left, and_self]

theorem pushParsed_leads (arena : RdataArena) (parsed : ParsedRecord) :
    arena.bytes <+: (arena.pushParsed parsed).1.bytes := by
  rcases pushParsed_cases arena parsed with ⟨e, -, h⟩ | ⟨rdata, -, h, -⟩
  · have hsame : (arena.pushParsed parsed).1.bytes = arena.bytes := by rw [h]
    exact hsame.symm ▸ List.prefix_rfl
  · rw [h]
    exact List.prefix_append _ _

theorem pushParsed_eq_ok {parsed : ParsedRecord} (h : (arena.pushParsed parsed).2 = some (.ok span)) :
    ∃ rdata, parsed.encodeRdata = .ok rdata ∧ (arena.pushParsed parsed).1.get span = some ⟨parsed.rtype, rdata⟩ := by
  rcases pushParsed_cases arena parsed with ⟨e, -, hfail⟩ | ⟨rdata, hencode, hbytes, hresult⟩
  · rw [hfail] at h
    cases h
  · rw [hresult] at h
    obtain ⟨off, hoff, hspan⟩ := Option.map_eq_some_iff.mp h
    split at hspan
    case isTrue hlen => grind [get_appended]
    case isFalse => cases hspan

theorem inRange_of_get {data : RecordData} (h : arena.get span = some data) :
    arena.InRange span := by
  rw [get] at h
  split at h
  case isTrue hrange => exact hrange
  case isFalse => cases h

/-- **Every span an arena minted lies within it**, whatever was pushed or refused since. -/
theorem Minted.inRange {spans : List RdataSpan} (h : Minted arena spans) :
    ∀ span ∈ spans, arena.InRange span := by
  induction h with
  | new => exact fun span hspan => absurd hspan List.not_mem_nil
  | push before minted ih =>
    intro span hspan
    rcases List.mem_cons.mp hspan with rfl | hspan
    · exact push_eq_some minted
    · exact (keeps_of_leads (List.prefix_append _ _) (ih span hspan)).1
  | pushParsed before minted ih =>
    intro span hspan
    rcases List.mem_cons.mp hspan with rfl | hspan
    · obtain ⟨rdata, -, hget⟩ := pushParsed_eq_ok minted
      exact inRange_of_get hget
    · exact (keeps_of_leads (pushParsed_leads _ _) (ih span hspan)).1
  | refused before refused ih =>
    exact fun span hspan => (keeps_of_leads (pushParsed_leads _ _) (ih span hspan)).1

/-! ## Atomicity -/

/-- `push_parsed` on this arena and record is atomic: an error leaves the octets as they were, and
a span leaves the earlier ones as they were and reads what `from_parsed` gives. -/
def AtomicAt (arena : RdataArena) (spans : List RdataSpan) (parsed : ParsedRecord) : Prop :=
  (∀ e, (arena.pushParsed parsed).2 = some (.error e) → (arena.pushParsed parsed).1.bytes = arena.bytes) ∧
    ∀ span, (arena.pushParsed parsed).2 = some (.ok span) →
      (∀ earlier ∈ spans, Keeps arena (arena.pushParsed parsed).1 earlier) ∧
        ∃ stored, RecordData.fromParsed parsed = .ok stored ∧ (arena.pushParsed parsed).1.get span = some stored

theorem fromParsed_of_encodeRdata {parsed : ParsedRecord} {rdata : Octets} (h : parsed.encodeRdata = .ok rdata) :
    RecordData.fromParsed parsed = .ok ⟨parsed.rtype, rdata⟩ := by
  rw [RecordData.fromParsed, ParsedRecord.encode, h]
  rfl

/-- **When encoding into the arena is atomic**: the record does not encode, or to at most 65535
octets, or the arena is full and the call panics. -/
theorem pushParsed_atomic_iff {arena : RdataArena} {spans : List RdataSpan} (h : Minted arena spans)
    (parsed : ParsedRecord) :
    AtomicAt arena spans parsed ↔ ∀ stored, RecordData.fromParsed parsed = .ok stored →
      stored.rdata.length ≤ 65535 ∨ 2 ^ 32 ≤ arena.bytes.length := by
  constructor
  · rintro ⟨hatomic, -⟩ stored hstored
    obtain ⟨hrtype, hencode⟩ := RecordData.fromParsed_eq_ok hstored
    rcases pushParsed_cases arena parsed with ⟨e, hfail, -⟩ | ⟨rdata, hencode', hbytes, hresult⟩
    · rw [hencode] at hfail
      cases hfail
    · cases hencode.symm.trans hencode'
      by_contra hbad
      obtain ⟨hlong, hroom⟩ := not_or.mp hbad
      cases hoff : arena.offset with
      | none => exact hroom (offset_eq_none.mp hoff)
      | some off =>
        rw [hoff, Option.map_some, if_neg hlong] at hresult
        have hsame := hatomic _ hresult
        rw [hbytes, List.append_right_eq_self] at hsame
        rw [hsame] at hlong
        exact hlong (Nat.zero_le _)
  · intro hfits
    refine ⟨fun e herr => ?_, fun span hspan => ⟨fun earlier hearlier => ?_, ?_⟩⟩
    · rcases pushParsed_cases arena parsed with ⟨e, -, hfail⟩ | ⟨rdata, hencode, -, hresult⟩
      · rw [hfail]
      · rw [hresult] at herr
        obtain ⟨off, hoff, herr⟩ := Option.map_eq_some_iff.mp herr
        rcases hfits _ (fromParsed_of_encodeRdata hencode) with hlen | hfull
        · rw [if_pos hlen] at herr
          cases herr
        · rw [offset_eq_none.mpr hfull] at hoff
          cases hoff
    · exact (keeps_of_leads (pushParsed_leads _ _) (h.inRange earlier hearlier)).2
    · obtain ⟨rdata, hencode, hget⟩ := pushParsed_eq_ok hspan
      exact ⟨_, fromParsed_of_encodeRdata hencode, hget⟩

theorem minted_address : Minted ⟨[192, 0, 2, 1]⟩ [⟨0, 4, A⟩] :=
  @Minted.push new [] ⟨A, [192, 0, 2, 1]⟩ ⟨0, 4, A⟩ .new rfl

theorem pushParsed_atomic_mx : AtomicAt ⟨[192, 0, 2, 1]⟩ [⟨0, 4, A⟩] (.mx 10 Name.root) := by
  refine (pushParsed_atomic_iff minted_address _).mpr fun stored hstored => .inl ?_
  cases hstored
  decide

def longKey : ParsedRecord := .dnskey .dnskey 256 3 8 (List.replicate 65536 0)

/-- **A length that is refused stays in the arena.** -/
theorem pushParsed_not_atomic :
    ¬ ∀ arena spans, Minted arena spans → ∀ parsed, AtomicAt arena spans parsed := by
  intro h
  have hlen : ¬ (be16 256 ++ [3, 8] ++ List.replicate 65536 0 : Octets).length ≤ 65535 := by
    rw [List.length_append, List.length_replicate]
    omega
  rcases pushParsed_cases new longKey with ⟨e, hfail, -⟩ | ⟨rdata, hencode, hbytes, hresult⟩
  · cases hfail
  · cases hencode
    have hoff : new.offset = some 0 := rfl
    rw [hoff, Option.map_some, if_neg hlen] at hresult
    have hsame := (h new [] .new longKey).1 _ hresult
    rw [hbytes] at hsame
    refine hlen (le_of_eq_of_le (congrArg List.length hsame) (Nat.zero_le _))

/-! ## Records off the wire -/

def FaithfulAt (arena : RdataArena) (spans : List RdataSpan) (data : RecordData) : Prop :=
  (∃ span, (arena.push data).2 = some span ∧ (arena.push data).1.get span = some data) ∧
    ∀ earlier ∈ spans, Keeps arena (arena.push data).1 earlier

theorem faithfulAt_iff {spans : List RdataSpan} (h : Minted arena spans)
    (hroom : arena.bytes.length < 2 ^ 32) (data : RecordData) :
    FaithfulAt arena spans data ↔ data.rdata.length ≤ 65535 := by
  have hoff : arena.offset = some (UInt32.ofNat arena.bytes.length) := if_pos hroom
  constructor
  · rintro ⟨⟨span, hspan, hget⟩, -⟩
    rw [push, hoff] at hspan
    cases hspan
    have hrange := inRange_of_get hget
    rw [get_of_inRange hrange] at hget
    have hdata := congrArg (List.length ∘ RecordData.rdata) (Option.some.inj hget)
    simp only [Function.comp_apply, List.length_take] at hdata
    have hcast := (UInt16.ofNat data.rdata.length).toNat_lt
    omega
  · intro hlen
    refine ⟨⟨_, congrArg (Option.map _) hoff, get_appended hoff _ _ hlen⟩, fun earlier hearlier => ?_⟩
    exact (keeps_of_leads (List.prefix_append _ _) (h.inRange earlier hearlier)).2

/-- **When a record off the wire comes back out of the arena**: its RDATA, with the name it holds
spelled out, still fits 16 bits. RDLENGTH bounds the RDATA as it arrived, whatever the message. -/
theorem push_faithful_iff {arena : RdataArena} {spans : List RdataSpan} (h : Minted arena spans)
    (hroom : arena.bytes.length < 2 ^ 32) {data bytes rest : Octets} {parts : RecordParts}
    {stored : RecordData} (hread : readRecordParts bytes = .ok (parts, rest))
    (hstored : RecordData.fromWire parts.rtype parts.rdata data = .ok stored) :
    FaithfulAt arena spans stored ↔ ExpansionFits parts.rtype parts.rdata data := by
  rw [faithfulAt_iff h hroom]
  exact fits_iff (readRecordParts_rdata_le hread) hstored

/-! ## A signature longer than it arrived -/

def overlappingLabels : List Octets :=
  [List.replicate 13 0 ++ [192, 27] ++ List.replicate 48 0, List.replicate 63 0, List.replicate 63 0,
    List.replicate 61 0]

theorem overlappingLabels_ok : ∀ l ∈ overlappingLabels, ValidLabel l := by decide

theorem overlappingLabels_short : encodedLen overlappingLabels ≤ MAX_NAME_LEN := by decide +kernel

def overlappingName : Name := ⟨overlappingLabels, overlappingLabels_ok, overlappingLabels_short⟩

def overlappingSignature (more : Octets) : Octets :=
  List.replicate 48 0 ++ [63] ++ List.replicate 63 0 ++ [63] ++ List.replicate 63 0 ++ [61] ++
    List.replicate 61 0 ++ [0] ++ more

/-- An RRSIG whose original TTL starts with 63, the length of the first label. -/
def overlappingRdata (more : Octets) : Octets :=
  be16 1 ++ [8, 0] ++ be32 0x3F000000 ++ be32 0 ++ be32 0 ++ be16 0 ++
    (pointerOctets 27 ++ overlappingSignature more)

def overlappingMessage (more : Octets) : Octets :=
  [0, 0, 128, 0, 0, 0, 0, 1, 0, 0, 0, 0] ++
    ([0] ++ (be16 46 ++ be16 1 ++ be32 0) ++ be16 65512 ++ overlappingRdata more)

set_option maxRecDepth 4000 in
theorem overlapping_placed (more : Octets) :
    PlacedAt (overlappingMessage more) 27 (wireOf overlappingName.labels) := ⟨more, rfl⟩

theorem overlapping_resolves (more : Octets) :
    Resolves (overlappingMessage more) 41 (labelsOctets [] ++ pointerOctets 27) overlappingName.labels 1 :=
  .chained ⟨overlappingSignature more, rfl⟩ (fun _ h => absurd h List.not_mem_nil) (by decide)
    (by decide) (.plain (overlapping_placed more) overlappingLabels_ok)

def overlappingStored (more : Octets) : Octets :=
  be16 1 ++ [8, 0] ++ be32 0x3F000000 ++ be32 0 ++ be32 0 ++ be16 0 ++ overlappingName.wire ++
    overlappingSignature more

theorem length_overlappingStored (more : Octets) : (overlappingStored more).length = more.length + 512 := by
  have hname : encodedLen overlappingName.labels = 255 := by decide +kernel
  simp only [overlappingStored, overlappingSignature, List.length_append, List.length_replicate, List.length_cons,
    List.length_nil, length_be16, length_be32, Name.length_wire, hname]
  omega

theorem overlapping_fromWire (more : Octets) :
    RecordData.fromWire RRSIG (overlappingRdata more) (overlappingMessage more) =
      .ok ⟨RRSIG, overlappingStored more⟩ := by
  have hname := Name.fromWireIn_resolves (overlapping_resolves more) (by decide) (overlappingSignature more)
  have hdecode : ParsedRecord.decode RRSIG (overlappingRdata more) (overlappingMessage more) =
      .ok (.rrsig ⟨1⟩ 8 0 0x3F000000 0 0 0 overlappingName (overlappingSignature more)) := by
    show decodeRrsig (overlappingMessage more) (overlappingRdata more) = _
    rw [labelsOctets, List.nil_append] at hname
    simp only [decodeRrsig, overlappingRdata, List.append_assoc, readU16_be16, readU32_be32, bind, Except.bind,
      readPair, List.cons_append, List.nil_append, hname]
    rfl
  rw [RecordData.fromWire, hdecode]
  simp only [bind, Except.bind, ParsedRecord.encode, ParsedRecord.encodeRdata, pure, Except.pure]
  rfl

def paddedSignature : Octets := List.replicate 65253 0

theorem length_overlappingRdata (more : Octets) : (overlappingRdata more).length = more.length + 259 := by
  simp only [overlappingRdata, overlappingSignature, List.length_append, List.length_replicate, List.length_cons,
    List.length_nil, length_be16, length_be32, length_pointerOctets]
  omega

theorem length_overlappingMessage (more : Octets) : (overlappingMessage more).length = more.length + 282 := by
  simp only [overlappingMessage, List.length_append, length_overlappingRdata, length_be16, length_be32,
    List.length_cons, List.length_nil]
  omega

theorem length_paddedRdata : (overlappingRdata paddedSignature).length = 65512 := by
  rw [length_overlappingRdata, paddedSignature, List.length_replicate]

theorem overlapping_read :
    readRecordParts ([0] ++ (be16 46 ++ be16 1 ++ be32 0) ++ be16 65512 ++ overlappingRdata paddedSignature) =
      .ok (⟨⟨[], none⟩, RRSIG, 1, 0, overlappingRdata paddedSignature⟩, []) := by
  have hroot : ∀ tail, DName.tryFromBytes ([0] ++ tail) = .ok (⟨[], none⟩, tail) := DName.tryFromBytes_root
  have hfields := readRecordParts_fields 46 1 0 hroot (le_of_eq_of_le length_paddedRdata (by decide)) []
  rw [length_paddedRdata, List.append_nil, ← List.append_assoc] at hfields
  exact hfields

/-- **The arena shortens a signature**: 65765 octets of RDATA from a message of 65535 come back as
229. -/
theorem push_not_faithful :
    ¬ ∀ arena spans, Minted arena spans → arena.bytes.length < 2 ^ 32 →
      ∀ data : Octets, data.length ≤ 65535 → ∀ bytes parts rest, bytes <:+ data →
        readRecordParts bytes = .ok (parts, rest) →
        ∀ stored, RecordData.fromWire parts.rtype parts.rdata data = .ok stored →
          FaithfulAt arena spans stored := by
  intro h
  have hpadded : paddedSignature.length = 65253 := List.length_replicate
  have hlen : (overlappingMessage paddedSignature).length ≤ 65535 := by
    have hmessage := length_overlappingMessage paddedSignature
    omega
  have hfaithful := h new [] .new (by decide) _ hlen _ _ _ (List.suffix_append _ _) overlapping_read _
    (overlapping_fromWire paddedSignature)
  have hshort := (faithfulAt_iff .new (by decide) _).mp hfaithful
  rw [length_overlappingStored, hpadded] at hshort
  omega

/-- An MX whose exchange arrives as a pointer is kept in full, behind an address. -/
theorem push_faithful_pointer : FaithfulAt ⟨[192, 0, 2, 1]⟩ [⟨0, 4, A⟩] ⟨MX, [0, 10, 2, 97, 97, 0]⟩ := by
  have hroot : ∀ tail, DName.tryFromBytes ([0] ++ tail) = .ok (⟨[], none⟩, tail) := DName.tryFromBytes_root
  have hread := readRecordParts_fields MX.code 1 60 hroot (by decide : ([0, 10, 192, 0] : Octets).length ≤ 65535) []
  have hstored : RecordData.fromWire MX [0, 10, 192, 0] [2, 97, 97, 0] = .ok ⟨MX, [0, 10, 2, 97, 97, 0]⟩ := by
    decide +kernel
  refine (push_faithful_iff minted_address (by decide) hread hstored).mpr fun front hfront => ?_
  cases hfront

end RdataArena

end Rdns.Core
