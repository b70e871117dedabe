import Rdns.Core.RoundTrip

/-!
# Rdns — Writing a message that was read

A message `DnsMessage::try_from_bytes` accepted is written again: by a forwarder,
by a cache, by a secondary. The header always goes back (`tryFromBytes_carries`):
its RCODE was read out of twelve bits, its counts out of sixteen. A record's RDATA
is re-parsed by `NameCompressor::write_rdata` to compress the names in it, and the
decoder's own exception for an RDLENGTH of zero is one the writer does not make.
-/

namespace Rdns.Core

open Rdns.Lib RecordTypes

/-! ## Stored RDATA the compressor can write -/

def RecordData.Writable (stored : RecordData) : Prop :=
  ∀ c pos, ∃ body c', rdataPlan stored.rtype stored.rdata c pos = (body, .ok c')

theorem RecordData.writable_iff {stored : RecordData} :
    stored.Writable ↔ ∀ (c : NameCompressor) (pos : Nat) (buf : Octets),
      pos + stored.rdata.length ≤ buf.length →
      ∃ n sink, exec (writeRdata stored.rtype stored.rdata pos) ⟨c, buf⟩ = (.ok n, sink) := by
  have hlen := length_rdataPlan_le stored.rtype stored.rdata
  constructor
  · intro h c pos buf hroom
    obtain ⟨body, c', hplan⟩ := h c pos
    have hemits := writeRdata_implements stored.rtype stored.rdata pos c
    have hbody := hlen c pos
    rw [hplan] at hemits hbody
    exact ⟨_, _, hemits.done c' rfl buf (by simp only at hbody ⊢; omega)⟩
  · intro h c pos
    have hroom : pos ≤ (List.replicate (pos + stored.rdata.length) (0 : UInt8)).length := by
      rw [List.length_replicate]
      omega
    obtain ⟨n, sink, hexec⟩ := h c pos (List.replicate (pos + stored.rdata.length) 0)
      (by rw [List.length_replicate])
    obtain ⟨c', hout, -⟩ :=
      (writeRdata_implements stored.rtype stored.rdata pos c).exec_eq_ok hroom hexec
    exact ⟨_, c', Prod.ext rfl hout⟩

section Compressed

variable {rtype : Rtype}

theorem not_mem_compressedTypes (h : rtype ∉ compressedTypes) :
    ¬ (rtype = NS ∨ rtype = CNAME ∨ rtype = PTR) ∧ rtype ≠ SOA ∧ rtype ≠ MX := by
  simp only [compressedTypes, List.mem_cons, List.not_mem_nil, or_false, not_or] at h ⊢
  obtain ⟨hns, hcname, hptr, hsoa, hmx⟩ := h
  exact ⟨⟨hns, hcname, hptr⟩, hsoa, hmx⟩

theorem RecordData.writable_of_plain {stored : RecordData}
    (h : stored.rtype ∉ compressedTypes) : stored.Writable := by
  obtain ⟨hone, hsoa, hmx⟩ := not_mem_compressedTypes h
  intro c pos
  rw [rdataPlan, if_neg hone, if_neg hsoa, if_neg hmx]
  exact ⟨_, _, rfl⟩

theorem RecordData.not_writable_nil (h : rtype ∈ compressedTypes) :
    ¬ RecordData.Writable ⟨rtype, []⟩ := by
  have hnoName : ∃ e, Name.fromWire [] = .error e := by
    cases hread : Name.fromWire [] with
    | error e => exact ⟨e, rfl⟩
    | ok x =>
      have hsplit := (List.append_eq_nil_iff.mp (Name.fromWire_eq_ok hread).symm).1
      exact absurd hsplit (wireOf_ne_nil _)
  obtain ⟨e, hnoName⟩ := hnoName
  intro hwritable
  obtain ⟨body, c', hplan⟩ := hwritable NameCompressor.new 0
  simp only [compressedTypes, List.mem_cons, List.not_mem_nil, or_false] at h
  rcases h with rfl | rfl | rfl | rfl | rfl <;> unfold rdataPlan at hplan <;>
    first
    | cases hplan
    | simp [hnoName, Plan.attempt, Plan.fail, NS, CNAME, PTR,
        SOA] at hplan

theorem RecordData.writable_of_encode {parsed : ParsedRecord} {rdata : Octets}
    (hknown : parsed.isUnknown = false) (h : parsed.encodeRdata = .ok rdata) :
    RecordData.Writable ⟨parsed.rtype, rdata⟩ := by
  have hname : ∀ name : Name, Name.fromWire name.wire = .ok (name, []) := by
    intro name
    have hwire := Name.fromWire_wire name []
    rwa [List.append_nil] at hwire
  have oneName : ∀ {rtype : Rtype} (name : Name), rtype = NS ∨ rtype = CNAME ∨ rtype = PTR →
      RecordData.Writable ⟨rtype, name.wire⟩ := by
    intro rtype name hone c pos
    simp only [rdataPlan, if_pos hone, hname, Plan.attempt]
    exact ⟨_, _, rfl⟩
  cases parsed with
  | ns name => cases h; exact oneName name (.inl rfl)
  | cname name => cases h; exact oneName name (.inr (.inl rfl))
  | ptr name => cases h; exact oneName name (.inr (.inr rfl))
  | soa mname rname serial refresh retry expire minimum =>
    rw [encodeRdata_soa] at h
    cases h
    have hone : ¬ (SOA = NS ∨ SOA = CNAME ∨ SOA = PTR) := by decide
    intro c pos
    rw [ParsedRecord.rtype, rdataPlan, if_neg hone, if_pos rfl]
    simp only [Name.fromWire_wire, Plan.attempt]
    exact ⟨_, _, rfl⟩
  | mx preference exchange =>
    cases h
    have hone : ¬ (MX = NS ∨ MX = CNAME ∨ MX = PTR) := by decide
    have hsoa : ¬ MX = SOA := by decide
    have hdrop : (be16 preference ++ exchange.wire).drop 2 = exchange.wire := rfl
    intro c pos
    rw [ParsedRecord.rtype, rdataPlan, if_neg hone, if_neg hsoa, if_pos rfl, if_neg (by rw [List.length_append, length_be16]; omega),
      hdrop]
    simp only [hname, Plan.attempt]
    exact ⟨_, _, rfl⟩
  | unknown rtype => cases hknown
  | svcb rtype =>
    refine writable_of_plain ?_
    cases rtype <;> simp only [ParsedRecord.rtype, SvcbType.rtype] <;> decide
  | dnskey rtype =>
    refine writable_of_plain ?_
    cases rtype <;> simp only [ParsedRecord.rtype, DnskeyType.rtype] <;> decide
  | ds rtype =>
    refine writable_of_plain ?_
    cases rtype <;> simp only [ParsedRecord.rtype, DsType.rtype] <;> decide
  | _ =>
    refine writable_of_plain ?_
    simp only [ParsedRecord.rtype]
    decide

/-- **What was read can be written**, but for empty RDATA under a type whose RDATA is
compressed. -/
theorem RecordData.fromWire_writable_iff {rdata data : Octets} {stored : RecordData}
    (h : RecordData.fromWire rtype rdata data = .ok stored) :
    stored.Writable ↔ (stored.rdata = [] → stored.rtype ∉ compressedTypes) := by
  refine ⟨fun hwritable hnil hcompressed => ?_, fun hnil => ?_⟩
  · obtain ⟨storedType, storedData⟩ := stored
    simp only at hnil hcompressed
    subst hnil
    exact not_writable_nil hcompressed hwritable
  · rcases fromWire_cases h with ⟨rfl, rfl | hopaque⟩ | ⟨parsed, hknown, hrtype, hstored, hencode⟩
    · exact writable_of_plain (hnil rfl)
    · refine writable_of_plain fun hcompressed => hopaque ?_
      simp only [compressedTypes, List.mem_cons, List.not_mem_nil, or_false] at hcompressed
      rcases hcompressed with rfl | rfl | rfl | rfl | rfl <;> decide
    · obtain ⟨storedType, storedData⟩ := stored
      simp only at hstored hencode
      subst hstored hrtype
      exact writable_of_encode hknown hencode

end Compressed

/-! ## What a message read off the wire carries -/

def ResourceRecord.Received (rr : ResourceRecord) : Prop :=
  ∃ rtype rdata data, RecordData.fromWire rtype rdata data = .ok rr.rdata

variable {data bytes rest : Octets} {rr : ResourceRecord} {m : DnsMessage}

theorem ResourceRecord.received_of_fromParts {parts : RecordParts}
    (h : ResourceRecord.fromParts data parts = .ok rr) : rr.Received := by
  obtain ⟨name, -, h⟩ := except_bind_eq_ok.mp h
  obtain ⟨rdata, hrdata, h⟩ := except_bind_eq_ok.mp h
  cases h
  exact ⟨_, _, _, hrdata⟩

theorem ResourceRecord.received_of_read
    (h : ResourceRecord.tryFromBytes data bytes = .ok (rr, rest)) : rr.Received := by
  obtain ⟨⟨parts, after⟩, -, h⟩ := except_bind_eq_ok.mp h
  obtain ⟨rr', hrr, h⟩ := except_bind_eq_ok.mp h
  cases h
  exact received_of_fromParts hrr

theorem readMany_eq_ok {α : Type} {parse : Octets → Except WireError (α × Octets)} {n : Nat}
    {items : List α} (h : readMany parse n bytes = .ok (items, rest)) :
    items.length = n ∧ ∀ item ∈ items, ∃ before after, parse before = .ok (item, after) := by
  induction n generalizing bytes items with
  | zero =>
    cases h
    exact ⟨rfl, fun _ hitem => absurd hitem List.not_mem_nil⟩
  | succ n ih =>
    obtain ⟨⟨first, after⟩, hfirst, h⟩ := except_bind_eq_ok.mp h
    obtain ⟨⟨others, after'⟩, hothers, h⟩ := except_bind_eq_ok.mp h
    cases h
    obtain ⟨hlen, hall⟩ := ih hothers
    refine ⟨by rw [List.length_cons, hlen], fun item hitem => ?_⟩
    rcases List.mem_cons.mp hitem with rfl | hmem
    · exact ⟨_, _, hfirst⟩
    · exact hall item hmem

theorem readRecordParts_rdata_le {parts : RecordParts}
    (h : readRecordParts bytes = .ok (parts, rest)) : parts.rdata.length ≤ 65535 := by
  obtain ⟨⟨name, r₁⟩, -, h⟩ := except_bind_eq_ok.mp h
  obtain ⟨⟨rtype, r₂⟩, -, h⟩ := except_bind_eq_ok.mp h
  obtain ⟨⟨cls, r₃⟩, -, h⟩ := except_bind_eq_ok.mp h
  obtain ⟨⟨ttlBits, r₄⟩, -, h⟩ := except_bind_eq_ok.mp h
  obtain ⟨⟨rdatalen, r₅⟩, -, h⟩ := except_bind_eq_ok.mp h
  have hlen := rdatalen.toNat_lt
  simp only at h
  split at h
  · cases h
  · cases h
    rw [List.length_take]
    omega

def OptBounded (opt : Option (Edns × UInt16)) : Prop :=
  ∀ edns high, opt = some (edns, high) → edns.rdata.length ≤ 65535 ∧ high.toNat ≤ 255

theorem readAdditionals_eq_ok {n : Nat} {opt opt' : Option (Edns × UInt16)}
    {rrs : List ResourceRecord} (h : readAdditionals data n opt bytes = .ok (rrs, opt'))
    (hopt : OptBounded opt) :
    rrs.length + opt'.isSome.toNat = n + opt.isSome.toNat ∧ (∀ rr ∈ rrs, rr.Received) ∧
      OptBounded opt' := by
  induction n generalizing bytes opt rrs with
  | zero =>
    cases h
    exact ⟨rfl, fun _ hrr => absurd hrr List.not_mem_nil, hopt⟩
  | succ n ih =>
    obtain ⟨⟨item, after⟩, hitem, h⟩ := except_bind_eq_ok.mp h
    obtain ⟨⟨parts, after'⟩, hparts, hitem⟩ := except_bind_eq_ok.mp hitem
    simp only at hitem
    split at hitem
    · cases hitem
      simp only at h
      split at h
      · cases h
      · rename_i hnone
        have hflags := parts.ttlBits.toNat_lt
        obtain ⟨hlen, hall, hopt'⟩ := ih h (by
          rintro edns high heq
          cases heq
          refine ⟨readRecordParts_rdata_le hparts, ?_⟩
          rw [UInt16.toNat_ofNat']
          omega)
        refine ⟨?_, hall, hopt'⟩
        cases opt with
        | none => simpa using hlen
        | some _ => exact absurd rfl hnone
    · obtain ⟨rr, hrr, hitem⟩ := except_bind_eq_ok.mp hitem
      cases hitem
      obtain ⟨⟨others, opt''⟩, hothers, h⟩ := except_bind_eq_ok.mp h
      cases h
      obtain ⟨hlen, hall, hopt'⟩ := ih hothers hopt
      refine ⟨by rw [List.length_cons]; omega, fun rr' hmem => ?_, hopt'⟩
      rcases List.mem_cons.mp hmem with rfl | hmem
      · exact ResourceRecord.received_of_fromParts hrr
      · exact hall rr' hmem

/-- What writing needs of a message besides its records: an RCODE and counts that fit
the header, and an OPT that fits a record. -/
structure DnsMessage.Carries (m : DnsMessage) : Prop where
  rcode : ∃ rcode, wireRcode m.rcode m.edns.isSome = .ok rcode
  counts : ∃ counts, m.counts = .ok counts
  edns : ∀ edns, m.edns = some edns → edns.rdata.length ≤ 65535

theorem sectionCount_ok {len : Nat} (what : String) (h : len ≤ 65535) :
    sectionCount len what = .ok (UInt16.ofNat len) :=
  if_neg (by omega)

theorem DnsMessage.counts_ok (hqd : m.queries.length ≤ 65535) (han : m.answers.length ≤ 65535)
    (hns : m.authorities.length ≤ 65535) (har : m.additionals.length + m.edns.isSome.toNat ≤ 65535) :
    ∃ counts, m.counts = .ok counts := by
  rw [DnsMessage.counts, sectionCount_ok _ hqd, sectionCount_ok _ han, sectionCount_ok _ hns,
    sectionCount_ok _ har]
  exact ⟨_, rfl⟩

theorem wireRcode_ok {rcode : ResponseCode} {hasEdns : Bool} (hfits : rcode.toU16.toNat ≤ 0xfff)
    (hcarried : hasEdns = false → rcode.toU16.toNat ≤ 0xf) :
    wireRcode rcode hasEdns = .ok rcode.toU16 := by
  unfold wireRcode
  simp only
  rw [if_neg (by omega), if_neg]
  rintro ⟨hbig, hnone⟩
  have := hcarried hnone
  omega

/-- **A message that was read can go out again but for its records**: RCODE, counts
and OPT came out of fields they fit. -/
theorem tryFromBytes_carries (h : DnsMessage.tryFromBytes data = .ok m) :
    m.Carries ∧ ∀ rr ∈ m.records, rr.Received := by
  unfold DnsMessage.tryFromBytes at h
  split at h
  · obtain ⟨⟨queries, r₁⟩, hqueries, h⟩ := except_bind_eq_ok.mp h
    obtain ⟨⟨answers, r₂⟩, hanswers, h⟩ := except_bind_eq_ok.mp h
    obtain ⟨⟨authorities, r₃⟩, hauthorities, h⟩ := except_bind_eq_ok.mp h
    obtain ⟨⟨additionals, opt⟩, hadditionals, h⟩ := except_bind_eq_ok.mp h
    cases h
    have hnone : OptBounded none := fun _ _ heq => by cases heq
    obtain ⟨hqd, -⟩ := readMany_eq_ok hqueries
    obtain ⟨han, hansAll⟩ := readMany_eq_ok hanswers
    obtain ⟨hns, hauthAll⟩ := readMany_eq_ok hauthorities
    obtain ⟨har, haddAll, hopt⟩ := readAdditionals_eq_ok hadditionals hnone
    have hcount : ∀ value : UInt16, value.toNat ≤ 65535 :=
      fun value => Nat.le_of_lt_succ value.toNat_lt
    refine ⟨⟨⟨_, wireRcode_ok ?_ ?_⟩, DnsMessage.counts_ok ?_ ?_ ?_ ?_, ?_⟩, ?_⟩
    · simp only [ResponseCode.toU16_fromU16, UInt16.toNat_ofNat']
      cases opt with
      | none => simp only [Option.map_none, Option.getD_none]; omega
      | some opt =>
        have hhigh := (hopt opt.1 opt.2 rfl).2
        simp only [Option.map_some, Option.getD_some]
        omega
    · grind [ResponseCode.toU16_fromU16, UInt16.toNat_ofNat', Option.isSome_eq_false_iff, Option.isNone_iff_eq_none]
    · exact hqd ▸ hcount _
    · exact han ▸ hcount _
    · exact hns ▸ hcount _
    · rw [Option.isSome_map, har]
      exact hcount _
    · intro edns hedns
      obtain ⟨⟨edns', high⟩, hopt', rfl⟩ := Option.map_eq_some_iff.mp hedns
      exact (hopt edns' high hopt').1
    · intro rr hrr
      simp only [DnsMessage.records, List.mem_append] at hrr
      rcases hrr with (hmem | hmem) | hmem
      · obtain ⟨_, _, hread⟩ := hansAll rr hmem
        exact ResourceRecord.received_of_read hread
      · obtain ⟨_, _, hread⟩ := hauthAll rr hmem
        exact ResourceRecord.received_of_read hread
      · exact haddAll rr hmem
  · cases h

/-! ## Writing it again -/

theorem rrPlan_error (hwritable : rr.rdata.Writable) {c : NameCompressor} {pos : Nat}
    {e : WireError} (h : (rrPlan rr c pos).2 = .error e) :
    65535 < rr.rdata.rdata.length ∧ ∃ actual, e = .tooLong "RDATA" 65535 actual := by
  unfold rrPlan at h
  simp only at h
  obtain ⟨body, c', hplan⟩ :=
    hwritable (afterName c rr.name pos) (pos + (rrHead c rr).length + 2)
  have hlen := length_rdataPlan_le rr.rdata.rtype rr.rdata.rdata (afterName c rr.name pos)
    (pos + (rrHead c rr).length + 2)
  rw [hplan] at h hlen
  simp only at h hlen
  split at h
  · cases h
    exact ⟨by omega, _, rfl⟩
  · cases h

theorem DnsMessage.Carries.messagePlan_error (hcarries : m.Carries) {e : WireError}
    (h : (messagePlan m NameCompressor.new 0).2 = .error e) :
    ∃ rr ∈ m.records, ∃ c pos, (rrPlan rr c pos).2 = .error e := by
  obtain ⟨rcode, hrcode⟩ := hcarries.rcode
  obtain ⟨counts, hcounts⟩ := hcarries.counts
  rw [messagePlan, hrcode, hcounts] at h
  simp only [Plan.attempt, Plan.seq_octets, length_headerOctets, Nat.zero_add] at h
  obtain ⟨queries, c, hqueries⟩ := queriesPlan_ok m.queries NameCompressor.new HEADER_LEN
  rw [bodyPlan, Plan.seq_ok hqueries] at h
  rcases hrecords : Plan.all (m.records.map rrPlan) c (HEADER_LEN + queries.length)
    with ⟨bytes, e' | c'⟩
  · rw [Plan.seq_error hrecords] at h
    cases h
    exact Plan.all_error (congrArg Prod.snd hrecords)
  · rw [Plan.seq_ok hrecords] at h
    exfalso
    cases hedns : m.edns with
    | none =>
      rw [hedns] at h
      cases h
    | some edns =>
      have hfits := hcarries.edns edns hedns
      rw [hedns, ednsPlan, optPlan, Plan.seq_octets, if_neg (by omega)] at h
      cases h

/-- **A relayed message**: one that was read is written into a buffer of its size
bound, or has a record that is too long, and no record of it fails to be written,
exactly when it holds no empty RDATA under a compressed type. -/
theorem relay_iff {data : Octets} {m : DnsMessage} (hread : DnsMessage.tryFromBytes data = .ok m)
    {output : Octets} (hroom : m.wireSizeBound ≤ output.length) :
    ((∀ e out, m.toBytes output = (.error e, out) →
        ∃ rr ∈ m.records, 65535 < rr.rdata.rdata.length ∧
          ∃ actual, e = .tooLong "RDATA" 65535 actual) ∧
      (∀ rr ∈ m.records, ∀ (c : NameCompressor) (pos : Nat) (buf : Octets),
        pos + rr.rdata.rdata.length ≤ buf.length →
        ∃ n sink, exec (writeRdata rr.rdata.rtype rr.rdata.rdata pos) ⟨c, buf⟩ = (.ok n, sink))) ↔
      ∀ rr ∈ m.records, rr.rdata.rdata = [] → rr.rdata.rtype ∉ compressedTypes := by
  obtain ⟨hcarries, hreceived⟩ := tryFromBytes_carries hread
  have hwritable : ∀ rr ∈ m.records, (rr.rdata.Writable ↔
      (rr.rdata.rdata = [] → rr.rdata.rtype ∉ compressedTypes)) := by
    intro rr hrr
    obtain ⟨_, _, _, hstored⟩ := hreceived rr hrr
    exact RecordData.fromWire_writable_iff hstored
  constructor
  · rintro ⟨-, hall⟩ rr hrr
    exact (hwritable rr hrr).mp (RecordData.writable_iff.mpr (hall rr hrr))
  · intro hall
    refine ⟨fun e out h => ?_, fun rr hrr =>
      RecordData.writable_iff.mp ((hwritable rr hrr).mpr (hall rr hrr))⟩
    have hemits := toBytesWith_emits m NameCompressor.new
    have hbound := messagePlan_length_le m NameCompressor.new
    rcases hplan : messagePlan m NameCompressor.new 0 with ⟨bytes, e' | c⟩
    · rw [hplan] at hemits hbound
      obtain ⟨c, buf, hexec, -⟩ := hemits.fails e' rfl output (by simp only at hbound ⊢; omega)
      rw [DnsMessage.toBytes, hexec] at h
      cases h
      obtain ⟨rr, hrr, c, pos, herror⟩ := hcarries.messagePlan_error (congrArg Prod.snd hplan)
      exact ⟨rr, hrr, rrPlan_error ((hwritable rr hrr).mpr (hall rr hrr)) herror⟩
    · rw [hplan] at hemits hbound
      rw [DnsMessage.toBytes, hemits.done c rfl output (by simp only at hbound ⊢; omega)] at h
      cases h

/-- A response with one answer: the root, of the given TYPE, with RDLENGTH 0. -/
def emptyRecord (rtype : Rtype) : Octets :=
  [0, 1, 128, 0, 0, 0, 0, 1, 0, 0, 0, 0, 0] ++ be16 rtype.code ++ [0, 1, 0, 0, 0, 0, 0, 0]

def emptyRecordMessage (rtype : Rtype) : DnsMessage :=
  { mailReply with
    authoritive := false, queries := []
    answers := [⟨Name.root, Class.IN, ⟨0⟩, ⟨rtype, []⟩⟩] }

theorem relay_emptyTxt :
    ∃ m, DnsMessage.tryFromBytes (emptyRecord TXT) = .ok m ∧
      ∀ rr ∈ m.records, ∀ (c : NameCompressor) (pos : Nat) (buf : Octets),
        pos + rr.rdata.rdata.length ≤ buf.length →
        ∃ n sink, exec (writeRdata rr.rdata.rtype rr.rdata.rdata pos) ⟨c, buf⟩ = (.ok n, sink) := by
  have hread : DnsMessage.tryFromBytes (emptyRecord TXT)
      = .ok (emptyRecordMessage TXT) := by decide +kernel
  have hroom : (emptyRecordMessage TXT).wireSizeBound
      ≤ (List.replicate 64 (0 : UInt8)).length := by decide +kernel
  exact ⟨_, hread, ((relay_iff hread hroom).mpr (by decide +kernel)).2⟩

/-- **Accepted, and not written**: the decoder lets the empty RDATA through for the
NS that `write_rdata` then looks for a name in. -/
theorem emptyNs_notRelayed :
    ∃ m e out, DnsMessage.tryFromBytes (emptyRecord NS) = .ok m ∧
      m.wireSizeBound ≤ (List.replicate 64 (0 : UInt8)).length ∧
      m.toBytes (List.replicate 64 0) = (.error e, out) ∧
      ∀ actual, e ≠ .tooLong "RDATA" 65535 actual := by
  have hread : DnsMessage.tryFromBytes (emptyRecord NS)
      = .ok (emptyRecordMessage NS) := by decide +kernel
  have hfail : (emptyRecordMessage NS).toBytes (List.replicate 64 0)
      = (.error (.truncated "a label" 1 0),
        ((emptyRecordMessage NS).toBytes (List.replicate 64 0)).2) := by
    decide +kernel
  exact ⟨_, _, _, hread, by decide +kernel, hfail, fun actual h => by cases h⟩

end Rdns.Core
