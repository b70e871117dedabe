import Mathlib.Data.Prod.Lex
import Rdns.Lib.Difference
import Rdns.Lib.Entries
import Rdns.Zones.Built
import Rdns.Zones.Update

/-!
# Rdns — Incremental zone transfer

`rdns/src/ixfr.rs` (RFC 1995): the step between two versions of a zone (`diff`,
`plan_change`), the steps remembered for every zone (`DeltaLog`) and the answer to an IXFR
request (`ixfr_response`); and the packing of a transfer's records into messages, from
`rdns/src/transfer.rs`.

A record's identity for comparison is everything about it that can change, its owner name
folded (`folded`).
-/

namespace Rdns.Transfer

open Rdns.Lib Rdns.Core Rdns.Present Rdns.Zones RecordTypes

/-! ## Version steps -/

def MAX_DELTAS_PER_ZONE : Nat := 32

/-- One version step: what it takes to get from `fromSerial` to `toSerial`. -/
structure ZoneDelta where
  fromSerial : Serial
  toSerial : Serial
  fromSoa : ResourceRecord
  toSoa : ResourceRecord
  deleted : List ResourceRecord
  added : List ResourceRecord
deriving DecidableEq

def ZoneDelta.len (delta : ZoneDelta) : Nat := delta.deleted.length + delta.added.length

def ZoneDelta.isEmpty (delta : ZoneDelta) : Bool := delta.len == 0

abbrev RecordKey := Octets ×ₗ ℕ ×ₗ ℕ ×ₗ ℕ ×ₗ Octets

def recordKey (record : ResourceRecord) : RecordKey :=
  toLex (record.name.toFolded.wire, toLex (record.rdata.rtype.code.toNat,
    toLex (record.cls.code.toNat, toLex (record.ttl.secs.toNat, record.rdata.rdata))))

def besideSoa (zone : Zone) : List ResourceRecord :=
  (zone.records.filter fun r => !zone.isApexSoa r).map asRecord

def apexSoaRecord (zone : Zone) : Option ResourceRecord :=
  zone.apexSoa.map fun soa => ⟨zone.origin, soa.cls, soa.ttl, soa.rdata⟩

def diff (old new : Zone) : Option ZoneDelta := do
  let fromSoa ← apexSoaRecord old
  let toSoa ← apexSoaRecord new
  let fromSerial ← old.serial
  let toSerial ← new.serial
  let counts := Difference.counts recordKey (besideSoa old) (besideSoa new)
  return ⟨fromSerial, toSerial, fromSoa, toSoa, Difference.deleted counts, Difference.added counts⟩

structure PlannedDelta where
  zone : Name
  delta : ZoneDelta

/-- The step from `old` to `new`: none without a previous version, for a serial that did not
move forward, or for two identical versions. -/
def planChange (old : Option Zone) (new : Zone) : Option PlannedDelta := do
  let old ← old
  let fromSerial ← old.serial
  let toSerial ← new.serial
  if !toSerial.isNewerThan fromSerial then none
  else
    let delta ← diff old new
    if delta.isEmpty then none else return ⟨new.origin.toFolded, delta⟩

/-! ## The log -/

structure DeltaLog where
  byZone : Entries Name (List ZoneDelta)

namespace DeltaLog

def new : DeltaLog := ⟨[]⟩

def all (log : DeltaLog) (zone : Name) : List ZoneDelta := (log.byZone.get zone.toFolded).getD []

def record (log : DeltaLog) (planned : PlannedDelta) : DeltaLog :=
  let history := (log.byZone.get planned.zone).getD [] ++ [planned.delta]
  let history := if history.length > MAX_DELTAS_PER_ZONE then history.drop 1 else history
  ⟨log.byZone.insert planned.zone history⟩

def recordAny (log : DeltaLog) (planned : Option PlannedDelta) : DeltaLog :=
  match planned with
  | some planned => log.record planned
  | none => log

def noteChange (log : DeltaLog) (old : Option Zone) (new : Zone) : DeltaLog :=
  log.recordAny (planChange old new)

def linked (expected : Serial) : List ZoneDelta → Bool
  | [] => true
  | delta :: rest => delta.fromSerial == expected && linked delta.toSerial rest

def chainFrom (log : DeltaLog) (zone : Name) (serial : Serial) : Option (List ZoneDelta) := do
  let history ← log.byZone.get zone.toFolded
  let start ← history.findIdx? fun d => d.fromSerial == serial
  let chain := history.drop start
  if linked serial chain then return chain else none

end DeltaLog

/-! ## Transfer messages -/

def AXFR_TARGET_MESSAGE_SIZE : Nat := 16 * 1024

def cost (rr : ResourceRecord) : Nat := rr.name.wire.length + 10 + rr.rdata.rdata.length

/-- `Envelopes::next` until the records are used up: those taken for the envelope at hand, its
estimate, and what is left. -/
def envelopes (current : List ResourceRecord) (estimated : Nat) : List ResourceRecord → List (List ResourceRecord)
  | [] => if current.isEmpty then [] else [current]
  | rr :: rest =>
    if !current.isEmpty && estimated + cost rr > AXFR_TARGET_MESSAGE_SIZE then
      current :: envelopes [rr] (cost rr) rest
    else envelopes (current ++ [rr]) (estimated + cost rr) rest

def checkOptions : Nat → Octets → Bool
  | 0, rdata => rdata.isEmpty
  | fuel + 1, rdata =>
    if rdata.isEmpty then true
    else match rdata with
      | _ :: _ :: high :: low :: tail =>
        let len := high.toNat * 256 + low.toNat
        if tail.length < len then false else checkOptions fuel (tail.drop len)
      | _ => false

def clientDo (edns : Edns) : Bool :=
  checkOptions edns.rdata.length edns.rdata && edns.version == 0 && edns.doBit

def mirror (request : DnsMessage) : Option Edns :=
  request.edns.map fun edns => ⟨max edns.udpPayloadSize 512, 0, clientDo edns, []⟩

def transferMessage (request : DnsMessage) (answers : List ResourceRecord) : DnsMessage where
  id := request.id
  response := true
  opcode := request.opcode
  authoritive := true
  truncation := false
  recursion := request.recursion
  recursionOk := false
  ad := false
  cd := request.cd
  rcode := .ok
  queries := request.queries
  answers := answers
  authorities := []
  additionals := []
  edns := none

def packTransferMessages (request : DnsMessage) (records : List ResourceRecord) : List DnsMessage :=
  match (envelopes [] 0 records).map (transferMessage request) with
  | [] => []
  | first :: rest => { first with edns := mirror request } :: rest

/-! ## Answering an IXFR -/

inductive IxfrResponse where
  | upToDate (messages : List DnsMessage)
  | incremental (messages : List DnsMessage) (steps records : Nat)
  | fullTransfer (why : String)

def requestedSerial (request : DnsMessage) : Option Serial :=
  (request.authorities.filter fun rr => rr.rdata.rtype == SOA).findSome? fun rr => serialOf rr.rdata

def sequenceOf (delta : ZoneDelta) : List ResourceRecord :=
  delta.fromSoa :: delta.deleted ++ delta.toSoa :: delta.added

def increment (soa : ResourceRecord) (chain : List ZoneDelta) : List ResourceRecord :=
  soa :: chain.flatMap sequenceOf ++ [soa]

def ixfrResponse (request : DnsMessage) (zone : Zone) (deltas : DeltaLog) : Except Text IxfrResponse :=
  let broken (what : String) : Text := "zone ".toList ++ toPresentation zone.origin ++ what.toList
  match apexSoaRecord zone, zone.serial with
  | none, _ => .error (broken " has no SOA at its apex")
  | _, none => .error (broken " has no serial")
  | some soa, some current =>
    match requestedSerial request with
    | none => .ok (.fullTransfer "the request carried no SOA to compare against")
    | some client =>
      if !current.isNewerThan client then .ok (.upToDate (packTransferMessages request [soa]))
      else match deltas.chainFrom zone.origin client with
        | none => .ok (.fullTransfer "no unbroken chain of changes back to the client's serial")
        | some chain =>
          if chain.getLast?.map ZoneDelta.toSerial ≠ some current then
            .ok (.fullTransfer "the remembered changes do not reach the zone's current serial")
          else
            let records := (chain.map ZoneDelta.len).sum
            if records ≥ zone.records.length then
              .ok (.fullTransfer "the changes are no smaller than the zone itself")
            else .ok (.incremental (packTransferMessages request (increment soa chain)) chain.length records)

theorem flatten_envelopes (current : List ResourceRecord) (estimated : Nat) (records : List ResourceRecord) :
    (envelopes current estimated records).flatten = current ++ records := by
  induction records generalizing current estimated with
  | nil => grind [envelopes]
  | cons rr rest ih =>
    rw [envelopes]
    split
    · rw [List.flatten_cons, ih]
      rfl
    · rw [ih, List.append_assoc]
      rfl

/-- **The messages of a transfer carry its records, in order.** -/
theorem answers_packTransferMessages (request : DnsMessage) (records : List ResourceRecord) :
    (packTransferMessages request records).flatMap DnsMessage.answers = records := by
  have hflat : ((envelopes [] 0 records).map (transferMessage request)).flatMap DnsMessage.answers = records := by
    rw [List.flatMap_map]
    show (envelopes [] 0 records).flatMap id = records
    rw [List.flatMap_id, flatten_envelopes, List.nil_append]
  rw [packTransferMessages]
  split
  · rename_i hnil
    rw [hnil] at hflat
    exact hflat
  · grind

theorem DeltaLog.of_chainFrom {log : DeltaLog} {zone : Name} {serial : Serial} {chain : List ZoneDelta}
    (h : log.chainFrom zone serial = some chain) :
    ∃ history, log.byZone.get zone.toFolded = some history ∧ (∀ delta ∈ chain, delta ∈ history) ∧
      linked serial chain = true := by
  simp only [chainFrom, Option.bind_eq_bind, Option.bind_eq_some_iff] at h
  obtain ⟨history, hhistory, start, -, h⟩ := h
  split at h
  · rename_i hlinked
    obtain rfl := Option.some.inj h
    exact ⟨history, hhistory, fun delta hdelta => List.mem_of_mem_drop hdelta, hlinked⟩
  · cases h

variable {zone : Zone}

theorem of_incremental {request : DnsMessage} {deltas : DeltaLog} {client : Serial}
    {messages : List DnsMessage} {steps records : Nat}
    (hclient : requestedSerial request = some client)
    (h : ixfrResponse request zone deltas = .ok (.incremental messages steps records)) :
    ∃ soa current chain, zone.serial = some current ∧ deltas.chainFrom zone.origin client = some chain ∧
      chain.getLast?.map ZoneDelta.toSerial = some current ∧
      packTransferMessages request (increment soa chain) = messages ∧ chain.length = steps := by
  rw [ixfrResponse] at h
  cases hsoa : apexSoaRecord zone with
  | none =>
    rw [hsoa] at h
    cases h
  | some soa =>
    cases hserial : zone.serial with
    | none =>
      rw [hsoa, hserial] at h
      cases h
    | some current =>
      simp only [hsoa, hserial, hclient] at h
      split at h
      · cases h
      · grind

/-! ## What the sequences are for -/

def folded (record : ResourceRecord) : ResourceRecord := { record with name := record.name.toFolded }

def contents (zone : Zone) : Multiset ResourceRecord :=
  zone.records.map fun record => folded (asRecord record)

def applySequence (records : Multiset ResourceRecord) (delta : ZoneDelta) : Option (Multiset ResourceRecord) :=
  patch ((delta.fromSoa :: delta.deleted).map folded : Multiset ResourceRecord)
    ((delta.toSoa :: delta.added).map folded : Multiset ResourceRecord) records

def applySequences (records : Multiset ResourceRecord) (chain : List ZoneDelta) :
    Option (Multiset ResourceRecord) :=
  chain.foldlM applySequence records

theorem recordKey_eq_iff (a b : ResourceRecord) : folded a = folded b ↔ recordKey a = recordKey b := by
  rw [folded, folded, recordKey, recordKey]
  simp only [EmbeddingLike.apply_eq_iff_eq, Prod.mk.injEq, ResourceRecord.mk.injEq]
  constructor
  · grind
  · rintro ⟨hname, hrtype, hcls, httl, hrdata⟩
    have hrtype : a.rdata.rtype = b.rdata.rtype := congrArg Rtype.mk (UInt16.toNat_inj.mp hrtype)
    refine ⟨Name.wire_injective hname, congrArg Core.Class.mk (UInt16.toNat_inj.mp hcls),
      congrArg Ttl.mk (UInt32.toNat_inj.mp httl), ?_⟩
    show RecordData.mk a.rdata.rtype a.rdata.rdata = RecordData.mk b.rdata.rtype b.rdata.rdata
    rw [hrtype, hrdata]

structure Version (zone : Zone) : Prop where
  ok : Zone.ZoneOk zone
  oneSoa : (zone.records.filter zone.isApexSoa).length = 1

theorem mem_query_soa (h : Zone.ZoneOk zone) {record : ZoneRecord} :
    record ∈ zone.query zone.origin (.of SOA) ↔ record ∈ zone.records.filter zone.isApexSoa := by
  have hmatches : (Qtype.of SOA).matches record.rtype = (record.rtype == SOA) := by
    rw [Qtype.matches, if_neg (by decide), Bool.eq_iff_iff, beq_iff_eq, beq_iff_eq]
    exact ⟨fun hcode => congrArg Rtype.mk hcode.symm, fun hrtype => congrArg Rtype.code hrtype.symm⟩
  rw [Zone.query, Zone.ofType, Zone.locate_apex, List.mem_filter, List.mem_filter, List.mem_filterMap, hmatches,
    Zone.isApexSoa, Bool.and_eq_true]
  constructor
  · rintro ⟨⟨i, hi, hrecord⟩, hsoa⟩
    obtain ⟨r, hr, hsame⟩ := (h.mem_positionsOf zone.origin i).mp hi
    rw [hrecord, Option.some.injEq] at hr
    exact ⟨List.mem_of_getElem? hrecord, hsoa, hr ▸ hsame⟩
  · rintro ⟨hmem, hsoa, hsame⟩
    obtain ⟨i, hi⟩ := List.mem_iff_getElem?.mp hmem
    exact ⟨⟨i, (h.mem_positionsOf zone.origin i).mpr ⟨record, hi, hsame⟩, hi⟩, hsoa⟩

theorem Version.apexSoa_eq (h : Version zone) :
    ∃ soa, zone.records.filter zone.isApexSoa = [soa] ∧ zone.apexSoa = some soa := by
  obtain ⟨soa, hsoa⟩ := List.length_eq_one_iff.mp h.oneSoa
  refine ⟨soa, hsoa, ?_⟩
  have hmem : ∀ r, r ∈ zone.query zone.origin (.of SOA) ↔ r = soa := by
    intro r
    rw [mem_query_soa h.ok, hsoa, List.mem_singleton]
  obtain ⟨first, rest, hquery⟩ := List.exists_cons_of_ne_nil (List.ne_nil_of_mem ((hmem soa).mpr rfl))
  rw [Zone.apexSoa, hquery, List.head?_cons, (hmem first).mp (hquery ▸ List.mem_cons_self)]

theorem Version.contents_eq (h : Version zone) :
    ∃ soa, apexSoaRecord zone = some soa ∧
      contents zone = folded soa ::ₘ ((besideSoa zone).map folded : Multiset ResourceRecord) := by
  obtain ⟨soa, hsoa, hapex⟩ := h.apexSoa_eq
  have hsame : soa.name.same zone.origin = true := by
    have hin : soa ∈ zone.records.filter zone.isApexSoa := hsoa ▸ List.mem_singleton_self soa
    have hat := (List.mem_filter.mp hin).2
    rw [Zone.isApexSoa, Bool.and_eq_true] at hat
    exact hat.2
  refine ⟨_, by rw [apexSoaRecord, hapex]; rfl, ?_⟩
  have hsplit : contents zone
      = ((zone.records.filter zone.isApexSoa ++ zone.records.filter fun r => !zone.isApexSoa r).map
          fun r => folded (asRecord r) : List ResourceRecord) :=
    Multiset.coe_eq_coe.mpr ((List.filter_append_perm zone.isApexSoa zone.records).symm.map _)
  have hhead : folded (asRecord soa) = folded ⟨zone.origin, soa.cls, soa.ttl, soa.rdata⟩ := by grind [folded, asRecord, Name.same_iff]
  rw [hsplit, hsoa, List.singleton_append, List.map_cons, hhead, besideSoa, List.map_map, ← Multiset.cons_coe]
  rfl

/-- **A step takes its old version to its new one**, and nothing it deletes is missing. -/
theorem applySequence_diff {old new : Zone} (hold : Version old) (hnew : Version new) {delta : ZoneDelta}
    (h : diff old new = some delta) : applySequence (contents old) delta = some (contents new) := by
  obtain ⟨fromSoa, hfrom, hcontents⟩ := hold.contents_eq
  obtain ⟨toSoa, hto, hcontents'⟩ := hnew.contents_eq
  rw [diff, hfrom, hto] at h
  simp only [Option.bind_eq_bind, Option.bind_some, Option.bind_eq_some_iff, Option.pure_def,
    Option.some.injEq] at h
  obtain ⟨fromSerial, -, toSerial, -, rfl⟩ := h
  obtain ⟨hdeleted, hadded⟩ := map_ident_counts recordKey_eq_iff (besideSoa old) (besideSoa new)
  rw [applySequence, List.map_cons, List.map_cons, ← Multiset.cons_coe, ← Multiset.cons_coe, hdeleted, hadded,
    hcontents, hcontents']
  exact patch_cons_difference _ _ _ _

end Rdns.Transfer
