import Rdns.Core.OffsetAccessors
import Rdns.Transfer.Assembler

/-!
# Rdns — What an incremental answer comes to

`IxfrAssembler::into_outcome` of `rdns/src/xfr.rs`, on an answer accepted to its end.

The assembler tells the SOAs of a stream apart by their place, and compares only the serial of one
read where a sequence may close.
-/

namespace Rdns.Transfer

open Rdns.Lib Rdns.Core Rdns.Zones

/-! ## The SOAs of an answer -/

def answerSerials (zone : Name) (msgs : List DnsMessage) : List Serial :=
  (IxfrAssembler.heardFor zone msgs).filterMap (apexSerial zone)

def versionsOf : List Serial → List (Serial × Serial)
  | start :: next :: rest => (start, next) :: versionsOf rest
  | _ => []

def Linked (current : Option Serial) : List (Serial × Serial) → Prop
  | [] => True
  | version :: rest => some version.1 = current ∧ Linked (some version.2) rest

/-- Every SOA that opens a sequence, and the one that closes the answer, has the serial arrived at:
the base's, then that of the SOA in the middle of the sequence before. -/
def Follows (current : Option Serial) : List Serial → Prop
  | start :: next :: rest => some start = current ∧ Follows (some next) rest
  | [closing] => some closing = current
  | [] => True

def arrivesAt (current : Option Serial) : List (Serial × Serial) → Option Serial
  | [] => current
  | version :: rest => arrivesAt (some version.2) rest

theorem versionsOf_closed (versions : List (Serial × Serial)) (closing : Serial) :
    versionsOf (versions.flatMap (fun v => [v.1, v.2]) ++ [closing]) = versions := by
  induction versions with
  | nil => rfl
  | cons version rest ih =>
    show (version.1, version.2) :: versionsOf (rest.flatMap (fun v => [v.1, v.2]) ++ [closing]) = _
    rw [ih]

theorem follows_closed_iff (versions : List (Serial × Serial)) (closing : Serial) (current : Option Serial) :
    Follows current (versions.flatMap (fun v => [v.1, v.2]) ++ [closing]) ↔
      Linked current versions ∧ some closing = arrivesAt current versions := by
  induction versions generalizing current with
  | nil => exact ⟨fun h => ⟨trivial, h⟩, fun h => h.2⟩
  | cons version rest ih =>
    show some version.1 = current ∧ Follows (some version.2) (rest.flatMap (fun v => [v.1, v.2]) ++ [closing]) ↔ _
    rw [ih, Linked, arrivesAt, and_assoc]

theorem arrivesAt_concat (versions : List (Serial × Serial)) (last : Serial × Serial) (current : Option Serial) :
    arrivesAt current (versions ++ [last]) = some last.2 := by
  induction versions generalizing current with
  | nil => rfl
  | cons version rest ih => exact ih _

/-! ## Records as they arrive -/

def ReadOff (rr : ResourceRecord) : Prop :=
  ∃ rdata data, RecordData.fromWire rr.rdata.rtype rdata data = .ok rr.rdata

variable {rr : ResourceRecord}

theorem ReadOff.sized (h : ReadOff rr) (hsoa : rr.rdata.rtype = RecordTypes.SOA) : Sized rr := by
  obtain ⟨rdata, data, h⟩ := h
  rw [hsoa] at h
  obtain ⟨parsed, hdecode, h⟩ := except_bind_eq_ok.mp h
  rw [ParsedRecord.decode] at hdecode
  by_cases hempty : rdata.isEmpty = true
  · rw [if_pos hempty] at hdecode
    cases hdecode
    have hrdata : rdata = rr.rdata.rdata := congrArg RecordData.rdata (Except.ok.inj h)
    rw [Sized, ← hrdata, List.isEmpty_iff.mp hempty]
    exact Nat.zero_le _
  · rw [if_neg hempty, if_neg (by decide), if_neg (by decide), if_neg (by decide), if_pos rfl] at hdecode
    obtain ⟨mname, _, rname, _, serial, refresh, retry, expire, minimum, _, -, -, -, rfl⟩ := decodeSoa_consumed hdecode
    have hrdata : mname.wire ++ rname.wire ++ be32 serial ++ be32 refresh.toUInt32 ++ be32 retry.toUInt32 ++
        be32 expire.toUInt32 ++ be32 minimum = rr.rdata.rdata := congrArg RecordData.rdata (Except.ok.inj h)
    have hmname := mname.length_wire_le
    have hrname := rname.length_wire_le
    rw [Sized, ← hrdata]
    simp only [List.length_append, length_be32]
    omega

theorem mem_heard {σ : Type} {take : σ → ResourceRecord → Except Halt (Progress × σ)}
    {accept : σ → DnsMessage → Except Halt (Progress × σ)} (msgs : List DnsMessage) {s : σ}
    (h : rr ∈ heard take accept s msgs) : ∃ msg ∈ msgs, rr ∈ msg.answers := by
  have hrecords : ∀ (records : List ResourceRecord) (s : σ), rr ∈ readRecords take s records → rr ∈ records := by
    intro records
    induction records with
    | nil => exact fun _ hmem => hmem
    | cons first rest ih =>
      intro s hmem
      rw [readRecords] at hmem
      split at hmem
      · rcases List.mem_cons.mp hmem with rfl | hmem
        · exact List.mem_cons_self
        · exact List.mem_cons_of_mem _ (ih _ hmem)
      · rw [List.mem_singleton.mp hmem]
        exact List.mem_cons_self
  induction msgs generalizing s with
  | nil => cases h
  | cons msg rest ih =>
    rw [heard] at h
    split at h
    · rcases List.mem_append.mp h with h | h
      · exact ⟨msg, List.mem_cons_self, hrecords _ _ h⟩
      · obtain ⟨other, hother, hmem⟩ := ih h
        exact ⟨other, List.mem_cons_of_mem _ hother, hmem⟩
    · exact ⟨msg, List.mem_cons_self, hrecords _ _ h⟩

theorem belongs_of_identity {zone : Name} {a b : ResourceRecord} (h : identity a = identity b)
    (hb : Belongs zone b) : Belongs zone a := by
  have hname : a.name.toFolded = b.name.toFolded := Name.wire_injective (congrArg Prod.fst h)
  refine ⟨?_, (congrArg (fun i : Identity => i.2.1) h).trans hb.2⟩
  rw [← isAtOrUnder_toFolded_left, hname, isAtOrUnder_toFolded_left]
  exact hb.1

theorem isZoneSoa_iff {zone : Name} :
    isZoneSoa zone rr = true ↔ IsApex zone.toFolded.wire (identity rr) := by
  rw [isZoneSoa, Bool.and_eq_true, beq_iff_eq, Name.same_iff]
  exact and_congr_right fun _ => ⟨fun hsame => congrArg Name.wire hsame, Name.wire_injective⟩

/-! ## The chain of an answer -/

theorem stageChain_spec (steps : List ChainStep) :
    (stageChain steps).Ok ∧
      (stageChain steps).requested = (stageChain steps).staged.withheld.card + (stageChain steps).staged.cancelled ∧
      ∀ r, some r ∈ (stageChain steps).append → ∃ step ∈ steps, r ∈ step.added := by
  induction steps using List.reverseRecOn with
  | nil => exact ⟨Patch.ok_new, rfl, fun r hr => by cases hr⟩
  | append_singleton steps step ih =>
    obtain ⟨hok, hcount, hfrom⟩ := ih
    have hstep : stageChain (steps ++ [step]) = (stageChain steps).step step.deleted step.added := by
      rw [stageChain, List.foldl_append]
      rfl
    rw [hstep]
    refine ⟨(Patch.step_staged hok _ _).1, Patch.step_counted hok hcount _ _, fun r hr => ?_⟩
    rcases Patch.append_step _ _ _ hr with hr | hr
    · obtain ⟨s, hs, hin⟩ := hfrom r hr
      exact ⟨s, List.mem_append_left _ hs, hin⟩
    · exact ⟨step, List.mem_append_right _ (List.mem_singleton_self _), hr⟩

def ChainStep.sequence (step : ChainStep) : Sequence := ⟨some step.soa, step.deleted, step.added⟩

theorem chainSteps_eq_ok {sequences : List Sequence} {steps : List ChainStep}
    (h : IxfrAssembler.chainSteps sequences = .ok steps) : sequences = steps.map ChainStep.sequence := by
  induction sequences generalizing steps with
  | nil =>
    cases h
    rfl
  | cons sequence rest ih =>
    rw [IxfrAssembler.chainSteps] at h
    cases hsoa : sequence.toSoa with
    | none =>
      rw [hsoa] at h
      cases h
    | some soa =>
      rw [hsoa] at h
      obtain ⟨others, hothers, h⟩ := except_bind_eq_ok.mp h
      cases h
      rw [ih hothers, List.map_cons, ChainStep.sequence, ← hsoa]

theorem Version.serial_eq {zone : Zone} (h : Version zone) {soa : Identity} {rest : Multiset Identity}
    (hids : identities zone = soa ::ₘ rest) (hsoa : IsApex zone.originKey soa) :
    zone.serial = serialOf soa.2.2.2 := by
  have hmem : soa ∈ identities zone := hids ▸ Multiset.mem_cons_self _ _
  obtain ⟨record, hrecord, rfl⟩ := List.mem_map.mp (Multiset.mem_coe.mp hmem)
  have hin : record ∈ zone.records.filter zone.isApexSoa := List.mem_filter.mpr ⟨hrecord, isApex_iff.mpr hsoa⟩
  obtain ⟨only, honly, hapex⟩ := h.apexSoa_eq
  rw [honly, List.mem_singleton] at hin
  rw [Zone.serial, hapex, ← hin]
  rfl

structure Updated (base zone : Zone) (read : List ResourceRecord) (versions : List (Serial × Serial))
    (opening : Serial) : Prop where
  serials : read.filterMap (apexSerial base.origin) =
    opening :: (versions.flatMap (fun v => [v.1, v.2]) ++ [opening])
  serial : zone.serial = arrivesAt base.serial versions
  version : Version zone
  origin : zone.origin = base.origin
  belong : ∀ r ∈ zone.records, Belongs base.origin (asRecord r)

/-- **An updated zone** has one apex SOA, the last the sequences led to, and records that belong. -/
theorem intoOutcome_updated {walk : Patch → Entries Octets (List Withheld)} (hwalk : ∀ p, (walk p).Perm p.withhold)
    {base zone : Zone} (hbase : Version base) (hbelong : ∀ r ∈ base.records, Belongs base.origin (asRecord r))
    {read : List ResourceRecord} {a : IxfrAssembler} (ha : IxfrAssembler.Reading base.origin read a)
    (hsized : ∀ r ∈ read, isZoneSoa base.origin r = true → Sized r) {steps missing : Nat}
    (h : a.intoOutcome walk base = .ok (.updated zone steps missing)) :
    ∃ versions opening, Updated base zone read versions opening := by
  obtain ⟨hcourse, hreadBelong⟩ := ha
  rw [IxfrAssembler.intoOutcome] at h
  cases hcourse with
  | closed hsoa hsome hseq hclosing seen =>
    rename_i soa serial rest sequences versions closing
    have hnonempty : sequences ≠ [] := by
      intro hempty
      have hheaded := hseq.headed
      rw [hempty, List.map_nil, Option.toList_none, List.map_nil, List.append_nil] at hheaded
      exact hsome (List.map_eq_nil_iff.mp hheaded.symm)
    dsimp only at h
    rw [if_neg (fun hne => hne rfl), if_pos hnonempty] at h
    obtain ⟨chain, hchain, h⟩ := except_bind_eq_ok.mp h
    obtain rfl := chainSteps_eq_ok hchain
    cases hlast : chain.getLast? with
    | none => grind [List.getLast?_eq_none_iff]
    | some last =>
      rw [hlast] at h
      dsimp only at h
      obtain ⟨-, hcount, hfrom⟩ := stageChain_spec chain
      obtain ⟨applied, happly, hok, horigin, hids⟩ := Patch.apply_staged hwalk hcount hbase last.soa
      rw [happly] at h
      cases h
      have hin : last.sequence ∈ chain.map ChainStep.sequence := List.mem_map_of_mem (List.mem_of_getLast? hlast)
      obtain ⟨hlastIn, hlastSoa⟩ := hseq.soas last.sequence hin last.soa rfl
      have hlastRead : last.soa ∈ soa :: rest ++ [closing] :=
        List.mem_append_left _ (List.mem_cons_of_mem _ hlastIn)
      have happended : ∀ r, some r ∈ (stageChain chain).append → r ∈ rest ∧ isZoneSoa base.origin r = false := by
        intro r hr
        obtain ⟨step, hstep, hadded⟩ := hfrom r hr
        exact hseq.members step.sequence (List.mem_map_of_mem hstep) r (List.mem_append_right _ hadded)
      rw [kept_eq_self (hsized _ hlastRead hlastSoa)] at hids
      have hkey : zone.originKey = base.originKey := congrArg (fun n : Name => n.toFolded.wire) horigin
      have hapex : IsApex zone.originKey (identity last.soa) := hkey ▸ isZoneSoa_iff.mp hlastSoa
      obtain ⟨hversion, -⟩ := version_of_identities hok hids hapex (fun i hi => by
        rw [hkey]
        rcases Multiset.mem_add.mp hi with hi | hi
        · exact not_apex_of_mem_beside (Multiset.mem_of_le (Multiset.sub_le_self _ _) hi)
        · obtain ⟨r, hr, rfl⟩ := List.mem_map.mp (Multiset.mem_coe.mp hi)
          obtain ⟨_, hmem, rfl⟩ := List.mem_filterMap.mp hr
          intro hat
          have his : isZoneSoa base.origin r = true := isZoneSoa_iff.mpr hat
          exact absurd ((happended r hmem).2.symm.trans his) Bool.false_ne_true)
      refine ⟨versions, serial, ?_, ?_, hversion, horigin, fun r hr => ?_⟩
      · rw [List.cons_append, List.filterMap_cons_some hsoa.apexSerial, filterMap_apexSerial_soa hclosing, hseq.serials,
          Option.toList_none, List.append_nil]
      · -- the last step's SOA is at the version the last sequence leads to
        have hserial := hversion.serial_eq hids hapex
        obtain rfl | ⟨front, version, rfl⟩ := List.eq_nil_or_concat' versions
        · exact absurd rfl hsome
        · have hheaded := congrArg List.getLast? hseq.headed
          rw [Option.toList_none, List.map_nil, List.append_nil, List.getLast?_map, List.getLast?_map, hlast,
            List.map_append, List.map_cons, List.map_nil, List.getLast?_concat] at hheaded
          have hat : apexSerial base.origin last.soa = some version.2 := Option.some.inj hheaded
          rw [apexSerial, if_pos hlastSoa] at hat
          rw [hserial, arrivesAt_concat]
          exact hat
      · have hmem : identity (asRecord r) ∈ identities zone := Multiset.mem_coe.mpr (List.mem_map_of_mem hr)
        rw [hids, Multiset.mem_cons, Multiset.mem_add] at hmem
        rcases hmem with hmem | hmem | hmem
        · exact belongs_of_identity hmem (hreadBelong _ hlastRead)
        · have hheld : identity (asRecord r) ∈ beside base :=
            Multiset.mem_of_le (Multiset.sub_le_self _ _) hmem
          obtain ⟨_, hbeside, heq⟩ := List.mem_map.mp (Multiset.mem_coe.mp hheld)
          obtain ⟨q, hq, rfl⟩ := List.mem_map.mp hbeside
          exact belongs_of_identity heq.symm (hbelong q (List.mem_filter.mp hq).1)
        · obtain ⟨q, hq, heq⟩ := List.mem_map.mp (Multiset.mem_coe.mp hmem)
          obtain ⟨_, hq, rfl⟩ := List.mem_filterMap.mp hq
          have hbelongs := hreadBelong q (List.mem_append_left _ (List.mem_cons_of_mem _ (happended q hq).1))
          exact belongs_of_identity heq.symm (show Belongs base.origin (kept q) from hbelongs)
  | upToDate =>
    dsimp only at h
    rw [if_neg (fun hne => hne rfl), if_neg (fun hne => hne rfl), if_neg (by decide)] at h
    cases h
  | fullClosed =>
    dsimp only at h
    rw [if_neg (fun hne => hne rfl), if_neg (fun hne => hne rfl), if_pos (by decide)] at h
    obtain ⟨whole, -, h⟩ := except_bind_eq_ok.mp h
    cases h
  | awaiting => cases h
  | opened => cases h
  | deletions => cases h
  | additions => cases h
  | full => cases h

/-! ## The answer received -/

def receiveChanges (walk : Patch → Entries Octets (List Withheld)) (base : Zone) (msgs : List DnsMessage) :
    Except Halt IxfrOutcome := do
  let a ← acceptAll IxfrAssembler.accept (IxfrAssembler.new base.origin) msgs
  a.intoOutcome walk base

/-- What an updated zone owes the serials of the answer: it is at the one announced, the sequences
lead to it from the base's, and it has one apex SOA and IN records of the zone. -/
structure EndsWhereItClaims (base zone : Zone) (serials : List Serial) : Prop where
  serial : zone.serial = serials.head?
  starts : Linked base.serial (versionsOf serials.tail)
  oneSoa : (zone.records.filter zone.isApexSoa).length = 1
  belong : ∀ r ∈ zone.records, Belongs base.origin (asRecord r)

/-- **Which answers end where they claim**: those of which each SOA that opens a sequence, and the
closing one, has the serial arrived at before it. -/
theorem updated_iff {walk : Patch → Entries Octets (List Withheld)} (hwalk : ∀ p, (walk p).Perm p.withhold)
    {base : Zone} (hbase : Held base) (hsoa : (base.records.filter base.isApexSoa).length = 1)
    (hbelong : ∀ r ∈ base.records, Belongs base.origin (asRecord r)) {msgs : List DnsMessage}
    (hread : ∀ msg ∈ msgs, ∀ rr ∈ msg.answers, ReadOff rr) {zone : Zone} {steps missing : Nat}
    (h : receiveChanges walk base msgs = .ok (.updated zone steps missing)) :
    EndsWhereItClaims base zone (answerSerials base.origin msgs) ↔
      Follows base.serial (answerSerials base.origin msgs).tail := by
  obtain ⟨a, haccept, houtcome⟩ := except_bind_eq_ok.mp h
  have hsized : ∀ r ∈ IxfrAssembler.heardFor base.origin msgs, isZoneSoa base.origin r = true → Sized r := by
    intro r hr his
    obtain ⟨msg, hmsg, hmem⟩ := mem_heard msgs hr
    exact (hread msg hmsg r hmem).sized (isZoneSoa_iff.mp his).1
  obtain ⟨versions, opening, hupdated⟩ := intoOutcome_updated hwalk ⟨hbase.ok, hsoa⟩ hbelong
    (IxfrAssembler.course haccept) hsized houtcome
  rw [answerSerials, hupdated.serials, List.tail_cons, follows_closed_iff, ← hupdated.serial]
  constructor
  · intro hends
    have hstarts := hends.starts
    rw [List.tail_cons, versionsOf_closed] at hstarts
    exact ⟨hstarts, hends.serial.symm⟩
  · rintro ⟨hlinked, hserial⟩
    refine ⟨hserial.symm, ?_, hupdated.version.oneSoa, hupdated.belong⟩
    rw [List.tail_cons, versionsOf_closed]
    exact hlinked

def updatedTo : Except Halt IxfrOutcome → Option Serial
  | .ok (.updated zone _ _) => zone.serial
  | _ => none

theorem of_updatedTo {outcome : Except Halt IxfrOutcome} {serial : Serial} (h : updatedTo outcome = some serial) :
    ∃ zone steps missing, outcome = .ok (.updated zone steps missing) ∧ zone.serial = some serial := by
  cases outcome with
  | error halt => cases h
  | ok outcome =>
    cases outcome with
    | updated zone steps missing => exact ⟨zone, steps, missing, rfl, h⟩
    | upToDate => cases h
    | fullTransfer => cases h

def linkedAnswer : DnsMessage :=
  replyOf [soaRecord 3, soaRecord 1, addressRecord 1, soaRecord 2, addressRecord 3, soaRecord 2, soaRecord 3,
    addressRecord 4, soaRecord 3]

def brokenAnswer : DnsMessage := replyOf [soaRecord 10, soaRecord 5, soaRecord 7, soaRecord 10]

theorem readOff_of_self {msgs : List DnsMessage} (h : ∀ msg ∈ msgs, ∀ rr ∈ msg.answers,
    RecordData.fromWire rr.rdata.rtype rr.rdata.rdata rr.rdata.rdata = .ok rr.rdata) :
    ∀ msg ∈ msgs, ∀ rr ∈ msg.answers, ReadOff rr :=
  fun msg hmsg rr hrr => ⟨_, _, h msg hmsg rr hrr⟩

theorem belongs_rootVersion : ∀ r ∈ (rootVersion 1 [1]).records, Belongs Name.root (asRecord r) := by
  unfold Belongs
  decide +kernel

/-- Two increments in turn: the zone ends where the answer says. -/
theorem updated_iff_linkedAnswer : ∃ zone steps missing,
    receiveChanges Patch.withhold (rootVersion 1 [1]) [linkedAnswer] = .ok (.updated zone steps missing) ∧
      zone.serial = some ⟨3⟩ ∧
      EndsWhereItClaims (rootVersion 1 [1]) zone (answerSerials Name.root [linkedAnswer]) := by
  have hto : updatedTo (receiveChanges Patch.withhold (rootVersion 1 [1]) [linkedAnswer]) = some ⟨3⟩ := by
    decide +kernel
  have hserials : answerSerials Name.root [linkedAnswer] = [⟨3⟩, ⟨1⟩, ⟨2⟩, ⟨2⟩, ⟨3⟩, ⟨3⟩] := by decide +kernel
  obtain ⟨zone, steps, missing, hreceived, hserial⟩ := of_updatedTo hto
  refine ⟨zone, steps, missing, hreceived, hserial,
    (updated_iff (fun p => List.Perm.refl p.withhold) (held_rootVersion 1 [1]) (by decide +kernel)
      belongs_rootVersion (readOff_of_self (by decide +kernel)) hreceived).mpr ?_⟩
  show Follows (rootVersion 1 [1]).serial (answerSerials Name.root [linkedAnswer]).tail
  rw [hserials, show (rootVersion 1 [1]).serial = some ⟨1⟩ by decide +kernel]
  exact ⟨rfl, rfl, rfl⟩

theorem updated_unlinked : ¬ ∀ (base : Zone), Held base → (base.records.filter base.isApexSoa).length = 1 →
    (∀ r ∈ base.records, Belongs base.origin (asRecord r)) → ∀ (msgs : List DnsMessage),
    (∀ msg ∈ msgs, ∀ rr ∈ msg.answers, ReadOff rr) → ∀ (zone : Zone) (steps missing : Nat),
    receiveChanges Patch.withhold base msgs = .ok (.updated zone steps missing) →
      EndsWhereItClaims base zone (answerSerials base.origin msgs) := by
  intro hall
  have hto : updatedTo (receiveChanges Patch.withhold (rootVersion 1 [1]) [brokenAnswer]) = some ⟨7⟩ := by
    decide +kernel
  obtain ⟨zone, steps, missing, hreceived, hserial⟩ := of_updatedTo hto
  have hends := hall _ (held_rootVersion 1 [1]) (by decide +kernel) belongs_rootVersion [brokenAnswer]
    (readOff_of_self (by decide +kernel)) zone steps missing hreceived
  have hclaimed : (answerSerials (rootVersion 1 [1]).origin [brokenAnswer]).head? = some ⟨10⟩ := by decide +kernel
  have hserial' := hends.serial
  rw [hclaimed, hserial] at hserial'
  exact absurd hserial' (by decide)

end Rdns.Transfer
