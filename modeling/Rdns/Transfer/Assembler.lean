import Rdns.Transfer.PatchLaws

/-!
# Rdns — Assembling a transfer

The client half of a zone transfer, from `rdns/src/xfr.rs`: `AxfrAssembler` and
`IxfrAssembler`, which take the messages of an answer one at a time and say when it is
complete.

An assembler that stops is not fed again, so a refusal leaves no state here.
-/

namespace Rdns.Transfer

open Rdns.Lib Rdns.Core Rdns.Present Rdns.Zones

def MAX_TRANSFER_RECORDS : Nat := 5000000

inductive Progress where
  | more
  | complete
deriving DecidableEq

/-- What stops an assembler: an error of `TransferError`, or a panic. -/
inductive Halt where
  | malformed (detail : Text)
  | rcode (rcode : ResponseCode)
  | panic
deriving DecidableEq

/-! ## One record, one envelope -/

def classText (cls : Core.Class) : Text :=
  if cls = .IN then "IN".toList
  else if cls = .CH then "CH".toList
  else if cls = .HS then "HS".toList
  else "CLASS".toList ++ decimal cls.code.toNat

def checkEnvelope (msg : DnsMessage) (closed : Bool) : Except Halt Unit :=
  if closed then .error (.malformed "a record arrived after the transfer closed".toList)
  else if msg.rcode ≠ .ok then .error (.rcode msg.rcode)
  else if !msg.authoritive then .error (.malformed "transfer message is not authoritative".toList)
  else .ok ()

def belongsHere (rr : ResourceRecord) (zone : Name) : Except Halt Name :=
  if !rr.name.isAtOrUnder zone then
    .error (.malformed ("master sent ".toList ++ toPresentation rr.name ++ ", which is not in ".toList ++
      toPresentation zone ++ ": a transfer may only carry the zone it is a transfer of".toList))
  else if rr.cls ≠ .IN then
    .error (.malformed ("master sent ".toList ++ toPresentation rr.name ++ " in class ".toList ++
      classText rr.cls ++ ", and this server holds only IN zones".toList))
  else .ok rr.name

def isZoneSoa (zone : Name) (rr : ResourceRecord) : Bool :=
  rr.rdata.rtype == RecordTypes.SOA && rr.name.same zone

def takeRecords {σ : Type} (take : σ → ResourceRecord → Except Halt (Progress × σ)) (s : σ) :
    List ResourceRecord → Except Halt (Progress × σ)
  | [] => .ok (.more, s)
  | rr :: rest => do
    let (progress, s) ← take s rr
    match progress with
    | .complete => return (.complete, s)
    | .more => takeRecords take s rest

/-! ## AXFR -/

/-- Assembles the messages of an AXFR into a zone, refusing what is not one. -/
structure AxfrAssembler where
  zone : Name
  records : List ResourceRecord
  openingSoa : Option (ResourceRecord × Serial)
  complete : Bool
deriving DecidableEq

namespace AxfrAssembler

def new (zone : Name) : AxfrAssembler := ⟨zone, [], none, false⟩

def acceptRecord (a : AxfrAssembler) (rr : ResourceRecord) : Except Halt (Progress × AxfrAssembler) := do
  let name ← belongsHere rr a.zone
  match a.openingSoa with
  | none =>
    -- the first record is the zone's SOA
    if !isZoneSoa a.zone rr then
      throw (.malformed ("transfer does not open with the SOA of ".toList ++ toPresentation a.zone ++
        ", but with ".toList ++ toPresentation name ++ " type ".toList ++ recordTypeName rr.rdata.rtype))
    match serialOf rr.rdata with
    | none => throw (.malformed "the opening SOA does not parse".toList)
    | some serial =>
      return (.more, { a with openingSoa := some (rr, serial), records := a.records ++ [rr] })
  | some _ =>
    -- the apex SOA again closes it; anything after is not ours to keep
    if isZoneSoa a.zone rr then return (.complete, { a with complete := true })
    if MAX_TRANSFER_RECORDS ≤ a.records.length then
      throw (.malformed ("transfer exceeded ".toList ++ decimal MAX_TRANSFER_RECORDS ++
        " records without closing".toList))
    return (.more, { a with records := a.records ++ [rr] })

def accept (a : AxfrAssembler) (msg : DnsMessage) : Except Halt (Progress × AxfrAssembler) := do
  checkEnvelope msg a.complete
  takeRecords acceptRecord a msg.answers

def intoZone (a : AxfrAssembler) : Except Halt Zone :=
  if !a.complete then
    .error (.malformed ("transfer of ".toList ++ toPresentation a.zone ++
      " ended without its closing SOA — the stream was cut".toList))
  else .ok ((a.records.map zoneRecord).foldl Zone.add (Zone.new a.zone))

end AxfrAssembler

/-! ## IXFR -/

structure Sequence where
  toSoa : Option ResourceRecord
  deleted : List ResourceRecord
  added : List ResourceRecord
deriving DecidableEq

def Sequence.default : Sequence := ⟨none, [], []⟩

inductive IxfrState where
  | awaitingFirstSoa
  | betweenSequences
  | deletions
  | additions
  | fullTransfer
  | complete
deriving DecidableEq

/-- Assembles the answer to an IXFR, whichever of the three shapes it takes. -/
structure IxfrAssembler where
  zone : Name
  currentSerial : Option Serial
  state : IxfrState
  recordsSeen : Nat
  sequences : List Sequence
  full : AxfrAssembler
deriving DecidableEq

inductive IxfrOutcome where
  | upToDate (serial : Serial)
  | updated (zone : Zone) (steps missingDeletions : Nat)
  | fullTransfer (zone : Zone)

namespace IxfrAssembler

def new (zone : Name) : IxfrAssembler := ⟨zone, none, .awaitingFirstSoa, 0, [], .new zone⟩

def soaSerial (zone : Name) (rr : ResourceRecord) : Except Halt (Option Serial) :=
  if isZoneSoa zone rr then
    match serialOf rr.rdata with
    | some serial => .ok (some serial)
    | none => .error (.malformed "an SOA in the transfer does not parse".toList)
  else .ok none

def inCurrentSequence (a : IxfrAssembler) (change : Sequence → Sequence) : Except Halt IxfrAssembler :=
  match a.sequences.getLast? with
  | none => .error .panic
  | some sequence => .ok { a with sequences := a.sequences.dropLast ++ [change sequence] }

def openSequence (a : IxfrAssembler) : IxfrAssembler :=
  { a with sequences := a.sequences ++ [.default], state := .deletions }

def place (a : IxfrAssembler) (rr : ResourceRecord) : Option Serial → Except Halt (Progress × IxfrAssembler)
  | some serial =>
    match a.state with
    | .awaitingFirstSoa => do
      -- it is also the SOA that would open an AXFR
      let (_, full) ← a.full.acceptRecord rr
      return (.more, { a with currentSerial := some serial, full, state := .betweenSequences })
    | .betweenSequences =>
      if some serial = a.currentSerial ∧ a.sequences ≠ [] then return (.complete, { a with state := .complete })
      else return (.more, a.openSequence)
    | .deletions => do
      let a ← a.inCurrentSequence fun sequence => { sequence with toSoa := some rr }
      return (.more, { a with state := .additions })
    | .additions =>
      if some serial = a.currentSerial then return (.complete, { a with state := .complete })
      else return (.more, a.openSequence)
    | .fullTransfer => throw .panic
    | .complete => throw .panic
  | none =>
    match a.state with
    | .awaitingFirstSoa =>
      throw (.malformed ("the answer does not open with the SOA of ".toList ++ toPresentation a.zone))
    | .betweenSequences => do
      -- the second record decides which shape this is
      let (progress, full) ← a.full.acceptRecord rr
      return (progress, { a with full, state := .fullTransfer })
    | .deletions => do
      let a ← a.inCurrentSequence fun sequence => { sequence with deleted := sequence.deleted ++ [rr] }
      return (.more, a)
    | .additions => do
      let a ← a.inCurrentSequence fun sequence => { sequence with added := sequence.added ++ [rr] }
      return (.more, a)
    | .fullTransfer => throw .panic
    | .complete => throw .panic

def acceptRecord (a : IxfrAssembler) (rr : ResourceRecord) : Except Halt (Progress × IxfrAssembler) := do
  let _ ← belongsHere rr a.zone
  let serial ← soaSerial a.zone rr
  place { a with recordsSeen := a.recordsSeen + 1 } rr serial

def acceptNext (a : IxfrAssembler) (rr : ResourceRecord) : Except Halt (Progress × IxfrAssembler) :=
  if a.state = .fullTransfer then do
    let (progress, full) ← a.full.acceptRecord rr
    match progress with
    | .complete => return (.complete, { a with full, state := .complete })
    | .more => return (.more, { a with full })
  else a.acceptRecord rr

def accept (a : IxfrAssembler) (msg : DnsMessage) : Except Halt (Progress × IxfrAssembler) := do
  checkEnvelope msg (a.state = .complete)
  let (progress, a) ← takeRecords acceptNext a msg.answers
  match progress with
  | .complete => return (.complete, a)
  | .more =>
    -- a lone SOA is "already current", recognized as the whole first message
    if a.state = .betweenSequences ∧ a.recordsSeen = 1 then
      return (.complete, { a with state := .complete })
    else return (.more, a)

def chainSteps : List Sequence → Except Halt (List ChainStep)
  | [] => .ok []
  | sequence :: rest =>
    match sequence.toSoa with
    | none => .error (.malformed "a difference sequence has no SOA for the version it produces".toList)
    | some soa => do
      let steps ← chainSteps rest
      return ⟨sequence.deleted, sequence.added, soa⟩ :: steps

def intoOutcome (walk : Patch → Entries Octets (List Withheld)) (a : IxfrAssembler) (base : Zone) :
    Except Halt IxfrOutcome := do
  if a.state ≠ .complete then
    throw (.malformed ("the answer for ".toList ++ toPresentation a.zone ++
      " ended without its closing SOA — the stream was cut".toList))
  if a.sequences ≠ [] then
    let steps ← chainSteps a.sequences
    match steps.getLast? with
    | none => throw .panic
    | some last =>
      -- staged and applied once, not a zone copy per version behind
      match (stageChain steps).apply walk base last.soa with
      | none => throw .panic
      | some (zone, missing) => return .updated zone a.sequences.length missing
  if 1 < a.recordsSeen then
    let zone ← a.full.intoZone
    return .fullTransfer zone
  return .upToDate (a.currentSerial.getD ⟨0⟩)

end IxfrAssembler

/-! ## A whole answer -/

section Runs

variable {σ : Type} (take : σ → ResourceRecord → Except Halt (Progress × σ))
  (accept : σ → DnsMessage → Except Halt (Progress × σ))

def acceptAll (s : σ) : List DnsMessage → Except Halt σ
  | [] => .ok s
  | msg :: rest => do
    let (_, s) ← accept s msg
    acceptAll s rest

def readRecords (s : σ) : List ResourceRecord → List ResourceRecord
  | [] => []
  | rr :: rest =>
    match take s rr with
    | .ok (.more, s) => rr :: readRecords s rest
    | _ => [rr]

def heard (s : σ) : List DnsMessage → List ResourceRecord
  | [] => []
  | msg :: rest =>
    match accept s msg with
    | .ok (_, s') => readRecords take s msg.answers ++ heard s' rest
    | .error _ => readRecords take s msg.answers

variable {take accept} {P : List ResourceRecord → σ → Prop}

theorem takeRecords_rule (htake : ∀ {read s rr progress s'}, P read s → take s rr = .ok (progress, s') →
    P (read ++ [rr]) s') (records read : List ResourceRecord) {s s' : σ}
    {progress : Progress} (hP : P read s) (h : takeRecords take s records = .ok (progress, s')) :
    P (read ++ readRecords take s records) s' := by
  induction records generalizing read s with
  | nil =>
    cases h
    rw [readRecords, List.append_nil]
    exact hP
  | cons rr rest ih =>
    obtain ⟨⟨first, next⟩, htaken, h⟩ := except_bind_eq_ok.mp h
    have hnext := htake hP htaken
    rw [readRecords, htaken]
    cases first with
    | more =>
      have hrest := ih _ hnext h
      rwa [List.append_assoc, List.singleton_append] at hrest
    | complete =>
      cases h
      exact hnext

theorem acceptAll_rule (haccept : ∀ {read s msg progress s'}, P read s → accept s msg = .ok (progress, s') →
    P (read ++ readRecords take s msg.answers) s') (msgs : List DnsMessage)
    (read : List ResourceRecord) {s s' : σ} (hP : P read s) (h : acceptAll accept s msgs = .ok s') :
    P (read ++ heard take accept s msgs) s' := by
  induction msgs generalizing read s with
  | nil =>
    cases h
    rw [heard, List.append_nil]
    exact hP
  | cons msg rest ih =>
    obtain ⟨⟨progress, next⟩, haccepted, h⟩ := except_bind_eq_ok.mp h
    have hrest := ih _ (haccept hP haccepted) h
    rw [heard, haccepted]
    rwa [List.append_assoc] at hrest

end Runs

/-! ## What one record does -/

def Belongs (zone : Name) (rr : ResourceRecord) : Prop := rr.name.isAtOrUnder zone = true ∧ rr.cls = .IN

def Soa (zone : Name) (rr : ResourceRecord) (serial : Serial) : Prop :=
  isZoneSoa zone rr = true ∧ serialOf rr.rdata = some serial

variable {rr : ResourceRecord} {zone : Name}

theorem belongsHere_eq_ok {name : Name} (h : belongsHere rr zone = .ok name) : Belongs zone rr := by
  rw [belongsHere] at h
  split at h
  · cases h
  · split at h
    · cases h
    · rename_i hunder hclass
      exact ⟨by simpa using hunder, Decidable.not_not.mp hclass⟩

variable {a a' : AxfrAssembler} {progress : Progress}

theorem AxfrAssembler.acceptRecord_cases (h : a.acceptRecord rr = .ok (progress, a')) :
    Belongs a.zone rr ∧
      ((a.openingSoa = none ∧ ∃ serial, Soa a.zone rr serial ∧ progress = .more ∧
          a' = { a with openingSoa := some (rr, serial), records := a.records ++ [rr] }) ∨
        (a.openingSoa ≠ none ∧ isZoneSoa a.zone rr = true ∧ progress = .complete ∧
          a' = { a with complete := true }) ∨
        (a.openingSoa ≠ none ∧ isZoneSoa a.zone rr = false ∧ a.records.length < MAX_TRANSFER_RECORDS ∧
          progress = .more ∧ a' = { a with records := a.records ++ [rr] })) := by
  obtain ⟨name, hbelongs, h⟩ := except_bind_eq_ok.mp h
  refine ⟨belongsHere_eq_ok hbelongs, ?_⟩
  cases hopening : a.openingSoa with
  | none =>
    rw [hopening] at h
    dsimp only at h
    cases hsoa : isZoneSoa a.zone rr with
    | false =>
      rw [hsoa] at h
      cases h
    | true =>
      rw [hsoa] at h
      cases hserial : serialOf rr.rdata with
      | none =>
        rw [hserial] at h
        cases h
      | some serial =>
        rw [hserial] at h
        cases h
        exact .inl ⟨rfl, serial, ⟨hsoa, hserial⟩, rfl, rfl⟩
  | some opening =>
    rw [hopening] at h
    dsimp only at h
    refine .inr ?_
    cases hsoa : isZoneSoa a.zone rr with
    | true =>
      rw [hsoa] at h
      cases h
      exact .inl ⟨Option.some_ne_none _, rfl, rfl, rfl⟩
    | false =>
      rw [hsoa] at h
      by_cases hfull : MAX_TRANSFER_RECORDS ≤ a.records.length
      · rw [if_pos hfull] at h
        cases h
      · rw [if_neg hfull] at h
        cases h
        exact .inr ⟨Option.some_ne_none _, rfl, Nat.not_le.mp hfull, rfl, rfl⟩

theorem IxfrAssembler.acceptRecord_cases {a a' : IxfrAssembler}
    (h : a.acceptRecord rr = .ok (progress, a')) :
    Belongs a.zone rr ∧
      ((∃ serial, Soa a.zone rr serial ∧
          place { a with recordsSeen := a.recordsSeen + 1 } rr (some serial) = .ok (progress, a')) ∨
        (isZoneSoa a.zone rr = false ∧
          place { a with recordsSeen := a.recordsSeen + 1 } rr none = .ok (progress, a'))) := by
  obtain ⟨name, hbelongs, h⟩ := except_bind_eq_ok.mp h
  obtain ⟨serial, hserial, h⟩ := except_bind_eq_ok.mp h
  refine ⟨belongsHere_eq_ok hbelongs, ?_⟩
  rw [soaSerial] at hserial
  cases hsoa : isZoneSoa a.zone rr with
  | false =>
    rw [hsoa] at hserial
    cases hserial
    exact .inr ⟨rfl, h⟩
  | true =>
    rw [hsoa] at hserial
    cases hparse : serialOf rr.rdata with
    | none =>
      rw [hparse] at hserial
      cases hserial
    | some serial =>
      rw [hparse] at hserial
      cases hserial
      exact .inl ⟨serial, ⟨hsoa, hparse⟩, h⟩

/-! ## The course of an answer -/

def apexSerial (zone : Name) (rr : ResourceRecord) : Option Serial :=
  if isZoneSoa zone rr then serialOf rr.rdata else none

theorem Soa.apexSerial {serial : Serial} (h : Soa zone rr serial) :
    Transfer.apexSerial zone rr = some serial := by
  rw [Transfer.apexSerial, if_pos h.1, h.2]

theorem apexSerial_eq_none (h : isZoneSoa zone rr = false) : apexSerial zone rr = none := by
  rw [apexSerial, if_neg (by rw [h]; exact Bool.false_ne_true)]

namespace Sequence

def held (s : Sequence) : Nat := s.deleted.length + s.added.length

def toSerial (zone : Name) (s : Sequence) : Option Serial := s.toSoa.bind (apexSerial zone)

end Sequence

/-- What the difference sequences hold of the records after the opening SOA: the serials they
start from and lead to, and the one the open sequence starts from while its deletions arrive. -/
structure Sequenced (zone : Name) (rest : List ResourceRecord) (sequences : List Sequence)
    (versions : List (Serial × Serial)) (opens : Option Serial) : Prop where
  serials : rest.filterMap (apexSerial zone) = versions.flatMap (fun v => [v.1, v.2]) ++ opens.toList
  headed : sequences.map (Sequence.toSerial zone) = versions.map (fun v => some v.2) ++ opens.toList.map fun _ => none
  held : (sequences.map Sequence.held).sum = (rest.filter fun r => !isZoneSoa zone r).length
  members : ∀ s ∈ sequences, ∀ r ∈ s.deleted ++ s.added, r ∈ rest ∧ isZoneSoa zone r = false
  soas : ∀ s ∈ sequences, ∀ soa ∈ s.toSoa, soa ∈ rest ∧ isZoneSoa zone soa = true

section Sequenced

variable {zone : Name} {rest : List ResourceRecord} {sequences : List Sequence}
  {versions : List (Serial × Serial)} {opens : Option Serial} {rr : ResourceRecord}

theorem Sequenced.nil : Sequenced zone [] [] [] none where
  serials := rfl
  headed := rfl
  held := rfl
  members := fun s hs => by cases hs
  soas := fun s hs => by cases hs

variable {serial : Serial}

theorem filterMap_apexSerial_soa (hsoa : Soa zone rr serial) :
    (rest ++ [rr]).filterMap (apexSerial zone) = rest.filterMap (apexSerial zone) ++ [serial] := by
  rw [List.filterMap_append, List.filterMap_cons_some hsoa.apexSerial, List.filterMap_nil]

theorem length_filter_soa (hsoa : isZoneSoa zone rr = true) :
    ((rest ++ [rr]).filter fun r => !isZoneSoa zone r).length = (rest.filter fun r => !isZoneSoa zone r).length := by
  rw [List.filter_append, List.filter_cons_of_neg (by rw [hsoa]; exact Bool.false_ne_true), List.filter_nil,
    List.append_nil]

theorem Sequenced.openNext (h : Sequenced zone rest sequences versions none)
    (hsoa : Soa zone rr serial) :
    Sequenced zone (rest ++ [rr]) (sequences ++ [.default]) versions (some serial) where
  serials := by
    rw [filterMap_apexSerial_soa hsoa, h.serials, Option.toList_none, List.append_nil]
    rfl
  headed := by
    rw [List.map_append, h.headed, Option.toList_none, List.map_nil, List.append_nil]
    rfl
  held := by
    rw [length_filter_soa hsoa.1, List.map_append, List.sum_append, h.held]
    rfl
  members := fun s hs r hr => by
    rcases List.mem_append.mp hs with hs | hs
    · obtain ⟨hmem, hnot⟩ := h.members s hs r hr
      exact ⟨List.mem_append_left _ hmem, hnot⟩
    · cases List.mem_singleton.mp hs
      cases hr
  soas := fun s hs soa hmem => by
    rcases List.mem_append.mp hs with hs | hs
    · obtain ⟨hin, his⟩ := h.soas s hs soa hmem
      exact ⟨List.mem_append_left _ hin, his⟩
    · cases List.mem_singleton.mp hs
      cases hmem

theorem Sequenced.store (h : Sequenced zone rest sequences versions opens) (hnot : isZoneSoa zone rr = false)
    {current changed : Sequence} (hlast : sequences.getLast? = some current)
    (hsoa : changed.toSoa = current.toSoa) (hheld : changed.held = current.held + 1)
    (hmembers : ∀ r ∈ changed.deleted ++ changed.added, r ∈ current.deleted ++ current.added ∨ r = rr) :
    Sequenced zone (rest ++ [rr]) (sequences.dropLast ++ [changed]) versions opens := by
  obtain ⟨front, rfl⟩ := List.getLast?_eq_some_iff.mp hlast
  rw [List.dropLast_concat]
  refine ⟨?_, ?_, ?_, ?_, ?_⟩
  · rw [List.filterMap_append, List.filterMap_cons_none (apexSerial_eq_none hnot), List.filterMap_nil,
      List.append_nil, h.serials]
  · have hheaded := h.headed
    rw [List.map_append, List.map_cons, List.map_nil, Sequence.toSerial] at hheaded ⊢
    rw [hsoa]
    exact hheaded
  · have hsum := h.held
    rw [List.map_append, List.sum_append, List.map_cons, List.map_nil, List.sum_singleton] at hsum ⊢
    rw [List.filter_append, List.filter_cons_of_pos (by rw [hnot]; rfl), List.filter_nil, List.length_append,
      List.length_singleton, hheld]
    omega
  · intro s hs r hr
    rcases List.mem_append.mp hs with hs | hs
    · obtain ⟨hmem, hnot⟩ := h.members s (List.mem_append_left _ hs) r hr
      exact ⟨List.mem_append_left _ hmem, hnot⟩
    · cases List.mem_singleton.mp hs
      rcases hmembers r hr with hr | rfl
      · obtain ⟨hmem, hnot⟩ := h.members current (List.mem_append_right _ (List.mem_singleton_self _)) r hr
        exact ⟨List.mem_append_left _ hmem, hnot⟩
      · exact ⟨List.mem_append_right _ (List.mem_singleton_self _), hnot⟩
  · intro s hs soa hmem
    rcases List.mem_append.mp hs with hs | hs
    · obtain ⟨hin, his⟩ := h.soas s (List.mem_append_left _ hs) soa hmem
      exact ⟨List.mem_append_left _ hin, his⟩
    · cases List.mem_singleton.mp hs
      rw [hsoa] at hmem
      obtain ⟨hin, his⟩ := h.soas current (List.mem_append_right _ (List.mem_singleton_self _)) soa hmem
      exact ⟨List.mem_append_left _ hin, his⟩

theorem Sequenced.head {start : Serial} (h : Sequenced zone rest sequences versions (some start))
    (hsoa : Soa zone rr serial) {current : Sequence} (hlast : sequences.getLast? = some current) :
    Sequenced zone (rest ++ [rr]) (sequences.dropLast ++ [{ current with toSoa := some rr }])
      (versions ++ [(start, serial)]) none := by
  obtain ⟨front, rfl⟩ := List.getLast?_eq_some_iff.mp hlast
  rw [List.dropLast_concat]
  refine ⟨?_, ?_, ?_, ?_, ?_⟩
  · rw [filterMap_apexSerial_soa hsoa, h.serials, List.flatMap_append, Option.toList_none, List.append_nil,
      List.append_assoc]
    rfl
  · have hheaded := h.headed
    rw [List.map_append, Option.toList_some, List.map_cons, List.map_nil, List.map_cons, List.map_nil] at hheaded
    obtain ⟨hfront, -⟩ := List.append_inj' hheaded rfl
    rw [List.map_append, hfront, List.map_append, Option.toList_none, List.map_nil, List.append_nil, List.map_cons,
      List.map_nil, Sequence.toSerial]
    dsimp only [Option.bind_some]
    rw [hsoa.apexSerial]
    rfl
  · have hsum := h.held
    rw [length_filter_soa hsoa.1, ← hsum, List.map_append, List.map_append]
    rfl
  · intro s hs r hr
    have hfrom : ∃ s' ∈ front ++ [current], r ∈ s'.deleted ++ s'.added := by grind
    obtain ⟨s', hs', hr'⟩ := hfrom
    obtain ⟨hmem, hnot⟩ := h.members s' hs' r hr'
    exact ⟨List.mem_append_left _ hmem, hnot⟩
  · intro s hs soa hmem
    rcases List.mem_append.mp hs with hs | hs
    · obtain ⟨hin, his⟩ := h.soas s (List.mem_append_left _ hs) soa hmem
      exact ⟨List.mem_append_left _ hin, his⟩
    · cases List.mem_singleton.mp hs
      cases hmem
      exact ⟨List.mem_append_right _ (List.mem_singleton_self _), hsoa.1⟩

end Sequenced

namespace IxfrAssembler

def openedFull (zone : Name) (soa : ResourceRecord) (serial : Serial) : AxfrAssembler :=
  ⟨zone, [soa], some (soa, serial), false⟩

/-- **Where an assembler can have got to**, and what it holds of the records it has read. -/
inductive Course (zone : Name) : List ResourceRecord → IxfrAssembler → Prop
  | awaiting : Course zone [] (new zone)
  | opened {soa : ResourceRecord} {serial : Serial} (hsoa : Soa zone soa serial) :
      Course zone [soa] ⟨zone, some serial, .betweenSequences, 1, [], openedFull zone soa serial⟩
  | upToDate {soa : ResourceRecord} {serial : Serial} (hsoa : Soa zone soa serial) :
      Course zone [soa] ⟨zone, some serial, .complete, 1, [], openedFull zone soa serial⟩
  | deletions {soa : ResourceRecord} {serial : Serial} (hsoa : Soa zone soa serial) {rest : List ResourceRecord}
      {sequences : List Sequence} {versions : List (Serial × Serial)} {start : Serial}
      (hseq : Sequenced zone rest sequences versions (some start)) (seen : Nat) :
      Course zone (soa :: rest)
        ⟨zone, some serial, .deletions, seen, sequences, openedFull zone soa serial⟩
  | additions {soa : ResourceRecord} {serial : Serial} (hsoa : Soa zone soa serial) {rest : List ResourceRecord}
      {sequences : List Sequence} {versions : List (Serial × Serial)} (hsome : versions ≠ [])
      (hseq : Sequenced zone rest sequences versions none) (seen : Nat) :
      Course zone (soa :: rest)
        ⟨zone, some serial, .additions, seen, sequences, openedFull zone soa serial⟩
  | closed {soa : ResourceRecord} {serial : Serial} (hsoa : Soa zone soa serial) {rest : List ResourceRecord}
      {sequences : List Sequence} {versions : List (Serial × Serial)} (hsome : versions ≠ [])
      (hseq : Sequenced zone rest sequences versions none) {closing : ResourceRecord}
      (hclosing : Soa zone closing serial) (seen : Nat) :
      Course zone (soa :: rest ++ [closing])
        ⟨zone, some serial, .complete, seen, sequences, openedFull zone soa serial⟩
  | full {soa : ResourceRecord} {serial : Serial} (hsoa : Soa zone soa serial) {second : ResourceRecord}
      {rest : List ResourceRecord} (hnot : ∀ r ∈ second :: rest, isZoneSoa zone r = false)
      (hbound : (soa :: second :: rest).length ≤ MAX_TRANSFER_RECORDS) :
      Course zone (soa :: second :: rest) ⟨zone, some serial, .fullTransfer, 2, [],
        ⟨zone, soa :: second :: rest, some (soa, serial), false⟩⟩
  | fullClosed {soa : ResourceRecord} {serial : Serial} (hsoa : Soa zone soa serial) {second : ResourceRecord}
      {rest : List ResourceRecord} (hnot : ∀ r ∈ second :: rest, isZoneSoa zone r = false)
      (hbound : (soa :: second :: rest).length ≤ MAX_TRANSFER_RECORDS) {closing : ResourceRecord}
      (hclosing : isZoneSoa zone closing = true) :
      Course zone (soa :: second :: rest ++ [closing]) ⟨zone, some serial, .complete, 2, [],
        ⟨zone, soa :: second :: rest, some (soa, serial), true⟩⟩

variable {a a' : IxfrAssembler} {read : List ResourceRecord} {progress : Progress}

variable {zone : Name} {rr : ResourceRecord}

theorem Course.zone_eq (h : Course zone read a) : a.zone = zone ∧ a.full.zone = zone := by
  cases h <;> exact ⟨rfl, rfl⟩

theorem inCurrentSequence_eq_ok {change : Sequence → Sequence}
    (h : a.inCurrentSequence change = .ok a') :
    ∃ current, a.sequences.getLast? = some current ∧
      a' = { a with sequences := a.sequences.dropLast ++ [change current] } := by
  rw [inCurrentSequence] at h
  cases hlast : a.sequences.getLast? with
  | none =>
    rw [hlast] at h
    cases h
  | some current => grind

/-- **One record along the course.** -/
theorem Course.acceptRecord (hcourse : Course zone read a)
    (h : a.acceptRecord rr = .ok (progress, a')) : Course zone (read ++ [rr]) a' := by
  obtain ⟨-, hplace⟩ := acceptRecord_cases h
  rw [hcourse.zone_eq.1] at hplace
  cases hcourse with
  | awaiting =>
    rcases hplace with ⟨serial, hsoa, h⟩ | ⟨-, h⟩
    · obtain ⟨⟨_, full⟩, hfull, h⟩ := except_bind_eq_ok.mp h
      obtain ⟨-, ⟨-, serial', hsoa', -, rfl⟩ | ⟨hopen, -⟩ | ⟨hopen, -⟩⟩ := AxfrAssembler.acceptRecord_cases hfull
      · cases Option.some.inj (hsoa.2.symm.trans hsoa'.2)
        cases h
        exact .opened hsoa
      · exact absurd rfl hopen
      · exact absurd rfl hopen
    · cases h
  | opened hsoa =>
    rcases hplace with ⟨serial, hsecond, h⟩ | ⟨hnot, h⟩
    · rw [place] at h
      dsimp only at h
      rw [if_neg fun hand => hand.2 rfl] at h
      cases h
      exact .deletions hsoa (Sequenced.nil.openNext hsecond) _
    · obtain ⟨⟨_, full⟩, hfull, h⟩ := except_bind_eq_ok.mp h
      obtain ⟨-, ⟨hopen, -⟩ | ⟨-, his, -⟩ | ⟨-, -, hbound, rfl, rfl⟩⟩ := AxfrAssembler.acceptRecord_cases hfull
      · cases hopen
      · exact absurd (hnot.symm.trans his) Bool.false_ne_true
      · cases h
        refine .full hsoa (fun r hr => ?_) hbound
        rw [List.mem_singleton.mp hr]
        exact hnot
  | upToDate =>
    rcases hplace with ⟨serial, -, h⟩ | ⟨-, h⟩
    · cases h
    · cases h
  | deletions hsoa hseq =>
    rcases hplace with ⟨serial, hheads, h⟩ | ⟨hnot, h⟩
    · obtain ⟨next, hnext, h⟩ := except_bind_eq_ok.mp h
      obtain ⟨current, hlast, rfl⟩ := inCurrentSequence_eq_ok hnext
      cases h
      exact .additions hsoa (List.append_ne_nil_of_right_ne_nil _ (List.cons_ne_nil _ _)) (hseq.head hheads hlast) _
    · obtain ⟨next, hnext, h⟩ := except_bind_eq_ok.mp h
      obtain ⟨current, hlast, rfl⟩ := inCurrentSequence_eq_ok hnext
      cases h
      refine .deletions hsoa (hseq.store hnot hlast
        (show ({ current with deleted := current.deleted ++ [rr] } : Sequence).toSoa = current.toSoa from rfl) ?_ ?_) _
      · rw [Sequence.held, Sequence.held, List.length_append, List.length_singleton, Nat.add_right_comm]
      · grind
  | additions hsoa hsome hseq =>
    rcases hplace with ⟨serial, hnext, h⟩ | ⟨hnot, h⟩
    · rw [place] at h
      dsimp only at h
      split at h
      · rename_i heq
        cases h
        cases heq
        exact .closed hsoa hsome hseq hnext _
      · cases h
        exact .deletions hsoa (hseq.openNext hnext) _
    · obtain ⟨next, hnext, h⟩ := except_bind_eq_ok.mp h
      obtain ⟨current, hlast, rfl⟩ := inCurrentSequence_eq_ok hnext
      cases h
      refine .additions hsoa hsome (hseq.store hnot hlast
        (show ({ current with added := current.added ++ [rr] } : Sequence).toSoa = current.toSoa from rfl) ?_ ?_) _
      · rw [Sequence.held, Sequence.held, List.length_append, List.length_singleton, Nat.add_assoc]
      · grind
  | closed =>
    rcases hplace with ⟨serial, -, h⟩ | ⟨-, h⟩
    · cases h
    · cases h
  | full =>
    rcases hplace with ⟨serial, -, h⟩ | ⟨-, h⟩
    · cases h
    · cases h
  | fullClosed =>
    rcases hplace with ⟨serial, -, h⟩ | ⟨-, h⟩
    · cases h
    · cases h

theorem Course.acceptNext (hcourse : Course zone read a) (h : a.acceptNext rr = .ok (progress, a')) :
    Course zone (read ++ [rr]) a' ∧ Belongs zone rr := by
  rw [IxfrAssembler.acceptNext] at h
  by_cases hfull : a.state = .fullTransfer
  · rw [if_pos hfull] at h
    obtain ⟨⟨_, full⟩, hnext, h⟩ := except_bind_eq_ok.mp h
    obtain ⟨hbelongs, hcases⟩ := AxfrAssembler.acceptRecord_cases hnext
    rw [hcourse.zone_eq.2] at hbelongs hcases
    refine ⟨?_, hbelongs⟩
    cases hcourse with
    | full hsoa hnot hbound =>
      rcases hcases with ⟨hopen, -⟩ | ⟨-, his, rfl, rfl⟩ | ⟨-, hbeside, hlt, rfl, rfl⟩
      · cases hopen
      · cases h
        exact .fullClosed hsoa hnot hbound his
      · cases h
        refine .full hsoa (fun r hr => ?_) ?_
        · rcases List.mem_append.mp (show r ∈ (_ :: _) ++ [rr] from hr) with hr | hr
          · exact hnot r hr
          · rw [List.mem_singleton.mp hr]
            exact hbeside
        · show ((_ :: _ :: _) ++ [rr]).length ≤ _
          rw [List.length_append, List.length_singleton]
          exact hlt
    | _ => cases hfull
  · rw [if_neg hfull] at h
    refine ⟨hcourse.acceptRecord h, ?_⟩
    obtain ⟨hbelongs, -⟩ := acceptRecord_cases h
    rwa [hcourse.zone_eq.1] at hbelongs

def Reading (zone : Name) (read : List ResourceRecord) (a : IxfrAssembler) : Prop :=
  Course zone read a ∧ ∀ r ∈ read, Belongs zone r

theorem Reading.acceptNext (h : Reading zone read a) (hnext : a.acceptNext rr = .ok (progress, a')) :
    Reading zone (read ++ [rr]) a' := by
  obtain ⟨hcourse, hbelongs⟩ := h.1.acceptNext hnext
  refine ⟨hcourse, fun r hr => ?_⟩
  rcases List.mem_append.mp hr with hr | hr
  · exact h.2 r hr
  · rw [List.mem_singleton.mp hr]
    exact hbelongs

theorem Reading.accept (h : Reading zone read a) {msg : DnsMessage}
    (haccept : a.accept msg = .ok (progress, a')) :
    Reading zone (read ++ readRecords IxfrAssembler.acceptNext a msg.answers) a' := by
  obtain ⟨_, -, haccept⟩ := except_bind_eq_ok.mp haccept
  obtain ⟨⟨first, next⟩, htaken, haccept⟩ := except_bind_eq_ok.mp haccept
  obtain ⟨hcourse, hbelongs⟩ := takeRecords_rule (P := Reading zone) (fun h hnext => h.acceptNext hnext) _ read h htaken
  cases first with
  | complete =>
    cases haccept
    exact ⟨hcourse, hbelongs⟩
  | more =>
    dsimp only at haccept
    split at haccept
    · rename_i hlone
      cases haccept
      refine ⟨?_, hbelongs⟩
      obtain ⟨hstate, -⟩ := hlone
      generalize read ++ readRecords IxfrAssembler.acceptNext a msg.answers = after at hcourse
      cases hcourse with
      | opened hsoa => exact .upToDate hsoa
      | _ => cases hstate
    · cases haccept
      exact ⟨hcourse, hbelongs⟩

def heardFor (zone : Name) (msgs : List DnsMessage) : List ResourceRecord :=
  heard IxfrAssembler.acceptNext IxfrAssembler.accept (new zone) msgs

/-- **What an assembler has got to after the messages it accepted.** -/
theorem course {msgs : List DnsMessage} (h : acceptAll IxfrAssembler.accept (new zone) msgs = .ok a) :
    Reading zone (heardFor zone msgs) a := by
  have hnew : Reading zone [] (new zone) := ⟨.awaiting, fun r hr => by cases hr⟩
  show Reading zone ([] ++ heard IxfrAssembler.acceptNext IxfrAssembler.accept (new zone) msgs) a
  exact acceptAll_rule (fun h haccept => h.accept haccept) msgs [] hnew h

end IxfrAssembler

/-! ## The bound -/

structure AxfrAssembler.Bounded (a : AxfrAssembler) : Prop where
  bound : a.records.length ≤ MAX_TRANSFER_RECORDS
  unopened : a.openingSoa = none → a.records = []

theorem AxfrAssembler.Bounded.acceptRecord (h : a.Bounded)
    (haccept : a.acceptRecord rr = .ok (progress, a')) : a'.Bounded := by
  obtain ⟨-, ⟨hnone, serial, -, -, rfl⟩ | ⟨hsome, -, -, rfl⟩ | ⟨hsome, -, hlt, -, rfl⟩⟩ := acceptRecord_cases haccept
  · refine ⟨?_, fun hnone => absurd hnone (Option.some_ne_none _)⟩
    rw [h.unopened hnone, List.nil_append, List.length_singleton, MAX_TRANSFER_RECORDS]
    omega
  · exact ⟨h.bound, h.unopened⟩
  · refine ⟨?_, fun hnone => absurd hnone hsome⟩
    rw [List.length_append, List.length_singleton]
    exact hlt

theorem AxfrAssembler.Bounded.accept (h : a.Bounded) {msg : DnsMessage}
    (haccept : a.accept msg = .ok (progress, a')) : a'.Bounded := by
  obtain ⟨_, -, htaken⟩ := except_bind_eq_ok.mp haccept
  exact takeRecords_rule (P := fun _ a => a.Bounded) (fun h hnext => h.acceptRecord hnext) msg.answers [] h htaken

theorem AxfrAssembler.held_le {msgs : List DnsMessage}
    (h : acceptAll AxfrAssembler.accept (new zone) msgs = .ok a) :
    a.records.length ≤ MAX_TRANSFER_RECORDS := by
  have hnew : (new zone).Bounded := ⟨Nat.zero_le _, fun _ => rfl⟩
  have hrun : a.Bounded := @acceptAll_rule _ AxfrAssembler.acceptRecord _ (fun _ a => a.Bounded)
    (fun h hnext => h.accept hnext) msgs [] _ _ hnew h
  exact hrun.bound

def IxfrAssembler.held (a : IxfrAssembler) : Nat := a.full.records.length + (a.sequences.map Sequence.held).sum

def others (zone : Name) (records : List ResourceRecord) : Nat :=
  (records.filter fun r => !isZoneSoa zone r).length

theorem others_cons_soa {soa : ResourceRecord} (hsoa : isZoneSoa zone soa = true)
    (rest : List ResourceRecord) : others zone (soa :: rest) = others zone rest := by
  rw [others, List.filter_cons_of_neg (by rw [hsoa]; exact Bool.false_ne_true), others]

theorem others_append_soa {soa : ResourceRecord} (hsoa : isZoneSoa zone soa = true)
    (rest : List ResourceRecord) :
    others zone (rest ++ [soa]) = others zone rest := length_filter_soa hsoa

theorem others_all {records : List ResourceRecord} (hnot : ∀ r ∈ records, isZoneSoa zone r = false) :
    others zone records = records.length := by
  rw [others, List.filter_eq_self.mpr fun r hr => by rw [hnot r hr]; rfl]

theorem IxfrAssembler.Course.held_eq {read : List ResourceRecord} {a : IxfrAssembler}
    (h : Course zone read a) : a.held = others zone read + min 1 read.length := by
  cases h with
  | awaiting => rfl
  | opened hsoa =>
    rw [others_cons_soa hsoa.1]
    rfl
  | upToDate hsoa =>
    rw [others_cons_soa hsoa.1]
    rfl
  | deletions hsoa hseq =>
    rw [held, hseq.held, others_cons_soa hsoa.1, others, List.length_cons, Nat.min_eq_left (by omega), Nat.add_comm]
    rfl
  | additions hsoa _ hseq =>
    rw [held, hseq.held, others_cons_soa hsoa.1, others, List.length_cons, Nat.min_eq_left (by omega), Nat.add_comm]
    rfl
  | closed hsoa _ hseq hclosing =>
    rw [others_append_soa hclosing.1, held, hseq.held, others_cons_soa hsoa.1, others, List.length_append,
      List.length_cons, Nat.min_eq_left (by omega), Nat.add_comm]
    rfl
  | full hsoa hnot =>
    rw [others_cons_soa hsoa.1, others_all hnot]
    rfl
  | fullClosed hsoa hnot _ hclosing =>
    rw [others_append_soa hclosing, others_cons_soa hsoa.1, others_all hnot, List.length_append, List.length_singleton,
      Nat.min_eq_left (by omega)]
    rfl

/-- **When an answer stays within the bound.** A whole zone's transfer always does; an incremental
one does exactly while fewer records than the bound, beside the zone's SOAs, were read. -/
theorem held_le_iff (zone : Name) (msgs : List DnsMessage) :
    (∀ a, acceptAll AxfrAssembler.accept (AxfrAssembler.new zone) msgs = .ok a →
      a.records.length ≤ MAX_TRANSFER_RECORDS) ∧
    ∀ a, acceptAll IxfrAssembler.accept (IxfrAssembler.new zone) msgs = .ok a →
      (a.held ≤ MAX_TRANSFER_RECORDS ↔ others zone (IxfrAssembler.heardFor zone msgs) < MAX_TRANSFER_RECORDS) := by
  refine ⟨fun a h => AxfrAssembler.held_le h, fun a h => ?_⟩
  have hheld := (IxfrAssembler.course h).1.held_eq
  have hlen : others zone (IxfrAssembler.heardFor zone msgs) ≤ (IxfrAssembler.heardFor zone msgs).length :=
    List.length_filter_le _ _
  have hmax : 0 < MAX_TRANSFER_RECORDS := by decide
  rw [hheld]
  omega

def replyOf (answers : List ResourceRecord) : DnsMessage :=
  ⟨0, true, .query, true, false, false, false, false, false, .ok, [], answers, [], [], none⟩

def soaRecord (serial : UInt8) : ResourceRecord := asRecord (rootSoaAt serial)

def addressRecord (last : UInt8) : ResourceRecord := asRecord (rootAddress last)

/-- The answer of one increment, an address for another: two records are held besides the SOAs. -/
def oneIncrement : DnsMessage :=
  replyOf [soaRecord 2, soaRecord 1, addressRecord 1, soaRecord 2, addressRecord 3, soaRecord 2]

theorem held_le_iff_increment : ∃ a,
    acceptAll IxfrAssembler.accept (IxfrAssembler.new Name.root) [oneIncrement] = .ok a ∧
      0 < a.held ∧ a.held ≤ MAX_TRANSFER_RECORDS := by
  have hheld : (acceptAll IxfrAssembler.accept (IxfrAssembler.new Name.root) [oneIncrement]).toOption.map
      (fun a => decide (0 < a.held)) = some true := by decide +kernel
  obtain ⟨a, haccept, hpos⟩ := Option.map_eq_some_iff.mp hheld
  have hok : acceptAll IxfrAssembler.accept (IxfrAssembler.new Name.root) [oneIncrement] = .ok a := by
    cases hresult : acceptAll IxfrAssembler.accept (IxfrAssembler.new Name.root) [oneIncrement] with
    | error e =>
      rw [hresult] at haccept
      cases haccept
    | ok result =>
      rw [hresult] at haccept
      cases haccept
      rfl
  refine ⟨a, hok, of_decide_eq_true hpos, ((held_le_iff Name.root [oneIncrement]).2 a hok).mpr ?_⟩
  decide +kernel

theorem IxfrAssembler.acceptNext_deletion {a : IxfrAssembler} (hstate : a.state = .deletions)
    (hsome : a.sequences ≠ []) (hbelongs : belongsHere rr a.zone = .ok rr.name)
    (hnot : isZoneSoa a.zone rr = false) :
    ∃ a', a.acceptNext rr = .ok (.more, a') ∧ a'.state = .deletions ∧ a'.sequences ≠ [] ∧ a'.zone = a.zone ∧
      a'.held = a.held + 1 := by
  obtain ⟨current, hlast⟩ := Option.ne_none_iff_exists'.mp (mt List.getLast?_eq_none_iff.mp hsome)
  obtain ⟨front, hfront⟩ := List.getLast?_eq_some_iff.mp hlast
  refine ⟨{ a with recordsSeen := a.recordsSeen + 1, sequences := a.sequences.dropLast ++
    [{ current with deleted := current.deleted ++ [rr] }] }, ?_, hstate, ?_, rfl, ?_⟩
  · have hserial : soaSerial a.zone rr = .ok none := by rw [soaSerial, hnot]; rfl
    rw [acceptNext, hstate, if_neg (by decide), IxfrAssembler.acceptRecord, hbelongs]
    show (soaSerial a.zone rr).bind _ = _
    rw [hserial]
    show place _ rr none = _
    rw [place]
    dsimp only
    rw [hstate]
    dsimp only
    rw [inCurrentSequence, hlast]
    rfl
  · exact List.append_ne_nil_of_right_ne_nil _ (List.cons_ne_nil _ _)
  · rw [held, held]
    dsimp only
    rw [hfront, List.dropLast_concat, List.map_append, List.map_append, List.sum_append, List.sum_append,
      List.map_cons, List.map_nil, List.sum_singleton, List.map_cons, List.map_nil, List.sum_singleton,
      Sequence.held, Sequence.held, List.length_append, List.length_singleton]
    dsimp only
    omega

theorem IxfrAssembler.takeRecords_deletions (n : Nat) {a : IxfrAssembler}
    (hstate : a.state = .deletions) (hsome : a.sequences ≠ [])
    (hbelongs : belongsHere rr a.zone = .ok rr.name) (hnot : isZoneSoa a.zone rr = false) :
    ∃ a', takeRecords IxfrAssembler.acceptNext a (List.replicate n rr) = .ok (.more, a') ∧
      a'.state = .deletions ∧ a'.held = a.held + n := by
  induction n generalizing a with
  | zero => exact ⟨a, rfl, hstate, rfl⟩
  | succ n ih =>
    obtain ⟨next, htaken, hstate', hsome', hzone, hheld⟩ := acceptNext_deletion hstate hsome hbelongs hnot
    obtain ⟨a', hrest, hstate'', hheld'⟩ := ih hstate' hsome' (hzone ▸ hbelongs) (hzone ▸ hnot)
    refine ⟨a', ?_, hstate'', by omega⟩
    rw [List.replicate_succ, takeRecords, htaken]
    exact hrest

def longAnswer (n : Nat) : DnsMessage :=
  replyOf (soaRecord 10 :: soaRecord 5 :: List.replicate n (addressRecord 1))

theorem accept_longAnswer (n : Nat) :
    ∃ a, acceptAll IxfrAssembler.accept (IxfrAssembler.new Name.root) [longAnswer n] = .ok a ∧ a.held = n + 1 := by
  have hfirst : (IxfrAssembler.new Name.root).acceptNext (soaRecord 10) = .ok (.more,
      ⟨Name.root, some ⟨10⟩, .betweenSequences, 1, [],
        IxfrAssembler.openedFull Name.root (soaRecord 10) ⟨10⟩⟩) := by decide +kernel
  have hsecond : (⟨Name.root, some ⟨10⟩, .betweenSequences, 1, [],
      IxfrAssembler.openedFull Name.root (soaRecord 10) ⟨10⟩⟩ : IxfrAssembler).acceptNext (soaRecord 5) =
      .ok (.more, ⟨Name.root, some ⟨10⟩, .deletions, 2, [.default],
        IxfrAssembler.openedFull Name.root (soaRecord 10) ⟨10⟩⟩) := by decide +kernel
  obtain ⟨a, htaken, hstate, hheld⟩ := IxfrAssembler.takeRecords_deletions n
    (show (⟨Name.root, some ⟨10⟩, .deletions, 2, [.default],
      IxfrAssembler.openedFull Name.root (soaRecord 10) ⟨10⟩⟩ : IxfrAssembler).state = .deletions from rfl)
    (List.cons_ne_nil _ _) (show belongsHere (addressRecord 1) Name.root = _ by decide +kernel)
    (show isZoneSoa Name.root (addressRecord 1) = false by decide +kernel)
  refine ⟨a, ?_, by rw [hheld, Nat.add_comm]; rfl⟩
  have haccept : (IxfrAssembler.new Name.root).accept (longAnswer n) = .ok (.more, a) := by
    rw [IxfrAssembler.accept]
    show (takeRecords IxfrAssembler.acceptNext (IxfrAssembler.new Name.root)
      (soaRecord 10 :: soaRecord 5 :: List.replicate n (addressRecord 1))).bind _ = _
    rw [takeRecords, hfirst]
    show (takeRecords IxfrAssembler.acceptNext _ (soaRecord 5 :: List.replicate n (addressRecord 1))).bind _ = _
    rw [takeRecords, hsecond]
    show (takeRecords IxfrAssembler.acceptNext _ (List.replicate n (addressRecord 1))).bind _ = _
    rw [htaken]
    show (if a.state = .betweenSequences ∧ a.recordsSeen = 1 then _ else _) = _
    rw [if_neg fun hlone => by rw [hstate] at hlone; cases hlone.1]
    rfl
  rw [acceptAll, haccept]
  rfl

theorem held_unbounded : ¬ ∀ zone msgs a,
    acceptAll IxfrAssembler.accept (IxfrAssembler.new zone) msgs = .ok a → a.held ≤ MAX_TRANSFER_RECORDS := by
  intro hall
  obtain ⟨a, haccept, hheld⟩ := accept_longAnswer MAX_TRANSFER_RECORDS
  have hbound := hall Name.root _ a haccept
  omega

end Rdns.Transfer
