import Rdns.Core.NameLedger
import Rdns.Core.RdataGrowth
import Rdns.Core.RoundTrip
import Rdns.Lib.Alike

/-!
# Rdns — Messages that begin alike

What the writer has put into a message reads the same whatever comes after it: the
pointers of a written name lead backwards, and stored RDATA spells its names out. So
two messages with the same header and the same records in front of their OPT read
alike, both refused or both taken, up to that OPT.
-/

namespace Rdns.Core

open Rdns.Lib RecordTypes

/-! ## Stored RDATA -/

/-- Where the name begins in RDATA of a type that holds one and that `write_rdata`
writes octet for octet. -/
def verbatimName (rtype : Rtype) : Option Nat :=
  if rtype = DNAME ∨ rtype = NSEC then some 0
  else if rtype = SVCB ∨ rtype = HTTPS then some 2
  else if rtype = RRSIG then some 18
  else none

def RecordData.StandsAlone (stored : RecordData) : Prop :=
  stored.rdata = [] ∨ ∀ front, verbatimName stored.rtype = some front →
    ∃ name : Name, ∃ rest, stored.rdata.drop front = name.wire ++ rest

def SameThen {α : Type} (tail tail' : Octets) (a b : α × Octets) : Prop :=
  a.1 = b.1 ∧ a.2 = tail ∧ b.2 = tail'

section Front

variable {front data data' : Octets}

variable {pos : Nat} {c c' : NameCompressor} {depth : Nat → Nat} {body bytes : Octets} {name : Name}
  {rr : ResourceRecord} {edns : Edns}

theorem name_alike (hdata : front <+: data) (hdata' : front <+: data')
    (htable : TableOk front pos depth c) (hplaced : PlacedAt front pos (nameOctets c name))
    (tail tail' : Octets) :
    Alike (SameThen tail tail') (Name.fromWireIn data (nameOctets c name ++ tail))
      (Name.fromWireIn data' (nameOctets c name ++ tail')) := by
  obtain ⟨shown, -, hresolves⟩ := namePlan_resolves htable hplaced
  by_cases hshallow : nameDepth c depth name ≤ MAX_DEPTH
  · rw [Name.fromWireIn_resolves (hresolves.mono hdata) hshallow,
      Name.fromWireIn_resolves (hresolves.mono hdata') hshallow]
    exact .ok ⟨rfl, rfl, rfl⟩
  · obtain ⟨e, he⟩ := Name.fromWireIn_tooDeep (hresolves.mono hdata) (by omega) tail
    obtain ⟨e', he'⟩ := Name.fromWireIn_tooDeep (hresolves.mono hdata') (by omega) tail'
    rw [he, he']
    exact .error

theorem fromWireIn_full (name : Name) (rest : Octets) :
    Name.fromWireIn data (name.wire ++ rest) = Name.fromWireIn data' (name.wire ++ rest) := by
  rw [Name.fromWireIn_wire, Name.fromWireIn_wire]

/-! ## RDATA -/

theorem decodeRrsig_full {rdata rest : Octets} (h : rdata.drop 18 = name.wire ++ rest) :
    decodeRrsig data rdata = decodeRrsig data' rdata := by
  have hsame : ∀ bytes, bytes = rdata.drop 18 →
      Name.fromWireIn data bytes = Name.fromWireIn data' bytes := by
    rintro bytes rfl
    rw [h]
    exact fromWireIn_full name rest
  have hread : ∀ {α β : Type} {x : Except WireError α} {f g : α → Except WireError β},
      (∀ a, x = .ok a → f a = g a) → (x >>= f) = x >>= g := by
    intro α β x f g hfg
    cases x with
    | ok a => exact hfg a rfl
    | error e => rfl
  unfold decodeRrsig
  refine hread fun ⟨covered, r₁⟩ h₁ => hread fun ⟨algorithm, labels, r₂⟩ h₂ =>
    hread fun ⟨ttl, r₃⟩ h₃ => hread fun ⟨expiration, r₄⟩ h₄ => hread fun ⟨inception, r₅⟩ h₅ =>
      hread fun ⟨keyTag, r₆⟩ h₆ => ?_
  -- 2, 2, 4, 4, 4 and 2 octets stand in front of the signer
  have hrest : r₆ = rdata.drop 18 := by
    rw [(readU16_eq_ok h₆).1, (readU32_eq_ok h₅).1, (readU32_eq_ok h₄).1, (readU32_eq_ok h₃).1,
      (readPair_eq_ok h₂).1, (readU16_eq_ok h₁).1]
    simp only [List.drop_drop]
  simp only [hsame r₆ hrest]

theorem decodeSvcb_full {rdata rest : Octets} (rtype : SvcbType)
    (h : rdata.drop 2 = name.wire ++ rest) :
    decodeSvcb rtype data rdata = decodeSvcb rtype data' rdata := by
  unfold decodeSvcb
  cases hread : readU16 rdata with
  | error e => rfl
  | ok r =>
    obtain ⟨priority, after⟩ := r
    have hafter : after = name.wire ++ rest := (readU16_eq_ok hread).1.trans h
    simp only [bind, Except.bind, hafter, Name.fromWireIn_wire]

/-- **RDATA that stands alone decodes the same in every message.** -/
theorem decode_standsAlone {stored : RecordData} (h : stored.StandsAlone)
    (hplain : stored.rtype ∉ compressedTypes) :
    ParsedRecord.decode stored.rtype stored.rdata data
      = ParsedRecord.decode stored.rtype stored.rdata data' := by
  obtain ⟨rtype, rdata⟩ := stored
  simp only [compressedTypes, List.mem_cons, List.not_mem_nil, or_false, not_or] at hplain
  obtain ⟨hns, hcname, hptr, hsoa, hmx⟩ := hplain
  unfold ParsedRecord.decode
  dsimp only
  refine ite_congr rfl (fun _ => rfl) fun hempty => ?_
  have hname : ∀ front, verbatimName rtype = some front →
      ∃ name : Name, ∃ rest, rdata.drop front = name.wire ++ rest :=
    h.resolve_left fun hnil => hempty (List.isEmpty_iff.mpr hnil)
  have hwhole : verbatimName rtype = some 0 → ∃ name : Name, ∃ rest, rdata = name.wire ++ rest := hname 0
  refine ite_congr rfl (fun _ => rfl) fun _ => ?_
  refine ite_congr rfl (fun h => absurd h hns) fun _ => ?_
  refine ite_congr rfl (fun h => absurd h hcname) fun _ => ?_
  refine ite_congr rfl (fun h => absurd h hsoa) fun _ => ?_
  refine ite_congr rfl (fun h => absurd h hptr) fun _ => ?_
  refine ite_congr rfl (fun hdname => ?_) fun _ => ?_
  · obtain ⟨name, rest, hrdata⟩ := hwhole (by rw [verbatimName, if_pos (.inl hdname)])
    simp only [decodeOneName, hrdata, Name.fromWireIn_wire]
  refine ite_congr rfl (fun hsvcb => ?_) fun _ => ?_
  · obtain ⟨name, rest, hrdata⟩ := hname 2 (by rw [hsvcb]; rfl)
    exact decodeSvcb_full .svcb hrdata
  refine ite_congr rfl (fun hhttps => ?_) fun _ => ?_
  · obtain ⟨name, rest, hrdata⟩ := hname 2 (by rw [hhttps]; rfl)
    exact decodeSvcb_full .https hrdata
  refine ite_congr rfl (fun h => absurd h hmx) fun _ => ?_
  refine ite_congr rfl (fun _ => rfl) fun _ => ?_
  refine ite_congr rfl (fun _ => rfl) fun _ => ?_
  refine ite_congr rfl (fun _ => rfl) fun _ => ?_
  refine ite_congr rfl (fun _ => rfl) fun _ => ?_
  refine ite_congr rfl (fun hrrsig => ?_) fun _ => ?_
  · obtain ⟨name, rest, hrdata⟩ := hname 18 (by rw [hrrsig]; rfl)
    exact decodeRrsig_full hrdata
  refine ite_congr rfl (fun hnsec => ?_) fun _ => rfl
  obtain ⟨name, rest, hrdata⟩ := hwhole (by rw [hnsec]; rfl)
  simp only [decodeNsec, hrdata, Name.fromWireIn_wire]

theorem fromWire_alike_of_decode {rtype : Rtype}
    (h : Alike (fun a b => a = b) (ParsedRecord.decode rtype body data)
      (ParsedRecord.decode rtype body data')) :
    Alike (fun a b => a = b) (RecordData.fromWire rtype body data)
      (RecordData.fromWire rtype body data') := by
  unfold RecordData.fromWire
  refine h.bind ?_
  rintro parsed _ rfl
  exact .refl _

theorem decode_alike_of_body {rtype : Rtype} (decode : Octets → Except WireError ParsedRecord)
    (hdecode : ∀ data, body ≠ [] → ParsedRecord.decode rtype body data = decode data)
    (h : Alike (fun a b => a = b) (decode data) (decode data')) :
    Alike (fun a b => a = b) (ParsedRecord.decode rtype body data)
      (ParsedRecord.decode rtype body data') := by
  by_cases hbody : body = []
  · subst hbody
    exact .refl _
  · rw [hdecode data hbody, hdecode data' hbody]
    exact h

theorem decodeOneName_alike {tail tail' : Octets} (wrap : Name → ParsedRecord)
    (h : Alike (SameThen tail tail') (Name.fromWireIn data body) (Name.fromWireIn data' body)) :
    Alike (fun a b => a = b) (decodeOneName wrap data body) (decodeOneName wrap data' body) := by
  refine h.bind ?_
  rintro ⟨name, rest⟩ ⟨_, rest'⟩ ⟨rfl, -, -⟩
  exact .ok rfl

theorem decodeSoa_alike {mname rname : Name} (hdata : front <+: data) (hdata' : front <+: data')
    (htable : TableOk front pos depth c) (rest : Octets) (hplaced : PlacedAt front pos
      (nameOctets c mname ++ (nameOctets (Core.afterName c mname pos) rname ++ rest))) :
    Alike (fun a b => a = b)
      (decodeSoa data (nameOctets c mname ++ (nameOctets (Core.afterName c mname pos) rname ++ rest)))
      (decodeSoa data' (nameOctets c mname ++ (nameOctets (Core.afterName c mname pos) rname ++ rest))) := by
  refine (name_alike hdata hdata' htable hplaced.left _ _).bind ?_
  rintro ⟨mshown, after⟩ ⟨_, after'⟩ ⟨rfl, rfl, rfl⟩
  refine (name_alike hdata hdata' (htable.afterName hplaced.left) hplaced.right.left _ _).bind ?_
  rintro ⟨rshown, after⟩ ⟨rshown', after'⟩ ⟨hshown, hafter, hafter'⟩
  obtain rfl : rshown = rshown' := hshown
  obtain rfl : after = rest := hafter
  obtain rfl : after' = after := hafter'
  exact .refl _

theorem decodeMx_alike {preference name : Octets} (hlen : preference.length = 2)
    {tail tail' : Octets}
    (h : Alike (SameThen tail tail') (Name.fromWireIn data name) (Name.fromWireIn data' name)) :
    Alike (fun a b => a = b) (decodeMx data (preference ++ name))
      (decodeMx data' (preference ++ name)) := by
  refine Alike.bind_same fun ⟨value, rest⟩ hread => ?_
  have hrest : rest = name := by
    rw [(readU16_eq_ok hread).1, ← hlen, List.drop_left]
  subst hrest
  refine h.bind ?_
  rintro ⟨exchange, after⟩ ⟨_, after'⟩ ⟨rfl, -, -⟩
  exact .ok rfl

/-- **RDATA as written reads the same in both messages.** -/
theorem fromWire_alike (hdata : front <+: data) (hdata' : front <+: data') {stored : RecordData}
    (hstored : stored.StandsAlone)
    (hplan : rdataPlan stored.rtype stored.rdata c pos = (body, .ok c'))
    (hplaced : PlacedAt front pos body) (htable : TableOk front pos depth c) :
    Alike (fun a b => a = b) (RecordData.fromWire stored.rtype body data)
      (RecordData.fromWire stored.rtype body data') := by
  apply fromWire_alike_of_decode
  have hdispatch : ∀ {body : Octets}, body ≠ [] → ¬ body.isEmpty = true := fun hbody h =>
    hbody (List.isEmpty_iff.mp h)
  unfold rdataPlan at hplan
  split at hplan
  · -- NS, CNAME and PTR
    rename_i hone
    cases hread : Name.fromWire stored.rdata with
    | error e =>
      rw [hread] at hplan
      cases hplan
    | ok x =>
      rw [hread] at hplan
      simp only [Plan.attempt] at hplan
      obtain ⟨first, c₁, second, hfirst, hsecond, rfl⟩ := Plan.seq_eq_ok.mp hplan
      cases hfirst
      cases hsecond
      have hname := name_alike hdata hdata' htable hplaced.left x.2 x.2
      have hall : ∀ wrap, Alike (fun a b => a = b)
          (decodeOneName wrap data (nameOctets c x.1 ++ x.2))
          (decodeOneName wrap data' (nameOctets c x.1 ++ x.2)) := fun wrap =>
        decodeOneName_alike wrap hname
      rcases hone with hrtype | hrtype | hrtype
      · refine decode_alike_of_body (fun data => decodeOneName .ns data _) (fun data hbody => ?_) (hall .ns)
        rw [hrtype, ParsedRecord.decode, if_neg (hdispatch hbody)]
        rfl
      · refine decode_alike_of_body (fun data => decodeOneName .cname data _) (fun data hbody => ?_) (hall .cname)
        rw [hrtype, ParsedRecord.decode, if_neg (hdispatch hbody)]
        rfl
      · refine decode_alike_of_body (fun data => decodeOneName .ptr data _) (fun data hbody => ?_) (hall .ptr)
        rw [hrtype, ParsedRecord.decode, if_neg (hdispatch hbody)]
        rfl
  rename_i hone
  split at hplan
  · -- SOA
    rename_i hrtype
    cases hread : Name.fromWire stored.rdata with
    | error e =>
      rw [hread] at hplan
      cases hplan
    | ok x =>
      rw [hread] at hplan
      simp only [Plan.attempt] at hplan
      cases hread' : Name.fromWire x.2 with
      | error e =>
        rw [hread'] at hplan
        cases hplan
      | ok y =>
        rw [hread'] at hplan
        simp only at hplan
        obtain ⟨first, c₁, second, hfirst, hsecond, rfl⟩ := Plan.seq_eq_ok.mp hplan
        obtain ⟨third, c₂, fourth, hthird, hfourth, rfl⟩ := Plan.seq_eq_ok.mp hsecond
        cases hfirst
        cases hthird
        cases hfourth
        refine decode_alike_of_body (fun data => decodeSoa data _) (fun data hbody => ?_)
          (decodeSoa_alike hdata hdata' htable y.2 hplaced)
        rw [hrtype, ParsedRecord.decode, if_neg (hdispatch hbody)]
        rfl
  rename_i hsoa
  split at hplan
  · -- MX
    rename_i hrtype
    split at hplan
    · cases hplan
    · rename_i hlong
      have hlen : (stored.rdata.take 2).length = 2 := by
        rw [List.length_take]
        omega
      obtain ⟨first, c₁, second, hfirst, hsecond, rfl⟩ := Plan.seq_eq_ok.mp hplan
      cases hfirst
      cases hread : Name.fromWire (stored.rdata.drop 2) with
      | error e =>
        rw [hread] at hsecond
        cases hsecond
      | ok x =>
        rw [hread] at hsecond
        simp only [Plan.attempt] at hsecond
        obtain ⟨third, c₂, fourth, hthird, hfourth, rfl⟩ := Plan.seq_eq_ok.mp hsecond
        cases hthird
        cases hfourth
        have hname := name_alike hdata hdata' (htable.advance (Nat.le_add_right ..))
          hplaced.right.left x.2 x.2
        refine decode_alike_of_body (fun data => decodeMx data _) (fun data hbody => ?_)
          (decodeMx_alike hlen hname)
        rw [hrtype, ParsedRecord.decode, if_neg (hdispatch hbody)]
        rfl
  · -- every other type goes out octet for octet
    rename_i hmx
    cases hplan
    have hplain : stored.rtype ∉ compressedTypes := by
      simp only [compressedTypes, List.mem_cons, List.not_mem_nil, or_false, not_or]
      simp only [not_or] at hone
      exact ⟨hone.1, hone.2.1, hone.2.2, hsoa, hmx⟩
    have hsame : ParsedRecord.decode stored.rtype stored.rdata data
        = ParsedRecord.decode stored.rtype stored.rdata data' := decode_standsAlone hstored hplain
    rw [hsame]
    exact .refl _

/-! ## Records and sections -/

/-- What `plan` writes into the common front is read alike in both messages, each
time before its own remainder. -/
def ReadsAlike {α : Type} (front data data' : Octets) (plan : WirePlan)
    (parse : Octets → Octets → Except WireError (α × Octets)) : Prop :=
  ∀ ⦃c c' : NameCompressor⦄ ⦃depth : Nat → Nat⦄ ⦃pos : Nat⦄ ⦃bytes : Octets⦄,
    plan c pos = (bytes, .ok c') → PlacedAt front pos bytes → TableOk front pos depth c →
    ∀ tail tail', Alike (SameThen tail tail') (parse data (bytes ++ tail)) (parse data' (bytes ++ tail'))

theorem readMany_alike {ι α : Type} {plan : ι → WirePlan} {segments : ι → List Segment}
    {parse : Octets → Octets → Except WireError (α × Octets)} (items : List ι)
    (htracks : ∀ i, Tracks (plan i) (segments i))
    (hreads : ∀ i ∈ items, ReadsAlike front data data' (plan i) parse) :
    ReadsAlike front data data' (Plan.all (items.map plan))
      fun data => readMany (parse data) items.length := by
  induction items with
  | nil =>
    intro c c' depth pos bytes hplan _ _ tail tail'
    cases hplan
    exact .ok ⟨rfl, rfl, rfl⟩
  | cons i rest ih =>
    intro c c' depth pos bytes hplan hplaced htable tail tail'
    obtain ⟨first, c₁, second, hfirst, hsecond, rfl⟩ := Plan.seq_eq_ok.mp hplan
    obtain ⟨depth₁, -, htable₁⟩ := htracks i hfirst hplaced.left htable
    have hmany := ih (fun j hj => hreads j (List.mem_cons_of_mem _ hj)) hsecond hplaced.right
      htable₁
    rw [List.append_assoc, List.append_assoc]
    refine (hreads i (List.mem_cons_self ..) hfirst hplaced.left htable _ _).bind ?_
    rintro ⟨x, after⟩ ⟨_, after'⟩ ⟨rfl, rfl, rfl⟩
    refine (hmany tail tail').bind ?_
    rintro ⟨xs, after⟩ ⟨xs', after'⟩ ⟨hxs, hafter, hafter'⟩
    exact .ok ⟨congrArg (x :: ·) hxs, hafter, hafter'⟩

section

variable (hdata : front <+: data) (hdata' : front <+: data')
include hdata hdata'

theorem query_alike (q : QuerySection) :
    ReadsAlike front data data' (queryPlan q) QuerySection.tryFromBytes := by
  intro c c' depth pos bytes hplan hplaced htable tail tail'
  obtain ⟨first, c₁, second, hfirst, hsecond, rfl⟩ := Plan.seq_eq_ok.mp hplan
  cases hfirst
  cases hsecond
  simp only [List.append_assoc]
  refine (name_alike hdata hdata' htable hplaced.left _ _).bind ?_
  rintro ⟨shown, after⟩ ⟨_, after'⟩ ⟨rfl, rfl, rfl⟩
  simp only [readU16_be16, bind, Except.bind, pure, Except.pure]
  exact .ok ⟨rfl, rfl, rfl⟩

/-- **The wire fields of a record as written**, and what is made of them: the same in
both messages. -/
theorem rr_fields_alike (hstored : rr.rdata.StandsAlone) (hplan : rrPlan rr c pos = (bytes, .ok c'))
    (hplaced : PlacedAt front pos bytes) (htable : TableOk front pos depth c) :
    ∃ parts : RecordParts, (∀ tail, readRecordParts (bytes ++ tail) = .ok (parts, tail)) ∧
      Alike (fun a b => a = b) (ResourceRecord.fromParts data parts)
        (ResourceRecord.fromParts data' parts) := by
  obtain ⟨body, rfl, hlen, hbody⟩ := rrPlan_eq_ok hplan
  obtain ⟨hname, hrdata⟩ := placedAt_rr hplaced
  obtain ⟨shown, -, hresolves⟩ := namePlan_resolves htable hname
  obtain ⟨dname, hread, hgood, hbad⟩ := (hresolves.mono hdata).read
  obtain ⟨dname', hread', hgood', hbad'⟩ := (hresolves.mono hdata').read
  have hsame : dname' = dname := by
    have h := (hread' []).symm.trans (hread [])
    cases h
    rfl
  subst hsame
  have hdecode : Alike (fun a b => a = b) (decodeWire data dname') (decodeWire data' dname') := by
    by_cases hshallow : nameDepth c depth rr.name ≤ MAX_DEPTH
    · rw [hgood hshallow, hgood' hshallow]
      exact .ok rfl
    · obtain ⟨e, he⟩ := hbad (by omega)
      obtain ⟨e', he'⟩ := hbad' (by omega)
      rw [he, he']
      exact .error
  refine ⟨_, readRecordParts_fields _ _ _ hread hlen, hdecode.bind ?_⟩
  rintro name _ rfl
  refine (fromWire_alike hdata hdata' hstored hbody hrdata
    ((htable.afterName hname).advance (Nat.le_add_right _ 10))).bind ?_
  rintro rdata _ rfl
  exact .ok rfl

theorem rr_alike (hstored : rr.rdata.StandsAlone) :
    ReadsAlike front data data' (rrPlan rr) ResourceRecord.tryFromBytes := by
  intro c c' depth pos bytes hplan hplaced htable tail tail'
  obtain ⟨parts, hparts, hfrom⟩ := rr_fields_alike hdata hdata' hstored hplan hplaced htable
  rw [ResourceRecord.tryFromBytes, ResourceRecord.tryFromBytes, hparts, hparts]
  refine hfrom.bind ?_
  rintro shown _ rfl
  exact .ok ⟨rfl, rfl, rfl⟩

theorem additional_alike (hstored : rr.rdata.StandsAlone) :
    ReadsAlike front data data' (rrPlan rr) Additional.tryFromBytes := by
  intro c c' depth pos bytes hplan hplaced htable tail tail'
  obtain ⟨parts, hparts, hfrom⟩ := rr_fields_alike hdata hdata' hstored hplan hplaced htable
  rw [Additional.tryFromBytes, Additional.tryFromBytes, hparts, hparts]
  simp only [bind, Except.bind]
  by_cases hopt : parts.rtype = OPT
  · rw [if_pos hopt, if_pos hopt]
    exact .ok ⟨rfl, rfl, rfl⟩
  · rw [if_neg hopt, if_neg hopt]
    refine hfrom.bind ?_
    rintro shown _ rfl
    exact .ok ⟨rfl, rfl, rfl⟩

end

/-! ## The OPT, and the whole message -/

def optRecord (edns : Edns) (rcode : UInt16) : Octets :=
  optHead edns rcode ++ (be16 (UInt16.ofNat edns.rdata.length) ++ edns.rdata)

theorem optPlan_eq_ok {rcode : UInt16} (h : optPlan edns rcode c pos = (bytes, .ok c')) :
    bytes = optRecord edns rcode ∧ edns.rdata.length ≤ 65535 ∧ c' = c := by
  unfold optPlan at h
  rw [Plan.seq_octets] at h
  split at h
  · cases h
  · cases h
    exact ⟨rfl, by omega, rfl⟩

theorem readAdditionals_optRecord (hlen : edns.rdata.length ≤ 65535) (rcode : UInt16)
    (data : Octets) :
    readAdditionals data 1 none (optRecord edns rcode)
        = .ok ([], some (edns, UInt16.ofNat (rcode.toNat / 16 % 256))) ∧
      ∀ seen, ∃ e, readAdditionals data 1 (some seen) (optRecord edns rcode) = .error e := by
  have hplan : optPlan edns rcode NameCompressor.new 0
      = (optRecord edns rcode, .ok NameCompressor.new) := by
    rw [optPlan, Plan.seq_octets, if_neg (by omega)]
    rfl
  refine ⟨readAdditionals_opt hplan, fun seen => ?_⟩
  have hroot : ∀ tail, DName.tryFromBytes ([0] ++ tail) = .ok (⟨[], none⟩, tail) :=
    DName.tryFromBytes_root
  have hparts := readRecordParts_fields OPT.code edns.udpPayloadSize
    (optFlags edns rcode) hroot hlen []
  have hbytes : optRecord edns rcode
      = [0] ++ (be16 OPT.code ++ be16 edns.udpPayloadSize
          ++ be32 (optFlags edns rcode))
        ++ (be16 (UInt16.ofNat edns.rdata.length) ++ edns.rdata) ++ [] := by
    simp only [optRecord, optHead, List.append_assoc, List.append_nil]
  rw [readAdditionals, Additional.tryFromBytes, hbytes, hparts]
  exact ⟨_, rfl⟩

def SameButOpt (edns edns' : Edns) (high : UInt16)
    (a b : List ResourceRecord × Option (Edns × UInt16)) : Prop :=
  a.1 = b.1 ∧ a.2 = some (edns, high) ∧ b.2 = some (edns', high)

theorem readAdditionals_alike (hdata : front <+: data) (hdata' : front <+: data')
    {items : List ResourceRecord} (hstored : ∀ rr ∈ items, rr.rdata.StandsAlone)
    (hplan : Plan.all (items.map rrPlan) c pos = (bytes, .ok c'))
    (hplaced : PlacedAt front pos bytes) (htable : TableOk front pos depth c) {edns' : Edns}
    (hlen : edns.rdata.length ≤ 65535) (hlen' : edns'.rdata.length ≤ 65535) (rcode : UInt16)
    (seen : Option (Edns × UInt16)) :
    Alike (SameButOpt edns edns' (UInt16.ofNat (rcode.toNat / 16 % 256)))
      (readAdditionals data (items.length + 1) seen (bytes ++ optRecord edns rcode))
      (readAdditionals data' (items.length + 1) seen (bytes ++ optRecord edns' rcode)) := by
  induction items generalizing c pos depth bytes seen with
  | nil =>
    cases hplan
    rw [List.length_nil, Nat.zero_add, List.nil_append, List.nil_append]
    obtain ⟨hnone, hsome⟩ := readAdditionals_optRecord hlen rcode data
    obtain ⟨hnone', hsome'⟩ := readAdditionals_optRecord hlen' rcode data'
    cases seen with
    | none =>
      rw [hnone, hnone']
      exact .ok ⟨rfl, rfl, rfl⟩
    | some first =>
      obtain ⟨e, he⟩ := hsome first
      obtain ⟨e', he'⟩ := hsome' first
      rw [he, he']
      exact .error
  | cons rr rest ih =>
    obtain ⟨first, c₁, second, hfirst, hsecond, rfl⟩ := Plan.seq_eq_ok.mp hplan
    obtain ⟨depth₁, -, htable₁⟩ := tracks_rr rr hfirst hplaced.left htable
    have hone := additional_alike hdata hdata' (hstored rr (List.mem_cons_self ..)) hfirst
      hplaced.left htable (second ++ optRecord edns rcode) (second ++ optRecord edns' rcode)
    have hrest := ih (fun rr h => hstored rr (List.mem_cons_of_mem _ h)) hsecond hplaced.right htable₁
    rw [List.length_cons, Nat.succ_add, readAdditionals, readAdditionals, List.append_assoc,
      List.append_assoc]
    refine hone.bind ?_
    rintro ⟨item, after⟩ ⟨_, after'⟩ ⟨rfl, rfl, rfl⟩
    cases item with
    | record shown =>
      refine (hrest seen).bind ?_
      rintro ⟨rrs, opt⟩ ⟨_, opt'⟩ ⟨rfl, hopt, hopt'⟩
      exact .ok ⟨rfl, hopt, hopt'⟩
    | opt found flags =>
      simp only
      split
      · exact .error
      · exact hrest _

end Front

def DnsMessage.withEdns (m : DnsMessage) (edns : Edns) : DnsMessage := { m with edns := some edns }

theorem messagePlan_opt {m : DnsMessage} {bytes : Octets} {c : NameCompressor}
    (hplan : messagePlan m NameCompressor.new 0 = (bytes, .ok c)) {edns : Edns}
    (hedns : m.edns = some edns) :
    ∃ rcode counts sections c', m.counts = .ok counts ∧
      ((Plan.all (m.queries.map queryPlan)).seq (Plan.all (m.records.map rrPlan)))
        NameCompressor.new HEADER_LEN = (sections, .ok c') ∧
      edns.rdata.length ≤ 65535 ∧
      bytes = headerOctets m.header rcode counts ++ (sections ++ optRecord edns rcode) := by
  obtain ⟨rcode, counts, body, -, hcounts, rfl, hbody⟩ := messagePlan_ok_iff.mp hplan
  unfold bodyPlan at hbody
  rw [← Plan.seq_assoc, hedns] at hbody
  obtain ⟨sections, c', opt, hsections, hopt, rfl⟩ := Plan.seq_eq_ok.mp hbody
  obtain ⟨rfl, hlen, -⟩ := optPlan_eq_ok hopt
  exact ⟨rcode, counts, sections, c', hcounts, hsections, hlen, rfl⟩

/-- **Two messages that differ in their OPT only read alike**: both are refused, or the
second reads as the first with the other OPT. -/
theorem tryFromBytes_alike {m : DnsMessage} (hstored : ∀ rr ∈ m.records, rr.rdata.StandsAlone)
    {counts : Counts} (hcounts : m.counts = .ok counts) {sections : Octets} {c : NameCompressor}
    (hsections : ((Plan.all (m.queries.map queryPlan)).seq (Plan.all (m.records.map rrPlan)))
      NameCompressor.new HEADER_LEN = (sections, .ok c)) (rcode : UInt16) {edns edns' : Edns}
    (hsome : m.edns.isSome = true) (hlen : edns.rdata.length ≤ 65535)
    (hlen' : edns'.rdata.length ≤ 65535) :
    Alike (fun a b => a.edns = some edns ∧ b = a.withEdns edns')
      (DnsMessage.tryFromBytes
        (headerOctets m.header rcode counts ++ (sections ++ optRecord edns rcode)))
      (DnsMessage.tryFromBytes
        (headerOctets m.header rcode counts ++ (sections ++ optRecord edns' rcode))) := by
  obtain ⟨hqd, han, hns, har⟩ := DnsMessage.counts_eq_ok hcounts
  have hans : ∀ rr ∈ m.answers, rr.rdata.StandsAlone :=
    fun rr h => hstored rr (by simp [DnsMessage.records, h])
  have hauth : ∀ rr ∈ m.authorities, rr.rdata.StandsAlone :=
    fun rr h => hstored rr (by simp [DnsMessage.records, h])
  have hadd : ∀ rr ∈ m.additionals, rr.rdata.StandsAlone :=
    fun rr h => hstored rr (by simp [DnsMessage.records, h])
  -- the sections, one by one
  rw [DnsMessage.records, List.map_append, List.map_append, Plan.all_append, Plan.all_append,
    Plan.seq_assoc] at hsections
  obtain ⟨qs, c₁, rest₁, hqs, hrest₁, rfl⟩ := Plan.seq_eq_ok.mp hsections
  obtain ⟨ans, c₂, rest₂, hansPlan, hrest₂, rfl⟩ := Plan.seq_eq_ok.mp hrest₁
  obtain ⟨auth, c₃, adds, hauthPlan, haddPlan, rfl⟩ := Plan.seq_eq_ok.mp hrest₂
  have hplaced := placedAt_middle (headerOctets m.header rcode counts)
    (qs ++ (ans ++ (auth ++ adds))) []
  rw [List.append_nil, length_headerOctets] at hplaced
  rw [tryFromBytes_headerOctets, tryFromBytes_headerOctets, hqd, han, hns, har, hsome]
  have hdata : ∀ opt : Octets, headerOctets m.header rcode counts ++ (qs ++ (ans ++ (auth ++ adds)))
      <+: headerOctets m.header rcode counts ++ (qs ++ (ans ++ (auth ++ adds)) ++ opt) := fun opt =>
    ⟨opt, by simp only [List.append_assoc]⟩
  have hdata₁ := hdata (optRecord edns rcode)
  have hdata₂ := hdata (optRecord edns' rcode)
  generalize headerOctets m.header rcode counts ++ (qs ++ (ans ++ (auth ++ adds))) = front
    at hplaced hdata₁ hdata₂
  have htable := tableOk_new front HEADER_LEN fun _ => 0
  obtain ⟨depth₁, -, htable₁⟩ := tracks_all tracks_query m.queries hqs hplaced.left htable
  obtain ⟨depth₂, -, htable₂⟩ :=
    tracks_all tracks_rr m.answers hansPlan hplaced.right.left htable₁
  obtain ⟨depth₃, -, htable₃⟩ :=
    tracks_all tracks_rr m.authorities hauthPlan hplaced.right.right.left htable₂
  simp only [List.append_assoc]
  simp only [List.append_assoc] at hdata₁ hdata₂
  -- and the readers
  refine (readMany_alike m.queries tracks_query (fun q _ => query_alike hdata₁ hdata₂ q) hqs
    hplaced.left htable _ _).bind ?_
  rintro ⟨queries, rest⟩ ⟨_, rest'⟩ ⟨rfl, rfl, rfl⟩
  refine (readMany_alike m.answers tracks_rr (fun rr h => rr_alike hdata₁ hdata₂ (hans rr h)) hansPlan
    hplaced.right.left htable₁ _ _).bind ?_
  rintro ⟨answers, rest⟩ ⟨_, rest'⟩ ⟨rfl, rfl, rfl⟩
  refine (readMany_alike m.authorities tracks_rr (fun rr h => rr_alike hdata₁ hdata₂ (hauth rr h))
    hauthPlan hplaced.right.right.left htable₂ _ _).bind ?_
  rintro ⟨authorities, rest⟩ ⟨_, rest'⟩ ⟨rfl, rfl, rfl⟩
  refine (readAdditionals_alike hdata₁ hdata₂ hadd haddPlan hplaced.right.right.right htable₃ hlen
    hlen' rcode none).bind ?_
  rintro ⟨additionals, opt⟩ ⟨_, opt'⟩ ⟨rfl, hopt, hopt'⟩
  obtain rfl : opt = _ := hopt
  obtain rfl : opt' = _ := hopt'
  exact .ok ⟨rfl, rfl⟩

end Rdns.Core
