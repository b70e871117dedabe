import Rdns.Core.Message
import Rdns.Core.Chains

/-!
# Rdns — What a message is written as

The plans behind the encoders of `response.rs` and `DnsMessage::to_bytes_with`:
what each emits from a given compression table at a given position. The buffer a
message is written into decides only whether there is room.
-/

namespace Rdns.Core

open Rdns.Lib RecordTypes

/-! ## The plans -/

def queryPlan (q : QuerySection) : WirePlan :=
  (namePlan q.qname).seq (Plan.octets (be16 q.qtype.code ++ be16 q.qclass.toU16))

def rrHead (c : NameCompressor) (rr : ResourceRecord) : Octets :=
  nameOctets c rr.name ++ (be16 rr.rdata.rtype.code ++ be16 rr.cls.code ++ be32 rr.ttl.secs)

def rrPlan (rr : ResourceRecord) : WirePlan := fun c pos =>
  let rdataAt := pos + (rrHead c rr).length + 2
  match rdataPlan rr.rdata.rtype rr.rdata.rdata (afterName c rr.name pos) rdataAt with
  | (body, .ok c') =>
    if body.length > 65535 then
      (rrHead c rr ++ ([0, 0] ++ body), .error (.tooLong "RDATA" 65535 body.length))
    else (rrHead c rr ++ (be16 (UInt16.ofNat body.length) ++ body), .ok c')
  | (body, .error e) => (rrHead c rr ++ ([0, 0] ++ body), .error e)

def optHead (edns : Edns) (rcode : UInt16) : Octets :=
  [0] ++ be16 OPT.code ++ be16 edns.udpPayloadSize ++ be32 (optFlags edns rcode)

def optPlan (edns : Edns) (rcode : UInt16) : WirePlan :=
  (Plan.octets (optHead edns rcode)).seq <|
    if edns.rdata.length > 65535 then Plan.fail (.tooLong "OPT RDATA" 65535 edns.rdata.length)
    else Plan.octets (be16 (UInt16.ofNat edns.rdata.length) ++ edns.rdata)

def ednsPlan (edns : Option Edns) (rcode : UInt16) : WirePlan :=
  match edns with
  | some edns => optPlan edns rcode
  | none => Plan.octets []

def bodyPlan (m : DnsMessage) (rcode : UInt16) : WirePlan :=
  (Plan.all (m.queries.map queryPlan)).seq <|
    (Plan.all (m.records.map rrPlan)).seq (ednsPlan m.edns rcode)

def messagePlan (m : DnsMessage) : WirePlan :=
  Plan.attempt (wireRcode m.rcode m.edns.isSome) fun rcode =>
    Plan.attempt m.counts fun counts =>
      (Plan.octets (headerOctets m.header rcode counts)).seq (bodyPlan m rcode)

/-! ## The encoders emit their plans -/

theorem put_put_implements (a b : Octets) :
    Implements outputFull (fun pos => put pos a >>= fun pos => put pos b) (Plan.octets (a ++ b)) :=
  (put_implements a).seq (put_implements b)

theorem writeQuery_implements (q : QuerySection) :
    Implements outputFull (writeQuery q) (queryPlan q) :=
  (writeName_implements q.qname).seq (put_put_implements _ _)

theorem writeOpt_implements (edns : Edns) (rcode : UInt16) :
    Implements outputFull (writeOpt edns rcode) (optPlan edns rcode) := by
  have hrest : Implements outputFull
      (fun pos => if edns.rdata.length > 65535 then
          throw (.tooLong "OPT RDATA" 65535 edns.rdata.length)
        else put pos (be16 (UInt16.ofNat edns.rdata.length)) >>= fun pos => put pos edns.rdata)
      (if edns.rdata.length > 65535 then Plan.fail (.tooLong "OPT RDATA" 65535 edns.rdata.length)
        else Plan.octets (be16 (UInt16.ofNat edns.rdata.length) ++ edns.rdata)) := by
    intro pos c
    by_cases hlong : edns.rdata.length > 65535
    · simp only [if_pos hlong]
      exact emits_throw outputFull pos c _
    · simp only [if_neg hlong]
      exact put_put_implements _ _ pos c
  have hseq := (put_implements [0]).seq ((put_implements (be16 OPT.code)).seq
    ((put_implements (be16 edns.udpPayloadSize)).seq
      ((put_implements (be32 (optFlags edns rcode))).seq hrest)))
  rw [Plan.octets_seq_assoc, Plan.octets_seq_assoc, Plan.octets_seq_assoc] at hseq
  exact hseq

theorem writeRr_implements (rr : ResourceRecord) :
    Implements outputFull (writeRr rr) (rrPlan rr) := by
  intro pos c
  have hname : Emits outputFull (writeName rr.name pos) pos c (nameOctets c rr.name)
      (.ok (afterName c rr.name pos)) := writeName_implements rr.name pos c
  have hlen : pos + (rrHead c rr).length
      = pos + (nameOctets c rr.name).length + (be16 rr.rdata.rtype.code).length
        + (be16 rr.cls.code).length + (be32 rr.ttl.secs).length := by
    simp only [rrHead, List.length_append]
    omega
  unfold rrPlan
  simp only
  have hrdata := writeRdata_implements rr.rdata.rtype rr.rdata.rdata
    (pos + (rrHead c rr).length + 2) (afterName c rr.name pos)
  generalize rdataPlan rr.rdata.rtype rr.rdata.rdata (afterName c rr.name pos)
    (pos + (rrHead c rr).length + 2) = plan at hrdata ⊢
  obtain ⟨body, outcome⟩ := plan
  -- the hole and the RDATA, then what follows them
  have htail : ∀ {bytes : Octets} {out : Except WireError NameCompressor},
      Emits outputFull
        ((put (pos + (rrHead c rr).length) [0, 0] >>= writeRdata rr.rdata.rtype rr.rdata.rdata) >>=
          fun stop =>
            if stop - (pos + (rrHead c rr).length + 2) > 65535 then
              throw (.tooLong "RDATA" 65535 (stop - (pos + (rrHead c rr).length + 2)))
            else do
              let _ ← put (pos + (rrHead c rr).length)
                (be16 (UInt16.ofNat (stop - (pos + (rrHead c rr).length + 2))))
              return stop)
        (pos + (rrHead c rr).length) (afterName c rr.name pos) bytes out →
      Emits outputFull (writeRr rr pos) pos c (rrHead c rr ++ bytes) out := by
    intro bytes out h
    have hhole := emits_writeBytes outputFull (pos + (rrHead c rr).length) [0, 0]
      (afterName c rr.name pos)
    have h' := Emits.bind_known (v := writeRdata rr.rdata.rtype rr.rdata.rdata)
      (k := fun rdataAt stop =>
        if stop - rdataAt > 65535 then throw (.tooLong "RDATA" 65535 (stop - rdataAt))
        else do
          let _ ← put (pos + (rrHead c rr).length) (be16 (UInt16.ofNat (stop - rdataAt)))
          return stop) hhole h
    rw [hlen] at h'
    refine Emits.congr (Emits.bind hname <| Emits.bind (emits_writeBytes outputFull _ _ _) <|
      Emits.bind (emits_writeBytes outputFull _ _ _) <|
      Emits.bind (emits_writeBytes outputFull _ _ _) h') ?_
    simp only [rrHead, List.append_assoc]
  have hboth : Emits outputFull
      (put (pos + (rrHead c rr).length) [0, 0] >>= writeRdata rr.rdata.rtype rr.rdata.rdata)
      (pos + (rrHead c rr).length) (afterName c rr.name pos) ([0, 0] ++ body) outcome :=
    Emits.bind (emits_writeBytes outputFull _ [0, 0] _) hrdata
  cases outcome with
  | error e => exact htail hboth.bind_error
  | ok c' =>
    simp only
    have hstop : pos + (rrHead c rr).length + ([0, 0] ++ body).length
        - (pos + (rrHead c rr).length + 2) = body.length := by
      simp only [List.length_append, List.length_cons, List.length_nil]
      omega
    split
    · rename_i hlong
      apply htail
      refine Emits.congr (Emits.bind hboth ?_) (List.append_nil _)
      rw [hstop, if_pos hlong]
      exact emits_throw outputFull _ _ _
    · rename_i hshort
      apply htail
      have hpatch := Emits.patch (a := []) (b := body)
        (show ([0, 0] : Octets).length = (be16 (UInt16.ofNat body.length)).length from rfl) hboth
      refine Emits.bind_congr hboth ?_ hpatch
      rw [hstop, if_neg hshort]
      rfl

theorem writeHeader_emits (header : Header) (rcode : UInt16) (counts : Counts)
    (c : NameCompressor) :
    Emits outputFull (writeHeader header rcode counts) 0 c (headerOctets header rcode counts)
      (.ok c) := by
  refine Emits.congr (Emits.bind (emits_writeBytes outputFull 0 _ c) <|
    Emits.bind (emits_writeBytes outputFull _ _ c) <|
    Emits.bind (emits_writeBytes outputFull _ _ c) <|
    Emits.bind (emits_writeBytes outputFull _ _ c) <|
    Emits.bind (emits_writeBytes outputFull _ _ c) (emits_writeBytes outputFull _ _ c)) ?_
  simp only [headerOctets, List.append_assoc]

theorem writeEdns_implements (edns : Option Edns) (rcode : UInt16) :
    Implements outputFull
      (fun pos => match edns with
        | some edns => writeOpt edns rcode pos
        | none => pure pos) (ednsPlan edns rcode) := by
  cases edns with
  | some edns => exact writeOpt_implements edns rcode
  | none => exact implements_pure outputFull

/-- **The whole message emits its plan.** -/
theorem toBytesWith_emits (m : DnsMessage) (c : NameCompressor) :
    Emits outputFull m.toBytesWith 0 c (messagePlan m NameCompressor.new 0).1
      (messagePlan m NameCompressor.new 0).2 := by
  refine Emits.setState (Emits.attempt fun rcode _ => Emits.attempt fun counts _ => ?_)
  have hbody : Implements outputFull
      (fun pos => m.queries.foldlM (fun pos q => writeQuery q pos) pos >>= fun pos =>
        m.records.foldlM (fun pos rr => writeRr rr pos) pos >>= fun pos =>
          match m.edns with
          | some edns => writeOpt edns rcode pos
          | none => pure pos) (bodyPlan m rcode) :=
    (Implements.foldlM writeQuery_implements m.queries).seq <|
      (Implements.foldlM writeRr_implements m.records).seq (writeEdns_implements m.edns rcode)
  have hall := (writeHeader_emits m.header rcode counts NameCompressor.new).bind_implements hbody
  simp only [DnsMessage.records, List.foldlM_append, bind_assoc] at hall
  exact hall

def DnsMessage.wireSizeBound (m : DnsMessage) : Nat :=
  HEADER_LEN + (m.queries.map fun q => q.qname.wire.length + 4).sum
    + (m.records.map fun rr => rr.name.wire.length + 10 + rr.rdata.rdata.length).sum
    + (match m.edns with
      | some edns => 11 + edns.rdata.length
      | none => 0)

/-! ## Sizes -/

theorem length_namePlan_le (name : Name) (c : NameCompressor) (pos : Nat) :
    (namePlan name c pos).1.length ≤ name.wire.length :=
  length_nameOctets_le c name

theorem length_headerOctets (header : Header) (rcode : UInt16) (counts : Counts) :
    (headerOctets header rcode counts).length = HEADER_LEN := rfl

theorem length_queryPlan_le (q : QuerySection) (c : NameCompressor) (pos : Nat) :
    (queryPlan q c pos).1.length ≤ q.qname.wire.length + 4 :=
  Plan.length_seq_le (length_namePlan_le q.qname c pos) fun _ _ => Nat.le_refl 4

theorem length_rdataPlan_le (rtype : Rtype) (rdata : Octets) (c : NameCompressor) (pos : Nat) :
    (rdataPlan rtype rdata c pos).1.length ≤ rdata.length := by
  have oneName : ∀ (bytes : Octets) (c : NameCompressor) (pos : Nat),
      (Plan.attempt (Name.fromWire bytes)
        (fun x => (namePlan x.1).seq (Plan.octets x.2)) c pos).1.length ≤ bytes.length := by
    intro bytes c pos
    cases hread : Name.fromWire bytes with
    | error e => exact Nat.zero_le _
    | ok x =>
      rw [Name.fromWire_eq_ok hread, List.length_append]
      exact Plan.length_seq_le (length_namePlan_le x.1 c pos) fun _ _ => Nat.le_refl _
  unfold rdataPlan
  split
  · exact oneName rdata c pos
  split
  · cases hread : Name.fromWire rdata with
    | error e => exact Nat.zero_le _
    | ok x =>
      obtain ⟨mname, rest⟩ := x
      rw [Name.fromWire_eq_ok hread, List.length_append]
      cases hread' : Name.fromWire rest with
      | error e =>
        simp only [Plan.attempt, hread', Plan.fail, List.length_nil]
        exact Nat.zero_le _
      | ok x =>
        obtain ⟨rname, rest'⟩ := x
        simp only [Plan.attempt, hread']
        rw [Name.fromWire_eq_ok hread', List.length_append]
        exact Plan.length_seq_le (length_namePlan_le mname c pos) fun s' pos' =>
          Plan.length_seq_le (length_namePlan_le rname s' pos') fun _ _ => Nat.le_refl _
  split
  · split
    · exact Nat.zero_le _
    · rename_i hlen
      have hsplit : rdata.length = 2 + (rdata.drop 2).length := by
        rw [List.length_drop]
        omega
      rw [hsplit]
      refine Plan.length_seq_le ?_ (oneName (rdata.drop 2))
      simp [Plan.octets]
  · exact Nat.le_refl _

theorem length_rrHead_le (c : NameCompressor) (rr : ResourceRecord) :
    (rrHead c rr).length ≤ rr.name.wire.length + 8 := by
  have h := length_nameOctets_le c rr.name
  simp only [rrHead, List.length_append, length_be16, length_be32]
  omega

theorem length_rrPlan_le (rr : ResourceRecord) (c : NameCompressor) (pos : Nat) :
    (rrPlan rr c pos).1.length ≤ rr.name.wire.length + 10 + rr.rdata.rdata.length := by
  have hhead := length_rrHead_le c rr
  have hbody := length_rdataPlan_le rr.rdata.rtype rr.rdata.rdata (afterName c rr.name pos)
    (pos + (rrHead c rr).length + 2)
  unfold rrPlan
  simp only
  generalize rdataPlan rr.rdata.rtype rr.rdata.rdata (afterName c rr.name pos)
    (pos + (rrHead c rr).length + 2) = plan at hbody ⊢
  obtain ⟨body, outcome⟩ := plan
  simp only at hbody
  cases outcome with
  | error e => grind
  | ok c' => grind [length_be16]

theorem length_ednsPlan_le (edns : Option Edns) (rcode : UInt16) (c : NameCompressor)
    (pos : Nat) :
    (ednsPlan edns rcode c pos).1.length ≤ match edns with
      | some edns => 11 + edns.rdata.length
      | none => 0 := by
  cases edns with
  | none => exact Nat.le_refl 0
  | some edns =>
    have hhead : (optHead edns rcode).length = 9 := rfl
    simp only [ednsPlan, optPlan, Plan.seq_octets, List.length_append, hhead]
    split
    · simp [Plan.fail]; omega
    · simp [Plan.octets]; omega

/-- **The size bound is sound**: compression makes the wire form shorter than
`wire_size_bound`, never longer. -/
theorem messagePlan_length_le (m : DnsMessage) (c : NameCompressor) :
    (messagePlan m c 0).1.length ≤ m.wireSizeBound := by
  unfold messagePlan
  cases wireRcode m.rcode m.edns.isSome with
  | error e => exact Nat.zero_le _
  | ok rcode =>
    cases hcounts : m.counts with
    | error e => simp [Plan.attempt, Plan.fail]
    | ok counts =>
      simp only [Plan.attempt]
      unfold DnsMessage.wireSizeBound
      rw [Nat.add_assoc, Nat.add_assoc]
      refine Plan.length_seq_le (length_headerOctets _ _ _).le fun c pos => ?_
      refine Plan.length_seq_le
        (Plan.length_all_le length_queryPlan_le m.queries c pos) fun c pos => ?_
      exact Plan.length_seq_le
        (Plan.length_all_le length_rrPlan_le m.records c pos) (length_ednsPlan_le m.edns rcode)

/-! ## What `to_bytes` returns -/

/-- **`to_bytes` succeeds exactly when the plan ends well and fits**, and then the
octets written are the plan's. -/
theorem DnsMessage.toBytes_ok_iff {m : DnsMessage} {output out : Octets} {n : Nat} :
    m.toBytes output = (.ok n, out) ↔
      ∃ c bytes, messagePlan m NameCompressor.new 0 = (bytes, .ok c) ∧
        n = bytes.length ∧ n ≤ output.length ∧ out = splice output 0 bytes := by
  have hemits := toBytesWith_emits m NameCompressor.new
  rcases hplan : messagePlan m NameCompressor.new 0 with ⟨bytes, outcome⟩
  rw [hplan] at hemits
  simp only at hemits
  constructor
  · intro h
    rcases hexec : exec m.toBytesWith ⟨NameCompressor.new, output⟩ with ⟨result, sink⟩
    rw [DnsMessage.toBytes, hexec] at h
    cases h
    obtain ⟨c, hout, hfit, hn, hsink⟩ := hemits.exec_eq_ok (Nat.zero_le _) hexec
    refine ⟨c, bytes, by rw [hout], by omega, by omega, by rw [hsink]⟩
  · rintro ⟨c, bytes', heq, rfl, hfit, rfl⟩
    cases heq
    rw [DnsMessage.toBytes, hemits.done c rfl output (by omega)]
    simp

end Rdns.Core
