import Rdns.Core.Streaming

/-!
# Rdns — A reply cut to a limit

`DnsMessage::to_bytes_within` of `rdns-core/src/message.rs`: the complete message where it fits,
and else its header with TC set, its question and its OPT, which always fit in 512 octets.

The first pass writes into a buffer of `wire_size_bound`. "Too long" is told apart by the text of
an error, so the assertion that the bound is enough also rests on no encoder's own error having
that text (`Sincere`).
-/

namespace Rdns.Core

open Rdns.Lib

/-! ## The text of an error -/

/-- Whether the `debug_assert` on the size bound fires: a scratch buffer below the limit was not
enough. -/
def DnsMessage.boundFails (m : DnsMessage) (maxLen : Nat) : Bool :=
  let scratch := min m.wireSizeBound maxLen
  match m.toBytes (List.replicate scratch 0) with
  | (.error e, _) => decide (scratch < maxLen) && e.isOutputFull
  | (.ok _, _) => false

def Clean {α : Type} (x : Except WireError α) : Prop := ∀ e, x = .error e → e.isOutputFull = false

def Sincere (plan : WirePlan) : Prop := ∀ c pos e, (plan c pos).2 = .error e → e.isOutputFull = false

variable {α : Type}

theorem clean_ok (a : α) : Clean (.ok a : Except WireError α) := by
  intro e he
  cases he

theorem clean_error {e : WireError} (h : e.isOutputFull = false) :
    Clean (.error e : Except WireError α) := by
  intro e' he
  cases he
  exact h

theorem Clean.bind {β : Type} {x : Except WireError α} {f : α → Except WireError β} (hx : Clean x)
    (hf : ∀ a, Clean (f a)) : Clean (x >>= f) := by
  cases x with
  | error e => exact fun e' he => hx e' (by cases he; rfl)
  | ok a => exact hf a

theorem clean_label (data : Octets) : Clean (Label.tryFromBytes data) := by
  unfold Label.tryFromBytes
  split
  · exact clean_error rfl
  · dsimp only
    split
    · split
      · exact clean_ok _
      · split
        · exact clean_error rfl
        · exact clean_ok _
    · split
      · exact clean_error rfl
      · exact clean_ok _
    · split
      · exact clean_error rfl
      · split <;> exact clean_error rfl
    · exact clean_error rfl

theorem clean_dname (data : Octets) : Clean (DName.tryFromBytes data) := by
  induction hn : data.length using Nat.strong_induction_on generalizing data with
  | _ n ih =>
    unfold DName.tryFromBytes
    split
    · rename_i e hlabel
      exact clean_error (clean_label data e hlabel)
    · exact clean_ok _
    · exact clean_ok _
    · rename_i octets hlabel
      have hshort : (data.drop (octets.length + 1)).length < n := by
        have := List.length_pos_of_ne_nil (Label.ne_nil_of_tryFromBytes hlabel)
        rw [List.length_drop]
        omega
      split
      · rename_i e hrest
        exact clean_error (ih _ hshort _ rfl e hrest)
      · exact clean_ok _

theorem clean_ofLabels (labels : List Octets) : Clean (Name.ofLabels labels) := by
  unfold Name.ofLabels
  split
  · split
    · exact clean_ok _
    · exact clean_error rfl
  · exact clean_error rfl

theorem clean_fromWire (bytes : Octets) : Clean (Name.fromWire bytes) := by
  unfold Name.fromWire
  split
  · rename_i e hread
    exact clean_error (clean_dname bytes e hread)
  · split
    · exact clean_error rfl
    · refine Clean.bind ?_ fun _ => Clean.bind (clean_ofLabels _) fun _ => clean_ok _
      unfold checkNameLen
      split
      · exact clean_error rfl
      · exact clean_ok _

theorem sincere_octets (bytes : Octets) : Sincere (Plan.octets bytes) := by
  intro c pos e he
  cases he

theorem sincere_fail {e : WireError} (h : e.isOutputFull = false) : Sincere (Plan.fail e) := by
  intro c pos e' he
  cases he
  exact h

theorem Sincere.seq {p q : WirePlan} (hp : Sincere p) (hq : Sincere q) : Sincere (p.seq q) := by
  intro c pos e he
  rcases hplan : p c pos with ⟨a, e' | c'⟩
  · rw [Plan.seq_error hplan] at he
    cases he
    exact hp c pos e (by rw [hplan])
  · rw [Plan.seq_ok hplan] at he
    exact hq c' _ e he

theorem Sincere.attempt {x : Except WireError α} {plan : α → WirePlan} (hx : Clean x)
    (hplan : ∀ a, Sincere (plan a)) : Sincere (Plan.attempt x plan) := by
  cases x with
  | error e => exact sincere_fail (hx e rfl)
  | ok a => exact hplan a

theorem Sincere.all {ι : Type} {plan : ι → WirePlan} (h : ∀ i, Sincere (plan i)) (items : List ι) :
    Sincere (Plan.all (items.map plan)) := by
  induction items with
  | nil => exact sincere_octets _
  | cons i rest ih => exact (h i).seq ih

theorem sincere_name (name : Name) : Sincere (namePlan name) := by
  intro c pos e he
  cases he

theorem sincere_rdata (rtype : Rtype) (rdata : Octets) : Sincere (rdataPlan rtype rdata) := by
  have hname : ∀ x : Name × Octets, Sincere ((namePlan x.1).seq (Plan.octets x.2)) :=
    fun x => (sincere_name x.1).seq (sincere_octets x.2)
  unfold rdataPlan
  split
  · exact Sincere.attempt (clean_fromWire _) hname
  split
  · exact Sincere.attempt (clean_fromWire _) fun x =>
      Sincere.attempt (clean_fromWire _) fun y => (sincere_name x.1).seq (hname y)
  split
  · split
    · exact sincere_fail rfl
    · exact (sincere_octets _).seq (Sincere.attempt (clean_fromWire _) hname)
  · exact sincere_octets _

theorem sincere_rr (rr : ResourceRecord) : Sincere (rrPlan rr) := by
  intro c pos e he
  have hrdata := sincere_rdata rr.rdata.rtype rr.rdata.rdata (afterName c rr.name pos)
    (pos + (rrHead c rr).length + 2) e
  unfold rrPlan at he
  dsimp only at he
  generalize rdataPlan rr.rdata.rtype rr.rdata.rdata (afterName c rr.name pos)
    (pos + (rrHead c rr).length + 2) = plan at he hrdata
  obtain ⟨body, e' | c'⟩ := plan
  · exact hrdata he
  · dsimp only at he
    split at he
    · cases he
      rfl
    · cases he

theorem sincere_edns (edns : Option Edns) (rcode : UInt16) : Sincere (ednsPlan edns rcode) := by
  cases edns with
  | none => exact sincere_octets _
  | some edns =>
    refine (sincere_octets _).seq ?_
    split
    · exact sincere_fail rfl
    · exact sincere_octets _

theorem clean_sectionCount (len : Nat) (what : String) : Clean (sectionCount len what) := by
  unfold sectionCount
  split
  · exact clean_error rfl
  · exact clean_ok _

theorem clean_wireRcode (rcode : ResponseCode) (hasEdns : Bool) : Clean (wireRcode rcode hasEdns) := by
  unfold wireRcode
  dsimp only
  split
  · exact clean_error rfl
  · split
    · exact clean_error rfl
    · exact clean_ok _

theorem sincere_message (m : DnsMessage) : Sincere (messagePlan m) := by
  refine Sincere.attempt (clean_wireRcode _ _) fun rcode => Sincere.attempt ?_ fun counts => ?_
  · exact Clean.bind (clean_sectionCount _ _) fun _ => Clean.bind (clean_sectionCount _ _) fun _ =>
      Clean.bind (clean_sectionCount _ _) fun _ => Clean.bind (clean_sectionCount _ _) fun _ => clean_ok _
  · refine (sincere_octets _).seq ?_
    refine (Sincere.all (fun q => (sincere_name _).seq (sincere_octets _)) m.queries).seq ?_
    exact (Sincere.all sincere_rr m.records).seq (sincere_edns m.edns rcode)

/-- **The assertion on `wire_size_bound` does not fire**, whatever the message and the limit. -/
theorem boundFails_eq_false (m : DnsMessage) (maxLen : Nat) : m.boundFails maxLen = false := by
  unfold DnsMessage.boundFails
  dsimp only
  by_cases hscratch : min m.wireSizeBound maxLen < maxLen
  · have hbound : min m.wireSizeBound maxLen = m.wireSizeBound := by omega
    rw [hbound]
    cases hending : WirePlan.ending (messagePlan m) m.wireSizeBound NameCompressor.new 0 with
    | written bytes c =>
      obtain ⟨out, hout, -⟩ := toBytes_written hending
      rw [hout]
    | failed e =>
      obtain ⟨hother, out, hout⟩ := toBytes_failed hending
      rw [hout]
      dsimp only
      rw [hother, Bool.and_false]
    | full =>
      rcases WirePlan.ending_eq_full.mp hending with hlong | ⟨e, he, hfull⟩
      · have hle := messagePlan_length_le m NameCompressor.new
        omega
      · rw [sincere_message m NameCompressor.new 0 e he] at hfull
        cases hfull
  · grind

/-! ## The emptied reply read back -/

theorem nameOctets_new (name : Name) : nameOctets NameCompressor.new name = name.wire := by
  have hmatch : ∀ labels : List Octets, NameCompressor.new.matchSuffix name.wire.length labels = none := by
    intro labels
    induction labels with
    | nil => rfl
    | cons label rest ih =>
      rw [NameCompressor.matchSuffix, show NameCompressor.new.lookup (wireOf (label :: rest)) = none from rfl]
      exact ih
  rw [nameOctets, hmatch]

theorem readMany_question {m : DnsMessage} (hone : m.queries.length ≤ 1) {question : Octets} {c : NameCompressor}
    (hquestion : Plan.all (m.queries.map queryPlan) NameCompressor.new HEADER_LEN = (question, .ok c))
    (data rest : Octets) :
    readMany (QuerySection.tryFromBytes data) m.queries.length (question ++ rest) = .ok (m.queries, rest) := by
  match hqueries : m.queries with
  | [] =>
    rw [hqueries] at hquestion
    cases hquestion
    rfl
  | [q] =>
    rw [hqueries] at hquestion
    have hbytes : q.qname.wire ++ (be16 q.qtype.code ++ be16 q.qclass.toU16) = question := by
      rw [List.map_cons, List.map_nil, Plan.all, Plan.all, Plan.seq_octets_nil, queryPlan, Plan.seq,
        namePlan, nameOctets_new] at hquestion
      exact congrArg Prod.fst hquestion
    have hread : QuerySection.tryFromBytes data (question ++ rest) = .ok (q, rest) := by
      rw [QuerySection.tryFromBytes, ← hbytes, List.append_assoc, Name.fromWireIn_wire]
      simp only [bind, Except.bind, List.append_assoc, readU16_be16, QueryClass.fromU16_toU16]
      rfl
    rw [List.length_singleton, readMany, hread]
    rfl
  | _ :: _ :: _ => grind

/-- **The emptied reply reads back** as the header with TC set, the question and the OPT. -/
theorem tryFromBytes_emptied {m : DnsMessage} {rcode : UInt16}
    (hrcode : wireRcode m.rcode m.edns.isSome = .ok rcode)
    (hopt : ∀ edns, m.edns = some edns → edns.rdata.length ≤ 65535) (hone : m.queries.length ≤ 1)
    {question : Octets} {c : NameCompressor}
    (hquestion : Plan.all (m.queries.map queryPlan) NameCompressor.new HEADER_LEN = (question, .ok c)) :
    DnsMessage.tryFromBytes (headerOctets { m.header with truncation := true } rcode
        ⟨UInt16.ofNat m.queries.length, 0, 0, UInt16.ofNat m.edns.isSome.toNat⟩
      ++ (question ++ optOctets m.edns rcode)) = .ok m.emptied := by
  have hqd : (UInt16.ofNat m.queries.length).toNat = m.queries.length := toNat_ofNat_u16 (by omega)
  have har : (UInt16.ofNat m.edns.isSome.toNat).toNat = m.edns.isSome.toNat := by
    have hbool := m.edns.isSome.toNat_lt
    exact toNat_ofNat_u16 (by omega)
  have hplan : ednsPlan m.edns rcode NameCompressor.new 0 = (optOctets m.edns rcode, .ok NameCompressor.new) := by
    rw [ednsPlan_eq hopt]
    rfl
  rw [tryFromBytes_headerOctets]
  dsimp only
  rw [hqd, har, readMany_question hone hquestion]
  simp only [bind, Except.bind, show (0 : UInt16).toNat = 0 from rfl, readMany, readAdditionals_edns hplan]
  have hjoined := assemble_rcode hrcode
  simp only [pure, Except.pure, DnsMessage.header, DnsMessage.assemble, hjoined, DnsMessage.emptied]
  cases m.edns <;> rfl

/-! ## Complete or cut -/

/-- **A reply is complete, or cut to what always fits.** A message that some buffer holds, of at
most one question and an OPT of at most 229 octets, is put within any limit from 512 octets on: whole
where it fits, and else as its header with TC set, its question and its OPT. -/
theorem toBytesWithin_truncates {m : DnsMessage} {output out : Octets} {n maxLen : Nat}
    (hwritten : m.toBytes output = (.ok n, out)) (hmin : 512 ≤ maxLen) (hone : m.queries.length ≤ 1)
    (hopt : ∀ edns, m.edns = some edns → 11 + edns.rdata.length ≤ 229) :
    (∃ wire, m.toBytesWithin maxLen = .ok wire ∧ wire.length ≤ maxLen ∧
      (wire = out.take n ↔ n ≤ maxLen) ∧
      (maxLen < n → DnsMessage.tryFromBytes wire = .ok m.emptied)) ∧
    m.boundFails maxLen = false := by
  refine ⟨?_, boundFails_eq_false m maxLen⟩
  obtain ⟨c, bytes, hplan, rfl, -, rfl⟩ := DnsMessage.toBytes_ok_iff.mp hwritten
  have htake : (splice output 0 bytes).take bytes.length = bytes := by
    rw [splice, List.take_zero, List.nil_append, List.take_left]
  rw [htake]
  by_cases hfits : bytes.length ≤ maxLen
  · have hending : WirePlan.ending (messagePlan m) maxLen NameCompressor.new 0 = .written bytes c :=
      WirePlan.ending_eq_written.mpr ⟨hplan, by omega⟩
    refine ⟨bytes, by rw [toBytesWithin_eq, hending], hfits, ⟨fun _ => hfits, fun _ => rfl⟩, fun hlong => ?_⟩
    omega
  · have hending : WirePlan.ending (messagePlan m) maxLen NameCompressor.new 0 = .full := by
      refine WirePlan.ending_eq_full.mpr (.inl ?_)
      rw [hplan]
      dsimp only
      omega
    obtain ⟨rcode, counts, body, hrcode, -, -, -⟩ := messagePlan_ok_iff.mp hplan
    obtain ⟨question, c', hquestion⟩ := queriesPlan_ok m.queries NameCompressor.new HEADER_LEN
    have hshort := question_short hone NameCompressor.new HEADER_LEN
    rw [hquestion] at hshort
    have hsized : ∀ edns, m.edns = some edns → edns.rdata.length ≤ 65535 := by
      intro edns hedns
      have := hopt edns hedns
      omega
    have hoptLen : (optOctets m.edns rcode).length ≤ 229 := by
      cases hedns : m.edns with
      | none => exact Nat.zero_le _
      | some edns =>
        rw [length_optOctets]
        exact hopt edns hedns
    have hemptied := emptiedBytes_eq hrcode hsized (by omega) hquestion maxLen
    refine ⟨_, by rw [toBytesWithin_eq, hending]; exact hemptied, ?_, ?_, fun _ =>
      tryFromBytes_emptied hrcode hsized hone hquestion⟩
    · simp only [List.length_append, length_headerOctets, HEADER_LEN] at hshort ⊢
      omega
    · refine ⟨fun heq => ?_, fun hle => absurd hle hfits⟩
      have hlen := congrArg List.length heq
      simp only [List.length_append, length_headerOctets, HEADER_LEN] at hlen hshort
      omega

def threeTexts : DnsMessage where
  id := 7
  response := true
  opcode := .query
  authoritive := true
  truncation := false
  recursion := false
  recursionOk := false
  ad := false
  cd := false
  rcode := .ok
  queries := [⟨Name.root, ⟨1⟩, .in⟩]
  answers := List.replicate 3 ⟨Name.root, .IN, ⟨300⟩, ⟨RecordTypes.TXT, 199 :: List.replicate 199 97⟩⟩
  authorities := []
  additionals := []
  edns := some ⟨1232, 0, true, []⟩

theorem toBytesWithin_threeTexts :
    ∃ wire, threeTexts.toBytesWithin 512 = .ok wire ∧ wire.length ≤ 512 ∧
      DnsMessage.tryFromBytes wire = .ok threeTexts.emptied := by
  have hn : (threeTexts.toBytes (List.replicate 700 0)).1 = .ok 661 := by decide +kernel
  obtain ⟨out, hwritten⟩ : ∃ out, threeTexts.toBytes (List.replicate 700 0) = (.ok 661, out) := by
    generalize threeTexts.toBytes (List.replicate 700 0) = written at hn ⊢
    exact ⟨written.2, Prod.ext hn rfl⟩
  have hopt : ∀ edns, threeTexts.edns = some edns → 11 + edns.rdata.length ≤ 229 := by
    intro edns hedns
    cases hedns
    decide
  obtain ⟨⟨wire, hwithin, hlen, -, hdecodes⟩, -⟩ :=
    toBytesWithin_truncates hwritten (Nat.le_refl 512) (by decide) hopt
  exact ⟨wire, hwithin, hlen, hdecodes (by decide)⟩

end Rdns.Core
