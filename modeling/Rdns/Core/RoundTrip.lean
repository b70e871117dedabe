import Rdns.Core.ReadBack

/-!
# Rdns — The message round trip

What `DnsMessage::to_bytes` wrote, `DnsMessage::try_from_bytes` reads back, up to
the ASCII case of domain names — **exactly when no name ends up behind more than
`MAX_DEPTH` compression pointers**. The writer points at the longest suffix it has
seen, whose own octets may end in a pointer, and nothing bounds how such chains
grow; the reader gives up after fifty.
-/

namespace Rdns.Core

open Rdns.Lib RecordTypes

/-! ## One record -/

/-- A record whose RDATA was built from a typed one, and is not empty; and whose
TTL does not read as negative. -/
structure ResourceRecord.Built (rr : ResourceRecord) : Prop where
  parsed : ∃ parsed, RecordData.fromParsed parsed = .ok rr.rdata
  ne_nil : rr.rdata.rdata ≠ []
  ttl : rr.ttl.secs.toNat < 2147483648

variable {c c' : NameCompressor} {bytes data : Octets} {k pos : Nat} {t : Trail} {m : DnsMessage}
  {rr : ResourceRecord} {rcode : UInt16}

theorem ResourceRecord.Built.not_opt (h : rr.Built) : rr.rdata.rtype ≠ OPT := by
  obtain ⟨parsed, hparsed⟩ := h.parsed
  obtain ⟨hrtype, hencode⟩ := RecordData.fromParsed_eq_ok hparsed
  rw [hrtype]
  cases parsed with
  | unknown rtype =>
    exact absurd (Except.ok.inj hencode).symm h.ne_nil
  | svcb rtype => cases rtype <;> simp only [ParsedRecord.rtype, SvcbType.rtype] <;> decide
  | dnskey rtype => cases rtype <;> simp only [ParsedRecord.rtype, DnskeyType.rtype] <;> decide
  | ds rtype => cases rtype <;> simp only [ParsedRecord.rtype, DsType.rtype] <;> decide
  | _ =>
    simp only [ParsedRecord.rtype]
    decide

theorem readRecordParts_fields {nameBytes body : Octets} {dname : DName} (rtype cls : UInt16)
    (ttl : UInt32) (hname : ∀ tail, DName.tryFromBytes (nameBytes ++ tail) = .ok (dname, tail))
    (hlen : body.length ≤ 65535) (tail : Octets) :
    readRecordParts (nameBytes ++ (be16 rtype ++ be16 cls ++ be32 ttl)
      ++ (be16 (UInt16.ofNat body.length) ++ body) ++ tail)
      = .ok (⟨dname, ⟨rtype⟩, cls, ttl, body⟩, tail) := by
  have hnat := toNat_ofNat_u16 hlen
  simp only [readRecordParts, List.append_assoc, hname, readU16_be16, readWord32_be32, bind,
    Except.bind, hnat]
  rw [if_neg (by simp), List.take_left, List.drop_left]
  rfl

/-- **One record read back**: its wire fields always, the record itself exactly when
the chains it meets are shallow. -/
theorem rr_parts (hbuilt : rr.Built) {depth : Nat → Nat} (hplan : rrPlan rr c pos = (bytes, .ok c'))
    (hplaced : PlacedAt data pos bytes) (htable : TableOk data pos depth c) :
    ∃ parts : RecordParts, parts.rtype = rr.rdata.rtype ∧
      (∀ tail, readRecordParts (bytes ++ tail) = .ok (parts, tail)) ∧
      Decides (ResourceRecord.fromParts data parts)
        (Shallow (depths ⟨c, depth, pos⟩ (rrSegments rr)).1) (·.Same rr) := by
  obtain ⟨body, rfl, hlen, hbody⟩ := rrPlan_eq_ok hplan
  obtain ⟨hname, hrdata⟩ := placedAt_rr hplaced
  obtain ⟨shown, hsame, hresolves⟩ := namePlan_resolves htable hname
  obtain ⟨dname, hread, hgood, hbad⟩ := hresolves.read
  refine ⟨_, rfl, readRecordParts_fields _ _ _ hread hlen, ?_⟩
  have hdecode : Decides (decodeWire data dname) (nameDepth c depth rr.name ≤ MAX_DEPTH)
      (· = shown) :=
    ⟨fun hle => ⟨shown, hgood hle, rfl⟩, fun hdeep => hbad (Nat.lt_of_not_le hdeep)⟩
  obtain ⟨parsed, hparsed⟩ := hbuilt.parsed
  have hstored := rdata_readsBack hparsed hbuilt.ne_nil hbody hrdata
    ((htable.afterName hname).advance (Nat.le_add_right _ 10))
  refine Decides.congr (hdecode.bind fun name hshown => ?_) shallow_cons.symm
  subst hshown
  refine hstored.bind_ok fun rdata hrdatasame => ?_
  exact ⟨_, rfl, hsame, rfl, Ttl.fromWire_secs hbuilt.ttl, hrdatasame⟩

theorem rr_readsBack (hbuilt : rr.Built) :
    ReadsBack (rrPlan rr) (rrSegments rr) ResourceRecord.tryFromBytes (·.Same rr) := by
  intro data c c' depth pos bytes hplan hplaced htable tail
  obtain ⟨parts, -, hparts, hfrom⟩ := rr_parts hbuilt hplan hplaced htable
  rw [ResourceRecord.tryFromBytes, hparts]
  refine hfrom.bind_ok fun rr' hsame => ?_
  exact ⟨_, rfl, hsame, rfl⟩

/-! ## The additional section -/

theorem readAdditionals_records {items : List ResourceRecord} (hbuilt : ∀ rr ∈ items, rr.Built)
    {depth : Nat → Nat} (hplan : Plan.all (items.map rrPlan) c pos = (bytes, .ok c'))
    (hplaced : PlacedAt data pos bytes) (htable : TableOk data pos depth c) (k : Nat)
    (edns : Option (Edns × UInt16)) (tail : Octets) {more : List ResourceRecord}
    {edns' : Option (Edns × UInt16)} (hmore : readAdditionals data k edns tail = .ok (more, edns')) :
    Decides (readAdditionals data (items.length + k) edns (bytes ++ tail))
      (Shallow (depths ⟨c, depth, pos⟩ (items.flatMap rrSegments)).1)
      (fun r => ∃ rrs, List.Forall₂ (fun rr shown => shown.Same rr) items rrs ∧
        r = (rrs ++ more, edns')) := by
  induction items generalizing c pos depth bytes with
  | nil =>
    cases hplan
    rw [List.length_nil, Nat.zero_add]
    exact (decides_true hmore ⟨[], .nil, rfl⟩).congr (by simp [depths, Shallow])
  | cons rr rest ih =>
    obtain ⟨first, c₁, second, hfirst, hsecond, rfl⟩ := Plan.seq_eq_ok.mp hplan
    have hrr := hbuilt rr (List.mem_cons_self ..)
    obtain ⟨parts, hrtype, hparts, hfrom⟩ := rr_parts hrr hfirst hplaced.left htable
    obtain ⟨depth₁, htrail, htable₁⟩ := tracks_rr rr hfirst hplaced.left htable
    have hrest := ih (fun rr' h => hbuilt rr' (List.mem_cons_of_mem _ h)) hsecond hplaced.right
      htable₁
    have hnext : readAdditionals data ((rr :: rest).length + k) edns (first ++ second ++ tail)
        = (ResourceRecord.fromParts data parts >>= fun rr =>
            readAdditionals data (rest.length + k) edns (second ++ tail) >>= fun more =>
              pure (rr :: more.1, more.2)) := by
      rw [List.length_cons, Nat.succ_add, readAdditionals, Additional.tryFromBytes,
        List.append_assoc, hparts]
      simp only [bind, Except.bind]
      rw [if_neg (by rw [hrtype]; exact hrr.not_opt)]
      cases ResourceRecord.fromParts data parts <;> rfl
    rw [hnext, List.flatMap_cons, depths_append, htrail]
    refine Decides.congr (hfrom.bind fun rr' hsame => ?_) shallow_append.symm
    refine hrest.bind_ok fun r hr => ?_
    obtain ⟨rrs, hrrs, rfl⟩ := hr
    exact ⟨_, rfl, rr' :: rrs, .cons hsame hrrs, rfl⟩

theorem toNat_optFlags (edns : Edns) (rcode : UInt16) :
    (optFlags edns rcode).toNat
      = rcode.toNat / 16 % 256 * 16777216 + edns.version.toNat * 65536
        + edns.doBit.toNat * 32768 := by
  have hversion := edns.version.toNat_lt
  have hdo := edns.doBit.toNat_lt
  rw [optFlags, UInt32.toNat_ofNat']
  omega

theorem fromOpt_optFlags (edns : Edns) (rcode : UInt16) :
    Edns.fromOpt edns.udpPayloadSize (optFlags edns rcode) edns.rdata = edns := by
  have hversion := edns.version.toNat_lt
  have hv : UInt8.ofNat ((optFlags edns rcode).toNat / 65536 % 256) = edns.version := by
    apply UInt8.toNat_inj.mp
    rw [UInt8.toNat_ofNat', toNat_optFlags]
    have := edns.doBit.toNat_lt
    omega
  have hd : ((optFlags edns rcode).toNat / 32768 % 2 == 1) = edns.doBit := by
    rw [toNat_optFlags]
    cases edns.doBit with
    | false => simp only [Bool.toNat_false, beq_eq_false_iff_ne]; omega
    | true => simp only [Bool.toNat_true, beq_iff_eq]; omega
  rw [Edns.fromOpt, hv, hd]

theorem readAdditionals_opt {edns : Edns} (hplan : optPlan edns rcode c pos = (bytes, .ok c')) :
    readAdditionals data 1 none bytes
      = .ok ([], some (edns, UInt16.ofNat (rcode.toNat / 16 % 256))) := by
  unfold optPlan at hplan
  rw [Plan.seq_octets] at hplan
  split at hplan
  · cases hplan
  · rename_i hlen
    cases hplan
    have hroot : ∀ tail, DName.tryFromBytes ([0] ++ tail) = .ok (⟨[], none⟩, tail) :=
      DName.tryFromBytes_root
    have hparts := readRecordParts_fields OPT.code edns.udpPayloadSize
      (optFlags edns rcode) hroot (by omega : edns.rdata.length ≤ 65535) []
    have hflags : (optFlags edns rcode).toNat / 16777216 = rcode.toNat / 16 % 256 := by
      have hversion := edns.version.toNat_lt
      have hdo := edns.doBit.toNat_lt
      rw [toNat_optFlags]
      omega
    have hbytes : optHead edns rcode ++ (be16 (UInt16.ofNat edns.rdata.length) ++ edns.rdata)
        = [0] ++ (be16 OPT.code ++ be16 edns.udpPayloadSize
            ++ be32 (optFlags edns rcode))
          ++ (be16 (UInt16.ofNat edns.rdata.length) ++ edns.rdata) ++ [] := by
      simp only [optHead, List.append_assoc, List.append_nil]
    show readAdditionals data 1 none (optHead edns rcode ++ _) = _
    rw [readAdditionals, Additional.tryFromBytes, Plan.octets, hbytes, hparts]
    simp only [bind, Except.bind, OPT, if_true, pure, Except.pure,
      Option.isSome_none, Bool.false_eq_true, if_false, readAdditionals, fromOpt_optFlags, hflags]

theorem readAdditionals_edns {edns : Option Edns}
    (hplan : ednsPlan edns rcode c pos = (bytes, .ok c')) :
    readAdditionals data edns.isSome.toNat none bytes
      = .ok ([], edns.map fun edns => (edns, UInt16.ofNat (rcode.toNat / 16 % 256))) := by
  cases edns with
  | some edns => exact readAdditionals_opt hplan
  | none => rfl

/-! ## The header -/

def DnsMessage.assemble (header : Header) (rcode : UInt16) (queries : List QuerySection)
    (answers authorities additionals : List ResourceRecord) (opt : Option (Edns × UInt16)) :
    DnsMessage where
  id := header.id
  response := header.response
  opcode := header.opcode
  authoritive := header.authoritive
  truncation := header.truncation
  recursion := header.recursion
  recursionOk := header.recursionOk
  ad := header.ad
  cd := header.cd
  rcode := ResponseCode.fromU16
    (UInt16.ofNat ((opt.map fun (_, high) => high.toNat).getD 0 * 16 + rcode.toNat % 16))
  queries := queries
  answers := answers
  authorities := authorities
  additionals := additionals
  edns := opt.map Prod.fst

theorem beq_one_of_toNat {n : Nat} {b : Bool} (h : n = b.toNat) : (n == 1) = b := by
  subst h
  cases b <;> rfl

/-- **A written header reads back**: the flag octets come apart into the fields they
were packed from, and the counts drive the four sections. -/
theorem tryFromBytes_headerOctets (header : Header) (rcode : UInt16) (counts : Counts)
    (body : Octets) :
    DnsMessage.tryFromBytes (headerOctets header rcode counts ++ body) = (do
      let data := headerOctets header rcode counts ++ body
      let (queries, rest) ← readMany (QuerySection.tryFromBytes data) counts.qd.toNat body
      let (answers, rest) ← readMany (ResourceRecord.tryFromBytes data) counts.an.toNat rest
      let (authorities, rest) ← readMany (ResourceRecord.tryFromBytes data) counts.ns.toNat rest
      let (additionals, opt) ← readAdditionals data counts.ar.toNat none rest
      return DnsMessage.assemble header rcode queries answers authorities additionals opt) := by
  have hresponse := header.response.toNat_lt
  have hopcode := header.opcode.toU8_lt
  have haa := header.authoritive.toNat_lt
  have htc := header.truncation.toNat_lt
  have hrd := header.recursion.toNat_lt
  have hra := header.recursionOk.toNat_lt
  have had := header.ad.toNat_lt
  have hcd := header.cd.toNat_lt
  generalize hhi : header.response.toNat * 128 + header.opcode.toU8.toNat % 16 * 8
    + header.authoritive.toNat * 4 + header.truncation.toNat * 2 + header.recursion.toNat = hi
  generalize hlo : header.recursionOk.toNat * 128 + header.ad.toNat * 32 + header.cd.toNat * 16
    + rcode.toNat % 16 = lo
  have hbytes : headerOctets header rcode counts
      = be16 header.id ++ [UInt8.ofNat hi, UInt8.ofNat lo]
        ++ be16 counts.qd ++ be16 counts.an ++ be16 counts.ns ++ be16 counts.ar := by
    rw [← hhi, ← hlo]
    rfl
  have hhiNat : (UInt8.ofNat hi).toNat = hi := by
    rw [UInt8.toNat_ofNat']
    omega
  have hloNat : (UInt8.ofNat lo).toNat = lo := by
    rw [UInt8.toNat_ofNat']
    omega
  have hop : OpCode.fromU8 (UInt8.ofNat (hi / 8)) = header.opcode := by
    apply OpCode.fromU8_of_lowNibble
    apply UInt8.toNat_inj.mp
    rw [toNat_lowNibble, UInt8.toNat_ofNat']
    omega
  have hresponse' : (hi / 128 == 1) = header.response := beq_one_of_toNat (by omega)
  have haa' : (hi / 4 % 2 == 1) = header.authoritive := beq_one_of_toNat (by omega)
  have htc' : (hi / 2 % 2 == 1) = header.truncation := beq_one_of_toNat (by omega)
  have hrd' : (hi % 2 == 1) = header.recursion := beq_one_of_toNat (by omega)
  have hra' : (lo / 128 == 1) = header.recursionOk := beq_one_of_toNat (by omega)
  have had' : (lo / 32 % 2 == 1) = header.ad := beq_one_of_toNat (by omega)
  have hcd' : (lo / 16 % 2 == 1) = header.cd := beq_one_of_toNat (by omega)
  have hnibble : lo % 16 = rcode.toNat % 16 := by omega
  rw [hbytes]
  simp only [be16, List.cons_append, List.nil_append, DnsMessage.tryFromBytes, ofBe16_be16, hhiNat,
    hloNat, hop, hresponse', haa', htc', hrd', hra', had', hcd', hnibble]
  rfl

/-! ## The whole message -/

/-- Two messages are the same up to the ASCII case of the domain names they hold:
the header with its RCODE, each section in order, and the OPT. -/
structure DnsMessage.Same (a b : DnsMessage) : Prop where
  header : a.header = b.header
  queries : List.Forall₂ QuerySection.Same a.queries b.queries
  answers : List.Forall₂ ResourceRecord.Same a.answers b.answers
  authorities : List.Forall₂ ResourceRecord.Same a.authorities b.authorities
  additionals : List.Forall₂ ResourceRecord.Same a.additionals b.additionals
  edns : a.edns = b.edns

theorem sectionCount_eq_ok {len : Nat} {what : String} {count : UInt16}
    (h : sectionCount len what = .ok count) : count.toNat = len := by
  unfold sectionCount at h
  split at h
  · cases h
  · cases h
    exact toNat_ofNat_u16 (by omega)

theorem DnsMessage.counts_eq_ok {counts : Counts} (h : m.counts = .ok counts) :
    counts.qd.toNat = m.queries.length ∧ counts.an.toNat = m.answers.length ∧
      counts.ns.toNat = m.authorities.length ∧
      counts.ar.toNat = m.additionals.length + m.edns.isSome.toNat := by
  obtain ⟨qd, hqd, h⟩ := except_bind_eq_ok.mp h
  obtain ⟨an, han, h⟩ := except_bind_eq_ok.mp h
  obtain ⟨ns, hns, h⟩ := except_bind_eq_ok.mp h
  obtain ⟨ar, har, h⟩ := except_bind_eq_ok.mp h
  cases h
  exact ⟨sectionCount_eq_ok hqd, sectionCount_eq_ok han, sectionCount_eq_ok hns,
    sectionCount_eq_ok har⟩

theorem wireRcode_eq_ok {rcode : ResponseCode} {hasEdns : Bool} {value : UInt16}
    (h : wireRcode rcode hasEdns = .ok value) :
    value = rcode.toU16 ∧ value.toNat ≤ 0xfff ∧ (hasEdns = false → value.toNat ≤ 0xf) := by
  unfold wireRcode at h
  simp only at h
  split at h
  · cases h
  rename_i hfits
  split at h
  · cases h
  · grind

theorem assemble_rcode (h : wireRcode m.rcode m.edns.isSome = .ok rcode) :
    ResponseCode.fromU16 (UInt16.ofNat
      (((m.edns.map fun edns => (edns, UInt16.ofNat (rcode.toNat / 16 % 256))).map
        fun (_, high) => high.toNat).getD 0 * 16 + rcode.toNat % 16)) = m.rcode := by
  obtain ⟨rfl, hfits, hcarried⟩ := wireRcode_eq_ok h
  refine Eq.trans (congrArg ResponseCode.fromU16 ?_) m.rcode.fromU16_toU16
  apply UInt16.toNat_inj.mp
  rw [UInt16.toNat_ofNat']
  cases hedns : m.edns with
  | none =>
    have hsmall := hcarried (by rw [hedns]; rfl)
    simp only [Option.map_none, Option.getD_none]
    omega
  | some edns => grind [UInt16.toNat_ofNat']

theorem messagePlan_ok_iff :
    messagePlan m NameCompressor.new 0 = (bytes, .ok c) ↔
    ∃ rcode counts body, wireRcode m.rcode m.edns.isSome = .ok rcode ∧ m.counts = .ok counts ∧
      bytes = headerOctets m.header rcode counts ++ body ∧
      bodyPlan m rcode NameCompressor.new HEADER_LEN = (body, .ok c) := by
  have hheader : ∀ rcode counts, ((Plan.octets (headerOctets m.header rcode counts)).seq
      (bodyPlan m rcode)) NameCompressor.new 0
      = (headerOctets m.header rcode counts ++ (bodyPlan m rcode NameCompressor.new HEADER_LEN).1,
        (bodyPlan m rcode NameCompressor.new HEADER_LEN).2) := by
    intro rcode counts
    rw [Plan.seq_octets, length_headerOctets, Nat.zero_add]
  unfold messagePlan
  constructor
  · intro h
    cases hrcode : wireRcode m.rcode m.edns.isSome with
    | error e => rw [hrcode] at h; cases h
    | ok rcode =>
      cases hcounts : m.counts with
      | error e => rw [hrcode, hcounts] at h; cases h
      | ok counts =>
        rw [hrcode, hcounts] at h
        obtain ⟨hbytes, hout⟩ := Prod.mk.inj ((hheader rcode counts).symm.trans h)
        exact ⟨rcode, counts, _, rfl, rfl, hbytes.symm, Prod.ext rfl hout⟩
  · rintro ⟨rcode, counts, body, hrcode, hcounts, rfl, hbody⟩
    rw [hrcode, hcounts]
    exact (hheader rcode counts).trans (by rw [hbody])

/-- **The whole message read back**: what the plan wrote, the reader takes, exactly
when every chain of pointers in it is shallow. -/
theorem tryFromBytes_messagePlan (hbuilt : ∀ rr ∈ m.records, rr.Built)
    (hplan : messagePlan m NameCompressor.new 0 = (bytes, .ok c)) :
    Decides (DnsMessage.tryFromBytes bytes) (Shallow m.pointerDepths) (·.Same m) := by
  obtain ⟨rcode, counts, body, hrcode, hcounts, rfl, hbody⟩ := messagePlan_ok_iff.mp hplan
  obtain ⟨hqd, han, hns, har⟩ := DnsMessage.counts_eq_ok hcounts
  have hans : ∀ rr ∈ m.answers, rr.Built := fun rr h => hbuilt rr (by simp [DnsMessage.records, h])
  have hauth : ∀ rr ∈ m.authorities, rr.Built :=
    fun rr h => hbuilt rr (by simp [DnsMessage.records, h])
  have hadd : ∀ rr ∈ m.additionals, rr.Built :=
    fun rr h => hbuilt rr (by simp [DnsMessage.records, h])
  -- the body, section by section
  unfold bodyPlan at hbody
  rw [DnsMessage.records, List.map_append, List.map_append, Plan.all_append, Plan.all_append,
    Plan.seq_assoc, Plan.seq_assoc] at hbody
  obtain ⟨qs, c₁, rest₁, hqs, hrest₁, rfl⟩ := Plan.seq_eq_ok.mp hbody
  obtain ⟨ans, c₂, rest₂, hansPlan, hrest₂, rfl⟩ := Plan.seq_eq_ok.mp hrest₁
  obtain ⟨auth, c₃, rest₃, hauthPlan, hrest₃, rfl⟩ := Plan.seq_eq_ok.mp hrest₂
  obtain ⟨adds, c₄, opt, haddPlan, hopt, rfl⟩ := Plan.seq_eq_ok.mp hrest₃
  have hplaced := placedAt_middle (headerOctets m.header rcode counts)
    (qs ++ (ans ++ (auth ++ (adds ++ opt)))) []
  rw [List.append_nil, length_headerOctets] at hplaced
  rw [tryFromBytes_headerOctets, hqd, han, hns, har]
  generalize headerOctets m.header rcode counts ++ (qs ++ (ans ++ (auth ++ (adds ++ opt)))) = data
    at hplaced ⊢
  have htable := tableOk_new data HEADER_LEN fun _ => 0
  obtain ⟨depth₁, htrail₁, htable₁⟩ := tracks_all tracks_query m.queries hqs hplaced.left htable
  obtain ⟨depth₂, htrail₂, htable₂⟩ :=
    tracks_all tracks_rr m.answers hansPlan hplaced.right.left htable₁
  obtain ⟨depth₃, htrail₃, htable₃⟩ :=
    tracks_all tracks_rr m.authorities hauthPlan hplaced.right.right.left htable₂
  have hfits : Shallow m.pointerDepths ↔
      Shallow (depths ⟨NameCompressor.new, fun _ => 0, HEADER_LEN⟩
        (m.queries.flatMap querySegments)).1 ∧
      Shallow (depths ⟨c₁, depth₁, HEADER_LEN + qs.length⟩ (m.answers.flatMap rrSegments)).1 ∧
      Shallow (depths ⟨c₂, depth₂, HEADER_LEN + qs.length + ans.length⟩
        (m.authorities.flatMap rrSegments)).1 ∧
      Shallow (depths ⟨c₃, depth₃, HEADER_LEN + qs.length + ans.length + auth.length⟩
        (m.additionals.flatMap rrSegments)).1 := by
    rw [DnsMessage.pointerDepths, DnsMessage.records, List.flatMap_append, List.flatMap_append,
      List.append_assoc, depths_append, htrail₁, depths_append, htrail₂, depths_append, htrail₃,
      shallow_append, shallow_append, shallow_append]
  refine Decides.congr ?_ hfits.symm
  -- and the readers, section by section
  refine (readMany_readsBack m.queries tracks_query (fun q _ => query_readsBack q) hqs
    hplaced.left htable _).bind fun r hr => ?_
  obtain ⟨queries, rest⟩ := r
  obtain ⟨hqueries, rfl⟩ := hr
  refine (readMany_readsBack m.answers tracks_rr (fun rr h => rr_readsBack (hans rr h)) hansPlan
    hplaced.right.left htable₁ _).bind fun r hr => ?_
  obtain ⟨answers, rest⟩ := r
  obtain ⟨hanswers, rfl⟩ := hr
  refine (readMany_readsBack m.authorities tracks_rr (fun rr h => rr_readsBack (hauth rr h))
    hauthPlan hplaced.right.right.left htable₂ _).bind fun r hr => ?_
  obtain ⟨authorities, rest⟩ := r
  obtain ⟨hauthorities, rfl⟩ := hr
  refine (readAdditionals_records hadd haddPlan hplaced.right.right.right.left htable₃ _ none opt
    (readAdditionals_edns hopt)).bind_ok fun r hr => ?_
  obtain ⟨additionals, hadditionals, rfl⟩ := hr
  refine ⟨_, rfl, ?_⟩
  rw [List.append_nil]
  refine ⟨?_, hqueries.flip, hanswers.flip, hauthorities.flip, hadditionals.flip, ?_⟩
  · have hjoined := assemble_rcode hrcode
    simp only [DnsMessage.header, DnsMessage.assemble, hjoined]
  · cases m.edns <;> rfl

/-- **The round trip of `to_bytes`**: a message that was written reads back as the
same message exactly when no name in it stands behind more than `MAX_DEPTH`
compression pointers. -/
theorem toBytes_tryFromBytes_iff {m : DnsMessage} (hbuilt : ∀ rr ∈ m.records, rr.Built)
    {output out : Octets} {n : Nat} (hwritten : m.toBytes output = (.ok n, out)) :
    (∃ m', DnsMessage.tryFromBytes (out.take n) = .ok m' ∧ m'.Same m) ↔
      Shallow m.pointerDepths := by
  obtain ⟨c, bytes, hplan, rfl, -, rfl⟩ := DnsMessage.toBytes_ok_iff.mp hwritten
  have htake : (splice output 0 bytes).take bytes.length = bytes := by
    rw [splice, List.take_zero, List.nil_append, List.take_left]
  rw [htake]
  exact (tryFromBytes_messagePlan hbuilt hplan).ok_iff

/-- An MX record under its own owner's name: the owner is a pointer, the exchange ends in one. -/
def mailReply : DnsMessage where
  id := 1
  response := true
  opcode := .query
  authoritive := true
  truncation := false
  recursion := false
  recursionOk := false
  ad := false
  cd := false
  rcode := .ok
  queries := [⟨⟨[[101, 120]], by decide, by decide⟩, Qtype.of MX, .in⟩]
  answers := [⟨⟨[[101, 120]], by decide, by decide⟩, Class.IN, ⟨3600⟩,
    ⟨MX, [0, 10, 2, 109, 120, 2, 101, 120, 0]⟩⟩]
  authorities := []
  additionals := []
  edns := none

theorem toBytes_tryFromBytes_mailReply :
    ∃ n out, mailReply.toBytes (List.replicate 64 0) = (.ok n, out) ∧
      ∃ m', DnsMessage.tryFromBytes (out.take n) = .ok m' ∧ m'.Same mailReply := by
  have hbuilt : ∀ rr ∈ mailReply.records, rr.Built := by
    intro rr hrr
    cases List.mem_singleton.mp hrr
    exact ⟨⟨.mx 10 ⟨[[109, 120], [101, 120]], by decide, by decide⟩, rfl⟩, by decide, by decide⟩
  have hwritten : mailReply.toBytes (List.replicate 64 0)
      = (.ok 39, (mailReply.toBytes (List.replicate 64 0)).2) := by decide +kernel
  have hshallow : Shallow mailReply.pointerDepths := by decide +kernel
  exact ⟨_, _, hwritten, (toBytes_tryFromBytes_iff hbuilt hwritten).mpr hshallow⟩

/-! ## A message that is written and cannot be read -/

theorem encodedLen_nested (k : Nat) : encodedLen (List.replicate k [97]) = 2 * k + 1 := by
  induction k with
  | zero => rfl
  | succ k ih =>
    rw [List.replicate_succ, encodedLen_cons, ih]
    simp
    omega

def nestedName (k : Nat) : Name where
  labels := List.replicate (min k 127) [97]
  labels_ok := fun l hl => by rw [List.eq_of_mem_replicate hl]; decide
  length_ok := by rw [encodedLen_nested, MAX_NAME_LEN]; omega

theorem nestedName_labels (hk : k ≤ 127) : (nestedName k).labels = List.replicate k [97] := by
  simp only [nestedName, Nat.min_eq_left hk]

def nestedQueries (n : Nat) : DnsMessage where
  id := 1
  response := false
  opcode := .query
  authoritive := false
  truncation := false
  recursion := false
  recursionOk := false
  ad := false
  cd := false
  rcode := .ok
  queries := (List.range' 1 n).map fun k => ⟨nestedName k, Qtype.of A, .in⟩
  answers := []
  authorities := []
  additionals := []
  edns := none

/-- What the first `k` nested names leave behind: one suffix each, each behind a
chain one pointer longer than the last. -/
structure NestedTrail (k : Nat) (t : Trail) : Prop where
  index : t.table.index = []
  length : t.table.seen.length = k
  pos : t.pos ≤ 12 + 8 * k
  entries : ∀ e ∈ t.table.seen, e.stop ≤ t.table.arena.length ∧ e.offset.toNat < t.pos ∧
    ∃ i < k, t.table.octetsOf e = wireOf (List.replicate (i + 1) [97]) ∧
      t.depth e.offset.toNat = i
  last : 0 < k → ∃ e ∈ t.table.seen, t.table.octetsOf e = wireOf (List.replicate k [97])

theorem NestedTrail.lookup_eq_some {j : Nat} (h : NestedTrail k t) {target : UInt16}
    (hfound : t.table.lookup (wireOf (List.replicate (j + 1) [97])) = some target) :
    j < k ∧ t.depth target.toNat = j := by
  obtain ⟨e, hmem, rfl, hsame⟩ := NameCompressor.lookup_sound hfound
  obtain ⟨-, -, i, hi, hoctets, hdepth⟩ := h.entries e hmem
  have hlen := congrArg List.length hsame
  rw [hoctets, length_foldCase, length_foldCase, length_wireOf, length_wireOf, encodedLen_nested,
    encodedLen_nested] at hlen
  obtain rfl : i = j := by omega
  exact ⟨hi, hdepth⟩

theorem NestedTrail.lookup_last (h : NestedTrail (k + 1) t) :
    ∃ target, t.table.lookup (wireOf (List.replicate (k + 1) [97])) = some target := by
  obtain ⟨e, hmem, hoctets⟩ := h.last (Nat.succ_pos k)
  rw [NameCompressor.lookup, h.index, List.isEmpty_nil, if_pos rfl]
  have hsome : (t.table.seen.find? fun s =>
      eqIgnoreAsciiCase (t.table.octetsOf s) (wireOf (List.replicate (k + 1) [97]))).isSome :=
    List.find?_isSome.mpr ⟨e, hmem, eqIgnoreAsciiCase_iff.mpr (by rw [hoctets])⟩
  obtain ⟨found, hfound⟩ := Option.isSome_iff_exists.mp hsome
  exact ⟨found.offset, by rw [hfound]; rfl⟩

theorem NestedTrail.matchSuffix (h : NestedTrail k t) (hk : k < 127) :
    (k = 0 ∧ t.table.matchSuffix (nestedName (k + 1)).wire.length (nestedName (k + 1)).labels = none) ∨
    ∃ target, t.table.matchSuffix (nestedName (k + 1)).wire.length (nestedName (k + 1)).labels
        = some (2, target) ∧ t.depth target.toNat + 1 = k := by
  have hlabels := nestedName_labels (k := k + 1) (by omega)
  rw [Name.length_wire, hlabels, encodedLen_nested]
  have hmiss : t.table.lookup (wireOf (List.replicate (k + 1) [97])) = none := by
    cases hfound : t.table.lookup (wireOf (List.replicate (k + 1) [97])) with
    | none => rfl
    | some target => exact absurd (h.lookup_eq_some hfound).1 (Nat.lt_irrefl k)
  rw [List.replicate_succ] at hmiss ⊢
  rw [NameCompressor.matchSuffix, hmiss]
  cases k with
  | zero => exact .inl ⟨rfl, rfl⟩
  | succ j =>
    obtain ⟨target, hfound⟩ := h.lookup_last
    refine .inr ⟨target, ?_, by rw [(h.lookup_eq_some hfound).2]⟩
    have hlen := encodedLen_nested (j + 1)
    rw [List.replicate_succ] at hfound hlen ⊢
    simp only [NameCompressor.matchSuffix, hfound, hlen]
    congr 2
    omega

theorem NestedTrail.step (h : NestedTrail k t) (hk : k < 127) :
    nameDepth t.table t.depth (nestedName (k + 1)) = k ∧
      NestedTrail (k + 1) (depths t [.name (nestedName (k + 1)), .raw 4]).2 := by
  have hlabels := nestedName_labels (k := k + 1) (by omega)
  have hwire : (nestedName (k + 1)).wire = wireOf (List.replicate (k + 1) [97]) := by
    rw [Name.wire, hlabels]
  have hlen : (nestedName (k + 1)).wire.length = 2 * k + 3 := by
    rw [Name.length_wire, hlabels, encodedLen_nested]
    omega
  have hroot : (nestedName (k + 1)).isRoot = false := by
    rw [Name.isRoot, hlabels]
    rfl
  -- the literal part is the first label, whether a pointer or the root follows it
  have hmatch : nameDepth t.table t.depth (nestedName (k + 1)) = k ∧
      freshEndOf (nestedName (k + 1)) (t.table.matchSuffix (nestedName (k + 1)).wire.length
        (nestedName (k + 1)).labels) = 2 ∧
      (nameOctets t.table (nestedName (k + 1))).length ≤ 4 := by
    rcases h.matchSuffix hk with ⟨rfl, hnone⟩ | ⟨target, hsome, hdepth⟩
    · simp only [nameDepth, nameOctets, hnone]
      simp [freshEndOf, hlen]
    · simp only [nameDepth, nameOctets, hsome, hdepth]
      simp [freshEndOf, pointerOctets, hlen]
  obtain ⟨hdepth, hfresh, hshort⟩ := hmatch
  refine ⟨hdepth, ?_⟩
  have hpos := h.pos
  have hentries : NameCompressor.freshSuffixes (nestedName (k + 1)).wire.length t.table.arena.length
      (t.table.arena.length + (nestedName (k + 1)).wire.length) t.pos 2 (nestedName (k + 1)).labels
      = [⟨t.table.arena.length, t.table.arena.length + (2 * k + 3), UInt16.ofNat t.pos⟩] := by
    rw [hlen, hlabels, List.replicate_succ, NameCompressor.freshSuffixes, ← List.replicate_succ,
      encodedLen_nested, show 2 * k + 3 - (2 * (k + 1) + 1) = 0 by omega]
    simp only [Nat.add_zero]
    have hreach : t.pos ≤ POINTER_MASK := by
      rw [POINTER_MASK]
      omega
    rw [if_neg (by omega), if_pos hreach]
    cases k with
    | zero => rfl
    | succ j => grind [NameCompressor.freshSuffixes, encodedLen_nested]
  have htable : afterName t.table (nestedName (k + 1)) t.pos
      = { t.table with
          arena := t.table.arena ++ wireOf (List.replicate (k + 1) [97])
          seen := t.table.seen ++
            [⟨t.table.arena.length, t.table.arena.length + (2 * k + 3), UInt16.ofNat t.pos⟩] } := by
    rw [afterName, hroot, if_neg Bool.false_ne_true, hfresh, NameCompressor.record,
      if_pos (by omega)]
    simp only [hentries]
    simp only [NameCompressor.indexFrom, h.index, List.isEmpty_nil, if_true, List.length_append,
      h.length, List.length_singleton, hwire]
    exact if_pos (by rw [SCAN_LIMIT]; omega)
  have hoffset : (UInt16.ofNat t.pos).toNat = t.pos := toNat_ofNat_u16 (by omega)
  have hnew : (afterName t.table (nestedName (k + 1)) t.pos).octetsOf
      ⟨t.table.arena.length, t.table.arena.length + (2 * k + 3), UInt16.ofNat t.pos⟩
      = wireOf (List.replicate (k + 1) [97]) := by
    rw [htable, NameCompressor.octetsOf]
    simp only
    rw [List.drop_left, Nat.add_sub_cancel_left, List.take_of_length_le]
    rw [← hwire, hlen]
  simp only [depths, Trail.afterName]
  refine ⟨?_, ?_, by simp only; omega, ?_, ?_⟩
  · simp only [htable, h.index]
  · simp only [htable, List.length_append, h.length, List.length_singleton]
  · intro e he
    simp only [htable, List.mem_append, List.mem_singleton] at he
    rcases he with hold | rfl
    · obtain ⟨hstop, hbefore, i, hi, hoctets, hd⟩ := h.entries e hold
      refine ⟨?_, by simp only; omega, i, by omega, ?_, ?_⟩
      · simp only [htable, List.length_append]
        omega
      · rw [← hoctets]
        exact NameCompressor.octetsOf_append (by rw [htable]) hstop
      · simp only [depthAfter, if_pos hbefore, hd]
    · refine ⟨?_, ?_, k, by omega, hnew, ?_⟩
      · simp only [htable, List.length_append, length_wireOf, encodedLen_nested]
        omega
      · simp only [hoffset]
        omega
      · simp only [hoffset, depthAfter, Nat.lt_irrefl, if_false, hdepth]
  · grind

theorem depths_nestedQueries (n : Nat) (h : NestedTrail k t) (hn : k + n ≤ 127) :
    (depths t (((List.range' (k + 1) n).map fun k =>
      (⟨nestedName k, Qtype.of A, .in⟩ : QuerySection)).flatMap querySegments)).1
      = List.range' k n := by
  induction n generalizing k t with
  | zero => rfl
  | succ n ih =>
    obtain ⟨hdepth, hnext⟩ := h.step (by omega)
    have hrest := ih hnext (by omega)
    rw [List.range'_succ, List.map_cons, List.flatMap_cons, depths_append, List.range'_succ]
    simp only [querySegments, depths, hdepth, List.cons_append, List.nil_append] at hrest ⊢
    rw [hrest]

/-- **Chains grow with the message**: the `n` nested names stand behind 0, 1, 2, …
pointers. -/
theorem nestedQueries_pointerDepths {n : Nat} (hn : n ≤ 127) :
    (nestedQueries n).pointerDepths = List.range n := by
  have hstart : NestedTrail 0 ⟨NameCompressor.new, fun _ => 0, HEADER_LEN⟩ :=
    ⟨rfl, rfl, Nat.le_refl _, fun e he => absurd he List.not_mem_nil, fun h => absurd h (by omega)⟩
  have h := depths_nestedQueries n hstart (by omega)
  rw [DnsMessage.pointerDepths, List.range_eq_range']
  simp only [nestedQueries, DnsMessage.records, List.append_nil, List.flatMap_nil] at h ⊢
  exact h

theorem queryPlan_ok (q : QuerySection) (c : NameCompressor) (pos : Nat) :
    ∃ bytes c', queryPlan q c pos = (bytes, .ok c') :=
  ⟨_, _, rfl⟩

theorem queriesPlan_ok (queries : List QuerySection) (c : NameCompressor) (pos : Nat) :
    ∃ bytes c', Plan.all (queries.map queryPlan) c pos = (bytes, .ok c') := by
  induction queries generalizing c pos with
  | nil => exact ⟨_, _, rfl⟩
  | cons q rest ih =>
    obtain ⟨first, c₁, hfirst⟩ := queryPlan_ok q c pos
    obtain ⟨second, c₂, hsecond⟩ := ih c₁ (pos + first.length)
    exact ⟨_, _, Plan.seq_eq_ok.mpr ⟨first, c₁, second, hfirst, hsecond, rfl⟩⟩

/-- **Written and refused**: 52 nested names in the question section. -/
theorem nestedQueries_refused :
    ∃ n out e, (∀ rr ∈ (nestedQueries 52).records, rr.Built) ∧
      (nestedQueries 52).toBytes (List.replicate 4096 0) = (.ok n, out) ∧
      DnsMessage.tryFromBytes (out.take n) = .error e := by
  have hbuilt : ∀ rr ∈ (nestedQueries 52).records, rr.Built :=
    fun rr h => absurd h List.not_mem_nil
  obtain ⟨body, c, hbody⟩ := queriesPlan_ok (nestedQueries 52).queries NameCompressor.new HEADER_LEN
  have hplan := messagePlan_ok_iff.mpr ⟨0, ⟨52, 0, 0, 0⟩, body, rfl, rfl, rfl,
    Plan.seq_eq_ok.mpr ⟨body, c, [], hbody, rfl, (List.append_nil body).symm⟩⟩
  generalize headerOctets (nestedQueries 52).header 0 ⟨52, 0, 0, 0⟩ ++ body = bytes at hplan
  have hbound := messagePlan_length_le (nestedQueries 52) NameCompressor.new
  have hsize : (nestedQueries 52).wireSizeBound ≤ 4096 := by decide +kernel
  rw [hplan] at hbound
  have hwritten : (nestedQueries 52).toBytes (List.replicate 4096 0)
      = (.ok bytes.length, splice (List.replicate 4096 0) 0 bytes) := by
    refine DnsMessage.toBytes_ok_iff.mpr ⟨c, bytes, hplan, rfl, ?_, rfl⟩
    rw [List.length_replicate]
    simp only at hbound
    omega
  have hdeep : ¬ Shallow (nestedQueries 52).pointerDepths := by
    rw [nestedQueries_pointerDepths (by omega)]
    decide
  have htake : (splice (List.replicate 4096 0) 0 bytes).take bytes.length = bytes := by
    rw [splice, List.take_zero, List.nil_append, List.take_left]
  obtain ⟨e, he⟩ := (tryFromBytes_messagePlan hbuilt hplan).2 hdeep
  exact ⟨_, _, e, hbuilt, hwritten, by rw [htake, he]⟩

end Rdns.Core
