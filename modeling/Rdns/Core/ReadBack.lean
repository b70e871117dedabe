import Rdns.Core.Layout

/-!
# Rdns — Reading back what was written

One part of a message at a time: what its plan wrote into a message whose
compression table is sound, the matching parser takes back, up to the ASCII case
of domain names, **exactly when** no name in it stands behind more than
`MAX_DEPTH` compression pointers.

`DnsMessage.pointerDepths` is the length of the chain behind each name of a
message, in the order they are written.
-/

namespace Rdns.Core

open Rdns.Lib RecordTypes

/-! ## Chain lengths -/

/-- A stretch of a message as the compressor sees it: a name to compress, or a
number of octets to step over. -/
inductive Segment where
  | name (name : Name)
  | raw (length : Nat)

/-- How far writing has come: the table, the chain behind each offset, the
position. -/
structure Trail where
  table : NameCompressor
  depth : Nat → Nat
  pos : Nat

def Trail.afterName (t : Trail) (name : Name) : Trail where
  table := Core.afterName t.table name t.pos
  depth := depthAfter t.depth t.pos (nameDepth t.table t.depth name)
  pos := t.pos + (nameOctets t.table name).length

def depths : Trail → List Segment → List Nat × Trail
  | t, [] => ([], t)
  | t, .raw length :: rest => depths { t with pos := t.pos + length } rest
  | t, .name name :: rest =>
    (nameDepth t.table t.depth name :: (depths (t.afterName name) rest).1,
      (depths (t.afterName name) rest).2)

/-- The names `write_rdata` compresses in a record's RDATA, and the octets around
them. -/
def rdataSegments (rtype : Rtype) (rdata : Octets) : List Segment :=
  if rtype = NS ∨ rtype = CNAME ∨ rtype = PTR then
    match Name.fromWire rdata with
    | .ok (name, rest) => [.name name, .raw rest.length]
    | .error _ => []
  else if rtype = SOA then
    match Name.fromWire rdata with
    | .ok (mname, rest) =>
      match Name.fromWire rest with
      | .ok (rname, rest) => [.name mname, .name rname, .raw rest.length]
      | .error _ => []
    | .error _ => []
  else if rtype = MX then
    match Name.fromWire (rdata.drop 2) with
    | .ok (exchange, rest) => [.raw 2, .name exchange, .raw rest.length]
    | .error _ => []
  else [.raw rdata.length]

def querySegments (q : QuerySection) : List Segment := [.name q.qname, .raw 4]

def rrSegments (rr : ResourceRecord) : List Segment :=
  .name rr.name :: .raw 10 :: rdataSegments rr.rdata.rtype rr.rdata.rdata

def DnsMessage.pointerDepths (m : DnsMessage) : List Nat :=
  (depths ⟨NameCompressor.new, fun _ => 0, HEADER_LEN⟩
    (m.queries.flatMap querySegments ++ m.records.flatMap rrSegments)).1

def Shallow (ds : List Nat) : Prop := ∀ d ∈ ds, d ≤ MAX_DEPTH

instance (ds : List Nat) : Decidable (Shallow ds) :=
  inferInstanceAs (Decidable (∀ d ∈ ds, d ≤ MAX_DEPTH))

theorem shallow_append {a b : List Nat} : Shallow (a ++ b) ↔ Shallow a ∧ Shallow b :=
  List.forall_mem_append

theorem shallow_cons {d : Nat} {ds : List Nat} :
    Shallow (d :: ds) ↔ d ≤ MAX_DEPTH ∧ Shallow ds :=
  List.forall_mem_cons

theorem depths_append (t : Trail) (a b : List Segment) :
    depths t (a ++ b)
      = ((depths t a).1 ++ (depths (depths t a).2 b).1, (depths (depths t a).2 b).2) := by
  induction a generalizing t with
  | nil => rfl
  | cons segment rest ih =>
    cases segment with
    | raw length => exact ih _
    | name name => rw [List.cons_append, depths, ih, depths]; rfl

/-! ## Plans and their segments -/

def Tracks (plan : WirePlan) (segments : List Segment) : Prop :=
  ∀ ⦃data : Octets⦄ ⦃c c' : NameCompressor⦄ ⦃depth : Nat → Nat⦄ ⦃pos : Nat⦄ ⦃bytes : Octets⦄,
    plan c pos = (bytes, .ok c') → PlacedAt data pos bytes → TableOk data pos depth c →
    ∃ depth', (depths ⟨c, depth, pos⟩ segments).2 = ⟨c', depth', pos + bytes.length⟩ ∧
      TableOk data (pos + bytes.length) depth' c'

theorem tracks_octets (bytes : Octets) : Tracks (Plan.octets bytes) [.raw bytes.length] := by
  intro data c c' depth pos bytes' hplan _ htable
  cases hplan
  exact ⟨depth, rfl, htable.advance (Nat.le_add_right ..)⟩

theorem tracks_name (name : Name) : Tracks (namePlan name) [.name name] := by
  intro data c c' depth pos bytes hplan hplaced htable
  cases hplan
  exact ⟨_, rfl, htable.afterName hplaced⟩

theorem Tracks.seq {p q : WirePlan} {a b : List Segment} (hp : Tracks p a) (hq : Tracks q b) :
    Tracks (p.seq q) (a ++ b) := by
  intro data c c' depth pos bytes hplan hplaced htable
  obtain ⟨first, c₁, second, hfirst, hsecond, rfl⟩ := Plan.seq_eq_ok.mp hplan
  obtain ⟨depth₁, htrail, htable₁⟩ := hp hfirst hplaced.left htable
  obtain ⟨depth₂, htrail₂, htable₂⟩ := hq hsecond hplaced.right htable₁
  refine ⟨depth₂, ?_, ?_⟩
  · rw [depths_append, htrail, htrail₂, List.length_append, Nat.add_assoc]
  · rw [List.length_append, ← Nat.add_assoc]
    exact htable₂

theorem tracks_all {ι : Type} {plan : ι → WirePlan} {segments : ι → List Segment}
    (h : ∀ i, Tracks (plan i) (segments i)) (items : List ι) :
    Tracks (Plan.all (items.map plan)) (items.flatMap segments) := by
  induction items with
  | nil =>
    intro data c c' depth pos bytes hplan _ htable
    cases hplan
    exact ⟨depth, rfl, htable⟩
  | cons i rest ih => exact (h i).seq ih

theorem tracks_query (q : QuerySection) : Tracks (queryPlan q) (querySegments q) :=
  (tracks_name q.qname).seq (tracks_octets _)

theorem tracks_attempt {α : Type} {x : Except WireError α} {plan : α → WirePlan}
    {segments : List Segment} (h : ∀ a, x = .ok a → Tracks (plan a) segments) :
    Tracks (Plan.attempt x plan) segments := by
  intro data c c' depth pos bytes hplan
  cases x with
  | ok a => exact h a rfl hplan
  | error e => cases hplan

theorem tracks_rdata (rtype : Rtype) (rdata : Octets) :
    Tracks (rdataPlan rtype rdata) (rdataSegments rtype rdata) := by
  unfold rdataPlan rdataSegments
  split
  · refine tracks_attempt fun ⟨name, rest⟩ hread => ?_
    simp only [hread]
    exact (tracks_name name).seq (tracks_octets rest)
  split
  · refine tracks_attempt fun ⟨mname, rest⟩ hread => ?_
    refine tracks_attempt fun ⟨rname, rest'⟩ hread' => ?_
    simp only [hread, hread']
    exact (tracks_name mname).seq ((tracks_name rname).seq (tracks_octets rest'))
  split
  · split
    · intro data c c' depth pos bytes hplan
      cases hplan
    · rename_i hlen
      have hfirst : (rdata.take 2).length = 2 := by
        rw [List.length_take]
        omega
      cases hread : Name.fromWire (rdata.drop 2) with
      | error e =>
        intro data c c' depth pos bytes hplan
        cases hplan
      | ok x =>
        have hraw := tracks_octets (rdata.take 2)
        rw [hfirst] at hraw
        exact hraw.seq ((tracks_name x.1).seq (tracks_octets x.2))
  · exact tracks_octets rdata

variable {data rdata : Octets} {c : NameCompressor} {pos : Nat} {parsed : ParsedRecord}

theorem rrPlan_eq_ok {rr : ResourceRecord} {c' : NameCompressor} {bytes : Octets}
    (h : rrPlan rr c pos = (bytes, .ok c')) :
    ∃ body, bytes = rrHead c rr ++ (be16 (UInt16.ofNat body.length) ++ body) ∧
      body.length ≤ 65535 ∧
      rdataPlan rr.rdata.rtype rr.rdata.rdata (afterName c rr.name pos)
        (pos + (nameOctets c rr.name).length + 10) = (body, .ok c') := by
  have hat : pos + (rrHead c rr).length + 2 = pos + (nameOctets c rr.name).length + 10 := by
    simp only [rrHead, List.length_append, length_be16, length_be32]
    omega
  unfold rrPlan at h
  simp only [hat] at h
  rcases hplan : rdataPlan rr.rdata.rtype rr.rdata.rdata (afterName c rr.name pos)
    (pos + (nameOctets c rr.name).length + 10) with ⟨body, e | c''⟩
  · rw [hplan] at h
    cases h
  · grind

theorem placedAt_rr {rr : ResourceRecord} {body : Octets}
    (h : PlacedAt data pos (rrHead c rr ++ (be16 (UInt16.ofNat body.length) ++ body))) :
    PlacedAt data pos (nameOctets c rr.name) ∧
      PlacedAt data (pos + (nameOctets c rr.name).length + 10) body := by
  refine ⟨h.left.left, ?_⟩
  have hbody := h.right.right
  have hat : pos + (rrHead c rr).length + (be16 (UInt16.ofNat body.length)).length
      = pos + (nameOctets c rr.name).length + 10 := by
    simp only [rrHead, List.length_append, length_be16, length_be32]
    omega
  rwa [hat] at hbody

theorem tracks_rr (rr : ResourceRecord) : Tracks (rrPlan rr) (rrSegments rr) := by
  intro data c c' depth pos bytes hplan hplaced htable
  obtain ⟨body, rfl, -, hbody⟩ := rrPlan_eq_ok hplan
  obtain ⟨hname, hrdata⟩ := placedAt_rr hplaced
  obtain ⟨depth', htrail, htable'⟩ := tracks_rdata _ _ hbody hrdata
    ((htable.afterName hname).advance (Nat.le_add_right _ 10))
  have hlen : pos + (rrHead c rr ++ (be16 (UInt16.ofNat body.length) ++ body)).length
      = pos + (nameOctets c rr.name).length + 10 + body.length := by
    simp only [rrHead, List.length_append, length_be16, length_be32]
    omega
  rw [hlen]
  exact ⟨depth', htrail, htable'⟩

/-! ## Reading a part back -/

def Reads {α : Type} (parse : Octets → Except WireError (α × Octets)) (bytes : Octets)
    (fits : Prop) (good : α → Prop) : Prop :=
  ∀ tail, Decides (parse (bytes ++ tail)) fits fun r => good r.1 ∧ r.2 = tail

def ReadsBack {α : Type} (plan : WirePlan) (segments : List Segment)
    (parse : Octets → Octets → Except WireError (α × Octets)) (good : α → Prop) : Prop :=
  ∀ ⦃data : Octets⦄ ⦃c c' : NameCompressor⦄ ⦃depth : Nat → Nat⦄ ⦃pos : Nat⦄ ⦃bytes : Octets⦄,
    plan c pos = (bytes, .ok c') → PlacedAt data pos bytes → TableOk data pos depth c →
    Reads (parse data) bytes (Shallow (depths ⟨c, depth, pos⟩ segments).1) good

theorem readMany_readsBack {ι α : Type} {plan : ι → WirePlan} {segments : ι → List Segment}
    {parse : Octets → Octets → Except WireError (α × Octets)} {good : ι → α → Prop}
    (items : List ι) (htracks : ∀ i, Tracks (plan i) (segments i))
    (hreads : ∀ i ∈ items, ReadsBack (plan i) (segments i) parse (good i)) :
    ReadsBack (Plan.all (items.map plan)) (items.flatMap segments)
      (fun data => readMany (parse data) items.length) (List.Forall₂ good items) := by
  induction items with
  | nil =>
    intro data c c' depth pos bytes hplan _ _ tail
    cases hplan
    exact (decides_true rfl ⟨.nil, rfl⟩).congr (by simp [depths, Shallow])
  | cons i rest ih =>
    intro data c c' depth pos bytes hplan hplaced htable tail
    obtain ⟨first, c₁, second, hfirst, hsecond, rfl⟩ := Plan.seq_eq_ok.mp hplan
    have hone := hreads i (List.mem_cons_self ..) hfirst hplaced.left htable
    obtain ⟨depth₁, htrail, htable₁⟩ := htracks i hfirst hplaced.left htable
    have hmany := ih (fun j hj => hreads j (List.mem_cons_of_mem _ hj)) hsecond hplaced.right
      htable₁
    rw [List.flatMap_cons, depths_append, htrail, List.append_assoc]
    refine ((hone (second ++ tail)).bind fun r hr => ?_).congr shallow_append.symm
    obtain ⟨x, after⟩ := r
    obtain ⟨hx, rfl⟩ := hr
    refine (hmany tail).bind_ok fun r hr => ?_
    exact ⟨_, rfl, .cons hx hr.1, hr.2⟩

theorem name_reads {depth : Nat → Nat} {name : Name} (htable : TableOk data pos depth c)
    (hplaced : PlacedAt data pos (nameOctets c name)) :
    Reads (Name.fromWireIn data) (nameOctets c name) (nameDepth c depth name ≤ MAX_DEPTH)
      (fun shown => shown.same name = true) := by
  obtain ⟨shown, hsame, hresolves⟩ := namePlan_resolves htable hplaced
  intro tail
  refine ⟨fun hle => ⟨_, Name.fromWireIn_resolves hresolves hle tail, hsame, rfl⟩, fun hdeep => ?_⟩
  exact Name.fromWireIn_tooDeep hresolves (Nat.lt_of_not_le hdeep) tail

structure QuerySection.Same (a b : QuerySection) : Prop where
  qname : a.qname.same b.qname = true
  qtype : a.qtype = b.qtype
  qclass : a.qclass = b.qclass

def RecordData.Same (a b : RecordData) : Prop :=
  a.rtype = b.rtype ∧ ∃ p q, a.parse = .ok p ∧ b.parse = .ok q ∧ p.folded = q.folded

structure ResourceRecord.Same (a b : ResourceRecord) : Prop where
  name : a.name.same b.name = true
  cls : a.cls = b.cls
  ttl : a.ttl = b.ttl
  rdata : a.rdata.Same b.rdata

theorem shallow_singleton {d : Nat} : Shallow [d] ↔ d ≤ MAX_DEPTH :=
  List.forall_mem_singleton

theorem query_readsBack (q : QuerySection) :
    ReadsBack (queryPlan q) (querySegments q) QuerySection.tryFromBytes
      (fun shown => shown.Same q) := by
  intro data c c' depth pos bytes hplan hplaced htable tail
  obtain ⟨first, c₁, second, hfirst, hsecond, rfl⟩ := Plan.seq_eq_ok.mp hplan
  cases hfirst
  cases hsecond
  have hdepths : (depths ⟨c, depth, pos⟩ (querySegments q)).1 = [nameDepth c depth q.qname] := rfl
  rw [hdepths, List.append_assoc]
  refine ((name_reads htable hplaced.left _).bind_ok fun r hr => ?_).congr shallow_singleton.symm
  obtain ⟨shown, after⟩ := r
  obtain ⟨hsame, rfl⟩ := hr
  refine ⟨(⟨shown, q.qtype, q.qclass⟩, tail), ?_, ⟨hsame, rfl, rfl⟩, rfl⟩
  simp only [List.append_assoc, readU16_be16, bind, Except.bind, QueryClass.fromU16_toU16]
  rfl

/-! ## RDATA -/

theorem RecordData.fromWire_of_decode {rtype : Rtype} {out : Octets}
    (hdecode : ParsedRecord.decode rtype rdata data = .ok parsed)
    (hknown : parsed.isUnknown = false) (hout : parsed.encodeRdata = .ok out) :
    RecordData.fromWire rtype rdata data = .ok ⟨parsed.rtype, out⟩ := by
  have hencode : parsed.encode = .ok (parsed.rtype, out) := by
    rw [ParsedRecord.encode, hout]
    rfl
  have htail : RecordData.fromWire rtype rdata data
      = (parsed.encode >>= fun encoded => pure ⟨encoded.1, encoded.2⟩) := by
    rw [RecordData.fromWire, hdecode]
    cases parsed <;> first | rfl | cases hknown
  rw [htail, hencode]
  rfl

theorem sortParams_sortParams (params : List (UInt16 × Octets)) :
    sortParams (sortParams params) = sortParams params :=
  List.mergeSort_of_pairwise ((sortParams_pairwise params).imp fun h => decide_eq_true h)

theorem ParsedRecord.canonical_canonical (parsed : ParsedRecord) :
    parsed.canonical.canonical = parsed.canonical := by
  cases parsed with
  | svcb rtype priority target params => simp only [canonical, sortParams_sortParams]
  | _ => rfl

theorem ParsedRecord.canonical_encodeRdata (parsed : ParsedRecord) :
    parsed.canonical.encodeRdata = parsed.encodeRdata := by
  cases parsed with
  | svcb rtype priority target params =>
    simp only [canonical, encodeRdata, encodeSvcParams, sortParams_sortParams]
  | _ => rfl

theorem ParsedRecord.canonical_rtype (parsed : ParsedRecord) :
    parsed.canonical.rtype = parsed.rtype := by
  cases parsed <;> rfl

theorem ParsedRecord.canonical_isUnknown (parsed : ParsedRecord) :
    parsed.canonical.isUnknown = parsed.isUnknown := by
  cases parsed <;> rfl

theorem RecordData.same_of_folded {p q : ParsedRecord} {a b : Octets}
    (ha : p.encodeRdata = .ok a) (hb : q.encodeRdata = .ok b) (hane : a ≠ []) (hbne : b ≠ [])
    (hrtype : p.rtype = q.rtype) (hfolded : p.canonical.folded = q.canonical.folded) :
    RecordData.Same ⟨p.rtype, a⟩ ⟨q.rtype, b⟩ :=
  ⟨hrtype, p.canonical, q.canonical, ParsedRecord.decode_encodeRdata _ ha hane,
    ParsedRecord.decode_encodeRdata _ hb hbne, hfolded⟩

theorem nameOctets_ne_nil (c : NameCompressor) (name : Name) : nameOctets c name ≠ [] := by
  rcases nameOctets_cases c name with ⟨-, hbytes⟩ | ⟨own, rest, target, -, -, -, -, hbytes⟩
  · rw [hbytes]
    exact wireOf_ne_nil _
  · rw [hbytes]
    simp [pointerOctets, be16]

theorem RecordData.fromWire_decides {body : Octets} {p : ParsedRecord} {fits : Prop}
    (hp : p.encodeRdata = .ok rdata) (hne : rdata ≠ [])
    (h : Decides (ParsedRecord.decode p.rtype body data) fits fun q =>
      q.rtype = p.rtype ∧ q.isUnknown = false ∧ q.canonical.folded = p.canonical.folded ∧
        ∃ out, q.encodeRdata = .ok out ∧ out ≠ []) :
    Decides (RecordData.fromWire p.rtype body data) fits (·.Same ⟨p.rtype, rdata⟩) := by
  refine ⟨fun hfits => ?_, fun hdeep => ?_⟩
  · obtain ⟨q, hdecode, hrtype, hknown, hfolded, out, hout, houtne⟩ := h.1 hfits
    exact ⟨_, RecordData.fromWire_of_decode hdecode hknown hout,
      RecordData.same_of_folded hout hp houtne hne hrtype hfolded⟩
  · obtain ⟨e, he⟩ := h.2 hdeep
    refine ⟨e, ?_⟩
    rw [RecordData.fromWire, he]
    rfl

def RdataReadsBack (stored : RecordData) : Prop :=
  ∀ ⦃data : Octets⦄ ⦃c c' : NameCompressor⦄ ⦃depth : Nat → Nat⦄ ⦃pos : Nat⦄ ⦃body : Octets⦄,
    rdataPlan stored.rtype stored.rdata c pos = (body, .ok c') → PlacedAt data pos body →
    TableOk data pos depth c →
    Decides (RecordData.fromWire stored.rtype body data)
      (Shallow (depths ⟨c, depth, pos⟩ (rdataSegments stored.rtype stored.rdata)).1)
      (·.Same stored)

def compressedTypes : List Rtype := [NS, CNAME, PTR, SOA, MX]

theorem rdata_readsBack_verbatim (hencode : parsed.encodeRdata = .ok rdata) (hne : rdata ≠ [])
    (hknown : parsed.isUnknown = false) (hplain : parsed.rtype ∉ compressedTypes) :
    RdataReadsBack ⟨parsed.rtype, rdata⟩ := by
  simp only [compressedTypes, List.mem_cons, List.not_mem_nil, or_false, not_or] at hplain
  obtain ⟨hns, hcname, hptr, hsoa, hmx⟩ := hplain
  intro data c c' depth pos body hplan _ _
  have hone : ¬ (parsed.rtype = NS ∨ parsed.rtype = CNAME ∨
      parsed.rtype = PTR) := by
    rintro (h | h | h)
    exacts [hns h, hcname h, hptr h]
  have hsegments : rdataSegments parsed.rtype rdata = [.raw rdata.length] := by
    rw [rdataSegments, if_neg hone, if_neg hsoa, if_neg hmx]
  rw [rdataPlan, if_neg hone, if_neg hsoa, if_neg hmx] at hplan
  cases hplan
  refine Decides.congr (RecordData.fromWire_decides hencode hne <|
    decides_true (ParsedRecord.decode_encodeRdata data hencode hne) ?_) ?_
  · refine ⟨parsed.canonical_rtype, parsed.canonical_isUnknown.trans hknown, ?_, rdata, ?_, hne⟩
    · rw [ParsedRecord.canonical_canonical]
    · rw [ParsedRecord.canonical_encodeRdata]
      exact hencode
  · simp [hsegments, depths, Shallow]

theorem rdata_readsBack_oneName (wrap : Name → ParsedRecord) {rtype : Rtype} (name : Name)
    (hone : rtype = NS ∨ rtype = CNAME ∨ rtype = PTR)
    (hrtype : ∀ n, (wrap n).rtype = rtype) (hencode : ∀ n, (wrap n).encodeRdata = .ok n.wire)
    (hknown : ∀ n, (wrap n).isUnknown = false)
    (hfolded : ∀ n n', n.toFolded = n'.toFolded →
      (wrap n).canonical.folded = (wrap n').canonical.folded)
    (hdecode : ∀ (body data : Octets), body ≠ [] →
      ParsedRecord.decode rtype body data = decodeOneName wrap data body) :
    RdataReadsBack ⟨rtype, name.wire⟩ := by
  have hstored : Name.fromWire name.wire = .ok (name, []) := by
    have h := Name.fromWire_wire name []
    rwa [List.append_nil] at h
  intro data c c' depth pos body hplan hplaced htable
  simp only [rdataPlan, if_pos hone, hstored, Plan.attempt] at hplan
  obtain ⟨first, c₁, second, hfirst, hsecond, rfl⟩ := Plan.seq_eq_ok.mp hplan
  cases hfirst
  cases hsecond
  have hdepths : (depths ⟨c, depth, pos⟩ (rdataSegments rtype name.wire)).1
      = [nameDepth c depth name] := by
    simp only [rdataSegments, if_pos hone, hstored]
    rfl
  simp only [hdepths]
  refine Decides.congr ?_ shallow_singleton.symm
  have hstart : Decides (ParsedRecord.decode (wrap name).rtype (nameOctets c name ++ []) data)
      (nameDepth c depth name ≤ MAX_DEPTH) _ → _ :=
    RecordData.fromWire_decides (hencode name) (wireOf_ne_nil _)
  rw [hrtype name] at hstart
  apply hstart
  rw [hdecode _ data (by simp [nameOctets_ne_nil])]
  refine (name_reads htable hplaced.left []).bind_ok fun r hr => ?_
  exact ⟨_, rfl, hrtype r.1, hknown r.1, hfolded _ _ (Name.same_iff.mp hr.1), _, hencode r.1,
    wireOf_ne_nil _⟩

/-- The five 32-bit fields an SOA carries after its names. -/
def soaScalars (serial : Serial) (refresh retry expire : Int32) (minimum : UInt32) : Octets :=
  be32 serial.value ++ (be32 refresh.toUInt32 ++ (be32 retry.toUInt32 ++ (be32 expire.toUInt32
    ++ be32 minimum)))

section Soa

variable (mname rname : Name) (serial : Serial) (refresh retry expire : Int32) (minimum : UInt32)

theorem encodeRdata_soa :
    (ParsedRecord.soa mname rname serial refresh retry expire minimum).encodeRdata
      = .ok (mname.wire ++ (rname.wire ++ soaScalars serial refresh retry expire minimum)) := by
  simp only [ParsedRecord.encodeRdata, soaScalars, List.append_assoc]

theorem readSoaScalars :
    (do
      let (serial, rest) ← readU32 (soaScalars serial refresh retry expire minimum)
      let (refresh, rest) ← readI32 rest
      let (retry, rest) ← readI32 rest
      let (expire, rest) ← readI32 rest
      let (minimum, _) ← readU32 rest
      return ParsedRecord.soa mname rname ⟨serial⟩ refresh retry expire minimum)
      = .ok (.soa mname rname serial refresh retry expire minimum) := by
  simp only [soaScalars, bind, Except.bind, readU32_be32, readI32_be32]
  rw [← List.append_nil (be32 minimum), readU32_be32]
  rfl

theorem rdata_readsBack_soa :
    RdataReadsBack ⟨SOA,
      mname.wire ++ (rname.wire ++ soaScalars serial refresh retry expire minimum)⟩ := by
  have hone : ¬ (SOA = NS ∨ SOA = CNAME ∨
    SOA = PTR) := by decide
  intro data c c' depth pos body hplan hplaced htable
  simp only [rdataPlan, if_neg hone, if_true, Name.fromWire_wire, Plan.attempt] at hplan
  obtain ⟨first, c₁, second, hfirst, hsecond, rfl⟩ := Plan.seq_eq_ok.mp hplan
  obtain ⟨third, c₂, fourth, hthird, hfourth, rfl⟩ := Plan.seq_eq_ok.mp hsecond
  cases hfirst
  cases hthird
  cases hfourth
  have hm := name_reads htable hplaced.left
  have hr := name_reads (htable.afterName hplaced.left) hplaced.right.left
  have hsegments : rdataSegments SOA
      (mname.wire ++ (rname.wire ++ soaScalars serial refresh retry expire minimum))
      = [.name mname, .name rname,
        .raw (soaScalars serial refresh retry expire minimum).length] := by
    simp only [rdataSegments, if_neg hone, if_true, Name.fromWire_wire]
  have hdepths : Shallow (depths ⟨c, depth, pos⟩ [.name mname, .name rname,
      .raw (soaScalars serial refresh retry expire minimum).length]).1 ↔
      nameDepth c depth mname ≤ MAX_DEPTH ∧
        nameDepth (Core.afterName c mname pos) (depthAfter depth pos (nameDepth c depth mname))
          rname ≤ MAX_DEPTH := by
    rw [← shallow_singleton, ← shallow_singleton, ← shallow_append]
    rfl
  simp only [hsegments]
  refine Decides.congr (RecordData.fromWire_decides (encodeRdata_soa mname rname serial refresh
    retry expire minimum) (by simp [Name.wire, wireOf_ne_nil]) ?_) hdepths.symm
  show Decides (ParsedRecord.decode SOA _ data) _ _
  rw [ParsedRecord.decode, if_neg (by simp [nameOctets_ne_nil])]
  show Decides (decodeSoa data _) _ _
  refine (hm _).bind fun r hr₁ => ?_
  obtain ⟨mshown, after⟩ := r
  obtain ⟨hmsame, rfl⟩ := hr₁
  refine (hr _).bind_ok fun r hr₂ => ?_
  obtain ⟨rshown, after⟩ := r
  obtain ⟨hrsame, rfl⟩ := hr₂
  refine ⟨.soa mshown rshown serial refresh retry expire minimum, ?_, rfl, rfl, ?_, _,
    encodeRdata_soa .., by simp [Name.wire, wireOf_ne_nil]⟩
  · exact readSoaScalars ..
  · simp only [ParsedRecord.canonical, ParsedRecord.folded, Name.same_iff.mp hmsame,
      Name.same_iff.mp hrsame]

end Soa

theorem rdata_readsBack_mx (preference : UInt16) (exchange : Name) :
    RdataReadsBack ⟨MX, be16 preference ++ exchange.wire⟩ := by
  have hone : ¬ (MX = NS ∨ MX = CNAME ∨
    MX = PTR) := by decide
  have hsoa : ¬ MX = SOA := by decide
  have hdrop : (be16 preference ++ exchange.wire).drop 2 = exchange.wire := rfl
  have htake : (be16 preference ++ exchange.wire).take 2 = be16 preference := rfl
  have hstored : Name.fromWire exchange.wire = .ok (exchange, []) := by
    have h := Name.fromWire_wire exchange []
    rwa [List.append_nil] at h
  intro data c c' depth pos body hplan hplaced htable
  rw [rdataPlan, if_neg hone, if_neg hsoa, if_pos rfl, if_neg (by rw [List.length_append, length_be16]; omega), hdrop, htake] at hplan
  simp only [hstored, Plan.attempt] at hplan
  obtain ⟨first, c₁, second, hfirst, hsecond, rfl⟩ := Plan.seq_eq_ok.mp hplan
  obtain ⟨third, c₂, fourth, hthird, hfourth, rfl⟩ := Plan.seq_eq_ok.mp hsecond
  cases hfirst
  cases hthird
  cases hfourth
  have hdepths : (depths ⟨c, depth, pos⟩ (rdataSegments MX
      (be16 preference ++ exchange.wire))).1 = [nameDepth c depth exchange] := by
    rw [rdataSegments, if_neg hone, if_neg hsoa, if_pos rfl, hdrop]
    simp only [hstored]
    rfl
  simp only [hdepths]
  refine Decides.congr (RecordData.fromWire_decides (p := .mx preference exchange) rfl
    (by simp [be16]) ?_) shallow_singleton.symm
  show Decides (ParsedRecord.decode MX _ data) _ _
  rw [ParsedRecord.decode, if_neg (by simp [be16])]
  show Decides (decodeMx data _) _ _
  rw [decodeMx, readU16_be16]
  refine (name_reads (htable.advance (Nat.le_add_right ..)) hplaced.right.left []).bind_ok
    fun r hr => ?_
  refine ⟨.mx preference r.1, rfl, rfl, rfl, ?_, _, rfl, by simp [be16]⟩
  simp only [ParsedRecord.canonical, ParsedRecord.folded, Name.same_iff.mp hr.1]

/-- **RDATA built from a typed record comes back**, whatever its type. -/
theorem rdata_readsBack {stored : RecordData} (h : RecordData.fromParsed parsed = .ok stored)
    (hne : stored.rdata ≠ []) :
    RdataReadsBack stored := by
  obtain ⟨hrtype, hencode⟩ := RecordData.fromParsed_eq_ok h
  obtain ⟨rtype, rdata⟩ := stored
  simp only at hrtype hencode hne
  subst hrtype
  have dispatch : ∀ {body : Octets}, body ≠ [] → ¬ body.isEmpty = true := fun hbody h =>
    hbody (List.isEmpty_iff.mp h)
  cases parsed with
  | ns name =>
    cases hencode
    refine rdata_readsBack_oneName .ns name (.inl rfl) (fun _ => rfl) (fun _ => rfl)
      (fun _ => rfl) (fun n n' hn => ?_) (fun body data hbody => ?_)
    · simp only [ParsedRecord.canonical, ParsedRecord.folded, hn]
    · rw [ParsedRecord.decode, if_neg (dispatch hbody)]
      rfl
  | cname name =>
    cases hencode
    refine rdata_readsBack_oneName .cname name (.inr (.inl rfl)) (fun _ => rfl) (fun _ => rfl)
      (fun _ => rfl) (fun n n' hn => ?_) (fun body data hbody => ?_)
    · simp only [ParsedRecord.canonical, ParsedRecord.folded, hn]
    · rw [ParsedRecord.decode, if_neg (dispatch hbody)]
      rfl
  | ptr name =>
    cases hencode
    refine rdata_readsBack_oneName .ptr name (.inr (.inr rfl)) (fun _ => rfl) (fun _ => rfl)
      (fun _ => rfl) (fun n n' hn => ?_) (fun body data hbody => ?_)
    · simp only [ParsedRecord.canonical, ParsedRecord.folded, hn]
    · rw [ParsedRecord.decode, if_neg (dispatch hbody)]
      rfl
  | soa mname rname serial refresh retry expire minimum =>
    rw [encodeRdata_soa] at hencode
    cases hencode
    exact rdata_readsBack_soa ..
  | mx preference exchange =>
    cases hencode
    exact rdata_readsBack_mx preference exchange
  | unknown rtype =>
    cases hencode
    exact absurd rfl hne
  | svcb rtype priority target params =>
    refine rdata_readsBack_verbatim hencode hne rfl ?_
    cases rtype <;> simp only [ParsedRecord.rtype, SvcbType.rtype] <;> decide
  | dnskey rtype flags protocol algorithm publicKey =>
    refine rdata_readsBack_verbatim hencode hne rfl ?_
    cases rtype <;> simp only [ParsedRecord.rtype, DnskeyType.rtype] <;> decide
  | ds rtype keyTag algorithm digestType digest =>
    refine rdata_readsBack_verbatim hencode hne rfl ?_
    cases rtype <;> simp only [ParsedRecord.rtype, DsType.rtype] <;> decide
  | _ =>
    refine rdata_readsBack_verbatim hencode hne rfl ?_
    simp only [ParsedRecord.rtype]
    decide

end Rdns.Core
