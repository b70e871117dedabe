import Rdns.Zones.RecordReadBack

/-!
# Rdns — Writing a zone, and reading it back

`zone_to_string` of `rdns/src/zone_writer.rs`. Every line stands on its own: owner names
absolute, TTL and class stated, the apex SOA first.
-/

namespace Rdns.Zones

open Rdns.Lib Rdns.Core Rdns.Present Zone RecordTypes

variable (b64 : Base64)

/-! ## The writer -/

def defaultTtl (z : Zone) : Ttl :=
  match (z.query z.origin (.of SOA)).head?.bind fun r => r.rdata.parse.toOption with
  | some (.soa _ _ _ _ _ _ minimum) => ⟨minimum⟩
  | _ => (z.records.head?.map ZoneRecord.ttl).getD ⟨3600⟩

def recordInto (record : ZoneRecord) : Except ZoneError Text := do
  let line ← recordLine b64 record.name record.ttl record.cls record.rdata
  return line ++ ['\n']

def writtenOrder (z : Zone) : List ZoneRecord :=
  z.records.filter z.isApexSoa ++ z.records.filter fun r => !z.isApexSoa r

def zoneHeader (origin : Name) (ttl : Ttl) : Text :=
  ';' :: ' ' :: toPresentation origin ++
    " — written by rdns. Owner names are absolute and every record".toList ++ '\n' ::
    "; states its own TTL, so no line here depends on any other.".toList ++ '\n' ::
    "$ORIGIN".toList ++ ' ' :: toPresentation origin ++ '\n' ::
    "$TTL".toList ++ ' ' :: decimal ttl.secs.toNat ++ ['\n', '\n']

def zoneToString (z : Zone) : Except ZoneError Text := do
  let written ← (writtenOrder z).mapM (recordInto b64)
  return zoneHeader z.origin (defaultTtl z) ++ written.flatten

/-! ## One record's line -/

def lineHead (record : ZoneRecord) : List Text :=
  [toPresentation record.name, decimal record.ttl.secs.toNat, "IN".toList,
    recordTypeName record.rtype]

variable {blocks : List (Text × List Text)} {record : ZoneRecord} {records : List ZoneRecord}
  {tokens : List Text} {z : Zone}

/-- **A record's line is one logical line**, if the text of its RDATA ends one. -/
theorem recordLine_block (hcls : record.cls = .IN)
    (htail : Tail (rdataToString b64 record.rdata) tokens) :
    ∃ text, recordLine b64 record.name record.ttl record.cls record.rdata = .ok text ∧
      Block text (lineHead record ++ tokens) := by
  obtain ⟨hbare, hne⟩ := bare_recordTypeName record.rtype
  have hclass : Fields "IN".toList ["IN".toList] := .one (.bare (bare_of_plain (by decide)) (by decide))
  have hfront := (((Fields.name record.name).append (Fields.number record.ttl.secs.toNat)
    (24 - (toPresentation record.name).length)).append hclass 0).append
    (.one (.bare hbare hne)) (3 - "IN".toList.length)
  have hblock := htail _ _ (7 - (recordTypeName record.rtype).length) hfront
  refine ⟨_, ?_, hblock⟩
  rw [recordLine, hcls]
  show Except.ok (padRight 24 (toPresentation record.name) ++ ' ' :: (decimal record.ttl.secs.toNat) ++
    ' ' :: padRight 3 "IN".toList ++ ' ' :: padRight 7 (recordTypeName record.rdata.rtype) ++ ' ' ::
      rdataToString b64 record.rdata) = _
  simp only [List.append_assoc, List.cons_append, padRight_append]
  rfl

variable (fs : FileSystem)

theorem eqIgnoreCase_name (name : Name) {word : Text}
    (h : (word.map Char.toLower).getLast? ≠ some '.') :
    eqIgnoreCase (toPresentation name) word = false := by
  rw [eqIgnoreCase, beq_eq_false_iff_ne]
  intro heq
  rw [← heq, List.getLast?_map, getLast?_toPresentation] at h
  exact h rfl

theorem ttlAndClass_line {ttl fallback : Ttl} (httl : record.ttl.secs.toNat < 2147483648) (ln : Nat) :
    ttlAndClass ln ttl fallback
        (decimal record.ttl.secs.toNat :: "IN".toList :: recordTypeName record.rtype :: tokens)
      = .ok (record.ttl, record.ttl, recordTypeName record.rtype :: tokens) := by
  have hparsed := parseI32_decimal httl
  have hback : Ttl.fromWire (Int32.ofInt record.ttl.secs.toNat).toUInt32 = record.ttl := by
    have hword : (Int32.ofInt record.ttl.secs.toNat).toUInt32 = record.ttl.secs := by
      apply UInt32.toNat_inj.mp
      have hlt := record.ttl.secs.toNat_lt
      simp only [Int32.ofInt]
      rw [UInt32.toNat, BitVec.toNat_ofInt]
      omega
    rw [hword]
    exact Ttl.fromWire_secs httl
  obtain ⟨hnumber, hin, hch, hhs⟩ := recordTypeName_isType record.rtype
  have hclass : parseI32 "IN".toList = none := by decide +kernel
  have hself : eqIgnoreCase "IN".toList "IN".toList = true := by decide
  rw [ttlAndClass, hparsed]
  dsimp only
  rw [hback, ttlAndClass, hclass]
  dsimp only
  rw [if_pos hself, ttlAndClass, hnumber]
  dsimp only
  rw [hin, hch, hhs]
  rfl

/-- **A record's line reads back**: the zone takes the record in, and its owner and TTL
become the parser's. -/
theorem readLine_record (hcls : record.cls = .IN) (httl : record.ttl.secs.toNat < 2147483648)
    (hread : ∀ zone origin owner ttl ln,
      readRecord b64 zone origin owner ttl ln (recordTypeName record.rtype) tokens
        = .ok (zone.takeIn ⟨owner, ttl, .IN, record.rdata⟩)) {line : LogicalLine}
    (homits : line.omitsOwner = false) (hfields : Fields line.text (lineHead record ++ tokens))
    (top : Bool) (base : Option fs.Path)
    (into : Option (Option fs.Path → Text → Reading → Except ZoneError Reading)) (reading : Reading) :
    readLine b64 fs top base into reading line
      = .ok ⟨reading.zone.takeIn record, ⟨reading.state.origin, record.ttl, some record.name⟩,
          reading.movedApex⟩ := by
  have htokens : tokenize line.text = toPresentation record.name ::
      decimal record.ttl.secs.toNat :: "IN".toList :: recordTypeName record.rtype :: tokens :=
    hfields.tokenize
  have hrecord : (⟨record.name, record.ttl, .IN, record.rdata⟩ : ZoneRecord) = record := by
    rw [← hcls]
  rw [readLine, htokens]
  dsimp only
  rw [eqIgnoreCase_name record.name (by decide), eqIgnoreCase_name record.name (by decide),
    eqIgnoreCase_name record.name (by decide), if_neg Bool.false_ne_true,
    if_neg Bool.false_ne_true, if_neg Bool.false_ne_true, readRecordLine, homits,
    nameAt_toPresentation]
  show (ttlAndClass line.lineNo _ _ (decimal record.ttl.secs.toNat :: _) >>= fun _ => _) = _
  rw [ttlAndClass_line httl]
  show (readRecord b64 reading.zone reading.state.origin record.name record.ttl line.lineNo
    (recordTypeName record.rtype) tokens >>= fun _ => _) = _
  rw [hread, hrecord]
  rfl

def Spells (record : ZoneRecord) (b : Text × List Text) : Prop :=
  recordInto b64 record = .ok (b.1 ++ ['\n']) ∧ Block b.1 b.2 ∧
    ∃ tokens, b.2 = lineHead record ++ tokens ∧
      ∀ zone origin owner ttl ln,
        readRecord b64 zone origin owner ttl ln (recordTypeName record.rtype) tokens
          = .ok (zone.takeIn ⟨owner, ttl, .IN, record.rdata⟩)

theorem spells_of_readsBack (hcls : record.cls = .IN) (hreads : ReadsBack b64 record.rdata) :
    ∃ b, Spells b64 record b := by
  obtain ⟨tokens, htail, hread⟩ := hreads
  obtain ⟨text, hline, hblock⟩ := recordLine_block b64 hcls htail
  refine ⟨(text, lineHead record ++ tokens), ?_, hblock, tokens, rfl, hread⟩
  rw [recordInto, hline]
  rfl

theorem exists_forall₂ {α β : Type} {R : α → β → Prop} {xs : List α}
    (h : ∀ x ∈ xs, ∃ y, R x y) : ∃ ys, List.Forall₂ R xs ys := by
  induction xs with
  | nil => exact ⟨[], .nil⟩
  | cons x xs ih =>
    obtain ⟨y, hy⟩ := h x List.mem_cons_self
    obtain ⟨ys, hys⟩ := ih fun x hx => h x (List.mem_cons_of_mem _ hx)
    exact ⟨y :: ys, .cons hy hys⟩

theorem mapM_recordInto (h : List.Forall₂ (Spells b64) records blocks) :
    records.mapM (recordInto b64) = .ok (blocks.map fun b => b.1 ++ ['\n']) := by
  induction h with
  | nil => rfl
  | cons hb _ ih =>
    rw [List.mapM_cons, hb.1, ih]
    rfl

theorem block_of_spells (h : List.Forall₂ (Spells b64) records blocks) :
    ∀ b ∈ blocks, Block b.1 b.2 := by
  induction h with
  | nil => exact fun _ hb => absurd hb List.not_mem_nil
  | cons hb _ ih => exact List.forall_mem_cons.mpr ⟨hb.2.1, ih⟩

/-- **The records' lines read back**, one after the other, into the zone. -/
theorem foldlM_readLine {found : List LogicalLine}
    (hspells : List.Forall₂ (Spells b64) records blocks)
    (hfound : List.Forall₂ (fun line b => line.omitsOwner = false ∧ Fields line.text b.2) found
      blocks) (hcls : ∀ r ∈ records, r.cls = .IN)
    (httl : ∀ r ∈ records, r.ttl.secs.toNat < 2147483648) (top : Bool) (base : Option fs.Path)
    (into : Option (Option fs.Path → Text → Reading → Except ZoneError Reading)) :
    ∀ reading : Reading, ∃ state,
      found.foldlM (readLine b64 fs top base into) reading
        = .ok ⟨records.foldl Zone.takeIn reading.zone, state, reading.movedApex⟩ := by
  induction hspells generalizing found with
  | nil =>
    intro reading
    cases hfound
    exact ⟨reading.state, rfl⟩
  | cons hb _ ih =>
    intro reading
    cases hfound with
    | cons hline hrest =>
      obtain ⟨-, -, tokens, htokens, hread⟩ := hb
      rw [htokens] at hline
      have hstep := readLine_record b64 fs (hcls _ List.mem_cons_self) (httl _ List.mem_cons_self)
        hread hline.1 hline.2 top base into reading
      obtain ⟨state, hfold⟩ := ih hrest (fun r hr => hcls r (List.mem_cons_of_mem _ hr))
        (fun r hr => httl r (List.mem_cons_of_mem _ hr)) _
      refine ⟨state, ?_⟩
      rw [List.foldlM_cons, hstep]
      exact hfold

/-! ## The header -/

theorem notMem_newline_name (name : Name) : '\n' ∉ toPresentation name := by
  intro hmem
  exact absurd ((bare_toPresentation name).graphic _ hmem) (by decide)

theorem assembleFrom_header (origin : Name) (ttl : Ttl) (rest : Text) :
    ∃ (originLine ttlLine : LogicalLine) (n : Nat),
      Fields originLine.text ["$ORIGIN".toList, toPresentation origin] ∧
      Fields ttlLine.text ["$TTL".toList, decimal ttl.secs.toNat] ∧
      assembleFrom ⟨[], none, 0⟩ 0 (lines (zoneHeader origin ttl ++ rest))
        = assembleFrom ⟨[originLine, ttlLine], none, 0⟩ n (lines rest) := by
  have hfirst : Blank (';' :: (' ' :: toPresentation origin ++
      " — written by rdns. Owner names are absolute and every record".toList)) := by
    refine blank_comment ?_ ?_
    · intro hmem
      rcases List.mem_append.mp hmem with hmem | hmem
      · rcases List.mem_cons.mp hmem with hmem | hmem
        · exact absurd hmem (by decide)
        · exact notMem_newline_name origin hmem
      · exact absurd hmem (by decide)
    · rw [← List.cons_append, List.getLast?_append_of_ne_nil _ (by decide)]
      decide
  have hsecond : Blank "; states its own TTL, so no line here depends on any other.".toList :=
    blank_comment (by decide) (by decide)
  have horigin : Fields ("$ORIGIN".toList ++ ' ' :: toPresentation origin)
      ["$ORIGIN".toList, toPresentation origin] :=
    (Fields.one (.bare (bare_of_plain (by decide)) (by decide))).space (Fields.name origin)
  have httl : Fields ("$TTL".toList ++ ' ' :: decimal ttl.secs.toNat)
      ["$TTL".toList, decimal ttl.secs.toNat] :=
    (Fields.one (.bare (bare_of_plain (by decide)) (by decide))).space (Fields.number _)
  obtain ⟨m, originLine, -, horiginFields, horiginRun⟩ := horigin.block [] 2
    ("$TTL".toList ++ ' ' :: decimal ttl.secs.toNat ++ '\n' :: ([] ++ '\n' :: rest))
  obtain ⟨n, ttlLine, -, httlFields, httlRun⟩ := httl.block [originLine] m ([] ++ '\n' :: rest)
  refine ⟨originLine, ttlLine, n + 1, horiginFields, httlFields, ?_⟩
  have htext : zoneHeader origin ttl ++ rest
      = (';' :: (' ' :: toPresentation origin ++
          " — written by rdns. Owner names are absolute and every record".toList)) ++ '\n' ::
        ("; states its own TTL, so no line here depends on any other.".toList ++ '\n' ::
          (("$ORIGIN".toList ++ ' ' :: toPresentation origin) ++ '\n' ::
            ("$TTL".toList ++ ' ' :: decimal ttl.secs.toNat ++ '\n' :: ([] ++ '\n' :: rest)))) := by
    simp only [zoneHeader, List.append_assoc, List.cons_append, List.nil_append]
  rw [htext, hfirst, hsecond, horiginRun, List.nil_append, httlRun, blank_nil]
  rfl

/-! ## The whole zone -/

theorem writtenOrder_perm (z : Zone) : (writtenOrder z).Perm z.records :=
  List.filter_append_perm z.isApexSoa z.records

theorem zoneToString_eq (h : List.Forall₂ (Spells b64) (writtenOrder z) blocks) :
    zoneToString b64 z = .ok (zoneHeader z.origin (defaultTtl z) ++
      blocks.flatMap fun b => b.1 ++ ['\n']) := by
  rw [zoneToString, mapM_recordInto b64 h]
  rfl

theorem readLines_written (origin : Name) (ttl : Ttl)
    (hspells : List.Forall₂ (Spells b64) records blocks) (hcls : ∀ r ∈ records, r.cls = .IN)
    (httl : ∀ r ∈ records, r.ttl.secs.toNat < 2147483648) (apex : Name) (base : Option fs.Path)
    (into : Option (Option fs.Path → Text → Reading → Except ZoneError Reading)) :
    ∃ state, readLines b64 fs true base into
        (zoneHeader origin ttl ++ blocks.flatMap fun b => b.1 ++ ['\n'])
        ⟨Zone.new apex, ⟨apex, ⟨3600⟩, none⟩, none⟩
      = .ok ⟨records.foldl Zone.takeIn ((Zone.new apex).setOrigin origin), state, none⟩ := by
  obtain ⟨originLine, ttlLine, n, horigin, httlLine, hheader⟩ := assembleFrom_header origin ttl
    (blocks.flatMap fun b => b.1 ++ ['\n'])
  obtain ⟨found, hrun, hfound⟩ := assembleFrom_blocks blocks (block_of_spells b64 hspells)
    [originLine, ttlLine] n
  have hlines : logicalLines (zoneHeader origin ttl ++ blocks.flatMap fun b => b.1 ++ ['\n'])
      = .ok (originLine :: ttlLine :: found) := by
    rw [logicalLines, hheader, hrun]
    rfl
  have horiginStep : readLine b64 fs true base into ⟨Zone.new apex, ⟨apex, ⟨3600⟩, none⟩, none⟩
      originLine
      = .ok ⟨(Zone.new apex).setOrigin origin, ⟨origin, ⟨3600⟩, none⟩, none⟩ := by
    rw [readLine, horigin.tokenize]
    show readOrigin true _ originLine [toPresentation origin] = _
    rw [readOrigin, nameAt_toPresentation]
    rfl
  have httlStep : readLine b64 fs true base into
      ⟨(Zone.new apex).setOrigin origin, ⟨origin, ⟨3600⟩, none⟩, none⟩ ttlLine
      = .ok ⟨(Zone.new apex).setOrigin origin, ⟨origin, ttl, none⟩, none⟩ := by
    rw [readLine, httlLine.tokenize]
    show readTtl _ ttlLine [decimal ttl.secs.toNat] = _
    rw [readTtl, readField_eq_ok (parseU32_decimal ttl.secs)]
    rfl
  obtain ⟨state, hfold⟩ := foldlM_readLine b64 fs hspells hfound hcls httl true base into
    ⟨(Zone.new apex).setOrigin origin, ⟨origin, ttl, none⟩, none⟩
  refine ⟨state, ?_⟩
  rw [readLines, hlines]
  show (originLine :: ttlLine :: found).foldlM (readLine b64 fs true base into) _ = _
  rw [List.foldlM_cons, horiginStep]
  show (ttlLine :: found).foldlM (readLine b64 fs true base into) _ = _
  rw [List.foldlM_cons, httlStep]
  exact hfold

/-- **A zone reads back if each of its records' texts does**, and it keeps the loader's
rules. The text is read the same wherever it lies, as it includes no other. -/
theorem parse_written_anywhere (hcls : ∀ r ∈ z.records, r.cls = .IN)
    (httl : ∀ r ∈ z.records, r.ttl.secs.toNat < 2147483648)
    (hreads : ∀ r ∈ z.records, ReadsBack b64 r.rdata) (hcname : CnameAlone z.records)
    (hdname : DnameRules z.origin z.records) {apexText : Text} {apex : Name}
    (hapex : fromPresentation apexText = .ok apex) :
    ∃ text back, zoneToString b64 z = .ok text ∧
      (∀ (fs : FileSystem) (base : Option fs.Path), parseZoneFile b64 fs base text apexText = .ok back) ∧
      back.origin = z.origin ∧ back.records = writtenOrder z := by
  have hmem : ∀ r ∈ writtenOrder z, r ∈ z.records := fun r hr => (writtenOrder_perm z).mem_iff.mp hr
  have hall : ∀ r ∈ writtenOrder z, ∃ b, Spells b64 r b := fun r hr =>
    spells_of_readsBack b64 (hcls r (hmem r hr)) (hreads r (hmem r hr))
  obtain ⟨blocks, hspells⟩ := exists_forall₂ hall
  obtain ⟨hrecords, horigin⟩ := foldl_takeIn (writtenOrder z) ((Zone.new apex).setOrigin z.origin)
  have hok : ZoneOk ((writtenOrder z).foldl Zone.takeIn ((Zone.new apex).setOrigin z.origin)) :=
    (zoneOk_reindex _).foldl_takeIn _
  refine ⟨_, (writtenOrder z).foldl Zone.takeIn ((Zone.new apex).setOrigin z.origin),
    zoneToString_eq b64 hspells, fun fs base => ?_, horigin, hrecords⟩
  obtain ⟨state, hparse⟩ := readLines_written b64 fs z.origin (defaultTtl z) hspells
    (fun r hr => hcls r (hmem r hr)) (fun r hr => httl r (hmem r hr)) apex base
    (some (parseInto b64 fs (MAX_INCLUDE_DEPTH - 2) false))
  generalize (writtenOrder z).foldl Zone.takeIn ((Zone.new apex).setOrigin z.origin) = back
    at hparse hrecords horigin hok
  replace hrecords : back.records = writtenOrder z := hrecords
  replace horigin : back.origin = z.origin := horigin
  have hcheck : checkCnameExclusivity back = .ok () := by
    rw [checkCnameExclusivity_iff hok, hrecords]
    exact hcname.perm (writtenOrder_perm z).symm
  have hrules : checkDnameRules back = .ok () := by
    rw [checkDnameRules_iff hok, hrecords, horigin]
    exact hdname.perm (writtenOrder_perm z).symm
  rw [parseZoneFile, hapex]
  show (readLines b64 fs true base (some (parseInto b64 fs (MAX_INCLUDE_DEPTH - 2) false)) _ _ >>=
    fun _ => _) = _
  rw [hparse]
  show (checkCnameExclusivity _ >>= fun _ => checkDnameRules _ >>= fun _ => _) = _
  rw [hcheck]
  show (checkDnameRules _ >>= fun _ => _) = _
  rw [hrules]
  rfl

theorem parse_written (hcls : ∀ r ∈ z.records, r.cls = .IN)
    (httl : ∀ r ∈ z.records, r.ttl.secs.toNat < 2147483648)
    (hreads : ∀ r ∈ z.records, ReadsBack b64 r.rdata) (hcname : CnameAlone z.records)
    (hdname : DnameRules z.origin z.records) {apexText : Text} {apex : Name}
    (hapex : fromPresentation apexText = .ok apex) (base : Option fs.Path) :
    ∃ text back, zoneToString b64 z = .ok text ∧
      parseZoneFile b64 fs base text apexText = .ok back ∧
      back.origin = z.origin ∧ back.records = writtenOrder z := by
  obtain ⟨text, back, htext, hparse, hback⟩ := parse_written_anywhere b64 hcls httl hreads hcname hdname hapex
  exact ⟨text, back, htext, hparse fs base, hback⟩

/-- **A written zone of plain types reads back as itself**: every zone reachable by its
operations, whose records are class IN with a TTL below 2^31 and hold RDATA one of the
constructors built, and which the loader's two checks accept. -/
theorem written_zone_reads_back {origin : Name} {ops : List ZoneOp} {z : Zone}
    (hrun : (Zone.new origin).run ops = some z)
    (hcls : ∀ r ∈ z.records, r.cls = .IN)
    (httl : ∀ r ∈ z.records, r.ttl.secs.toNat < 2147483648)
    (hbuilt : ∀ r ∈ z.records, Built r.rdata) (hplain : ∀ r ∈ z.records, PlainType r.rtype)
    (hcname : checkCnameExclusivity z = .ok ()) (hdname : checkDnameRules z = .ok ())
    {apexText : Text} {apex : Name} (hapex : fromPresentation apexText = .ok apex)
    (base : Option fs.Path) :
    ∃ text back, zoneToString b64 z = .ok text ∧
      parseZoneFile b64 fs base text apexText = .ok back ∧
      back.origin = z.origin ∧ back.records.Perm z.records := by
  have hok : ZoneOk z := (zoneOk_new origin).run hrun
  have hfits : Fits z := Fits.run (fun _ hr => absurd hr List.not_mem_nil) (zoneOk_new origin) hrun
  obtain ⟨text, back, htext, hparse, horigin, hrecords⟩ := parse_written b64 fs hcls httl
    (fun r hr => readsBack_of_plain b64 (hbuilt r hr) (hplain r hr) (hfits r hr))
    ((checkCnameExclusivity_iff hok).mp hcname) ((checkDnameRules_iff hok).mp hdname) hapex base
  refine ⟨text, back, htext, hparse, horigin, ?_⟩
  rw [hrecords]
  exact writtenOrder_perm z

/-- A label of the octets that mean something to the parser, and of some that print as
nothing. -/
def oddEx : Name := ⟨[[0, 46, 92, 34, 64], [101, 120]], by decide, by decide⟩

def soaEx : RecordData := ⟨SOA, ex.wire ++ oddEx.wire ++ [0, 0, 0, 1, 255, 255, 255,
  254, 0, 0, 0, 3, 0, 0, 0, 4, 0, 0, 1, 44]⟩

def oddZone : Zone :=
  (((Zone.new ex).add ⟨ex, ⟨300⟩, .IN, soaEx⟩).add
    ⟨oddEx, ⟨0⟩, .IN, ⟨TXT, [4, 34, 92, 0, 255, 0]⟩⟩).add
    ⟨oddEx, ⟨2147483647⟩, .IN, ⟨⟨65280⟩, [1, 2, 3]⟩⟩

def noBase64 : Base64 := ⟨fun _ => [], fun text => if text = [] then some [] else none⟩
def noFiles : FileSystem := ⟨Unit, fun _ _ => (), fun _ => none, fun _ => none⟩

theorem oddZone_reads_back :
    ∃ text back, zoneToString noBase64 oddZone = .ok text ∧
      parseZoneFile noBase64 noFiles none text "ex.".toList = .ok back ∧
      back.origin = ex ∧ back.records.Perm oddZone.records := by
  have hrun : (Zone.new ex).run [.add ⟨ex, ⟨300⟩, .IN, soaEx⟩,
      .add ⟨oddEx, ⟨0⟩, .IN, ⟨TXT, [4, 34, 92, 0, 255, 0]⟩⟩,
      .add ⟨oddEx, ⟨2147483647⟩, .IN, ⟨⟨65280⟩, [1, 2, 3]⟩⟩] = some oddZone := rfl
  have hok : ZoneOk oddZone := (zoneOk_new ex).run hrun
  have hbuilt : ∀ r ∈ oddZone.records, Built r.rdata := by
    have hall : ∀ r ∈ oddZone.records,
        RecordData.fromWire r.rtype r.rdata.rdata r.rdata.rdata = .ok r.rdata := by
      decide +kernel
    exact fun r hr => .inl ⟨_, _, _, hall r hr⟩
  have hplain : ∀ r ∈ oddZone.records, r.rtype ∈ plainTypes ∨ r.rtype ∉ decodedTypes := by
    decide +kernel
  have hcname : CnameAlone oddZone.records := by
    unfold CnameAlone
    decide +kernel
  have hdname : DnameRules oddZone.origin oddZone.records := dnameRules_of_none (by decide +kernel)
  have hapex : fromPresentation "ex.".toList = .ok ex := fromPresentation_toPresentation ex
  exact written_zone_reads_back noBase64 noFiles hrun (by decide +kernel) (by decide +kernel) hbuilt
    hplain ((checkCnameExclusivity_iff hok).mpr hcname) ((checkDnameRules_iff hok).mpr hdname) hapex
    none

end Rdns.Zones
