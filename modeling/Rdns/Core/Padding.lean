import Rdns.Core.EdnsOptions
import Rdns.Core.SameReading

/-!
# Rdns — Padding a finished reply

`pad_reply` of `rdns-core/src/response.rs` (RFC 7830): a padding option at the end of a
finished message whose last record is its OPT. The OPT is found by a walk of its own
(`lastRecordIsOpt`, `skipName`), which knows nothing of names but their lengths; it
patches RDLENGTH and appends.
-/

namespace Rdns.Core

open Rdns.Lib RecordTypes

def EDNS_OPTION_PADDING : UInt16 := 12

/-- RFC 8467 §4.1(2): a server "SHOULD pad the corresponding response to a multiple of
468 octets". -/
def PADDING_BLOCK : Nat := 468

/-! ## The walk -/

def fieldAt (msg : Octets) (start : Nat) : UInt16 :=
  ofBe16 (msg.getD start 0) (msg.getD (start + 1) 0)

def skipName (msg : Octets) (pos : Nat) : Option Nat :=
  if h : pos < msg.length then
    let len := msg.get ⟨pos, h⟩
    if len = 0 then some (pos + 1)
    else if len &&& 0xc0 = 0xc0 then
      if pos + 2 ≤ msg.length then some (pos + 2) else none
    else if len &&& 0xc0 = 0 then skipName msg (pos + (1 + len.toNat))
    else none
  else none
termination_by msg.length - pos

def skipQuestions (msg : Octets) : Nat → Nat → Option Nat
  | 0, pos => some pos
  | n + 1, pos => do
    let pos ← skipName msg pos
    skipQuestions msg n (pos + 4)

/-- The last record stepped over: where it begins, its TYPE, where its RDLENGTH is. -/
structure RecordAt where
  start : Nat
  rtype : UInt16
  rdlen : Nat
deriving DecidableEq

def skipRecords (msg : Octets) : Nat → Nat → Option RecordAt → Option (Nat × Option RecordAt)
  | 0, start, last => some (start, last)
  | n + 1, start, _ => do
    let pos ← skipName msg start
    if pos + 10 ≤ msg.length then
      let rdlen := (fieldAt msg (pos + 8)).toNat
      skipRecords msg n (pos + (10 + rdlen)) (some ⟨start, fieldAt msg pos, pos + 8⟩)
    else none

/-- Where the RDLENGTH of the OPT is, if it is the message's last record, sits in the
additional section and ends exactly where the message does. -/
def lastRecordIsOpt (msg : Octets) : Option Nat :=
  if msg.length < HEADER_LEN then none
  else
    let qd := (fieldAt msg 4).toNat
    let an := (fieldAt msg 6).toNat
    let ns := (fieldAt msg 8).toNat
    let ar := (fieldAt msg 10).toNat
    if ar = 0 then none
    else do
      let pos ← skipQuestions msg qd HEADER_LEN
      let (pos, last) ← skipRecords msg (an + ns + ar) pos none
      let last ← last
      if pos = msg.length ∧ last.rtype = OPT.code ∧ msg[last.start]? = some 0 then
        some last.rdlen
      else none

/-! ## Padding -/

def resize (bytes : Octets) (len : Nat) : Octets :=
  bytes.take len ++ List.replicate (len - bytes.length) 0

/-- What a reply of `len` octets may come to: the client's payload, or the frame for one
already past it. -/
def paddingLimit (len payload frame : Nat) : Nat :=
  if len ≤ payload then payload else frame

def paddingTarget (len payload frame : Nat) : Nat :=
  min ((len + 4 + (PADDING_BLOCK - 1)) / PADDING_BLOCK * PADDING_BLOCK) (paddingLimit len payload frame)

def padReply (reply : Octets) (payload frame : Nat) : Bool × Octets :=
  match lastRecordIsOpt reply with
  | none => (false, reply)
  | some rdlenAt =>
    let len := reply.length
    let target := paddingTarget len payload frame
    if target < len + 4 then (false, reply)
    else
      let pad := target - len - 4
      let rdlen := (fieldAt reply rdlenAt).toNat + 4 + pad
      if rdlen > 65535 then (false, reply)
      else if pad > 65535 then (false, reply)
      else
        let patched := splice reply rdlenAt (be16 (UInt16.ofNat rdlen))
        (true, resize (patched ++ be16 EDNS_OPTION_PADDING ++ be16 (UInt16.ofNat pad)) target)

/-! ## Stepping over what was written -/

section Walk

variable {msg : Octets} {pos : Nat} {bytes : Octets} {c : NameCompressor}

theorem placedAt_head {b : UInt8} (h : PlacedAt msg pos (b :: bytes)) :
    ∃ hlt : pos < msg.length, msg.get ⟨pos, hlt⟩ = b := by
  have hlt : pos < msg.length := Nat.lt_of_le_of_lt (Nat.le_add_right ..) h.lt_length
  refine ⟨hlt, ?_⟩
  obtain ⟨tail, htail⟩ := h
  rw [List.drop_eq_getElem_cons hlt] at htail
  exact (List.cons.inj htail).1

theorem fieldAt_placed {value : UInt16} (h : PlacedAt msg pos (be16 value)) :
    fieldAt msg pos = value := by
  obtain ⟨tail, htail⟩ := h
  have hfirst : msg.getD pos 0 = (be16 value).getD 0 0 := by
    rw [List.getD_eq_getElem?_getD, ← Nat.add_zero pos, ← List.getElem?_drop, htail]
    rfl
  have hsecond : msg.getD (pos + 1) 0 = (be16 value).getD 1 0 := by
    rw [List.getD_eq_getElem?_getD, ← List.getElem?_drop, htail]
    rfl
  rw [fieldAt, hfirst, hsecond]
  exact ofBe16_be16 value

theorem skipName_root {tail : Octets} (h : PlacedAt msg pos (0 :: tail)) :
    skipName msg pos = some (pos + 1) := by
  obtain ⟨hlt, hhead⟩ := placedAt_head h
  unfold skipName
  rw [dif_pos hlt, hhead]
  rfl

theorem pointerOctet_tagged : ∀ n : Fin 256, 192 ≤ n.val →
    UInt8.ofNat n.val ≠ 0 ∧ UInt8.ofNat n.val &&& 0xc0 = 0xc0 := by
  decide +kernel

theorem pointer_head (target : UInt16) :
    ∃ first second, pointerOctets target = [first, second] ∧ first ≠ 0 ∧
      first &&& 0xc0 = 0xc0 := by
  have hlow : 49152 ≤ (POINTER_TAG ||| target).toNat := by
    rw [UInt16.toNat_or]
    exact Nat.left_le_or
  have hhigh := (POINTER_TAG ||| target).toNat_lt
  have htagged := pointerOctet_tagged ⟨(POINTER_TAG ||| target).toNat / 256, by omega⟩
    (show 192 ≤ (POINTER_TAG ||| target).toNat / 256 by omega)
  exact ⟨_, _, rfl, htagged.1, htagged.2⟩

theorem skipName_pointer {target : UInt16} (h : PlacedAt msg pos (pointerOctets target)) :
    skipName msg pos = some (pos + 2) := by
  obtain ⟨first, second, hoctets, hne, htag⟩ := pointer_head target
  rw [hoctets] at h
  obtain ⟨hlt, hhead⟩ := placedAt_head h
  have hroom := h.lt_length
  unfold skipName
  rw [dif_pos hlt, hhead]
  simp only [if_neg hne, if_pos htag]
  rw [if_pos (by simp only [List.length_singleton] at hroom; omega)]

theorem lengthOctet_plain : ∀ n : Fin 64, 0 < n.val →
    UInt8.ofNat n.val ≠ 0 ∧ ¬ UInt8.ofNat n.val &&& 0xc0 = 0xc0 ∧
      UInt8.ofNat n.val &&& 0xc0 = 0 := by
  decide

theorem skipName_label {label : Octets} (hvalid : ValidLabel label)
    (h : PlacedAt msg pos (labelOctets label)) :
    skipName msg pos = skipName msg (pos + (1 + label.length)) := by
  have hnat := toNat_lengthOctet hvalid
  obtain ⟨hpos, hle⟩ := hvalid
  obtain ⟨hne, htag, hplain⟩ := lengthOctet_plain ⟨label.length, by unfold MAX_LABEL_LEN at hle; omega⟩ hpos
  obtain ⟨hlt, hhead⟩ := placedAt_head h
  rw [skipName, dif_pos hlt, hhead]
  simp only [if_neg hne, if_neg htag, if_pos hplain, hnat]

theorem skipName_labels {labels : List Octets} (hvalid : ∀ l ∈ labels, ValidLabel l)
    (h : PlacedAt msg pos (labelsOctets labels)) :
    skipName msg pos = skipName msg (pos + (labelsOctets labels).length) := by
  induction labels generalizing pos with
  | nil => rfl
  | cons label rest ih =>
    rw [labelsOctets] at h
    have hlen : (labelOctets label).length = 1 + label.length := by
      rw [length_labelOctets]
      omega
    have hrest := ih (fun l hl => hvalid l (List.mem_cons_of_mem _ hl)) h.right
    rw [skipName_label (hvalid label (List.mem_cons_self ..)) h.left, ← hlen, hrest, labelsOctets,
      List.length_append, Nat.add_assoc]

/-- **A name as it was written is stepped over whole.** -/
theorem skipName_written {name : Name} (h : PlacedAt msg pos (nameOctets c name)) :
    skipName msg pos = some (pos + (nameOctets c name).length) := by
  rcases nameOctets_cases c name with ⟨-, hbytes⟩ | ⟨own, rest, target, hlabels, -, -, -, hbytes⟩
  · rw [hbytes, Name.wire, wireOf] at h ⊢
    rw [skipName_labels name.labels_ok h.left, skipName_root h.right, List.length_append]
    rfl
  · have hown : ∀ l ∈ own, ValidLabel l := fun l hl =>
      name.labels_ok l (by rw [hlabels]; exact List.mem_append_left _ hl)
    rw [hbytes] at h ⊢
    rw [skipName_labels hown h.left, skipName_pointer h.right, List.length_append]
    rfl

/-- **The questions as written are stepped over.** -/
theorem skipQuestions_written {queries : List QuerySection} {c' : NameCompressor}
    (hplan : Plan.all (queries.map queryPlan) c pos = (bytes, .ok c')) (h : PlacedAt msg pos bytes) :
    skipQuestions msg queries.length pos = some (pos + bytes.length) := by
  induction queries generalizing c pos bytes with
  | nil =>
    cases hplan
    rfl
  | cons q rest ih =>
    obtain ⟨first, c₁, second, hfirst, hsecond, rfl⟩ := Plan.seq_eq_ok.mp hplan
    obtain ⟨name, c₂, fields, hname, hfields, rfl⟩ := Plan.seq_eq_ok.mp hfirst
    cases hname
    cases hfields
    rw [List.length_cons, skipQuestions, skipName_written h.left.left]
    have hlen : pos + (nameOctets c q.qname).length + 4
        = pos + (nameOctets c q.qname ++ (be16 q.qtype.code ++ be16 q.qclass.toU16)).length := by
      simp only [List.length_append, length_be16]
      omega
    show skipQuestions msg rest.length (pos + (nameOctets c q.qname).length + 4) = _
    rw [hlen, ih hsecond h.right]
    simp only [List.length_append]
    congr 1
    omega

theorem skipRecords_step {name : Octets} {rtype cls : UInt16} {ttl : UInt32} {body : Octets}
    (hname : skipName msg pos = some (pos + name.length)) (hlen : body.length ≤ 65535)
    (h : PlacedAt msg pos (name ++ (be16 rtype ++ be16 cls ++ be32 ttl)
      ++ (be16 (UInt16.ofNat body.length) ++ body))) (n : Nat) (last : Option RecordAt) :
    skipRecords msg (n + 1) pos last
      = skipRecords msg n (pos + (name ++ (be16 rtype ++ be16 cls ++ be32 ttl)
          ++ (be16 (UInt16.ofNat body.length) ++ body)).length)
        (some ⟨pos, rtype, pos + name.length + 8⟩) := by
  have hfields := h.left.right
  have hrdlen := h.right.left
  have hend : pos + name.length + 10 ≤ msg.length := by
    obtain ⟨tail, htail⟩ := h.right
    have hlength := congrArg List.length htail
    simp only [List.length_drop, List.length_append, length_be16, length_be32] at hlength
    omega
  have hat : pos + (name ++ (be16 rtype ++ be16 cls ++ be32 ttl)).length = pos + name.length + 8 := by
    simp only [List.length_append, length_be16, length_be32]
    omega
  rw [hat] at hrdlen
  have htype : fieldAt msg (pos + name.length) = rtype := by
    rw [List.append_assoc] at hfields
    exact fieldAt_placed hfields.left
  rw [skipRecords, hname]
  simp only [bind, Option.bind]
  rw [if_pos hend, htype, fieldAt_placed hrdlen, toNat_ofNat_u16 hlen]
  congr 1
  simp only [List.length_append, length_be16, length_be32]
  omega

/-- **The records as written are stepped over**, and leave the rest of the walk where they
end. -/
theorem skipRecords_written {records : List ResourceRecord} {c' : NameCompressor}
    (hplan : Plan.all (records.map rrPlan) c pos = (bytes, .ok c')) (h : PlacedAt msg pos bytes)
    (n : Nat) (last : Option RecordAt) :
    ∃ last', skipRecords msg (records.length + n) pos last
      = skipRecords msg n (pos + bytes.length) last' := by
  induction records generalizing c pos bytes last with
  | nil =>
    cases hplan
    exact ⟨last, by rw [List.length_nil, Nat.zero_add, List.length_nil, Nat.add_zero]⟩
  | cons rr rest ih =>
    obtain ⟨first, c₁, second, hfirst, hsecond, rfl⟩ := Plan.seq_eq_ok.mp hplan
    obtain ⟨body, rfl, hlen, -⟩ := rrPlan_eq_ok hfirst
    have hname := skipName_written (placedAt_rr h.left).1
    have hfirstAt := h.left
    have hsecondAt := h.right
    unfold rrHead at hfirstAt hsecondAt hsecond ⊢
    have hstep := skipRecords_step hname hlen hfirstAt (rest.length + n) last
    obtain ⟨last', hrest⟩ := ih hsecond hsecondAt
      (some ⟨pos, rr.rdata.rtype.code, pos + (nameOctets c rr.name).length + 8⟩)
    refine ⟨last', ?_⟩
    rw [List.length_cons, Nat.succ_add, Nat.succ_eq_add_one, hstep, hrest]
    simp only [List.length_append, Nat.add_assoc]

end Walk

/-! ## The OPT of a written message -/

theorem headerOctets_fields (header : Header) (rcode : UInt16) (counts : Counts) (rest : Octets) :
    fieldAt (headerOctets header rcode counts ++ rest) 4 = counts.qd ∧
      fieldAt (headerOctets header rcode counts ++ rest) 6 = counts.an ∧
      fieldAt (headerOctets header rcode counts ++ rest) 8 = counts.ns ∧
      fieldAt (headerOctets header rcode counts ++ rest) 10 = counts.ar :=
  ⟨fieldAt_placed ⟨_, rfl⟩, fieldAt_placed ⟨_, rfl⟩, fieldAt_placed ⟨_, rfl⟩, fieldAt_placed ⟨_, rfl⟩⟩

theorem optRecord_eq (edns : Edns) (rcode : UInt16) :
    optRecord edns rcode = [0] ++ (be16 OPT.code ++ be16 edns.udpPayloadSize
      ++ be32 (optFlags edns rcode)) ++ (be16 (UInt16.ofNat edns.rdata.length) ++ edns.rdata) := by
  simp only [optRecord, optHead, List.append_assoc]

theorem length_optRecord (edns : Edns) (rcode : UInt16) :
    (optRecord edns rcode).length = 11 + edns.rdata.length := by
  simp only [optRecord, optHead, List.length_append, length_be16, length_be32, List.length_singleton]
  omega

section Written

variable {m : DnsMessage} {counts : Counts} {sections : Octets} {c : NameCompressor} {edns : Edns}

/-- **The walk finds the OPT of a written message**, eight octets past its root name. -/
theorem lastRecordIsOpt_written (hcounts : m.counts = .ok counts) (hsome : m.edns.isSome = true)
    (hsections : ((Plan.all (m.queries.map queryPlan)).seq (Plan.all (m.records.map rrPlan)))
      NameCompressor.new HEADER_LEN = (sections, .ok c))
    (hlen : edns.rdata.length ≤ 65535) (rcode : UInt16) :
    lastRecordIsOpt (headerOctets m.header rcode counts ++ (sections ++ optRecord edns rcode))
      = some (HEADER_LEN + sections.length + 9) := by
  obtain ⟨hqd, han, hns, har⟩ := DnsMessage.counts_eq_ok hcounts
  obtain ⟨fqd, fan, fns, far⟩ := headerOctets_fields m.header rcode counts
    (sections ++ optRecord edns rcode)
  have hheader := length_headerOctets m.header rcode counts
  have hplaced := placedAt_middle (headerOctets m.header rcode counts)
    (sections ++ optRecord edns rcode) []
  rw [List.append_nil, hheader] at hplaced
  have hend : (headerOctets m.header rcode counts ++ (sections ++ optRecord edns rcode)).length
      = HEADER_LEN + sections.length + (optRecord edns rcode).length := by
    simp only [List.length_append, hheader]
    omega
  generalize headerOctets m.header rcode counts ++ (sections ++ optRecord edns rcode) = msg
    at hplaced hend fqd fan fns far ⊢
  obtain ⟨qs, c₁, records, hqs, hrecords, rfl⟩ := Plan.seq_eq_ok.mp hsections
  have hquestions := skipQuestions_written hqs hplaced.left.left
  have hcount : counts.an.toNat + counts.ns.toNat + counts.ar.toNat = m.records.length + 1 := by
    rw [han, hns, har, hsome, DnsMessage.records, List.length_append, List.length_append]
    simp only [Bool.toNat_true]
    omega
  obtain ⟨last, hskip⟩ := skipRecords_written hrecords hplaced.left.right 1 none
  -- the OPT is one record more
  have hopt := hplaced.right
  rw [optRecord_eq] at hopt
  have hroot : skipName msg (HEADER_LEN + (qs ++ records).length)
      = some (HEADER_LEN + (qs ++ records).length + ([0] : Octets).length) :=
    skipName_root hopt.left.left
  have hstep := skipRecords_step hroot hlen hopt 0 last
  obtain ⟨hlt, hhead⟩ := placedAt_head hopt.left.left
  have hzero : msg[HEADER_LEN + (qs ++ records).length]? = some 0 := by grind
  have hstart : HEADER_LEN + qs.length + records.length = HEADER_LEN + (qs ++ records).length := by
    rw [List.length_append, Nat.add_assoc]
  have hlong : ¬ msg.length < HEADER_LEN := by omega
  have hne : ¬ counts.ar.toNat = 0 := by
    rw [har, hsome]
    exact Nat.succ_ne_zero _
  unfold lastRecordIsOpt
  rw [if_neg hlong, fqd, fan, fns, far]
  simp only
  rw [if_neg hne, hqd, hquestions, hcount]
  simp only [bind, Option.bind]
  rw [hskip, hstart, hstep, ← optRecord_eq, ← hend]
  simp only [skipRecords]
  rw [if_pos ⟨trivial, trivial, hzero⟩]
  rfl

def padding (pad : Nat) : EdnsOption := ⟨EDNS_OPTION_PADDING, List.replicate pad 0⟩

def Edns.padded (edns : Edns) (pad : Nat) : Edns :=
  { edns with
    rdata := edns.rdata ++
      (be16 EDNS_OPTION_PADDING ++ be16 (UInt16.ofNat pad) ++ List.replicate pad 0) }

/-- **What `pad_reply` makes of a written message**: the message with the longer OPT, if
there is room for it. -/
theorem padReply_written (hcounts : m.counts = .ok counts) (hsome : m.edns.isSome = true)
    (hsections : ((Plan.all (m.queries.map queryPlan)).seq (Plan.all (m.records.map rrPlan)))
      NameCompressor.new HEADER_LEN = (sections, .ok c))
    (hlen : edns.rdata.length ≤ 65535) (rcode : UInt16) {reply : Octets}
    (hreply : reply = headerOctets m.header rcode counts ++ (sections ++ optRecord edns rcode))
    (payload frame : Nat) :
    padReply reply payload frame
      = if paddingTarget reply.length payload frame < reply.length + 4 then (false, reply)
        else if edns.rdata.length + 4 + (paddingTarget reply.length payload frame - reply.length - 4)
          > 65535 then (false, reply)
        else (true, headerOctets m.header rcode counts ++ (sections ++
          optRecord (edns.padded (paddingTarget reply.length payload frame - reply.length - 4)) rcode)) := by
  have hwalk := lastRecordIsOpt_written hcounts hsome hsections hlen rcode
  rw [← hreply] at hwalk
  -- the reply around its RDLENGTH
  have hheader := length_headerOctets m.header rcode counts
  have hfront : (headerOctets m.header rcode counts ++ (sections ++ optHead edns rcode)).length
      = HEADER_LEN + sections.length + 9 := by
    simp only [optHead, List.length_append, length_be16, length_be32, List.length_singleton, hheader]
    omega
  have hsplit : reply = headerOctets m.header rcode counts ++ (sections ++ optHead edns rcode)
      ++ (be16 (UInt16.ofNat edns.rdata.length) ++ edns.rdata) := by
    rw [hreply, optRecord]
    simp only [List.append_assoc]
  have hfield : (fieldAt reply (HEADER_LEN + sections.length + 9)).toNat = edns.rdata.length := by
    rw [← hfront, hsplit, fieldAt_placed (placedAt_middle _ _ _), toNat_ofNat_u16 hlen]
  have hpatch : ∀ value, splice reply (HEADER_LEN + sections.length + 9) (be16 value)
      = headerOctets m.header rcode counts ++ (sections ++ optHead edns rcode)
        ++ (be16 value ++ edns.rdata) := by
    intro value
    rw [splice, hsplit, ← hfront, List.take_left, ← List.drop_drop, List.drop_left]
    rfl
  unfold padReply
  rw [hwalk]
  simp only [hfield, hpatch]
  split
  · rfl
  rename_i hroom
  split
  · rfl
  rename_i hfits
  rw [if_neg (by omega)]
  have htarget : paddingTarget reply.length payload frame
      = reply.length + 4 + (paddingTarget reply.length payload frame - reply.length - 4) := by
    omega
  generalize paddingTarget reply.length payload frame - reply.length - 4 = pad at hfits htarget ⊢
  rw [htarget]
  have hlong : (headerOctets m.header rcode counts ++ (sections ++ optHead edns rcode)
      ++ (be16 (UInt16.ofNat (edns.rdata.length + 4 + pad)) ++ edns.rdata)
      ++ be16 EDNS_OPTION_PADDING ++ be16 (UInt16.ofNat pad)).length = reply.length + 4 := by
    rw [hsplit]
    simp only [List.length_append, length_be16]
  have hrdata : (edns.padded pad).rdata.length = edns.rdata.length + 4 + pad := by
    simp only [Edns.padded, List.length_append, length_be16, List.length_replicate]
    omega
  rw [resize, List.take_of_length_le (by omega), hlong, Nat.add_sub_cancel_left, optRecord, hrdata]
  simp only [Edns.padded, optHead, optFlags, List.append_assoc]

end Written

/-! ## Padding preserves the message -/

theorem padded_options {edns : Edns} {options : List EdnsOption} (h : edns.options = .ok options)
    {pad : Nat} (hpad : pad ≤ 65535) : (edns.padded pad).options = .ok (options ++ [padding pad]) := by
  have hone := walkOptions_cons EDNS_OPTION_PADDING
    (show (List.replicate pad (0 : UInt8)).length ≤ 65535 by rwa [List.length_replicate]) []
  rw [List.append_nil, List.length_replicate] at hone
  have hnil : walkOptions [] = .ok [] := by rw [walkOptions.eq_def]
  rw [Edns.options, Edns.padded, walkOptions_append h, hone, hnil]
  rfl

/-- `padded` is `reply` with one more option: both are refused, or both read as the same
message but for the OPT's option list, which has a padding option of zeros at its end;
and its length keeps to the limit, and is a multiple of the block unless it is the limit. -/
structure PaddedFrom (reply padded : Octets) (payload frame : Nat) : Prop where
  reads : Alike (fun a b => ∃ edns edns' options pad, a.edns = some edns ∧ b = a.withEdns edns' ∧
      edns'.udpPayloadSize = edns.udpPayloadSize ∧ edns'.version = edns.version ∧
      edns'.doBit = edns.doBit ∧ edns.options = .ok options ∧
      edns'.options = .ok (options ++ [padding pad]))
    (DnsMessage.tryFromBytes reply) (DnsMessage.tryFromBytes padded)
  fits : padded.length ≤ if reply.length ≤ payload then payload else frame
  block : PADDING_BLOCK ∣ padded.length ∨
    padded.length = if reply.length ≤ payload then payload else frame

/-- **Padding preserves the message.** -/
theorem padReply_preserves {m : DnsMessage} (hstored : ∀ rr ∈ m.records, rr.rdata.StandsAlone)
    {output out : Octets} {n : Nat} (hwritten : m.toBytes output = (.ok n, out)) {edns : Edns}
    (hedns : m.edns = some edns) {options : List EdnsOption} (hoptions : edns.options = .ok options)
    (payload frame : Nat) :
    padReply (out.take n) payload frame = (false, out.take n) ∨
      ∃ padded, padReply (out.take n) payload frame = (true, padded) ∧
        PaddedFrom (out.take n) padded payload frame := by
  obtain ⟨c, bytes, hplan, rfl, -, rfl⟩ := DnsMessage.toBytes_ok_iff.mp hwritten
  have htake : (splice output 0 bytes).take bytes.length = bytes := by
    rw [splice, List.take_zero, List.nil_append, List.take_left]
  rw [htake]
  obtain ⟨rcode, counts, sections, c', hcounts, hsections, hlen, hbytes⟩ := messagePlan_opt hplan hedns
  have hsome : m.edns.isSome = true := by rw [hedns]; rfl
  rw [padReply_written hcounts hsome hsections hlen rcode hbytes]
  split
  · exact .inl rfl
  rename_i hroom
  split
  · exact .inl rfl
  rename_i hfits
  refine .inr ⟨_, rfl, ?_⟩
  have htarget : paddingTarget bytes.length payload frame
      = bytes.length + 4 + (paddingTarget bytes.length payload frame - bytes.length - 4) := by
    omega
  generalize hpad : paddingTarget bytes.length payload frame - bytes.length - 4 = pad at hfits htarget ⊢
  have hrdata : (edns.padded pad).rdata.length = edns.rdata.length + 4 + pad := by
    simp only [Edns.padded, List.length_append, length_be16, List.length_replicate]
    omega
  have hlength : (headerOctets m.header rcode counts ++ (sections ++
      optRecord (edns.padded pad) rcode)).length = paddingTarget bytes.length payload frame := by
    rw [htarget, hbytes]
    simp only [List.length_append, length_optRecord, hrdata]
    omega
  refine ⟨?_, ?_, ?_⟩
  · rw [hbytes]
    refine (tryFromBytes_alike hstored hcounts hsections rcode hsome hlen (by omega)).mono ?_
    rintro a b ⟨ha, hb⟩
    exact ⟨edns, edns.padded pad, options, pad, ha, hb, rfl, rfl, rfl, hoptions,
      padded_options hoptions (by omega)⟩
  · rw [hlength, paddingTarget]
    exact Nat.min_le_right ..
  · rw [hlength, paddingTarget]
    rcases Nat.le_total ((bytes.length + 4 + (PADDING_BLOCK - 1)) / PADDING_BLOCK * PADDING_BLOCK)
      (paddingLimit bytes.length payload frame) with hle | hle
    · rw [Nat.min_eq_left hle]
      exact .inl (Nat.dvd_mul_left ..)
    · rw [Nat.min_eq_right hle]
      exact .inr rfl

def optOnly (rdata : Octets) : DnsMessage where
  id := 1
  response := true
  opcode := .query
  authoritive := false
  truncation := false
  recursion := false
  recursionOk := false
  ad := false
  cd := false
  rcode := .ok
  queries := []
  answers := []
  authorities := []
  additionals := []
  edns := some ⟨1232, 0, false, rdata⟩

theorem optOnly_written (rdata : Octets) (hlen : rdata.length ≤ 65535) :
    ∃ n out, (optOnly rdata).toBytes (List.replicate (23 + rdata.length) 0) = (.ok n, out) ∧
      (out.take n).length = 23 + rdata.length := by
  have hsize : ¬ rdata.length > 65535 := by omega
  have hbody : bodyPlan (optOnly rdata) 0 NameCompressor.new HEADER_LEN
      = (optRecord ⟨1232, 0, false, rdata⟩ 0, .ok NameCompressor.new) := by
    show optPlan ⟨1232, 0, false, rdata⟩ 0 NameCompressor.new HEADER_LEN = _
    rw [optPlan, Plan.seq_octets, if_neg hsize]
    rfl
  have hplan := messagePlan_ok_iff.mpr ⟨0, ⟨0, 0, 0, 1⟩, _, rfl, rfl, rfl, hbody⟩
  have hlength : (headerOctets (optOnly rdata).header 0 ⟨0, 0, 0, 1⟩
      ++ optRecord ⟨1232, 0, false, rdata⟩ 0).length = 23 + rdata.length := by
    rw [List.length_append, length_headerOctets, length_optRecord, HEADER_LEN]
    simp only
    omega
  have hroom : (headerOctets (optOnly rdata).header 0 ⟨0, 0, 0, 1⟩
      ++ optRecord ⟨1232, 0, false, rdata⟩ 0).length
        ≤ (List.replicate (23 + rdata.length) (0 : UInt8)).length := by
    rw [List.length_replicate, hlength]
  have hout := DnsMessage.toBytes_ok_iff.mpr ⟨_, _, hplan, rfl, hroom, rfl⟩
  refine ⟨_, _, hout, ?_⟩
  rw [splice, List.take_zero, List.nil_append, List.take_left, hlength]

theorem padReply_preserves_optOnly :
    ∃ n out, (optOnly []).toBytes (List.replicate 23 0) = (.ok n, out) ∧
      (padReply (out.take n) 512 65535 = (false, out.take n) ∨
        ∃ padded, padReply (out.take n) 512 65535 = (true, padded) ∧
          PaddedFrom (out.take n) padded 512 65535) := by
  obtain ⟨n, out, hwritten, -⟩ := optOnly_written [] (by decide)
  have hoptions : (⟨1232, 0, false, []⟩ : Edns).options = .ok [] := by
    rw [Edns.options, walkOptions.eq_def]
  exact ⟨n, out, hwritten, padReply_preserves (fun rr h => absurd h List.not_mem_nil) hwritten rfl
    hoptions 512 65535⟩

def cutShort : Octets := [0, 3, 0, 5]

theorem cutShort_options : ∃ e, (⟨1232, 0, false, cutShort⟩ : Edns).options = .error e := by
  rw [Edns.options, walkOptions.eq_def]
  exact ⟨_, rfl⟩

/-- **Behind a list that is cut short the padding is no option.** -/
theorem padReply_cutShort :
    ¬ ∀ m : DnsMessage, (∀ rr ∈ m.records, rr.rdata.StandsAlone) → ∀ output n out,
      m.toBytes output = (.ok n, out) → m.edns.isSome = true → ∀ payload frame,
        padReply (out.take n) payload frame = (false, out.take n) ∨
          ∃ padded, padReply (out.take n) payload frame = (true, padded) ∧
            PaddedFrom (out.take n) padded payload frame := by
  intro h
  obtain ⟨n, out, hwritten, hlen⟩ := optOnly_written cutShort (by decide)
  have hpadded := h _ (fun rr h => absurd h List.not_mem_nil) _ _ _ hwritten rfl 512 512
  obtain ⟨c, bytes, hplan, rfl, -, rfl⟩ := DnsMessage.toBytes_ok_iff.mp hwritten
  have htake : ∀ output : Octets, (splice output 0 bytes).take bytes.length = bytes := by
    intro output
    rw [splice, List.take_zero, List.nil_append, List.take_left]
  rw [htake] at hlen hpadded
  have hlen' : bytes.length = 27 := hlen
  obtain ⟨rcode, counts, sections, c', hcounts, hsections, hshort, hbytes⟩ := messagePlan_opt hplan rfl
  rw [padReply_written hcounts rfl hsections hshort rcode hbytes, hlen',
    if_neg (by decide), if_neg (by decide)] at hpadded
  rcases hpadded with hfalse | ⟨padded, -, hpadded⟩
  · cases hfalse
  · -- the message reads back, with the list that is none
    have hshallow : Shallow (optOnly cutShort).pointerDepths := by
      rintro d ⟨⟩
    obtain ⟨shown, hshown, hsame⟩ := (tryFromBytes_messagePlan
      (fun rr h => absurd h List.not_mem_nil) hplan).1 hshallow
    have hreads := hpadded.reads
    rw [hshown] at hreads
    obtain ⟨-, -, edns, -, options, -, hedns, -, -, -, -, hoptions, -⟩ := hreads.of_ok
    obtain ⟨e, he⟩ := cutShort_options
    cases hsame.edns.symm.trans hedns
    cases he.symm.trans hoptions

end Rdns.Core
