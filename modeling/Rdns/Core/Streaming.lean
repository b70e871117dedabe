import Rdns.Core.Relay

/-!
# Rdns — The streaming response writer

`ResponseWriter` (`rdns-core/src/response.rs`) appends a reply to the send buffer
record by record; `DnsMessage::to_bytes_within` builds the message first and then
serializes it. Past the size limit both fall back to an empty TC=1 reply: the
writer by rewinding to the end of the question, the serializer by starting over.

Both are read against the same plans. What a plan comes to within a limit is its
`Ending` — written, out of room, or refused — and endings compose along `Plan.seq`.
-/

namespace Rdns.Core

open Rdns.Lib

/-! ## The writer -/

inductive Section where
  | answer
  | authority
  | additional
deriving DecidableEq

def Section.toNat : Section → Nat
  | .answer => 1
  | .authority => 2
  | .additional => 3

def Counts.bump (counts : Counts) : Section → Counts
  | .answer => { counts with an := counts.an + 1 }
  | .authority => { counts with ns := counts.ns + 1 }
  | .additional => { counts with ar := counts.ar + 1 }

def WireError.isOutputFull : WireError → Bool
  | .truncated what _ _ => what == "the output buffer"
  | _ => false

def Edns.extended (edns : Edns) : Option ExtendedError → Except WireError Edns
  | some error => edns.withExtendedError error
  | none => .ok edns

structure ResponseWriter where
  sink : Sink NameCompressor
  limit : Nat
  pos : Nat
  body : Nat
  counts : Counts
  last : Section
  header : Header
  edns : Option Edns
  extendedError : Option ExtendedError
  truncated : Bool

namespace ResponseWriter

def start (maxLen : Nat) (request : DnsMessage) : Except WireError ResponseWriter := do
  let out := List.replicate (max maxLen CLASSIC_UDP_SIZE) 0
  let qdcount ← sectionCount request.queries.length "the question section"
  match exec (request.queries.foldlM (fun pos q => writeQuery q pos) HEADER_LEN)
    ⟨NameCompressor.new, out⟩ with
  | (.error e, _) => .error e
  | (.ok pos, sink) => .ok {
      sink
      limit := maxLen
      pos
      body := pos
      counts := ⟨qdcount, 0, 0, 0⟩
      last := .answer
      header := {
        id := request.id
        response := true
        opcode := request.opcode
        authoritive := false
        truncation := false
        recursion := request.recursion
        recursionOk := false
        ad := false
        cd := request.cd
        rcode := .ok }
      edns := none
      extendedError := none
      truncated := false }

def truncate (w : ResponseWriter) : ResponseWriter :=
  { w with
    truncated := true
    pos := w.body
    counts := ⟨w.counts.qd, 0, 0, 0⟩
    sink := { w.sink with state := w.sink.state.rewind w.body } }

def push (w : ResponseWriter) (into : Section) (rr : ResourceRecord) :
    Except WireError Unit × ResponseWriter :=
  if w.truncated then (.ok (), w)
  else
    match exec (writeRr rr w.pos) w.sink with
    | (.ok stop, sink) =>
      if stop ≤ w.limit then
        (.ok (), { w with sink, last := into, pos := stop, counts := w.counts.bump into })
      else (.ok (), truncate { w with sink, last := into })
    | (.error e, sink) =>
      if e.isOutputFull then (.ok (), truncate { w with sink, last := into })
      else (.error e, { w with sink, last := into })

def attachOptAgain (w : ResponseWriter) (edns : Edns) (rcode : UInt16) :
    Except WireError ResponseWriter :=
  let w := w.truncate
  match exec (writeOpt edns rcode w.pos) w.sink with
  | (.ok pos, sink) => .ok { w with sink, pos, counts := { w.counts with ar := 1 } }
  | (.error e, _) => .error e

def attachOpt (w : ResponseWriter) (edns : Edns) (rcode : UInt16) :
    Except WireError ResponseWriter :=
  match exec (writeOpt edns rcode w.pos) w.sink with
  | (.ok stop, sink) =>
    if stop ≤ w.limit then
      .ok { w with sink, pos := stop, counts := w.counts.bump .additional }
    else attachOptAgain { w with sink } edns rcode
  | (.error e, sink) =>
    if e.isOutputFull then attachOptAgain { w with sink } edns rcode else .error e

def close (w : ResponseWriter) (rcode : UInt16) : Except WireError Octets :=
  match exec (writeHeader { w.header with truncation := w.truncated } rcode w.counts) w.sink with
  | (.ok _, sink) => .ok (sink.buf.take w.pos)
  | (.error e, _) => .error e

def finish (w : ResponseWriter) : Except WireError Octets := do
  let rcode ← wireRcode w.header.rcode w.edns.isSome
  let w ← match w.edns with
    | none => .ok w
    | some edns => do
      let edns ← edns.extended w.extendedError
      w.attachOpt edns rcode
  w.close rcode

end ResponseWriter

/-- What a caller does with a writer between `start` and `finish`. -/
inductive Action where
  | setAuthoritative (authoritative : Bool)
  | setRcode (rcode : ResponseCode)
  | setEdns (edns : Edns)
  | setExtendedError (error : ExtendedError)
  | push (into : Section) (rr : ResourceRecord)

def ResponseWriter.perform (w : ResponseWriter) : Action → Except WireError ResponseWriter
  | .setAuthoritative authoritative =>
    .ok { w with header := { w.header with authoritive := authoritative } }
  | .setRcode rcode => .ok { w with header := { w.header with rcode } }
  | .setEdns edns => .ok { w with edns := some edns }
  | .setExtendedError error => .ok { w with extendedError := some error }
  | .push into rr =>
    match w.push into rr with
    | (.ok (), w) => .ok w
    | (.error e, _) => .error e

def writeResponse (request : DnsMessage) (maxLen : Nat) (actions : List Action) :
    Except WireError Octets := do
  let w ← ResponseWriter.start maxLen request
  let w ← actions.foldlM ResponseWriter.perform w
  w.finish

/-! ## The serializer -/

def DnsMessage.emptied (m : DnsMessage) : DnsMessage :=
  { m with truncation := true, answers := [], authorities := [], additionals := [] }

/-- The TC=1 form, in a buffer that is sure to hold it. -/
def DnsMessage.emptiedBytes (m : DnsMessage) (maxLen : Nat) : Except WireError Octets :=
  let size := max m.emptied.wireSizeBound (min maxLen CLASSIC_UDP_SIZE)
  match m.emptied.toBytes (List.replicate size 0) with
  | (.ok n, out) => .ok (out.take n)
  | (.error e, _) => .error e

def DnsMessage.toBytesWithin (m : DnsMessage) (maxLen : Nat) : Except WireError Octets :=
  let scratch := min m.wireSizeBound maxLen
  let first := m.toBytes (List.replicate scratch 0)
  let wrote := match first with
    | (.error e, _) =>
      if scratch < maxLen ∧ e.isOutputFull then m.toBytes (List.replicate maxLen 0) else first
    | _ => first
  match wrote with
  | (.ok n, out) => if n ≤ maxLen then .ok (out.take n) else m.emptiedBytes maxLen
  | (.error e, _) => if e.isOutputFull then m.emptiedBytes maxLen else .error e

/-! ## Endings -/

inductive Ending where
  | written (bytes : Octets) (c : NameCompressor)
  | full
  | failed (e : WireError)

def WirePlan.ending (plan : WirePlan) (limit : Nat) (c : NameCompressor) (pos : Nat) : Ending :=
  match plan c pos with
  | (bytes, .ok c') => if pos + bytes.length ≤ limit then .written bytes c' else .full
  | (bytes, .error e) =>
    if pos + bytes.length ≤ limit ∧ e.isOutputFull = false then .failed e else .full

def Ending.andThen (ending : Ending) (next : Octets → NameCompressor → Ending) : Ending :=
  match ending with
  | .written bytes c =>
    match next bytes c with
    | .written more c' => .written (bytes ++ more) c'
    | .full => .full
    | .failed e => .failed e
  | .full => .full
  | .failed e => .failed e

/-- **Endings compose**: a plan that ran out of room or failed does not get further
by going on. -/
theorem WirePlan.ending_seq (p q : WirePlan) (limit : Nat) (c : NameCompressor) (pos : Nat) :
    WirePlan.ending (p.seq q) limit c pos
      = (WirePlan.ending p limit c pos).andThen fun bytes c =>
          WirePlan.ending q limit c (pos + bytes.length) := by
  rcases hp : p c pos with ⟨a, e | c'⟩
  · simp only [WirePlan.ending, Plan.seq_error hp, hp]
    split <;> rfl
  · simp only [WirePlan.ending, Plan.seq_ok hp, hp]
    rcases hq : q c' (pos + a.length) with ⟨b, e | c''⟩ <;>
      by_cases hfits : pos + a.length ≤ limit <;>
      simp only [Ending.andThen, hfits, hq, if_true, if_false, List.length_append,
        ← Nat.add_assoc]
    · split <;> rfl
    · rw [if_neg (by omega)]
    · split <;> rfl
    · rw [if_neg (by omega)]

section Exec

variable {w : WireM Nat} {plan : WirePlan} {c c' : NameCompressor} {buf bytes : Octets}
  {pos limit : Nat} {e : WireError}

theorem WirePlan.ending_eq_written :
    WirePlan.ending plan limit c pos = .written bytes c' ↔
      plan c pos = (bytes, .ok c') ∧ pos + bytes.length ≤ limit := by
  unfold WirePlan.ending
  rcases plan c pos with ⟨a, e | c''⟩ <;> simp only
  · split <;> simp
  · grind

theorem WirePlan.ending_eq_failed :
    WirePlan.ending plan limit c pos = .failed e ↔
      ∃ bytes, plan c pos = (bytes, .error e) ∧ pos + bytes.length ≤ limit ∧
        e.isOutputFull = false := by
  unfold WirePlan.ending
  rcases plan c pos with ⟨a, e' | c''⟩ <;> simp only
  · grind
  · split <;> simp

theorem WirePlan.ending_eq_full :
    WirePlan.ending plan limit c pos = .full ↔
      limit < pos + (plan c pos).1.length ∨
        ∃ e, (plan c pos).2 = .error e ∧ e.isOutputFull = true := by
  unfold WirePlan.ending
  rcases plan c pos with ⟨a, e' | c''⟩ <;> simp only
  · grind
  · grind

variable (h : Emits outputFull w pos c (plan c pos).1 (plan c pos).2) (hpos : pos ≤ buf.length)

include h in
theorem WirePlan.exec_written (hending : WirePlan.ending plan buf.length c pos = .written bytes c') :
    exec w ⟨c, buf⟩ = (.ok (pos + bytes.length), ⟨c', splice buf pos bytes⟩) := by
  obtain ⟨hplan, hfits⟩ := ending_eq_written.mp hending
  rw [hplan] at h
  exact h.done c' rfl buf hfits

include h in
theorem WirePlan.exec_failed (hending : WirePlan.ending plan buf.length c pos = .failed e) :
    e.isOutputFull = false ∧ ∃ sink, exec w ⟨c, buf⟩ = (.error e, sink) := by
  obtain ⟨bytes, hplan, hfits, hother⟩ := ending_eq_failed.mp hending
  rw [hplan] at h
  obtain ⟨c', buf', hexec, -⟩ := h.fails e rfl buf hfits
  exact ⟨hother, _, hexec⟩

include h hpos in
theorem WirePlan.exec_full (hending : WirePlan.ending plan buf.length c pos = .full) :
    ∃ e c' buf', WireError.isOutputFull e = true ∧
      exec w ⟨c, buf⟩ = (.error e, ⟨c', buf'⟩) ∧ Kept pos buf buf' := by
  by_cases hlong : buf.length < pos + (plan c pos).1.length
  · obtain ⟨need, c', buf', hexec, hkept⟩ := h.overflows buf hpos hlong
    exact ⟨_, c', buf', rfl, hexec, hkept⟩
  · rcases ending_eq_full.mp hending with hover | ⟨e, he, houtput⟩
    · exact absurd hover hlong
    · obtain ⟨c', buf', hexec, hkept⟩ := h.fails e he buf (Nat.le_of_not_lt hlong)
      exact ⟨e, c', buf', houtput, hexec, hkept⟩

end Exec

/-! ## What the serializer does -/

section Serializer

variable {m : DnsMessage} {size : Nat}

theorem toBytes_written {bytes : Octets} {c : NameCompressor}
    (h : WirePlan.ending (messagePlan m) size NameCompressor.new 0 = .written bytes c) :
    ∃ out, m.toBytes (List.replicate size 0) = (.ok bytes.length, out) ∧
      out.take bytes.length = bytes := by
  have hsize : (List.replicate size (0 : UInt8)).length = size := List.length_replicate
  rw [← hsize] at h
  refine ⟨splice (List.replicate size 0) 0 bytes, ?_, ?_⟩
  · rw [DnsMessage.toBytes, WirePlan.exec_written (toBytesWith_emits m NameCompressor.new) h,
      Nat.zero_add]
  · rw [splice, List.take_zero, List.nil_append, List.take_left]

theorem toBytes_failed {e : WireError}
    (h : WirePlan.ending (messagePlan m) size NameCompressor.new 0 = .failed e) :
    e.isOutputFull = false ∧ ∃ out, m.toBytes (List.replicate size 0) = (.error e, out) := by
  have hsize : (List.replicate size (0 : UInt8)).length = size := List.length_replicate
  rw [← hsize] at h
  obtain ⟨hother, sink, hexec⟩ := WirePlan.exec_failed (toBytesWith_emits m NameCompressor.new) h
  exact ⟨hother, sink.buf, by rw [DnsMessage.toBytes, hexec]⟩

theorem toBytes_full
    (h : WirePlan.ending (messagePlan m) size NameCompressor.new 0 = .full) :
    ∃ e out, WireError.isOutputFull e = true ∧
      m.toBytes (List.replicate size 0) = (.error e, out) := by
  have hsize : (List.replicate size (0 : UInt8)).length = size := List.length_replicate
  rw [← hsize] at h
  obtain ⟨e, c, buf, houtput, hexec, -⟩ :=
    WirePlan.exec_full (toBytesWith_emits m NameCompressor.new) (Nat.zero_le _) h
  exact ⟨e, buf, houtput, by rw [DnsMessage.toBytes, hexec]⟩

theorem ending_scratch (m : DnsMessage) (maxLen : Nat) :
    WirePlan.ending (messagePlan m) (min m.wireSizeBound maxLen) NameCompressor.new 0
      = WirePlan.ending (messagePlan m) maxLen NameCompressor.new 0 := by
  have hbound := messagePlan_length_le m NameCompressor.new
  unfold WirePlan.ending
  generalize messagePlan m NameCompressor.new 0 = plan at hbound ⊢
  obtain ⟨bytes, e | c⟩ := plan <;> simp only at hbound <;>
    simp only [Nat.zero_add, Nat.le_min, hbound, true_and]

/-- **The serializer does what the ending of the message says**; the retry in it
changes nothing. -/
theorem toBytesWithin_eq (m : DnsMessage) (maxLen : Nat) :
    m.toBytesWithin maxLen
      = match WirePlan.ending (messagePlan m) maxLen NameCompressor.new 0 with
        | .written bytes _ => .ok bytes
        | .full => m.emptiedBytes maxLen
        | .failed e => .error e := by
  have hscratch := ending_scratch m maxLen
  unfold DnsMessage.toBytesWithin
  simp only
  cases hending : WirePlan.ending (messagePlan m) maxLen NameCompressor.new 0 with
  | written bytes c =>
    obtain ⟨out, hout, htake⟩ := toBytes_written (hscratch.trans hending)
    have hfits := (WirePlan.ending_eq_written.mp hending).2
    rw [Nat.zero_add] at hfits
    simp only [hout, if_pos hfits, htake]
  | full =>
    obtain ⟨e, out, houtput, hfull⟩ := toBytes_full (hscratch.trans hending)
    obtain ⟨e', out', houtput', hfull'⟩ := toBytes_full hending
    by_cases hretry : min m.wireSizeBound maxLen < maxLen
    · simp only [hfull, hfull', houtput, houtput', hretry, and_self, if_true]
    · simp only [hfull, houtput, hretry, false_and, if_true, if_false]
  | failed e =>
    obtain ⟨hother, out, hout⟩ := toBytes_failed (hscratch.trans hending)
    simp only [hout, hother, Bool.false_eq_true, and_false, if_false]

end Serializer

/-! ## What a run of the writer describes -/

structure Reply where
  authoritive : Bool
  rcode : ResponseCode
  edns : Option Edns
  extendedError : Option ExtendedError
  pushed : List (Section × ResourceRecord)

namespace Reply

def blank : Reply := ⟨false, .ok, none, none, []⟩

def after (reply : Reply) : Action → Reply
  | .setAuthoritative authoritative => { reply with authoritive := authoritative }
  | .setRcode rcode => { reply with rcode }
  | .setEdns edns => { reply with edns := some edns }
  | .setExtendedError error => { reply with extendedError := some error }
  | .push into rr => { reply with pushed := reply.pushed ++ [(into, rr)] }

def recordsIn (reply : Reply) (into : Section) : List ResourceRecord :=
  (reply.pushed.filter fun p => p.1 == into).map Prod.snd

def opt (reply : Reply) : Option Edns :=
  reply.edns.map fun edns =>
    match reply.extendedError with
    | some error => { edns with
        rdata := edns.rdata ++ be16 EDNS_OPTION_EXTENDED_ERROR
          ++ be16 (UInt16.ofNat error.toOption.data.length) ++ error.toOption.data }
    | none => edns

def message (reply : Reply) (request : DnsMessage) : DnsMessage where
  id := request.id
  response := true
  opcode := request.opcode
  authoritive := reply.authoritive
  truncation := false
  recursion := request.recursion
  recursionOk := false
  ad := false
  cd := request.cd
  rcode := reply.rcode
  queries := request.queries
  answers := reply.recordsIn .answer
  authorities := reply.recordsIn .authority
  additionals := reply.recordsIn .additional
  edns := reply.opt

def InOrder (reply : Reply) : Prop :=
  reply.pushed.Pairwise fun a b => a.1.toNat ≤ b.1.toNat

theorem records_message {reply : Reply} (h : reply.InOrder) (request : DnsMessage) :
    (reply.message request).records = reply.pushed.map Prod.snd := by
  have hsplit : ∀ pushed : List (Section × ResourceRecord),
      (pushed.Pairwise fun a b => a.1.toNat ≤ b.1.toNat) →
      pushed.filter (fun p => p.1 == .answer) ++ pushed.filter (fun p => p.1 == .authority)
        ++ pushed.filter (fun p => p.1 == .additional) = pushed := by
    intro pushed hpushed
    induction pushed with
    | nil => rfl
    | cons p rest ih =>
      obtain ⟨hfirst, hrest⟩ := List.pairwise_cons.mp hpushed
      have hnone : ∀ into : Section, into.toNat < p.1.toNat →
          rest.filter (fun q => q.1 == into) = [] := by
        intro into hinto
        refine List.filter_eq_nil_iff.mpr fun q hq heq => ?_
        have hle := hfirst q hq
        rw [beq_iff_eq.mp heq] at hle
        omega
      have ih := ih hrest
      obtain ⟨into, rr⟩ := p
      -- the sections before the one this record is in are over
      cases into with
      | answer => simpa using ih
      | authority =>
        have hanswer := hnone .answer (by simp [Section.toNat])
        rw [hanswer] at ih
        simpa [hanswer] using ih
      | additional =>
        have hanswer := hnone .answer (by simp [Section.toNat])
        have hauthority := hnone .authority (by simp [Section.toNat])
        rw [hanswer, hauthority] at ih
        simpa [hanswer, hauthority] using ih
  show reply.recordsIn .answer ++ reply.recordsIn .authority ++ reply.recordsIn .additional = _
  unfold recordsIn
  rw [← List.map_append, ← List.map_append, hsplit reply.pushed h]

def counts (reply : Reply) (request : DnsMessage) : Counts where
  qd := UInt16.ofNat request.queries.length
  an := UInt16.ofNat (reply.recordsIn .answer).length
  ns := UInt16.ofNat (reply.recordsIn .authority).length
  ar := UInt16.ofNat (reply.recordsIn .additional).length

def recordsPlan (reply : Reply) : WirePlan :=
  Plan.all ((reply.pushed.map Prod.snd).map rrPlan)

theorem recordsPlan_push (reply : Reply) (into : Section) (rr : ResourceRecord) :
    (reply.after (.push into rr)).recordsPlan = reply.recordsPlan.seq (rrPlan rr) := by
  rw [recordsPlan, after, List.map_append, List.map_append, Plan.all_append]
  show Plan.seq _ ((rrPlan rr).seq (Plan.octets [])) = _
  rw [Plan.seq_octets_nil]
  rfl

theorem counts_push (reply : Reply) (request : DnsMessage) (into : Section) (rr : ResourceRecord) :
    (reply.after (.push into rr)).counts request = (reply.counts request).bump into := by
  have hlen : ∀ s : Section, ((reply.after (.push into rr)).recordsIn s).length
      = (reply.recordsIn s).length + if into = s then 1 else 0 := by
    intro s
    simp only [recordsIn, after, List.filter_append, List.map_append, List.length_append,
      List.length_map]
    by_cases hs : into = s <;> simp [hs]
  cases into <;> simp [counts, Counts.bump, hlen, UInt16.ofNat_add]

end Reply

/-! ## The writer follows the plan -/

/-- The question section was written as `question`, and the table is `c` after it. -/
structure Question where
  request : DnsMessage
  maxLen : Nat
  question : Octets
  c : NameCompressor

def Question.stop (q : Question) : Nat := HEADER_LEN + q.question.length

/-- **The writer's state is the ending of what was pushed**: the records written so
far, or nothing but the question once they ran out of room. -/
structure ResponseWriter.Follows (q : Question) (reply : Reply) (w : ResponseWriter) : Prop where
  limit : w.limit = q.maxLen
  body : w.body = q.stop
  header : w.header = (reply.message q.request).header
  edns : w.edns = reply.edns
  extendedError : w.extendedError = reply.extendedError
  room : w.sink.buf.length = q.maxLen
  echoed : w.sink.buf.take q.stop = List.replicate HEADER_LEN 0 ++ q.question
  records :
    (w.truncated = true ∧ w.pos = q.stop ∧
      w.counts = ⟨UInt16.ofNat q.request.queries.length, 0, 0, 0⟩ ∧
      WirePlan.ending reply.recordsPlan q.maxLen q.c q.stop = .full) ∨
    ∃ bytes, w.truncated = false ∧ w.pos = q.stop + bytes.length ∧
      w.counts = reply.counts q.request ∧
      w.sink.buf.take w.pos = List.replicate HEADER_LEN 0 ++ q.question ++ bytes ∧
      WirePlan.ending reply.recordsPlan q.maxLen q.c q.stop = .written bytes w.sink.state

section Follows

variable {q : Question} {reply : Reply} {w : ResponseWriter}

theorem ResponseWriter.Follows.truncate (h : w.Follows q reply)
    (hcounts : w.counts.qd = UInt16.ofNat q.request.queries.length)
    (hpos : q.stop ≤ w.pos) {sink : Sink NameCompressor} (hkept : Kept w.pos w.sink.buf sink.buf)
    (into : Section) (rr : ResourceRecord)
    (hfull : WirePlan.ending (reply.after (.push into rr)).recordsPlan q.maxLen q.c q.stop = .full) :
    (ResponseWriter.truncate { w with sink, last := into }).Follows q
      (reply.after (.push into rr)) where
  limit := h.limit
  body := h.body
  header := h.header
  edns := h.edns
  extendedError := h.extendedError
  room := hkept.1.trans h.room
  echoed := (hkept.mono hpos).2.trans h.echoed
  records := .inl ⟨rfl, h.body, by simp only [ResponseWriter.truncate, hcounts], hfull⟩

/-- **One push**: the next record goes out, or the reply is truncated, or the record
is refused, as the plan has it. -/
theorem ResponseWriter.Follows.push (h : w.Follows q reply) (into : Section)
    (rr : ResourceRecord) :
    (∃ w', w.push into rr = (.ok (), w') ∧ w'.Follows q (reply.after (.push into rr))) ∨
    (∃ e w', w.push into rr = (.error e, w') ∧
      WirePlan.ending (reply.after (.push into rr)).recordsPlan q.maxLen q.c q.stop = .failed e) := by
  unfold ResponseWriter.push
  rcases h.records with ⟨htruncated, hpos, hcounts, hfull⟩ |
    ⟨bytes, htruncated, hpos, hcounts, hbytes, hwritten⟩
  · -- truncated already: the push is dropped
    refine .inl ⟨w, by rw [if_pos htruncated], ⟨h.limit, h.body, h.header, h.edns,
      h.extendedError, h.room, h.echoed, .inl ⟨htruncated, hpos, hcounts, ?_⟩⟩⟩
    rw [Reply.recordsPlan_push, WirePlan.ending_seq, hfull]
    rfl
  · have hfits := (WirePlan.ending_eq_written.mp hwritten).2
    have hroom : w.pos ≤ w.sink.buf.length := by
      rw [h.room]
      omega
    have hnext : WirePlan.ending (reply.after (.push into rr)).recordsPlan q.maxLen q.c q.stop
        = (Ending.written bytes w.sink.state).andThen fun _ _ =>
          WirePlan.ending (rrPlan rr) w.sink.buf.length w.sink.state w.pos := by
      rw [Reply.recordsPlan_push, WirePlan.ending_seq, hwritten, h.room, hpos]
      rfl
    rw [if_neg (by rw [htruncated]; exact Bool.false_ne_true)]
    have hqd : w.counts.qd = UInt16.ofNat q.request.queries.length := by rw [hcounts]; rfl
    cases hending : WirePlan.ending (rrPlan rr) w.sink.buf.length w.sink.state w.pos with
    | written more c' =>
      have hmore := (WirePlan.ending_eq_written.mp hending).2
      have hexec := WirePlan.exec_written (writeRr_implements rr w.pos w.sink.state) hending
      rw [hending] at hnext
      simp only [hexec]
      rw [if_pos (by rw [h.limit, ← h.room]; omega)]
      refine .inl ⟨_, rfl, h.limit, h.body, h.header, h.edns, h.extendedError, ?_, ?_,
        .inr ⟨bytes ++ more, htruncated, ?_, ?_, ?_, hnext⟩⟩
      · simp only
        rw [length_splice (by omega), h.room]
      · simp only
        rw [take_splice hroom (by omega), h.echoed]
      · simp only [List.length_append]
        omega
      · rw [Reply.counts_push, hcounts]
      · simp only
        rw [take_splice_end hroom, hbytes, List.append_assoc]
    | full =>
      obtain ⟨e, c', buf', houtput, hexec, hkept⟩ :=
        WirePlan.exec_full (writeRr_implements rr w.pos w.sink.state) hroom hending
      rw [hending] at hnext
      simp only [hexec, houtput, if_true]
      exact .inl ⟨_, rfl, h.truncate hqd (by omega) hkept into rr hnext⟩
    | failed e =>
      obtain ⟨hother, sink, hexec⟩ :=
        WirePlan.exec_failed (writeRr_implements rr w.pos w.sink.state) hending
      rw [hending] at hnext
      simp only [hexec, hother, Bool.false_eq_true, if_false]
      exact .inr ⟨e, _, rfl, hnext⟩

/-- **One action keeps the writer on the plan**, or fails where the plan does. -/
theorem ResponseWriter.Follows.perform (h : w.Follows q reply) (action : Action) :
    (∃ w', w.perform action = .ok w' ∧ w'.Follows q (reply.after action)) ∨
    (∃ e, w.perform action = .error e ∧
      WirePlan.ending (reply.after action).recordsPlan q.maxLen q.c q.stop = .failed e) := by
  have hheader := h.header
  cases action with
  | setAuthoritative authoritative =>
    exact .inl ⟨_, rfl, h.limit, h.body, by simp only [hheader]; rfl, h.edns, h.extendedError,
      h.room, h.echoed, h.records⟩
  | setRcode rcode =>
    exact .inl ⟨_, rfl, h.limit, h.body, by simp only [hheader]; rfl, h.edns, h.extendedError,
      h.room, h.echoed, h.records⟩
  | setEdns edns =>
    exact .inl ⟨_, rfl, h.limit, h.body, h.header, rfl, h.extendedError, h.room, h.echoed,
      h.records⟩
  | setExtendedError error =>
    exact .inl ⟨_, rfl, h.limit, h.body, h.header, h.edns, rfl, h.room, h.echoed, h.records⟩
  | push into rr =>
    rcases h.push into rr with ⟨w', hpush, hfollows⟩ | ⟨e, w', hpush, hfailed⟩
    · exact .inl ⟨w', by simp only [ResponseWriter.perform, hpush], hfollows⟩
    · exact .inr ⟨e, by simp only [ResponseWriter.perform, hpush], hfailed⟩

theorem Reply.failed_after {e : WireError}
    (h : WirePlan.ending reply.recordsPlan q.maxLen q.c q.stop = .failed e)
    (actions : List Action) :
    WirePlan.ending (actions.foldl Reply.after reply).recordsPlan q.maxLen q.c q.stop
      = .failed e := by
  induction actions generalizing reply with
  | nil => exact h
  | cons action rest ih =>
    apply ih
    cases action with
    | push into rr =>
      rw [Reply.recordsPlan_push, WirePlan.ending_seq, h]
      rfl
    | _ => exact h

/-- **A run of actions**: by the end the writer is where the plan of everything pushed
ends, or has failed where that does. -/
theorem ResponseWriter.Follows.performAll (h : w.Follows q reply) (actions : List Action) :
    (∃ w', actions.foldlM ResponseWriter.perform w = .ok w' ∧
      w'.Follows q (actions.foldl Reply.after reply)) ∨
    (∃ e, actions.foldlM ResponseWriter.perform w = .error e ∧
      WirePlan.ending (actions.foldl Reply.after reply).recordsPlan q.maxLen q.c q.stop
        = .failed e) := by
  induction actions generalizing w reply with
  | nil => exact .inl ⟨w, rfl, h⟩
  | cons action rest ih =>
    rw [List.foldlM_cons, List.foldl_cons]
    rcases h.perform action with ⟨w', hperform, hfollows⟩ | ⟨e, hperform, hfailed⟩
    · rw [hperform]
      exact ih hfollows
    · rw [hperform]
      exact .inr ⟨e, rfl, Reply.failed_after hfailed rest⟩

end Follows

/-! ## Starting and finishing -/

variable {m request : DnsMessage} {rcode : UInt16}

theorem question_short (hone : request.queries.length ≤ 1) (c : NameCompressor) (pos : Nat) :
    (Plan.all (request.queries.map queryPlan) c pos).1.length ≤ 259 := by
  have hbound := Plan.length_all_le length_queryPlan_le request.queries c pos
  match hqueries : request.queries with
  | [] => exact Nat.zero_le _
  | [q] =>
    rw [hqueries] at hbound
    have hname := q.qname.length_wire_le
    simp only [List.map_cons, List.map_nil, List.sum_cons, List.sum_nil] at hbound ⊢
    omega
  | _ :: _ :: _ => grind

/-- **Starting**: the question is echoed, and the plan has nothing in it yet. -/
theorem start_follows (hone : request.queries.length ≤ 1) {maxLen : Nat}
    (hmin : CLASSIC_UDP_SIZE ≤ maxLen) :
    ∃ question c w,
      Plan.all (request.queries.map queryPlan) NameCompressor.new HEADER_LEN = (question, .ok c) ∧
      ResponseWriter.start maxLen request = .ok w ∧
      w.Follows ⟨request, maxLen, question, c⟩ Reply.blank := by
  obtain ⟨question, c, hquestion⟩ := queriesPlan_ok request.queries NameCompressor.new HEADER_LEN
  have hshort := question_short hone NameCompressor.new HEADER_LEN
  rw [hquestion] at hshort
  have hsize : (List.replicate maxLen (0 : UInt8)).length = maxLen := List.length_replicate
  have hroom : HEADER_LEN + question.length ≤ maxLen := by
    simp only [HEADER_LEN, CLASSIC_UDP_SIZE] at hmin hshort ⊢
    omega
  have hexec := WirePlan.exec_written
    (Implements.foldlM writeQuery_implements request.queries HEADER_LEN NameCompressor.new)
    (WirePlan.ending_eq_written.mpr ⟨hquestion, hroom.trans hsize.ge⟩)
  have hechoed : (splice (List.replicate maxLen 0) HEADER_LEN question).take
      (HEADER_LEN + question.length) = List.replicate HEADER_LEN 0 ++ question := by
    rw [take_splice_end (by rw [hsize]; omega), List.take_replicate, Nat.min_eq_left (by omega)]
  rw [ResponseWriter.start, sectionCount_ok _ (by omega), Nat.max_eq_left hmin]
  simp only [bind, Except.bind, hexec]
  refine ⟨question, c, _, hquestion, rfl, rfl, rfl, rfl, rfl, rfl, ?_, hechoed,
    .inr ⟨[], rfl, rfl, rfl, ?_, ?_⟩⟩
  · simp only
    rw [length_splice (hroom.trans hsize.ge), hsize]
  · rw [List.append_nil]
    exact hechoed
  · exact WirePlan.ending_eq_written.mpr ⟨rfl, hroom⟩

def optOctets (opt : Option Edns) (rcode : UInt16) : Octets :=
  match opt with
  | some edns => optHead edns rcode ++ (be16 (UInt16.ofNat edns.rdata.length) ++ edns.rdata)
  | none => []

theorem ednsPlan_eq {opt : Option Edns} (h : ∀ edns, opt = some edns → edns.rdata.length ≤ 65535) :
    ednsPlan opt rcode = Plan.octets (optOctets opt rcode) := by
  cases opt with
  | none => rfl
  | some edns =>
    have hfits := h edns rfl
    rw [ednsPlan, optPlan, if_neg (by omega), Plan.octets_seq_octets]
    rfl

theorem length_optOctets {edns : Edns} (rcode : UInt16) :
    (optOctets (some edns) rcode).length = 11 + edns.rdata.length := by
  simp only [optOctets, optHead, List.length_append, length_be16, length_be32,
    List.length_singleton]
  omega

theorem opt_eq {reply : Reply} {edns : Edns} (h : reply.edns = some edns) :
    ∃ edns', reply.opt = some edns' ∧ edns.extended reply.extendedError = .ok edns' := by
  unfold Reply.opt
  rw [h]
  cases hreason : reply.extendedError with
  | none => exact ⟨_, rfl, rfl⟩
  | some error =>
    have hshort : ¬ error.toOption.data.length > 65535 := by
      have hbound := error.bounded
      simp only [ExtendedError.toOption, List.length_append, length_be16, MAX_EXTRA_TEXT] at hbound ⊢
      omega
    refine ⟨_, rfl, ?_⟩
    simp only [Edns.extended, Edns.withExtendedError, EdnsOption.appendTo, if_neg hshort]
    rfl

section Finish

variable {q : Question} {reply : Reply} {w : ResponseWriter} {rcode : UInt16}

def Question.complete (q : Question) (reply : Reply) (rcode : UInt16) (bytes : Octets) : Octets :=
  headerOctets (reply.message q.request).header rcode
      { reply.counts q.request with
        ar := (reply.counts q.request).ar + UInt16.ofNat reply.opt.isSome.toNat }
    ++ (q.question ++ bytes)

def Question.emptied (q : Question) (reply : Reply) (rcode : UInt16) : Octets :=
  headerOctets { (reply.message q.request).header with truncation := true } rcode
      ⟨UInt16.ofNat q.request.queries.length, 0, 0, UInt16.ofNat reply.opt.isSome.toNat⟩
    ++ (q.question ++ optOctets reply.opt rcode)

/-- **Closing**: the header takes the place of the twelve octets left for it. -/
theorem ResponseWriter.close_eq {rest : Octets} (hpos : HEADER_LEN + rest.length = w.pos)
    (hroom : HEADER_LEN ≤ w.sink.buf.length)
    (hbuf : w.sink.buf.take w.pos = List.replicate HEADER_LEN 0 ++ rest) :
    w.close rcode = .ok (headerOctets { w.header with truncation := w.truncated } rcode w.counts
      ++ rest) := by
  have hexec := (writeHeader_emits { w.header with truncation := w.truncated } rcode w.counts
    w.sink.state).done _ rfl w.sink.buf (by rw [length_headerOctets]; omega)
  have hrest : (w.sink.buf.drop HEADER_LEN).take rest.length = rest := by
    have hdrop := congrArg (List.drop HEADER_LEN) hbuf
    rw [← hpos, List.drop_take, Nat.add_sub_cancel_left] at hdrop
    rw [hdrop]
    exact List.drop_left' List.length_replicate
  unfold ResponseWriter.close
  simp only [hexec]
  rw [splice, length_headerOctets, Nat.zero_add, List.take_zero, List.nil_append, ← hpos,
    ← length_headerOctets, List.take_length_add_append, length_headerOctets, hrest]

theorem ending_octets (bytes : Octets) (limit : Nat) (c : NameCompressor) (pos : Nat) :
    WirePlan.ending (Plan.octets bytes) limit c pos
      = if pos + bytes.length ≤ limit then .written bytes c else .full := rfl

variable {edns : Edns}

theorem writeOpt_emits (hfits : edns.rdata.length ≤ 65535) (rcode : UInt16) (pos : Nat)
    (c : NameCompressor) :
    Emits outputFull (writeOpt edns rcode pos) pos c (optOctets (some edns) rcode) (.ok c) := by
  have h := writeEdns_implements (some edns) rcode pos c
  rw [ednsPlan_eq (fun edns' heq => by cases heq; exact hfits)] at h
  exact h

/-- **Closing an emptied reply**: the echoed question and the OPT. -/
theorem ResponseWriter.close_emptied
    (hheader : w.header = (reply.message q.request).header) (htruncated : w.truncated = true)
    (hcounts : w.counts = ⟨UInt16.ofNat q.request.queries.length, 0, 0,
      UInt16.ofNat reply.opt.isSome.toNat⟩)
    {buf : Octets} (hroom : buf.length = q.maxLen)
    (hechoed : buf.take q.stop = List.replicate HEADER_LEN 0 ++ q.question)
    (hshort : q.stop + (optOctets reply.opt rcode).length ≤ q.maxLen)
    (hpos : w.pos = q.stop + (optOctets reply.opt rcode).length)
    (hbuf : w.sink.buf = splice buf q.stop (optOctets reply.opt rcode)) :
    w.close rcode = .ok (q.emptied reply rcode) := by
  have hstop : q.stop = HEADER_LEN + q.question.length := rfl
  have hclose : w.close rcode = .ok (headerOctets { w.header with truncation := w.truncated }
      rcode w.counts ++ (q.question ++ optOctets reply.opt rcode)) := by
    apply ResponseWriter.close_eq
    · rw [List.length_append]
      omega
    · rw [hbuf, length_splice (by omega)]
      omega
    · rw [hpos, hbuf, take_splice_end (by omega), hechoed, List.append_assoc]
  rw [hclose, hheader, htruncated, hcounts]
  rfl

/-- **Closing a complete reply.** -/
theorem ResponseWriter.close_complete {bytes : Octets}
    (hheader : w.header = (reply.message q.request).header) (htruncated : w.truncated = false)
    (hcounts : w.counts = { reply.counts q.request with
      ar := (reply.counts q.request).ar + UInt16.ofNat reply.opt.isSome.toNat })
    (hroom : w.sink.buf.length = q.maxLen) (hfits : q.stop + bytes.length ≤ q.maxLen)
    (hpos : w.pos = q.stop + bytes.length)
    (hbuf : w.sink.buf.take w.pos = List.replicate HEADER_LEN 0 ++ (q.question ++ bytes)) :
    w.close rcode = .ok (q.complete reply rcode bytes) := by
  have hstop : q.stop = HEADER_LEN + q.question.length := rfl
  rw [ResponseWriter.close_eq (by rw [List.length_append]; omega) (by omega) hbuf, hheader,
    htruncated, hcounts]
  rfl

theorem ResponseWriter.attachOptAgain_close (hopt : reply.opt = some edns)
    (hfits : edns.rdata.length ≤ 65535) (hheader : w.header = (reply.message q.request).header)
    (hbody : w.body = q.stop) (hqd : w.counts.qd = UInt16.ofNat q.request.queries.length)
    (hroom : w.sink.buf.length = q.maxLen)
    (hechoed : w.sink.buf.take q.stop = List.replicate HEADER_LEN 0 ++ q.question)
    (hshort : q.stop + (optOctets reply.opt rcode).length ≤ q.maxLen) :
    (w.attachOptAgain edns rcode >>= fun w => w.close rcode) = .ok (q.emptied reply rcode) := by
  have hexec := (writeOpt_emits hfits rcode w.truncate.pos w.truncate.sink.state).done _ rfl
    w.truncate.sink.buf (by
      rw [← hopt]
      simp only [ResponseWriter.truncate, hbody, hroom]
      exact hshort)
  simp only [ResponseWriter.attachOptAgain, hexec, bind, Except.bind]
  refine ResponseWriter.close_emptied hheader rfl ?_ hroom hechoed hshort ?_ ?_
  · simp only [ResponseWriter.truncate, hqd, hopt]
    rfl
  · simp only [ResponseWriter.truncate, hbody, hopt]
  · simp only [ResponseWriter.truncate, hbody, hopt]

/-- **Finishing with an OPT**: it goes after the records, or takes their place. -/
theorem ResponseWriter.Follows.attachOpt_close (h : w.Follows q reply)
    (hopt : reply.opt = some edns) (hfits : edns.rdata.length ≤ 65535)
    (hshort : q.stop + (optOctets reply.opt rcode).length ≤ q.maxLen) :
    (w.attachOpt edns rcode >>= fun w => w.close rcode)
      = .ok (match WirePlan.ending
          (reply.recordsPlan.seq (Plan.octets (optOctets reply.opt rcode))) q.maxLen q.c q.stop with
        | .written bytes _ => q.complete reply rcode bytes
        | _ => q.emptied reply rcode) := by
  have hemits := writeOpt_emits hfits rcode w.pos w.sink.state
  rw [← hopt] at hemits
  rw [WirePlan.ending_seq]
  unfold ResponseWriter.attachOpt
  rcases h.records with ⟨htruncated, hpos, hcounts, hfull⟩ |
    ⟨bytes, htruncated, hpos, hcounts, hbytes, hwritten⟩
  · have hexec := hemits.done _ rfl w.sink.buf (by rw [h.room, hpos]; exact hshort)
    simp only [hfull, Ending.andThen, hexec]
    rw [if_pos (by rw [h.limit, hpos]; exact hshort)]
    refine ResponseWriter.close_emptied h.header htruncated ?_ h.room h.echoed hshort ?_ ?_
    · simp only [hcounts, hopt]
      rfl
    · simp only [hpos]
    · simp only [hpos]
  · have hpos' := (WirePlan.ending_eq_written.mp hwritten).2
    have hqd : w.counts.qd = UInt16.ofNat q.request.queries.length := by rw [hcounts]; rfl
    have hlimit := h.limit
    have hroom := h.room
    simp only [hwritten, Ending.andThen, ending_octets]
    by_cases hroomy : q.stop + bytes.length + (optOctets reply.opt rcode).length ≤ q.maxLen
    · have hexec := hemits.done _ rfl w.sink.buf (by omega)
      simp only [hexec, if_pos hroomy]
      rw [if_pos (by omega)]
      refine ResponseWriter.close_complete h.header htruncated ?_ ?_ ?_ ?_ ?_
      · simp only [hcounts, hopt]
        rfl
      · simp only
        rw [length_splice (by omega), hroom]
      · rw [List.length_append]
        omega
      · simp only [hpos, List.length_append, Nat.add_assoc]
      · simp only
        rw [take_splice_end (by omega), hbytes, List.append_assoc, List.append_assoc]
    · obtain ⟨need, c', buf', hexec, hkept⟩ := hemits.overflows w.sink.buf (by omega) (by omega)
      simp only [hexec, if_neg hroomy]
      refine ResponseWriter.attachOptAgain_close hopt hfits h.header h.body hqd ?_ ?_ hshort
      · exact hkept.1.trans hroom
      · exact (hkept.mono (by omega)).2.trans h.echoed

/-- **Finishing**: the complete reply when the records and the OPT fit, the emptied
one when they do not. -/
theorem ResponseWriter.Follows.finish_eq (h : w.Follows q reply)
    (hrcode : wireRcode reply.rcode reply.opt.isSome = .ok rcode)
    (hopt : ∀ edns, reply.opt = some edns → edns.rdata.length ≤ 65535)
    (hshort : q.stop + (optOctets reply.opt rcode).length ≤ q.maxLen) :
    w.finish = .ok (match WirePlan.ending
        (reply.recordsPlan.seq (Plan.octets (optOctets reply.opt rcode))) q.maxLen q.c q.stop with
      | .written bytes _ => q.complete reply rcode bytes
      | _ => q.emptied reply rcode) := by
  have hsome : w.edns.isSome = reply.opt.isSome := by rw [h.edns, Reply.opt, Option.isSome_map]
  have hrcode' : wireRcode w.header.rcode w.edns.isSome = .ok rcode := by
    rw [h.header, hsome]
    exact hrcode
  unfold ResponseWriter.finish
  rw [hrcode', h.edns, h.extendedError]
  cases hedns : reply.edns with
  | some edns =>
    obtain ⟨edns', hopt', hextended⟩ := opt_eq hedns
    simp only [bind, Except.bind, hextended]
    exact h.attachOpt_close hopt' (hopt edns' hopt') hshort
  | none =>
    have hnone : reply.opt = none := by rw [Reply.opt, hedns, Option.map_none]
    simp only [bind, Except.bind, hnone, optOctets, Plan.seq_octets_nil]
    rcases h.records with ⟨htruncated, hpos, hcounts, hfull⟩ |
      ⟨bytes, htruncated, hpos, hcounts, hbytes, hwritten⟩
    · simp only [hfull]
      refine ResponseWriter.close_emptied h.header htruncated ?_ h.room h.echoed hshort ?_ ?_
      · simp only [hcounts, hnone]
        rfl
      · simp only [hpos, hnone, optOctets]
        rfl
      · simp only [hnone, optOctets, splice_nil]
    · simp only [hwritten]
      refine ResponseWriter.close_complete h.header htruncated ?_ h.room
        (WirePlan.ending_eq_written.mp hwritten).2 hpos ?_
      · simp [hcounts, hnone]
      · rw [hbytes, List.append_assoc]

end Finish

/-! ## The two agree -/

def DnsMessage.SectionsFit (m : DnsMessage) : Prop :=
  m.answers.length ≤ 65535 ∧ m.authorities.length ≤ 65535 ∧
    m.additionals.length + m.edns.isSome.toNat ≤ 65535

instance (m : DnsMessage) : Decidable m.SectionsFit :=
  inferInstanceAs (Decidable (_ ∧ _ ∧ _))

/-- A record that comes before the limit is one the encoder refuses: its RDATA holds
no name where `write_rdata` looks for one. -/
def DnsMessage.RefusedWithin (m : DnsMessage) (maxLen : Nat) : Prop :=
  ∃ e, WirePlan.ending ((Plan.all (m.queries.map queryPlan)).seq (Plan.all (m.records.map rrPlan)))
    maxLen NameCompressor.new HEADER_LEN = .failed e

theorem sectionCount_long {len : Nat} (what : String) (h : ¬ len ≤ 65535) :
    sectionCount len what = .error (.tooLong what 65535 len) :=
  if_pos (by omega)

theorem DnsMessage.counts_eq (hqd : m.queries.length ≤ 65535) (h : m.SectionsFit) :
    m.counts = .ok ⟨UInt16.ofNat m.queries.length, UInt16.ofNat m.answers.length,
      UInt16.ofNat m.authorities.length,
      UInt16.ofNat (m.additionals.length + m.edns.isSome.toNat)⟩ := by
  obtain ⟨han, hns, har⟩ := h
  rw [DnsMessage.counts, sectionCount_ok _ hqd, sectionCount_ok _ han, sectionCount_ok _ hns,
    sectionCount_ok _ har]
  rfl

theorem DnsMessage.counts_error (h : ¬ m.SectionsFit) :
    ∃ what actual, m.counts = .error (.tooLong what 65535 actual) := by
  unfold DnsMessage.SectionsFit at h
  unfold DnsMessage.counts
  by_cases hqd : m.queries.length ≤ 65535
  · rw [sectionCount_ok _ hqd]
    by_cases han : m.answers.length ≤ 65535
    · rw [sectionCount_ok _ han]
      by_cases hns : m.authorities.length ≤ 65535
      · rw [sectionCount_ok _ hns, sectionCount_long _ fun har => h ⟨han, hns, har⟩]
        exact ⟨_, _, rfl⟩
      · rw [sectionCount_long _ hns]
        exact ⟨_, _, rfl⟩
    · rw [sectionCount_long _ han]
      exact ⟨_, _, rfl⟩
  · rw [sectionCount_long _ hqd]
    exact ⟨_, _, rfl⟩

theorem toBytesWithin_uncounted (hrcode : wireRcode m.rcode m.edns.isSome = .ok rcode)
    (h : ¬ m.SectionsFit) (maxLen : Nat) :
    ∃ e, m.toBytesWithin maxLen = .error e := by
  obtain ⟨what, actual, hcounts⟩ := DnsMessage.counts_error h
  have hplan : messagePlan m NameCompressor.new 0 = ([], .error (.tooLong what 65535 actual)) := by
    rw [messagePlan, hrcode, hcounts]
    rfl
  have hending : WirePlan.ending (messagePlan m) maxLen NameCompressor.new 0
      = .failed (.tooLong what 65535 actual) :=
    WirePlan.ending_eq_failed.mpr ⟨[], hplan, Nat.zero_le _, rfl⟩
  exact ⟨_, by rw [toBytesWithin_eq, hending]⟩

section Agree

variable {m : DnsMessage} {rcode : UInt16} {question : Octets} {c : NameCompressor} {maxLen : Nat}
  (hrcode : wireRcode m.rcode m.edns.isSome = .ok rcode)
  (hopt : ∀ edns, m.edns = some edns → edns.rdata.length ≤ 65535)
  (hqd : m.queries.length ≤ 65535)
  (hquestion : Plan.all (m.queries.map queryPlan) NameCompressor.new HEADER_LEN
    = (question, .ok c))

include hrcode hopt hqd hquestion

theorem emptiedBytes_eq (maxLen : Nat) :
    m.emptiedBytes maxLen = .ok (headerOctets { m.header with truncation := true } rcode
        ⟨UInt16.ofNat m.queries.length, 0, 0, UInt16.ofNat m.edns.isSome.toNat⟩
      ++ (question ++ optOctets m.edns rcode)) := by
  have hfit : m.emptied.SectionsFit := by
    refine ⟨Nat.zero_le _, Nat.zero_le _, ?_⟩
    have hbool := m.edns.isSome.toNat_lt
    simp only [DnsMessage.emptied, List.length_nil]
    omega
  have hcounts : m.emptied.counts = .ok ⟨UInt16.ofNat m.queries.length, 0, 0,
      UInt16.ofNat m.edns.isSome.toNat⟩ := by
    have hqd' : m.emptied.queries.length ≤ 65535 := hqd
    rw [DnsMessage.counts_eq hqd' hfit]
    simp [DnsMessage.emptied]
  have hbody : bodyPlan m.emptied rcode NameCompressor.new HEADER_LEN
      = (question ++ optOctets m.edns rcode, .ok c) := by
    have hrest : (Plan.all ([].map rrPlan)).seq (ednsPlan m.edns rcode)
        = Plan.octets (optOctets m.edns rcode) := by
      rw [ednsPlan_eq hopt]
      exact Plan.octets_nil_seq _
    show (Plan.all (m.queries.map queryPlan)).seq ((Plan.all ([].map rrPlan)).seq
      (ednsPlan m.edns rcode)) NameCompressor.new HEADER_LEN = _
    rw [hrest, Plan.seq_ok hquestion]
    rfl
  have hrcode' : wireRcode m.emptied.rcode m.emptied.edns.isSome = .ok rcode := hrcode
  have hplan := messagePlan_ok_iff.mpr ⟨rcode, _, _, hrcode', hcounts, rfl, hbody⟩
  have hbound := messagePlan_length_le m.emptied NameCompressor.new
  rw [hplan] at hbound
  have hending : WirePlan.ending (messagePlan m.emptied)
      (max m.emptied.wireSizeBound (min maxLen CLASSIC_UDP_SIZE)) NameCompressor.new 0
      = .written _ c :=
    WirePlan.ending_eq_written.mpr ⟨hplan, by
      rw [Nat.zero_add]
      exact hbound.trans (Nat.le_max_left ..)⟩
  obtain ⟨out, hout, htake⟩ := toBytes_written hending
  unfold DnsMessage.emptiedBytes
  simp only
  rw [hout]
  simp only [htake]
  rfl

/-- **The serializer, section by section**: when every section can be counted, the
reply is complete, or emptied, or refused, as the records and the OPT end. -/
theorem toBytesWithin_sections (hfit : m.SectionsFit) (hroom : HEADER_LEN + question.length ≤ maxLen) :
    m.toBytesWithin maxLen
      = match WirePlan.ending ((Plan.all (m.records.map rrPlan)).seq
            (Plan.octets (optOctets m.edns rcode))) maxLen c (HEADER_LEN + question.length) with
        | .written bytes _ => .ok (headerOctets m.header rcode
            ⟨UInt16.ofNat m.queries.length, UInt16.ofNat m.answers.length,
              UInt16.ofNat m.authorities.length,
              UInt16.ofNat (m.additionals.length + m.edns.isSome.toNat)⟩ ++ (question ++ bytes))
        | .full => m.emptiedBytes maxLen
        | .failed e => .error e := by
  have hcounts := DnsMessage.counts_eq hqd hfit
  have hwritten : WirePlan.ending (Plan.all (m.queries.map queryPlan)) maxLen NameCompressor.new
      HEADER_LEN = .written question c :=
    WirePlan.ending_eq_written.mpr ⟨hquestion, hroom⟩
  rw [toBytesWithin_eq, messagePlan, hrcode, hcounts]
  simp only [Plan.attempt]
  rw [WirePlan.ending_seq, ending_octets, length_headerOctets, if_pos (by omega)]
  simp only [Ending.andThen, length_headerOctets, Nat.zero_add]
  rw [bodyPlan, ednsPlan_eq hopt, WirePlan.ending_seq, hwritten]
  simp only [Ending.andThen]
  cases WirePlan.ending ((Plan.all (m.records.map rrPlan)).seq
    (Plan.octets (optOctets m.edns rcode))) maxLen c (HEADER_LEN + question.length) <;> rfl

end Agree

def describe (actions : List Action) : Reply := actions.foldl Reply.after Reply.blank

/-- **What a run of the writer leaves**: the complete reply, or the emptied one, or
the error of the record that was refused. -/
theorem writeResponse_eq (hone : request.queries.length ≤ 1) {maxLen : Nat}
    (hmin : CLASSIC_UDP_SIZE ≤ maxLen) {actions : List Action}
    (hrcode : wireRcode (describe actions).rcode (describe actions).opt.isSome = .ok rcode)
    (hopt : (optOctets (describe actions).opt rcode).length ≤ 200)
    (hfits : ∀ edns, (describe actions).opt = some edns → edns.rdata.length ≤ 65535) :
    ∃ q : Question, q.request = request ∧ q.maxLen = maxLen ∧
      Plan.all (request.queries.map queryPlan) NameCompressor.new HEADER_LEN
        = (q.question, .ok q.c) ∧ q.stop ≤ maxLen ∧
      writeResponse request maxLen actions
        = match WirePlan.ending ((describe actions).recordsPlan.seq
            (Plan.octets (optOctets (describe actions).opt rcode))) maxLen q.c q.stop with
          | .written bytes _ => .ok (q.complete (describe actions) rcode bytes)
          | .full => .ok (q.emptied (describe actions) rcode)
          | .failed e => .error e := by
  obtain ⟨question, c, w, hquestion, hstart, hfollows⟩ := start_follows hone hmin
  have hshort := question_short hone NameCompressor.new HEADER_LEN
  rw [hquestion] at hshort
  have hstop : HEADER_LEN + question.length + (optOctets (describe actions).opt rcode).length
      ≤ maxLen := by
    simp only [CLASSIC_UDP_SIZE, HEADER_LEN] at hmin hshort ⊢
    omega
  refine ⟨⟨request, maxLen, question, c⟩, rfl, rfl, hquestion,
    (Nat.le_add_right _ _).trans hstop, ?_⟩
  unfold writeResponse
  rw [hstart]
  have hperformed := hfollows.performAll actions
  rw [show actions.foldl Reply.after Reply.blank = describe actions from rfl] at hperformed
  rcases hperformed with ⟨w', hrun, hend⟩ | ⟨e, hrun, hfailed⟩
  · have hfinish := hend.finish_eq hrcode hfits hstop
    simp only [bind, Except.bind, hrun]
    rw [hfinish]
    -- the run got to its end, so the records were not refused
    have hreached : ∀ e, WirePlan.ending ((describe actions).recordsPlan.seq
        (Plan.octets (optOctets (describe actions).opt rcode))) maxLen c
        (HEADER_LEN + question.length) ≠ .failed e := by
      intro e
      rw [WirePlan.ending_seq]
      rcases hend.records with ⟨-, -, -, hfull⟩ | ⟨bytes, -, -, -, -, hwritten⟩
      · simp only [Question.stop] at hfull
        rw [hfull]
        exact nofun
      · grind [Question.stop, Ending.andThen, ending_octets]
    simp only [Question.stop]
    cases hending : WirePlan.ending ((describe actions).recordsPlan.seq
        (Plan.octets (optOctets (describe actions).opt rcode))) maxLen c
        (HEADER_LEN + question.length) with
    | written bytes c' => rfl
    | full => rfl
    | failed e => exact absurd hending (hreached e)
  · simp only [bind, Except.bind, hrun]
    simp only [Question.stop] at hfailed ⊢
    rw [WirePlan.ending_seq, hfailed]
    rfl

/-- What a caller may ask of a writer: one question at most, the classic 512 octets at
least, records in section order, an RCODE that can be carried, and an OPT of at most
200 octets. -/
structure Answerable (request : DnsMessage) (maxLen : Nat) (actions : List Action) : Prop where
  question : request.queries.length ≤ 1
  limit : CLASSIC_UDP_SIZE ≤ maxLen
  inOrder : (describe actions).InOrder
  rcode : ∃ rcode, wireRcode (describe actions).rcode (describe actions).opt.isSome = .ok rcode
  opt : ∀ edns, (describe actions).opt = some edns → 11 + edns.rdata.length ≤ 200

section Final

variable {request : DnsMessage} {maxLen : Nat} {actions : List Action}

theorem Answerable.run (h : Answerable request maxLen actions) :
    ∃ rcode question c,
      wireRcode (describe actions).rcode (describe actions).opt.isSome = .ok rcode ∧
      Plan.all (request.queries.map queryPlan) NameCompressor.new HEADER_LEN
        = (question, .ok c) ∧ HEADER_LEN + question.length ≤ maxLen ∧
      writeResponse request maxLen actions
        = match WirePlan.ending ((Plan.all (((describe actions).message request).records.map
              rrPlan)).seq (Plan.octets (optOctets (describe actions).opt rcode))) maxLen c
              (HEADER_LEN + question.length) with
          | .written bytes _ => .ok (Question.complete ⟨request, maxLen, question, c⟩
              (describe actions) rcode bytes)
          | .full => .ok (Question.emptied ⟨request, maxLen, question, c⟩ (describe actions) rcode)
          | .failed e => .error e := by
  obtain ⟨rcode, hrcode⟩ := h.rcode
  have hshort : (optOctets (describe actions).opt rcode).length ≤ 200 := by
    cases hopt : (describe actions).opt with
    | none => exact Nat.zero_le _
    | some edns =>
      rw [length_optOctets]
      exact h.opt edns hopt
  obtain ⟨⟨_, _, question, c⟩, rfl, rfl, hquestion, hstop, hrun⟩ :=
    writeResponse_eq h.question h.limit hrcode hshort
      fun edns hopt => by have := h.opt edns hopt; omega
  refine ⟨rcode, question, c, hrcode, hquestion, hstop, ?_⟩
  rw [Reply.records_message h.inOrder, hrun]
  rfl

/-- **With countable sections the writer is the serializer**: the same octets, the
same truncation, the same error. -/
theorem Answerable.writeResponse_eq_toBytesWithin (h : Answerable request maxLen actions)
    (hfit : ((describe actions).message request).SectionsFit) :
    writeResponse request maxLen actions
      = ((describe actions).message request).toBytesWithin maxLen := by
  obtain ⟨rcode, question, c, hrcode, hquestion, hroom, hrun⟩ := h.run
  have hopt : ∀ edns, ((describe actions).message request).edns = some edns →
      edns.rdata.length ≤ 65535 := fun edns hedns => by have := h.opt edns hedns; omega
  have hqd : ((describe actions).message request).queries.length ≤ 65535 :=
    h.question.trans (by omega)
  rw [hrun, toBytesWithin_sections hrcode hopt hqd hquestion hfit hroom,
    emptiedBytes_eq hrcode hopt hqd hquestion,
    show ((describe actions).message request).edns = (describe actions).opt from rfl]
  cases WirePlan.ending ((Plan.all (((describe actions).message request).records.map
    rrPlan)).seq (Plan.octets (optOctets (describe actions).opt rcode))) maxLen c
    (HEADER_LEN + question.length) with
  | written bytes c' =>
    simp only [Question.complete, Reply.counts, ← UInt16.ofNat_add]
    rfl
  | full => rfl
  | failed e => rfl

theorem Answerable.writeResponse_error_iff (h : Answerable request maxLen actions) :
    (∃ e, writeResponse request maxLen actions = .error e) ↔
      ((describe actions).message request).RefusedWithin maxLen := by
  obtain ⟨rcode, question, c, -, hquestion, hroom, hrun⟩ := h.run
  have hwritten : WirePlan.ending (Plan.all (request.queries.map queryPlan)) maxLen
      NameCompressor.new HEADER_LEN = .written question c :=
    WirePlan.ending_eq_written.mpr ⟨hquestion, hroom⟩
  unfold DnsMessage.RefusedWithin
  rw [hrun, WirePlan.ending_seq, WirePlan.ending_seq]
  rw [show ((describe actions).message request).queries = request.queries from rfl, hwritten]
  simp only [Ending.andThen, ending_octets]
  cases WirePlan.ending (Plan.all (((describe actions).message request).records.map rrPlan))
    maxLen c (HEADER_LEN + question.length) with
  | written bytes c' => grind
  | full => simp
  | failed e => simp

/-- **The streaming writer refines build-then-serialize**, on every answerable request
and every run of actions — unless a section holds more than 65535 records, none of
which is refused before the limit: the writer truncates such a reply, the serializer
fails on it. -/
theorem writeResponse_agrees_iff (h : Answerable request maxLen actions) :
    (∀ bytes, writeResponse request maxLen actions = .ok bytes ↔
      ((describe actions).message request).toBytesWithin maxLen = .ok bytes) ↔
    ((describe actions).message request).SectionsFit ∨
      ((describe actions).message request).RefusedWithin maxLen := by
  obtain ⟨rcode, hrcode⟩ := h.rcode
  constructor
  · intro hagree
    by_contra hneither
    obtain ⟨hlong, hwritable⟩ := not_or.mp hneither
    obtain ⟨e, hfails⟩ := toBytesWithin_uncounted hrcode hlong maxLen
    cases hrun : writeResponse request maxLen actions with
    | error e => exact hwritable (h.writeResponse_error_iff.mp ⟨e, hrun⟩)
    | ok bytes =>
      have hsame := (hagree bytes).mp hrun
      rw [hfails] at hsame
      cases hsame
  · intro hcase bytes
    by_cases hfit : ((describe actions).message request).SectionsFit
    · rw [h.writeResponse_eq_toBytesWithin hfit]
    · obtain ⟨e, hfails⟩ := toBytesWithin_uncounted hrcode hfit maxLen
      obtain ⟨e', hrun⟩ := h.writeResponse_error_iff.mpr (hcase.resolve_left hfit)
      rw [hrun, hfails]
      exact ⟨nofun, nofun⟩

end Final

def rootAddress : ResourceRecord :=
  ⟨Name.root, Class.IN, ⟨0⟩, ⟨RecordTypes.A, [192, 0, 2, 1]⟩⟩

def addresses (n : Nat) : List Action := List.replicate n (.push .answer rootAddress)

theorem describe_addresses (n : Nat) :
    describe (addresses n)
      = { Reply.blank with pushed := List.replicate n (Section.answer, rootAddress) } := by
  have hpush : ∀ (n : Nat) (reply : Reply), (addresses n).foldl Reply.after reply
      = { reply with pushed := reply.pushed ++ List.replicate n (Section.answer, rootAddress) } := by
    intro n
    induction n with
    | zero => intro reply; simp [addresses]
    | succ n ih =>
      intro reply
      rw [addresses, List.replicate_succ, List.foldl_cons, ← addresses, ih, List.replicate_succ]
      simp [Reply.after]
  rw [describe, hpush]
  rfl

theorem length_answers_addresses (n : Nat) (request : DnsMessage) :
    ((describe (addresses n)).message request).answers.length = n := by
  simp [Reply.message, Reply.recordsIn, describe_addresses]

theorem addresses_answerable (n : Nat) : Answerable (nestedQueries 1) CLASSIC_UDP_SIZE
    (addresses n) where
  question := Nat.le_refl 1
  limit := Nat.le_refl _
  inOrder := by
    rw [describe_addresses, Reply.InOrder]
    exact List.pairwise_replicate.mpr (.inr (Nat.le_refl _))
  rcode := by
    rw [describe_addresses]
    exact ⟨0, rfl⟩
  opt := by
    rw [describe_addresses]
    exact fun edns h => by cases h

theorem DnsMessage.not_refused
    (h : ∀ rr ∈ m.records, rr.rdata.Writable ∧ rr.rdata.rdata.length ≤ 65535) (maxLen : Nat) :
    ¬ m.RefusedWithin maxLen := by
  rintro ⟨e, hending⟩
  obtain ⟨bytes, hplan, -, -⟩ := WirePlan.ending_eq_failed.mp hending
  obtain ⟨question, c, hquestion⟩ := queriesPlan_ok m.queries NameCompressor.new HEADER_LEN
  rw [Plan.seq_ok hquestion] at hplan
  obtain ⟨rr, hrr, c', pos, herror⟩ := Plan.all_error (congrArg Prod.snd hplan)
  obtain ⟨hwritable, hshort⟩ := h rr hrr
  exact absurd (rrPlan_error hwritable herror).1 (by omega)

theorem addresses_written (n : Nat) :
    ∃ bytes, writeResponse (nestedQueries 1) CLASSIC_UDP_SIZE (addresses n) = .ok bytes := by
  have h := addresses_answerable n
  have hrecords : ∀ rr ∈ ((describe (addresses n)).message (nestedQueries 1)).records,
      rr = rootAddress := by
    rw [Reply.records_message h.inOrder, describe_addresses, List.map_replicate]
    exact fun rr hrr => List.eq_of_mem_replicate hrr
  cases hrun : writeResponse (nestedQueries 1) CLASSIC_UDP_SIZE (addresses n) with
  | ok bytes => exact ⟨bytes, rfl⟩
  | error e =>
    refine absurd (h.writeResponse_error_iff.mp ⟨e, hrun⟩) (DnsMessage.not_refused ?_ _)
    intro rr hrr
    rw [hrecords rr hrr]
    exact ⟨RecordData.writable_of_plain (by decide), by decide⟩

theorem writeResponse_twoAddresses :
    ∃ bytes, writeResponse (nestedQueries 1) CLASSIC_UDP_SIZE (addresses 2) = .ok bytes ∧
      ((describe (addresses 2)).message (nestedQueries 1)).toBytesWithin CLASSIC_UDP_SIZE
        = .ok bytes := by
  obtain ⟨bytes, hrun⟩ := addresses_written 2
  have hfit : ((describe (addresses 2)).message (nestedQueries 1)).SectionsFit := by decide +kernel
  exact ⟨bytes, hrun, ((writeResponse_agrees_iff (addresses_answerable 2)).mpr
    (.inl hfit) bytes).mp hrun⟩

theorem addresses_uncounted {n : Nat} (hn : 65535 < n) :
    ∃ e, ((describe (addresses n)).message (nestedQueries 1)).toBytesWithin CLASSIC_UDP_SIZE
      = .error e := by
  obtain ⟨rcode, hrcode⟩ := (addresses_answerable n).rcode
  refine toBytesWithin_uncounted hrcode (fun hfit => ?_) _
  have hlen := hfit.1
  rw [length_answers_addresses] at hlen
  omega

/-- **A section too long to count**: the writer truncates the reply, the serializer
fails. -/
theorem crowdedReply_disagrees :
    (∃ bytes, writeResponse (nestedQueries 1) CLASSIC_UDP_SIZE (addresses 65536) = .ok bytes) ∧
      ∃ e, ((describe (addresses 65536)).message (nestedQueries 1)).toBytesWithin CLASSIC_UDP_SIZE
        = .error e :=
  ⟨addresses_written 65536, addresses_uncounted (by omega)⟩

end Rdns.Core
