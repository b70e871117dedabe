import Rdns.Resolver.DotConnection

/-!
# Rdns — Pipelined exchanges do not disturb each other

Two things free an ID: the reader when it delivers, and the exchange's guard when the exchange ends.
Between the two another exchange can take the ID, and the guard then takes its entry away. And an ID
that a timed-out exchange gave back can be taken while the reply to it is still on the way.

As long as no registration takes an ID between the two, or one that another question held before,
none of this happens. That it takes none that is waited under is its own doing (`Inv.free`).

Main results:

* `undisturbed` — exchanges do not disturb each other, while no ID is freed too early.
-/

namespace Rdns.Resolver.Dot

open Rdns.Lib Rdns.Core

/-! ## What a step does -/

def OutgoingQuery.pending (out : OutgoingQuery) (exchange : Nat) : Pending :=
  ⟨out.qname, out.qtype, out.qclass, exchange⟩

inductive Went (s : System) : Action → System → Prop where
  | quiet {a : Action} {s' : System} (pending : s'.conn.pending = s.conn.pending)
      (closed : s'.conn.closed = s.conn.closed) (exchanges : s'.exchanges = s.exchanges)
      (broken : ∀ frame now, a = .deliver frame now → s'.reader ≠ .reading →
        ∀ msg, DnsMessage.tryFromBytes frame = .ok msg →
          ∃ p, s.conn.pending.get msg.id = some p ∧ asks msg p.qname p.qtype p.qclass = false) :
      Went s a s'
  | registered {out : OutgoingQuery} {now : Nat} {randoms : List UInt16} {id : UInt16} {s' : System}
      (isOpen : s.conn.closed = false) (taken : takeId s.conn.pending out.id (randoms.take 64) = some id)
      (pending : s'.conn.pending = s.conn.pending.insert id (out.pending s.exchanges.length))
      (closed : s'.conn.closed = s.conn.closed)
      (exchanges : s'.exchanges = s.exchanges ++ [⟨out, id, false, .waiting, false⟩]) :
      Went s (.register out now randoms) s'
  | sent {i : Nat} {s' : System} (pending : s'.conn.pending = s.conn.pending)
      (closed : s'.conn.closed = s.conn.closed)
      (exchanges : s'.exchanges =
        (s.update fun j e => if j = i then { e with sent := true } else e).exchanges) :
      Went s (.send i) s'
  | finished {a : Action} {i : Nat} {e : Exchange} {s' : System} (at_i : s.exchanges[i]? = some e)
      (live : e.ended = false) (pending : s'.conn.pending = s.conn.pending.remove e.id)
      (closed : s'.conn.closed = s.conn.closed) (exchanges : s'.exchanges = (s.finish i e).exchanges)
      (not_deliver : ∀ frame now, a ≠ .deliver frame now) : Went s a s'
  | delivered {frame : Octets} {now : Nat} {msg : DnsMessage} {p : Pending} {s' : System}
      (read : DnsMessage.tryFromBytes frame = .ok msg) (found : s.conn.pending.get msg.id = some p)
      (asked : asks msg p.qname p.qtype p.qclass = true)
      (pending : s'.conn.pending = s.conn.pending.remove msg.id) (closed : s'.conn.closed = s.conn.closed)
      (exchanges : s'.exchanges =
        (s.update fun j e => if j = p.reply then { e with reply := .answered frame } else e).exchanges)
      (reading : s'.reader = .reading) : Went s (.deliver frame now) s'
  | shut {s' : System} (pending : s'.conn.pending = []) (closed : s'.conn.closed = true)
      (exchanges : s'.exchanges = (s.drop s.conn.pending).exchanges) : Went s .close s'

variable {s s' : System}

theorem unfinished_eq_some {i : Nat} {ready : Exchange → Bool} {e : Exchange}
    (h : s.unfinished i ready = some e) : s.exchanges[i]? = some e ∧ e.ended = false := by
  obtain ⟨hat, hready⟩ := Option.filter_eq_some_iff.mp h
  rw [Bool.and_eq_true, Bool.not_eq_true'] at hready
  exact ⟨hat, hready.1⟩

theorem Went.of_deliver {frame : Octets} {now : Nat} (h : s.step (.deliver frame now) = some s') :
    Went s (.deliver frame now) s' := by
  rw [System.step] at h
  split at h
  case isTrue => cases h
  case isFalse hreading =>
    rw [State.deliver] at h
    cases hread : DnsMessage.tryFromBytes frame with
    | error e =>
      rw [hread] at h
      cases h
      refine .quiet rfl rfl rfl fun frame' now' ha _ msg hmsg => ?_
      cases ha
      rw [hread] at hmsg
      cases hmsg
    | ok msg =>
      rw [hread] at h
      simp only at h
      cases hfound : s.conn.pending.get msg.id with
      | none =>
        rw [hfound] at h
        cases h
        exact .quiet rfl rfl rfl fun frame' now' _ hstop => absurd (not_not.mp hreading) hstop
      | some p =>
        rw [hfound] at h
        simp only at h
        by_cases hasks : asks msg p.qname p.qtype p.qclass = true
        · rw [if_pos hasks] at h
          cases h
          exact .delivered hread hfound hasks rfl rfl rfl (not_not.mp hreading)
        · rw [if_neg hasks] at h
          cases h
          refine .quiet rfl rfl rfl fun frame' now' ha _ msg' hmsg => ?_
          cases ha
          cases hread.symm.trans hmsg
          exact ⟨p, hfound, Bool.not_eq_true _ ▸ hasks⟩

/-- **What a step does.** -/
theorem step_went {a : Action} (h : s.step a = some s') : Went s a s' := by
  cases a with
  | register out now randoms =>
    rw [System.step, State.register] at h
    cases hclosed : s.conn.closed with
    | true =>
      rw [hclosed] at h
      cases h
      exact .quiet rfl rfl rfl fun _ _ ha => by cases ha
    | false =>
      rw [hclosed] at h
      cases hid : takeId s.conn.pending out.id (randoms.take 64) with
      | none =>
        rw [hid] at h
        cases h
        exact .quiet rfl rfl rfl fun _ _ ha => by cases ha
      | some id =>
        rw [hid] at h
        cases h
        exact .registered hclosed hid rfl hclosed.symm rfl
  | send i =>
    obtain ⟨e, -, h⟩ := Option.bind_eq_some_iff.mp h
    cases h
    exact .sent rfl rfl rfl
  | sendFailed i =>
    obtain ⟨e, he, h⟩ := Option.bind_eq_some_iff.mp h
    cases h
    obtain ⟨hat, hlive⟩ := unfinished_eq_some he
    exact .finished hat hlive rfl rfl rfl fun _ _ ha => by cases ha
  | resume i =>
    obtain ⟨e, he, h⟩ := Option.bind_eq_some_iff.mp h
    cases h
    obtain ⟨hat, hlive⟩ := unfinished_eq_some he
    exact .finished hat hlive rfl rfl rfl fun _ _ ha => by cases ha
  | timeOut i =>
    obtain ⟨e, he, h⟩ := Option.bind_eq_some_iff.mp h
    cases h
    obtain ⟨hat, hlive⟩ := unfinished_eq_some he
    exact .finished hat hlive rfl rfl rfl fun _ _ ha => by cases ha
  | deliver frame now => exact .of_deliver h
  | idle now =>
    rw [System.step] at h
    split at h
    case isTrue => cases h
    case isFalse =>
      have hsame : (s.conn.idleCheck now).2.pending = s.conn.pending ∧
          (s.conn.idleCheck now).2.closed = s.conn.closed := by
        rw [State.idleCheck]
        split <;> exact ⟨rfl, rfl⟩
      cases hcheck : s.conn.idleCheck now with
      | mk deadline conn =>
        rw [hcheck] at h hsame
        cases deadline <;>
        · cases h
          exact .quiet hsame.1 hsame.2 rfl fun _ _ ha => by cases ha
  | told =>
    rw [System.step] at h
    split at h
    case isTrue =>
      cases h
      exact .quiet rfl rfl rfl fun _ _ ha => by cases ha
    case isFalse => cases h
  | streamEnded =>
    rw [System.step] at h
    split at h
    case isTrue =>
      cases h
      exact .quiet rfl rfl rfl fun _ _ ha => by cases ha
    case isFalse => cases h
  | close =>
    rw [System.step] at h
    split at h
    case isTrue =>
      cases h
      exact .shut rfl rfl rfl
    case isFalse => cases h

/-! ## Questions -/

def OutgoingQuery.SameQuestion (a b : OutgoingQuery) : Prop :=
  a.qname.same b.qname = true ∧ a.qtype = b.qtype ∧ a.qclass = b.qclass

def Answers (frame : Octets) (e : Exchange) : Prop :=
  ∃ msg, DnsMessage.tryFromBytes frame = .ok msg ∧ msg.id = e.id ∧
    asks msg e.out.qname e.out.qtype e.out.qclass = true

theorem asks_congr {a b : OutgoingQuery} (h : a.SameQuestion b) (msg : DnsMessage) :
    asks msg a.qname a.qtype a.qclass = asks msg b.qname b.qtype b.qclass := by
  obtain ⟨hname, htype, hclass⟩ := h
  rw [asks, asks, htype, hclass]
  refine congrArg (fun ask => Option.any ask msg.queries.head?) (funext fun q => ?_)
  have hsame : q.qname.same a.qname = q.qname.same b.qname := by
    rw [Bool.eq_iff_iff, Name.same_iff, Name.same_iff, Name.same_iff.mp hname]
  rw [hsame]

/-! ## The invariant -/

structure Inv (s : System) : Prop where
  entry : ∀ (id : UInt16) (p : Pending), (id, p) ∈ s.conn.pending →
    ∃ e : Exchange, s.exchanges[p.reply]? = some e ∧ e.ended = false ∧ e.reply = .waiting ∧ e.id = id ∧
      p = e.out.pending p.reply
  held : s.conn.closed = false → ∀ (i : Nat) (e : Exchange), s.exchanges[i]? = some e →
    e.ended = false → e.reply = .waiting → s.conn.pending.get e.id = some (e.out.pending i)
  apart : ∀ (i j : Nat) (e f : Exchange), s.exchanges[i]? = some e → s.exchanges[j]? = some f →
    e.ended = false → f.ended = false → e.id = f.id → i = j
  lost : ∀ (i : Nat) (e : Exchange), s.exchanges[i]? = some e → e.ended = false → e.reply = .dropped →
    s.conn.closed = true
  past : ∀ (i j : Nat) (e f : Exchange), s.exchanges[i]? = some e → s.exchanges[j]? = some f →
    e.ended = true → f.ended = false → e.id = f.id → e.out.SameQuestion f.out

theorem inv_start (now : Nat) : Inv (.start now) where
  entry _ _ h := absurd h List.not_mem_nil
  held _ i e h := by cases h
  apart i j e f h := by cases h
  lost i e h := by cases h
  past i j e f h := by cases h

def Reply.isAnswered : Reply → Bool
  | .answered _ => true
  | _ => false

/-- **The ID a registration takes was not freed too early**: no unfinished exchange has it that was
handed its reply, and those that ended with it asked the same question. That no exchange waits
under it the registration sees to itself. -/
def FreshId (s : System) : Action → Prop
  | .register out _ randoms => ∀ id ∈ takeId s.conn.pending out.id (randoms.take 64), ∀ e ∈ s.exchanges,
      e.id = id → (e.ended = true → e.out.SameQuestion out) ∧ (e.ended = false → e.reply.isAnswered = false)
  | _ => True

section Exchanges

variable {s : System}

theorem getElem?_update (change : Nat → Exchange → Exchange) (i : Nat) :
    (s.update change).exchanges[i]? = s.exchanges[i]?.map (change i) := List.getElem?_mapIdx

theorem getElem?_drop (entries : Entries UInt16 Pending) (i : Nat) :
    (s.drop entries).exchanges[i]? =
      s.exchanges[i]?.map fun e => if entries.any fun entry => entry.2.reply = i then e.lose else e :=
  getElem?_update _ i

/-- **An exchange that ends leaves the others as they are**, for the entries under its ID are its
own. -/
theorem getElem?_finish (h : Inv s) {i : Nat} {e : Exchange} (he : s.exchanges[i]? = some e)
    (hlive : e.ended = false) (j : Nat) :
    (j ≠ i → (s.finish i e).exchanges[j]? = s.exchanges[j]?) ∧
      ∃ f, (s.finish i e).exchanges[i]? = some f ∧ f.ended = true ∧ f.id = e.id ∧ f.out = e.out ∧
        (f.reply = e.reply ∨ f.reply = .dropped) := by
  have hback : ∀ k : Nat, (s.giveBack e.id).exchanges[k]? =
      (s.drop (s.conn.pending.filter fun entry => entry.1 = e.id)).exchanges[k]? := fun k => rfl
  have hothers : ∀ k : Nat, k ≠ i →
      ((s.conn.pending.filter fun entry => entry.1 = e.id).any fun entry => entry.2.reply = k) = false := by
    intro k hk
    rw [List.any_eq_false]
    intro entry hentry
    obtain ⟨hmem, hid⟩ := List.mem_filter.mp hentry
    obtain ⟨f, hf, hflive, -, hfid, -⟩ := h.entry entry.1 entry.2 hmem
    have hat := h.apart _ _ f e hf he hflive hlive (hfid.trans (of_decide_eq_true hid))
    simpa using fun heq => hk (heq.symm.trans hat)
  constructor
  · intro hj
    rw [System.finish, getElem?_update, hback, getElem?_drop, hothers j hj, Option.map_map]
    cases s.exchanges[j]? with
    | none => rfl
    | some f => grind
  · rw [System.finish, getElem?_update, hback, getElem?_drop, he, Option.map_some, Option.map_some, if_pos rfl]
    refine ⟨_, rfl, rfl, ?_⟩
    split
    · refine ⟨rfl, rfl, ?_⟩
      rw [Exchange.lose]
      by_cases hwaiting : e.reply = .waiting
      · exact .inr (if_pos hwaiting)
      · exact .inl (if_neg hwaiting)
    · exact ⟨rfl, rfl, .inl rfl⟩

end Exchanges

/-! ## The invariant holds of every run -/

section Steps

variable {s s' : System}

theorem Inv.quiet (h : Inv s) (hpending : s'.conn.pending = s.conn.pending)
    (hclosed : s'.conn.closed = s.conn.closed) (hexchanges : s'.exchanges = s.exchanges) : Inv s' where
  entry := by
    rw [hpending, hexchanges]
    exact h.entry
  held := by
    rw [hclosed, hpending, hexchanges]
    exact h.held
  apart := by
    rw [hexchanges]
    exact h.apart
  lost := by
    rw [hclosed, hexchanges]
    exact h.lost
  past := by
    rw [hexchanges]
    exact h.past

structure Exchange.Like (e f : Exchange) : Prop where
  out : f.out = e.out
  id : f.id = e.id
  reply : f.reply = e.reply
  ended : f.ended = e.ended

theorem Inv.like (h : Inv s) (hpending : s'.conn.pending = s.conn.pending)
    (hclosed : s'.conn.closed = s.conn.closed) {change : Nat → Exchange → Exchange}
    (hchange : ∀ (i : Nat) (e : Exchange), e.Like (change i e)) (hexchanges : s'.exchanges = (s.update change).exchanges) :
    Inv s' := by
  have hback : ∀ {i : Nat} {f : Exchange}, s'.exchanges[i]? = some f →
      ∃ e, s.exchanges[i]? = some e ∧ f = change i e := by
    intro i f hf
    rw [hexchanges, getElem?_update] at hf
    obtain ⟨e, he, rfl⟩ := Option.map_eq_some_iff.mp hf
    exact ⟨e, he, rfl⟩
  refine ⟨?_, ?_, ?_, ?_, ?_⟩
  · intro id p hp
    rw [hpending] at hp
    obtain ⟨e, he, hlive, hwaiting, hid, hpend⟩ := h.entry id p hp
    have hlike := hchange p.reply e
    refine ⟨change p.reply e, ?_, hlike.ended.trans hlive, hlike.reply.trans hwaiting, hlike.id.trans hid, ?_⟩
    · rw [hexchanges, getElem?_update, he]
      rfl
    · rwa [hlike.out]
  · intro hopen i f hf hlive hwaiting
    obtain ⟨e, he, rfl⟩ := hback hf
    have hlike := hchange i e
    rw [hpending, hlike.id, hlike.out]
    exact h.held (hclosed ▸ hopen) i e he (hlike.ended ▸ hlive) (hlike.reply ▸ hwaiting)
  · intro i j f g hf hg hflive hglive hid
    obtain ⟨e, he, rfl⟩ := hback hf
    obtain ⟨d, hd, rfl⟩ := hback hg
    have hlike := hchange i e
    have hlike' := hchange j d
    exact h.apart i j e d he hd (hlike.ended ▸ hflive) (hlike'.ended ▸ hglive)
      ((hlike.id.symm.trans hid).trans hlike'.id)
  · intro i f hf hlive hdropped
    obtain ⟨e, he, rfl⟩ := hback hf
    have hlike := hchange i e
    exact hclosed.trans (h.lost i e he (hlike.ended ▸ hlive) (hlike.reply ▸ hdropped))
  · intro i j f g hf hg hended hlive hid
    obtain ⟨e, he, rfl⟩ := hback hf
    obtain ⟨d, hd, rfl⟩ := hback hg
    have hlike := hchange i e
    have hlike' := hchange j d
    rw [hlike.out, hlike'.out]
    exact h.past i j e d he hd (hlike.ended ▸ hended) (hlike'.ended ▸ hlive)
      ((hlike.id.symm.trans hid).trans hlike'.id)

variable {id : UInt16} {randoms : List UInt16}

theorem takeId_free {pending : Entries UInt16 Pending} {id' : UInt16}
    (h : takeId pending id randoms = some id') : pending.get id' = none := by
  induction randoms generalizing id with
  | nil =>
    rw [takeId] at h
    split at h
    case isTrue => cases h
    case isFalse hfree =>
      cases h
      exact Option.not_isSome_iff_eq_none.mp hfree
  | cons random rest ih =>
    rw [takeId] at h
    split at h
    case isTrue => exact ih h
    case isFalse hfree =>
      cases h
      exact Option.not_isSome_iff_eq_none.mp hfree

/-- **A registration takes no ID that is waited under**: those are in the pending table. -/
theorem Inv.free (h : Inv s) {out : OutgoingQuery} {now : Nat} (hopen : s.conn.closed = false)
    (htaken : takeId s.conn.pending out.id (randoms.take 64) = some id)
    (hfresh : FreshId s (.register out now randoms)) :
    ∀ e ∈ s.exchanges, e.id = id → e.ended = true ∧ e.out.SameQuestion out := by
  intro e he hid
  obtain ⟨hsame, hanswered⟩ := hfresh id htaken e he hid
  obtain ⟨i, hi, rfl⟩ := List.getElem_of_mem he
  have hat := List.getElem?_eq_getElem hi
  cases hended : s.exchanges[i].ended with
  | true => exact ⟨rfl, hsame hended⟩
  | false =>
    exfalso
    cases hreply : s.exchanges[i].reply with
    | waiting =>
      have hheld := h.held hopen i _ hat hended hreply
      rw [hid, takeId_free htaken] at hheld
      cases hheld
    | dropped =>
      have hclosed := h.lost i _ hat hended hreply
      rw [hopen] at hclosed
      cases hclosed
    | answered frame =>
      have hnot := hanswered hended
      rw [hreply] at hnot
      cases hnot

/-- **A registration with a fresh ID keeps the invariant.** -/
theorem Inv.registered (h : Inv s) {out : OutgoingQuery} (hopen : s.conn.closed = false)
    (htaken : takeId s.conn.pending out.id (randoms.take 64) = some id)
    (hfresh : ∀ e ∈ s.exchanges, e.id = id → e.ended = true ∧ e.out.SameQuestion out)
    (hpending : s'.conn.pending = s.conn.pending.insert id (out.pending s.exchanges.length))
    (hclosed : s'.conn.closed = s.conn.closed)
    (hexchanges : s'.exchanges = s.exchanges ++ [⟨out, id, false, .waiting, false⟩]) : Inv s' := by
  have hfree := takeId_free htaken
  have hold : ∀ {i : Nat} {e : Exchange}, s.exchanges[i]? = some e → s'.exchanges[i]? = some e := by
    intro i e he
    have hlt := (List.getElem?_eq_some_iff.mp he).1
    rw [hexchanges, List.getElem?_append_left hlt, he]
  have hnew : s'.exchanges[s.exchanges.length]? = some ⟨out, id, false, .waiting, false⟩ := by
    rw [hexchanges, List.getElem?_concat_length]
  have hcases : ∀ {i : Nat} {e : Exchange}, s'.exchanges[i]? = some e →
      s.exchanges[i]? = some e ∨ (i = s.exchanges.length ∧ e = ⟨out, id, false, .waiting, false⟩) := by
    intro i e he
    rcases Nat.lt_trichotomy i s.exchanges.length with hlt | rfl | hgt
    · rw [hexchanges, List.getElem?_append_left hlt] at he
      exact .inl he
    · exact .inr ⟨rfl, Option.some.inj (he.symm.trans hnew)⟩
    · rw [hexchanges, List.getElem?_eq_none (by rw [List.length_append, List.length_singleton]; omega)] at he
      cases he
  refine ⟨?_, ?_, ?_, ?_, ?_⟩
  · intro id' p hp
    rw [hpending] at hp
    rcases Entries.mem_insert.mp hp with ⟨rfl, rfl⟩ | ⟨hp, -⟩
    · exact ⟨_, hnew, rfl, rfl, rfl, rfl⟩
    · obtain ⟨e, he, hrest⟩ := h.entry id' p hp
      exact ⟨e, hold he, hrest⟩
  · intro _ i e he hlive hwaiting
    rw [hpending, Entries.get_insert]
    rcases hcases he with he | ⟨rfl, rfl⟩
    · have hheld := h.held hopen i e he hlive hwaiting
      have hne : e.id ≠ id := by grind
      rw [if_neg hne, hheld]
    · rw [if_pos rfl]
  · intro i j e f he hf helive hflive hid
    rcases hcases he with he | ⟨rfl, rfl⟩
    · rcases hcases hf with hf | ⟨rfl, rfl⟩
      · exact h.apart i j e f he hf helive hflive hid
      · have hended := (hfresh e (List.mem_of_getElem? he) hid).1
        rw [helive] at hended
        cases hended
    · rcases hcases hf with hf | ⟨rfl, rfl⟩
      · have hended := (hfresh f (List.mem_of_getElem? hf) hid.symm).1
        rw [hflive] at hended
        cases hended
      · rfl
  · intro i e he hlive hdropped
    rcases hcases he with he | ⟨rfl, rfl⟩
    · exact hclosed.trans (h.lost i e he hlive hdropped)
    · cases hdropped
  · intro i j e f he hf hended hlive hid
    rcases hcases he with he | ⟨rfl, rfl⟩
    · rcases hcases hf with hf | ⟨rfl, rfl⟩
      · exact h.past i j e f he hf hended hlive hid
      · exact (hfresh e (List.mem_of_getElem? he) hid).2
    · cases hended

/-- **An exchange that ends keeps the invariant.** -/
theorem Inv.finished (h : Inv s) {i : Nat} {e : Exchange} (he : s.exchanges[i]? = some e)
    (hlive : e.ended = false) (hpending : s'.conn.pending = s.conn.pending.remove e.id)
    (hclosed : s'.conn.closed = s.conn.closed) (hexchanges : s'.exchanges = (s.finish i e).exchanges) :
    Inv s' := by
  have hother : ∀ {j : Nat}, j ≠ i → s'.exchanges[j]? = s.exchanges[j]? := by
    intro j hj
    rw [hexchanges]
    exact (getElem?_finish h he hlive j).1 hj
  obtain ⟨-, f, hf, hended, hid, hout, -⟩ := getElem?_finish h he hlive i
  rw [← hexchanges] at hf
  -- what has not ended now is another exchange, and as it was
  have hliveNow : ∀ {j : Nat} {g : Exchange}, s'.exchanges[j]? = some g → g.ended = false →
      j ≠ i ∧ s.exchanges[j]? = some g := by
    intro j g hg hglive
    have hj : j ≠ i := by grind
    exact ⟨hj, hother hj ▸ hg⟩
  have hidNe : ∀ {j : Nat} {g : Exchange}, s.exchanges[j]? = some g → g.ended = false → j ≠ i → g.id ≠ e.id :=
    fun hg hglive hj heq => hj (h.apart _ _ _ _ hg he hglive hlive heq)
  refine ⟨?_, ?_, ?_, ?_, ?_⟩
  · intro id p hp
    rw [hpending] at hp
    obtain ⟨hmem, hne⟩ := List.mem_filter.mp hp
    obtain ⟨g, hg, hglive, hgwaiting, hgid, hpend⟩ := h.entry id p hmem
    have hj : p.reply ≠ i := by grind
    exact ⟨g, (hother hj).trans hg, hglive, hgwaiting, hgid, hpend⟩
  · intro hopen j g hg hglive hgwaiting
    obtain ⟨hj, hg⟩ := hliveNow hg hglive
    rw [hpending, Entries.get_remove, if_neg (hidNe hg hglive hj)]
    exact h.held (hclosed ▸ hopen) j g hg hglive hgwaiting
  · intro j k g g' hg hg' hglive hglive' hgid
    obtain ⟨-, hg⟩ := hliveNow hg hglive
    obtain ⟨-, hg'⟩ := hliveNow hg' hglive'
    exact h.apart j k g g' hg hg' hglive hglive' hgid
  · intro j g hg hglive hdropped
    obtain ⟨-, hg⟩ := hliveNow hg hglive
    exact hclosed.trans (h.lost j g hg hglive hdropped)
  · intro j k g g' hg hg' hgended hglive' hgid
    obtain ⟨hk, hg'⟩ := hliveNow hg' hglive'
    by_cases hj : j = i
    · grind
    · exact h.past j k g g' (hother hj ▸ hg) hg' hgended hglive' hgid

/-- **A delivery keeps the invariant.** -/
theorem Inv.delivered (h : Inv s) {frame : Octets} {msg : DnsMessage} {p : Pending}
    (hfound : s.conn.pending.get msg.id = some p) (hpending : s'.conn.pending = s.conn.pending.remove msg.id)
    (hclosed : s'.conn.closed = s.conn.closed)
    (hexchanges : s'.exchanges =
      (s.update fun j e => if j = p.reply then { e with reply := .answered frame } else e).exchanges) :
    Inv s' := by
  obtain ⟨e, he, hlive, hwaiting, hid, hpend⟩ := h.entry _ _ (Entries.mem_of_get hfound)
  have hother : ∀ {j : Nat}, j ≠ p.reply → s'.exchanges[j]? = s.exchanges[j]? := by
    intro j hj
    rw [hexchanges, getElem?_update]
    cases s.exchanges[j]? with
    | none => rfl
    | some g => rw [Option.map_some, if_neg hj]
  have hone : s'.exchanges[p.reply]? = some { e with reply := .answered frame } := by
    rw [hexchanges, getElem?_update, he, Option.map_some, if_pos rfl]
  -- every exchange is the one it was, but for the reply of the one that was handed it
  have hback : ∀ {j : Nat} {g : Exchange}, s'.exchanges[j]? = some g →
      ∃ d, s.exchanges[j]? = some d ∧ g.id = d.id ∧ g.out = d.out ∧ g.ended = d.ended ∧
        (g.reply = .waiting ∨ g.reply = .dropped → g = d ∧ j ≠ p.reply) := by
    intro j g hg
    by_cases hj : j = p.reply
    · grind
    · exact ⟨g, hother hj ▸ hg, rfl, rfl, rfl, fun _ => ⟨rfl, hj⟩⟩
  refine ⟨?_, ?_, ?_, ?_, ?_⟩
  · intro id q hq
    rw [hpending] at hq
    obtain ⟨hmem, hne⟩ := List.mem_filter.mp hq
    obtain ⟨g, hg, hglive, hgwaiting, hgid, hgpend⟩ := h.entry id q hmem
    have hj : q.reply ≠ p.reply := by grind
    exact ⟨g, (hother hj).trans hg, hglive, hgwaiting, hgid, hgpend⟩
  · intro hopen j g hg hglive hgwaiting
    obtain ⟨d, hd, -, -, -, hsame⟩ := hback hg
    obtain ⟨rfl, hj⟩ := hsame (.inl hgwaiting)
    have hne : g.id ≠ msg.id := fun heq =>
      hj (h.apart _ _ _ _ hd he hglive hlive (heq.trans hid.symm))
    rw [hpending, Entries.get_remove, if_neg hne]
    exact h.held (hclosed ▸ hopen) j g hd hglive hgwaiting
  · intro j k g g' hg hg' hglive hglive' hgid
    obtain ⟨d, hd, hdid, -, hdended, -⟩ := hback hg
    obtain ⟨d', hd', hdid', -, hdended', -⟩ := hback hg'
    exact h.apart j k d d' hd hd' (hdended ▸ hglive) (hdended' ▸ hglive') (hdid.symm.trans (hgid.trans hdid'))
  · intro j g hg hglive hdropped
    obtain ⟨d, hd, -, -, -, hsame⟩ := hback hg
    obtain ⟨rfl, -⟩ := hsame (.inr hdropped)
    exact hclosed.trans (h.lost j g hd hglive hdropped)
  · intro j k g g' hg hg' hgended hglive' hgid
    obtain ⟨d, hd, hdid, hdout, hdended, -⟩ := hback hg
    obtain ⟨d', hd', hdid', hdout', hdended', -⟩ := hback hg'
    rw [hdout, hdout']
    exact h.past j k d d' hd hd' (hdended ▸ hgended) (hdended' ▸ hglive') (hdid.symm.trans (hgid.trans hdid'))

/-- **Closing keeps the invariant.** -/
theorem Inv.shut (h : Inv s) (hpending : s'.conn.pending = []) (hclosed : s'.conn.closed = true)
    (hexchanges : s'.exchanges = (s.drop s.conn.pending).exchanges) : Inv s' := by
  have hback : ∀ {j : Nat} {g : Exchange}, s'.exchanges[j]? = some g →
      ∃ d, s.exchanges[j]? = some d ∧ g.id = d.id ∧ g.out = d.out ∧ g.ended = d.ended := by
    intro j g hg
    rw [hexchanges, getElem?_drop] at hg
    obtain ⟨d, hd, rfl⟩ := Option.map_eq_some_iff.mp hg
    refine ⟨d, hd, ?_⟩
    split <;> exact ⟨rfl, rfl, rfl⟩
  refine ⟨?_, ?_, ?_, fun _ _ _ _ _ => hclosed, ?_⟩
  · grind
  · intro hopen
    rw [hclosed] at hopen
    cases hopen
  · intro j k g g' hg hg' hglive hglive' hgid
    obtain ⟨d, hd, hdid, -, hdended⟩ := hback hg
    obtain ⟨d', hd', hdid', -, hdended'⟩ := hback hg'
    exact h.apart j k d d' hd hd' (hdended ▸ hglive) (hdended' ▸ hglive') (hdid.symm.trans (hgid.trans hdid'))
  · intro j k g g' hg hg' hgended hglive' hgid
    obtain ⟨d, hd, hdid, hdout, hdended⟩ := hback hg
    obtain ⟨d', hd', hdid', hdout', hdended'⟩ := hback hg'
    rw [hdout, hdout']
    exact h.past j k d d' hd hd' (hdended ▸ hgended) (hdended' ▸ hglive') (hdid.symm.trans (hgid.trans hdid'))

/-- **One step keeps the invariant**, if a registration takes a fresh ID. -/
theorem Inv.step (h : Inv s) {a : Action} (hfresh : FreshId s a) (hstep : s.step a = some s') : Inv s' := by
  cases step_went hstep with
  | quiet hpending hclosed hexchanges _ => exact h.quiet hpending hclosed hexchanges
  | registered hopen htaken hpending hclosed hexchanges =>
    exact h.registered hopen htaken (h.free hopen htaken hfresh) hpending hclosed hexchanges
  | sent hpending hclosed hexchanges =>
    refine h.like hpending hclosed (fun j e => ?_) hexchanges
    split <;> exact ⟨rfl, rfl, rfl, rfl⟩
  | finished he hlive hpending hclosed hexchanges _ => exact h.finished he hlive hpending hclosed hexchanges
  | delivered _ hfound _ hpending hclosed hexchanges _ => exact h.delivered hfound hpending hclosed hexchanges
  | shut hpending hclosed hexchanges => exact h.shut hpending hclosed hexchanges

end Steps

theorem Reached.inv (h : Reached FreshId s) : Inv s := by
  induction h with
  | start => exact inv_start _
  | step _ hfresh hstep ih => exact ih.step hfresh hstep

/-! ## Nobody is disturbed -/

structure Gentle (s : System) (a : Action) (s' : System) : Prop where
  handed : ∀ (i : Nat) (e e' : Exchange) (frame : Octets), s.exchanges[i]? = some e →
    s'.exchanges[i]? = some e' → e'.reply = .answered frame → e.reply ≠ .answered frame →
    (∃ now, a = .deliver frame now) ∧ e.ended = false ∧ e.reply = .waiting ∧ Answers frame e
  kept : ∀ (i : Nat) (e : Exchange) (p : Pending), s.exchanges[i]? = some e → e.ended = false →
    s.conn.pending.get e.id = some p → p.reply = i → s'.conn.closed = false →
    s'.conn.pending.get e.id = some p ∨
      ∃ e', s'.exchanges[i]? = some e' ∧ (e'.ended = true ∨ ∃ frame, e'.reply = .answered frame)
  late : ∀ (frame : Octets) (now : Nat) (e : Exchange), a = .deliver frame now → e ∈ s.exchanges →
    e.ended = true → Answers frame e → s'.reader = .reading

structure Undisturbed (ok : System → Action → Prop) (s : System) : Prop where
  apart : ∀ (i j : Nat) (e f : Exchange), s.exchanges[i]? = some e → s.exchanges[j]? = some f →
    e.ended = false → f.ended = false → e.id = f.id → i = j
  notLost : s.conn.closed = false → ∀ e ∈ s.exchanges, e.ended = false → e.reply ≠ .dropped
  steps : ∀ a s', ok s a → s.step a = some s' → Gentle s a s'

section Gentle

variable {s s' : System} {a : Action}

variable {e : Exchange}

theorem Went.handed (h : Inv s) (hwent : Went s a s') {i : Nat} {e' : Exchange} {frame : Octets}
    (he : s.exchanges[i]? = some e) (he' : s'.exchanges[i]? = some e')
    (hnow : e'.reply = .answered frame) (hbefore : e.reply ≠ .answered frame) :
    (∃ now, a = .deliver frame now) ∧ e.ended = false ∧ e.reply = .waiting ∧ Answers frame e := by
  cases hwent with
  | quiet _ _ hexchanges _ => grind
  | registered _ _ _ _ hexchanges => grind
  | sent _ _ hexchanges => grind [getElem?_update]
  | @finished _ k d _ hd hlive _ _ hexchanges _ =>
    rw [hexchanges] at he'
    by_cases hk : i = k
    · subst hk
      obtain ⟨-, f, hf, -, -, -, hreply⟩ := getElem?_finish h hd hlive i
      cases hd.symm.trans he
      cases hf.symm.trans he'
      rcases hreply with hreply | hreply
      · exact absurd (hreply ▸ hnow) hbefore
      · rw [hreply] at hnow
        cases hnow
    · grind [getElem?_finish]
  | @delivered _ now msg p _ hread hfound hasks _ _ hexchanges _ =>
    rw [hexchanges, getElem?_update, he] at he'
    cases he'
    split at hnow
    case isTrue hi =>
      cases hnow
      obtain ⟨f, hf, hlive, hwaiting, hid, hpend⟩ := h.entry _ _ (Entries.mem_of_get hfound)
      rw [← hi, he] at hf
      cases hf
      rw [hpend] at hasks
      exact ⟨⟨now, rfl⟩, hlive, hwaiting, msg, hread, hid.symm, hasks⟩
    case isFalse => exact absurd hnow hbefore
  | shut _ _ hexchanges => grind [getElem?_drop, Exchange.lose]

theorem Went.kept (h : Inv s) (hwent : Went s a s') {i : Nat} {p : Pending}
    (he : s.exchanges[i]? = some e) (hlive : e.ended = false)
    (hp : s.conn.pending.get e.id = some p) (hreply : p.reply = i) (hopen : s'.conn.closed = false) :
    s'.conn.pending.get e.id = some p ∨
      ∃ e', s'.exchanges[i]? = some e' ∧ (e'.ended = true ∨ ∃ frame, e'.reply = .answered frame) := by
  cases hwent with
  | quiet hpending _ _ _ => exact .inl (hpending ▸ hp)
  | registered _ htaken hpending _ _ => grind [Entries.get_insert, takeId_free]
  | sent hpending _ _ => exact .inl (hpending ▸ hp)
  | @finished _ k d _ hd hdlive hpending _ hexchanges _ =>
    by_cases hk : i = k
    · subst hk
      obtain ⟨-, f, hf, hended, -⟩ := getElem?_finish h hd hdlive i
      exact .inr ⟨f, hexchanges ▸ hf, .inl hended⟩
    · refine .inl ?_
      rw [hpending, Entries.get_remove, if_neg fun heq => hk (h.apart _ _ _ _ he hd hlive hdlive heq)]
      exact hp
  | @delivered frame now msg q _ _ hfound _ hpending _ hexchanges _ =>
    by_cases hid : e.id = msg.id
    · grind [getElem?_update]
    · grind [Entries.get_remove]
  | shut _ hclosed _ =>
    rw [hclosed] at hopen
    cases hopen

theorem Went.late (h : Inv s) {frame : Octets} {now : Nat} (hwent : Went s (.deliver frame now) s')
    (he : e ∈ s.exchanges) (hended : e.ended = true) (hanswers : Answers frame e) :
    s'.reader = .reading := by
  cases hwent with
  | quiet _ _ _ hbroken =>
    by_contra hstop
    obtain ⟨msg, hmsg, hid, hasks⟩ := hanswers
    obtain ⟨p, hp, hother⟩ := hbroken frame now rfl hstop msg hmsg
    obtain ⟨f, hf, hlive, -, hfid, hpend⟩ := h.entry _ _ (Entries.mem_of_get hp)
    obtain ⟨i, hi, rfl⟩ := List.getElem_of_mem he
    have hsame := h.past i p.reply _ f (List.getElem?_eq_getElem hi) hf hended hlive (hid.symm.trans hfid.symm)
    rw [asks_congr hsame] at hasks
    rw [hpend] at hother
    exact absurd (hasks.symm.trans hother) (by decide)
  | finished _ _ _ _ _ hnot => exact absurd rfl (hnot frame now)
  | delivered _ _ _ _ _ _ hreading => exact hreading

end Gentle

/-- **Pipelined exchanges do not disturb each other** in any run in which no registration takes an ID
of an unfinished exchange that was handed its reply, or one that was held for another question. -/
theorem undisturbed {s : System} (h : Reached FreshId s) : Undisturbed FreshId s where
  apart := h.inv.apart
  notLost hopen e he hlive hdropped := by
    obtain ⟨i, hi, rfl⟩ := List.getElem_of_mem he
    have hclosed := h.inv.lost i _ (List.getElem?_eq_getElem hi) hlive hdropped
    rw [hopen] at hclosed
    cases hclosed
  steps a s' _ hstep :=
    { handed := fun _ _ _ _ he he' hnow hbefore => (step_went hstep).handed h.inv he he' hnow hbefore
      kept := fun _ _ _ he hlive hp hreply hopen => (step_went hstep).kept h.inv he hlive hp hreply hopen
      late := fun frame now e ha he hended hanswers => by
        subst ha
        exact (step_went hstep).late h.inv he hended hanswers }

/-! ## Runs -/

instance (a b : OutgoingQuery) : Decidable (a.SameQuestion b) := inferInstanceAs (Decidable (_ ∧ _ ∧ _))

instance (s : System) : (a : Action) → Decidable (FreshId s a)
  | .register out _ randoms =>
    -- by the ID that is taken, not over all IDs
    @Option.decidableForallMem _ _ (fun id =>
      inferInstanceAs (Decidable (∀ e ∈ s.exchanges, e.id = id → (_ → _) ∧ (_ → _))))
      (takeId s.conn.pending out.id (randoms.take 64))
  | .send _ | .sendFailed _ | .resume _ | .timeOut _ | .deliver _ _ | .idle _ | .told | .streamEnded | .close =>
    .isTrue trivial

theorem reached_of_run {ok : System → Action → Prop} [∀ s a, Decidable (ok s a)]
    {actions : List Action} (h : Reached ok s)
    (hrun : actions.foldlM (fun s a => if ok s a then s.step a else none) s = some s') :
    Reached ok s' ∧ actions.foldlM System.step s = some s' := by
  induction actions generalizing s with
  | nil =>
    cases hrun
    exact ⟨h, rfl⟩
  | cons a rest ih =>
    rw [List.foldlM_cons] at hrun ⊢
    obtain ⟨next, hstep, hrest⟩ := Option.bind_eq_some_iff.mp hrun
    split at hstep
    · next hok =>
      rw [hstep]
      exact ih (h.step hok hstep) hrest
    · cases hstep

def rootQuery : OutgoingQuery := ⟨7, Name.root, .of RecordTypes.A, .in⟩

def rootReply (id : UInt8) : Octets :=
  0 :: id :: 128 :: 0 :: 0 :: 1 :: 0 :: 0 :: 0 :: 0 :: 0 :: 0 :: (Name.root.wire ++ (be16 1 ++ be16 1))

/-- Two exchanges in flight, answered in the other order, and a third that takes the ID the second
gave back. -/
def pipelined : List Action :=
  [.register rootQuery 0 [], .register rootQuery 0 [9], .send 0, .send 1, .deliver (rootReply 9) 0, .resume 1,
    .deliver (rootReply 7) 0, .register { rootQuery with id := 9 } 0 []]

theorem undisturbed_pipelined : ∃ s, pipelined.foldlM System.step (.start 0) = some s ∧
    s.exchanges.map (fun e => (e.id, e.reply.isAnswered, e.ended)) = [(7, true, false), (9, true, true), (9, false, false)] ∧
    Undisturbed FreshId s := by
  obtain ⟨s, hs⟩ := Option.isSome_iff_exists.mp
    (show (pipelined.foldlM (fun s a => if FreshId s a then s.step a else none) (.start 0)).isSome = true by
      decide +kernel)
  have hexchanges : ((pipelined.foldlM (fun s a => if FreshId s a then s.step a else none) (.start 0)).map
      fun s => s.exchanges.map fun e => (e.id, e.reply.isAnswered, e.ended))
        = some [(7, true, false), (9, true, true), (9, false, false)] := by decide +kernel
  rw [hs] at hexchanges
  obtain ⟨hreached, hrun⟩ := reached_of_run .start hs
  exact ⟨s, hrun, Option.some.inj hexchanges, undisturbed hreached⟩

/-! ## A run in which they are disturbed -/

/-- One exchange registers and sends; the reader delivers its reply, which frees the ID; another
registers with it; the first one goes on, and its guard frees the ID again. -/
def clash : List Action :=
  [.register rootQuery 0 [], .send 0, .deliver (rootReply 7) 0, .register rootQuery 0 [], .resume 0]

def clashed : System :=
  ⟨⟨[], false, DEFAULT_IDLE, 0⟩,
    [⟨rootQuery, 7, true, .answered (rootReply 7), true⟩, ⟨rootQuery, 7, false, .dropped, false⟩], false, .reading⟩

theorem clash_run : clash.foldlM (fun s a => if True then s.step a else none) (.start 0) = some clashed := by
  decide +kernel

/-- **An ID freed twice**: an exchange is told that the connection closed because another one ended. -/
theorem idFreedTwice :
    ¬ ∀ s, Reached (fun _ _ => True) s → Undisturbed (fun _ _ => True) s := by
  intro h
  exact (h clashed (reached_of_run .start clash_run).1).notLost rfl _
    (List.mem_cons_of_mem _ List.mem_cons_self) rfl rfl

end Rdns.Resolver.Dot
