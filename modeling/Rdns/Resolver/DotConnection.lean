import Rdns.Core.EdnsOptions
import Rdns.Lib.Entries

/-!
# Rdns — One TLS connection to a forwarder

`rdns/src/resolver/dot.rs`: queries are pipelined over one connection. An exchange takes an ID that
nothing pending has, and waits; the reader matches what the server sends by ID and question.
`Waiting` gives the ID back when the exchange ends, however it ends.

The tasks that share the connection are one system here: its pending table, the exchanges begun
on it, and the reader.
-/

namespace Rdns.Resolver.Dot

open Rdns.Lib Rdns.Core

/-! ## The connection's state -/

def DEFAULT_IDLE : Nat := 10000

structure OutgoingQuery where
  id : UInt16
  qname : Name
  qtype : Qtype
  qclass : QueryClass
deriving DecidableEq

/-- A query waiting for its reply; `reply` is the exchange at the other end of the channel. -/
structure Pending where
  qname : Name
  qtype : Qtype
  qclass : QueryClass
  reply : Nat
deriving DecidableEq

structure State where
  pending : Entries UInt16 Pending
  closed : Bool
  idle : Nat
  lastUsed : Nat
deriving DecidableEq

def State.start (now : Nat) : State := ⟨[], false, DEFAULT_IDLE, now⟩

def takeId (pending : Entries UInt16 Pending) (id : UInt16) : List UInt16 → Option UInt16
  | [] => if (pending.get id).isSome then none else some id
  | random :: rest => if (pending.get id).isSome then takeId pending random rest else some id

def State.register (state : State) (now exchange : Nat) (out : OutgoingQuery) (randoms : List UInt16) :
    Except String (UInt16 × State) :=
  if state.closed then .error "the TLS connection closed"
  else match takeId state.pending out.id (randoms.take 64) with
    | none => .error "no free query ID on the TLS connection"
    | some id =>
      .ok (id, { state with
        pending := state.pending.insert id ⟨out.qname, out.qtype, out.qclass, exchange⟩, lastUsed := now })

inductive Delivered where
  | answered (exchange : Nat)
  | unmatched
  | broken
deriving DecidableEq

def asks (msg : DnsMessage) (qname : Name) (qtype : Qtype) (qclass : QueryClass) : Bool :=
  msg.queries.head?.any fun q => q.qname.same qname && q.qtype == qtype && q.qclass == qclass

def keepalive (msg : DnsMessage) : Option Nat := do
  let edns ← msg.edns
  let data ← (edns.option EDNS_OPTION_TCP_KEEPALIVE).toOption.join
  match data with
  | [hi, lo] => some ((ofBe16 hi lo).toNat * 100)
  | _ => none

def State.deliver (state : State) (now : Nat) (frame : Octets) : Delivered × State :=
  match DnsMessage.tryFromBytes frame with
  | .error _ => (.broken, state)
  | .ok msg =>
    let state := { state with lastUsed := now, idle := (keepalive msg).getD state.idle }
    match state.pending.get msg.id with
    | none => (.unmatched, state)
    | some pending =>
      if asks msg pending.qname pending.qtype pending.qclass then
        (.answered pending.reply, { state with pending := state.pending.remove msg.id })
      else (.broken, state)

def State.idleCheck (state : State) (now : Nat) : Option Nat × State :=
  let state := if state.pending.isEmpty then state else { state with lastUsed := now }
  let deadline := state.lastUsed + state.idle
  (if now < deadline then some deadline else none, state)

/-! ## The tasks -/

/-- What an exchange's end of its channel holds. -/
inductive Reply where
  | waiting
  | answered (frame : Octets)
  | dropped
deriving DecidableEq

structure Exchange where
  out : OutgoingQuery
  id : UInt16
  sent : Bool
  reply : Reply
  ended : Bool
deriving DecidableEq

def Exchange.lose (e : Exchange) : Exchange :=
  { e with reply := if e.reply = .waiting then .dropped else e.reply }

inductive Reader where
  | reading
  | stopping
  | done
deriving DecidableEq

structure System where
  conn : State
  exchanges : List Exchange
  /-- `closing` was notified. -/
  closing : Bool
  reader : Reader
deriving DecidableEq

def System.start (now : Nat) : System := ⟨.start now, [], false, .reading⟩

def System.update (s : System) (change : Nat → Exchange → Exchange) : System :=
  { s with exchanges := s.exchanges.mapIdx change }

def System.drop (s : System) (entries : Entries UInt16 Pending) : System :=
  s.update fun i e => if entries.any fun entry => entry.2.reply = i then e.lose else e

def System.giveBack (s : System) (id : UInt16) : System :=
  { s.drop (s.conn.pending.filter fun entry => entry.1 = id) with
    conn := { s.conn with pending := s.conn.pending.remove id } }

def System.finish (s : System) (i : Nat) (e : Exchange) : System :=
  (s.giveBack e.id).update fun j f => if j = i then { f with ended := true } else f

inductive Action where
  | register (out : OutgoingQuery) (now : Nat) (randoms : List UInt16)
  | send (exchange : Nat)
  | sendFailed (exchange : Nat)
  | resume (exchange : Nat)
  | timeOut (exchange : Nat)
  | deliver (frame : Octets) (now : Nat)
  | idle (now : Nat)
  | told
  | streamEnded
  | close
deriving DecidableEq

def System.unfinished (s : System) (i : Nat) (ready : Exchange → Bool) : Option Exchange :=
  s.exchanges[i]?.filter fun e => !e.ended && ready e

def System.step (s : System) : Action → Option System
  | .register out now randoms =>
    match s.conn.register now s.exchanges.length out randoms with
    | .error _ => some s
    | .ok (id, conn) => some { s with conn, exchanges := s.exchanges ++ [⟨out, id, false, .waiting, false⟩] }
  | .send i => do
    let _ ← s.unfinished i fun e => !e.sent
    return s.update fun j e => if j = i then { e with sent := true } else e
  | .sendFailed i => do
    let e ← s.unfinished i fun e => !e.sent
    return { s.finish i e with closing := true }
  -- `reply.await` returns: with the reply, or because the sender is gone
  | .resume i => do
    let e ← s.unfinished i fun e => e.sent && e.reply != .waiting
    return s.finish i e
  | .timeOut i => do
    let e ← s.unfinished i fun _ => true
    return s.finish i e
  | .deliver frame now =>
    if s.reader ≠ .reading then none
    else match s.conn.deliver now frame with
      | (.answered i, conn) =>
        some ({ s with conn }.update fun j e => if j = i then { e with reply := .answered frame } else e)
      | (.unmatched, conn) => some { s with conn }
      | (.broken, conn) => some { s with conn, reader := .stopping }
  | .idle now =>
    if s.reader ≠ .reading then none
    else match s.conn.idleCheck now with
      | (some _, conn) => some { s with conn }
      | (none, conn) => some { s with conn, reader := .stopping }
  | .told => if s.reader = .reading ∧ s.closing = true then some { s with reader := .stopping } else none
  | .streamEnded => if s.reader = .reading then some { s with reader := .stopping } else none
  | .close =>
    if s.reader = .stopping then
      some { s.drop s.conn.pending with conn := { s.conn with closed := true, pending := [] }, reader := .done }
    else none

inductive Reached (ok : System → Action → Prop) : System → Prop where
  | start {now : Nat} : Reached ok (.start now)
  | step {s s' : System} {a : Action} (before : Reached ok s) (allowed : ok s a) (went : s.step a = some s') :
    Reached ok s'

end Rdns.Resolver.Dot
