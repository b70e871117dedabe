import Rdns.Resolver.AnswerCache

/-!
# Rdns — Negative caching

`rdns/src/negative_cache.rs` (RFC 2308): a "no" and how long it is good for, by name for a
name error, which denies what is below it too (RFC 8020), and by question for a NODATA.
-/

namespace Rdns.Resolver

open Rdns.Lib Rdns.Core Rdns.Dnssec

def MAX_NEGATIVE_TTL : Nat := 3600

structure NegativeAnswer where
  rcode : ResponseCode
  authority : List ResourceRecord
  outcome : Outcome
  ttl : Nat
  refresh : Bool
  learnedAt : Nat
deriving DecidableEq

structure NegativeEntry where
  rcode : ResponseCode
  authority : List ResourceRecord
  outcome : Outcome
  expiresAt : Deadline
  staleRefreshAfter : Deadline
  learnedAt : Nat
deriving DecidableEq

namespace NegativeEntry

def live (entry : NegativeEntry) (now : Nat) : Bool := entry.expiresAt.isLive now

def isStale (entry : NegativeEntry) (now : Nat) (policy : StalePolicy) : Bool :=
  !entry.live now && policy.keeps entry.expiresAt now

def remaining (entry : NegativeEntry) (now : Nat) : Nat := entry.expiresAt.remainingTtl now

def withTtl (entry : NegativeEntry) (ttl : Nat) : NegativeAnswer :=
  ⟨entry.rcode, Resolver.withTtl entry.authority ttl, entry.outcome, ttl, false, entry.learnedAt⟩

def answer (entry : NegativeEntry) (now : Nat) : NegativeAnswer := entry.withTtl (entry.remaining now)

def staleAnswer (entry : NegativeEntry) (now : Nat) (refreshing : Bool) : NegativeAnswer × NegativeEntry :=
  let (refresh, after) := entry.staleRefreshAfter.claimStaleRefresh refreshing now
  ({ entry.withTtl STALE_ANSWER_TTL with refresh }, { entry with staleRefreshAfter := after })

end NegativeEntry

structure NegativeCache where
  nxdomain : Entries Name NegativeEntry
  nodata : Entries NameTypeKey NegativeEntry
  maxEntries : Nat
  stale : StalePolicy
deriving DecidableEq

def negativeTtl (response : DnsMessage) : Option Nat :=
  match response.authorities.find? fun rr => rr.rdata.rtype == RecordTypes.SOA with
  | none => none
  | some soaRr =>
    match soaRr.rdata.parse with
    | .ok (.soa _ _ _ _ _ _ minimum) =>
      let ttl := min (Ttl.negativeAnswer soaRr.ttl minimum).secs.toNat MAX_NEGATIVE_TTL
      if ttl = 0 then none else some ttl
    | _ => none

namespace NegativeCache

def len (c : NegativeCache) : Nat := c.nxdomain.length + c.nodata.length

def makeRoom (c : NegativeCache) (now : Nat) : NegativeCache :=
  let before := c.len
  let c := { c with
    nxdomain := c.nxdomain.filter fun e => c.stale.keeps e.2.expiresAt now
    nodata := c.nodata.filter fun e => c.stale.keeps e.2.expiresAt now }
  if c.len < before then c
  else
    let all : List ((Name × NegativeEntry) ⊕ (NameTypeKey × NegativeEntry)) :=
      c.nxdomain.map .inl ++ c.nodata.map .inr
    let expiry := Sum.elim (fun e : Name × NegativeEntry => e.2.expiresAt.unixSecs)
      (fun e : NameTypeKey × NegativeEntry => e.2.expiresAt.unixSecs)
    match Halving.plan (all.map expiry) (c.maxEntries / 2) with
    | none => c
    | some plan =>
      let kept := plan.retain expiry all
      { c with nxdomain := kept.filterMap Sum.getLeft?, nodata := kept.filterMap Sum.getRight? }

def insert (c : NegativeCache) (now : Nat) (qname : Name) (qtype : Qtype) (response : DnsMessage)
    (outcome : Outcome) : NegativeCache :=
  if c.maxEntries = 0 ∨ !response.answers.isEmpty then c
  -- a failure is not an answer
  else if response.rcode ≠ .noSuchDomain ∧ response.rcode ≠ .ok then c
  else match negativeTtl response with
    | none => c
    | some ttl =>
      let entry : NegativeEntry :=
        ⟨response.rcode, response.authorities, outcome, .after now ttl, .default, now⟩
      if response.rcode = .noSuchDomain then
        let name := qname.toFolded
        let c := if (c.nxdomain.get name).isNone ∧ c.len ≥ c.maxEntries then c.makeRoom now else c
        { c with nxdomain := c.nxdomain.insert name entry }
      else
        let key := nameTypeKey qname qtype
        let c := if (c.nodata.get key).isNone ∧ c.len ≥ c.maxEntries then c.makeRoom now else c
        { c with nodata := c.nodata.insert key entry }

def foldedAncestors (name : Name) : List Name := name.toFolded.ancestors

def get (c : NegativeCache) (now : Nat) (qname : Name) (qtype : Qtype) : Option NegativeAnswer :=
  if c.maxEntries = 0 then none
  else
    let denied := (foldedAncestors qname).findSome? fun ancestor =>
      (c.nxdomain.get ancestor).filter fun e => e.live now
    match denied with
    | some entry => some (entry.answer now)
    | none =>
      ((c.nodata.get (nameTypeKey qname qtype)).filter fun e => e.live now).map fun e => e.answer now

def getStale (c : NegativeCache) (now : Nat) (qname : Name) (qtype : Qtype) (refreshing : Bool) :
    Option NegativeAnswer × NegativeCache :=
  if c.maxEntries = 0 ∨ !c.stale.isOn then (none, c)
  else
    let denied := (foldedAncestors qname).findSome? fun ancestor =>
      ((c.nxdomain.get ancestor).filter fun e => e.isStale now c.stale).map fun e => (ancestor, e)
    match denied with
    | some (ancestor, entry) =>
      let (answer, entry) := entry.staleAnswer now refreshing
      (some answer, { c with nxdomain := c.nxdomain.insert ancestor entry })
    | none =>
      let key := nameTypeKey qname qtype
      match (c.nodata.get key).filter fun e => e.isStale now c.stale with
      | none => (none, c)
      | some entry =>
        let (answer, entry) := entry.staleAnswer now refreshing
        (some answer, { c with nodata := c.nodata.insert key entry })

def forgetRefuted (c : NegativeCache) (qname : Name) (qtype : Qtype) : NegativeCache :=
  { c with
    nodata := c.nodata.remove (nameTypeKey qname qtype)
    nxdomain := (foldedAncestors qname).foldl Entries.remove c.nxdomain }

def forgetAtOrBelow (c : NegativeCache) (node : Name) : NegativeCache :=
  { c with
    nxdomain := c.nxdomain.filter fun e => !e.1.isAtOrUnder node
    nodata := c.nodata.filter fun e => !e.1.1.isAtOrUnder node }

def forgetName (c : NegativeCache) (name : Name) : NegativeCache :=
  { c with
    nxdomain := c.nxdomain.remove name.toFolded
    nodata := c.nodata.filter fun e => e.1.1 ≠ name.toFolded }

def clear (c : NegativeCache) : NegativeCache := { c with nxdomain := [], nodata := [] }

end NegativeCache

end Rdns.Resolver
