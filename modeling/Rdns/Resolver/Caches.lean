import Rdns.Resolver.NegativeCache
import Rdns.Resolver.NsecCacheLaws
import Rdns.Resolver.WildcardCache

/-!
# Rdns — What the resolver remembers between queries

`rdnsr/src/caches.rs`: three caches that `store` fills from one response and `lookup` asks
in turn, and the reply `handle_query` builds from a hit. What each of them holds is what a
`store` has put in it, whatever was looked up, forgotten or evicted in between.
-/

namespace Rdns.Resolver

open Rdns.Lib Rdns.Core Rdns.Present Rdns.Dnssec

/-! ## The three caches -/

inductive Held where
  | answer (hit : Cached)
  | reply (rcode : ResponseCode) (answers authority : List ResourceRecord) (outcome : Outcome)

/-- What `Caches::stale` found. -/
inductive Stale where
  | answer (hit : Cached)
  | negative (hit : NegativeAnswer)

structure Caches where
  answers : DnsCache
  negatives : NegativeCache
  denials : HeldZones
  denialZones : Nat

/-- One call of `store`: when, and what a resolution of `query` concluded. -/
structure StoreCall where
  now : Nat
  query : QuerySection
  response : DnsMessage
  state : ValidationState

namespace Caches

def new (capacity denialZones : Nat) (stale : StalePolicy) : Caches where
  answers := ⟨[], capacity, stale⟩
  negatives := ⟨[], [], capacity, stale⟩
  denials := []
  denialZones := denialZones

def store (c : Caches) (call : StoreCall) : Caches :=
  let name := call.query.qname
  let qtype := call.query.qtype
  -- a bogus answer in the cache is an attack that outlives the query that carried it
  if call.state.isBogus then c
  else
    let outcome := call.state.outcome
    let c := if call.response.answers.isEmpty then c
      else { c with
        answers := c.answers.putValidated call.now name qtype call.response.answers outcome
        negatives := c.negatives.forgetRefuted name qtype }
    let c := { c with negatives := c.negatives.insert call.now name qtype call.response outcome }
    -- an unvalidated NSEC is an attacker's claim
    if !outcome.isSecure then c
    else if call.response.answers.isEmpty then
      { c with denials := insertValidated c.denialZones call.now call.response c.denials }
    else { c with denials := insertValidatedWildcard c.denialZones call.now call.response c.denials }

/-- What is held for this question, unexpired; without `synthesizing`, nothing that no one
asked for. -/
def lookup (sha1 : Octets → Nsec3Hash) (c : Caches) (now : Nat) (name : Name) (qtype : Qtype)
    (synthesizing prefetching : Bool) : Option Held × Caches :=
  -- a newer "no" outranks an older "yes"
  match c.negatives.get now name qtype with
  | some negative => (some (.reply negative.rcode [] negative.authority negative.outcome), c)
  | none =>
    match c.answers.lookup now name qtype prefetching with
    | (some hit, answers) => (some (.answer hit), { c with answers })
    | (none, answers) =>
      let c := { c with answers }
      if !synthesizing then (none, c)
      else match synthesizeWildcard c.denials now name qtype with
        | some wildcard => (some (.reply .ok wildcard.answers wildcard.authority .secure), c)
        | none =>
          ((synthesize sha1 c.denials now name qtype).map fun denial =>
            .reply denial.rcode [] denial.authority .secure, c)

def stale (c : Caches) (now : Nat) (name : Name) (qtype : Qtype) (refreshing : Bool) :
    Option Stale × Caches :=
  let (answer, answers) := c.answers.getStale now name qtype refreshing
  let (negative, negatives) := c.negatives.getStale now name qtype refreshing
  let c := { c with answers, negatives }
  match answer, negative with
  | some answer, some negative =>
    (some (if answer.learnedAt > negative.learnedAt then .answer answer else .negative negative), c)
  | none, some negative => (some (.negative negative), c)
  | some answer, none => (some (.answer answer), c)
  | none, none => (none, c)

def forgetAtOrBelow (c : Caches) (node : Name) : Caches :=
  { c with
    answers := c.answers.forgetAtOrBelow node
    negatives := c.negatives.forgetAtOrBelow node
    denials := c.denials.forgetAtOrBelow node }

def clear (c : Caches) : Caches :=
  { c with answers := c.answers.clear, negatives := c.negatives.clear, denials := [] }

def forgetName (c : Caches) (name : Name) : Caches :=
  { c with answers := c.answers.forgetName name, negatives := c.negatives.forgetName name }

end Caches

structure Reply where
  rcode : ResponseCode
  answers : List ResourceRecord
  authority : List ResourceRecord
  outcome : Outcome

def Held.built : Held → Reply
  | .answer hit => ⟨.ok, hit.records, [], hit.outcome⟩
  | .reply rcode answers authority outcome => ⟨rcode, answers, authority, outcome⟩

/-! ## Runs -/

structure Caches.Shuffled (c met : Caches) : Prop where
  answers : met.answers.cache.Perm c.answers.cache
  nxdomain : met.negatives.nxdomain.Perm c.negatives.nxdomain
  nodata : met.negatives.nodata.Perm c.negatives.nodata
  denials : ∀ entry ∈ met.denials, ∃ held ∈ c.denials, entry.1 = held.1 ∧
    entry.2.nsecs = held.2.nsecs ∧ entry.2.nsec3s = held.2.nsec3s ∧ entry.2.soa = held.2.soa ∧
    entry.2.wildcards.Perm held.2.wildcards
  bounds : met.answers.maxEntries = c.answers.maxEntries ∧ met.answers.stale = c.answers.stale ∧
    met.negatives.maxEntries = c.negatives.maxEntries ∧ met.negatives.stale = c.negatives.stale ∧
    met.denialZones = c.denialZones

/-- The caches after some calls at non-decreasing times: the time, the `store` calls so far,
and the caches. -/
inductive Ran (sha1 : Octets → Nsec3Hash) (start : Caches) : Nat → List StoreCall → Caches → Prop
  | start (now : Nat) : Ran sha1 start now [] start
  | wait {now later : Nat} {history : List StoreCall} {c : Caches} (h : now ≤ later) :
      Ran sha1 start now history c → Ran sha1 start later history c
  | shuffle {now : Nat} {history : List StoreCall} {c met : Caches} :
      Ran sha1 start now history c → c.Shuffled met → Ran sha1 start now history met
  | store {history : List StoreCall} {c : Caches} (call : StoreCall) :
      Ran sha1 start call.now history c → Ran sha1 start call.now (call :: history) (c.store call)
  | lookup {now : Nat} {history : List StoreCall} {c : Caches} (name : Name) (qtype : Qtype)
      (synthesizing prefetching : Bool) : Ran sha1 start now history c →
        Ran sha1 start now history (c.lookup sha1 now name qtype synthesizing prefetching).2
  | stale {now : Nat} {history : List StoreCall} {c : Caches} (name : Name) (qtype : Qtype)
      (refreshing : Bool) : Ran sha1 start now history c →
        Ran sha1 start now history (c.stale now name qtype refreshing).2
  | forgetAtOrBelow {now : Nat} {history : List StoreCall} {c : Caches} (node : Name) :
      Ran sha1 start now history c → Ran sha1 start now history (c.forgetAtOrBelow node)
  | clear {now : Nat} {history : List StoreCall} {c : Caches} :
      Ran sha1 start now history c → Ran sha1 start now history c.clear
  | forgetName {now : Nat} {history : List StoreCall} {c : Caches} (name : Name) :
      Ran sha1 start now history c → Ran sha1 start now history (c.forgetName name)

end Rdns.Resolver
