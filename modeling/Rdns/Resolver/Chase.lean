import Rdns.Resolver.Recursion

/-!
# Rdns — Following aliases

`recurse` of `rdns/src/resolver/recurse.rs`: one walk a hop, the records of each reply that are
on the chain of names asked about, and the next name to ask for.
-/

namespace Rdns.Resolver

open Rdns.Lib Rdns.Lib.Fallible Rdns.Core Rdns.Dnssec Rdns.Answer RecordTypes

/-! ## What one reply says -/

structure Chase where
  qname : Name
  answers : List ResourceRecord
  queried : List Name
  chain : List Name

def cnameTarget (rr : ResourceRecord) : Option Name :=
  if rr.rdata.rtype == CNAME then
    match rr.rdata.parse with
    | .ok (.cname target) => some target
    | _ => none
  else none

namespace Chase

def start (qname : Name) : Chase := ⟨qname, [], [], [qname]⟩

def redirects (c : Chase) (zone : Name) (rr : ResourceRecord) : Bool :=
  rr.rdata.rtype == DNAME && rr.name.isAtOrUnder zone &&
    c.chain.any fun name => !name.same rr.name && name.isAtOrUnder rr.name

def accept (zone : Name) (c : Chase) (rr : ResourceRecord) : Chase :=
  if c.chain.any (·.same rr.name) then
    { c with answers := c.answers ++ [rr], chain := (cnameTarget rr).toList ++ c.chain }
  else if c.redirects zone rr then { c with answers := c.answers ++ [rr] }
  else c

end Chase

def targetOf (answers : List ResourceRecord) (owner : Name) : Option Name :=
  answers.findSome? fun rr => if rr.name.same owner then cnameTarget rr else none

def chainEndFrom (answers : List ResourceRecord) (hops : Nat) :
    Nat → List Name → Name → Except ResolveError Name
  | more, seen, current => do
    if seen.any (·.same current) then throw (.noResponse (.cnameLoop current))
    match more with
    | 0 => throw (.noResponse (.cnameChainTooLong hops))
    | more + 1 =>
      match targetOf answers current with
      | none => return current
      | some target => chainEndFrom answers hops more (current :: seen) target

def chainEnd (answers : List ResourceRecord) (name : Name) (hops : Nat) :
    Except ResolveError (Option Name) := do
  match targetOf answers name with
  | none => return none
  | some target => return some (← chainEndFrom answers hops (hops - 1) [name] target)

def synthesizeFromDname (zone qname : Name) :
    List ResourceRecord → Except ResolveError (Option (Name × ResourceRecord))
  | [] => return none
  | rr :: rest =>
    if rr.rdata.rtype ≠ DNAME ∨ !rr.name.isAtOrUnder zone then
      synthesizeFromDname zone qname rest
    else match rr.rdata.parse with
      | .ok (.dname target) =>
        match dnameRedirect qname rr.name target with
        | .noMatch => synthesizeFromDname zone qname rest
        | .tooLong => throw (.noResponse (.substitutionTooLong target rr.name qname))
        | .goesTo next => do
          let rdata ← (RecordData.fromParsed (.cname next)).mapError ResolveError.wire
          return some (next, ⟨qname, rr.cls, rr.ttl, rdata⟩)
      | _ => synthesizeFromDname zone qname rest

def synthesis (settled : Bool) (zone qname : Name) (records : List ResourceRecord) :
    Except ResolveError (Option (Name × ResourceRecord)) :=
  if settled then return none else synthesizeFromDname zone qname records

def Chase.hop (config : ResolverConfig) (query : QuerySection) (answered : Answered) (c : Chase) :
    Except ResolveError (Chase × Option Name) := do
  let c := answered.response.answers.foldl (Chase.accept answered.zone) c
  let cname ← chainEnd c.answers c.qname config.maxCnameHops
  let stop := cname.getD c.qname
  let gotType := answered.response.answers.any fun rr =>
    query.qtype.matches rr.rdata.rtype && rr.name.same stop
  let synthesized ← synthesis (cname.isSome || gotType || query.qtype.is CNAME) answered.zone
    c.qname answered.response.answers
  let next := cname.or (synthesized.map Prod.fst)
  let c := { c with
    answers := c.answers ++ (synthesized.map Prod.snd).toList
    chain := next.toList ++ c.chain }
  return (c, if gotType || query.qtype.is CNAME then none else next)

/-! ## The chase -/

section

variable {σ : Type} (world : World σ) (config : ResolverConfig) (probe : Probe) (query : QuerySection)

def chase : Nat → Chase → Course σ DnsMessage
  | left, c =>
    if c.queried.any (·.same c.qname) then throw (.noResponse (.cnameLoop c.qname))
    else match left with
      | 0 => throw (.noResponse (.cnameChainTooLong config.maxCnameHops))
      | left + 1 => do
        let answered ← resolveFromRoot world config probe (MAX_NESTED + 1) ⟨c.qname, query.qtype, query.qclass⟩
        onlyIf config.dnssec (modifyState fun state => state.recordDenials answered.response.authorities)
        match Chase.hop config query answered { c with queried := c.qname :: c.queried } with
        | .error e => throw e
        | .ok (c, none) => return { answered.response with answers := c.answers }
        | .ok (c, some next) => chase left { c with qname := next }

/-- Resolve by walking the delegation chain, following any CNAME chain the answer leads
through. -/
def recurse : Course σ DnsMessage := chase world config probe query config.maxCnameHops (.start query.qname)

end

end Rdns.Resolver
