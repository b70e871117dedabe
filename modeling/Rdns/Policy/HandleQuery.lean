import Rdns.Policy.Dns64
import Rdns.Policy.PolicyStore
import Rdns.Resolver.Caches
import Rdns.Resolver.Recursion

/-!
# Rdns — One query, through the policy

`handle_query` of `rdnsr/src/answer.rs` from the special-use names on: the client-IP and QNAME
triggers, the caches, the resolution with the nameserver triggers asked on its way, the
response-IP triggers on what was obtained, and DNS64 behind them. What is counted and logged is
left out, and so are the EDNS of the reply, its AD bit and the size limit.

A resolution is whatever asks the nameserver policy about one delegation after another and goes on
from what it says.
-/

namespace Rdns.Policy

open Rdns.Lib Rdns.Core Rdns.Present Rdns.Dnssec Rdns.Resolver RecordTypes

/-! ## A resolution, as the nameserver policy sees it -/

/-- A resolution under way: it is over, or asks whether a delegation may be followed. -/
inductive Walk (α : Type) where
  | done (result : α)
  | ask (nsNames : List Name) (servers : List SocketAddr) (next : Bool → Walk α)

abbrev Resolved := Except ResolveError (DnsMessage × ValidationState)

def ipOf : SocketAddr → IpAddr
  | .v4 ip _ => .v4 ⟨ip.val, ip.property⟩
  | .v6 ip _ _ => .v6 ⟨ip.val, ip.property⟩

def PolicyZones.watch (policy : PolicyZones) (query : QuerySection) (nsNames : List Name)
    (servers : List SocketAddr) : Option Rewrite :=
  if policy.watchesDelegations then
    policy.onDelegation nsNames (servers.map ipOf) query.qname query.qtype
  else none

def allows : Option Rewrite → Bool
  | none => true
  | some rewrite => rewrite.action == .passthru

def Walk.run {α : Type} (watch : List Name → List SocketAddr → Option Rewrite) : Walk α → List Rewrite × α
  | .done result => ([], result)
  | .ask nsNames servers next =>
    let rewrite := watch nsNames servers
    let (met, result) := (next (allows rewrite)).run watch
    (rewrite.toList ++ met, result)

def lastRefusal (met : List Rewrite) : Option Rewrite := (met.filter fun rewrite => rewrite.action != .passthru).getLast?

/-! ## A match turned into a reply -/

inductive Transport where
  | udp
  | tcp
deriving DecidableEq

/-- A reply as it is handed to `finish`. -/
structure Sent where
  rcode : ResponseCode
  answers : List ResourceRecord
  authority : List ResourceRecord
  truncated : Bool

/-- `apply_policy`: the reply, which may be none at all; nothing where the match changes nothing. -/
def applyPolicy (transport : Transport) (rewrite : Rewrite) : Option (Option Sent) :=
  match rewrite.action with
  | .drop => some none
  | .passthru => none
  | .tcpOnly => if transport = .udp then some (some ⟨.ok, [], [], true⟩) else none
  | .nxdomain => some (some ⟨.noSuchDomain, [], rewrite.soa.toList, false⟩)
  | .nodata => some (some ⟨.ok, [], rewrite.soa.toList, false⟩)
  | .localData records =>
    some (some ⟨.ok, records, if records.isEmpty then rewrite.soa.toList else [], false⟩)

def letsThrough (transport : Transport) (rewrite : Rewrite) : Bool := (applyPolicy transport rewrite).isNone

/-! ## The query and what serves it -/

structure Client where
  peer : IpAddr
  query : QuerySection
  transport : Transport
  checkingDisabled : Bool
  dnssecOk : Bool

/-- What serves one query, and what it meets: what the special-use names say, the resolution of the
question, and that of any other question asked on nobody's behalf. -/
structure Serving where
  sha1 : Octets → Nsec3Hash
  policy : PolicyZones
  dns64 : Option Dns64
  caches : Caches
  now : Nat
  ntas : List Nta
  anchors : Option TrustAnchors
  prefetching : Bool
  staleFirst : Bool
  special : Option Sent
  touchesLocalZone : DnsMessage → Bool
  resolve : Walk Resolved
  later : Nat
  /-- What other queries do to the caches before DNS64 asks them. -/
  meanwhile : Caches → Caches
  behind : QuerySection → Walk Resolved

inductive Way where
  | special
  | reverse
  | answerCache
  | synthesis
  | stale
  | recursion
  | failed
  | dns64
deriving DecidableEq

inductive Obtained where
  | held (reply : Sent)
  | checked (way : Way) (reply : Sent)
  | bogus
  | stopped (hit : Option Rewrite)

inductive Outcome where
  | policed (rewrite : Rewrite) (reply : Option Sent)
  | sent (way : Way) (reply : Sent)
  | panicked

structure Handled where
  met : List Rewrite
  outcome : Outcome

def serverFailure : Sent := ⟨.serverFailure, [], [], false⟩

namespace Serving

variable (serving : Serving) (client : Client)

/-! ## The caches and the resolver -/

def staleAnswer (caches : Caches) (now : Nat) (refreshing : Bool) : Option Sent × Caches :=
  match caches.stale now client.query.qname client.query.qtype refreshing with
  | (some (.answer hit), caches) => (some ⟨.ok, hit.records, [], false⟩, caches)
  | (some (.negative hit), caches) => (some ⟨hit.rcode, [], hit.authority, false⟩, caches)
  | (none, caches) => (none, caches)

def recursed (caches : Caches) : List Rewrite × Obtained × Caches :=
  match serving.resolve.run (serving.policy.watch client.query) with
  | (met, .ok (upstream, state)) =>
    if state.isBogus && !client.checkingDisabled then (met, .bogus, caches)
    else
      let caches := if serving.touchesLocalZone upstream then caches
        else caches.store ⟨serving.later, client.query, upstream, state⟩
      (met, .checked .recursion ⟨upstream.rcode, upstream.answers, upstream.authorities, upstream.truncation⟩, caches)
  | (met, .error .policyStopped) =>
    match lastRefusal met with
    | some hit => (met, .stopped (some hit), caches)
    | none => (met, .stopped none, caches)
  | (met, .error _) =>
    match staleAnswer client caches serving.later false with
    | (some reply, caches) => (met, .checked .stale reply, caches)
    | (none, caches) => (met, .checked .failed serverFailure, caches)

def underNta : Bool :=
  serving.anchors.any fun anchors =>
    (coveringNta serving.ntas client.query.qname serving.now anchors).isSome

def gather : List Rewrite × Obtained × Caches :=
  match serving.caches.lookup serving.sha1 serving.now client.query.qname client.query.qtype
      (!client.checkingDisabled && !serving.underNta client) serving.prefetching with
  | (some (.answer hit), caches) => ([], .checked .answerCache ⟨.ok, hit.records, [], false⟩, caches)
  | (some (.reply rcode answers authority _), caches) => ([], .held ⟨rcode, answers, authority, false⟩, caches)
  | (none, caches) =>
    if serving.staleFirst then
      match staleAnswer client caches serving.now true with
      | (some reply, caches) => ([], .checked .stale reply, caches)
      | (none, caches) => serving.recursed client caches
    else serving.recursed client caches

/-! ## DNS64 -/

def resolveAndStore (query : QuerySection) : Option (List ResourceRecord) :=
  match ((serving.behind query).run (serving.policy.watch query)).2 with
  | .error _ => none
  | .ok (answer, state) => if state.isBogus then none else some answer.answers

def cachedOrResolve (caches : Caches) (query : QuerySection) : Option (List ResourceRecord) :=
  match ((serving.meanwhile caches).lookup serving.sha1 serving.later query.qname query.qtype false false).1 with
  | some (.answer hit) => some hit.records
  | some (.reply ..) => none
  | none => serving.resolveAndStore query

def aQuery : QuerySection := { client.query with qtype := .of A }

def wantsDns64 : Bool :=
  serving.dns64.isSome && client.query.qtype.is AAAA && !(client.checkingDisabled && client.dnssecOk)

def dns64Source (caches : Caches) (reply : Sent) : Option (Dns64 × List ResourceRecord) :=
  match serving.dns64 with
  | none => none
  | some dns64 =>
    if !serving.wantsDns64 client || reply.rcode == .noSuchDomain || dns64.answered reply.answers then none
    else (serving.cachedOrResolve caches (aQuery client)).map fun answers => (dns64, answers)

def soaTtl (reply : Sent) : Option Ttl :=
  (reply.authority.find? fun rr => rr.rdata.rtype == SOA).map ResourceRecord.ttl

def synthesizedAaaa (caches : Caches) (reply : Sent) : Option Sent :=
  match serving.dns64Source client caches reply with
  | none => none
  | some (dns64, source) =>
    let synthesized := dns64.synthesize source (soaTtl reply)
    if synthesized.isEmpty then none else some ⟨.ok, synthesized, [], reply.truncated⟩

def finishDns64 (caches : Caches) (way : Way) (reply : Sent) : Outcome :=
  match serving.synthesizedAaaa client caches reply with
  | some synthesized => .sent .dns64 synthesized
  | none => .sent way reply

def REVERSE_CNAME_TTL : UInt32 := 3600

def reverseDns64 (target : Name) : Sent :=
  match RecordData.fromParsed (.cname target) with
  | .error _ => serverFailure
  | .ok rdata =>
    let cname : ResourceRecord := ⟨client.query.qname, .IN, ⟨REVERSE_CNAME_TTL⟩, rdata⟩
    let ptr : QuerySection := ⟨target, .of PTR, client.query.qclass⟩
    ⟨.ok, cname :: (serving.cachedOrResolve serving.caches ptr).getD [], [], false⟩

def reverseTarget : Option Name :=
  if client.query.qtype.is PTR then
    serving.dns64.bind fun dns64 => dns64.reverseTarget client.query.qname
  else none

/-! ## The query -/

def asked : Option Rewrite :=
  if serving.special.isSome then none
  else serving.policy.beforeQuery client.peer client.query.qname client.query.qtype

def respond : Obtained × Caches → Outcome
  | (.held reply, caches) => serving.finishDns64 client caches .synthesis reply
  | (.bogus, _) => .sent .failed serverFailure
  | (.stopped (some hit), _) =>
    match applyPolicy client.transport hit with
    | some reply => .policed hit reply
    -- the source holds this for unreachable
    | none => .panicked
  | (.stopped none, caches) => serving.finishDns64 client caches .failed serverFailure
  | (.checked way reply, caches) =>
    match (serving.policy.onAnswer reply.answers client.query.qname client.query.qtype).bind fun rewrite =>
        (applyPolicy client.transport rewrite).map fun reply => (rewrite, reply) with
    | some (rewrite, reply) => .policed rewrite reply
    | none => serving.finishDns64 client caches way reply

def handleQuery : Handled :=
  match serving.special with
  | some reply => ⟨[], .sent .special reply⟩
  | none =>
    match (serving.asked client).bind fun rewrite =>
        (applyPolicy client.transport rewrite).map fun reply => (rewrite, reply) with
    | some (rewrite, reply) => ⟨[], .policed rewrite reply⟩
    | none =>
      match serving.reverseTarget client with
      | some target => ⟨[], .sent .reverse (serving.reverseDns64 client target)⟩
      | none => ⟨(serving.gather client).1, serving.respond client (serving.gather client).2⟩

end Serving

end Rdns.Policy
