import Rdns.Answer.Resolve
import Rdns.Lib.Fallible
import Rdns.Resolver.Hints

/-!
# Rdns — Walking down from the root

`rdns/src/resolver/recurse.rs`: referrals, the CNAME chain, nameserver lookups, and the budgets
that stop them. Every loop of the source counts on a number of its own; a nested nameserver
lookup is the same function with one nesting less to spend.

The servers, the clock, the nameserver policy and the other resolutions are a `World`: a state
of any type, and what each question to it makes of that state.
-/

namespace Rdns.Resolver

open Rdns.Lib Rdns.Lib.Fallible Rdns.Core Rdns.Dnssec Rdns.Answer RecordTypes

/-! ## Configuration -/

inductive RouteKind where
  | forward
  | stub
  | localZone
deriving DecidableEq

structure Route where
  name : Name
  kind : RouteKind
  servers : List SocketAddr
  validate : Bool

structure ResolverConfig where
  routes : List Route
  rootHints : List SocketAddr
  maxDelegations : Nat
  maxCnameHops : Nat
  queryBudget : Nat
  qnameMinimization : Bool
  dnssec : Bool

namespace ResolverConfig

def routeFor (config : ResolverConfig) (name : Name) : Option Route :=
  (config.routes.filter fun route => name.isAtOrUnder route.name).reverse.maxOn? fun route =>
    route.name.labelCount

def localRoot (config : ResolverConfig) : Option (List SocketAddr) :=
  (config.routes.find? fun route => route.name.isRoot && route.kind == .stub).map Route.servers

end ResolverConfig

def DNS_PORT : UInt16 := 53

def MINIMIZED_PROBE_TYPE : Qtype := .of A

def MAX_MINIMISE_COUNT : Nat := 10

def MAX_NESTED : Nat := 4

inductive Probe where
  | none
  | localRoot
deriving DecidableEq

/-! ## Failures -/

inductive NoResponse where
  | cnameLoop (name : Name)
  | cnameChainTooLong (hops : Nat)
  | nestedTooDeep
  | noForwarder (route qname : Name)
  | noServer (zone qname : Name)
  | localRootRefused
  | noNameserver (zone : Name)
  | lame (zone qname : Name)
  | tooManyReferrals (most : Nat) (qname : Name)
  | substitutionTooLong (target owner qname : Name)

inductive ResolveError where
  | noResponse (why : NoResponse)
  | policyStopped
  | wire (error : WireError)

/-! ## Negative trust anchors -/

/-- A subtree exempt from validation for a while (RFC 7646). -/
structure Nta where
  name : Name
  expires : Nat
  recheck : Bool

/-- The anchor that exempts `qname`: the most specific that covers it, unless a positive anchor
strictly below it and above the name resumes validation. -/
def coveringNta (ntas : List Nta) (qname : Name) (now : Nat) (anchors : TrustAnchors) : Option Nta :=
  ((ntas.filter fun nta => decide (now < nta.expires) && qname.isAtOrUnder nta.name).reverse.maxOn?
    fun nta => nta.name.labelCount).filter fun nta =>
      !anchors.any fun ds =>
        !ds.owner.same nta.name && ds.owner.isAtOrUnder nta.name && qname.isAtOrUnder ds.owner

/-! ## The world -/

structure World (σ : Type) where
  now : σ → Nat
  meanwhile : Hints → σ → Hints × σ
  /-- One call of `query_server`, with or without recursion desired: the reply, where one came
  that matches the query. -/
  queryServer : SocketAddr → QuerySection → Bool → σ → Option DnsMessage × σ
  order : List SocketAddr → σ → List SocketAddr
  answerLocally : Route → QuerySection → σ → Except ResolveError DnsMessage × σ
  allows : List Name → List SocketAddr → σ → Bool × σ
  trustAnchors : σ → TrustAnchors
  ntas : σ → List Nta

inductive Exchange where
  | atServer (server : SocketAddr) (zone : Name) (query : QuerySection) (reply : Option DnsMessage)
  | atLocalZone (zone : Name) (query : QuerySection) (reply : DnsMessage)
deriving DecidableEq

structure Progress (σ : Type) where
  state : Resolution
  localRootAnswered : Bool
  hints : Hints
  outside : σ
  exchanges : List Exchange

abbrev Course (σ : Type) := Fallible ResolveError (Progress σ)

structure Answered where
  response : DnsMessage
  zone : Name

section

variable {σ : Type} (world : World σ) (config : ResolverConfig)

def withHints {α : Type} (use : Nat → Hints → α × Hints) : Course σ α := do
  let s ← get
  let (hints, outside) := world.meanwhile s.hints s.outside
  let (found, hints) := use (world.now outside) hints
  set { s with hints, outside }
  return found

def modifyState (f : Resolution → Resolution) : Course σ Unit := do
  let s ← get
  set { s with state := f s.state }

def allows (nsNames : List Name) (servers : List SocketAddr) : Course σ Unit := do
  let s ← get
  let (allowed, outside) := world.allows nsNames servers s.outside
  set { s with outside }
  onlyIf (!allowed) (throw .policyStopped)

/-! ## Asking servers -/

def askEach (query : QuerySection) (zone : Name) (forwarded : Bool) :
    List SocketAddr → Course σ (Option DnsMessage)
  | [] => return none
  | server :: rest => do
    let s ← get
    match s.state.spend with
    | none => return none
    | some state =>
      let (reply, outside) := world.queryServer server query forwarded s.outside
      set { s with state, outside, exchanges := .atServer server zone query reply :: s.exchanges }
      match reply with
      | some reply => return some reply
      | none => askEach query zone forwarded rest

def askAny (servers : List SocketAddr) (query : QuerySection) (zone : Name) (forwarded : Bool) :
    Course σ (Option DnsMessage) := do
  let s ← get
  askEach world query zone forwarded (world.order servers s.outside)

def localRootInUse : Course σ Bool := withHints world fun _ hints => (hints.localRootUp, hints)

def localRootDown : Course σ Unit := withHints world fun _ hints => ((), { hints with localRootUp := false })

/-! ## Referrals -/

structure Referral where
  zone : Name
  nsNames : List Name
  glue : List SocketAddr
  ttl : Nat

structure Delegating where
  childZone : Option Name
  nsNames : List Name
  ttl : Option Nat

def shorter (ttl : Option Nat) (rr : ResourceRecord) : Option Nat :=
  some (match ttl with
    | none => rr.ttl.secs.toNat
    | some ttl => min ttl rr.ttl.secs.toNat)

def Delegating.take (zone qname : Name) (acc : Delegating) (rr : ResourceRecord) : Delegating :=
  if rr.rdata.rtype ≠ NS ∨ !rr.name.isAtOrUnder zone ∨ rr.name.same zone ∨
      !qname.isAtOrUnder rr.name ∨ acc.childZone.any (fun child => !child.same rr.name) then acc
  else
    let acc := { acc with childZone := some (acc.childZone.getD rr.name) }
    match rr.rdata.parse with
    | .ok (.ns target) => { acc with nsNames := acc.nsNames ++ [target], ttl := shorter acc.ttl rr }
    | _ => acc

def addressOf (rr : ResourceRecord) : Option SocketAddr :=
  match rr.rdata.parse with
  | .ok (.a addr) => some (.v4 ⟨addr.octets, addr.length_ok⟩ DNS_PORT)
  | .ok (.aaaa addr) => some (.v6 ⟨addr.octets, addr.length_ok⟩ 0 DNS_PORT)
  | _ => none

def extractReferral (response : DnsMessage) (zone qname : Name) : Option Referral :=
  let named := response.authorities.foldl (Delegating.take zone qname) ⟨none, [], none⟩
  named.childZone.map fun child =>
    let usable := response.additionals.filter fun rr =>
      named.nsNames.any (·.same rr.name) && rr.name.isAtOrUnder zone && (addressOf rr).isSome
    { zone := child
      nsNames := named.nsNames
      glue := usable.filterMap addressOf
      ttl := (usable.foldl shorter named.ttl).getD 0 }

/-! ## One walk -/

structure WalkPosition where
  zone : Name
  servers : List SocketAddr
  sentLabels : Nat
  minimizedProbes : Nat
  first : Option DnsMessage

section Nested

-- a nested resolution, one nesting deeper
variable (nested : QuerySection → Course σ Answered)

def resolveNameserver (name : Name) : List Qtype → Course σ (List SocketAddr)
  | [] => return []
  | qtype :: rest => do
    match ← observing (nested ⟨name, qtype, .in⟩) with
    | .error _ => resolveNameserver name rest
    | .ok answered =>
      let addrs := answered.response.answers.filterMap addressOf
      if addrs.isEmpty then resolveNameserver name rest else return addrs

def resolveNameserverAddresses : List Name → Course σ (List SocketAddr)
  | [] => return []
  | name :: rest => do
    let addrs ← resolveNameserver nested name [.of A, .of AAAA]
    if addrs.isEmpty then resolveNameserverAddresses rest else return addrs

def reply (query step : QuerySection) (position : WalkPosition) : Course σ DnsMessage := do
  match position.first with
  | some localReply => return localReply
  | none =>
    let isLocalRoot := position.zone.isRoot && config.localRoot.any (· == position.servers)
    match ← askAny world position.servers step position.zone false with
    | none =>
      onlyIf isLocalRoot (localRootDown world)
      throw (.noResponse (.noServer position.zone query.qname))
    | some response =>
      if isLocalRoot && response.rcode == .refused then do
        localRootDown world
        throw (.noResponse .localRootRefused)
      else return response

def serversOf (referral : Referral) : Course σ (List SocketAddr) :=
  if referral.glue.isEmpty then resolveNameserverAddresses nested referral.nsNames
  else return referral.glue

def follow (response : DnsMessage) (referral : Referral) (probes : Nat) : Course σ WalkPosition := do
  -- the only pass where the parent's DS is in front of us
  onlyIf config.dnssec (modifyState fun state => state.recordCut referral.zone response.authorities)
  let servers ← serversOf nested referral
  onlyIf servers.isEmpty (throw (.noResponse (.noNameserver referral.zone)))
  allows world referral.nsNames servers
  withHints world fun now hints =>
    ((), { hints with
      delegations := hints.delegations.insert now referral.zone servers referral.nsNames referral.ttl })
  return ⟨referral.zone, servers, referral.zone.labelCount + 1, probes, none⟩

def stepName (query : QuerySection) (position : WalkPosition) : Name :=
  let minimizing := position.first.isNone && config.qnameMinimization &&
    decide (position.minimizedProbes < MAX_MINIMISE_COUNT)
  query.qname.suffix (if minimizing then min position.sentLabels query.qname.labelCount
    else query.qname.labelCount)

def walkSteps (query : QuerySection) : Nat → WalkPosition → Course σ Answered
  | 0, _ => throw (.noResponse (.tooManyReferrals config.maxDelegations query.qname))
  | steps + 1, position => do
    let sname := stepName config query position
    let isFinal := sname.same query.qname
    let probes := if isFinal then position.minimizedProbes else position.minimizedProbes + 1
    let step : QuerySection :=
      ⟨sname, if isFinal then query.qtype else MINIMIZED_PROBE_TYPE, query.qclass⟩
    let response ← reply world config query step position
    match extractReferral response position.zone query.qname with
    | some referral =>
      let position ← follow world config nested response referral probes
      walkSteps query steps position
    | none =>
      if isFinal then
        -- no answer, no AA, no referral: lame
        if !response.answers.isEmpty || response.authoritive then return ⟨response, position.zone⟩
        else throw (.noResponse (.lame position.zone query.qname))
      -- an ancestor that does not exist
      else if response.rcode == .noSuchDomain then return ⟨response, position.zone⟩
      else
        walkSteps query steps
          { position with sentLabels := sname.labelCount + 1, minimizedProbes := probes, first := none }

def walkFrom (query : QuerySection) (zone : Name) (servers : List SocketAddr) (first : Option DnsMessage) :
    Course σ Answered :=
  walkSteps world config nested query (config.maxDelegations + query.qname.labelCount + 1)
    ⟨zone, servers, zone.labelCount + 1, 0, first⟩

def walk (query : QuerySection) (zone : Name) (servers : List SocketAddr) : Course σ Answered :=
  walkFrom world config nested query zone servers none

/-! ## Where a walk starts -/

variable (probe : Probe)

def routeInForce (qname : Name) : Course σ (Option Route) := do
  let inUse ← localRootInUse world
  return (config.routeFor qname).filter fun route =>
    !(route.name.isRoot && probe == .none && config.localRoot.isSome && !inUse)

def forwardTo (route : Route) (query : QuerySection) : Course σ Answered := do
  match ← askAny world route.servers query route.name true with
  | none => throw (.noResponse (.noForwarder route.name query.qname))
  | some response => return ⟨response, route.name⟩

def trustStart (zone : Name) (keys : Option (List Dnskey)) : Course σ Unit :=
  match keys with
  | none => return ()
  | some keys => modifyState fun state => state.recordTrustedStart zone keys

def fromShortcut (route : Option Route) (query : QuerySection) : Course σ (Option Answered) := do
  let found ← withHints world (Hints.bestStart config.dnssec query.qname)
  let shortcut := found.filter fun start => route.all fun route =>
    !start.1.zone.same route.name && start.1.zone.isAtOrUnder route.name
  match shortcut with
  | none => return none
  | some (start, keys) =>
    allows world start.nsNames start.servers
    trustStart start.zone keys
    match ← observing (walk world config nested query start.zone start.servers) with
    | .ok answered => return some answered
    | .error .policyStopped => throw .policyStopped
    | .error _ =>
      -- a cached delegation goes stale
      withHints world fun _ hints => ((), { hints with delegations := hints.delegations.forget start.zone })
      return none

def fromLocalRoot (route : Route) (query : QuerySection) : Course σ Answered := do
  match ← observing (walk world config nested query route.name route.servers) with
  | .ok answered =>
    let s ← get
    set { s with localRootAnswered := s.localRootAnswered || answered.zone.isRoot }
    return answered
  | .error e =>
    let inUse ← localRootInUse world
    match e with
    | .policyStopped => throw .policyStopped
    | e =>
      if probe == .none && config.localRoot.isSome && !inUse then
        walk world config nested query Name.root config.rootHints
      else throw e

def askLocally (route : Route) (query : QuerySection) : Course σ DnsMessage := do
  let s ← get
  match world.answerLocally route query s.outside with
  | (.error e, outside) =>
    set { s with outside }
    throw e
  | (.ok first, outside) =>
    set { s with outside, exchanges := .atLocalZone route.name query first :: s.exchanges }
    return first

def fromTop (route : Option Route) (query : QuerySection) : Course σ Answered := do
  match route with
  | none => walk world config nested query Name.root config.rootHints
  | some route =>
    if route.kind == .localZone then
      let first ← askLocally world route query
      walkFrom world config nested query route.name [] (some first)
    else if route.name.isRoot && route.kind == .stub then fromLocalRoot world config nested probe route query
    else walk world config nested query route.name route.servers

def fromKnown (route : Option Route) (query : QuerySection) : Course σ Answered := do
  match ← fromShortcut world config nested route query with
  | some answered => return answered
  | none => fromTop world config nested probe route query

def resolveOne (query : QuerySection) : Course σ Answered := do
  match ← routeInForce world config probe query.qname with
  | none => fromKnown world config nested probe none query
  | some route =>
    allows world [] route.servers
    if route.kind == .forward then forwardTo world route query
    else fromKnown world config nested probe (some route) query

end Nested

/-- One name's worth of delegation walking, with so many nestings to spend: a nameserver lookup
is this again, with one less. -/
def resolveFromRoot (probe : Probe) : Nat → QuerySection → Course σ Answered
  | 0, _ => throw (.noResponse .nestedTooDeep)
  | nesting + 1, query => resolveOne world config (resolveFromRoot probe nesting) probe query

end

end Rdns.Resolver
