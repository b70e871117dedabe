import Rdns.Dnssec.SignedRecords
import Rdns.Resolver.Chase
import Rdns.Resolver.TrustedKeys

/-!
# Rdns — How much of a response is authentic

`rdns/src/resolver/validate.rs`, and `resolve_validated` of `rdns/src/resolver.rs` that calls
it: the chain of trust first, the signatures second, and then whether what is signed answers
what was asked.
-/

namespace Rdns.Resolver

open Rdns.Lib Rdns.Lib.Fallible Rdns.Core Rdns.Dnssec RecordTypes

section

variable {σ : Type} (world : World σ) (config : ResolverConfig) (probe : Probe) (crypto : Primitives)

/-! ## The chain of trust -/

def dnskeyTtl (records : List ResourceRecord) : Nat :=
  (((records.filter fun rr => rr.rdata.rtype == DNSKEY).map fun rr => rr.ttl.secs.toNat).min?).getD 0

def fetchDnskeys (zone : Name) : Course σ (List ResourceRecord × Nat) := do
  let answered ← resolveFromRoot world config probe (MAX_NESTED + 1) ⟨zone, .of DNSKEY, .in⟩
  return (answered.response.answers, dnskeyTtl answered.response.answers)

def chainLeft (walk : ChainWalk) : ChainNeed → Nat
  | .done _ => 0
  | .keys _ => 2 * walk.stepsLeft + 2
  | .cutBelow _ => 2 * walk.stepsLeft + 1

theorem chainLeft_establish (walk : ChainWalk) (keys : List Dnskey) (zone : Name) :
    chainLeft (walk.establish keys).1 (walk.establish keys).2 < chainLeft walk (.keys zone) := by
  rw [ChainWalk.establish]
  dsimp only
  split
  · exact Nat.succ_pos _
  · exact Nat.lt_succ_self _

theorem chainLeft_fetchedKeys (walk : ChainWalk) (records : List ResourceRecord) (zone : Name) :
    chainLeft (walk.fetchedKeys crypto records).2.1 (walk.fetchedKeys crypto records).2.2
      < chainLeft walk (.keys zone) := by
  rw [ChainWalk.fetchedKeys]
  split
  · exact chainLeft_establish walk _ zone
  · exact Nat.succ_pos _

theorem chainLeft_needKeys (walk : ChainWalk) :
    chainLeft walk.needKeys.1 walk.needKeys.2 < 2 * walk.stepsLeft + 1 := by
  rw [ChainWalk.needKeys, ChainWalk.takeStep]
  cases hleft : walk.stepsLeft with
  | zero => exact Nat.succ_pos _
  | succ left =>
    show 2 * left + 2 < 2 * (left + 1) + 1
    omega

theorem chainLeft_cut (walk : ChainWalk) (evidence : Option DelegationEvidence) (zone : Name) :
    chainLeft (walk.cut crypto evidence).1 (walk.cut crypto evidence).2 < chainLeft walk (.cutBelow zone) := by
  cases evidence with
  | none => exact Nat.succ_pos _
  | some evidence =>
    rw [ChainWalk.cut]
    split
    · exact chainLeft_needKeys _
    · exact Nat.succ_pos _
    · exact Nat.succ_pos _

def heldKeys (zone : Name) : Course σ (Option (List Dnskey)) :=
  withHints world fun now hints =>
    ((hints.keys.get now zone).1, { hints with keys := (hints.keys.get now zone).2 })

def shareKeys (zone : Name) (validated : Option (List Dnskey)) (ttl : Nat) : Course σ Unit :=
  match validated with
  | none => return ()
  | some keys =>
    withHints world fun now hints => ((), { hints with keys := hints.keys.insert now zone keys ttl })

def feedWalk (target : Name) (walk : ChainWalk) (need : ChainNeed) : Course σ (ValidationState × KeyStore) :=
  match need with
  | .done state => return (state, walk.intoKeys)
  | .keys zone => do
    match ← heldKeys world zone with
    | some held => feedWalk target (walk.heldKeys held).1 (walk.heldKeys held).2
    | none =>
      match ← observing (fetchDnskeys world config probe zone) with
      | .error _ => feedWalk target walk.fetchFailed.1 walk.fetchFailed.2
      | .ok (records, ttl) =>
        shareKeys world zone (walk.fetchedKeys crypto records).1 ttl
        feedWalk target (walk.fetchedKeys crypto records).2.1 (walk.fetchedKeys crypto records).2.2
  | .cutBelow zone => do
    let s ← get
    feedWalk target (walk.cut crypto (s.state.nextCutBelow zone target)).1
      (walk.cut crypto (s.state.nextCutBelow zone target)).2
termination_by chainLeft walk need
decreasing_by
  · exact chainLeft_establish walk _ zone
  · exact Nat.succ_pos _
  · exact chainLeft_fetchedKeys crypto walk _ zone
  · exact chainLeft_cut crypto walk _ zone

def establishChain (target : Name) (anchors : TrustAnchors) (now : Nat) :
    Course σ (ValidationState × KeyStore) := do
  let s ← get
  let next := ChainWalk.start anchors now target s.state.trusted
  feedWalk world config probe crypto target next.1 next.2

def establishChains (anchors : TrustAnchors) (now : Nat) :
    List Name → KeyStore → Course σ (ValidationState × KeyStore)
  | [], keys => return (.secure, keys)
  | signer :: rest, keys => do
    let (state, more) ← establishChain world config probe crypto signer anchors now
    match state with
    | .secure => establishChains anchors now rest (KeyStore.extend keys more)
    | state => return (state, keys)

/-! ## Validation -/

def checkDenial (query : QuerySection) (deniedName : Name) (response : DnsMessage) : ValidationState :=
  let nsecs := nsecsIn response.authorities
  let nsec3s := nsec3sIn response.authorities
  if nsecs.isEmpty && nsec3s.isEmpty then
    .bogus ⟨.NSEC_MISSING, "was denied without an NSEC or NSEC3 proof"⟩
  else
    -- the zone the proof came from: the owner of the SOA
    let zone := ((response.authorities.find? fun rr => rr.rdata.rtype == SOA).map
      ResourceRecord.name).getD deniedName
    let denial :=
      if response.rcode == .noSuchDomain then provesNxdomain crypto.sha1 deniedName zone nsecs nsec3s
      else provesNodata crypto.sha1 deniedName zone ⟨query.qtype.code⟩ nsecs nsec3s
    match denial with
    | .proved => .secure
    | .notProved _ => .bogus ⟨.NSEC_MISSING, "the denial does not prove it"⟩

def deniedName (query : QuerySection) (response : DnsMessage) : Name :=
  match cnameChainShape query.qname query.qtype response.answers with
  | .intact finalName => finalName
  | .broken _ => query.qname

def isNegative (query : QuerySection) (response : DnsMessage) : Bool :=
  !response.answers.any fun rr =>
    query.qtype.matches rr.rdata.rtype && rr.name.same (deniedName query response)

def recordsToCheck (query : QuerySection) (response : DnsMessage) : List ResourceRecord :=
  response.answers ++ if isNegative query response then response.authorities else []

def signersOf (records : List ResourceRecord) : List Name :=
  (rrsigsIn records).foldl (fun signers rrsig =>
    if signers.any (·.same rrsig.signerName) then signers else signers ++ [rrsig.signerName]) []

def judge (query : QuerySection) (response : DnsMessage) (denials : List ResourceRecord)
    (validator : ChainValidator) (keys : KeyStore) : ValidationState :=
  let verdict := validator.validateRecords crypto (recordsToCheck query response) keys
  if !verdict.state.isSecure then verdict.state
  else
    match cnameChainShape query.qname query.qtype response.answers with
    -- a chain that is not a chain is not laundered into a denial, or into an answer
    | .broken why => .bogus ⟨.DNSSEC_BOGUS, why⟩
    | .intact finalName =>
      if isNegative query response then checkDenial crypto query finalName response
      -- a wildcard signature verifies at any expansion; its denial may have come earlier
      else if verdict.wildcards.isEmpty then .secure
      else validator.validateWildcardProofs crypto (response.authorities ++ denials) keys verdict.wildcards

def validate (query : QuerySection) (response : DnsMessage) (anchors : TrustAnchors) :
    Course σ ValidationState := do
  let s ← get
  let now := world.now s.outside
  match signersOf (recordsToCheck query response) with
  | [] =>
    -- an unsigned zone, or a signed one stripped in flight
    let (state, _) ← establishChain world config probe crypto query.qname anchors now
    match state with
    | .secure => return .bogus ⟨.RRSIGS_MISSING, "lies in a signed zone but nothing in the answer is signed"⟩
    | state => return state
  | signers =>
    let (state, keys) ← establishChains world config probe crypto anchors now signers []
    match state with
    | .secure =>
      let s ← get
      return judge crypto query response s.state.denials ⟨anchors, now⟩ keys
    | state => return state

/-! ## Resolution -/

def unvalidatedRoute (query : QuerySection) (response : DnsMessage) : Bool :=
  ((query.qname :: response.answers.map ResourceRecord.name).filterMap config.routeFor).any fun route =>
    !route.validate

def exemption (honoured : Bool) (query : QuerySection) (response : DnsMessage) (anchors : TrustAnchors)
    (ntas : List Nta) (now : Nat) : Option String :=
  if unvalidatedRoute config query response then some "a routed domain is not validated"
  else if honoured && (coveringNta ntas query.qname now anchors).isSome then some "negative trust anchor"
  else none

def validateUnlessExempt (honoured : Bool) (query : QuerySection) (response : DnsMessage) :
    Course σ ValidationState := do
  let s ← get
  -- taken once for the whole resolution
  let anchors := world.trustAnchors s.outside
  match exemption config honoured query response anchors (world.ntas s.outside) (world.now s.outside) with
  | some why => return .indeterminate why
  | none =>
    let verdict ← validate world config probe crypto query response anchors
    let s ← get
    onlyIf (verdict.isBogus && config.localRoot.isSome && s.localRootAnswered) (localRootDown world)
    return verdict

def relayed (query : QuerySection) (response : DnsMessage) : DnsMessage :=
  { response with
    queries := [query]
    authoritive := response.authoritive &&
      (config.routeFor query.qname).any fun route => route.kind == .localZone }

def resolveUntimed (honoured : Bool) (query : QuerySection) : Course σ (DnsMessage × ValidationState) := do
  let response ← recurse world config probe query
  let response := relayed config query response
  if config.dnssec then
    let verdict ← validateUnlessExempt world config probe crypto honoured query response
    return (response, verdict)
  else return (response, .indeterminate "DNSSEC validation is not enabled")

def Progress.begin (hints : Hints) (outside : σ) : Progress σ :=
  ⟨.new config.queryBudget, false, hints, outside, []⟩

/-- One `resolve_validated`: the answer, and everything that happened. -/
def resolveValidated (query : QuerySection) (hints : Hints) (outside : σ) :
    Except ResolveError (DnsMessage × ValidationState) × Progress σ :=
  Fallible.out (resolveUntimed world config .none crypto true query) (.begin config hints outside)

end

end Rdns.Resolver
