import Rdns.Resolver.DnameReplies

/-!
# Rdns — Answers that rest on a local zone

`touches_local_zone` of `rdns/src/resolver.rs` tells the answers that are not to be cached, so
that a reload of a local zone takes effect at once. It looks at the name asked for and at the
owners of the answer records. A local zone that says there is nothing at the end of a chain of
aliases leaves no record, and neither does one that gives a nameserver's address.
-/

namespace Rdns.Resolver

open Rdns.Lib Rdns.Lib.Fallible Rdns.Core Rdns.Zones Rdns.Dnssec Rdns.Answer RecordTypes

namespace ResolverConfig

def isLocal (config : ResolverConfig) (name : Name) : Bool :=
  (config.routeFor name).any fun route => route.kind == .localZone

def touchesLocalZone (config : ResolverConfig) (query : QuerySection) (response : DnsMessage) : Bool :=
  ((query.qname :: response.answers.map ResourceRecord.name).filterMap config.routeFor).any fun route =>
    route.kind == .localZone

theorem any_routes_iff {config : ResolverConfig} {p : Route → Bool} {query : QuerySection} {response : DnsMessage} :
    ((query.qname :: response.answers.map ResourceRecord.name).filterMap config.routeFor).any p = true ↔
      (config.routeFor query.qname).any p = true ∨ ∃ rr ∈ response.answers, (config.routeFor rr.name).any p = true := by
  rw [List.any_eq_true]
  simp only [List.mem_filterMap, List.mem_cons, List.mem_map, Option.any_eq_true]
  constructor
  · grind
  · grind

theorem routeFor_congr {config : ResolverConfig} {a b : Name} (h : a.same b = true) :
    config.routeFor a = config.routeFor b := by
  simp only [routeFor, isAtOrUnder_congr_left h]

end ResolverConfig

def Progress.AskedLocally {σ : Type} (s : Progress σ) : Prop :=
  ∃ zone query reply, .atLocalZone zone query reply ∈ s.exchanges

def Hop.name (hop : Hop) : Option Name := hop.chain.head?

def LeavesTrace (config : ResolverConfig) : List Hop → Prop
  | [] => False
  | [hop] => ∃ name ∈ hop.name, config.isLocal name = true ∧
      ∃ rr ∈ hop.answered.response.answers, name.same rr.name = true
  | hop :: rest => (∃ name ∈ hop.name, config.isLocal name = true) ∨ LeavesTrace config rest

/-! ## What a hop leaves in the answer -/

section Hop

variable {config : ResolverConfig} {query : QuerySection} {answered : Answered} {c c' : Chase} {next : Name}

theorem exists_of_targetOf {answers : List ResourceRecord} {owner target : Name}
    (h : targetOf answers owner = some target) : ∃ rr ∈ answers, rr.name.same owner = true := by
  obtain ⟨rr, hrr, hsome⟩ := List.exists_of_findSome?_eq_some h
  split at hsome
  next hsame => exact ⟨rr, hrr, hsame⟩
  next => cases hsome

theorem of_hop_next
    (h : Chase.hop config query answered { c with queried := c.qname :: c.queried } = .ok (c', some next)) :
    (∃ rr ∈ c'.answers, rr.name.same c.qname = true) ∧ c'.chain.head? = some next := by
  rw [Chase.hop, qname_foldl] at h
  dsimp only at h
  obtain ⟨cname, hcname, h⟩ := except_bind_eq_ok.mp h
  obtain ⟨synthesized, hsynthesized, h⟩ := except_bind_eq_ok.mp h
  obtain ⟨rfl, hnext⟩ := Prod.mk.inj (Except.ok.inj h)
  split at hnext
  · cases hnext
  · refine ⟨?_, by rw [hnext]; rfl⟩
    cases cname with
    | some target =>
      rw [chainEnd] at hcname
      split at hcname
      · cases hcname
      next first hfirst =>
        obtain ⟨rr, hrr, hsame⟩ := exists_of_targetOf hfirst
        exact ⟨rr, List.mem_append_left _ hrr, hsame⟩
    | none =>
      obtain ⟨⟨name, rr⟩, rfl, rfl⟩ := Option.map_eq_some_iff.mp hnext
      have hmade : synthesizeFromDname answered.zone c.qname answered.response.answers = .ok (some (name, rr)) := by grind [synthesis]
      obtain ⟨-, -, -, -, -, howner, -⟩ := of_synthesizeFromDname hmade
      exact ⟨rr, List.mem_append_right _ (List.mem_singleton_self _), by rw [howner, Name.same_self]⟩

end Hop

/-! ## A whole resolution -/

section Chase

variable {config : ResolverConfig} {query : QuerySection}

theorem isLocal_congr {a b : Name} (h : a.same b = true) : config.isLocal a = config.isLocal b := by
  rw [ResolverConfig.isLocal, ResolverConfig.isLocal, ResolverConfig.routeFor_congr h]

theorem Chased.local_answer {c : Chase} {hops : List Hop} {response : DnsMessage}
    (h : Chased config query c hops response) (hhead : c.chain.head? = some c.qname)
    (htrace : LeavesTrace config hops) : ∃ rr ∈ response.answers, config.isLocal rr.name = true := by
  induction h with
  | @last c c' answered hhop =>
    obtain ⟨name, hname, hlocal, rr, hrr, hsame⟩ := htrace
    have hchain : c.chain.any (·.same rr.name) = true := by
      rw [List.any_eq_true]
      exact ⟨name, List.mem_of_mem_head? hname, hsame⟩
    exact ⟨rr, mem_hop_of_qname hhop hrr hchain, isLocal_congr hsame ▸ hlocal⟩
  | @more c c' answered next hops response hhop hrest ih =>
    obtain ⟨⟨rr, hrr, hsame⟩, hnext⟩ := of_hop_next hhop
    have hcases : (∃ name ∈ (⟨c.chain, answered⟩ : Hop).name, config.isLocal name = true) ∨ LeavesTrace config hops := by
      cases hrest <;> exact htrace
    rcases hcases with ⟨name, hname, hlocal⟩ | htrace
    · obtain rfl : c.qname = name := Option.some.inj (hhead.symm.trans hname)
      exact ⟨rr, hrest.answers_subset hrr, isLocal_congr hsame ▸ hlocal⟩
    · exact ih hnext htrace

variable {σ : Type} {world : World σ} {probe : Probe}

/-- **An answer that rests on a local zone is not cached**, where a name of such a zone is the one
asked for, leads on to another, or has a record at the end. -/
theorem touches_of_leavesTrace {s t : Progress σ} {response : DnsMessage}
    (hrun : (recurse world config probe query).out s = (.ok response, t)) :
    ∃ hops, Chased config query (.start query.qname) hops response ∧ (∀ hop ∈ hops, t.Heard hop.answered) ∧
      ((t.AskedLocally → config.isLocal query.qname = true ∨ LeavesTrace config hops) →
        t.AskedLocally → config.touchesLocalZone query (relayed config query response) = true) := by
  obtain ⟨hops, hchased, hheard⟩ := chased_of_recurse world config probe query hrun
  refine ⟨hops, hchased, hheard, fun htrace hasked => ?_⟩
  rw [ResolverConfig.touchesLocalZone, ResolverConfig.any_routes_iff]
  exact (htrace hasked).imp_right (hchased.local_answer rfl)

end Chase

/-! ## An alias into a local zone -/

def lan : Name := ⟨[[108, 97, 110]], by decide, by decide⟩
def wwwLan : Name := ⟨[[119, 119, 119], [108, 97, 110]], by decide, by decide⟩
def goneLan : Name := ⟨[[103, 111, 110, 101], [108, 97, 110]], by decide, by decide⟩

def lanZone : Zone :=
  zoneOf lan [⟨lan, ⟨300⟩, .IN, ⟨SOA, wireOf [] ++ wireOf [] ++ List.replicate 20 0⟩⟩, addressAt wwwLan]

def lanConfig : ResolverConfig := { exConfig with routes := [⟨lan, .localZone, [], false⟩, ⟨ex, .stub, [exServer], false⟩] }

def lanWorld (answers : List ResourceRecord) : World Unit :=
  { replying answers with
    answerLocally _ query s :=
      ((zoneReply unusedSha1 lanZone (requestFor query) query.qname query.qtype true).mapError .wire, s) }

def lanRun (answers : List ResourceRecord) (qname : Name) : Except ResolveError DnsMessage × Progress Unit :=
  (recurse (lanWorld answers) lanConfig .none ⟨qname, .of A, .in⟩).out (.begin lanConfig noHints ())

instance {σ : Type} (s : Progress σ) : Decidable s.AskedLocally :=
  decidable_of_iff (s.exchanges.any fun exchange => !exchange.isQuery) <| by
    rw [List.any_eq_true]
    constructor
    · rintro ⟨exchange, hmem, hlocal⟩
      cases exchange with
      | atServer => cases hlocal
      | atLocalZone zone query reply => exact ⟨zone, query, reply, hmem⟩
    · rintro ⟨zone, query, reply, hmem⟩
      exact ⟨_, hmem, rfl⟩

theorem touches_wwwLan : ∃ response, lanRun [] wwwLan = (.ok response, (lanRun [] wwwLan).2) ∧
    (lanRun [] wwwLan).2.AskedLocally ∧
      lanConfig.touchesLocalZone ⟨wwwLan, .of A, .in⟩
        (relayed lanConfig ⟨wwwLan, .of A, .in⟩ response) = true := by
  have hasked : (lanRun [] wwwLan).2.AskedLocally := by decide +kernel
  obtain ⟨response, hrun, -⟩ := @eq_of_toOption _ _ _ _ (lanRun [] wwwLan) (fun _ => ()) () (by decide +kernel)
  obtain ⟨hops, -, -, htouches⟩ := touches_of_leavesTrace hrun
  exact ⟨response, hrun, hasked, htouches (fun _ => .inl (by decide)) hasked⟩

def aliasToGone : ResourceRecord := ⟨wwwEx, .IN, ⟨300⟩, ⟨CNAME, goneLan.wire⟩⟩

/-- **What a local zone does not have is cached**: an alias to a name it denies leaves no record of
the zone in the answer. -/
theorem absence_cached :
    ¬ ∀ (σ : Type) (world : World σ) (config : ResolverConfig) (query : QuerySection) (hints : Hints) (outside : σ)
      (response : DnsMessage) (t : Progress σ),
      (recurse world config .none query).out (.begin config hints outside) = (.ok response, t) →
      t.AskedLocally → config.touchesLocalZone query (relayed config query response) = true := by
  intro h
  have htouches : (lanRun [aliasToGone] wwwEx).1.toOption.map (fun response =>
      lanConfig.touchesLocalZone ⟨wwwEx, .of A, .in⟩
        (relayed lanConfig ⟨wwwEx, .of A, .in⟩ response)) = some false := by decide +kernel
  obtain ⟨response, hrun, hfalse⟩ := eq_of_toOption htouches
  have htrue := h Unit (lanWorld [aliasToGone]) lanConfig ⟨wwwEx, .of A, .in⟩ noHints () response _ hrun
    (by decide +kernel)
  rw [htrue] at hfalse
  cases hfalse

end Rdns.Resolver
