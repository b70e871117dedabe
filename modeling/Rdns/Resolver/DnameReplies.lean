import Rdns.Answer.Redirections
import Rdns.Resolver.HonestServers
import Rdns.Resolver.Verdicts

/-!
# Rdns — A redirection through a DNAME, validated

A zone answers a name below a DNAME with the DNAME, its signature and a CNAME of its own
making, which is never signed. The resolver takes the CNAME for a record of the answer, and the
validator asks every record of the answer for a signature.
-/

namespace Rdns.Resolver

open Rdns.Lib Rdns.Lib.Fallible Rdns.Core Rdns.Present Rdns.Dnssec Rdns.Answer Rdns.Zones
  RecordTypes

/-! ## What a resolution returns -/

section Chase

variable {σ : Type} {world : World σ} {config : ResolverConfig} {probe : Probe} {query : QuerySection}

variable {response : DnsMessage} {hops : List Hop}

theorem chased_first {s s' t : Progress σ} {answered : Answered}
    (hfirst : (resolveFromRoot world config probe (MAX_NESTED + 1) query).out s = (.ok answered, s'))
    (hrun : (recurse world config probe query).out s = (.ok response, t)) :
    ∃ hops, Chased config query (.start query.qname) (⟨[query.qname], answered⟩ :: hops) response ∧
      ∀ hop ∈ (⟨[query.qname], answered⟩ : Hop) :: hops, t.Heard hop.answered := by
  have hheard : s'.Heard answered := by
    have hmeets := (meets_resolveFromRoot world config probe (MAX_NESTED + 1) query).result s answered trivial
    rw [hfirst] at hmeets
    exact hmeets rfl
  rw [recurse] at hrun
  cases hhops : config.maxCnameHops with
  | zero =>
    rw [hhops, chase] at hrun
    split at hrun <;> cases hrun
  | succ left =>
    rw [hhops, chase] at hrun
    split at hrun
    · cases hrun
    · rw [out_bind] at hrun
      rw [show (⟨(Chase.start query.qname).qname, query.qtype, query.qclass⟩ : QuerySection) = query from rfl,
        hfirst] at hrun
      have hafter : ∀ m : Course σ DnsMessage,
          Meets Along (fun u : Progress σ => u.Heard answered) m (fun response u =>
            ∃ hops, Chased config query (.start query.qname) (⟨[query.qname], answered⟩ :: hops) response ∧
              ∀ hop ∈ (⟨[query.qname], answered⟩ : Hop) :: hops, u.Heard hop.answered) →
          m.out s' = (.ok response, t) →
          ∃ hops, Chased config query (.start query.qname) (⟨[query.qname], answered⟩ :: hops) response ∧
            ∀ hop ∈ (⟨[query.qname], answered⟩ : Hop) :: hops, t.Heard hop.answered := by
        intro m hmeets hout
        have hresult := hmeets.result s' response hheard
        rw [hout] at hresult
        exact hresult rfl
      -- the rest of the hop, from where the reply left the resolution
      refine hafter _ ?_ hrun
      refine .bind (Q := fun _ u => u.Heard answered) (.onlyIf (fun _ => ?_) fun _ _ h => h) fun _ => ?_
      · exact (goes_modifyState (f := fun state => state.recordDenials answered.response.authorities)
          fun _ => rfl).keeps (stable_heard answered)
      · split
        · exact .throw
        · rename_i c hhop
          refine .pure fun u hu => ⟨[], .last hhop, fun hop hmem => ?_⟩
          rw [List.mem_singleton.mp hmem]
          exact hu
        · rename_i c next hhop
          refine ((meets_chase world config probe query left _).keeping (stable_heard answered)).weaken
            (fun _ h => ⟨trivial, h⟩) ?_
          rintro response u ⟨⟨hops, hchased, hhops⟩, hu⟩
          refine ⟨hops, .more hhop hchased, fun hop hmem => ?_⟩
          rcases List.mem_cons.mp hmem with rfl | hmem
          · exact hu
          · exact hhops hop hmem

section Hop

variable {answered : Answered} {c c' : Chase} {next : Option Name}

section

variable
  (h : Chase.hop config query answered { c with queried := c.qname :: c.queried } = .ok (c', next))
include h

theorem answers_subset_hop : c.answers ⊆ c'.answers := by
  obtain ⟨_, hanswers, -⟩ := of_hop h
  rw [hanswers]
  exact List.Subset.trans (answers_subset_foldl { c with queried := c.qname :: c.queried })
    (List.subset_append_left _ _)

theorem of_mem_hop {rr : ResourceRecord} (hrr : rr ∈ c'.answers) :
    rr ∈ c.answers ∨ rr ∈ answered.response.answers ∨ rr.rdata.rtype = CNAME := by
  have haccepted : ∀ (records : List ResourceRecord) (c : Chase),
      rr ∈ (records.foldl (Chase.accept answered.zone) c).answers → rr ∈ c.answers ∨ rr ∈ records := by
    intro records
    induction records with
    | nil => exact fun _ h => .inl h
    | cons first rest ih =>
      intro c h
      rcases ih _ h with hold | hrest
      · rw [Chase.accept] at hold
        have hone : ∀ {records : List ResourceRecord}, rr ∈ records ++ [first] → rr ∈ records ∨ rr ∈ first :: rest := by
          intro records h
          refine (List.mem_append.mp h).imp_right fun h => ?_
          rw [List.mem_singleton.mp h]
          exact List.mem_cons_self
        split at hold
        · exact hone hold
        · split at hold
          · exact hone hold
          · exact .inl hold
      · exact .inr (List.mem_cons_of_mem _ hrest)
  obtain ⟨synthesized, hanswers, hmade, -⟩ := of_hop h
  rw [hanswers] at hrr
  rcases List.mem_append.mp hrr with hrr | hrr
  · rcases haccepted _ _ hrr with hold | hreply
    · exact .inl hold
    · exact .inr (.inl hreply)
  · obtain ⟨made, hsome, rfl⟩ := Option.map_eq_some_iff.mp (Option.mem_toList.mp hrr)
    obtain ⟨dname, -, -, -, -, -, hfrom⟩ := of_synthesizeFromDname (hmade made hsome)
    obtain ⟨_, _, -, -, hrdata⟩ := hfrom.redirects
    exact .inr (.inr (RecordData.fromParsed_eq_ok hrdata).1)

theorem mem_hop_of_qname {rr : ResourceRecord} (hrr : rr ∈ answered.response.answers)
    (hname : c.chain.any (·.same rr.name) = true) :
    rr ∈ c'.answers := by
  have haccepted : ∀ (records : List ResourceRecord) (c : Chase), rr ∈ records →
      c.chain.any (·.same rr.name) = true → rr ∈ (records.foldl (Chase.accept answered.zone) c).answers := by
    intro records
    induction records with
    | nil => exact fun _ h => by cases h
    | cons first rest ih =>
      intro c hmem hname
      rcases List.mem_cons.mp hmem with rfl | hmem
      · refine answers_subset_foldl (c.accept answered.zone rr) ?_
        rw [Chase.accept, if_pos hname]
        exact List.mem_append_right _ (List.mem_singleton_self _)
      · refine ih _ hmem ?_
        rw [chain_accept, growChain]
        split
        · rw [List.any_append, hname, Bool.or_true]
        · exact hname
  obtain ⟨_, hanswers, -⟩ := of_hop h
  rw [hanswers]
  exact List.mem_append_left _ (haccepted _ _ hrr hname)

end

end Hop

theorem Chased.answers_subset {c : Chase} (h : Chased config query c hops response) :
    c.answers ⊆ response.answers := by
  induction h with
  | last hhop => exact answers_subset_hop hhop
  | more hhop _ ih => exact List.Subset.trans (answers_subset_hop hhop) ih

/-- **A resolution keeps what the first reply holds at the name asked about.** -/
theorem Chased.first_subset {answered : Answered}
    (h : Chased config query (.start query.qname) (⟨[query.qname], answered⟩ :: hops) response)
    {rr : ResourceRecord} (hrr : rr ∈ answered.response.answers)
    (hname : query.qname.same rr.name = true) :
    rr ∈ response.answers := by
  have hchain : (Chase.start query.qname).chain.any (·.same rr.name) = true := by
    rw [Chase.start, List.any_cons, hname, Bool.true_or]
  cases h with
  | last hhop => exact mem_hop_of_qname hhop hrr hchain
  | more hhop hrest => exact hrest.answers_subset (mem_hop_of_qname hhop hrr hchain)

/-- **What a resolution returns** was in a reply, or is a CNAME it made; its authority section is
a reply's. -/
theorem Chased.of_mem {c : Chase} (h : Chased config query c hops response) :
    (∀ rr ∈ response.answers, rr ∈ c.answers ∨ (∃ hop ∈ hops, rr ∈ hop.answered.response.answers) ∨
      rr.rdata.rtype = CNAME) ∧
    ∃ hop ∈ hops, response.authorities = hop.answered.response.authorities := by
  induction h with
  | last hhop => grind [List.mem_singleton_self, of_mem_hop]
  | more hhop _ ih =>
    obtain ⟨hanswers, hop, hmem, hauthorities⟩ := ih
    refine ⟨fun rr hrr => ?_, hop, List.mem_cons_of_mem _ hmem, hauthorities⟩
    rcases hanswers rr hrr with hold | ⟨hop, hmem, hreply⟩ | hcname
    · exact (of_mem_hop hhop hold).imp_right (.imp_left fun hreply => ⟨_, List.mem_cons_self, hreply⟩)
    · exact .inr (.inl ⟨hop, List.mem_cons_of_mem _ hmem, hreply⟩)
    · exact .inr (.inr hcname)

end Chase

/-! ## The verdict -/

def SignsAlias (message : DnsMessage) (name : Name) : Prop :=
  ∃ rrsig ∈ rrsigsIn (message.answers ++ message.authorities), rrsig.owner.same name = true ∧
    rrsig.typeCovered = CNAME

section Verdict

variable {σ : Type} {world : World σ} {config : ResolverConfig} {probe : Probe} {crypto : Primitives}

theorem validate_unsigned {query : QuerySection} {response : DnsMessage} {anchors : TrustAnchors}
    {s : Progress σ} {rr : ResourceRecord} (hchains : ChainsSecure world config probe crypto query response anchors s)
    (hmem : rr ∈ response.answers) (hvalidated : isValidated rr = true)
    (hunsigned : ∀ rrsig ∈ rrsigsIn (recordsToCheck query response), rrsig.owner.same rr.name = true →
      rrsig.typeCovered ≠ rr.rdata.rtype) :
    ∃ reason t, (validate world config probe crypto query response anchors).out s = (.ok (.bogus reason), t) := by
  rw [validate, out_bind, out_get]
  dsimp only
  obtain ⟨keys, t, hchain⟩ := hchains
  rw [chainsOf] at hchain
  cases hsigners : signersOf (recordsToCheck query response) with
  | nil =>
    rw [hsigners] at hchain
    dsimp only at hchain ⊢
    rw [out_bind, hchain]
    exact ⟨_, t, rfl⟩
  | cons signer signers =>
    rw [hsigners] at hchain
    dsimp only at hchain ⊢
    rw [out_bind, hchain]
    have hcheck : rr ∈ recordsToCheck query response := List.mem_append_left _ hmem
    have hbogus := @ChainValidator.bogus_of_unsigned _ crypto ⟨anchors, world.now s.outside⟩ keys _ hcheck
      hvalidated hunsigned
    obtain ⟨reason, hreason⟩ := ValidationState.isBogus_iff.mp hbogus
    refine ⟨reason, t, ?_⟩
    dsimp only
    rw [out_bind, out_get]
    dsimp only
    rw [judge_of_bogus hreason]
    rfl

/-- **A redirection through a DNAME does not validate**: whatever zone a name is redirected in, and
whatever the target has, the zone's answer is bogus once every zone that signed it is
established. Of that answer the resolver need only have heard the records at the name. -/
theorem dname_reply_bogus {sha1 : Octets → Nsec3Hash} {z : Zone} {query : QuerySection} {dname : ZoneRecord}
    {target next : Name} (hredirects : Redirects z query.qname dname target next) {request reply : DnsMessage}
    (hreply : zoneReply sha1 z request query.qname query.qtype true = .ok reply) {s s' t : Progress σ}
    {answered : Answered}
    (hfirst : (resolveFromRoot world config probe (MAX_NESTED + 1) query).out s = (.ok answered, s'))
    (hanswers : reply.answers.filter (·.name.same query.qname) ⊆ answered.response.answers)
    {response : DnsMessage}
    (hrun : (recurse world config probe query).out s = (.ok response, t))
    (hunsigned : ∀ answered, t.Heard answered → ¬ SignsAlias answered.response query.qname)
    {anchors : TrustAnchors} (hchains : ChainsSecure world config probe crypto query response anchors t) :
    ∃ reason u, (validate world config probe crypto query response anchors).out t = (.ok (.bogus reason), u) := by
  obtain ⟨rdata, hrdata, hcname⟩ := cname_of_zoneReply hredirects hreply
  have hrtype : rdata.rtype = CNAME := (RecordData.fromParsed_eq_ok hrdata).1
  obtain ⟨hops, hchased, hheard⟩ := chased_first hfirst hrun
  have hmem := hchased.first_subset (hanswers (List.mem_filter.mpr ⟨hcname, Name.same_self _⟩)) (Name.same_self _)
  refine validate_unsigned hchains hmem ?_ ?_
  · show (!(rdata.rtype == RRSIG || rdata.rtype == OPT)) = true
    rw [hrtype]
    rfl
  · intro rrsig hrrsig howner hcovers
    obtain ⟨hof, last, hlast, hauthorities⟩ := hchased.of_mem
    obtain ⟨rr, hrr, hfrom⟩ := List.mem_filterMap.mp hrrsig
    have hsigns : ∀ hop ∈ (⟨[query.qname], answered⟩ : Hop) :: hops,
        rr ∈ hop.answered.response.answers ++ hop.answered.response.authorities → False := by
      intro hop hhop hin
      exact hunsigned _ (hheard hop hhop)
        ⟨rrsig, List.mem_filterMap.mpr ⟨rr, hin, hfrom⟩, howner, hcovers.trans hrtype⟩
    rcases List.mem_append.mp hrr with hanswer | hauthority
    · rcases hof rr hanswer with hold | ⟨hop, hhop, hin⟩ | hcname
      · cases hold
      · exact hsigns hop hhop (List.mem_append_left _ hin)
      · rw [Rrsig.fromRecord, if_pos] at hfrom
        · cases hfrom
        · rw [hcname]
          decide
    · grind

end Verdict

/-! ## A DNAME in `ex.` -/

def dEx : Name := ⟨[[100], [101, 120]], by decide, by decide⟩
def tEx : Name := ⟨[[116], [101, 120]], by decide, by decide⟩
def wwwDEx : Name := ⟨[[119, 119, 119], [100], [101, 120]], by decide, by decide⟩
def wwwTEx : Name := ⟨[[119, 119, 119], [116], [101, 120]], by decide, by decide⟩

def dnameAtD : ZoneRecord := ⟨dEx, ⟨300⟩, .IN, ⟨DNAME, tEx.wire⟩⟩

def dnameRecords : List ZoneRecord := [exSoa, dnameAtD, addressAt wwwTEx]

def dnameQuery : QuerySection := ⟨wwwDEx, .of A, .in⟩

def dnameReply : Except WireError DnsMessage :=
  zoneReply unusedSha1 (exServed dnameRecords) (requestFor dnameQuery) wwwDEx dnameQuery.qtype true

def dnameStart : Progress Unit := .begin exValidating exHints ()

def dnameFirst : Except ResolveError Answered × Progress Unit :=
  (resolveFromRoot (exWorld dnameRecords) exValidating .none (MAX_NESTED + 1) dnameQuery).out dnameStart

def dnameRun : Except ResolveError DnsMessage × Progress Unit :=
  (recurse (exWorld dnameRecords) exValidating .none dnameQuery).out dnameStart

def dnameChains (response : DnsMessage) : Except ResolveError (ValidationState × KeyStore) × Progress Unit :=
  (chainsOf (exWorld dnameRecords) exValidating .none ed25519Primitives dnameQuery response exAnchors exNow).out
    dnameRun.2

def dnameVerdict (response : DnsMessage) : Except ResolveError ValidationState × Progress Unit :=
  (validate (exWorld dnameRecords) exValidating .none ed25519Primitives dnameQuery response exAnchors).out dnameRun.2

theorem redirects_dname : Redirects (exServed dnameRecords) wwwDEx dnameAtD tEx wwwTEx where
  above := by decide +kernel
  cuts := by
    intro cut hcut
    rw [show (exServed dnameRecords).delegationFor wwwDEx = none by decide +kernel] at hcut
    cases hcut
  parses := by decide +kernel
  becomes := by decide +kernel

theorem dname_first : ∃ answered reply, dnameFirst = (.ok answered, dnameFirst.2) ∧ dnameReply = .ok reply ∧
    reply.answers.filter (·.name.same wwwDEx) ⊆ answered.response.answers := by
  have hheard : dnameFirst.1.toOption.map (fun answered => (dnameReply.toOption.map fun reply =>
      decide (∀ rr ∈ reply.answers.filter (·.name.same wwwDEx), rr ∈ answered.response.answers)))
        = some (some true) := by decide +kernel
  obtain ⟨answered, hfirst, hreply⟩ := eq_of_toOption hheard
  cases hzone : dnameReply with
  | error e =>
    rw [hzone] at hreply
    cases hreply
  | ok reply =>
    rw [hzone] at hreply
    exact ⟨answered, reply, hfirst, rfl, fun rr hrr => of_decide_eq_true (Option.some.inj hreply) rr hrr⟩

theorem dname_run : ∃ response, dnameRun = (.ok response, dnameRun.2) ∧
    ChainsSecure (exWorld dnameRecords) exValidating .none ed25519Primitives dnameQuery response exAnchors
      dnameRun.2 := by
  have hchains : dnameRun.1.toOption.map (fun response => (dnameChains response).1.toOption.map Prod.fst)
      = some (some .secure) := by decide +kernel
  obtain ⟨response, hrun, hsecure⟩ := eq_of_toOption hchains
  obtain ⟨⟨state, keys⟩, hout, hstate⟩ := eq_of_toOption hsecure
  obtain rfl : state = .secure := hstate
  exact ⟨response, hrun, keys, _, hout⟩

instance (message : DnsMessage) (name : Name) : Decidable (SignsAlias message name) :=
  inferInstanceAs (Decidable (∃ rrsig ∈ _, _))

def Exchange.reply : Exchange → Option DnsMessage
  | .atServer _ _ _ reply => reply
  | .atLocalZone _ _ reply => some reply

theorem dname_unsigned : ∀ answered, dnameRun.2.Heard answered → ¬ SignsAlias answered.response wwwDEx := by
  have hnone : ∀ exchange ∈ dnameRun.2.exchanges, ∀ reply ∈ exchange.reply, ¬ SignsAlias reply wwwDEx := by
    decide +kernel
  rintro answered ⟨exchange, hmem, hgives⟩
  cases hgives with
  | server => exact hnone _ hmem _ rfl
  | localZone => exact hnone _ hmem _ rfl

theorem dname_reply_bogus_ex : ∃ response reason u,
    dnameRun = (.ok response, dnameRun.2) ∧ dnameVerdict response = (.ok (.bogus reason), u) := by
  obtain ⟨answered, reply, hfirst, hreply, hanswers⟩ := dname_first
  obtain ⟨response, hrun, hchains⟩ := dname_run
  obtain ⟨reason, u, hverdict⟩ := dname_reply_bogus redirects_dname hreply hfirst hanswers hrun dname_unsigned hchains
  exact ⟨response, reason, u, hrun, hverdict⟩

/-- **A signed DNAME takes a name off the air**: not every redirection through a DNAME of a signed zone,
all of whose keys are established, is other than bogus. -/
theorem dname_redirection_refused :
    ¬ ∀ (σ : Type) (world : World σ) (config : ResolverConfig) (crypto : Primitives) (signing : Crypto)
      (source z : Zone) (keys : List SigningKey) (policy : SigningPolicy) (query : QuerySection)
      (dname : ZoneRecord) (target next : Name) (request reply response : DnsMessage) (s s' t u : Progress σ)
      (answered : Answered) (anchors : TrustAnchors) (verdict : ValidationState),
      signZone signing source keys policy = .ok z →
      Redirects z query.qname dname target next →
      zoneReply crypto.sha1 z request query.qname query.qtype true = .ok reply →
      (resolveFromRoot world config .none (MAX_NESTED + 1) query).out s = (.ok answered, s') →
      reply.answers.filter (·.name.same query.qname) ⊆ answered.response.answers →
      (recurse world config .none query).out s = (.ok response, t) →
      ChainsSecure world config .none crypto query response anchors t →
      (validate world config .none crypto query response anchors).out t = (.ok verdict, u) →
      verdict.isBogus = false := by
  intro h
  obtain ⟨answered, reply, hfirst, hreply, hanswers⟩ := dname_first
  obtain ⟨response, hrun, hchains⟩ := dname_run
  have hbogus : dnameRun.1.toOption.map (fun response => (dnameVerdict response).1.toOption.map
      ValidationState.isBogus) = some (some true) := by decide +kernel
  obtain ⟨same, hsame, hbogus⟩ := eq_of_toOption hbogus
  obtain rfl : same = response := Except.ok.inj (congrArg Prod.fst (hsame.symm.trans hrun))
  obtain ⟨verdict, hverdict, hbogus⟩ := eq_of_toOption hbogus
  have hnot := h Unit (exWorld dnameRecords) exValidating ed25519Primitives ed25519Crypto (zoneOf ex dnameRecords)
    (exServed dnameRecords) _ _ dnameQuery dnameAtD tEx wwwTEx (requestFor dnameQuery) reply same dnameStart _ _ _
    answered exAnchors verdict (exServed_eq (by decide +kernel)) redirects_dname hreply hfirst hanswers hrun hchains
    hverdict
  rw [hbogus] at hnot
  cases hnot

end Rdns.Resolver
