import Rdns.Resolver.Courses

/-!
# Rdns — Who may speak for a name

A resolution takes up the records of each reply at the names it has come to ask about. The
DNAMEs among them are checked against the zone whose servers sent them; the others are not, and
a CNAME of the same reply is enough to be asked about.
-/

namespace Rdns.Resolver

open Rdns.Lib Rdns.Lib.Fallible Rdns.Core Rdns.Dnssec Rdns.Answer Rdns.Zones RecordTypes

/-! ## The law -/

def Progress.SentForItsZone {σ : Type} (s : Progress σ) (rr : ResourceRecord) : Prop :=
  ∃ answered, s.Heard answered ∧ rr ∈ answered.response.answers ∧ rr.name.isAtOrUnder answered.zone = true

structure SynthesizedFrom (dname rr : ResourceRecord) : Prop where
  isDname : dname.rdata.rtype = DNAME
  redirects : ∃ target next, dname.rdata.parse = .ok (.dname target) ∧
    dnameRedirect rr.name dname.name target = .goesTo next ∧ RecordData.fromParsed (.cname next) = .ok rr.rdata

variable {rr : ResourceRecord} {c : Chase}

theorem SynthesizedFrom.not_dname {dname : ResourceRecord} (h : SynthesizedFrom dname rr) :
    rr.rdata.rtype ≠ DNAME := by
  obtain ⟨_, next, -, -, hrdata⟩ := h.redirects
  rw [(RecordData.fromParsed_eq_ok hrdata).1]
  show CNAME ≠ DNAME
  decide

/-! ## A resolution, reply by reply -/

/-- A reply that ended a walk, and the names whose records were accepted by then. -/
structure Hop where
  chain : List Name
  answered : Answered

def growChain (chain : List Name) (rr : ResourceRecord) : List Name :=
  if chain.any (·.same rr.name) then (cnameTarget rr).toList ++ chain else chain

/-- **No record at a name asked about is outside the zone**: not at the name itself, and not at
the target of a CNAME that came before it. -/
def StaysInZone (zone : Name) : List Name → List ResourceRecord → Prop
  | _, [] => True
  | chain, rr :: rest =>
    (chain.any (·.same rr.name) = true → rr.name.isAtOrUnder zone = true) ∧
      StaysInZone zone (growChain chain rr) rest

theorem StaysInZone.of_under {zone : Name} {chain : List Name} {records : List ResourceRecord}
    (h : ∀ rr ∈ records, rr.name.isAtOrUnder zone = true) : StaysInZone zone chain records := by
  induction records generalizing chain with
  | nil => trivial
  | cons rr rest ih =>
    exact ⟨fun _ => h rr List.mem_cons_self, ih fun other hmem => h other (List.mem_cons_of_mem _ hmem)⟩

def Hop.StaysInZone (hop : Hop) : Prop :=
  Resolver.StaysInZone hop.answered.zone hop.chain hop.answered.response.answers

inductive Chased (config : ResolverConfig) (query : QuerySection) : Chase → List Hop → DnsMessage → Prop
  | last {c c' : Chase} {answered : Answered} :
      Chase.hop config query answered { c with queried := c.qname :: c.queried } = .ok (c', none) →
      Chased config query c [⟨c.chain, answered⟩] { answered.response with answers := c'.answers }
  | more {c c' : Chase} {answered : Answered} {next : Name} {hops : List Hop} {response : DnsMessage} :
      Chase.hop config query answered { c with queried := c.qname :: c.queried } = .ok (c', some next) →
      Chased config query { c' with qname := next } hops response →
      Chased config query c (⟨c.chain, answered⟩ :: hops) response

section Runs

variable {σ : Type} (world : World σ) (config : ResolverConfig) (probe : Probe) (query : QuerySection)

theorem meets_chase (left : Nat) (c : Chase) :
    Meets Along (fun _ => True) (chase world config probe query left c) fun response s =>
      ∃ hops, Chased config query c hops response ∧ ∀ hop ∈ hops, s.Heard hop.answered := by
  induction left generalizing c with
  | zero =>
    rw [chase]
    split <;> exact .throw
  | succ left ih =>
    rw [chase]
    split
    · exact .throw
    · refine .bind (meets_resolveFromRoot world config probe _ _) fun answered => ?_
      refine .bind (Q := fun _ s => s.Heard answered) (.onlyIf (fun _ => ?_) fun _ _ h => h) fun _ => ?_
      · exact (goes_modifyState (f := fun state => state.recordDenials answered.response.authorities)
          fun _ => rfl).keeps (stable_heard answered)
      · split
        · exact .throw
        · rename_i c' hhop
          refine .pure fun s hheard => ⟨_, .last hhop, fun hop hmem => ?_⟩
          rw [List.mem_singleton.mp hmem]
          exact hheard
        · rename_i c' next hhop
          refine ((ih _).keeping (stable_heard answered)).weaken (fun _ h => ⟨trivial, h⟩) ?_
          rintro response s ⟨⟨hops, hchased, hhops⟩, hheard⟩
          refine ⟨_, .more hhop hchased, fun hop hmem => ?_⟩
          rcases List.mem_cons.mp hmem with rfl | hmem
          · exact hheard
          · exact hhops hop hmem

/-- **A resolution is one hop a reply**, and the replies were given. -/
theorem chased_of_recurse {s t : Progress σ} {response : DnsMessage}
    (hrun : (recurse world config probe query).out s = (.ok response, t)) :
    ∃ hops, Chased config query (.start query.qname) hops response ∧ ∀ hop ∈ hops, t.Heard hop.answered := by
  have hmeets := (meets_chase world config probe query config.maxCnameHops (.start query.qname)).result s response
    trivial
  rw [← recurse, hrun] at hmeets
  exact hmeets rfl

end Runs

/-! ## One reply -/

def SentIn (hops : List Hop) (rr : ResourceRecord) : Prop :=
  ∃ hop ∈ hops, rr ∈ hop.answered.response.answers ∧ rr.name.isAtOrUnder hop.answered.zone = true

def Sourced (hops : List Hop) (answers : List ResourceRecord) (rr : ResourceRecord) : Prop :=
  SentIn hops rr ∨ ∃ dname ∈ answers, SynthesizedFrom dname rr

theorem Sourced.mono {hops : List Hop} {answers more : List ResourceRecord}
    (h : Sourced hops answers rr) (hsub : answers ⊆ more) : Sourced hops more rr :=
  h.imp_right fun ⟨dname, hmem, hfrom⟩ => ⟨dname, hsub hmem, hfrom⟩

theorem chain_accept (zone : Name) (c : Chase) (rr : ResourceRecord) :
    (c.accept zone rr).chain = growChain c.chain rr := by
  rw [Chase.accept, growChain]
  split
  · rfl
  · split <;> rfl

theorem of_mem_accept {zone : Name} {r : ResourceRecord}
    (hstays : c.chain.any (·.same rr.name) = true → rr.name.isAtOrUnder zone = true)
    (h : r ∈ (c.accept zone rr).answers) :
    r ∈ c.answers ∨ (r = rr ∧ r.name.isAtOrUnder zone = true) := by
  rw [Chase.accept] at h
  split at h
  · rename_i hchain
    rcases List.mem_append.mp h with h | h
    · exact .inl h
    · obtain rfl := List.mem_singleton.mp h
      exact .inr ⟨rfl, hstays hchain⟩
  · split at h
    · rename_i hredirects
      rcases List.mem_append.mp h with h | h
      · exact .inl h
      · obtain rfl := List.mem_singleton.mp h
        rw [Chase.redirects, Bool.and_eq_true, Bool.and_eq_true] at hredirects
        exact .inr ⟨rfl, hredirects.1.2⟩
    · exact .inl h

theorem answers_subset_accept (zone : Name) (c : Chase) (rr : ResourceRecord) :
    c.answers ⊆ (c.accept zone rr).answers := by
  rw [Chase.accept]
  split
  · exact List.subset_append_left _ _
  · grind

section Fold

variable {zone : Name} {records : List ResourceRecord}

theorem answers_subset_foldl (c : Chase) : c.answers ⊆ (records.foldl (Chase.accept zone) c).answers := by
  induction records generalizing c with
  | nil => exact List.Subset.refl _
  | cons rr rest ih => exact List.Subset.trans (answers_subset_accept zone c rr) (ih _)

theorem of_mem_foldl {r : ResourceRecord} (hstays : StaysInZone zone c.chain records)
    (h : r ∈ (records.foldl (Chase.accept zone) c).answers) :
    r ∈ c.answers ∨ (r ∈ records ∧ r.name.isAtOrUnder zone = true) := by
  induction records generalizing c with
  | nil => exact .inl h
  | cons rr rest ih =>
    rcases ih (chain_accept zone c rr ▸ hstays.2) h with hold | ⟨hmem, hunder⟩
    · rcases of_mem_accept hstays.1 hold with hold | ⟨rfl, hunder⟩
      · exact .inl hold
      · exact .inr ⟨List.mem_cons_self, hunder⟩
    · exact .inr ⟨List.mem_cons_of_mem _ hmem, hunder⟩

theorem mem_foldl_of_redirects {dname : ResourceRecord} {name : Name} (hname : name ∈ c.chain)
    (hdname : dname.rdata.rtype = DNAME) (hzone : dname.name.isAtOrUnder zone = true)
    (hne : name.same dname.name = false) (hunder : name.isAtOrUnder dname.name = true)
    (h : dname ∈ records) :
    dname ∈ (records.foldl (Chase.accept zone) c).answers := by
  induction records generalizing c with
  | nil => cases h
  | cons rr rest ih =>
    rcases List.mem_cons.mp h with rfl | h
    · refine answers_subset_foldl (c.accept zone dname) ?_
      have hredirects : c.redirects zone dname = true := by
        rw [Chase.redirects, hdname, hzone, Bool.and_eq_true, List.any_eq_true]
        exact ⟨rfl, name, hname, by rw [hne, hunder]; rfl⟩
      rw [Chase.accept]
      split
      · exact List.mem_append_right _ (List.mem_singleton_self _)
      · exact List.mem_append_right _ (List.mem_singleton_self _)
    · refine ih ?_ h
      rw [chain_accept, growChain]
      split
      · exact List.mem_append_right _ hname
      · exact hname

end Fold

theorem of_synthesizeFromDname {zone qname next : Name} {records : List ResourceRecord}
    (h : synthesizeFromDname zone qname records = .ok (some (next, rr))) :
    ∃ dname ∈ records, dname.name.isAtOrUnder zone = true ∧ qname.same dname.name = false ∧
      qname.isAtOrUnder dname.name = true ∧ rr.name = qname ∧ SynthesizedFrom dname rr := by
  induction records with
  | nil => cases h
  | cons dname rest ih =>
    have hrest : synthesizeFromDname zone qname rest = .ok (some (next, rr)) →
        ∃ d ∈ dname :: rest, d.name.isAtOrUnder zone = true ∧ qname.same d.name = false ∧
          qname.isAtOrUnder d.name = true ∧ rr.name = qname ∧ SynthesizedFrom d rr := fun h => by
      obtain ⟨d, hmem, hd⟩ := ih h
      exact ⟨d, List.mem_cons_of_mem _ hmem, hd⟩
    rw [synthesizeFromDname] at h
    split at h
    · exact hrest h
    · rename_i hdname
      rw [not_or, not_not, Bool.not_eq_true, Bool.not_eq_false'] at hdname
      split at h
      · rename_i target hparse
        split at h
        · exact hrest h
        · cases h
        · rename_i next' hredirect
          cases hrdata : RecordData.fromParsed (.cname next') with
          | error e =>
            rw [hrdata] at h
            cases h
          | ok rdata =>
            rw [hrdata] at h
            cases h
            have hstrict : qname.isAtOrUnder dname.name = true ∧ qname.same dname.name = false := by
              rw [dnameRedirect] at hredirect
              split at hredirect
              · cases hredirect
              · grind
            exact ⟨dname, List.mem_cons_self, hdname.2, hstrict.2, hstrict.1, rfl, hdname.1, target, next,
              hparse, hredirect, hrdata⟩
      · exact hrest h

theorem qname_foldl (zone : Name) (records : List ResourceRecord) (c : Chase) :
    (records.foldl (Chase.accept zone) c).qname = c.qname := by
  induction records generalizing c with
  | nil => rfl
  | cons rr rest ih =>
    rw [List.foldl_cons, ih, Chase.accept]
    split
    · rfl
    · split <;> rfl

variable {config : ResolverConfig} {query : QuerySection}

theorem of_hop {answered : Answered} {c' : Chase} {next : Option Name}
    (h : Chase.hop config query answered c = .ok (c', next)) :
    ∃ synthesized : Option (Name × ResourceRecord),
      c'.answers = (answered.response.answers.foldl (Chase.accept answered.zone) c).answers
        ++ (synthesized.map Prod.snd).toList ∧
      (∀ made, synthesized = some made →
        synthesizeFromDname answered.zone c.qname answered.response.answers = .ok (some made)) ∧
      ∀ name, next = some name → name ∈ c'.chain := by
  rw [Chase.hop, qname_foldl] at h
  dsimp only at h
  obtain ⟨cname, -, h⟩ := except_bind_eq_ok.mp h
  obtain ⟨synthesized, hsynthesized, h⟩ := except_bind_eq_ok.mp h
  cases h
  refine ⟨synthesized, rfl, fun made hmade => ?_, fun name hname => ?_⟩
  · subst hmade
    rw [synthesis] at hsynthesized
    split at hsynthesized
    · cases hsynthesized
    · exact hsynthesized
  · grind

theorem sourced_hop {answered : Answered} {c' : Chase} {next : Option Name} {all : List Hop}
    (h : Chase.hop config query answered { c with queried := c.qname :: c.queried } = .ok (c', next))
    (hmem : ⟨c.chain, answered⟩ ∈ all)
    (hstays : StaysInZone answered.zone c.chain answered.response.answers)
    (hqname : c.qname ∈ c.chain) (hprev : ∀ rr ∈ c.answers, Sourced all c.answers rr) :
    ∀ rr ∈ c'.answers, Sourced all c'.answers rr := by
  obtain ⟨synthesized, hanswers, hmade, -⟩ := of_hop h
  have hkept : c.answers ⊆ c'.answers := by
    rw [hanswers]
    exact List.Subset.trans (answers_subset_foldl { c with queried := c.qname :: c.queried })
      (List.subset_append_left _ _)
  intro rr hrr
  rw [hanswers] at hrr
  rcases List.mem_append.mp hrr with hrr | hrr
  · rcases of_mem_foldl (c := { c with queried := c.qname :: c.queried }) hstays hrr with hold | ⟨hsent, hunder⟩
    · exact (hprev rr hold).mono hkept
    · exact .inl ⟨_, hmem, hsent, hunder⟩
  · obtain ⟨made, hsome, rfl⟩ := Option.map_eq_some_iff.mp (Option.mem_toList.mp hrr)
    obtain ⟨dname, hdname, hzone, hne, hunder, -, hfrom⟩ := of_synthesizeFromDname (hmade made hsome)
    refine .inr ⟨dname, ?_, hfrom⟩
    rw [hanswers]
    exact List.mem_append_left _
      (mem_foldl_of_redirects hqname hfrom.isDname hzone hne hunder hdname)

/-- **What a chase returns is sourced**, if no reply leads out of its zone. -/
theorem Chased.sourced {hops all : List Hop} {response : DnsMessage}
    (h : Chased config query c hops response) (hstays : ∀ hop ∈ hops, hop.StaysInZone)
    (hsub : hops ⊆ all) (hqname : c.qname ∈ c.chain)
    (hprev : ∀ rr ∈ c.answers, Sourced all c.answers rr) :
    ∀ rr ∈ response.answers, Sourced all response.answers rr := by
  induction h with
  | last hhop =>
    exact sourced_hop hhop (hsub List.mem_cons_self) (hstays _ List.mem_cons_self) hqname hprev
  | more hhop _ ih =>
    obtain ⟨-, -, -, hnext⟩ := of_hop hhop
    have hsourced := sourced_hop hhop (hsub List.mem_cons_self) (hstays _ List.mem_cons_self) hqname hprev
    exact ih (fun hop hmem => hstays hop (List.mem_cons_of_mem _ hmem))
      (fun hop hmem => hsub (List.mem_cons_of_mem _ hmem)) (hnext _ rfl) hsourced

/-- **No server speaks for a name outside its zone**, as long as none leads there: in every
resolution whose replies, at the names asked about, hold only records of the zone asked, each
record returned was sent for its own zone, or is a CNAME made from a DNAME that was. -/
theorem answers_in_bailiwick {σ : Type} {world : World σ} {config : ResolverConfig} {probe : Probe}
    {query : QuerySection} {s t : Progress σ} {response : DnsMessage}
    (hrun : (recurse world config probe query).out s = (.ok response, t)) :
    ∃ hops, Chased config query (.start query.qname) hops response ∧ (∀ hop ∈ hops, t.Heard hop.answered) ∧
      ((∀ hop ∈ hops, hop.StaysInZone) →
        ∀ rr ∈ response.answers,
          t.SentForItsZone rr ∨ ∃ dname ∈ response.answers, t.SentForItsZone dname ∧ SynthesizedFrom dname rr) := by
  obtain ⟨hops, hchased, hheard⟩ := chased_of_recurse world config probe query hrun
  have hsent : ∀ rr, SentIn hops rr → t.SentForItsZone rr := by
    rintro rr ⟨hop, hmem, hrr⟩
    exact ⟨hop.answered, hheard hop hmem, hrr⟩
  refine ⟨hops, hchased, hheard, fun hstays => ?_⟩
  have hsourced := hchased.sourced hstays (List.Subset.refl hops) List.mem_cons_self fun _ h => by cases h
  intro rr hrr
  rcases hsourced rr hrr with hsentIn | ⟨dname, hdname, hfrom⟩
  · exact .inl (hsent rr hsentIn)
  · rcases hsourced dname hdname with hsentIn | ⟨other, -, hother⟩
    · exact .inr ⟨dname, hdname, hsent dname hsentIn, hfrom⟩
    · exact absurd hfrom.isDname hother.not_dname

/-! ## An alias out of the zone -/

def org : Name := ⟨[[111, 114, 103]], by decide, by decide⟩

def bOrg : Name := ⟨[[98], [111, 114, 103]], by decide, by decide⟩

def aliasOut : ResourceRecord := ⟨wwwEx, .IN, ⟨300⟩, ⟨CNAME, bOrg.wire⟩⟩

def addressElsewhere : ResourceRecord := ⟨bOrg, .IN, ⟨300⟩, ⟨A, [192, 0, 2, 1]⟩⟩

def addressOfWww : ResourceRecord := ⟨wwwEx, .IN, ⟨300⟩, ⟨A, [192, 0, 2, 1]⟩⟩

def bInside : Name := ⟨[[98], [101, 120]], by decide, by decide⟩

def aliasInside : ResourceRecord := ⟨wwwEx, .IN, ⟨300⟩, ⟨CNAME, bInside.wire⟩⟩

def addressOfB : ResourceRecord := ⟨bInside, .IN, ⟨300⟩, ⟨A, [192, 0, 2, 1]⟩⟩

def wwwQuery : QuerySection := ⟨wwwEx, .of A, .in⟩

def replyWith (answers : List ResourceRecord) (query : QuerySection) : DnsMessage :=
  { denialFrom [] with queries := [query], authoritive := true, rcode := .ok, answers, authorities := [] }

def replying (answers : List ResourceRecord) : World Unit where
  now _ := 0
  meanwhile hints s := (hints, s)
  queryServer _ query _ s := (some (replyWith answers query), s)
  order servers _ := servers
  answerLocally _ _ s := (.error .policyStopped, s)
  allows _ _ s := (true, s)
  trustAnchors _ := []
  ntas _ := []

def aliased : World Unit :=
  { replying [] with queryServer := fun _ query _ s =>
      (some (replyWith (if query.qname = wwwEx then [aliasInside] else [addressOfB]) query), s) }

def exServer : SocketAddr := .v4 ⟨[192, 0, 2, 53], rfl⟩ DNS_PORT

def exConfig : ResolverConfig where
  routes := [⟨ex, .stub, [exServer], false⟩]
  rootHints := []
  maxDelegations := 16
  maxCnameHops := 8
  queryBudget := 64
  qnameMinimization := true
  dnssec := false

def noHints : Hints := ⟨⟨[], 0⟩, ⟨[], 0⟩, false⟩

def wwwRun (world : World Unit) : Except ResolveError DnsMessage × Progress Unit :=
  (recurse world exConfig .none wwwQuery).out (.begin exConfig noHints ())

theorem wwwRun_eq {world : World Unit} {returned : List ResourceRecord}
    (h : (wwwRun world).1.toOption.map DnsMessage.answers = some returned) :
    ∃ response, wwwRun world = (.ok response, (wwwRun world).2) ∧ response.answers = returned := by
  cases hrun : (wwwRun world).1 with
  | error e =>
    rw [hrun] at h
    cases h
  | ok response =>
    rw [hrun] at h
    cases h
    exact ⟨response, Prod.ext hrun rfl, rfl⟩

theorem answers_wwwRun : (wwwRun (replying [aliasOut, addressElsewhere])).1.toOption.map DnsMessage.answers
    = some [aliasOut, addressElsewhere] := by decide +kernel

theorem exchanges_wwwRun : (wwwRun (replying [aliasOut, addressElsewhere])).2.exchanges
    = [.atServer exServer ex wwwQuery (some (replyWith [aliasOut, addressElsewhere] wwwQuery))] := by
  decide +kernel

theorem answers_in_bailiwick_www : ∃ response t, wwwRun aliased = (.ok response, t) ∧
    response.answers = [aliasInside, addressOfB] ∧ ∀ rr ∈ response.answers, t.SentForItsZone rr := by
  obtain ⟨response, hrun, hanswers⟩ := @wwwRun_eq aliased [aliasInside, addressOfB] (by decide +kernel)
  have hexchanges : (wwwRun aliased).2.exchanges =
      [.atServer exServer ex ⟨bInside, .of A, .in⟩ (some (replyWith [addressOfB] ⟨bInside, .of A, .in⟩)),
        .atServer exServer ex wwwQuery (some (replyWith [aliasInside] wwwQuery))] := by
    decide +kernel
  obtain ⟨hops, -, hheard, hsent⟩ := answers_in_bailiwick hrun
  have hstays : ∀ hop ∈ hops, hop.StaysInZone := by
    rintro ⟨chain, answered⟩ hmem
    obtain ⟨exchange, hexchange, hgives⟩ := hheard _ hmem
    rw [hexchanges, List.mem_cons, List.mem_singleton] at hexchange
    rcases hexchange with rfl | rfl
    · cases hgives
      exact .of_under (show ∀ rr ∈ [addressOfB], rr.name.isAtOrUnder ex = true by decide)
    · cases hgives
      exact .of_under (show ∀ rr ∈ [aliasInside], rr.name.isAtOrUnder ex = true by decide)
  refine ⟨response, _, hrun, hanswers, fun rr hrr => (hsent hstays rr hrr).resolve_right ?_⟩
  rintro ⟨dname, hdname, -, hfrom⟩
  rw [hanswers] at hdname
  have hno : ∀ rr ∈ [aliasInside, addressOfB], rr.rdata.rtype ≠ DNAME := by decide
  exact hno dname hdname hfrom.isDname

/-- **A server of one zone speaks for another**: an alias out of `ex.` and the address at its end,
in one reply of servers of `ex.`, are returned together. -/
theorem address_from_elsewhere :
    ¬ ∀ (σ : Type) (world : World σ) (config : ResolverConfig) (probe : Probe) (query : QuerySection)
      (hints : Hints) (outside : σ) (response : DnsMessage) (t : Progress σ),
      (recurse world config probe query).out (.begin config hints outside) = (.ok response, t) →
      ∀ rr ∈ response.answers,
        t.SentForItsZone rr ∨ ∃ dname ∈ response.answers, t.SentForItsZone dname ∧ SynthesizedFrom dname rr := by
  intro h
  obtain ⟨response, hrun, hanswers⟩ := wwwRun_eq answers_wwwRun
  have hmem : addressElsewhere ∈ response.answers := by
    rw [hanswers]
    exact List.mem_cons_of_mem _ List.mem_cons_self
  rcases h Unit _ _ _ _ _ _ response _ hrun addressElsewhere hmem with ⟨answered, hheard, -, hunder⟩ | hmade
  · obtain ⟨exchange, hexchange, hgives⟩ := hheard
    rw [exchanges_wwwRun, List.mem_singleton] at hexchange
    subst hexchange
    cases hgives
    exact absurd hunder (by decide)
  · obtain ⟨dname, hdname, -, hfrom⟩ := hmade
    rw [hanswers] at hdname
    have hno : ∀ rr ∈ [aliasOut, addressElsewhere], rr.rdata.rtype ≠ DNAME := by decide
    exact hno dname hdname hfrom.isDname

end Rdns.Resolver
