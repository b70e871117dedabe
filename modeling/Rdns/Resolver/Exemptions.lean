import Rdns.Resolver.LocalAnswers

/-!
# Rdns — Exemptions from validation

A negative trust anchor (RFC 7646) and a route configured unvalidated exempt names from
validation. `resolve_untimed` of `rdns/src/resolver.rs` looks for one before it validates, once
for the whole answer: for an anchor over the name asked for, and for a route of that name or of
an owner among the answer records.
-/

namespace Rdns.Resolver

open Rdns.Lib Rdns.Lib.Fallible Rdns.Core Rdns.Zones Rdns.Dnssec Rdns.Answer RecordTypes

/-! ## The chain of a response -/

def aliasChain (answers : List ResourceRecord) : Nat → Name → List Name
  | 0, name => [name]
  | left + 1, name =>
    match targetOf answers name with
    | none => [name]
    | some target => name :: aliasChain answers left target

def chainNames (config : ResolverConfig) (query : QuerySection) (response : DnsMessage) : List Name :=
  aliasChain response.answers (if query.qtype.is CNAME then 0 else config.maxCnameHops) query.qname

theorem owns_of_mem_dropLast {answers : List ResourceRecord} {left : Nat} {start name : Name}
    (h : name ∈ (aliasChain answers left start).dropLast) : ∃ rr ∈ answers, rr.name.same name = true := by
  induction left generalizing start with
  | zero => cases h
  | succ left ih =>
    rw [aliasChain] at h
    split at h
    next => cases h
    next target htarget =>
      have hne : aliasChain answers left target ≠ [] := by grind
      rw [List.dropLast_cons_of_ne_nil hne] at h
      rcases List.mem_cons.mp h with rfl | h
      · exact exists_of_targetOf htarget
      · exact ih h

section

variable {σ : Type} (world : World σ) (config : ResolverConfig) (crypto : Primitives)

/-! ## What is exempted -/

def unvalidated (name : Name) : Bool := (config.routeFor name).any fun route => !route.validate

def underNta (s : Progress σ) (name : Name) : Bool :=
  (coveringNta (world.ntas s.outside) name (world.now s.outside) (world.trustAnchors s.outside)).isSome

def exempted (s : Progress σ) (name : Name) : Bool := unvalidated config name || underNta world s name

/-- The records of a response that are to be in order without the exempted names': the answers
of the others, and the denial at the end of the chain if that is one of the others. -/
def recordsLeft (s : Progress σ) (query : QuerySection) (response : DnsMessage) : List ResourceRecord :=
  (response.answers.filter fun rr => !exempted world config s rr.name) ++
    if isNegative query response && !exempted world config s (deniedName query response) then response.authorities
    else []

/-- What the other names hold is in order by these keys: the answer is one chain, every zone that
signed of it is established, and neither a record nor a denial of it is bogus. -/
structure OthersInOrder (s : Progress σ) (query : QuerySection) (response : DnsMessage) (keys : KeyStore) : Prop where
  intact : ∃ finalName, cnameChainShape query.qname query.qtype response.answers = .intact finalName
  chains : ∃ t, (establishChains world config .none crypto (world.trustAnchors s.outside) (world.now s.outside)
    (signersOf (recordsLeft world config s query response)) []).out s = (.ok (.secure, keys), t)
  records : ((⟨world.trustAnchors s.outside, world.now s.outside⟩ : ChainValidator).validateRecords crypto
    (recordsLeft world config s query response) keys).state.isBogus = false
  denial : isNegative query response = true → exempted world config s (deniedName query response) = false →
    checkDenial crypto query (deniedName query response) response = .secure
  wildcards : ((⟨world.trustAnchors s.outside, world.now s.outside⟩ : ChainValidator).validateWildcardProofs crypto
    (response.authorities ++ s.state.denials) keys
    ((⟨world.trustAnchors s.outside, world.now s.outside⟩ : ChainValidator).validateRecords crypto
      (recordsLeft world config s query response) keys).wildcards).isBogus = false

structure Blamed (s : Progress σ) (query : QuerySection) (response : DnsMessage) (verdict : ValidationState) :
    Prop where
  bogus : verdict.isBogus = true
  passes : ∃ name ∈ chainNames config query response, exempted world config s name = true
  others : ∃ keys, OthersInOrder world config crypto s query response keys

/-- Whether an exemption of a chain is one that is looked for: an anchor over the name asked for,
or a route of a name that leads on or owns a record. -/
def Seen (s : Progress σ) (query : QuerySection) (response : DnsMessage) : Prop :=
  underNta world s query.qname = true ∨ unvalidated config query.qname = true ∨
    ∃ name ∈ chainNames config query response, unvalidated config name = true ∧
      (name ∈ (chainNames config query response).dropLast ∨ ∃ rr ∈ response.answers, rr.name.same name = true)

variable {world config crypto}

/-! ## A resolution that validates -/

variable {s : Progress σ} {query : QuerySection} {response : DnsMessage}

theorem of_resolveValidated {hints : Hints} {outside : σ} {raw : DnsMessage} {u : Progress σ}
    {verdict : ValidationState}
    (hraw : (recurse world config .none query).out (.begin config hints outside) = (.ok raw, s))
    (hrun : resolveValidated world config crypto query hints outside = (.ok (response, verdict), u)) :
    response = relayed config query raw ∧ if config.dnssec
      then (validateUnlessExempt world config .none crypto true query response).out s = (.ok verdict, u)
      else verdict.isBogus = false := by
  rw [resolveValidated, resolveUntimed, out_bind, hraw] at hrun
  dsimp only at hrun
  split at hrun
  next hdnssec =>
    obtain ⟨found, t, hvalidate, hrest⟩ := of_bind hrun
    obtain ⟨hpair, rfl⟩ := Prod.mk.inj hrest
    obtain ⟨rfl, rfl⟩ := Prod.mk.inj (Except.ok.inj hpair)
    rw [if_pos hdnssec]
    exact ⟨rfl, hvalidate⟩
  next hdnssec =>
    obtain ⟨hpair, -⟩ := Prod.mk.inj hrun
    obtain ⟨rfl, rfl⟩ := Prod.mk.inj (Except.ok.inj hpair)
    rw [if_neg hdnssec]
    exact ⟨rfl, rfl⟩

theorem unvalidated_congr {a b : Name} (h : a.same b = true) : unvalidated config a = unvalidated config b := by
  rw [unvalidated, unvalidated, ResolverConfig.routeFor_congr h]

theorem Seen.exempts (h : Seen world config s query response) :
    ∃ why, exemption config true query response (world.trustAnchors s.outside) (world.ntas s.outside)
      (world.now s.outside) = some why := by
  have hroute : underNta world s query.qname = true ∨ unvalidatedRoute config query response = true := by
    rw [unvalidatedRoute, ResolverConfig.any_routes_iff]
    obtain hnta | hqname | ⟨name, -, hname, hlooked⟩ := h
    · exact .inl hnta
    · exact .inr (.inl hqname)
    · obtain ⟨rr, hrr, hsame⟩ : ∃ rr ∈ response.answers, rr.name.same name = true :=
        hlooked.elim owns_of_mem_dropLast id
      exact .inr (.inr ⟨rr, hrr, (unvalidated_congr hsame).trans hname⟩)
  rw [exemption]
  split
  · exact ⟨_, rfl⟩
  · rename_i hnone
    rw [if_pos (show (true && _) = true from hroute.resolve_right hnone)]
    exact ⟨_, rfl⟩

/-- **An answer is not bogus for what exempted names hold**, where one of the exemptions on its
chain is looked for. -/
theorem not_blamed_of_seen {query : QuerySection} {hints : Hints} {outside : σ} {raw response : DnsMessage}
    {s u : Progress σ} {verdict : ValidationState}
    (hraw : (recurse world config .none query).out (.begin config hints outside) = (.ok raw, s))
    (hrun : resolveValidated world config crypto query hints outside = (.ok (response, verdict), u))
    (hseen : (∃ name ∈ chainNames config query response, exempted world config s name = true) →
      Seen world config s query response) :
    ¬ Blamed world config crypto s query response verdict := by
  intro hblamed
  obtain ⟨why, hwhy⟩ := (hseen hblamed.passes).exempts
  have hbogus := hblamed.bogus
  obtain ⟨-, hverdict⟩ := of_resolveValidated hraw hrun
  split at hverdict
  · rw [validateUnlessExempt, out_bind, out_get] at hverdict
    dsimp only at hverdict
    rw [hwhy] at hverdict
    obtain rfl := Except.ok.inj (Prod.mk.inj hverdict).1
    cases hbogus
  · rw [hverdict] at hbogus
    cases hbogus

/-! ## Records that do not verify -/

variable (world config crypto)

/-- Records of a response at a name that do not verify, though its zone is secure from the trust
anchors: no chain of trust the resolution comes to walk has a key that vouches for them. -/
structure Unverified (s : Progress σ) (query : QuerySection) (response : DnsMessage) (name : Name) : Prop where
  secure_zone : ∃ keys t, (establishChain world config .none crypto name (world.trustAnchors s.outside)
    (world.now s.outside)).out s = (.ok (.secure, keys), t)
  unvouched : ∃ rr ∈ response.answers, rr.name.same name = true ∧ isValidated rr = true ∧
    ∀ t, Along s t → ∀ target state keys u, (establishChain world config .none crypto target
      (world.trustAnchors s.outside) (world.now s.outside)).out t = (.ok (state, keys), u) →
      ∀ entry ∈ keys, ∀ key ∈ entry.2, ∀ set ∈ groupRrsets (recordsToCheck query response), set.holds rr = true →
        ∀ zone rrsig, zone.toFolded = entry.1 → rrsig ∈ rrsigsIn (recordsToCheck query response) →
          ¬ SignedBy crypto.verify zone set (world.now s.outside) rrsig key

/-- A verdict lets records that do not verify pass, on a chain that is exempted at another name. -/
structure Overlooks (s : Progress σ) (query : QuerySection) (response : DnsMessage) (verdict : ValidationState) :
    Prop where
  accepted : verdict.isBogus = false
  passes : ∃ name ∈ chainNames config query response, exempted world config s name = true
  bad : ∃ name ∈ chainNames config query response, exempted world config s name = false ∧
    Unverified world config crypto s query response name

variable {world config crypto}

theorem Unverified.of_stripped {name : Name} {rr : ResourceRecord}
    (hsecure : ∃ keys t, (establishChain world config .none crypto name (world.trustAnchors s.outside)
      (world.now s.outside)).out s = (.ok (.secure, keys), t)) (hrr : rr ∈ response.answers)
    (hname : rr.name.same name = true) (hvalidated : isValidated rr = true)
    (hstripped : ∀ rrsig ∈ rrsigsIn (recordsToCheck query response), rrsig.owner.same rr.name = false) :
    Unverified world config crypto s query response name := by
  refine ⟨hsecure, rr, hrr, hname, hvalidated, ?_⟩
  intro t _ target state keys u _ entry _ key _ set _ hholds zone rrsig _ hrrsig hsigned
  simp only [Rrset.holds, Bool.and_eq_true, same_toFolded_right] at hholds
  have hsame : rrsig.owner.same rr.name = true := Name.same_trans hsigned.covers.2 hholds.1.1
  rw [hstripped rrsig hrrsig] at hsame
  cases hsame

theorem of_establishChains {anchors : TrustAnchors} {now : Nat} {signers : List Name}
    {keys found : KeyStore} {u : Progress σ} {state : ValidationState}
    (h : (establishChains world config .none crypto anchors now signers keys).out s = (.ok (state, found), u)) :
    ∀ entry ∈ found, entry ∈ keys ∨ ∃ t target ended more v, Along s t ∧
      (establishChain world config .none crypto target anchors now).out t = (.ok (ended, more), v) ∧ entry ∈ more := by
  induction signers generalizing keys s with
  | nil =>
    obtain ⟨hpair, -⟩ := Prod.mk.inj h
    obtain ⟨-, rfl⟩ := Prod.mk.inj (Except.ok.inj hpair)
    exact fun _ hentry => .inl hentry
  | cons signer rest ih =>
    rw [establishChains] at h
    obtain ⟨⟨ended, more⟩, t, hchain, h⟩ := of_bind h
    have halong : Along s t := by
      have hmoves := (goes_establishChain world config .none crypto signer anchors now).moves s trivial
      rwa [hchain] at hmoves
    dsimp only at h
    split at h
    · intro entry hentry
      rcases ih h entry hentry with hold | ⟨t', target, ended, more, v, halong', hout, hmore⟩
      · exact (of_mem_extend hold).imp_right fun hmore => ⟨s, signer, _, more, t, refl s, hchain, hmore⟩
      · exact .inr ⟨t', target, ended, more, v, IsTrans.trans _ _ _ halong halong', hout, hmore⟩
    · obtain ⟨hpair, -⟩ := Prod.mk.inj h
      obtain ⟨-, rfl⟩ := Prod.mk.inj (Except.ok.inj hpair)
      exact fun _ hentry => .inl hentry

theorem validate_unverified {t : Progress σ} {name : Name} {state : ValidationState}
    {keys : KeyStore}
    (hchains : (chainsOf world config .none crypto query response (world.trustAnchors s.outside)
      (world.now s.outside)).out s = (.ok (state, keys), t))
    (hjudged : state = .secure ∨ state.isBogus = true)
    (hbad : Unverified world config crypto s query response name) :
    ∃ reason, (validate world config .none crypto query response (world.trustAnchors s.outside)).out s =
      (.ok (.bogus reason), t) := by
  rw [validate, out_bind, out_get]
  dsimp only
  rw [chainsOf] at hchains
  cases hsigners : signersOf (recordsToCheck query response) with
  | nil =>
    rw [hsigners] at hchains
    dsimp only at hchains ⊢
    rw [out_bind, hchains]
    rcases hjudged with rfl | hbogus
    · exact ⟨_, rfl⟩
    · obtain ⟨reason, rfl⟩ := ValidationState.isBogus_iff.mp hbogus
      exact ⟨reason, rfl⟩
  | cons signer signers =>
    rw [hsigners] at hchains
    dsimp only at hchains ⊢
    rw [out_bind, hchains]
    rcases hjudged with rfl | hbogus
    · obtain ⟨rr, hrr, -, hvalidated, hnone⟩ := hbad.unvouched
      have hcheck : rr ∈ recordsToCheck query response := List.mem_append_left _ hrr
      have hunvouched : (ChainValidator.validateRecords crypto
          ⟨world.trustAnchors s.outside, world.now s.outside⟩ (recordsToCheck query response) keys).state.isBogus = true := by
        refine ChainValidator.bogus_of_unvouched hcheck hvalidated fun set hset hholds zone rrsig hvouched => ?_
        obtain ⟨zoneKeys, key, hkeys, hkey, hsigned⟩ := hvouched.signed
        rcases of_establishChains hchains _ (Entries.mem_of_get hkeys) with hnil | ⟨v, target, ended, more, w, halong, hout, hmore⟩
        · cases hnil
        · exact hnone v halong target ended more w hout _ hmore key hkey set hset hholds zone rrsig rfl hvouched.mem hsigned
      obtain ⟨reason, hreason⟩ := ValidationState.isBogus_iff.mp hunvouched
      refine ⟨reason, ?_⟩
      dsimp only
      rw [out_bind, out_get]
      dsimp only
      rw [judge_of_bogus hreason]
      rfl
    · obtain ⟨reason, rfl⟩ := ValidationState.isBogus_iff.mp hbogus
      exact ⟨reason, rfl⟩

/-- **Records of a signed zone that do not verify make an answer bogus**, whatever else its chain
passes through, where no exemption is found and the chains of trust it needs are not cut short. -/
theorem bogus_of_unverified {query : QuerySection} {hints : Hints} {outside : σ} {raw response : DnsMessage}
    {s u : Progress σ} {verdict : ValidationState}
    (hraw : (recurse world config .none query).out (.begin config hints outside) = (.ok raw, s))
    (hrun : resolveValidated world config crypto query hints outside = (.ok (response, verdict), u))
    (hdnssec : config.dnssec = true) (hroute : unvalidatedRoute config query response = false)
    (hnta : underNta world s query.qname = false)
    (hchains : ∃ state keys t, (chainsOf world config .none crypto query response (world.trustAnchors s.outside)
      (world.now s.outside)).out s = (.ok (state, keys), t) ∧ (state = .secure ∨ state.isBogus = true))
    {name : Name} (hbad : Unverified world config crypto s query response name) : verdict.isBogus = true := by
  obtain ⟨-, hverdict⟩ := of_resolveValidated hraw hrun
  obtain ⟨state, keys, t, hchains, hjudged⟩ := hchains
  obtain ⟨reason, hvalidate⟩ := validate_unverified hchains hjudged hbad
  have hexempt : exemption config true query response (world.trustAnchors s.outside) (world.ntas s.outside)
      (world.now s.outside) = none := by
    rw [underNta] at hnta
    rw [exemption, hroute, hnta]
    rfl
  rw [if_pos hdnssec, validateUnlessExempt, out_bind, out_get] at hverdict
  dsimp only at hverdict
  rw [hexempt] at hverdict
  dsimp only at hverdict
  rw [out_bind, hvalidate] at hverdict
  obtain ⟨left, v, hget, hverdict⟩ := of_bind hverdict
  obtain ⟨_, w, -, hverdict⟩ := of_bind hverdict
  obtain rfl := Except.ok.inj (Prod.mk.inj hverdict).1
  rfl

end

/-! ## An alias from `ex.` to `org.`, and one back -/

def orgServer : SocketAddr := .v4 ⟨[192, 0, 2, 54], rfl⟩ DNS_PORT

def cnameTo (owner target : Name) : ResourceRecord := ⟨owner, .IN, ⟨300⟩, ⟨CNAME, target.wire⟩⟩

def aliasSignature : ResourceRecord :=
  ⟨wwwEx, .IN, ⟨300⟩, ⟨RRSIG,
    [0, 5, 15, 2, 0, 0, 1, 44, 104, 182, 18, 117, 104, 142, 223, 36, 106, 96] ++ ex.wire ++ bigEndianOctets 64
      7714881984797412859470619388092171767671790450620171034126674055781045883964947813088435699937893722817989437299619200425436729515963941322015335598756097⟩⟩

def twoServers (exAnswers orgAnswers : List ResourceRecord) (ntas : List Nta) : World Unit :=
  { replying [] with
    now := fun _ => exNow
    queryServer := fun server query _ s => (some (replyWith (if server = exServer then exAnswers else orgAnswers) query), s)
    trustAnchors := fun _ => exAnchors
    ntas := fun _ => ntas }

def twoRoutes (validateOrg : Bool) : ResolverConfig :=
  { exValidating with routes := [⟨ex, .stub, [exServer], true⟩, ⟨org, .stub, [orgServer], validateOrg⟩] }

def ntaAt (name : Name) : Nta := ⟨name, exNow + 3600, true⟩

def outward (signatures : List ResourceRecord) (ntas : List Nta) : World Unit :=
  twoServers (cnameTo wwwEx bOrg :: signatures) [addressElsewhere] ntas

def outwardRaw (signatures : List ResourceRecord) (ntas : List Nta) : Except ResolveError DnsMessage × Progress Unit :=
  (recurse (outward signatures ntas) (twoRoutes true) .none wwwQuery).out (.begin (twoRoutes true) exHints ())

def outwardRun (signatures : List ResourceRecord) (ntas : List Nta) :
    Except ResolveError (DnsMessage × ValidationState) × Progress Unit :=
  resolveValidated (outward signatures ntas) (twoRoutes true) ed25519Primitives wwwQuery exHints ()

def othersJudged (s : Progress Unit) (response : DnsMessage) : Option (ValidationState × Bool × Bool) :=
  let left := recordsLeft (outward [aliasSignature] [ntaAt org]) (twoRoutes true) s wwwQuery response
  ((establishChains (outward [aliasSignature] [ntaAt org]) (twoRoutes true) .none ed25519Primitives exAnchors exNow
    (signersOf left) []).out s).1.toOption.map fun found =>
      let verdict := (⟨exAnchors, exNow⟩ : ChainValidator).validateRecords ed25519Primitives left found.2
      (found.1, verdict.state.isBogus, ((⟨exAnchors, exNow⟩ : ChainValidator).validateWildcardProofs ed25519Primitives
        (response.authorities ++ s.state.denials) found.2 verdict.wildcards).isBogus)

def isIntact : ChainShape → Bool
  | .intact _ => true
  | .broken _ => false

theorem exists_of_isIntact {shape : ChainShape} (h : isIntact shape = true) : ∃ finalName, shape = .intact finalName := by
  cases shape with
  | intact finalName => exact ⟨finalName, rfl⟩
  | broken why => cases h

variable {query : QuerySection} {response : DnsMessage} {config : ResolverConfig}

theorem exists_raw {σ : Type} {world : World σ} {crypto : Primitives} {hints : Hints} {outside : σ}
    {u : Progress σ} {verdict : ValidationState}
    (hrun : resolveValidated world config crypto query hints outside = (.ok (response, verdict), u)) :
    ∃ raw s, (recurse world config .none query).out (.begin config hints outside) = (.ok raw, s) := by
  rw [resolveValidated, resolveUntimed] at hrun
  obtain ⟨raw, s, hraw, -⟩ := of_bind hrun
  exact ⟨raw, s, hraw⟩

theorem not_blamed_ex : ∃ raw response verdict s u,
    outwardRaw [] [ntaAt ex] = (.ok raw, s) ∧ outwardRun [] [ntaAt ex] = (.ok (response, verdict), u) ∧
      ¬ Blamed (outward [] [ntaAt ex]) (twoRoutes true) ed25519Primitives s wwwQuery response verdict := by
  have hanswered : (outwardRun [] [ntaAt ex]).1.toOption.map (fun _ => ()) = some () := by decide +kernel
  obtain ⟨⟨response, verdict⟩, hrun, -⟩ := eq_of_toOption hanswered
  obtain ⟨raw, s, hraw⟩ := exists_raw hrun
  have hseen : underNta (outward [] [ntaAt ex]) s wwwEx = true := by
    show (coveringNta [ntaAt ex] wwwEx exNow exAnchors).isSome = true
    decide
  exact ⟨raw, response, verdict, s, _, hraw, hrun, not_blamed_of_seen hraw hrun fun _ => .inl hseen⟩

/-- **An anchor over the end of a chain is not looked for**: `www.ex.`, all of it in order, is bogus
for the address of `b.org.`, which is exempted. -/
theorem end_of_chain_blamed :
    ¬ ∀ (σ : Type) (world : World σ) (config : ResolverConfig) (crypto : Primitives) (query : QuerySection)
      (hints : Hints) (outside : σ) (raw response : DnsMessage) (s u : Progress σ) (verdict : ValidationState),
      (recurse world config .none query).out (.begin config hints outside) = (.ok raw, s) →
      resolveValidated world config crypto query hints outside = (.ok (response, verdict), u) →
      ¬ Blamed world config crypto s query response verdict := by
  intro h
  have hjudged : (outwardRun [aliasSignature] [ntaAt org]).1.toOption.map (fun x =>
      (x.2.isBogus && !isNegative wwwQuery x.1 && decide (bOrg ∈ chainNames (twoRoutes true) wwwQuery x.1) &&
        isIntact (cnameChainShape wwwEx wwwQuery.qtype x.1.answers), othersJudged (outwardRaw [aliasSignature] [ntaAt org]).2 x.1)) =
      some (true, some (.secure, false, false)) := by decide +kernel
  obtain ⟨⟨response, verdict⟩, hrun, hfacts⟩ := eq_of_toOption hjudged
  simp only [Prod.mk.injEq, Bool.and_eq_true, Bool.not_eq_true', decide_eq_true_eq] at hfacts
  obtain ⟨⟨⟨⟨hbogus, hpositive⟩, hpasses⟩, hintact⟩, hothers⟩ := hfacts
  obtain ⟨raw, s, hraw⟩ := exists_raw hrun
  rw [show (outwardRaw [aliasSignature] [ntaAt org]).2 = s from congrArg Prod.snd hraw] at hothers
  obtain ⟨⟨state, keys⟩, hchains, hkeys⟩ := eq_of_toOption hothers
  simp only [Prod.mk.injEq] at hkeys
  obtain ⟨rfl, hrecords, hwildcards⟩ := hkeys
  have hexempted : exempted (outward [aliasSignature] [ntaAt org]) (twoRoutes true) s bOrg = true := by
    show (unvalidated (twoRoutes true) bOrg || (coveringNta [ntaAt org] bOrg exNow exAnchors).isSome) = true
    decide
  refine h _ _ _ _ _ _ _ raw response s _ verdict hraw hrun ⟨hbogus, ⟨bOrg, hpasses, hexempted⟩, keys, ?_⟩
  exact ⟨exists_of_isIntact hintact, ⟨_, hchains⟩, hrecords, fun hnegative => absurd (hpositive.symm.trans hnegative) (by decide),
    hwildcards⟩

/-! ## Records that lost their signatures -/

def orgSignature : ResourceRecord :=
  ⟨bOrg, .IN, ⟨300⟩, ⟨RRSIG,
    [0, 1, 15, 2, 0, 0, 1, 44, 104, 182, 18, 117, 104, 142, 223, 36, 106, 96] ++ org.wire ++ bigEndianOctets 64 0⟩⟩

def backQuery : QuerySection := ⟨bOrg, .of A, .in⟩

def back : World Unit := twoServers [addressOfWww] [cnameTo bOrg wwwEx] []

def half : World Unit := twoServers [cnameTo wwwEx bOrg] [addressElsewhere, orgSignature] [ntaAt org]

def wwwSecure (world : World Unit) (config : ResolverConfig) (s : Progress Unit) : Option Bool :=
  ((establishChain world config .none ed25519Primitives wwwEx exAnchors exNow).out s).1.toOption.map (·.1.isSecure)

def wwwStripped (config : ResolverConfig) (query : QuerySection) (response : DnsMessage) : Bool :=
  decide (bOrg ∈ chainNames config query response) && decide (wwwEx ∈ chainNames config query response) &&
    response.answers.any fun rr => rr.name.same wwwEx && isValidated rr &&
      (rrsigsIn (recordsToCheck query response)).all fun rrsig => !rrsig.owner.same rr.name

theorem unverified_of_wwwStripped {world : World Unit} {s : Progress Unit}
    (hanchors : world.trustAnchors s.outside = exAnchors) (hnow : world.now s.outside = exNow)
    (hsecure : wwwSecure world config s = some true)
    (hstripped : wwwStripped config query response = true) :
    Unverified world config ed25519Primitives s query response wwwEx := by
  simp only [wwwStripped, Bool.and_eq_true, List.any_eq_true, List.all_eq_true, Bool.not_eq_true'] at hstripped
  obtain ⟨-, rr, hrr, ⟨hname, hvalidated⟩, hstripped⟩ := hstripped
  refine .of_stripped ?_ hrr hname hvalidated hstripped
  obtain ⟨⟨state, keys⟩, hfound, hstate⟩ := eq_of_toOption hsecure
  obtain rfl := ValidationState.isSecure_iff.mp hstate
  rw [hanchors, hnow]
  exact ⟨keys, _, hfound⟩

def backRaw : Except ResolveError DnsMessage × Progress Unit :=
  (recurse back (twoRoutes false) .none backQuery).out (.begin (twoRoutes false) exHints ())

def backRun : Except ResolveError (DnsMessage × ValidationState) × Progress Unit :=
  resolveValidated back (twoRoutes false) ed25519Primitives backQuery exHints ()

def halfRaw : Except ResolveError DnsMessage × Progress Unit :=
  (recurse half (twoRoutes true) .none wwwQuery).out (.begin (twoRoutes true) exHints ())

def halfRun : Except ResolveError (DnsMessage × ValidationState) × Progress Unit :=
  resolveValidated half (twoRoutes true) ed25519Primitives wwwQuery exHints ()

theorem bogus_outward : ∃ raw response verdict s u,
    outwardRaw [] [ntaAt org] = (.ok raw, s) ∧ outwardRun [] [ntaAt org] = (.ok (response, verdict), u) ∧
      verdict.isBogus = true := by
  have hjudged : (outwardRun [] [ntaAt org]).1.toOption.map (fun x =>
      (wwwStripped (twoRoutes true) wwwQuery x.1 && !unvalidatedRoute (twoRoutes true) wwwQuery x.1,
        ((chainsOf (outward [] [ntaAt org]) (twoRoutes true) .none ed25519Primitives wwwQuery x.1 exAnchors exNow).out
          (outwardRaw [] [ntaAt org]).2).1.toOption.map (·.1.isSecure))) = some (true, some true) := by
    decide +kernel
  have hsecure : wwwSecure (outward [] [ntaAt org]) (twoRoutes true) (outwardRaw [] [ntaAt org]).2 = some true := by
    decide +kernel
  obtain ⟨⟨response, verdict⟩, hrun, hfacts⟩ := eq_of_toOption hjudged
  simp only [Prod.mk.injEq, Bool.and_eq_true, Bool.not_eq_true'] at hfacts
  obtain ⟨⟨hstripped, hroute⟩, hchains⟩ := hfacts
  obtain ⟨raw, s, hraw⟩ := exists_raw hrun
  obtain rfl : (outwardRaw [] [ntaAt org]).2 = s := congrArg Prod.snd hraw
  obtain ⟨⟨state, keys⟩, hchains, hstate⟩ := eq_of_toOption hchains
  exact ⟨raw, response, verdict, _, _, hraw, hrun, bogus_of_unverified hraw hrun rfl hroute (by decide)
    ⟨state, keys, _, hchains, .inl (ValidationState.isSecure_iff.mp hstate)⟩
    (unverified_of_wwwStripped rfl rfl hsecure hstripped)⟩

theorem overlooks_of_wwwStripped {world : World Unit} {s : Progress Unit}
    {verdict : ValidationState} (hanchors : world.trustAnchors s.outside = exAnchors)
    (hnow : world.now s.outside = exNow) (hsecure : wwwSecure world config s = some true)
    (hstripped : wwwStripped config query response = true) (haccepted : verdict.isBogus = false)
    (hpasses : exempted world config s bOrg = true) (hleft : exempted world config s wwwEx = false) :
    Overlooks world config ed25519Primitives s query response verdict := by
  have hunverified := unverified_of_wwwStripped hanchors hnow hsecure hstripped
  simp only [wwwStripped, Bool.and_eq_true, decide_eq_true_eq] at hstripped
  exact ⟨haccepted, ⟨bOrg, hstripped.1.1, hpasses⟩, wwwEx, hstripped.1.2, hleft, hunverified⟩

/-- **An exemption elsewhere on a chain lets records of `www.ex.` pass that lost their signatures**:
where the alias before them is routed unvalidated, and where what comes after them is exempted and signed. -/
theorem stripped_overlooked :
    (∃ raw response verdict s u, backRaw = (.ok raw, s) ∧ backRun = (.ok (response, verdict), u) ∧
      unvalidatedRoute (twoRoutes false) backQuery response = true ∧
        Overlooks back (twoRoutes false) ed25519Primitives s backQuery response verdict) ∧
    ∃ raw response verdict s u, halfRaw = (.ok raw, s) ∧ halfRun = (.ok (response, verdict), u) ∧
      unvalidatedRoute (twoRoutes true) wwwQuery response = false ∧ underNta half s wwwEx = false ∧
        Overlooks half (twoRoutes true) ed25519Primitives s wwwQuery response verdict := by
  have hback : backRun.1.toOption.map (fun x => wwwStripped (twoRoutes false) backQuery x.1 && !x.2.isBogus &&
      unvalidatedRoute (twoRoutes false) backQuery x.1) = some true := by decide +kernel
  have hhalf : halfRun.1.toOption.map (fun x => wwwStripped (twoRoutes true) wwwQuery x.1 && !x.2.isBogus &&
      !unvalidatedRoute (twoRoutes true) wwwQuery x.1) = some true := by decide +kernel
  have hbackSecure : wwwSecure back (twoRoutes false) backRaw.2 = some true := by decide +kernel
  have hhalfSecure : wwwSecure half (twoRoutes true) halfRaw.2 = some true := by decide +kernel
  have hnta : underNta half halfRaw.2 wwwEx = false := by
    show (coveringNta [ntaAt org] wwwEx exNow exAnchors).isSome = false
    decide
  constructor
  · obtain ⟨⟨response, verdict⟩, hrun, hfacts⟩ := eq_of_toOption hback
    simp only [Bool.and_eq_true, Bool.not_eq_true'] at hfacts
    obtain ⟨raw, s, hraw⟩ := exists_raw hrun
    obtain rfl : backRaw.2 = s := congrArg Prod.snd hraw
    refine ⟨raw, response, verdict, _, _, hraw, hrun, hfacts.2, ?_⟩
    exact overlooks_of_wwwStripped rfl rfl hbackSecure hfacts.1.1 hfacts.1.2 (by decide) (by decide)
  · obtain ⟨⟨response, verdict⟩, hrun, hfacts⟩ := eq_of_toOption hhalf
    simp only [Bool.and_eq_true, Bool.not_eq_true'] at hfacts
    obtain ⟨raw, s, hraw⟩ := exists_raw hrun
    obtain rfl : halfRaw.2 = s := congrArg Prod.snd hraw
    refine ⟨raw, response, verdict, _, _, hraw, hrun, hfacts.2, hnta, ?_⟩
    exact overlooks_of_wwwStripped rfl rfl hhalfSecure hfacts.1.1 hfacts.1.2 (by decide) (by decide)

end Rdns.Resolver
