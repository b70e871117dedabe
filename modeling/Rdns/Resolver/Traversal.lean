import Rdns.Resolver.Validation

/-!
# Rdns — Through every step of a resolution

What a resolution does to its state it does in a few kinds of step: it looks at the hints, puts
something on record about cuts, denials and the keys it starts from, charges and sends a query,
and asks the policy or a local zone. A relation that each of these keeps to is one that a whole
resolution keeps to, whatever the world answers.
-/

namespace Rdns.Resolver

open Rdns.Lib Rdns.Lib.Fallible Rdns.Core Rdns.Dnssec

variable {σ : Type}

/-! ## What is on record -/

inductive Exchange.Gives : Exchange → Answered → Prop
  | server (server : SocketAddr) (zone : Name) (query : QuerySection) (reply : DnsMessage) :
      Gives (.atServer server zone query (some reply)) ⟨reply, zone⟩
  | localZone (zone : Name) (query : QuerySection) (reply : DnsMessage) :
      Gives (.atLocalZone zone query reply) ⟨reply, zone⟩

def Progress.Heard (s : Progress σ) (answered : Answered) : Prop :=
  ∃ exchange ∈ s.exchanges, exchange.Gives answered

/-! ## The kinds of step -/

def Tame (change : Nat → Hints → Hints) : Prop :=
  ∀ now hints, (change now hints).keys.entries ⊆ hints.keys.entries

def Progress.hinted (world : World σ) (change : Nat → Hints → Hints) (s : Progress σ) : Progress σ :=
  { s with
    hints := change (world.now (world.meanwhile s.hints s.outside).2) (world.meanwhile s.hints s.outside).1
    outside := (world.meanwhile s.hints s.outside).2 }

/-- A relation that every kind of step keeps to from where `Inv` holds, which it then still does. -/
structure Travels (world : World σ) (R : Progress σ → Progress σ → Prop) (Inv : Progress σ → Prop)
    (Known : Name → List Dnskey → Prop) : Prop where
  kept : Stable R Inv
  record : ∀ s t, R s t → s.exchanges <:+ t.exchanges
  hints : ∀ s change, Inv s → Tame change → R s (s.hinted world change)
  known : ∀ s validating qname start keys, Inv s →
    (Hints.bestStart validating qname (world.now (world.meanwhile s.hints s.outside).2)
      (world.meanwhile s.hints s.outside).1).1 = some (start, some keys) → Known start.zone keys
  outside : ∀ s outside, Inv s → R s { s with outside }
  answered : ∀ s localRootAnswered, Inv s → R s { s with localRootAnswered }
  cut : ∀ s zone authorities, Inv s → R s { s with state := s.state.recordCut zone authorities }
  denials : ∀ s authorities, Inv s → R s { s with state := s.state.recordDenials authorities }
  trusted : ∀ s zone keys, Inv s → Known zone keys →
    R s { s with state := s.state.recordTrustedStart zone keys }
  asked : ∀ s state server zone query forwarded, Inv s → s.state.spend = some state →
    R s { s with
      state
      outside := (world.queryServer server query forwarded s.outside).2
      exchanges := .atServer server zone query (world.queryServer server query forwarded s.outside).1
        :: s.exchanges }
  heardHere : ∀ s route query first outside, Inv s →
    world.answerLocally route query s.outside = (.ok first, outside) →
    R s { s with outside, exchanges := .atLocalZone route.name query first :: s.exchanges }

abbrev Keeps {α : Type} (R : Progress σ → Progress σ → Prop) (Inv : Progress σ → Prop) (m : Course σ α) : Prop :=
  Meets R Inv m fun _ s => Inv s

namespace Travels

variable {world : World σ} {R : Progress σ → Progress σ → Prop} {Inv : Progress σ → Prop}
  {Known : Name → List Dnskey → Prop} (travels : Travels world R Inv Known)

include travels

theorem meets_set {s t : Progress σ} {Q : PUnit → Progress σ → Prop} (hmoves : Inv s → R s t) (h : Q ⟨⟩ t) :
    Meets R (fun u => s = u ∧ Inv u) (set t : Course σ PUnit) fun a u => Q a u ∧ Inv u where
  moves := by
    rintro _ ⟨rfl, hinv⟩
    exact hmoves hinv
  result := by
    rintro _ _ ⟨rfl, hinv⟩ -
    exact ⟨h, travels.kept _ _ (hmoves hinv) hinv⟩

theorem keeps_withHints {α : Type} {use : Nat → Hints → α × Hints} (htame : Tame fun now hints => (use now hints).2) :
    Keeps R Inv (withHints world use) where
  moves := fun s hinv => travels.hints s _ hinv htame
  result := fun s _ hinv _ => travels.kept _ _ (travels.hints s _ hinv htame) hinv

theorem keeps_modifyState {f : Resolution → Resolution}
    (hf : ∀ s : Progress σ, Inv s → R s { s with state := f s.state }) : Keeps R Inv (modifyState f : Course σ Unit) where
  moves := hf
  result := fun s _ hinv _ => travels.kept _ _ (hf s hinv) hinv

omit travels in
theorem tame_bestMatchWhere (validating : Bool) (now : Nat) (candidates : List Name) (hints : Hints) :
    (Hints.bestMatchWhere validating now candidates hints).2.keys.entries ⊆ hints.keys.entries := by
  have hget : ∀ (keys : KeyCache) (zone : Name), (keys.get now zone).2.entries ⊆ keys.entries := by
    intro keys zone
    rw [KeyCache.get]
    split
    · exact List.Subset.refl _
    · split
      · exact List.Subset.refl _
      · exact List.filter_subset_self _
  induction candidates generalizing hints with
  | nil => exact List.Subset.refl _
  | cons candidate rest ih =>
    rw [Hints.bestMatchWhere]
    split
    · exact ih hints
    · split
      · split
        · split
          · rename_i held keys hheld
            have hsub := hget hints.keys candidate
            rw [hheld] at hsub
            exact hsub
          · rename_i keys hheld
            have hsub := hget hints.keys candidate
            rw [hheld] at hsub
            exact List.Subset.trans (ih _) hsub
        · exact List.Subset.refl _
      · exact ih _

theorem meets_bestStart (validating : Bool) (qname : Name) :
    Meets R Inv (withHints world (Hints.bestStart validating qname)) fun found s =>
      (∀ start keys, found = some (start, some keys) → Known start.zone keys) ∧ Inv s where
  moves := fun s hinv => travels.hints s _ hinv fun _ _ => tame_bestMatchWhere _ _ _ _
  result := fun s found hinv hfound => by
    refine ⟨fun start keys heq => ?_, ?_⟩
    · refine travels.known s validating qname start keys hinv ?_
      rw [← heq]
      exact Except.ok.inj hfound
    · exact travels.kept _ _ (travels.hints s _ hinv fun _ _ => tame_bestMatchWhere _ _ _ _) hinv

theorem keeps_localRootInUse : Keeps R Inv (localRootInUse world) :=
  travels.keeps_withHints fun _ _ => List.Subset.refl _

theorem keeps_localRootDown : Keeps R Inv (localRootDown world) :=
  travels.keeps_withHints fun _ _ => List.Subset.refl _

variable [IsPreorder (Progress σ) R] (config : ResolverConfig) (probe : Probe)

omit travels in
theorem meets_get : Meets R Inv (get : Course σ (Progress σ)) fun t s => t = s ∧ Inv s :=
  .get fun _ hinv => ⟨rfl, hinv⟩

theorem keeps_allows (nsNames : List Name) (servers : List SocketAddr) :
    Keeps R Inv (allows world nsNames servers) := by
  rw [allows]
  refine .bind meets_get fun s => ?_
  refine .bind (travels.meets_set (Q := fun _ _ => True) (fun hinv => travels.outside s _ hinv) trivial) fun _ => ?_
  exact .onlyIf (fun _ => .throw) fun _ _ h => h.2

/-! ## Asking servers -/

def Found (zone : Name) (found : Option DnsMessage) (s : Progress σ) : Prop :=
  ∀ reply, found = some reply → s.Heard ⟨reply, zone⟩

omit travels [IsPreorder (Progress σ) R] in
theorem found_none {zone : Name} {s : Progress σ} : Found zone none s := fun _ h => by cases h

theorem meets_askEach (query : QuerySection) (zone : Name) (forwarded : Bool) (servers : List SocketAddr) :
    Meets R Inv (askEach world query zone forwarded servers) fun found s => Found zone found s ∧ Inv s := by
  induction servers with
  | nil => exact .pure fun _ hinv => ⟨found_none, hinv⟩
  | cons server rest ih =>
    rw [askEach]
    refine .bind meets_get fun s => ?_
    cases hspend : s.state.spend with
    | none => exact .pure fun _ h => ⟨found_none, h.2⟩
    | some state =>
      dsimp only
      refine .bind (travels.meets_set (Q := fun _ t => t.exchanges = .atServer server zone query
        (world.queryServer server query forwarded s.outside).1 :: s.exchanges)
        (fun hinv => travels.asked s state server zone query forwarded hinv hspend) rfl) fun _ => ?_
      split
      · rename_i reply hreply
        refine .pure fun t ht => ⟨fun found hfound => ?_, ht.2⟩
        cases hfound
        rw [hreply] at ht
        exact ⟨_, ht.1 ▸ List.mem_cons_self, .server ..⟩
      · exact ih.weaken (fun _ h => h.2) fun _ _ h => h

theorem meets_askAny (servers : List SocketAddr) (query : QuerySection) (zone : Name) (forwarded : Bool) :
    Meets R Inv (askAny world servers query zone forwarded) fun found s => Found zone found s ∧ Inv s :=
  .bind meets_get fun _ => (travels.meets_askEach ..).weaken (fun _ h => h.2) fun _ _ h => h

/-! ## Walks -/

section Nested

variable {nested : QuerySection → Course σ Answered}
  (hnested : ∀ query, Meets R Inv (nested query) fun answered s => s.Heard answered ∧ Inv s)

include hnested

theorem keeps_resolveNameserver (name : Name) (qtypes : List Qtype) :
    Keeps R Inv (resolveNameserver nested name qtypes) := by
  induction qtypes with
  | nil => exact .pure fun _ h => h
  | cons qtype rest ih =>
    rw [resolveNameserver]
    refine .bind (.watched (hnested _) travels.kept) fun found => ?_
    cases found with
    | error e => exact ih.weaken (fun _ h => h.1) fun _ _ h => h
    | ok answered =>
      dsimp only
      split
      · exact ih.weaken (fun _ h => h.1) fun _ _ h => h
      · exact .pure fun _ h => h.1

theorem keeps_resolveNameserverAddresses (names : List Name) :
    Keeps R Inv (resolveNameserverAddresses nested names) := by
  induction names with
  | nil => exact .pure fun _ h => h
  | cons name rest ih =>
    rw [resolveNameserverAddresses]
    refine .bind (travels.keeps_resolveNameserver hnested _ _) fun addrs => ?_
    split
    · exact ih
    · exact .pure fun _ h => h

omit hnested in
theorem meets_reply (query step : QuerySection) (position : WalkPosition) :
    Meets R (fun s => Found position.zone position.first s ∧ Inv s) (reply world config query step position)
      fun response s => s.Heard ⟨response, position.zone⟩ ∧ Inv s := by
  rw [reply]
  cases hfirst : position.first with
  | some first => exact .pure fun _ h => ⟨h.1 first rfl, h.2⟩
  | none =>
    dsimp only
    refine .bind ((travels.meets_askAny position.servers step position.zone false).weaken (fun _ h => h.2)
      fun _ _ h => h) fun found => ?_
    cases found with
    | none =>
      refine .bind (Q := fun _ s => Inv s) (.onlyIf (fun _ => ?_) fun _ _ h => h.2) fun _ => .throw
      exact travels.keeps_localRootDown.weaken (fun _ h => h.2) fun _ _ h => h
    | some response =>
      dsimp only
      split
      · refine .bind (Q := fun _ s => Inv s) ?_ fun _ => .throw
        exact travels.keeps_localRootDown.weaken (fun _ h => h.2) fun _ _ h => h
      · exact .pure fun _ h => ⟨h.1 response rfl, h.2⟩

theorem keeps_serversOf (referral : Referral) : Keeps R Inv (serversOf nested referral) := by
  rw [serversOf]
  split
  · exact travels.keeps_resolveNameserverAddresses hnested _
  · exact .pure fun _ h => h

theorem meets_follow (response : DnsMessage) (referral : Referral) (probes : Nat) :
    Meets R Inv (follow world config nested response referral probes) fun position s =>
      Found position.zone position.first s ∧ Inv s := by
  rw [follow]
  refine .bind (.onlyIf (fun _ => travels.keeps_modifyState fun s hinv => travels.cut s _ _ hinv) fun _ _ h => h)
    fun _ => ?_
  refine .bind (travels.keeps_serversOf hnested referral) fun servers => ?_
  refine .bind (Q := fun _ s => Inv s) (.onlyIf (fun _ => .throw) fun _ _ h => h) fun _ => ?_
  refine .bind (travels.keeps_allows _ _) fun _ => ?_
  refine .bind (travels.keeps_withHints fun _ _ => List.Subset.refl _) fun _ => .pure fun _ h => ⟨found_none, h⟩

/-- **A walk ends in a reply that was given** for the zone it names. -/
theorem meets_walkSteps (query : QuerySection) (steps : Nat) (position : WalkPosition) :
    Meets R (fun s => Found position.zone position.first s ∧ Inv s)
      (walkSteps world config nested query steps position) fun answered s => s.Heard answered ∧ Inv s := by
  induction steps generalizing position with
  | zero => exact .throw
  | succ steps ih =>
    rw [walkSteps]
    refine .bind (travels.meets_reply config _ _ _) fun response => ?_
    cases extractReferral response position.zone query.qname with
    | some referral =>
      dsimp only
      refine .bind ((travels.meets_follow config hnested response referral _).weaken (fun _ h => h.2)
        fun _ _ h => h) fun position => ih position
    | none =>
      dsimp only
      split
      · split
        · exact .pure fun _ h => h
        · exact .throw
      · split
        · exact .pure fun _ h => h
        · exact (ih _).weaken (fun _ h => ⟨found_none, h.2⟩) fun _ _ h => h

theorem meets_walkFrom (query : QuerySection) (zone : Name) (servers : List SocketAddr)
    (first : Option DnsMessage) :
    Meets R (fun s => Found zone first s ∧ Inv s) (walkFrom world config nested query zone servers first)
      fun answered s => s.Heard answered ∧ Inv s := by
  rw [walkFrom]
  exact travels.meets_walkSteps config hnested query _ ⟨zone, servers, _, 0, first⟩

theorem meets_walk (query : QuerySection) (zone : Name) (servers : List SocketAddr) :
    Meets R Inv (walk world config nested query zone servers) fun answered s => s.Heard answered ∧ Inv s :=
  (travels.meets_walkFrom config hnested query zone servers none).weaken (fun _ h => ⟨found_none, h⟩)
    fun _ _ h => h

/-! ## Where a walk starts -/

omit hnested in
theorem meets_forwardTo (route : Route) (query : QuerySection) :
    Meets R Inv (forwardTo world route query) fun answered s => s.Heard answered ∧ Inv s := by
  rw [forwardTo]
  refine .bind (travels.meets_askAny _ _ _ _) fun found => ?_
  cases found with
  | none => exact .throw
  | some response => exact .pure fun _ h => ⟨h.1 response rfl, h.2⟩

omit hnested in
theorem keeps_trustStart {zone : Name} {keys : Option (List Dnskey)} (hknown : ∀ held, keys = some held → Known zone held) :
    Keeps R Inv (trustStart zone keys : Course σ Unit) := by
  cases keys with
  | none => exact .pure fun _ h => h
  | some keys =>
    exact travels.keeps_modifyState (f := fun state => state.recordTrustedStart zone keys)
      fun s hinv => travels.trusted s zone keys hinv (hknown keys rfl)

theorem meets_fromShortcut (route : Option Route) (query : QuerySection) :
    Meets R Inv (fromShortcut world config nested route query) fun found s =>
      (∀ answered, found = some answered → s.Heard answered) ∧ Inv s := by
  rw [fromShortcut]
  refine .bind (travels.meets_bestStart _ _) fun found => ?_
  dsimp only
  split
  · exact .pure fun _ h => ⟨fun _ hnone => (by cases hnone), h.2⟩
  · rename_i start keys hfound
    have hsome := (Option.filter_eq_some_iff.mp hfound).1
    by_cases hknown : ∀ held, keys = some held → Known start.zone held
    · refine .bind ((travels.keeps_allows _ _).weaken (fun _ h => h.2) fun _ _ h => h) fun _ => ?_
      refine .bind (travels.keeps_trustStart hknown) fun _ => ?_
      refine .bind (.watched (travels.meets_walk config hnested query _ _) travels.kept) fun found => ?_
      split
      · rename_i answered
        refine .pure fun s h => ⟨fun _ heq => ?_, h.1⟩
        cases heq
        exact (h.2 answered rfl).1
      · exact .throw
      · refine .bind ((travels.keeps_withHints fun _ _ => List.Subset.refl _).weaken (fun _ h => h.1) fun _ _ h => h)
          fun _ => ?_
        exact .pure fun _ h => ⟨fun _ hnone => (by cases hnone), h⟩
    · -- nothing is found that is not known
      have hnever : ∀ s : Progress σ, ¬ ((∀ start keys, found = some (start, some keys) → Known start.zone keys) ∧
          Inv s) := by
        rintro s ⟨hall, -⟩
        refine hknown fun held hheld => hall start held ?_
        rw [hsome, hheld]
      exact ⟨fun s hs => absurd hs (hnever s), fun s _ hs => absurd hs (hnever s)⟩

theorem meets_fromLocalRoot (route : Route) (query : QuerySection) :
    Meets R Inv (fromLocalRoot world config nested probe route query) fun answered s =>
      s.Heard answered ∧ Inv s := by
  rw [fromLocalRoot]
  refine .bind (.watched (travels.meets_walk config hnested query _ _) travels.kept) fun found => ?_
  cases found with
  | ok answered =>
    dsimp only
    refine .bind (.get (Q := fun t s => t = s ∧ s.Heard answered ∧ Inv s) fun _ h => ⟨rfl, h.2 answered rfl⟩)
      fun s => ?_
    refine .bind (Q := fun _ t => t.Heard answered ∧ Inv t) ⟨?_, ?_⟩ fun _ => .pure fun _ h => h
    · rintro _ ⟨rfl, -, hinv⟩
      exact travels.answered s _ hinv
    · rintro _ _ ⟨rfl, hheard, hinv⟩ -
      exact ⟨hheard, travels.kept _ _ (travels.answered s _ hinv) hinv⟩
  | error e =>
    dsimp only
    refine .bind (travels.keeps_localRootInUse.weaken (fun _ h => h.1) fun _ _ h => h) fun inUse => ?_
    split
    · exact .throw
    · split
      · exact travels.meets_walk config hnested query _ _
      · exact .throw

omit hnested in
theorem meets_askLocally (route : Route) (query : QuerySection) :
    Meets R Inv (askLocally world route query) fun first s => s.Heard ⟨first, route.name⟩ ∧ Inv s := by
  rw [askLocally]
  refine .bind meets_get fun s => ?_
  split
  · refine .bind (travels.meets_set (Q := fun _ _ => True) (fun hinv => travels.outside s _ hinv) trivial)
      fun _ => .throw
  · rename_i first outside hanswer
    refine .bind (travels.meets_set (Q := fun _ t => t.Heard ⟨first, route.name⟩)
      (fun hinv => travels.heardHere s route query first outside hinv hanswer) ?_) fun _ => .pure fun _ h => h
    exact ⟨_, List.mem_cons_self, .localZone ..⟩

theorem meets_fromTop (route : Option Route) (query : QuerySection) :
    Meets R Inv (fromTop world config nested probe route query) fun answered s => s.Heard answered ∧ Inv s := by
  cases route with
  | none => exact travels.meets_walk config hnested query _ _
  | some route =>
    rw [fromTop]
    split
    · refine .bind (travels.meets_askLocally route query) fun first => ?_
      refine (travels.meets_walkFrom config hnested query _ _ (some first)).weaken (fun s h => ⟨?_, h.2⟩)
        fun _ _ h => h
      intro response heq
      cases heq
      exact h.1
    · split
      · exact travels.meets_fromLocalRoot config probe hnested route query
      · exact travels.meets_walk config hnested query _ _

theorem meets_fromKnown (route : Option Route) (query : QuerySection) :
    Meets R Inv (fromKnown world config nested probe route query) fun answered s => s.Heard answered ∧ Inv s := by
  rw [fromKnown]
  refine .bind (travels.meets_fromShortcut config hnested route query) fun found => ?_
  cases found with
  | some answered => exact .pure fun _ h => ⟨h.1 answered rfl, h.2⟩
  | none => exact (travels.meets_fromTop config probe hnested route query).weaken (fun _ h => h.2) fun _ _ h => h

theorem meets_resolveOne (query : QuerySection) :
    Meets R Inv (resolveOne world config nested probe query) fun answered s => s.Heard answered ∧ Inv s := by
  rw [resolveOne]
  refine .bind (Q := fun _ s => Inv s) ?_ fun route => ?_
  · rw [routeInForce]
    exact .bind travels.keeps_localRootInUse fun _ => .pure fun _ h => h
  cases route with
  | none => exact travels.meets_fromKnown config probe hnested none query
  | some route =>
    dsimp only
    refine .bind (travels.keeps_allows _ _) fun _ => ?_
    split
    · exact travels.meets_forwardTo route query
    · exact travels.meets_fromKnown config probe hnested (some route) query

end Nested

/-- **Whatever the servers do, a walk ends in a reply that was given**, and it and its nested
lookups do nothing but such steps. -/
theorem meets_resolveFromRoot (nesting : Nat) (query : QuerySection) :
    Meets R Inv (resolveFromRoot world config probe nesting query) fun answered s => s.Heard answered ∧ Inv s := by
  induction nesting generalizing query with
  | zero => exact .throw
  | succ nesting ih => exact travels.meets_resolveOne config probe ih query

end Travels

end Rdns.Resolver
