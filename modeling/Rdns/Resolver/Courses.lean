import Rdns.Resolver.Traversal

/-!
# Rdns — What every step of a resolution does

Whatever the world answers, each function of a resolution moves it `Along`: what was asked is
still on record, and every query that was sent was charged. A walk ends in a reply that was
given by servers of the zone it names.
-/

namespace Rdns.Resolver

open Rdns.Lib Rdns.Lib.Fallible Rdns.Core Rdns.Dnssec

variable {σ : Type}

/-! ## What is on record -/

def Exchange.isQuery : Exchange → Bool
  | .atServer .. => true
  | .atLocalZone .. => false

def Progress.queries (s : Progress σ) : Nat := s.exchanges.countP Exchange.isQuery

structure Along (s t : Progress σ) : Prop where
  charged : t.queries + t.state.remaining = s.queries + s.state.remaining
  record : s.exchanges <:+ t.exchanges

instance : IsPreorder (Progress σ) Along where
  refl _ := ⟨rfl, List.suffix_rfl⟩
  trans _ _ _ h h' := ⟨h'.charged.trans h.charged, h.record.trans h'.record⟩

theorem stable_heard (answered : Answered) :
    Stable Along fun s : Progress σ => s.Heard answered := by
  intro _ _ hst ⟨exchange, hmem, hgives⟩
  exact ⟨exchange, hst.record.mem hmem, hgives⟩

theorem Along.of_same {s t : Progress σ} (hstate : t.state.remaining = s.state.remaining)
    (hrecord : t.exchanges = s.exchanges) : Along s t :=
  ⟨by rw [Progress.queries, Progress.queries, hrecord, hstate], hrecord ▸ List.suffix_rfl⟩

abbrev Goes {α : Type} (m : Course σ α) : Prop := Meets Along (fun _ => True) m fun _ _ => True

theorem Goes.keeps {α : Type} {m : Course σ α} {P : Progress σ → Prop} (h : Goes m) (hstable : Stable Along P) :
    Meets Along P m fun _ s => P s :=
  (h.keeping hstable).weaken (fun _ hs => ⟨trivial, hs⟩) fun _ _ hs => hs.2

variable (world : World σ) (config : ResolverConfig) (probe : Probe) (crypto : Primitives)

theorem goes_withHints {α : Type} (use : Nat → Hints → α × Hints) : Goes (withHints world use) where
  moves := fun _ _ => .of_same rfl rfl
  result := fun _ _ _ _ => trivial

theorem goes_modifyState {f : Resolution → Resolution} (hf : ∀ state, (f state).remaining = state.remaining) :
    Goes (modifyState f : Course σ Unit) where
  moves := fun s _ => .of_same (hf s.state) rfl
  result := fun _ _ _ _ => trivial

theorem Along.of_asked {s : Progress σ} {state : Resolution} (hspend : s.state.spend = some state)
    (server : SocketAddr) (zone : Name) (query : QuerySection) (reply : Option DnsMessage) (outside : σ) :
    Along s { s with
      state, outside, exchanges := .atServer server zone query reply :: s.exchanges } where
  charged := by
    rw [Resolution.spend] at hspend
    split at hspend
    · cases hspend
    · grind [Exchange.isQuery, Progress.queries]
  record := List.suffix_cons _ _

theorem travels_along : Travels world Along (fun _ => True) fun _ _ => True where
  kept := fun _ _ _ _ => trivial
  record := fun _ _ h => h.record
  hints := fun _ _ _ _ => .of_same rfl rfl
  known := fun _ _ _ _ _ _ _ => trivial
  outside := fun _ _ _ => .of_same rfl rfl
  answered := fun _ _ _ => .of_same rfl rfl
  cut := fun _ _ _ _ => .of_same (Resolution.recordCut_remaining ..) rfl
  denials := fun _ _ _ => .of_same rfl rfl
  trusted := fun _ _ _ _ _ => .of_same rfl rfl
  asked := fun _ _ _ _ _ _ _ hspend => .of_asked hspend ..
  heardHere := fun s _ _ _ _ _ _ => by
    refine ⟨?_, List.suffix_cons _ _⟩
    show List.countP Exchange.isQuery (_ :: s.exchanges) + _ = s.queries + _
    rw [List.countP_cons_of_neg (by simp [Exchange.isQuery]), Progress.queries]

theorem goes_localRootDown : Goes (localRootDown world) := goes_withHints world _

/-- **Whatever the servers do, a walk ends in a reply that was given**, and every query it and
its nested lookups sent was charged. -/
theorem meets_resolveFromRoot (nesting : Nat) (query : QuerySection) :
    Meets Along (fun _ => True) (resolveFromRoot world config probe nesting query) fun answered s =>
      s.Heard answered :=
  ((travels_along world).meets_resolveFromRoot config probe nesting query).weaken (fun _ h => h) fun _ _ h => h.1

/-! ## A resolution -/

theorem goes_chase (query : QuerySection) (left : Nat) (c : Chase) : Goes (chase world config probe query left c) := by
  induction left generalizing c with
  | zero =>
    rw [chase]
    split <;> exact .throw
  | succ left ih =>
    rw [chase]
    split
    · exact .throw
    · refine .bind (Q := fun _ _ => True) ?_ fun answered => ?_
      · exact (meets_resolveFromRoot world config probe _ _).weaken (fun _ h => h) fun _ _ _ => trivial
      · refine .bind (Q := fun _ _ => True) (.onlyIf (fun _ => ?_) fun _ _ _ => trivial) fun _ => ?_
        · exact goes_modifyState (f := fun state => state.recordDenials answered.response.authorities) fun _ => rfl
        · split
          · exact .throw
          · exact .pure fun _ _ => trivial
          · exact ih _

theorem goes_shareKeys (zone : Name) (validated : Option (List Dnskey)) (ttl : Nat) :
    Goes (shareKeys world zone validated ttl) := by
  cases validated with
  | none => exact .pure fun _ _ => trivial
  | some keys =>
    rw [shareKeys]
    exact goes_withHints world _

theorem goes_fetchDnskeys (zone : Name) : Goes (fetchDnskeys world config probe zone) := by
  rw [fetchDnskeys]
  exact .bind (meets_resolveFromRoot world config probe _ _) fun _ => .pure fun _ _ => trivial

theorem goes_feedWalk (target : Name) (walk : ChainWalk) (need : ChainNeed) :
    Goes (feedWalk world config probe crypto target walk need) := by
  induction walk, need using @feedWalk.induct σ crypto target with
  | case1 walk state =>
    rw [feedWalk]
    exact .pure fun _ _ => trivial
  | case2 walk zone ihHeld ihFailed ihFetched =>
    rw [feedWalk]
    refine .bind (goes_withHints world _) fun held => ?_
    cases held with
    | some held => exact ihHeld held
    | none =>
      dsimp only
      refine .bind (.watched (goes_fetchDnskeys world config probe zone) fun _ _ _ _ => trivial) fun found => ?_
      cases found with
      | error e => exact ihFailed.weaken (fun _ _ => trivial) fun _ _ h => h
      | ok fetched =>
        dsimp only
        refine .bind ((goes_shareKeys world zone _ _).weaken (fun _ _ => trivial) fun _ _ h => h) fun _ => ?_
        exact ihFetched fetched.1
  | case3 walk zone ih =>
    rw [feedWalk]
    exact .bind (.get (Q := fun _ _ => True) fun _ _ => trivial) ih

theorem goes_establishChain (target : Name) (anchors : TrustAnchors) (now : Nat) :
    Goes (establishChain world config probe crypto target anchors now) := by
  rw [establishChain]
  exact .bind (.get (Q := fun _ _ => True) fun _ _ => trivial) fun _ => goes_feedWalk ..

theorem goes_establishChains (anchors : TrustAnchors) (now : Nat) (signers : List Name) (keys : KeyStore) :
    Goes (establishChains world config probe crypto anchors now signers keys) := by
  induction signers generalizing keys with
  | nil => exact .pure fun _ _ => trivial
  | cons signer rest ih =>
    rw [establishChains]
    refine .bind (goes_establishChain ..) fun ended => ?_
    dsimp only
    split
    · exact ih _
    · exact .pure fun _ _ => trivial

theorem goes_validate (query : QuerySection) (response : DnsMessage) (anchors : TrustAnchors) :
    Goes (validate world config probe crypto query response anchors) := by
  rw [validate]
  refine .bind (.get (Q := fun _ _ => True) fun _ _ => trivial) fun s => ?_
  dsimp only
  split
  · refine .bind (goes_establishChain ..) fun ended => ?_
    split <;> exact .pure fun _ _ => trivial
  · refine .bind (goes_establishChains ..) fun ended => ?_
    split
    · exact .bind (.get (Q := fun _ _ => True) fun _ _ => trivial) fun _ => .pure fun _ _ => trivial
    · exact .pure fun _ _ => trivial

theorem goes_validateUnlessExempt (honoured : Bool) (query : QuerySection) (response : DnsMessage) :
    Goes (validateUnlessExempt world config probe crypto honoured query response) := by
  rw [validateUnlessExempt]
  refine .bind (.get (Q := fun _ _ => True) fun _ _ => trivial) fun s => ?_
  dsimp only
  split
  · exact .pure fun _ _ => trivial
  · refine .bind (goes_validate ..) fun verdict => ?_
    refine .bind (.get (Q := fun _ _ => True) fun _ _ => trivial) fun t => ?_
    exact .bind (.onlyIf (fun _ => goes_localRootDown world) fun _ _ _ => trivial) fun _ => .pure fun _ _ => trivial

theorem goes_resolveUntimed (honoured : Bool) (query : QuerySection) :
    Goes (resolveUntimed world config probe crypto honoured query) := by
  rw [resolveUntimed]
  refine .bind (goes_chase ..) fun response => ?_
  dsimp only
  split
  · exact .bind (goes_validateUnlessExempt ..) fun _ => .pure fun _ _ => trivial
  · exact .pure fun _ _ => trivial

/-- **A resolution is bounded whatever the servers do**: it comes to an end, and what it sent
and what it may still send are its budget. -/
theorem queries_within_budget (query : QuerySection) (hints : Hints) (outside : σ) :
    (resolveValidated world config crypto query hints outside).2.queries
        + (resolveValidated world config crypto query hints outside).2.state.remaining = config.queryBudget ∧
      (resolveValidated world config crypto query hints outside).2.queries ≤ config.queryBudget := by
  have hcharged : (resolveValidated world config crypto query hints outside).2.queries
      + (resolveValidated world config crypto query hints outside).2.state.remaining = config.queryBudget := by
    have h := ((goes_resolveUntimed world config .none crypto true query).moves (.begin config hints outside)
      trivial).charged
    rw [resolveValidated, h]
    exact Nat.zero_add _
  exact ⟨hcharged, by omega⟩

end Rdns.Resolver
