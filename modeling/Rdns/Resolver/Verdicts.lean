import Rdns.Dnssec.RecordsLaws
import Rdns.Resolver.Validation

/-!
# Rdns — What a verdict rests on

`Resolver::validate` needs a chain of trust to every zone that signed something, and judges the
records by the keys that the chains established.
-/

namespace Rdns.Resolver

open Rdns.Lib Rdns.Lib.Fallible Rdns.Core Rdns.Dnssec

theorem eq_of_toOption {ε σ α β : Type} {x : Except ε α × σ} {f : α → β} {b : β}
    (h : x.1.toOption.map f = some b) : ∃ a, x = (.ok a, x.2) ∧ f a = b := by
  obtain ⟨result, t⟩ := x
  cases result with
  | error e => cases h
  | ok a => exact ⟨a, rfl, Option.some.inj h⟩

section

variable {σ : Type} (world : World σ) (config : ResolverConfig) (probe : Probe) (crypto : Primitives)

def chainsOf (query : QuerySection) (response : DnsMessage) (anchors : TrustAnchors) (now : Nat) :
    Course σ (ValidationState × KeyStore) :=
  match signersOf (recordsToCheck query response) with
  | [] => establishChain world config probe crypto query.qname anchors now
  | signers => establishChains world config probe crypto anchors now signers []

def ChainsSecure (query : QuerySection) (response : DnsMessage) (anchors : TrustAnchors) (s : Progress σ) : Prop :=
  ∃ keys t, (chainsOf world config probe crypto query response anchors (world.now s.outside)).out s
    = (.ok (.secure, keys), t)

variable {world config probe crypto}

variable {query : QuerySection} {response : DnsMessage}

theorem judge_of_bogus {denials : List ResourceRecord} {validator : ChainValidator}
    {keys : KeyStore} {reason : Bogus}
    (h : (validator.validateRecords crypto (recordsToCheck query response) keys).state = .bogus reason) :
    judge crypto query response denials validator keys = .bogus reason := by
  rw [judge, h]
  rfl

theorem of_judge {denials : List ResourceRecord} {validator : ChainValidator} {keys : KeyStore}
    (h : judge crypto query response denials validator keys = .secure) :
    (validator.validateRecords crypto (recordsToCheck query response) keys).state = .secure ∧
    ∃ finalName, cnameChainShape query.qname query.qtype response.answers = .intact finalName ∧
      if isNegative query response then checkDenial crypto query finalName response = .secure
      else ((validator.validateRecords crypto (recordsToCheck query response) keys).wildcards.isEmpty = true ∨
        validator.validateWildcardProofs crypto (response.authorities ++ denials) keys
          (validator.validateRecords crypto (recordsToCheck query response) keys).wildcards = .secure) := by
  rw [judge] at h
  split at h
  · rename_i hstate
    rw [h] at hstate
    cases hstate
  · rename_i hstate
    rw [Bool.not_eq_true', Bool.not_eq_false, ValidationState.isSecure_iff] at hstate
    refine ⟨hstate, ?_⟩
    split at h
    · cases h
    · grind

/-- **A secure verdict** has a secure chain to every signer, and is judged by their keys. -/
theorem of_validate {anchors : TrustAnchors} {s t : Progress σ}
    (h : (validate world config probe crypto query response anchors).out s = (.ok .secure, t)) :
    ∃ keys, (chainsOf world config probe crypto query response anchors (world.now s.outside)).out s
        = (.ok (.secure, keys), t) ∧
      judge crypto query response t.state.denials ⟨anchors, world.now s.outside⟩ keys = .secure := by
  rw [validate, out_bind, out_get] at h
  dsimp only at h
  rw [chainsOf]
  cases hsigners : signersOf (recordsToCheck query response) with
  | nil =>
    -- nothing is signed: a secure chain makes the response bogus, and no other makes it secure
    rw [hsigners] at h
    obtain ⟨⟨state, keys⟩, u, hchain, h⟩ := of_bind h
    cases state <;> cases h
  | cons signer signers =>
    rw [hsigners] at h
    obtain ⟨⟨state, keys⟩, u, hchain, h⟩ := of_bind h
    cases state with
    | secure =>
      obtain ⟨left, _, hget, h⟩ := of_bind h
      cases hget
      obtain ⟨hsecure, hend⟩ := Prod.mk.inj h
      obtain rfl : u = t := hend
      exact ⟨keys, hchain, Except.ok.inj hsecure⟩
    | insecure => cases h
    | bogus reason => cases h
    | indeterminate why => cases h

end

end Rdns.Resolver
