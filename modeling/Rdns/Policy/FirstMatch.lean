import Rdns.Policy.HandleQuery
import Rdns.Resolver.HonestServers

/-!
# Rdns — The first matching trigger

The three passes over the policy zones run at different moments and none of them knows what the
others found. A match of the client-IP and QNAME triggers that replies ends the query; one that
lets it through is forgotten, and the later passes may still stop the walk or rewrite the answer.
-/

namespace Rdns.Policy

open Rdns.Lib Rdns.Core Rdns.Zones Rdns.Dnssec Rdns.Resolver RecordTypes

/-! ## The rule -/

def Silent (met : List Rewrite) : Prop := ∀ rewrite ∈ met, rewrite.action = .passthru

def Unrewritten (outcome : Outcome) : Prop := ∃ way reply, outcome = .sent way reply

def Follows (transport : Transport) (handled : Handled) (rewrite : Rewrite) : Prop :=
  match applyPolicy transport rewrite with
  | some reply => handled.outcome = .policed rewrite reply
  | none => Silent handled.met ∧ Unrewritten handled.outcome

def Serving.answered (serving : Serving) (client : Client) : Option Rewrite :=
  match (serving.gather client).2.1 with
  | .held reply | .checked _ reply =>
    serving.policy.onAnswer reply.answers client.query.qname client.query.qtype
  | .bogus | .stopped _ => none

def Serving.Ordinary (serving : Serving) (client : Client) : Prop :=
  serving.special = none ∧ serving.reverseTarget client = none

/-- **The first match decides**: of the client-IP and QNAME triggers, then of the delegations met,
then of the response; and without one nothing is rewritten. -/
def Decided (serving : Serving) (client : Client) (handled : Handled) : Prop :=
  match serving.asked client with
  | some rewrite => Follows client.transport handled rewrite
  | none =>
    match handled.met.head? with
    | some rewrite => Follows client.transport handled rewrite
    | none =>
      (∀ rewrite, serving.Ordinary client → serving.answered client = some rewrite →
        Follows client.transport handled rewrite) ∧
      (serving.answered client = none → Unrewritten handled.outcome)

/-! ## Where nothing speaks after it -/

/-- No later trigger speaks: every match on the walk is a passthru, and the response-IP triggers
that are asked let the answer through. -/
structure Undisturbed (serving : Serving) (client : Client) : Prop where
  walk : Silent (serving.gather client).1
  response : ∀ way reply, (serving.gather client).2.1 = .checked way reply → ∀ rewrite,
    serving.policy.onAnswer reply.answers client.query.qname client.query.qtype = some rewrite →
      letsThrough client.transport rewrite = true

/-- **When the first match decides**: a match of the first pass that lets the query through is
followed by no trigger that speaks; without one, the same after a delegation that is let through,
and a refusal of the first match met stops the walk, and replies; without one either, an answer
synthesized from held denials is let through by the response-IP triggers. -/
structure InOrder (serving : Serving) (client : Client) : Prop where
  asked : ∀ rewrite, serving.asked client = some rewrite → letsThrough client.transport rewrite = true →
    Undisturbed serving client
  delegated : serving.asked client = none → ∀ rewrite, (serving.gather client).1.head? = some rewrite →
    if rewrite.action = .passthru then Undisturbed serving client
    else letsThrough client.transport rewrite = false ∧
      (serving.gather client).2.1 = .stopped (some rewrite)
  answered : serving.asked client = none → (serving.gather client).1 = [] → ∀ reply,
    (serving.gather client).2.1 = .held reply → ∀ rewrite,
      serving.policy.onAnswer reply.answers client.query.qname client.query.qtype = some rewrite →
        letsThrough client.transport rewrite = true

/-! ## What the passes make of a query -/

section

variable {serving : Serving} {client : Client}

theorem unrewritten_finishDns64 (caches : Caches) (way : Way) (reply : Sent) :
    Unrewritten (serving.finishDns64 client caches way reply) := by
  rw [Serving.finishDns64]
  split
  · exact ⟨_, _, rfl⟩
  · exact ⟨_, _, rfl⟩

variable {rewrite : Rewrite} {reply : Option Sent} {transport : Transport}

theorem not_unrewritten_policed : ¬ Unrewritten (.policed rewrite reply) := by
  rintro ⟨way, sent, h⟩
  cases h

theorem letsThrough_iff :
    letsThrough transport rewrite = true ↔ applyPolicy transport rewrite = none := Option.isNone_iff_eq_none

theorem letsThrough_passthru (h : rewrite.action = .passthru) :
    applyPolicy transport rewrite = none := by
  rw [applyPolicy, h]

theorem bind_applyPolicy {found : Option Rewrite} :
    (found.bind fun rewrite => (applyPolicy transport rewrite).map fun reply => (rewrite, reply)) = none ↔
      ∀ rewrite, found = some rewrite → letsThrough transport rewrite = true := by
  rw [Option.bind_eq_none_iff]
  refine forall_congr' fun rewrite => forall_congr' fun _ => ?_
  rw [Option.map_eq_none_iff, letsThrough_iff]

theorem handleQuery_of_asked (hspecial : serving.special = none) (hreverse : serving.reverseTarget client = none)
    (hasked : ∀ rewrite, serving.asked client = some rewrite → letsThrough client.transport rewrite = true) :
    serving.handleQuery client = ⟨(serving.gather client).1, serving.respond client (serving.gather client).2⟩ := by
  rw [Serving.handleQuery, hspecial]
  dsimp only
  rw [bind_applyPolicy.mpr hasked]
  dsimp only
  rw [hreverse]

theorem unrewritten_respond_iff {obtained : Obtained} {caches : Caches} :
    Unrewritten (serving.respond client (obtained, caches)) ↔
      (∀ hit, obtained ≠ .stopped (some hit)) ∧ ∀ way reply, obtained = .checked way reply → ∀ rewrite,
        serving.policy.onAnswer reply.answers client.query.qname client.query.qtype = some rewrite →
          letsThrough client.transport rewrite = true := by
  cases obtained with
  | held reply =>
    exact iff_of_true (unrewritten_finishDns64 caches .synthesis reply)
      ⟨fun _ h => (by cases h), fun _ _ h => (by cases h)⟩
  | bogus =>
    exact iff_of_true ⟨.failed, serverFailure, rfl⟩ ⟨fun _ h => (by cases h), fun _ _ h => (by cases h)⟩
  | stopped hit =>
    cases hit with
    | none =>
      exact iff_of_true (unrewritten_finishDns64 caches .failed serverFailure)
        ⟨fun _ h => (by cases h), fun _ _ h => (by cases h)⟩
    | some hit =>
      refine iff_of_false ?_ fun h => h.1 hit rfl
      rw [Serving.respond]
      split
      · exact not_unrewritten_policed
      · rintro ⟨way, reply, h⟩
        cases h
  | checked way reply =>
    rw [Serving.respond]
    constructor
    · intro h
      refine ⟨fun _ h => (by cases h), fun way' reply' heq => ?_⟩
      cases heq
      refine bind_applyPolicy.mp ?_
      split at h
      · exact absurd h not_unrewritten_policed
      · next hnone => exact hnone
    · rintro ⟨-, h⟩
      rw [bind_applyPolicy.mpr (h way reply rfl)]
      exact unrewritten_finishDns64 caches way reply

theorem trigger_of_onAnswer {policy : PolicyZones} {answers : List ResourceRecord} {qname : Name}
    {qtype : Qtype} (h : policy.onAnswer answers qname qtype = some rewrite) :
    rewrite.trigger = .responseIp := by
  obtain ⟨zone, -, hzone⟩ := List.exists_of_findSome?_eq_some h
  rw [PolicyZones.answeredIn] at hzone
  split at hzone
  · cases hzone
  · obtain ⟨action, -, rfl⟩ := Option.map_eq_some_iff.mp hzone
    rfl

theorem trigger_of_watch {policy : PolicyZones} {query : QuerySection} {nsNames : List Name}
    {servers : List SocketAddr} (h : policy.watch query nsNames servers = some rewrite) :
    rewrite.trigger ≠ .responseIp := by
  rw [PolicyZones.watch] at h
  split at h
  · obtain ⟨zone, -, hzone⟩ := List.exists_of_findSome?_eq_some h
    rw [PolicyZones.referredIn] at hzone
    split at hzone
    · cases hzone
      exact fun htrigger => (by cases htrigger)
    · obtain ⟨action, -, rfl⟩ := Option.map_eq_some_iff.mp hzone
      exact fun htrigger => (by cases htrigger)
  · cases h

theorem Walk.mem_met {α : Type} {watch : List Name → List SocketAddr → Option Rewrite}
    (walk : Walk α) (h : rewrite ∈ (walk.run watch).1) :
    ∃ nsNames servers, watch nsNames servers = some rewrite := by
  induction walk with
  | done result => cases h
  | ask nsNames servers next ih =>
    rw [Walk.run] at h
    rcases List.mem_append.mp h with hfirst | hrest
    · exact ⟨nsNames, servers, Option.mem_toList.mp hfirst⟩
    · exact ih _ hrest

theorem of_recursed {caches : Caches} :
    (serving.recursed client caches).1 = (serving.resolve.run (serving.policy.watch client.query)).1 ∧
      ∀ hit, (serving.recursed client caches).2.1 = .stopped (some hit) →
        lastRefusal (serving.recursed client caches).1 = some hit := by
  rw [Serving.recursed]
  split
  · grind
  · grind
  · grind

variable (serving client) in
theorem of_gather :
    ((serving.gather client).1 = [] ∧ ∀ hit, (serving.gather client).2.1 ≠ .stopped (some hit)) ∨
      ∃ caches, serving.gather client = serving.recursed client caches := by
  rw [Serving.gather]
  split
  · exact .inl ⟨rfl, fun _ h => (by cases h)⟩
  · exact .inl ⟨rfl, fun _ h => (by cases h)⟩
  · split
    · split
      · exact .inl ⟨rfl, fun _ h => (by cases h)⟩
      · exact .inr ⟨_, rfl⟩
    · exact .inr ⟨_, rfl⟩

theorem lastRefusal_of_stopped {hit : Rewrite} (h : (serving.gather client).2.1 = .stopped (some hit)) :
    lastRefusal (serving.gather client).1 = some hit := by
  rcases of_gather serving client with ⟨-, hnot⟩ | ⟨caches, heq⟩
  · exact absurd h (hnot hit)
  · rw [heq] at h ⊢
    exact of_recursed.2 hit h

theorem mem_of_lastRefusal {met : List Rewrite} {hit : Rewrite} (h : lastRefusal met = some hit) :
    hit ∈ met ∧ hit.action ≠ .passthru := by
  have hmem := List.mem_filter.mp (List.mem_of_getLast? h)
  exact ⟨hmem.1, bne_iff_ne.mp hmem.2⟩

theorem trigger_of_met (h : rewrite ∈ (serving.gather client).1) :
    rewrite.trigger ≠ .responseIp := by
  rcases of_gather serving client with ⟨hnone, -⟩ | ⟨caches, heq⟩
  · rw [hnone] at h
    cases h
  · rw [heq, of_recursed.1] at h
    obtain ⟨nsNames, servers, hwatch⟩ := Walk.mem_met _ h
    exact trigger_of_watch hwatch

theorem undisturbed_iff :
    Silent (serving.gather client).1 ∧ Unrewritten (serving.respond client (serving.gather client).2) ↔
      Undisturbed serving client := by
  rw [← Prod.mk.eta (p := (serving.gather client).2), unrewritten_respond_iff]
  constructor
  · rintro ⟨hsilent, -, hresponse⟩
    exact ⟨hsilent, hresponse⟩
  · intro h
    refine ⟨h.walk, fun hit hstopped => ?_, h.response⟩
    obtain ⟨hmem, haction⟩ := mem_of_lastRefusal (lastRefusal_of_stopped hstopped)
    exact haction (h.walk hit hmem)

theorem policed_respond_iff {first : Rewrite} (hmet : first ∈ (serving.gather client).1)
    (hreply : applyPolicy client.transport first = some reply) :
    serving.respond client (serving.gather client).2 = .policed first reply ↔
      (serving.gather client).2.1 = .stopped (some first) := by
  have htrigger := trigger_of_met hmet
  obtain ⟨met, obtained, caches⟩ := serving.gather client
  show serving.respond client (obtained, caches) = .policed first reply ↔ obtained = .stopped (some first)
  have hsent : ∀ way sent, serving.finishDns64 client caches way sent ≠ .policed first reply := by
    intro way sent heq
    have hunrewritten : Unrewritten (serving.finishDns64 client caches way sent) :=
      unrewritten_finishDns64 caches way sent
    rw [heq] at hunrewritten
    exact not_unrewritten_policed hunrewritten
  cases obtained with
  | held sent => exact iff_of_false (hsent .synthesis sent) fun h => (by cases h)
  | bogus => exact iff_of_false (fun h => (by cases h)) fun h => (by cases h)
  | stopped hit =>
    cases hit with
    | none => exact iff_of_false (hsent .failed serverFailure) fun h => (by cases h)
    | some hit => grind [Serving.respond]
  | checked way sent =>
    refine iff_of_false (fun h => ?_) fun h => (by cases h)
    rw [Serving.respond] at h
    split at h
    · next rewrite found hfound =>
      -- the response-IP triggers have their own name
      cases h
      obtain ⟨rewrite, hanswer, hmap⟩ := Option.bind_eq_some_iff.mp hfound
      obtain ⟨made, -, heq⟩ := Option.map_eq_some_iff.mp hmap
      cases heq
      exact htrigger (trigger_of_onAnswer hanswer)
    · exact hsent way sent h

theorem answered_follows_iff (hmet : (serving.gather client).1 = []) :
    ((∀ rewrite, serving.answered client = some rewrite →
        Follows client.transport ⟨[], serving.respond client (serving.gather client).2⟩ rewrite) ∧
      (serving.answered client = none → Unrewritten (serving.respond client (serving.gather client).2))) ↔
    ∀ reply, (serving.gather client).2.1 = .held reply → ∀ rewrite,
      serving.policy.onAnswer reply.answers client.query.qname client.query.qtype = some rewrite →
        letsThrough client.transport rewrite = true := by
  have hstopped : ∀ hit, (serving.gather client).2.1 ≠ .stopped (some hit) := by
    intro hit heq
    have hmem := (mem_of_lastRefusal (lastRefusal_of_stopped heq)).1
    rw [hmet] at hmem
    cases hmem
  have hsilent : Silent [] := fun _ hmem => absurd hmem List.not_mem_nil
  rw [Serving.answered]
  revert hstopped
  obtain ⟨met, obtained, caches⟩ := serving.gather client
  intro hstopped
  cases obtained with
  | held sent =>
    have hsent : Unrewritten (serving.respond client (.held sent, caches)) := unrewritten_finishDns64 _ _ _
    constructor
    · rintro ⟨hfollows, -⟩ reply heq rewrite hrewrite
      cases heq
      by_contra hreplies
      have hfollow := hfollows rewrite hrewrite
      rw [letsThrough_iff] at hreplies
      obtain ⟨made, hmade⟩ := Option.ne_none_iff_exists'.mp hreplies
      rw [Follows, hmade] at hfollow
      dsimp only at hfollow
      rw [hfollow] at hsent
      exact not_unrewritten_policed hsent
    · grind [Follows, letsThrough_iff]
  | bogus => exact iff_of_true ⟨fun _ h => (by cases h), fun _ => ⟨.failed, serverFailure, rfl⟩⟩ fun _ h => (by cases h)
  | stopped hit =>
    cases hit with
    | none => exact iff_of_true ⟨fun _ h => (by cases h), fun _ => unrewritten_finishDns64 _ _ _⟩ fun _ h => (by cases h)
    | some hit => exact absurd rfl (hstopped hit)
  | checked way sent =>
    refine iff_of_true ⟨fun rewrite hrewrite => ?_, fun hnone => ?_⟩ fun _ h => (by cases h)
    · have hfound : serving.policy.onAnswer sent.answers client.query.qname client.query.qtype = some rewrite := hrewrite
      rw [Follows, Serving.respond, hfound]
      cases happly : applyPolicy client.transport rewrite with
      | none =>
        dsimp only [Option.bind_some, Option.map_none]
        rw [happly]
        exact ⟨hsilent, unrewritten_finishDns64 _ _ _⟩
      | some made =>
        dsimp only [Option.bind_some]
        rw [happly]
        rfl
    · have hfound : serving.policy.onAnswer sent.answers client.query.qname client.query.qtype = none := hnone
      show Unrewritten (serving.respond client (.checked way sent, caches))
      rw [Serving.respond, hfound]
      exact unrewritten_finishDns64 _ _ _

theorem handleQuery_of_reply (hasked : serving.asked client = some rewrite)
    (hreply : applyPolicy client.transport rewrite = some reply) :
    serving.handleQuery client = ⟨[], .policed rewrite reply⟩ := by
  have hspecial : serving.special = none := by
    rw [Serving.asked] at hasked
    split at hasked
    · cases hasked
    · next h => exact Option.not_isSome_iff_eq_none.mp h
  rw [Serving.handleQuery, hspecial, hasked]
  dsimp only [Option.bind_some]
  rw [hreply]
  rfl

theorem decided_of_not_ordinary (hord : ¬ serving.Ordinary client) :
    Decided serving client (serving.handleQuery client) := by
  have hcase : (∃ rewrite reply, serving.asked client = some rewrite ∧
        applyPolicy client.transport rewrite = some reply) ∨
      ((∀ rewrite, serving.asked client = some rewrite → applyPolicy client.transport rewrite = none) ∧
        ∃ way sent, serving.handleQuery client = ⟨[], .sent way sent⟩) := by
    cases hspecial : serving.special with
    | some sent =>
      refine .inr ⟨fun rewrite hasked => ?_, .special, sent, ?_⟩
      · rw [Serving.asked, hspecial] at hasked
        cases hasked
      · rw [Serving.handleQuery, hspecial]
    | none =>
      by_cases hlets : ∀ rewrite, serving.asked client = some rewrite → letsThrough client.transport rewrite = true
      · refine .inr ⟨fun rewrite hasked => letsThrough_iff.mp (hlets rewrite hasked), ?_⟩
        cases hreverse : serving.reverseTarget client with
        | none => exact absurd ⟨hspecial, hreverse⟩ hord
        | some target =>
          refine ⟨.reverse, serving.reverseDns64 client target, ?_⟩
          rw [Serving.handleQuery, hspecial]
          dsimp only
          rw [bind_applyPolicy.mpr hlets]
          dsimp only
          rw [hreverse]
      · push Not at hlets
        obtain ⟨rewrite, hasked, hreplies⟩ := hlets
        obtain ⟨reply, hreply⟩ := Option.ne_none_iff_exists'.mp fun hnone =>
          hreplies (letsThrough_iff.mpr hnone)
        exact .inl ⟨rewrite, reply, hasked, hreply⟩
  rw [Decided]
  rcases hcase with ⟨rewrite, reply, hasked, hreply⟩ | ⟨hlets, way, sent, hhandled⟩
  · grind [handleQuery_of_reply, Follows]
  · have hsent : Unrewritten (.sent way sent) := ⟨way, sent, rfl⟩
    rw [hhandled]
    split
    · next rewrite hasked =>
      rw [Follows, hlets rewrite hasked]
      exact ⟨fun _ hmem => absurd hmem List.not_mem_nil, hsent⟩
    · exact ⟨fun _ h => absurd h hord, fun _ => hsent⟩

theorem decided_iff_of_ordinary (hord : serving.Ordinary client) :
    Decided serving client (serving.handleQuery client) ↔ InOrder serving client := by
  rw [Decided]
  cases hasked : serving.asked client with
  | some rewrite =>
    dsimp only
    cases hreply : applyPolicy client.transport rewrite with
    | some reply =>
      -- the first pass replies, and nothing else runs
      rw [handleQuery_of_reply hasked hreply, Follows, hreply]
      refine iff_of_true rfl ⟨fun other hother hlets => ?_, fun hnone => ?_, fun hnone => ?_⟩
      · grind [letsThrough_iff]
      · rw [hasked] at hnone
        cases hnone
      · rw [hasked] at hnone
        cases hnone
    | none =>
      have hlets : letsThrough client.transport rewrite = true := letsThrough_iff.mpr hreply
      rw [handleQuery_of_asked hord.1 hord.2 fun other hother => by
        rw [hasked] at hother
        cases hother
        exact hlets]
      rw [Follows, hreply]
      show Silent _ ∧ Unrewritten _ ↔ _
      rw [undisturbed_iff]
      constructor
      · intro h
        refine ⟨fun _ _ _ => h, fun hnone => ?_, fun hnone => ?_⟩
        · rw [hasked] at hnone
          cases hnone
        · rw [hasked] at hnone
          cases hnone
      · exact fun h => h.asked rewrite hasked hlets
  | none =>
    rw [handleQuery_of_asked hord.1 hord.2 fun other hother => by
      rw [hasked] at hother
      cases hother]
    dsimp only
    cases hhead : (serving.gather client).1.head? with
    | some first =>
      dsimp only
      have hmem : first ∈ (serving.gather client).1 := List.mem_of_head? hhead
      have honly : InOrder serving client ↔
          if first.action = .passthru then Undisturbed serving client
          else letsThrough client.transport first = false ∧
            (serving.gather client).2.1 = .stopped (some first) := by
        refine ⟨fun h => h.delegated hasked first hhead, fun h => ⟨fun other hother => ?_, fun _ other hother => ?_,
          fun _ hnil => ?_⟩⟩
        · rw [hasked] at hother
          cases hother
        · rw [hhead] at hother
          cases hother
          exact h
        · rw [hnil] at hmem
          cases hmem
      rw [honly]
      by_cases hpass : first.action = .passthru
      · rw [if_pos hpass, Follows, letsThrough_passthru hpass]
        exact undisturbed_iff
      · rw [if_neg hpass]
        cases hreply : applyPolicy client.transport first with
        | none =>
          rw [Follows, hreply]
          refine iff_of_false (fun h => hpass (h.1 first hmem)) fun h => ?_
          rw [letsThrough, hreply] at h
          cases h.1
        | some reply =>
          have hreplies : letsThrough client.transport first = false := by
            rw [letsThrough, hreply]
            rfl
          rw [Follows, hreply]
          dsimp only
          rw [policed_respond_iff hmem hreply]
          exact ⟨fun h => ⟨hreplies, h⟩, And.right⟩
    | none =>
      dsimp only
      have hnil : (serving.gather client).1 = [] := List.head?_eq_none_iff.mp hhead
      have honly : InOrder serving client ↔ ∀ reply, (serving.gather client).2.1 = .held reply → ∀ rewrite,
          serving.policy.onAnswer reply.answers client.query.qname client.query.qtype = some rewrite →
            letsThrough client.transport rewrite = true := by
        refine ⟨fun h => h.answered hasked hnil, fun h => ⟨fun other hother => ?_, fun _ other hother => ?_,
          fun _ _ => h⟩⟩
        · rw [hasked] at hother
          cases hother
        · rw [hhead] at hother
          cases hother
      rw [honly, ← answered_follows_iff hnil, hnil]
      exact and_congr_left' (forall_congr' fun _ => imp_iff_right hord)

end

/-- **The first matching trigger decides** exactly where nothing after it speaks. Special-use names
and the reverse names of synthesized addresses are answered without the later passes. -/
theorem first_match_decides_iff (serving : Serving) (client : Client) :
    Decided serving client (serving.handleQuery client) ↔ (serving.Ordinary client → InOrder serving client) := by
  by_cases hord : serving.Ordinary client
  · rw [imp_iff_right hord]
    exact decided_iff_of_ordinary hord
  · exact iff_of_true (decided_of_not_ordinary hord) fun h => absurd h hord

/-! ## An exception, and a rule behind it -/

def exceptionText : Text :=
  "@ 60 IN SOA . . 1 2 3 4 5\nwww 60 IN CNAME rpz-passthru.\n32.1.2.0.192.rpz-ip 60 IN CNAME .".toList

def plainReader : FeedReader := ⟨noBase64, fun _ => 0, noFiles, fun _ => none⟩

def exceptionZones : PolicyZones :=
  ⟨(PolicyZone.parse plainReader ⟨".zone", .given⟩ [] exceptionText).toOption.toList⟩

theorem wwwRoot_labels : ∀ l ∈ ([[119, 119, 119]] : List Octets), ValidLabel l := by decide

theorem wwwRoot_short : encodedLen [[119, 119, 119]] ≤ MAX_NAME_LEN := by decide

def wwwRoot : Name := ⟨[[119, 119, 119]], wwwRoot_labels, wwwRoot_short⟩

def wwwAddress : ResourceRecord := ⟨wwwRoot, .IN, ⟨300⟩, ⟨A, [192, 0, 2, 1]⟩⟩

def wwwClient : Client :=
  ⟨.v4 ⟨[198, 51, 100, 1], rfl⟩, ⟨wwwRoot, .of A, .in⟩, .udp, false, false⟩

def wwwServing (policy : PolicyZones) : Serving where
  sha1 := unusedSha1
  policy := policy
  dns64 := none
  caches := .new 8 8 .OFF
  now := 0
  ntas := []
  anchors := none
  prefetching := false
  staleFirst := false
  special := none
  touchesLocalZone := fun _ => false
  resolve := .done (.ok ({ requestFor wwwClient.query with response := true, answers := [wwwAddress] },
    .indeterminate "DNSSEC validation is not enabled"))
  later := 1
  meanwhile := id
  behind := fun _ => .done (.error .policyStopped)

/-- **An exception does not survive**: `www.` is let through by its name, and its answer is
rewritten all the same. -/
theorem exception_is_rewritten : ∃ rewrite, (wwwServing exceptionZones).asked wwwClient = some rewrite ∧
    rewrite.action = .passthru ∧
    ¬ Decided (wwwServing exceptionZones) wwwClient ((wwwServing exceptionZones).handleQuery wwwClient) := by
  have hasked : ((wwwServing exceptionZones).asked wwwClient).map Rewrite.action = some .passthru := by
    decide +kernel
  obtain ⟨rewrite, hrewrite, haction⟩ := Option.map_eq_some_iff.mp hasked
  refine ⟨rewrite, hrewrite, haction, fun hdecided => ?_⟩
  have hanswer : (exceptionZones.onAnswer [wwwAddress] wwwRoot (.of A)).map Rewrite.action
      = some .nxdomain := by
    decide +kernel
  obtain ⟨blocked, hblocked, hnxdomain⟩ := Option.map_eq_some_iff.mp hanswer
  have hord : (wwwServing exceptionZones).Ordinary wwwClient := ⟨rfl, rfl⟩
  have hinorder := (decided_iff_of_ordinary hord).mp hdecided
  have hlets : letsThrough wwwClient.transport rewrite = true := letsThrough_iff.mpr (letsThrough_passthru haction)
  have hthrough := (hinorder.asked rewrite hrewrite hlets).response .recursion ⟨.ok, [wwwAddress], [], false⟩ rfl
    blocked hblocked
  rw [letsThrough, applyPolicy, hnxdomain] at hthrough
  cases hthrough

end Rdns.Policy
