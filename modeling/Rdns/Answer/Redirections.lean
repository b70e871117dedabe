import Rdns.Answer.Sections

/-!
# Rdns — What a redirection leaves in a reply

The redirections of a resolution only grow, and each leaves its records in the answer section.
-/

namespace Rdns.Answer

open Rdns.Lib Rdns.Core Rdns.Present Rdns.Zones Rdns.Zones.Zone Rdns.Dnssec

/-! ## What the writer is told -/

theorem mem_recordsIn_describe {actions : List Action} {into : Section} {rr : ResourceRecord}
    (h : Action.push into rr ∈ actions) : rr ∈ (describe actions).recordsIn into := by
  have hfold : ∀ (actions : List Action) (reply : Reply), (into, rr) ∈ reply.pushed →
      (into, rr) ∈ (actions.foldl Reply.after reply).pushed := by
    intro actions
    induction actions with
    | nil => exact fun _ h => h
    | cons action rest ih =>
      intro reply h
      refine ih _ ?_
      cases action with
      | push => exact List.mem_append_left _ h
      | _ => exact h
  have hpushed : ∀ (actions : List Action) (reply : Reply), Action.push into rr ∈ actions →
      (into, rr) ∈ (actions.foldl Reply.after reply).pushed := by
    intro actions
    induction actions with
    | nil => exact fun _ h => by cases h
    | cons action rest ih =>
      intro reply h
      rcases List.mem_cons.mp h with rfl | h
      · exact hfold rest _ (List.mem_append_right _ (List.mem_singleton_self _))
      · exact ih _ h
  rw [Reply.recordsIn]
  refine List.mem_map.mpr ⟨(into, rr), List.mem_filter.mpr ⟨hpushed actions .blank h, ?_⟩, rfl⟩
  exact beq_self_eq_true into

/-! ## The redirections of an outcome -/

def Outcome.chain : Outcome → List Hop
  | .referral _ => []
  | .answer chain _ _ => chain
  | .negative chain _ _ => chain
  | .chainLeftZone chain => chain
  | .stopped chain _ => chain

def Turn.chain : Turn → List Hop
  | .exit outcome => outcome.chain
  | .follow next => next.chain

section

variable {z : Zone} {qtype : Qtype} {w : Walk}

theorem prefix_goOn (chain more : List Hop) (visited : List Name) (next : Name) :
    chain <+: (goOn z (chain ++ more) visited next).chain := by
  rw [goOn]
  split <;> exact List.prefix_append ..

theorem prefix_redirectThrough (dname : ZoneRecord) : w.chain <+: (redirectThrough z dname w).chain := by
  rw [redirectThrough]
  split
  · split
    · exact prefix_goOn ..
    · exact List.prefix_append ..
    · exact List.prefix_rfl
  · exact List.prefix_rfl

theorem prefix_lookUp : w.chain <+: (lookUp z qtype w).chain := by
  rw [lookUp]
  split
  · exact List.prefix_rfl
  · split
    · exact List.prefix_rfl
    · split
      · exact List.prefix_rfl
      · exact prefix_goOn ..

theorem prefix_pastCuts : w.chain <+: (pastCuts z qtype w).chain := by
  rw [pastCuts]
  split
  · exact prefix_redirectThrough _
  · exact prefix_lookUp

theorem prefix_turn (hchain : w.chain ≠ []) : w.chain <+: (turn z qtype w).chain := by
  rw [turn]
  split
  · exact prefix_pastCuts
  · dsimp only
    split
    · rw [refer, if_neg (by rwa [List.isEmpty_iff])]
      exact List.prefix_rfl
    · exact prefix_pastCuts

theorem prefix_resolveLoop (turns : Nat) (hchain : w.chain ≠ []) :
    w.chain <+: (resolveLoop (turn z qtype) turns w).chain := by
  induction turns generalizing w with
  | zero => exact List.prefix_rfl
  | succ turns ih =>
    have hturn := @prefix_turn z qtype w hchain
    rw [resolveLoop]
    cases hstep : turn z qtype w with
    | exit outcome =>
      rw [hstep] at hturn
      exact hturn
    | follow next =>
      rw [hstep] at hturn
      have hnext : next.chain ≠ [] := fun hnil => hchain (List.prefix_nil.mp (hnil ▸ hturn))
      exact List.IsPrefix.trans hturn (ih hnext)

end

/-! ## A name below a DNAME -/

structure Redirects (z : Zone) (qname : Name) (dname : ZoneRecord) (target next : Name) : Prop where
  above : z.dnameAbove qname = some dname
  cuts : ∀ cut, z.delegationFor qname = some cut → cut.isAtOrUnder dname.name = true
  parses : dname.rdata.parse = .ok (.dname target)
  becomes : dnameRedirect qname dname.name target = .goesTo next

section

variable {sha1 : Octets → Nsec3Hash} {z : Zone} {qname target next : Name} {qtype : Qtype} {dname : ZoneRecord}

theorem Redirects.turn_eq (h : Redirects z qname dname target next) :
    turn z qtype (.start qname)
      = goOn z [.dname dname.name qname (some next) dname.ttl dname.cls] [] next := by
  have hpast : pastCuts z qtype (.start qname)
      = goOn z [.dname dname.name qname (some next) dname.ttl dname.cls] [] next := by
    rw [pastCuts, Walk.start, h.above]
    dsimp only
    rw [redirectThrough, h.parses]
    dsimp only
    rw [h.becomes]
    rfl
  rw [turn, Walk.start]
  dsimp only
  split
  · exact hpast
  · rename_i cut hcut
    rw [h.above, Option.any_some, h.cuts cut hcut]
    exact hpast

/-- **Every answer for such a name begins with the redirection.** -/
theorem Redirects.prefix_chain (h : Redirects z qname dname target next) :
    [.dname dname.name qname (some next) dname.ttl dname.cls] <+: (resolveInZone z qname qtype).chain := by
  rw [resolveInZone]
  show _ <+: (resolveLoop (turn z qtype) (15 + 1) (.start qname)).chain
  rw [resolveLoop, h.turn_eq, goOn]
  by_cases hleft : (!next.isAtOrUnder z.origin || ([] : List Name).any (·.same next)) = true
  · rw [if_pos hleft]
    exact List.prefix_rfl
  · rw [if_neg hleft]
    exact @prefix_resolveLoop z qtype ⟨[_], _, next⟩ 15 (List.cons_ne_nil _ _)

variable {dnssecOk : Bool}

theorem mem_addChain {hop : Hop} {chain : List Hop} {records : List ResourceRecord}
    {owed : List Hop} (hleads : [hop] <+: chain)
    (h : addChain z dnssecOk chain = .ok (records, owed)) :
    ∃ cname, synthesizedCname hop = .ok cname ∧ cname ⊆ records := by
  obtain ⟨rest, rfl⟩ := hleads
  rw [List.singleton_append, addChain] at h
  dsimp only at h
  obtain ⟨cname, hcname, h⟩ := except_bind_eq_ok.mp h
  obtain ⟨more, -, h⟩ := except_bind_eq_ok.mp h
  cases h
  exact ⟨cname, hcname, fun rr hrr => List.mem_append_left _ (List.mem_append_right _ hrr)⟩

theorem mem_answers_of_write {actions : List Action}
    (h : write sha1 z qname qtype dnssecOk = .ok actions)
    (hchain : (resolveInZone z qname qtype).chain ≠ []) :
    ∃ records owed, addChain z dnssecOk (resolveInZone z qname qtype).chain = .ok (records, owed) ∧
      ∀ rr ∈ records, Action.push .answer rr ∈ actions := by
  rw [write] at h
  have hpush : ∀ {records : List ResourceRecord} {rr : ResourceRecord}, rr ∈ records →
      Action.push .answer rr ∈ records.map (Action.push .answer) := fun hrr => List.mem_map.mpr ⟨_, hrr, rfl⟩
  cases hout : resolveInZone z qname qtype with
  | referral cut =>
    rw [hout] at hchain
    exact absurd rfl hchain
  | answer chain name located =>
    rw [hout] at h
    obtain ⟨⟨records, owed⟩, hadd, h⟩ := except_bind_eq_ok.mp h
    cases h
    refine ⟨records, owed, hadd, fun rr hrr => ?_⟩
    exact List.mem_append_left _ (List.mem_append_left _ (hpush (List.mem_append_left _ hrr)))
  | negative chain name kind =>
    rw [hout] at h
    obtain ⟨⟨records, owed⟩, hadd, h⟩ := except_bind_eq_ok.mp h
    cases h
    exact ⟨records, owed, hadd, fun rr hrr => List.mem_append_left _ (List.mem_append_left _ (hpush hrr))⟩
  | chainLeftZone chain =>
    rw [hout] at h
    obtain ⟨⟨records, owed⟩, hadd, h⟩ := except_bind_eq_ok.mp h
    cases h
    exact ⟨records, owed, hadd, fun rr hrr => List.mem_append_left _ (hpush hrr)⟩
  | stopped chain rcode =>
    rw [hout] at h
    obtain ⟨⟨records, owed⟩, hadd, h⟩ := except_bind_eq_ok.mp h
    cases h
    exact ⟨records, owed, hadd, fun rr hrr => List.mem_append_left _ (List.mem_append_left _ (hpush hrr))⟩

/-- **The zone writes a CNAME** from a name below a DNAME to what it becomes. -/
theorem cname_of_zoneReply {request reply : DnsMessage} (h : Redirects z qname dname target next)
    (hreply : zoneReply sha1 z request qname qtype dnssecOk = .ok reply) :
    ∃ rdata, RecordData.fromParsed (.cname next) = .ok rdata ∧
      ⟨qname, dname.cls, dname.ttl, rdata⟩ ∈ reply.answers := by
  rw [zoneReply] at hreply
  obtain ⟨actions, hwrite, hreply⟩ := except_bind_eq_ok.mp hreply
  cases hreply
  have hleads := @Redirects.prefix_chain z qname target next qtype dname h
  have hne : (resolveInZone z qname qtype).chain ≠ [] := fun hnil =>
    List.cons_ne_nil _ _ (List.prefix_nil.mp (hnil ▸ hleads))
  obtain ⟨records, owed, hadd, hpushed⟩ := mem_answers_of_write hwrite hne
  obtain ⟨cname, hcname, hsub⟩ := mem_addChain hleads hadd
  rw [synthesizedCname] at hcname
  obtain ⟨rdata, hrdata, hcname⟩ := except_bind_eq_ok.mp hcname
  cases hcname
  refine ⟨rdata, hrdata, mem_recordsIn_describe (List.mem_cons_of_mem _ (hpushed _ (hsub ?_)))⟩
  exact List.mem_singleton_self _

end

end Rdns.Answer
