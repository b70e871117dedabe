import Rdns.Zones.Locate

/-!
# Rdns — One question against one zone

`resolve_in_zone` of `rdns/src/zone_answer.rs`: RFC 1034 §4.3.2 with the DNAMEs of RFC 6672,
as a loop whose every turn either ends in an `Outcome` or follows a redirection.

A turn is a function of its own (`turn`), so that what is decided at one name can be said
without saying what came before.
-/

namespace Rdns.Answer

open Rdns.Lib Rdns.Core Rdns.Zones RecordTypes

/-! ## DNAME substitution -/

/-- What a DNAME does to one query name (RFC 6672 §2.2). -/
inductive Redirect where
  | goesTo (name : Name)
  | noMatch
  | tooLong
deriving DecidableEq

def dnameRedirect (qname owner target : Name) : Redirect :=
  if !qname.isAtOrUnder owner || qname.same owner then .noMatch
  else match Name.ofLabels (qname.labels.take (qname.labelCount - owner.labelCount) ++ target.labels) with
    | .ok name => .goesTo name
    | .error _ => .tooLong

/-! ## Outcomes -/

inductive Hop where
  | cname (owner : Name)
  /-- The DNAME at `owner`, and the CNAME from `asked` to the substituted name, which is
  missing when the substitution overflowed. -/
  | dname (owner asked : Name) (substituted : Option Name) (ttl : Ttl) (cls : Core.Class)
deriving DecidableEq

def Hop.owner : Hop → Name
  | .cname owner => owner
  | .dname owner _ _ _ _ => owner

inductive Outcome where
  | referral (cut : Name)
  | answer (chain : List Hop) (name : Name) (located : Located)
  | negative (chain : List Hop) (name : Name) (kind : NameKind)
  | chainLeftZone (chain : List Hop)
  | stopped (chain : List Hop) (rcode : ResponseCode)
deriving DecidableEq

def MAX_REDIRECTS : Nat := 16

structure Walk where
  chain : List Hop
  visited : List Name
  name : Name
deriving DecidableEq

inductive Turn where
  | exit (outcome : Outcome)
  | follow (next : Walk)
deriving DecidableEq

/-! ## One turn -/

section

variable (z : Zone)

def goOn (chain : List Hop) (visited : List Name) (next : Name) : Turn :=
  if !next.isAtOrUnder z.origin || visited.any (·.same next) then .exit (.chainLeftZone chain)
  else .follow ⟨chain, visited ++ [next], next⟩

def redirectThrough (dname : ZoneRecord) (w : Walk) : Turn :=
  match dname.rdata.parse with
  | .ok (.dname target) =>
    match dnameRedirect w.name dname.name target with
    | .goesTo next =>
      goOn z (w.chain ++ [.dname dname.name w.name (some next) dname.ttl dname.cls]) w.visited next
    | .tooLong =>
      .exit (.stopped (w.chain ++ [.dname dname.name w.name none dname.ttl dname.cls])
        .domainExistsForSomeReason)
    | .noMatch => .exit (.stopped w.chain .serverFailure)
  | _ => .exit (.stopped w.chain .serverFailure)

def aliasTarget (located : Located) : Option Name :=
  match (z.ofType located (.of CNAME)).head? with
  | none => none
  | some record =>
    match record.rdata.parse with
    | .ok (.cname target) => some target
    | _ => none

def lookUp (qtype : Qtype) (w : Walk) : Turn :=
  let located := z.locate w.name
  if !(z.ofType located qtype).isEmpty then .exit (.answer w.chain w.name located)
  -- a CNAME query is answered by the CNAME, not followed by it
  else if qtype.is CNAME then .exit (.negative w.chain w.name located.kind)
  else match aliasTarget z located with
    | none => .exit (.negative w.chain w.name located.kind)
    | some target => goOn z (w.chain ++ [.cname w.name]) w.visited target

def pastCuts (qtype : Qtype) (w : Walk) : Turn :=
  match z.dnameAbove w.name with
  | some dname => redirectThrough z dname w
  | none => lookUp z qtype w

def refer (chain : List Hop) (cut : Name) : Turn :=
  .exit (if chain.isEmpty then .referral cut else .chainLeftZone chain)

def turn (qtype : Qtype) (w : Walk) : Turn :=
  match z.delegationFor w.name with
  | none => pastCuts z qtype w
  | some cut =>
    -- a DNAME above the cut occludes it
    let occluded := (z.dnameAbove w.name).any fun dname => cut.isAtOrUnder dname.name
    -- the DS at the cut is the parent's statement
    let dsAtTheCut := qtype.is DS && cut.same w.name
    if !(occluded || dsAtTheCut) then refer w.chain cut else pastCuts z qtype w

end

/-! ## The loop -/

def resolveLoop (step : Walk → Turn) : Nat → Walk → Outcome
  | 0, w => .chainLeftZone w.chain
  | turns + 1, w =>
    match step w with
    | .exit outcome => outcome
    | .follow next => resolveLoop step turns next

def Walk.start (qname : Name) : Walk := ⟨[], [], qname⟩

/-- RFC 1034 §4.3.2 for one question. -/
def resolveInZone (z : Zone) (qname : Name) (qtype : Qtype) : Outcome :=
  resolveLoop (turn z qtype) MAX_REDIRECTS (.start qname)

def walks (step : Walk → Turn) : Nat → Walk → List Walk
  | 0, _ => []
  | turns + 1, w =>
    w :: match step w with
      | .exit _ => []
      | .follow next => walks step turns next

end Rdns.Answer
