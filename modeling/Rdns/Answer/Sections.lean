import Rdns.Answer.Proofs
import Rdns.Core.Streaming

/-!
# Rdns — What one zone says to one question

`write` of `rdns/src/zone_answer.rs`: the answer, authority and additional sections, the RCODE
and the AA bit, and every DNSSEC record the reply owes. It is the list of calls that are made of
a `ResponseWriter`, in order.
-/

namespace Rdns.Answer

open Rdns.Lib Rdns.Core Rdns.Present Rdns.Zones Rdns.Zones.Zone Rdns.Dnssec RecordTypes

section

variable (sha1 : Octets → Nsec3Hash) (z : Zone)

/-! ## The answer section -/

def addAnswer (located : Located) (name : Name) (qtype : Qtype) (dnssecOk : Bool) :
    List ResourceRecord × Bool :=
  let records := (z.ofType located qtype).map fun record => written record name record.ttl
  if !dnssecOk then (records, false)
  else
    let (signatures, wildcard) := answerSignatures z located name qtype
    (records ++ signatures, wildcard)

def Hop.qtype : Hop → Qtype
  | .cname _ => .of CNAME
  | .dname .. => .of DNAME

def synthesizedCname : Hop → Except WireError (List ResourceRecord)
  | .dname _ asked (some substituted) ttl cls => do
    let rdata ← RecordData.fromParsed (.cname substituted)
    return [⟨asked, cls, ttl, rdata⟩]
  | _ => return []

def addChain (dnssecOk : Bool) : List Hop → Except WireError (List ResourceRecord × List Hop)
  | [] => return ([], [])
  | hop :: rest => do
    let (records, wildcard) := addAnswer z (z.locate hop.owner) hop.owner hop.qtype dnssecOk
    let cname ← synthesizedCname hop
    let (more, owed) ← addChain dnssecOk rest
    return (records ++ cname ++ more, if wildcard then hop :: owed else owed)

def chainDenials (owed : List Hop) : List ResourceRecord := owed.flatMap fun hop => proofOfAbsence sha1 z hop.owner

/-! ## Negative answers and referrals -/

def negativeTtl (soa : ZoneRecord) : Ttl :=
  match soa.rdata.soaMinimum with
  | some minimum => Ttl.negativeAnswer soa.ttl minimum
  | none => ⟨0⟩

def addNegative (name : Name) (kind : NameKind) (dnssecOk : Bool) : List Action :=
  (if kind = .notFound then [.setRcode .noSuchDomain] else []) ++
    ((z.query z.origin (.of SOA)).map fun soa =>
      .push .authority (written soa z.origin (negativeTtl soa))) ++
    (if dnssecOk then negativeProof sha1 z name kind else []).map (.push .authority)

def glueFor (target : Name) : List ResourceRecord :=
  if !target.isAtOrUnder z.origin then []
  else [A, AAAA].flatMap fun rtype =>
    (z.query target (.of rtype)).map fun glue => written glue target glue.ttl

def nsTarget (record : ZoneRecord) : Option Name :=
  match record.rdata.parse with
  | .ok (.ns target) => some target
  | _ => none

def referToChild (cut : Name) (dnssecOk : Bool) : List Action :=
  let nss := z.query cut (.of NS)
  [.setAuthoritative false] ++
    (nss.map fun ns => .push .authority (written ns cut ns.ttl)) ++
    (if dnssecOk then delegationProof sha1 z cut else []).map (.push .authority) ++
    ((nss.filterMap nsTarget).flatMap (glueFor z)).map (.push .additional)

/-! ## The whole reply -/

def write (qname : Name) (qtype : Qtype) (dnssecOk : Bool) : Except WireError (List Action) :=
  match resolveInZone z qname qtype with
  | .referral cut => return referToChild sha1 z cut dnssecOk
  | .answer chain name located => do
    let (aliases, owed) ← addChain z dnssecOk chain
    let (records, wildcard) := addAnswer z located name qtype dnssecOk
    return (aliases ++ records).map (.push .answer) ++ (chainDenials sha1 z owed).map (.push .authority) ++
      (if wildcard then proofOfAbsence sha1 z name else []).map (.push .authority)
  | .negative chain name kind => do
    let (aliases, owed) ← addChain z dnssecOk chain
    return aliases.map (.push .answer) ++ (chainDenials sha1 z owed).map (.push .authority) ++
      addNegative sha1 z name kind dnssecOk
  | .chainLeftZone chain => do
    let (aliases, owed) ← addChain z dnssecOk chain
    return aliases.map (.push .answer) ++ (chainDenials sha1 z owed).map (.push .authority)
  | .stopped chain rcode => do
    let (aliases, owed) ← addChain z dnssecOk chain
    return aliases.map (.push .answer) ++ (chainDenials sha1 z owed).map (.push .authority) ++ [.setRcode rcode]

def zoneReply (request : DnsMessage) (qname : Name) (qtype : Qtype) (dnssecOk : Bool) :
    Except WireError DnsMessage := do
  let actions ← write sha1 z qname qtype dnssecOk
  return (describe (.setAuthoritative true :: actions)).message request

end

end Rdns.Answer
