import Rdns.Answer.Sections
import Rdns.Server.ServedFiles
import Rdns.Transfer.Deltas

/-!
# Rdns — One policy zone

`PolicyZone` of `rdns/src/rpz.rs`: the rules of a response policy zone, read off the owner names
of its records. A QNAME rule is the zone's own lookup of the name under the origin, and so is an
NSDNAME rule one label down; an address rule is found in an index of disjoint spans, the longest
prefix of each.
-/

namespace Rdns.Policy

open Rdns.Lib Rdns.Core Rdns.Zones Rdns.Answer Rdns.Server Rdns.Transfer

/-! ## Actions -/

inductive Action where
  | nxdomain
  | nodata
  | passthru
  | drop
  | tcpOnly
  | localData (records : List ResourceRecord)
deriving DecidableEq

inductive Trigger where
  | qname
  | clientIp
  | responseIp
  | nsdname
  | nsip
deriving DecidableEq

structure Rewrite where
  action : Action
  zone : Name
  trigger : Trigger
  soa : Option ResourceRecord
deriving DecidableEq

/-- What to do with a match when the operator does not want what the zone says. -/
inductive PolicyOverride where
  | given
  | disabled
  | passthru
  | drop
  | nxdomain
  | nodata
  | tcpOnly
deriving DecidableEq

def PolicyOverride.apply (policy : PolicyOverride) (given : Action) : Option Action :=
  match policy with
  | .given => some given
  | .disabled => none
  | .passthru => some .passthru
  | .drop => some .drop
  | .nxdomain => some .nxdomain
  | .nodata => some .nodata
  | .tcpOnly => some .tcpOnly

/-! ## Address rules -/

inductive IpAddr where
  | v4 (ip : Ipv4Addr)
  | v6 (ip : Ipv6Addr)
deriving DecidableEq

/-- One address rule as it parses: the addresses it covers, and the owner name whose RRset is
the action. -/
structure IpTrigger where
  addr : IpAddr
  bits : Nat
  owner : Name

/-- A run of addresses one rule owns, the address widened to 128 bits for both families. -/
structure Span where
  lo : Nat
  hi : Nat
  owner : Nat
deriving DecidableEq

/-- The address triggers of one kind: disjoint spans for either family, and the owners. -/
structure IpIndex where
  v4 : List Span
  v6 : List Span
  owners : List Name

def ADDRESS_MAX : Nat := 2 ^ 128 - 1

def emit (lo hi owner : Nat) : List Span → List Span
  | last :: rest =>
    if last.owner = owner ∧ (last.hi + 1) % 2 ^ 128 = lo then { last with hi } :: rest
    else ⟨lo, hi, owner⟩ :: last :: rest
  | [] => [⟨lo, hi, owner⟩]

/-- The sweep over the rules: the spans written, the rules open, and how far it is. -/
structure Sweep where
  out : List Span
  opened : List Span
  cursor : Nat

def closeBefore (lo : Nat) (out : List Span) (cursor : Nat) : List Span → Sweep
  | [] => ⟨out, [], cursor⟩
  | top :: rest =>
    if top.hi ≥ lo then ⟨out, top :: rest, cursor⟩
    else if cursor ≤ top.hi then closeBefore lo (emit cursor top.hi top.owner out) (top.hi + 1) rest
    else closeBefore lo out cursor rest

def Sweep.enter (sweep : Sweep) (span : Span) : Sweep :=
  let closed := closeBefore span.lo sweep.out sweep.cursor sweep.opened
  let reached : Sweep :=
    if closed.cursor < span.lo then
      match closed.opened with
      | top :: _ => ⟨emit closed.cursor (span.lo - 1) top.owner closed.out, closed.opened, span.lo⟩
      | [] => ⟨closed.out, [], span.lo⟩
    else closed
  { reached with opened := span :: reached.opened }

def closeAll (out : List Span) (cursor : Nat) : List Span → List Span
  | [] => out
  | top :: rest =>
    if cursor ≤ top.hi then
      let out := emit cursor top.hi top.owner out
      if top.hi = ADDRESS_MAX then out else closeAll out (top.hi + 1) rest
    else closeAll out cursor rest

def Span.before (a b : Span) : Bool :=
  if a.lo ≠ b.lo then a.lo < b.lo else if a.hi ≠ b.hi then b.hi < a.hi else b.owner ≤ a.owner

/-- Flatten overlapping rules into disjoint spans in address order, each carrying the winner: the
longest prefix, then the first in the zone. -/
def flatten (spans : List Span) : List Span :=
  let sweep := (spans.mergeSort Span.before).foldl Sweep.enter ⟨[], [], 0⟩
  (closeAll sweep.out sweep.cursor sweep.opened).reverse

def IpTrigger.span (rule : IpTrigger) (owner : Nat) : Span :=
  let (width, addr) : Nat × Nat :=
    match rule.addr with
    | .v4 ip => (32, bigEndian ip.octets)
    | .v6 ip => (128, bigEndian ip.octets)
  let free := 2 ^ (width - rule.bits)
  ⟨addr / free * free, addr / free * free + (free - 1), owner⟩

namespace IpIndex

def new (rules : List IpTrigger) : IpIndex :=
  let spans := rules.zipIdx.map fun (rule, owner) => (rule.addr, rule.span owner)
  { v4 := flatten (spans.filterMap fun | (.v4 _, span) => some span | _ => none)
    v6 := flatten (spans.filterMap fun | (.v6 _, span) => some span | _ => none)
    owners := rules.map IpTrigger.owner }

def isEmpty (index : IpIndex) : Bool := index.owners.isEmpty

def ownerOf (index : IpIndex) (addr : IpAddr) : Option Name := do
  let (table, addr) := match addr with
    | .v4 ip => (index.v4, bigEndian ip.octets)
    | .v6 ip => (index.v6, bigEndian ip.octets)
  let span ← (table.takeWhile fun span => span.lo ≤ addr).getLast?
  if addr ≤ span.hi then index.owners[span.owner]? else none

end IpIndex

/-! ## Address triggers -/

inductive TriggerError where
  | noLabels
  | notText
  | notAPrefixLength
  | tooLong (bits : Nat)
  | zeroesTwice
  | wordCount (words : Nat)
  | notAHexWord (part : Text)
deriving DecidableEq

def parseHexWord (part : Text) : Option Nat :=
  let digits := match part with
    | '+' :: rest => rest
    | _ => part
  if digits.isEmpty || !digits.all (isDigitOf 16) then none
  else if digitsValue 16 digits < 65536 then some (digitsValue 16 digits) else none

def labelText (label : Octets) : Except TriggerError Text :=
  match fromUtf8 label with
  | some text => .ok text
  | none => .error .notText

def isZz (part : Text) : Bool := eqIgnoreCase part "zz".toList

def wordsOf (filled : Nat) (parts : List Text) : Except TriggerError (List Nat) :=
  parts.foldlM (fun words part =>
    if isZz part then .ok (words ++ List.replicate (8 - filled) 0)
    else match parseHexWord part with
      | some word => .ok (words ++ [word])
      | none => .error (.notAHexWord part)) []

def parseIpTrigger (labels : List Octets) : Except TriggerError (IpAddr × Nat) :=
  match labels with
  | [] => .error .noLabels
  | first :: rest => do
    let first ← labelText first
    match parseU8 first with
    | none => .error .notAPrefixLength
    | some bits =>
      let parts ← rest.reverse.mapM labelText
      let octets := parts.filterMap parseU8
      if h : octets.length = 4 ∧ parts.length = 4 ∧ bits.toNat ≤ 32 then
        return (.v4 ⟨octets, h.1⟩, bits.toNat)
      else if bits.toNat > 128 then .error (.tooLong bits.toNat)
      else
        let zeroes := (parts.filter isZz).length
        if zeroes > 1 then .error .zeroesTwice
        else if parts.length > 8 ∨ (zeroes = 0 ∧ parts.length ≠ 8) then .error (.wordCount parts.length)
        else
          let words ← wordsOf (parts.length - zeroes) parts
          if h : (octetsOf words).length = 16 then return (.v6 ⟨octetsOf words, h⟩, bits.toNat)
          else .error (.wordCount words.length)

/-! ## The rules of a zone -/

def CLIENT_IP_LABEL : Octets := toBytes "rpz-client-ip".toList
def RESPONSE_IP_LABEL : Octets := toBytes "rpz-ip".toList
def NSDNAME_LABEL : Octets := toBytes "rpz-nsdname".toList
def NSIP_LABEL : Octets := toBytes "rpz-nsip".toList

def SPECIAL_LABELS : List Octets := [CLIENT_IP_LABEL, RESPONSE_IP_LABEL, NSDNAME_LABEL, NSIP_LABEL]

def specialLabel (label : Octets) : Option Octets :=
  SPECIAL_LABELS.find? fun special => eqIgnoreAsciiCase label special

def triggerSubtree (owner origin : Name) : Option Octets :=
  if owner.labelCount ≤ origin.labelCount + 1 then none
  else (owner.labels[owner.labelCount - (origin.labelCount + 1)]?).bind specialLabel

def policyVerb (target : Name) : Option Action :=
  match target.labels with
  | [] => some .nxdomain
  | [label] =>
    if label = ASTERISK then some .nodata
    else if eqIgnoreAsciiCase label (toBytes "rpz-passthru".toList) then some .passthru
    else if eqIgnoreAsciiCase label (toBytes "rpz-drop".toList) then some .drop
    else if eqIgnoreAsciiCase label (toBytes "rpz-tcp-only".toList) then some .tcpOnly
    else none
  | _ => none

def rewritten (record : ZoneRecord) (qname : Name) : ResourceRecord := written record qname record.ttl

def readAction (zone : Zone) (located : Located) (qname : Name) (qtype : Qtype) : Option Action :=
  match located.kind with
  | .notFound | .emptyNonTerminal => none
  | .exact | .wildcard _ =>
    match zone.ofType located (.of RecordTypes.CNAME) with
    | cname :: _ =>
      match cname.rdata.parse with
      | .ok (.cname target) => some ((policyVerb target).getD (.localData [rewritten cname qname]))
      | _ => some (.localData [rewritten cname qname])
    | [] =>
      match (zone.ofType located qtype).map fun record => rewritten record qname with
      | [] => some .nodata
      | records => some (.localData records)

def concatNames (head tail : Name) : Except WireError Name := Name.ofLabels (head.labels ++ tail.labels)

/-- Where a policy zone was read from; absent for a file that includes another. -/
structure ReadFrom where
  path : String
  digest : FileDigest
deriving DecidableEq

structure PolicyZone where
  zone : Zone
  policy : PolicyOverride
  readFrom : Option ReadFrom
  clientIp : IpIndex
  responseIp : IpIndex
  nsIp : IpIndex
  nsdnameRoot : Name
  nsdname : Nat

inductive PolicyError where
  | unreadable (path : String)
  | zoneFile (path : String) (error : ZoneError)
  | noSoa (origin : Name)
  | notAnAddress (origin owner : Name) (why : TriggerError)
  | originTooLong (origin : Name) (error : WireError)

structure Rules where
  seen : List Name
  clientIp : List IpTrigger
  responseIp : List IpTrigger
  nsIp : List IpTrigger
  nsdname : Nat

def Rules.note (origin : Name) (rules : Rules) (record : ZoneRecord) : Except PolicyError Rules :=
  match triggerSubtree record.name origin with
  | none => .ok rules
  | some kind =>
    if rules.seen.any fun owner => owner.same record.name then .ok rules
    else
      let rules := { rules with seen := record.name :: rules.seen }
      if kind = NSDNAME_LABEL then .ok { rules with nsdname := rules.nsdname + 1 }
      else
        match parseIpTrigger (record.name.labels.take (record.name.labelCount - origin.labelCount - 1)) with
        | .error why => .error (.notAnAddress origin record.name why)
        | .ok (addr, bits) =>
          let trigger : IpTrigger := ⟨addr, bits, record.name⟩
          if kind = CLIENT_IP_LABEL then .ok { rules with clientIp := rules.clientIp ++ [trigger] }
          else if kind = NSIP_LABEL then .ok { rules with nsIp := rules.nsIp ++ [trigger] }
          else .ok { rules with responseIp := rules.responseIp ++ [trigger] }

namespace PolicyZone

def new (zone : Zone) (policy : PolicyOverride) : Except PolicyError PolicyZone :=
  if (apexSoaRecord zone).isNone then .error (.noSoa zone.origin)
  else
    match zone.records.foldlM (Rules.note zone.origin) ⟨[], [], [], [], 0⟩ with
    | .error e => .error e
    | .ok rules =>
      match Name.prefixed NSDNAME_LABEL zone.origin with
      | .error e => .error (.originTooLong zone.origin e)
      | .ok nsdnameRoot =>
        .ok ⟨zone, policy, none, .new rules.clientIp, .new rules.responseIp, .new rules.nsIp, nsdnameRoot,
          rules.nsdname⟩

variable (z : PolicyZone)

def origin : Name := z.zone.origin

def watchesDelegations : Bool := z.nsdname > 0 || !z.nsIp.isEmpty

def actionAt (trigger qname : Name) (qtype : Qtype) : Option Action :=
  (readAction z.zone (z.zone.locate trigger) qname qtype).bind z.policy.apply

def nameAction (name parent qname : Name) (qtype : Qtype) : Option Action :=
  match name.labels.getLast? with
  | none => none
  | some last =>
    if (specialLabel last).isSome then none
    else match concatNames name parent with
      | .error _ => none
      | .ok trigger => z.actionAt trigger qname qtype

def qnameAction (qname : Name) (qtype : Qtype) : Option Action := z.nameAction qname z.zone.origin qname qtype

def nsdnameAction (ns qname : Name) (qtype : Qtype) : Option Action :=
  if z.nsdname = 0 then none else z.nameAction ns z.nsdnameRoot qname qtype

def ipAction (rules : IpIndex) (addr : IpAddr) (qname : Name) (qtype : Qtype) : Option Action :=
  (rules.ownerOf addr).bind fun owner => z.actionAt owner qname qtype

def clientAction (client : IpAddr) (qname : Name) (qtype : Qtype) : Option Action :=
  z.ipAction z.clientIp client qname qtype

def responseAction (addr : IpAddr) (qname : Name) (qtype : Qtype) : Option Action :=
  z.ipAction z.responseIp addr qname qtype

def nsIpAction (addr : IpAddr) (qname : Name) (qtype : Qtype) : Option Action :=
  z.ipAction z.nsIp addr qname qtype

def rewrite (action : Action) (trigger : Trigger) : Rewrite :=
  ⟨action, z.zone.origin, trigger, apexSoaRecord z.zone⟩

end PolicyZone

def addressIn (record : ResourceRecord) : Option IpAddr :=
  match record.rdata.parse with
  | .ok (.a ip) => some (.v4 ip)
  | .ok (.aaaa ip) => some (.v6 ip)
  | _ => none

/-! ## The zones in force -/

structure PolicyZones where
  zones : List PolicyZone

namespace PolicyZones

variable (policy : PolicyZones)

def held (zone : Name) : Option PolicyZone := policy.zones.find? fun held => held.origin.same zone

def askedOf (client : IpAddr) (qname : Name) (qtype : Qtype) (zone : PolicyZone) : Option Rewrite :=
  match zone.clientAction client qname qtype with
  | some action => some (zone.rewrite action .clientIp)
  | none => (zone.qnameAction qname qtype).map fun action => zone.rewrite action .qname

def beforeQuery (client : IpAddr) (qname : Name) (qtype : Qtype) : Option Rewrite :=
  policy.zones.findSome? (askedOf client qname qtype)

def watchesDelegations : Bool := policy.zones.any PolicyZone.watchesDelegations

def referredIn (nsNames : List Name) (servers : List IpAddr) (qname : Name) (qtype : Qtype)
    (zone : PolicyZone) : Option Rewrite :=
  match nsNames.findSome? fun ns => zone.nsdnameAction ns qname qtype with
  | some action => some (zone.rewrite action .nsdname)
  | none => (servers.findSome? fun addr => zone.nsIpAction addr qname qtype).map fun action =>
      zone.rewrite action .nsip

def onDelegation (nsNames : List Name) (servers : List IpAddr) (qname : Name) (qtype : Qtype) :
    Option Rewrite :=
  policy.zones.findSome? (referredIn nsNames servers qname qtype)

def answeredIn (answers : List ResourceRecord) (qname : Name) (qtype : Qtype) (zone : PolicyZone) :
    Option Rewrite :=
  if zone.responseIp.isEmpty then none
  else ((answers.filterMap addressIn).findSome? fun addr => zone.responseAction addr qname qtype).map
    fun action => zone.rewrite action .responseIp

def onAnswer (answers : List ResourceRecord) (qname : Name) (qtype : Qtype) : Option Rewrite :=
  policy.zones.findSome? (answeredIn answers qname qtype)

end PolicyZones

end Rdns.Policy
