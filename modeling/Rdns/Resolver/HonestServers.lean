import Rdns.Answer.Sections
import Rdns.Dnssec.SignedZone
import Rdns.Resolver.Bailiwick

/-!
# Rdns — Servers that say what their zones say

`answer_question` of `rdnsd/src/answer.rs` for an ordinary query, and a world in which every
server answers so: with DO, from the most specific of its zones, and nothing changes meanwhile.
One such world is a server of `ex.`, signed, and a resolver that holds its keys.
-/

namespace Rdns.Resolver

open Rdns.Lib Rdns.Core Rdns.Present Rdns.Zones Rdns.Dnssec Rdns.Answer

def forQuery (zones : List Zone) (qname : Name) : Option Zone :=
  qname.ancestors.findSome? fun candidate => zones.find? fun z => z.origin.same candidate

def requestFor (query : QuerySection) : DnsMessage where
  id := 0
  response := false
  opcode := .query
  authoritive := false
  truncation := false
  recursion := false
  recursionOk := false
  ad := false
  cd := false
  rcode := .ok
  queries := [query]
  answers := []
  authorities := []
  additionals := []
  edns := none

def serverReply (sha1 : Octets → Nsec3Hash) (zones : List Zone) (query : QuerySection) : Option DnsMessage :=
  match forQuery zones query.qname with
  | none => some { requestFor query with response := true, rcode := .refused }
  | some z => (zoneReply sha1 z (requestFor query) query.qname query.qtype true).toOption

def honestWorld (sha1 : Octets → Nsec3Hash) (hosted : SocketAddr → List Zone) (now : Nat) (anchors : TrustAnchors) :
    World Unit where
  now _ := now
  meanwhile hints s := (hints, s)
  queryServer server query _ s := (serverReply sha1 (hosted server) query, s)
  order servers _ := servers
  answerLocally _ _ s := (.error .policyStopped, s)
  allows _ _ s := (true, s)
  trustAnchors _ := anchors
  ntas _ := []

/-! ## A server of `ex.` -/

def ed25519Verify : Verify := fun _ key data signature =>
  .ok (decide ((ed25519Sign .ed25519 key data).toOption = some signature))

def ed25519Primitives : Primitives := ⟨ed25519Verify, ⟨fun _ => [], fun _ => [], fun _ => []⟩, unusedSha1⟩

def exKey : Dnskey := ⟨ex, 257, 3, 15, (firstKey 257 .default).publicKey⟩

def exServed (records : List ZoneRecord) : Zone :=
  (signZone ed25519Crypto (zoneOf ex records) [firstKey 257 .default]
    (.validFor 1754197300 2592000 .nsec .local)).toOption.getD (zoneOf ex [])

theorem exServed_eq {records : List ZoneRecord} (h : (exRun records 1754197300 .local none).encodes = true) :
    signZone ed25519Crypto (zoneOf ex records) [firstKey 257 .default]
      (.validFor 1754197300 2592000 .nsec .local) = .ok (exServed records) := by
  obtain ⟨served, hserved⟩ := exZone_signed records h
  rw [exServed, hserved]
  rfl

def exAnchors : TrustAnchors := [⟨ex, exKey.keyTag, 15, 2, []⟩]

def exNow : Nat := 1754197360

def exWorld (records : List ZoneRecord) : World Unit :=
  honestWorld unusedSha1 (fun _ => [exServed records]) exNow exAnchors

def exValidating : ResolverConfig :=
  { exConfig with dnssec := true, routes := [⟨ex, .stub, [exServer], true⟩] }

def exHints : Hints := ⟨⟨[], 0⟩, KeyCache.insert ⟨[], 1⟩ exNow ex [exKey] 300, false⟩

/-! ## Signatures made before -/

def fingerprint (publicKey data : Octets) : Nat := bigEndian (publicKey ++ data) % (2 ^ 127 - 1)

def signaturesMade : List (Nat × Nat) := [
  -- `ex. NSEC ex. SOA RRSIG NSEC`
  (83926094396837006166171681198999914140,
    11402651518426403822934430392291910191948822239579754522713010470474219595530665398739001346677195583013057495695648834132599435976323177856362861836179468)]

def rememberedSign : Sign := fun algorithm publicKey data =>
  match signaturesMade.lookup (fingerprint publicKey data) with
  | some signature => .ok (bigEndianOctets 64 signature)
  | none => ed25519Sign algorithm publicKey data

def rememberedVerify : Verify := fun _ key data signature =>
  .ok (decide ((rememberedSign .ed25519 key data).toOption = some signature))

def rememberedCrypto : Crypto := ⟨unusedSha1, fun _ => [], rememberedSign⟩

def rememberedPrimitives : Primitives := ⟨rememberedVerify, ⟨fun _ => [], fun _ => [], fun _ => []⟩, unusedSha1⟩

def exSigned (records : List ZoneRecord) : Except DnssecError Zone :=
  signZone rememberedCrypto (zoneOf ex records) [firstKey 257 .default]
    (.validFor 1754197300 2592000 .nsec .local)

end Rdns.Resolver
