import Rdns.Present.RecordText
import Rdns.Zones.Checks
import Rdns.Zones.Lines

/-!
# Rdns — Reading a zone file

`rdns/src/zone/parse.rs` and `rdns/src/zone/rdata.rs`: text in, a `Zone` out. Lines and
fields are `Zones.Lines`, and the rules a whole zone must keep are `Zones.Checks`.

The files an `$INCLUDE` names are a parameter, as is base64; the nesting limit of
`$INCLUDE` is what `parseInto` recurses on.
-/

namespace Rdns.Zones

open Rdns.Lib Rdns.Core Rdns.Present

def eqIgnoreCase (a b : Text) : Bool := a.map Char.toLower == b.map Char.toLower

def upperInto (text : Text) : Option Text :=
  if (text.all fun c => decide (c.toNat < 128)) ∧ (toBytes text).length ≤ 32 then
    some (text.map Char.toUpper)
  else none

def upperOr (text : Text) : Text := (upperInto text).getD text

def readField {α β : Type} (parse : α → Option β) (ln : Nat) (detail : String) (value : α) :
    Except ZoneError β :=
  match parse value with
  | some value => .ok value
  | none => .error (.syntaxAt ln detail)

def nameAt (name : Text) (origin : Name) (ln : Nat) : Except ZoneError Name :=
  readField (fun name => (absolutized name origin).toOption) ln "the name is not a name" name

/-! ## RDATA -/

def constructTypeBitmap (ln : Nat) (types : List Text) : Except ZoneError Octets := do
  let codes ← types.mapM fun name =>
    readField recordTypeNameToCode ln "unknown record type in type bitmap" (upperOr name)
  return buildTypeBitmap (codes.mergeSort fun a b => a.code ≤ b.code).eraseReps

/-- Read `\# <length> <hex>` (RFC 3597 §5) into stored form, from what follows the
`\#`. -/
def parseGenericRdata (recordType : Text) (fields : List Text) (ln : Nat) :
    Except ZoneError RecordData := do
  let rtype ← readField recordTypeNameToCode ln "unknown record type" recordType
  match fields with
  | [] => throw (.syntaxAt ln "generic rdata needs a length after '\\#'")
  | length :: hex =>
    let length ← readField parseUsize ln "invalid generic rdata length" length
    let octets ← readField (fun text => (hexDecode text).toOption) ln "invalid generic rdata"
      hex.flatten
    if octets.length ≠ length then throw (.syntaxAt ln "generic rdata of another length")
    readField (fun octets => (RecordData.new rtype octets).toOption) ln
      "generic rdata is not valid" octets

def oneName (fields : List Text) (origin : Name) (ln : Nat) : Except ZoneError Name :=
  match fields with
  | [name] => nameAt name origin ln
  | _ => .error (.syntaxAt ln "record needs one name")

section Fields

variable (b64 : Base64) (fields : List Text) (origin : Name) (ln : Nat)

def addressA (text : Text) : Option Ipv4Addr :=
  (parseIpv4 text).bind fun octets => if h : octets.length = 4 then some ⟨octets, h⟩ else none

def addressAaaa (text : Text) : Option Ipv6Addr :=
  (parseIpv6 text).bind fun octets => if h : octets.length = 16 then some ⟨octets, h⟩ else none

def mxFields : Except ZoneError ParsedRecord :=
  match fields with
  | [preference, exchange] => do
    let preference ← readField parseU16 ln "invalid MX preference" preference
    return .mx preference (← nameAt exchange origin ln)
  | _ => .error (.syntaxAt ln "MX record needs preference and exchange")

def txtFields : Except ZoneError ParsedRecord := do
  let strings ← fields.mapM fun text =>
    readField (fun text => (charStringDecode (toBytes text)).toOption) ln "TXT record" text
  if strings.isEmpty then throw (.syntaxAt ln "TXT record has no text")
  return .txt strings

def soaFields : Except ZoneError ParsedRecord :=
  match fields with
  | [mname, rname, serial, refresh, retry, expire, minimum] => do
    let serial ← readField parseU32 ln "invalid SOA serial" serial
    let refresh ← readField parseI32 ln "invalid SOA refresh" refresh
    let retry ← readField parseI32 ln "invalid SOA retry" retry
    let expire ← readField parseI32 ln "invalid SOA expire" expire
    let minimum ← readField parseU32 ln "invalid SOA minimum" minimum
    let mname ← nameAt mname origin ln
    let rname ← nameAt rname origin ln
    return .soa mname rname ⟨serial⟩ refresh retry expire minimum
  | _ => .error (.syntaxAt ln "SOA record needs 7 fields")

def svcbFields (rtype : SvcbType) : Except ZoneError ParsedRecord :=
  match fields with
  | priority :: target :: rest => do
    let priority ← readField parseU16 ln "the priority is not a number 0-65535" priority
    let target ← nameAt target origin ln
    let params ← parseParams b64 ln [] rest
    if priority = 0 ∧ params ≠ [] then
      throw (.syntaxAt ln "an AliasMode record may not carry SvcParams")
    return .svcb rtype priority target params
  | _ => .error (.syntaxAt ln "record needs a priority and a target name")

def dnskeyFields (rtype : DnskeyType) : Except ZoneError ParsedRecord :=
  match fields with
  | flags :: protocol :: algorithm :: key :: more => do
    let flags ← readField parseU16 ln "invalid DNSKEY flags" flags
    let protocol ← readField parseU8 ln "invalid DNSKEY protocol" protocol
    let algorithm ← readField parseU8 ln "invalid DNSKEY algorithm" algorithm
    let key ← readField b64.decode ln "invalid DNSKEY base64 key" (key :: more).flatten
    return .dnskey rtype flags protocol algorithm key
  | _ => .error (.syntaxAt ln "DNSKEY record needs 4 fields")

def dsFields (rtype : DsType) : Except ZoneError ParsedRecord :=
  match fields with
  | keyTag :: algorithm :: digestType :: digest :: more => do
    let keyTag ← readField parseU16 ln "invalid DS key tag" keyTag
    let algorithm ← readField parseU8 ln "invalid DS algorithm" algorithm
    let digestType ← readField parseU8 ln "invalid DS digest type" digestType
    let digest ← readField (fun text => (hexDecode text).toOption) ln "invalid DS digest"
      (digest :: more).flatten
    return .ds rtype keyTag algorithm digestType digest
  | _ => .error (.syntaxAt ln "DS record needs 4 fields")

def rrsigFields : Except ZoneError ParsedRecord :=
  match fields with
  | covered :: algorithm :: labels :: ttl :: expiration :: inception :: keyTag :: signer ::
      signature :: more => do
    let covered ← readField recordTypeNameToCode ln "unknown RRSIG type covered" covered
    let algorithm ← readField parseU8 ln "invalid RRSIG algorithm" algorithm
    let labels ← readField parseU8 ln "invalid RRSIG labels" labels
    let ttl ← readField parseU32 ln "invalid RRSIG original TTL" ttl
    let expiration ← readField parseDnssecTime ln "invalid RRSIG expiration" expiration
    let inception ← readField parseDnssecTime ln "invalid RRSIG inception" inception
    let keyTag ← readField parseU16 ln "invalid RRSIG key tag" keyTag
    let signer ← nameAt signer origin ln
    let signature ← readField b64.decode ln "invalid RRSIG base64 signature"
      (signature :: more).flatten
    return .rrsig covered algorithm labels ttl inception expiration keyTag signer signature
  | _ => .error (.syntaxAt ln "RRSIG record needs 9 fields")

def nsecFields : Except ZoneError ParsedRecord :=
  match fields with
  | next :: type :: types => do
    let next ← nameAt next origin ln
    return .nsec next (← constructTypeBitmap ln (type :: types))
  | _ => .error (.syntaxAt ln "NSEC record needs next domain and at least one type")

def saltField (salt : Text) : Option Octets :=
  if salt = ['-'] then some [] else (hexDecode salt).toOption

def nsec3Fields : Except ZoneError ParsedRecord :=
  match fields with
  | hashAlgorithm :: flags :: iterations :: salt :: next :: types => do
    let hashAlgorithm ← readField parseU8 ln "invalid NSEC3 hash algorithm" hashAlgorithm
    let flags ← readField parseU8 ln "invalid NSEC3 flags" flags
    let iterations ← readField parseU16 ln "invalid NSEC3 iterations" iterations
    let salt ← readField saltField ln "invalid NSEC3 salt" salt
    let next ← readField (fun text => (base32hexDecode (toBytes text)).toOption) ln
      "invalid NSEC3 next hashed owner" next
    return .nsec3 hashAlgorithm flags iterations salt next (← constructTypeBitmap ln types)
  | _ => .error (.syntaxAt ln "NSEC3 record needs at least 5 fields")

def rdataFromFields (recordType : Text) : Except ZoneError ParsedRecord :=
  if recordType = "A".toList then do
    return .a (← readField addressA ln "invalid A address" (joined ' ' fields))
  else if recordType = "AAAA".toList then do
    return .aaaa (← readField addressAaaa ln "invalid AAAA address" (joined ' ' fields))
  else if recordType = "NS".toList then do return .ns (← oneName fields origin ln)
  else if recordType = "CNAME".toList then do return .cname (← oneName fields origin ln)
  else if recordType = "MX".toList then mxFields fields origin ln
  else if recordType = "TXT".toList then txtFields fields ln
  else if recordType = "PTR".toList then do return .ptr (← oneName fields origin ln)
  else if recordType = "DNAME".toList then do return .dname (← oneName fields origin ln)
  else if recordType = "SVCB".toList then svcbFields b64 fields origin ln .svcb
  else if recordType = "HTTPS".toList then svcbFields b64 fields origin ln .https
  else if recordType = "SOA".toList then soaFields fields origin ln
  else if recordType = "DNSKEY".toList then dnskeyFields b64 fields ln .dnskey
  else if recordType = "CDNSKEY".toList then dnskeyFields b64 fields ln .cdnskey
  else if recordType = "DS".toList then dsFields fields ln .ds
  else if recordType = "CDS".toList then dsFields fields ln .cds
  else if recordType = "RRSIG".toList then rrsigFields b64 fields origin ln
  else if recordType = "NSEC".toList then nsecFields fields origin ln
  else if recordType = "NSEC3".toList then nsec3Fields fields ln
  else .error (.syntaxAt ln "unsupported record type")

end Fields

/-! ## The file -/

/-- Where an `$INCLUDE` finds its file. -/
structure FileSystem where
  Path : Type
  join : Option Path → Text → Path
  parent : Path → Option Path
  read : Path → Option Text

def MAX_INCLUDE_DEPTH : Nat := 8

structure ParseState where
  origin : Name
  ttl : Ttl
  owner : Option Name

/-- The zone being read, the parser's state, and the last top-level `$ORIGIN` that
arrived after a record. -/
structure Reading where
  zone : Zone
  state : ParseState
  movedApex : Option Name

def ttlAndClass (ln : Nat) (ttl fallback : Ttl) : List Text → Except ZoneError (Ttl × Ttl × List Text)
  | [] => .ok (ttl, fallback, [])
  | token :: rest =>
    match parseI32 token with
    | some seconds =>
      let ttl := Ttl.fromWire seconds.toUInt32
      ttlAndClass ln ttl ttl rest
    | none =>
      if eqIgnoreCase token "IN".toList then ttlAndClass ln ttl fallback rest
      else if eqIgnoreCase token "CH".toList || eqIgnoreCase token "HS".toList then
        .error (.syntaxAt ln "class is not served: a zone here is IN")
      else .ok (ttl, fallback, token :: rest)

variable (b64 : Base64) (fs : FileSystem)

def readRecord (zone : Zone) (origin owner : Name) (ttl : Ttl) (ln : Nat) (kind : Text)
    (fields : List Text) : Except ZoneError Zone :=
  let recordType := upperOr kind
  if fields.head? = some "\\#".toList then do
    let rdata ← parseGenericRdata recordType (fields.drop 1) ln
    return zone.add ⟨owner, ttl, .IN, rdata⟩
  else do
    let parsed ← rdataFromFields b64 fields origin ln recordType
    readField (fun parsed => (zone.addParsed owner ttl .IN parsed).toOption) ln "record" parsed

def readRecordLine (reading : Reading) (line : LogicalLine) (first : Text) (rest : List Text) :
    Except ZoneError Reading := do
  -- position, not shape, tells the owner
  let (owner, tokens) ←
    if line.omitsOwner then pure (reading.state.owner, first :: rest)
    else do
      let owner ← nameAt first reading.state.origin line.lineNo
      pure (some owner, rest)
  match owner with
  | none =>
    throw (.syntaxAt line.lineNo "record omits its owner name but no previous record supplies one")
  | some owner => do
    let (ttl, fallback, tokens) ←
      ttlAndClass line.lineNo reading.state.ttl reading.state.ttl tokens
    let state := { reading.state with owner := some owner, ttl := fallback }
    match tokens with
    | [] => return { reading with state }
    | kind :: fields => do
      let zone ← readRecord b64 reading.zone state.origin owner ttl line.lineNo kind fields
      return { reading with zone, state }

/-- `$ORIGIN`; only the top-level file may move the apex, and at once only while there
are no records. -/
def readOrigin (top : Bool) (reading : Reading) (line : LogicalLine) :
    List Text → Except ZoneError Reading
  | [] => .ok reading
  | text :: _ => do
    let origin ← nameAt text reading.state.origin line.lineNo
    let reading := { reading with state := { reading.state with origin } }
    if !top then return reading
    else if reading.zone.records = [] then
      return { reading with zone := reading.zone.setOrigin origin, movedApex := none }
    else return { reading with movedApex := some origin }

def readTtl (reading : Reading) (line : LogicalLine) : List Text → Except ZoneError Reading
  | [] => .ok reading
  | text :: _ => do
    let seconds ← readField parseU32 line.lineNo "invalid $TTL" text
    return { reading with state := { reading.state with ttl := ⟨seconds⟩ } }

def readInclude (base : Option fs.Path)
    (into : Option (Option fs.Path → Text → Reading → Except ZoneError Reading))
    (reading : Reading) (line : LogicalLine) : List Text → Except ZoneError Reading
  | [] => .error (.syntaxAt line.lineNo "$INCLUDE needs a file name")
  | file :: rest =>
    match into with
    | none => .error (.syntaxAt line.lineNo "$INCLUDE nested more than 8 deep — a cycle?")
    | some into => do
      let path := fs.join base file
      let included ← readField fs.read line.lineNo "$INCLUDE" path
      let origin ← match rest with
        | [] => pure reading.state.origin
        | text :: _ => nameAt text reading.state.origin line.lineNo
      let inner ← into (fs.parent path) included
        { reading with state := ⟨origin, reading.state.ttl, none⟩ }
      return { inner with state := reading.state }

def readLine (top : Bool) (base : Option fs.Path)
    (into : Option (Option fs.Path → Text → Reading → Except ZoneError Reading))
    (reading : Reading) (line : LogicalLine) : Except ZoneError Reading :=
  match tokenize line.text with
  | [] => .ok reading
  | first :: rest =>
    if eqIgnoreCase first "$ORIGIN".toList then readOrigin top reading line rest
    else if eqIgnoreCase first "$TTL".toList then readTtl reading line rest
    else if eqIgnoreCase first "$INCLUDE".toList then readInclude fs base into reading line rest
    else readRecordLine b64 reading line first rest

def readLines (top : Bool) (base : Option fs.Path)
    (into : Option (Option fs.Path → Text → Reading → Except ZoneError Reading))
    (content : Text) (reading : Reading) : Except ZoneError Reading := do
  let found ← logicalLines content
  found.foldlM (readLine b64 fs top base into) reading

def parseInto (levels : Nat) (top : Bool) (base : Option fs.Path) (content : Text)
    (reading : Reading) : Except ZoneError Reading :=
  match levels with
  | 0 => readLines b64 fs top base none content reading
  | levels + 1 => readLines b64 fs top base (some (parseInto levels false)) content reading

def parseZoneFile (base : Option fs.Path) (content origin : Text) : Except ZoneError Zone := do
  let apex ← match fromPresentation origin with
    | .ok apex => Except.ok apex
    | .error _ => .error (.invalid "the origin is not a name")
  let reading ← parseInto b64 fs (MAX_INCLUDE_DEPTH - 1) true base content
    ⟨Zone.new apex, ⟨apex, ⟨3600⟩, none⟩, none⟩
  -- the one rebuild a file with a mid-zone `$ORIGIN` owes
  let zone := match reading.movedApex with
    | some apex => reading.zone.setOrigin apex
    | none => reading.zone
  checkCnameExclusivity zone
  checkDnameRules zone
  return zone

/-! ## What is accepted -/

open Zone

/-- A zone as the parser builds it: well indexed, and of class IN throughout. -/
structure Sound (z : Zone) : Prop where
  ok : ZoneOk z
  classIn : ∀ r ∈ z.records, r.cls = .IN

theorem sound_new (origin : Name) : Sound (Zone.new origin) :=
  ⟨zoneOk_new origin, fun _ hr => absurd hr List.not_mem_nil⟩

variable {reading reading' : Reading} {line : LogicalLine} {base : Option fs.Path} {z : Zone}
  {top : Bool} {into : Option (Option fs.Path → Text → Reading → Except ZoneError Reading)}

theorem Sound.takeIn (h : Sound z) {record : ZoneRecord} (hcls : record.cls = .IN) :
    Sound (z.takeIn record) := by
  refine ⟨h.ok.takeIn record, fun r hr => ?_⟩
  rw [takeIn_records] at hr
  rcases List.mem_append.mp hr with hr | hr
  · exact h.classIn r hr
  · rw [List.mem_singleton.mp hr]
    exact hcls

theorem Sound.setOrigin (h : Sound z) (origin : Name) : Sound (z.setOrigin origin) :=
  ⟨zoneOk_reindex _, h.classIn⟩

theorem of_readField_eq_ok {α β : Type} {parse : α → Option β} {ln : Nat} {detail : String}
    {value : α} {result : β} (h : readField parse ln detail value = .ok result) :
    parse value = some result := by
  rw [readField] at h
  cases hparse : parse value with
  | none =>
    rw [hparse] at h
    cases h
  | some found =>
    rw [hparse] at h
    cases h
    rfl

variable {content : Text} {fields : List Text}

theorem Sound.readRecord {z' : Zone} (hz : Sound z) {origin owner : Name} {ttl : Ttl} {ln : Nat}
    {kind : Text} (h : readRecord b64 z origin owner ttl ln kind fields = .ok z') : Sound z' := by
  rw [Zones.readRecord] at h
  rcases ite_eq_iff.mp h with ⟨-, h⟩ | ⟨-, h⟩
  · obtain ⟨rdata, -, h⟩ := except_bind_eq_ok.mp h
    cases h
    exact hz.takeIn rfl
  · obtain ⟨parsed, -, h⟩ := except_bind_eq_ok.mp h
    have hadd := of_readField_eq_ok h
    rw [Zone.addParsed] at hadd
    cases hstored : storedParsed parsed with
    | error e =>
      rw [hstored] at hadd
      cases hadd
    | ok rdata =>
      rw [hstored] at hadd
      cases hadd
      exact hz.takeIn rfl

theorem Sound.readOwned (hz : Sound reading.zone) (line : LogicalLine) (owner : Option Name)
    (tokens : List Text) (h : (match owner with
      | none => throw (.syntaxAt line.lineNo
          "record omits its owner name but no previous record supplies one")
      | some owner => do
        let (ttl, fallback, tokens) ←
          ttlAndClass line.lineNo reading.state.ttl reading.state.ttl tokens
        let state := { reading.state with owner := some owner, ttl := fallback }
        match tokens with
        | [] => return { reading with state }
        | kind :: fields => do
          let zone ← Zones.readRecord b64 reading.zone state.origin owner ttl line.lineNo kind fields
          return { reading with zone, state } : Except ZoneError Reading) = .ok reading') :
    Sound reading'.zone := by
  cases owner with
  | none => cases h
  | some owner =>
    obtain ⟨⟨ttl, fallback, tokens⟩, -, h⟩ := except_bind_eq_ok.mp h
    cases tokens with
    | nil =>
      cases h
      exact hz
    | cons kind fields =>
      obtain ⟨zone, hrecord, h⟩ := except_bind_eq_ok.mp h
      cases h
      exact hz.readRecord b64 hrecord

theorem Sound.readRecordLine (hz : Sound reading.zone) {first : Text} {rest : List Text}
    (h : readRecordLine b64 reading line first rest = .ok reading') : Sound reading'.zone := by
  rw [Zones.readRecordLine] at h
  -- the owner is the last one's or the first field, and the rest of the line is the same
  rcases ite_eq_iff.mp h with ⟨-, h⟩ | ⟨-, h⟩
  · exact hz.readOwned b64 line reading.state.owner (first :: rest) h
  · obtain ⟨named, -, h⟩ := except_bind_eq_ok.mp h
    obtain ⟨split, hsplit, h⟩ := except_bind_eq_ok.mp h
    cases hsplit
    exact hz.readOwned b64 line (some named) rest h

theorem Sound.readOrigin (hz : Sound reading.zone)
    (h : readOrigin top reading line fields = .ok reading') : Sound reading'.zone := by
  cases fields with
  | nil =>
    cases h
    exact hz
  | cons text fields =>
    obtain ⟨origin, -, h⟩ := except_bind_eq_ok.mp h
    dsimp only at h
    rcases ite_eq_iff.mp h with ⟨-, h⟩ | ⟨-, h⟩
    · cases h
      exact hz
    · rcases ite_eq_iff.mp h with ⟨-, h⟩ | ⟨-, h⟩
      · cases h
        exact hz.setOrigin origin
      · cases h
        exact hz

theorem readTtl_zone (h : readTtl reading line fields = .ok reading') :
    reading'.zone = reading.zone := by
  cases fields with
  | nil =>
    cases h
    rfl
  | cons text fields =>
    obtain ⟨seconds, -, h⟩ := except_bind_eq_ok.mp h
    cases h
    rfl

section

variable (hinto : ∀ f ∈ into, ∀ path content reading reading', Sound reading.zone →
      f path content reading = .ok reading' → Sound reading'.zone)
include hinto

theorem Sound.readInclude (hz : Sound reading.zone) {fields : List Text}
    (h : readInclude fs base into reading line fields = .ok reading') :
    Sound reading'.zone := by
  cases fields with
  | nil => cases h
  | cons file fields =>
    cases into with
    | none => cases h
    | some into =>
      obtain ⟨included, -, h⟩ := except_bind_eq_ok.mp h
      cases fields with
      | nil =>
        obtain ⟨origin, -, h⟩ := except_bind_eq_ok.mp h
        obtain ⟨inner, hinner, h⟩ := except_bind_eq_ok.mp h
        cases h
        exact hinto into rfl _ _ { reading with state := ⟨origin, reading.state.ttl, none⟩ } inner hz
          hinner
      | cons text fields =>
        obtain ⟨origin, -, h⟩ := except_bind_eq_ok.mp h
        obtain ⟨inner, hinner, h⟩ := except_bind_eq_ok.mp h
        cases h
        exact hinto into rfl _ _ { reading with state := ⟨origin, reading.state.ttl, none⟩ } inner hz
          hinner

theorem Sound.readLine (hz : Sound reading.zone)
    (h : readLine b64 fs top base into reading line = .ok reading') : Sound reading'.zone := by
  rw [Zones.readLine] at h
  cases hfields : tokenize line.text with
  | nil =>
    rw [hfields] at h
    cases h
    exact hz
  | cons first rest =>
    rw [hfields] at h
    dsimp only at h
    rcases ite_eq_iff.mp h with ⟨-, h⟩ | ⟨-, h⟩
    · exact hz.readOrigin h
    rcases ite_eq_iff.mp h with ⟨-, h⟩ | ⟨-, h⟩
    · rw [readTtl_zone h]
      exact hz
    rcases ite_eq_iff.mp h with ⟨-, h⟩ | ⟨-, h⟩
    · exact hz.readInclude fs hinto h
    · exact hz.readRecordLine b64 h

theorem Sound.readLines {found : List LogicalLine} (hz : Sound reading.zone)
    (h : found.foldlM (Zones.readLine b64 fs top base into) reading = .ok reading') :
    Sound reading'.zone := by
  induction found generalizing reading with
  | nil =>
    cases h
    exact hz
  | cons line found ih =>
    rw [List.foldlM_cons] at h
    obtain ⟨next, hline, h⟩ := except_bind_eq_ok.mp h
    exact ih (hz.readLine b64 fs hinto hline) h

end

theorem Sound.parseInto (levels : Nat) (hz : Sound reading.zone)
    (h : parseInto b64 fs levels top base content reading = .ok reading') :
    Sound reading'.zone := by
  induction levels generalizing top base content reading reading' with
  | zero =>
    obtain ⟨found, -, h⟩ := except_bind_eq_ok.mp h
    refine hz.readLines b64 fs (fun f hf => ?_) h
    cases hf
  | succ levels ih =>
    obtain ⟨found, -, h⟩ := except_bind_eq_ok.mp h
    refine hz.readLines b64 fs (fun f hf path content inner inner' hinner hread => ?_) h
    cases hf
    exact ih hinner hread

/-- **What the loader accepts** is well indexed, of class IN, and passes both checks. -/
theorem parseZoneFile_sound {origin : Text} (h : parseZoneFile b64 fs base content origin = .ok z) :
    Sound z ∧ checkCnameExclusivity z = .ok () ∧ checkDnameRules z = .ok () := by
  rw [parseZoneFile] at h
  cases hapex : fromPresentation origin with
  | error e =>
    rw [hapex] at h
    cases h
  | ok apex =>
  rw [hapex] at h
  obtain ⟨found, hfound, h⟩ := except_bind_eq_ok.mp (show _ >>= _ = _ from h)
  cases hfound
  obtain ⟨reading, hread, h⟩ := except_bind_eq_ok.mp h
  obtain ⟨⟨⟩, hcname, h⟩ := except_bind_eq_ok.mp h
  obtain ⟨⟨⟩, hdname, h⟩ := except_bind_eq_ok.mp h
  have hsound : Sound reading.zone := (sound_new apex).parseInto b64 fs _ hread
  cases h
  refine ⟨?_, hcname, hdname⟩
  cases reading.movedApex with
  | none => exact hsound
  | some moved => exact hsound.setOrigin moved

theorem parseZoneFile_apex {origin : Text} (h : parseZoneFile b64 fs base content origin = .ok z) :
    ∃ apex, fromPresentation origin = .ok apex := by
  cases hapex : fromPresentation origin with
  | error e =>
    rw [parseZoneFile, hapex] at h
    cases h
  | ok apex => exact ⟨apex, rfl⟩

/-! ## Files that include no other -/

def LogicalLine.includes (line : LogicalLine) : Bool :=
  (tokenize line.text).head?.any fun first => eqIgnoreCase first "$INCLUDE".toList

def includesNone (content : Text) : Bool :=
  match logicalLines content with
  | .ok lines => lines.all fun line => !line.includes
  | .error _ => true

theorem readLine_anywhere (h : line.includes = false) (top : Bool) (fs other : FileSystem)
    (base : Option fs.Path) (base' : Option other.Path)
    (into : Option (Option fs.Path → Text → Reading → Except ZoneError Reading))
    (into' : Option (Option other.Path → Text → Reading → Except ZoneError Reading))
    (reading : Reading) :
    readLine b64 fs top base into reading line = readLine b64 other top base' into' reading line := by
  rw [readLine, readLine]
  split
  · rfl
  · rename_i first rest htokens
    have hfirst : eqIgnoreCase first "$INCLUDE".toList = false := by
      rw [LogicalLine.includes, htokens] at h
      exact h
    rw [hfirst]
    rfl

/-- **A file that includes no other reads the same wherever it lies.** -/
theorem parse_anywhere (h : includesNone content = true) (fs other : FileSystem)
    (base : Option fs.Path) (base' : Option other.Path) (origin : Text) :
    parseZoneFile b64 fs base content origin = parseZoneFile b64 other base' content origin := by
  have hlines : ∀ (lines : List LogicalLine), (lines.all fun line => !line.includes) = true → ∀ top into into' reading,
      lines.foldlM (readLine b64 fs top base into) reading = lines.foldlM (readLine b64 other top base' into') reading := by
    intro lines hall top into into' reading
    induction lines generalizing reading with
    | nil => rfl
    | cons line rest ih =>
      rw [List.all_cons, Bool.and_eq_true, Bool.not_eq_true'] at hall
      rw [List.foldlM_cons, List.foldlM_cons, readLine_anywhere b64 hall.1 top fs other base base' into into']
      congr 1
      funext reading'
      exact ih hall.2 reading'
  have hread : ∀ reading, parseInto b64 fs (MAX_INCLUDE_DEPTH - 1) true base content reading
      = parseInto b64 other (MAX_INCLUDE_DEPTH - 1) true base' content reading := by
    intro reading
    obtain ⟨levels, hlevels⟩ : ∃ levels, MAX_INCLUDE_DEPTH - 1 = levels + 1 := ⟨6, rfl⟩
    rw [hlevels, parseInto, parseInto, readLines, readLines]
    rw [includesNone] at h
    split at h
    · rename_i lines hlogical
      rw [hlogical]
      exact hlines lines h true _ _ _
    · rename_i e hlogical
      rw [hlogical]
      rfl
  rw [parseZoneFile, parseZoneFile]
  simp only [hread]

end Rdns.Zones
