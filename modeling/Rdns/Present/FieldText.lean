import Rdns.Lib.AddressText
import Rdns.Present.Presentation

/-!
# Rdns — Fields with a shape of their own

SvcParams (`rdns-present/src/svcb.rs`) and the times of an RRSIG (`dnssec_time.rs`) as
zone-file text, written and read. base64 is the `base64` crate's, so both of its
directions are a parameter here.
-/

namespace Rdns.Present

open Rdns.Lib Rdns.Core

/-- The two directions of the `base64` crate's standard engine. -/
structure Base64 where
  encode : Octets → Text
  decode : Text → Option Octets

/-! ## SvcParamKeys -/

namespace SvcParamKeys

def MANDATORY : UInt16 := 0
def ALPN : UInt16 := 1
def NO_DEFAULT_ALPN : UInt16 := 2
def PORT : UInt16 := 3
def IPV4HINT : UInt16 := 4
def ECH : UInt16 := 5
def IPV6HINT : UInt16 := 6

end SvcParamKeys

/-- The keys that have a name (RFC 9460 §14.3.2). -/
def namedSvcParams : List (Text × UInt16) :=
  [("mandatory".toList, SvcParamKeys.MANDATORY), ("alpn".toList, SvcParamKeys.ALPN),
    ("no-default-alpn".toList, SvcParamKeys.NO_DEFAULT_ALPN), ("port".toList, SvcParamKeys.PORT),
    ("ipv4hint".toList, SvcParamKeys.IPV4HINT), ("ech".toList, SvcParamKeys.ECH),
    ("ipv6hint".toList, SvcParamKeys.IPV6HINT)]

def genericKeyName (key : UInt16) : Text := "key".toList ++ decimal key.toNat

def svcParamKeyName (key : UInt16) : Text :=
  match namedSvcParams.find? fun entry => entry.2 == key with
  | some entry => entry.1
  | none => genericKeyName key

def svcParamKeyFromName (name : Text) : Option UInt16 :=
  match namedSvcParams.find? fun entry => entry.1 == name with
  | some entry => some entry.2
  | none => do
    let digits ← stripFront "key".toList name
    if digits.length > 1 ∧ digits.head? = some '0' then none else parseU16 digits

/-! ## Reading SvcParams -/

def commaList (text : Text) (ln : Nat) : Except ZoneError (List Text) :=
  if text = [] then .ok []
  else if '\\' ∈ text then .error (.syntaxAt ln "the list contains a backslash")
  else
    let items := text.splitOn ','
    if [] ∈ items then .error (.syntaxAt ln "the list has an empty item") else .ok items

def plainValue (value : Option Text) (ln : Nat) : Except ZoneError Text :=
  let text := value.getD []
  if '\\' ∈ text then .error (.syntaxAt ln "the value may not contain escape sequences")
  else .ok text

def opaqueValue (value : Option Text) (ln : Nat) : Except ZoneError Octets :=
  match charStringDecode (toBytes (value.getD [])) with
  | .ok octets => .ok octets
  | .error _ => .error (.syntaxAt ln "the value is not a character-string")

def mandatoryKeys (ln : Nat) (codes : List UInt16) : List Text → Except ZoneError (List UInt16)
  | [] => .ok codes
  | item :: items =>
    match svcParamKeyFromName item with
    | none => .error (.syntaxAt ln "an item is not an SvcParamKey")
    | some listed =>
      if listed = SvcParamKeys.MANDATORY then
        .error (.syntaxAt ln "mandatory may not list itself")
      else if listed ∈ codes then .error (.syntaxAt ln "a key is listed twice")
      else mandatoryKeys ln (codes ++ [listed]) items

def alpnId (ln : Nat) (item : Text) : Except ZoneError Octets :=
  match charStringDecode (toBytes item) with
  | .error _ => .error (.syntaxAt ln "an id is not a character-string")
  | .ok octets =>
    if octets.length > 255 then .error (.syntaxAt ln "an id is over 255 octets")
    else if octets = [] then .error (.syntaxAt ln "an empty id")
    else .ok (UInt8.ofNat octets.length :: octets)

def addressHints (parse : Text → Option Octets) (ln : Nat) (value : Option Text) :
    Except ZoneError Octets := do
  let items ← commaList (← plainValue value ln) ln
  let addresses ← items.mapM fun item =>
    match parse item with
    | some octets => Except.ok octets
    | none => .error (.syntaxAt ln "an address does not parse")
  if addresses.flatten = [] then throw (.syntaxAt ln "at least one address is needed")
  return addresses.flatten

def encodeValue (b64 : Base64) (code : UInt16) (value : Option Text) (writtenByName : Bool)
    (ln : Nat) : Except ZoneError Octets :=
  if !writtenByName then opaqueValue value ln
  else if code = SvcParamKeys.NO_DEFAULT_ALPN then
    if value.getD [] ≠ [] then .error (.syntaxAt ln "the key takes no value") else .ok []
  else if code = SvcParamKeys.MANDATORY then do
    let codes ← mandatoryKeys ln [] (← commaList (← plainValue value ln) ln)
    if codes = [] then throw (.syntaxAt ln "at least one key is needed")
    return (codes.mergeSort fun a b => a ≤ b).flatMap be16
  else if code = SvcParamKeys.ALPN then do
    let ids ← (← commaList (value.getD []) ln).mapM (alpnId ln)
    if ids.flatten = [] then throw (.syntaxAt ln "at least one id is needed")
    return ids.flatten
  else if code = SvcParamKeys.PORT then do
    match parseU16 (← plainValue value ln) with
    | some port => return be16 port
    | none => throw (.syntaxAt ln "the value is not a number 0-65535")
  else if code = SvcParamKeys.IPV4HINT then addressHints parseIpv4 ln value
  else if code = SvcParamKeys.IPV6HINT then addressHints parseIpv6 ln value
  else if code = SvcParamKeys.ECH then
    match b64.decode (trim (value.getD [])) with
    | some octets => .ok octets
    | none => .error (.syntaxAt ln "the value is not base64")
  else opaqueValue value ln

def splitParam (field : Text) : Text × Option Text :=
  let name := field.takeWhile (· != '=')
  if name.length = field.length then (field, none) else (name, some (field.drop (name.length + 1)))

def parseParams (b64 : Base64) (ln : Nat) (params : List (UInt16 × Octets)) :
    List Text → Except ZoneError (List (UInt16 × Octets))
  | [] => .ok params
  | field :: fields => do
    let (name, value) := splitParam field
    match svcParamKeyFromName name with
    | none => throw (.syntaxAt ln "not an SvcParamKey")
    | some code =>
      if params.any fun seen => seen.1 == code then
        throw (.syntaxAt ln "an SvcParamKey appears twice")
      let octets ← encodeValue b64 code value (svcParamKeyName code == name) ln
      parseParams b64 ln (params ++ [(code, octets)]) fields

/-! ## Writing SvcParams -/

def chunksOf (size : Nat) (octets : Octets) : List Octets :=
  (List.range (octets.length / size)).map fun i => (octets.drop (i * size)).take size

def sizedItems (size : Nat) (present : Octets → Text) (value : Octets) : Option (List Text) :=
  if value = [] ∨ value.length % size ≠ 0 then none else some ((chunksOf size value).map present)

def alpnItems (items : List Text) (rest : Octets) : Option (List Text) :=
  match rest with
  | [] => if items = [] then none else some items
  | len :: tail =>
    if len.toNat = 0 ∨ tail.length < len.toNat then none
    else
      let item := charStringEscaped (tail.take len.toNat)
      if ',' ∈ item then none else alpnItems (items ++ [item]) (tail.drop len.toNat)
termination_by rest.length
decreasing_by
  simp only [List.length_drop, List.length_cons]
  omega

def keyOfPair : Octets → Text
  | [hi, lo] => svcParamKeyName (UInt16.ofNat (hi.toNat * 256 + lo.toNat))
  | _ => []

def presentValue (b64 : Base64) (code : UInt16) (value : Octets) : Option (Option Text) :=
  if code = SvcParamKeys.NO_DEFAULT_ALPN then if value = [] then some none else none
  else if code = SvcParamKeys.MANDATORY then
    (sizedItems 2 keyOfPair value).map fun items => some (joined ',' items)
  else if code = SvcParamKeys.ALPN then (alpnItems [] value).map fun items => some (joined ',' items)
  else if code = SvcParamKeys.PORT then
    match value with
    | [hi, lo] => some (some (decimal (hi.toNat * 256 + lo.toNat)))
    | _ => none
  else if code = SvcParamKeys.ECH then some (some (b64.encode value))
  else if code = SvcParamKeys.IPV4HINT then
    (sizedItems 4 showIpv4 value).map fun items => some (joined ',' items)
  else if code = SvcParamKeys.IPV6HINT then
    (sizedItems 16 showIpv6 value).map fun items => some (joined ',' items)
  else some (some (charStringEscaped value))

def presentParam (b64 : Base64) (param : UInt16 × Octets) : Text :=
  match presentValue b64 param.1 param.2 with
  | some none => svcParamKeyName param.1
  | some (some text) => svcParamKeyName param.1 ++ "=\"".toList ++ text ++ ['"']
  | none => genericKeyName param.1 ++ "=\"".toList ++ charStringEscaped param.2 ++ ['"']

def presentParams (b64 : Base64) (params : List (UInt16 × Octets)) : Text :=
  joined ' ' (params.map (presentParam b64))

/-! ## Times -/

def isLeap (year : Nat) : Bool := (year % 4 == 0 && year % 100 != 0) || year % 400 == 0

def daysInYear (year : Nat) : Nat := if isLeap year then 366 else 365

def daysInMonth (month year : Nat) : Option Nat :=
  if month ∈ [1, 3, 5, 7, 8, 10, 12] then some 31
  else if month ∈ [4, 6, 9, 11] then some 30
  else if month = 2 then some (if isLeap year then 29 else 28)
  else none

def sliceNumber (text : Text) (start count : Nat) : Option Nat :=
  parseDigits ((text.drop start).take count)

/-- A bare epoch, or `YYYYMMDDHHmmSS` in UTC (RFC 4034 §3.2). -/
def parseDnssecTime (text : Text) : Option UInt32 :=
  match parseU32 text with
  | some epoch => some epoch
  | none => do
    if (toBytes text).length ≠ 14 ∨ !text.all Char.isDigit then none
    let year ← sliceNumber text 0 4
    let month ← sliceNumber text 4 2
    let day ← sliceNumber text 6 2
    let hour ← sliceNumber text 8 2
    let min ← sliceNumber text 10 2
    let sec ← sliceNumber text 12 2
    if year < 1970 then none
    let daysThisMonth ← daysInMonth month year
    if day < 1 ∨ day > daysThisMonth then none
    if hour > 23 ∨ min > 59 ∨ sec > 59 then none
    let yearDays := ((List.range' 1970 (year - 1970)).map daysInYear).sum
    let monthDays := ((List.range' 1 (month - 1)).map fun m => (daysInMonth m year).getD 0).sum
    let epoch := (yearDays + monthDays + (day - 1)) * 86400 + hour * 3600 + min * 60 + sec
    if epoch < 4294967296 then some (UInt32.ofNat epoch) else none

def yearOf (year days : Nat) : Nat × Nat :=
  if days < daysInYear year then (year, days) else yearOf (year + 1) (days - daysInYear year)
termination_by days
decreasing_by
  have : 0 < daysInYear year := by
    rw [daysInYear]
    split <;> decide
  omega

def monthOf (year : Nat) (fuel month days : Nat) : Nat × Nat :=
  match fuel with
  | 0 => (month, days)
  | fuel + 1 =>
    match daysInMonth month year with
    | none => (month, days)
    | some inMonth =>
      if days < inMonth then (month, days) else monthOf year fuel (month + 1) (days - inMonth)

def formatDnssecTime (epoch : UInt32) : Text :=
  let seconds := epoch.toNat % 86400
  let (year, days) := yearOf 1970 (epoch.toNat / 86400)
  -- the loop runs while the month is below twelve
  let (month, days) := monthOf year 11 1 days
  zeroPadded 4 year ++ zeroPadded 2 month ++ zeroPadded 2 (days + 1) ++
    zeroPadded 2 (seconds / 3600) ++ zeroPadded 2 (seconds / 60 % 60) ++ zeroPadded 2 (seconds % 60)

end Rdns.Present
