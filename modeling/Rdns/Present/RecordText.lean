import Rdns.Core.Record
import Rdns.Present.DenialWire
import Rdns.Present.FieldText

/-!
# Rdns — One record as a zone-file line

`rdns-present/src/record_text.rs`. A record is written type-specifically where its
octets re-encode to themselves, and as RFC 3597's `\# <len> <hex>` otherwise.
-/

namespace Rdns.Present

open Rdns.Lib Rdns.Core

variable (b64 : Base64)

def className (cls : Core.Class) : Option Text :=
  if cls = Core.Class.IN then some "IN".toList
  else if cls = Core.Class.CH then some "CH".toList
  else if cls = Core.Class.HS then some "HS".toList
  else none

/-- `\# <length> <hex>` (RFC 3597 §5), the form that is exact for anything. -/
def genericRdata (stored : RecordData) : Text :=
  "\\# ".toList ++ decimal stored.rdata.length ++
    (if stored.rdata = [] then [] else ' ' :: hexEncode stored.rdata)

def soaTimer (value : Text) (comment : String) : Text :=
  List.replicate 45 ' ' ++ padRight 12 value ++ " ; ".toList ++ comment.toList

def soaText (mname rname : Name) (serial : Serial) (refresh retry expire : Int32)
    (minimum : UInt32) : Text :=
  toPresentation mname ++ ' ' :: toPresentation rname ++ " (\n".toList ++
    soaTimer (decimal serial.value.toNat) "serial" ++ '\n' ::
    soaTimer (signedDecimal refresh.toInt) "refresh" ++ '\n' ::
    soaTimer (signedDecimal retry.toInt) "retry" ++ '\n' ::
    soaTimer (signedDecimal expire.toInt) "expire" ++ '\n' ::
    soaTimer (decimal minimum.toNat) "minimum (negative TTL)" ++ '\n' ::
    List.replicate 45 ' ' ++ [')']

def quotedString (octets : Octets) : Text := '"' :: charStringEscaped octets ++ ['"']

def bitmapToString (bitmap : Octets) : Option Text :=
  match bitmapTypesExact [] bitmap with
  | .error _ => none
  | .ok types =>
    if buildTypeBitmap types ≠ bitmap then none
    else some (types.flatMap fun rtype => ' ' :: recordTypeName rtype)

def presentationRdata : ParsedRecord → Option Text
  | .a addr => some (showIpv4 addr.octets)
  | .aaaa addr => some (showIpv6 addr.octets)
  | .ns name | .cname name | .ptr name | .dname name => some (toPresentation name)
  | .mx preference exchange => some (decimal preference.toNat ++ ' ' :: toPresentation exchange)
  | .soa mname rname serial refresh retry expire minimum =>
    some (soaText mname rname serial refresh retry expire minimum)
  | .txt strings => some (joined ' ' (strings.map quotedString))
  | .svcb _ priority target params =>
    let head := decimal priority.toNat ++ ' ' :: toPresentation target
    some (if params = [] then head else head ++ ' ' :: presentParams b64 params)
  | .dnskey _ flags protocol algorithm publicKey =>
    some (joined ' ' [decimal flags.toNat, decimal protocol.toNat, decimal algorithm.toNat,
      b64.encode publicKey])
  | .ds _ keyTag algorithm digestType digest =>
    some (joined ' ' [decimal keyTag.toNat, decimal algorithm.toNat, decimal digestType.toNat,
      hexEncode digest])
  | .rrsig covered algorithm labels originalTtl inception expiration keyTag signer signature =>
    some (joined ' ' [recordTypeName covered, decimal algorithm.toNat, decimal labels.toNat,
      decimal originalTtl.toNat, formatDnssecTime expiration, formatDnssecTime inception,
      decimal keyTag.toNat, toPresentation signer, b64.encode signature])
  | .nsec next bitmap => (bitmapToString bitmap).map fun types => toPresentation next ++ types
  | .nsec3 hashAlgorithm flags iterations salt next bitmap =>
    -- an empty salt is written `-`, as the field is not optional
    let salt := if salt = [] then ['-'] else hexEncode salt
    (bitmapToString bitmap).map fun types =>
      joined ' ' [decimal hashAlgorithm.toNat, decimal flags.toNat, decimal iterations.toNat, salt,
        base32hexEncode next] ++ types
  | .unknown _ => none

def rdataToString (stored : RecordData) : Text :=
  match stored.parse with
  | .error _ => genericRdata stored
  | .ok parsed =>
    match RecordData.fromParsed parsed with
    | .error _ => genericRdata stored
    | .ok reencoded =>
      if reencoded.rdata = stored.rdata then (presentationRdata b64 parsed).getD (genericRdata stored)
      else genericRdata stored

def recordLine (name : Name) (ttl : Ttl) (cls : Core.Class) (rdata : RecordData) :
    Except ZoneError Text :=
  match className cls with
  | none => .error (.invalid "unknown class")
  | some classText =>
    .ok (padRight 24 (toPresentation name) ++ ' ' :: decimal ttl.secs.toNat ++ ' ' ::
      padRight 3 classText ++ ' ' :: padRight 7 (recordTypeName rdata.rtype) ++ ' ' ::
      rdataToString b64 rdata)

end Rdns.Present
