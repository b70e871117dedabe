import Rdns.Present.Presentation
import Rdns.Auth.Walk

/-!
# Rdns — TSIG

`rdns-tsig/src/tsig.rs`: a message is authenticated with a shared secret by a record behind its
last one (RFC 8945). Both sides digest octets: the prior MAC, the message as it was before the
record, and what the record says of the key and the clock, or for the later envelopes of a transfer
of the clock alone.

The MAC is a parameter.
-/

namespace Rdns.Auth

open Rdns.Lib Rdns.Core Rdns.Present

/-! ## Keys -/

def TSIG_TYPE : UInt16 := 250

def TSIG_CLASS : UInt16 := 255

def DEFAULT_FUDGE : UInt16 := 300

inductive TsigAlgorithm where
  | hmacSha1
  | hmacSha256
  | hmacSha384
  | hmacSha512
deriving DecidableEq

namespace TsigAlgorithm

def wireName : TsigAlgorithm → Text
  | hmacSha1 => "hmac-sha1.".toList
  | hmacSha256 => "hmac-sha256.".toList
  | hmacSha384 => "hmac-sha384.".toList
  | hmacSha512 => "hmac-sha512.".toList

def fromName (name : Text) : Option TsigAlgorithm :=
  let name := ((name.reverse.dropWhile (· == '.')).reverse).map Char.toLower
  if name = "hmac-sha1".toList then some hmacSha1
  else if name = "hmac-sha256".toList then some hmacSha256
  else if name = "hmac-sha384".toList then some hmacSha384
  else if name = "hmac-sha512".toList then some hmacSha512
  else none

def macLen : TsigAlgorithm → Nat
  | hmacSha1 => 20
  | hmacSha256 => 32
  | hmacSha384 => 48
  | hmacSha512 => 64

end TsigAlgorithm

def canonicalKeyName (name : Text) : Text :=
  let name := (trim name).map Char.toLower
  if name.getLast? = some '.' then name else name ++ ['.']

structure TsigKey where
  name : Text
  algorithm : TsigAlgorithm
  secret : Octets
deriving DecidableEq

def TsigKey.new (name : Text) (algorithm : TsigAlgorithm) (secret : Octets) : TsigKey :=
  ⟨canonicalKeyName name, algorithm, secret⟩

structure TsigKeyring where
  keys : List TsigKey

def TsigKeyring.get (keyring : TsigKeyring) (name : Text) (algorithm : TsigAlgorithm) : Option TsigKey :=
  keyring.keys.find? fun key => key.name = canonicalKeyName name ∧ key.algorithm = algorithm

structure Hmac where
  sign : TsigAlgorithm → Octets → Octets → Octets
  length_sign : ∀ algorithm secret data, (sign algorithm secret data).length = algorithm.macLen

def Hmac.mac (hmac : Hmac) (key : TsigKey) (data : Octets) : Octets := hmac.sign key.algorithm key.secret data

@[simp]
theorem Hmac.length_mac (hmac : Hmac) (key : TsigKey) (data : Octets) :
    (hmac.mac key data).length = key.algorithm.macLen := hmac.length_sign _ _ _

/-! ## The record -/

structure Tsig where
  keyName : Text
  algorithmName : Text
  timeSigned : Nat
  fudge : UInt16
  mac : Octets
  originalId : UInt16
  error : UInt16
  other : Octets
deriving DecidableEq

def be48 (time : Nat) : Octets :=
  [UInt8.ofNat (time / 2 ^ 40), UInt8.ofNat (time / 2 ^ 32), UInt8.ofNat (time / 2 ^ 24), UInt8.ofNat (time / 2 ^ 16),
    UInt8.ofNat (time / 2 ^ 8), UInt8.ofNat time]

def ofBytes (bytes : Octets) : Nat := bytes.foldl (fun acc b => acc * 256 + b.toNat) 0

def nameWire (name : Text) : Except WireError Octets := (fromPresentation name).map Name.wire

inductive SignError where
  | shorterThanHeader
  | keyName (error : WireError)
  | algorithmName (error : WireError)
  | additionalCountOverflow
  | tooLong (octets : Nat)

inductive RdataError where
  | algorithmName
  | time
  | mac
  | otherData

namespace Tsig

variable (tsig : Tsig)

def parseRdata (keyName : Text) (rdata : Octets) : Except RdataError Tsig :=
  match Name.fromWire rdata with
  | .error _ => .error .algorithmName
  | .ok (algorithmName, rest) =>
    if rest.length < 10 then .error .time
    else
      let timeSigned := ofBytes (rest.take 6)
      let fudge := u16At rest 6
      let macSize := (u16At rest 8).toNat
      let rest := rest.drop 10
      if rest.length < macSize + 6 then .error .mac
      else
        let mac := rest.take macSize
        let rest := rest.drop macSize
        let originalId := u16At rest 0
        let error := u16At rest 2
        let otherLen := (u16At rest 4).toNat
        let rest := rest.drop 6
        if rest.length < otherLen then .error .otherData
        else .ok ⟨canonicalKeyName keyName, toPresentation algorithmName, timeSigned, fudge, mac, originalId, error,
          rest.take otherLen⟩

def rdataBytes : Except SignError Octets :=
  match nameWire tsig.algorithmName with
  | .error e => .error (.algorithmName e)
  | .ok algorithm =>
    .ok (algorithm ++ (be48 tsig.timeSigned ++ (be16 tsig.fudge ++ (be16 (UInt16.ofNat tsig.mac.length) ++
      (tsig.mac ++ (be16 tsig.originalId ++ (be16 tsig.error ++ (be16 (UInt16.ofNat tsig.other.length) ++
        tsig.other))))))))

def tsigVariables : Except SignError Octets :=
  match nameWire tsig.keyName with
  | .error e => .error (.keyName e)
  | .ok key =>
    match nameWire tsig.algorithmName with
    | .error e => .error (.algorithmName e)
    | .ok algorithm =>
      .ok (key ++ (be16 TSIG_CLASS ++ (be32 0 ++ (algorithm ++ (be48 tsig.timeSigned ++ (be16 tsig.fudge ++
        (be16 tsig.error ++ (be16 (UInt16.ofNat tsig.other.length) ++ tsig.other))))))))

def timers : Octets := be48 tsig.timeSigned ++ be16 tsig.fudge

end Tsig

/-! ## The record at the end of a message -/

def recordsBefore (packet : Octets) : Nat :=
  (u16At packet 6).toNat + (u16At packet 8).toNat + (u16At packet 10).toNat - 1

def findTsig (packet : Octets) : Option (Nat × Octets × Text) :=
  if packet.length < 12 then none
  else if (u16At packet 10).toNat = 0 then none
  else
    match sectionsEnd packet (u16At packet 4).toNat (recordsBefore packet) with
    | none => none
    | some start =>
      match skipName packet start with
      | none => none
      | some afterName =>
        if afterName + 10 > packet.length then none
        else if u16At packet afterName ≠ TSIG_TYPE then none
        else
          match Name.fromWireIn packet (packet.drop start) with
          | .error _ => none
          | .ok (owner, _) =>
            let rdlen := (u16At packet (afterName + 8)).toNat
            let rdataStart := afterName + 10
            if rdataStart + rdlen > packet.length then none
            else some (start, (packet.drop rdataStart).take rdlen, toPresentation owner)

def stripTsig (packet : Octets) (offset : Nat) (originalId : UInt16) : Octets :=
  let out := setU16 (packet.take offset) 0 originalId
  setU16 out 10 (UInt16.ofNat ((u16At out 10).toNat - 1))

def appendTsig (message : Octets) (tsig : Tsig) : Except SignError Octets :=
  match tsig.rdataBytes with
  | .error e => .error e
  | .ok rdata =>
    match nameWire tsig.keyName with
    | .error e => .error (.keyName e)
    | .ok owner =>
      let message := message ++ (owner ++ (be16 TSIG_TYPE ++ (be16 TSIG_CLASS ++ (be32 0 ++
        (be16 (UInt16.ofNat rdata.length) ++ rdata)))))
      let additional := (u16At message 10).toNat
      if additional = 65535 then .error .additionalCountOverflow
      else
        let message := setU16 message 10 (UInt16.ofNat (additional + 1))
        if message.length > 65535 then .error (.tooLong message.length) else .ok message

def tsigRecordLen (keyName algorithmName : Text) (macLen otherLen : Nat) : Nat :=
  let wireLen (name : Text) := ((nameWire name).toOption.map List.length).getD (name.length + 2)
  wireLen keyName + 10 + wireLen algorithmName + 16 + macLen + otherLen

def priorMac (prior : Octets) : Octets :=
  if prior.isEmpty then [] else be16 (UInt16.ofNat prior.length) ++ prior

/-! ## Signing and checking -/

inductive TsigError where
  | badSig
  | badKey
  | badTime
  | badTrunc
  | formErr
deriving DecidableEq

structure TsigSession where
  key : TsigKey
  previousMac : Octets
  firstSigned : Bool

structure TsigRejection where
  error : TsigError
  keyName : Text
  algorithmName : Text
  originalId : UInt16
  key : Option TsigKey

inductive TsigCheck where
  | unsigned
  | verified (session : TsigSession)
  | rejected (rejection : TsigRejection)

def unsignedTsig (key : TsigKey) (message : Octets) (now : Nat) : Tsig :=
  ⟨key.name, key.algorithm.wireName, now, DEFAULT_FUDGE, [], u16At message 0, 0, []⟩

def TsigSession.sign (hmac : Hmac) (session : TsigSession) (message : Octets) (now : Nat) :
    TsigSession × Except SignError Octets :=
  if message.length < 12 then (session, .error .shorterThanHeader)
  else
    let tsig := unsignedTsig session.key message now
    match if session.firstSigned then .ok tsig.timers else tsig.tsigVariables with
    | .error e => (session, .error e)
    | .ok covered =>
      let mac := hmac.mac session.key (priorMac session.previousMac ++ (message ++ covered))
      ({ session with previousMac := mac, firstSigned := true }, appendTsig message { tsig with mac })

def signRequest (hmac : Hmac) (message : Octets) (key : TsigKey) (now : Nat) : Except SignError Octets :=
  if message.length < 12 then .error .shorterThanHeader
  else
    let tsig := unsignedTsig key message now
    match tsig.tsigVariables with
    | .error e => .error e
    | .ok covered => appendTsig message { tsig with mac := hmac.mac key (message ++ covered) }

def absDiff (a b : Nat) : Nat := max a b - min a b

def checkRequest (hmac : Hmac) (packet : Octets) (keyring : TsigKeyring) (now : Nat) : TsigCheck :=
  match findTsig packet with
  | none => .unsigned
  | some (offset, rdata, owner) =>
    match Tsig.parseRdata owner rdata with
    | .error _ =>
      .rejected ⟨.formErr, owner, TsigAlgorithm.hmacSha256.wireName, u16At packet 0, none⟩
    | .ok tsig =>
      let reject (error : TsigError) (key : Option TsigKey) : TsigCheck :=
        .rejected ⟨error, tsig.keyName, tsig.algorithmName, tsig.originalId, key⟩
      match TsigAlgorithm.fromName tsig.algorithmName with
      | none => reject .badKey none
      | some algorithm =>
        match keyring.get tsig.keyName algorithm with
        | none => reject .badKey none
        | some key =>
          if tsig.mac.length ≠ algorithm.macLen then reject .badTrunc none
          else
            match tsig.tsigVariables with
            | .error _ => reject .formErr none
            | .ok covered =>
              if hmac.mac key (stripTsig packet offset tsig.originalId ++ covered) ≠ tsig.mac then reject .badSig none
              -- the clock last: BADTIME is reported signed
              else if absDiff now tsig.timeSigned > tsig.fudge.toNat then reject .badTime (some key)
              else .verified ⟨key, tsig.mac, false⟩

def requestMac (packet : Octets) : Option Octets :=
  match findTsig packet with
  | none => none
  | some (_, rdata, owner) => (Tsig.parseRdata owner rdata).toOption.map Tsig.mac

def reportedError (code : UInt16) : TsigError :=
  if code = 16 then .badSig
  else if code = 17 then .badKey
  else if code = 18 then .badTime
  else if code = 22 then .badTrunc
  else .formErr

def checkResponse (hmac : Hmac) (packet : Octets) (key : TsigKey) (previousMac : Octets) (first : Bool) (now : Nat) :
    Except TsigError Octets :=
  match findTsig packet with
  | none => .error .formErr
  | some (offset, rdata, owner) =>
    match Tsig.parseRdata owner rdata with
    | .error _ => .error .formErr
    | .ok tsig =>
      if tsig.error ≠ 0 then .error (reportedError tsig.error)
      else if tsig.mac.length ≠ key.algorithm.macLen then .error .badTrunc
      else
        match if first then tsig.tsigVariables else .ok tsig.timers with
        | .error _ => .error .formErr
        | .ok covered =>
          if hmac.mac key (priorMac previousMac ++ (stripTsig packet offset tsig.originalId ++ covered)) ≠ tsig.mac then
            .error .badSig
          else if absDiff now tsig.timeSigned > tsig.fudge.toNat then .error .badTime
          else .ok tsig.mac

/-! ## A record that is read back -/

section ReadBack

@[simp]
theorem length_be48 (time : Nat) : (be48 time).length = 6 := rfl

theorem ofBytes_be48 (time : Nat) : ofBytes (be48 time) = time % 2 ^ 48 := by
  simp only [ofBytes, be48, List.foldl_cons, List.foldl_nil, UInt8.toNat_ofNat']
  omega

theorem toNat_ofNat_length {octets : Octets} (h : octets.length < 65536) :
    (UInt16.ofNat octets.length).toNat = octets.length := by
  rw [UInt16.toNat_ofNat']
  omega

/-- **A record's RDATA reads back**, with the low 48 bits of its time. -/
theorem Tsig.parseRdata_rdataBytes {tsig : Tsig} {algorithm : Name} (keyName : Text)
    (halgorithm : fromPresentation tsig.algorithmName = .ok algorithm) (hmac : tsig.mac.length < 65536)
    (hother : tsig.other.length < 65536) :
    ∃ rdata, tsig.rdataBytes = .ok rdata ∧
      rdata.length = algorithm.wire.length + 16 + tsig.mac.length + tsig.other.length ∧
      Tsig.parseRdata keyName rdata = .ok { tsig with
        keyName := canonicalKeyName keyName
        algorithmName := toPresentation algorithm
        timeSigned := tsig.timeSigned % 2 ^ 48 } := by
  have hwire : nameWire tsig.algorithmName = .ok algorithm.wire := by
    rw [nameWire, halgorithm]
    rfl
  refine ⟨_, by rw [Tsig.rdataBytes, hwire], ?_, ?_⟩
  · simp only [List.length_append, length_be48, length_be16]
    omega
  · rw [Tsig.parseRdata, Name.fromWire_wire]
    dsimp only
    set tail := be16 tsig.originalId ++ (be16 tsig.error ++ (be16 (UInt16.ofNat tsig.other.length) ++ tsig.other))
      with htail
    have htail_length : tail.length = 6 + tsig.other.length := by
      rw [htail, List.length_append, List.length_append, List.length_append, length_be16, length_be16, length_be16]
      omega
    have hsize : u16At (be48 tsig.timeSigned ++ (be16 tsig.fudge ++ (be16 (UInt16.ofNat tsig.mac.length) ++
        (tsig.mac ++ tail)))) 8 = UInt16.ofNat tsig.mac.length := ofBe16_be16 _
    have hfudge : u16At (be48 tsig.timeSigned ++ (be16 tsig.fudge ++ (be16 (UInt16.ofNat tsig.mac.length) ++
        (tsig.mac ++ tail)))) 6 = tsig.fudge := ofBe16_be16 _
    have hdrop : (be48 tsig.timeSigned ++ (be16 tsig.fudge ++ (be16 (UInt16.ofNat tsig.mac.length) ++
        (tsig.mac ++ tail)))).drop 10 = tsig.mac ++ tail := rfl
    have htime : (be48 tsig.timeSigned ++ (be16 tsig.fudge ++ (be16 (UInt16.ofNat tsig.mac.length) ++
        (tsig.mac ++ tail)))).take 6 = be48 tsig.timeSigned := rfl
    have hid : u16At tail 0 = tsig.originalId := ofBe16_be16 _
    have herror : u16At tail 2 = tsig.error := ofBe16_be16 _
    have hotherLen : u16At tail 4 = UInt16.ofNat tsig.other.length := ofBe16_be16 _
    have hdrop' : tail.drop 6 = tsig.other := rfl
    rw [if_neg (by simp only [List.length_append, length_be48, length_be16]; omega), hsize, hfudge, hdrop, htime,
      toNat_ofNat_length hmac, if_neg (by rw [List.length_append]; omega), List.take_left, List.drop_left, hid, herror,
      hotherLen, hdrop', toNat_ofNat_length hother, if_neg (by omega), List.take_length, ofBytes_be48]

end ReadBack

/-! ## A record that is found again -/

structure Whole (message : Octets) : Prop where
  header : 12 ≤ message.length
  walked : sectionsEnd message (u16At message 4).toNat
    ((u16At message 6).toNat + (u16At message 8).toNat + (u16At message 10).toNat) = some message.length

section Found

variable {message : Octets}

theorem Whole.additional_le (h : Whole message) : 11 * (u16At message 10).toNat + 12 ≤ message.length := by
  have hle := le_of_sectionsEnd h.walked
  omega

def recordOctets (owner rdata : Octets) : Octets :=
  owner ++ (be16 TSIG_TYPE ++ (be16 TSIG_CLASS ++ (be32 0 ++ (be16 (UInt16.ofNat rdata.length) ++ rdata))))

def withRecord (message owner rdata : Octets) : Octets :=
  setU16 message 10 (UInt16.ofNat ((u16At message 10).toNat + 1)) ++ recordOctets owner rdata

theorem length_recordOctets (owner rdata : Octets) :
    (recordOctets owner rdata).length = owner.length + 10 + rdata.length := by
  simp only [recordOctets, List.length_append, length_be16, length_be32]
  omega

theorem length_withRecord (h : 12 ≤ message.length) (owner rdata : Octets) :
    (withRecord message owner rdata).length = message.length + owner.length + 10 + rdata.length := by
  rw [withRecord, List.length_append, length_setU16 _ (by omega), length_recordOctets]
  omega

variable {rdata : Octets}

theorem appendTsig_ok (h : Whole message) {tsig : Tsig} {owner : Octets}
    (hrdata : tsig.rdataBytes = .ok rdata) (howner : nameWire tsig.keyName = .ok owner)
    (hsize : message.length + owner.length + 10 + rdata.length ≤ 65535) :
    appendTsig message tsig = .ok (withRecord message owner rdata) := by
  have hlength := length_withRecord h.header owner rdata
  have hadditional := h.additional_le
  have hheader := h.header
  have hcount : u16At (message ++ recordOctets owner rdata) 10 = u16At message 10 :=
    u16At_congr fun at_ hge hlt => List.getElem?_append_left (by omega)
  have hset := setU16_append (UInt16.ofNat ((u16At message 10).toNat + 1)) (recordOctets owner rdata)
    (show 10 + 2 ≤ message.length from hheader)
  rw [appendTsig, hrdata]
  dsimp only
  rw [howner]
  dsimp only
  rw [← recordOctets, hcount, if_neg (by omega), hset, ← withRecord, if_neg (by omega)]

theorem u16At_withRecord (h : 12 ≤ message.length) (owner rdata : Octets) {pos : Nat} (hpos : pos + 2 ≤ 10) :
    u16At (withRecord message owner rdata) pos = u16At message pos := by
  refine u16At_congr fun at_ hge hlt => ?_
  rw [withRecord, List.getElem?_append_left (by rw [length_setU16 _ (by omega)]; omega),
    getElem?_setU16_of_lt (by omega) (by omega)]

theorem u16At_withRecord_ten (h : 12 ≤ message.length) (owner rdata : Octets) :
    u16At (withRecord message owner rdata) 10 = UInt16.ofNat ((u16At message 10).toNat + 1) := by
  have hset : u16At (setU16 message 10 (UInt16.ofNat ((u16At message 10).toNat + 1))) 10 =
      UInt16.ofNat ((u16At message 10).toNat + 1) := u16At_setU16 _ (by omega)
  rw [← hset]
  exact u16At_congr fun at_ hge hlt => List.getElem?_append_left (by rw [length_setU16 _ (by omega)]; omega)

theorem sectionsEnd_withRecord (h : Whole message) (hsize : message.length ≤ 65535) (owner rdata : Octets) :
    sectionsEnd (withRecord message owner rdata) (u16At (withRecord message owner rdata) 4).toNat
      (recordsBefore (withRecord message owner rdata)) = some message.length := by
  have hheader := h.header
  have hadditional := h.additional_le
  have hcount : (UInt16.ofNat ((u16At message 10).toNat + 1)).toNat = (u16At message 10).toNat + 1 := by
    rw [UInt16.toNat_ofNat']
    omega
  rw [recordsBefore, u16At_withRecord hheader owner rdata (by omega), u16At_withRecord hheader owner rdata (by omega),
    u16At_withRecord hheader owner rdata (by omega), u16At_withRecord_ten hheader, hcount, ← Nat.add_assoc,
    Nat.add_sub_cancel]
  refine sectionsEnd_congr h.walked fun at_ hge hlt => ?_
  rw [withRecord, List.getElem?_append_left (by rw [length_setU16 _ (by omega)]; omega),
    getElem?_setU16_of_le (by omega) (by omega)]

/-- **The record that was appended is the one that is found.** -/
theorem findTsig_withRecord (h : Whole message) (owner : Name)
    (hsize : message.length + owner.wire.length + 10 + rdata.length ≤ 65535) :
    findTsig (withRecord message owner.wire rdata) = some (message.length, rdata, toPresentation owner) := by
  have hheader := h.header
  have hlength := length_withRecord hheader owner.wire rdata
  have hadditional := h.additional_le
  have hhead : (setU16 message 10 (UInt16.ofNat ((u16At message 10).toNat + 1))).length = message.length :=
    length_setU16 _ (by omega)
  have hcount : (UInt16.ofNat ((u16At message 10).toNat + 1)).toNat = (u16At message 10).toNat + 1 := by
    rw [UInt16.toNat_ofNat']
    omega
  set packet := withRecord message owner.wire rdata with hpacket
  set front := setU16 message 10 (UInt16.ofNat ((u16At message 10).toNat + 1)) with hfront
  set fixed := be16 TSIG_TYPE ++ (be16 TSIG_CLASS ++ (be32 0 ++ (be16 (UInt16.ofNat rdata.length) ++ rdata)))
    with hfixed
  have hwhole : packet = front ++ (owner.wire ++ fixed) := rfl
  have hskip : skipName packet message.length = some (message.length + owner.wire.length) := by
    rw [hwhole, ← hhead]
    exact skipName_wireOf owner.labels_ok front fixed
  have hword : ∀ shift : Nat, u16At packet (message.length + owner.wire.length + shift) = u16At fixed shift := by
    intro shift
    have hshift := u16At_append (front ++ owner.wire) fixed shift
    rwa [List.append_assoc, List.length_append, hhead, ← hwhole] at hshift
  have htype : u16At packet (message.length + owner.wire.length) = TSIG_TYPE := (hword 0).trans (ofBe16_be16 TSIG_TYPE)
  have hrdlen : u16At packet (message.length + owner.wire.length + 8) = UInt16.ofNat rdata.length :=
    (hword 8).trans (ofBe16_be16 _)
  have howner : Name.fromWireIn packet (packet.drop message.length) = .ok (owner, fixed) := by
    have hdrop : packet.drop message.length = owner.wire ++ fixed := by
      rw [hwhole, ← hhead, List.drop_left]
    rw [hdrop, Name.fromWireIn_wire]
  have hrdata : packet.drop (message.length + owner.wire.length + 10) = rdata := by
    have hdrop : packet.drop (message.length + owner.wire.length) = fixed := by
      rw [hwhole, ← List.append_assoc, ← hhead, ← List.length_append, List.drop_left]
    rw [← List.drop_drop, hdrop]
    rfl
  rw [findTsig, if_neg (by omega), u16At_withRecord_ten hheader, hcount, if_neg (by omega),
    sectionsEnd_withRecord h (by omega)]
  dsimp only
  rw [hskip]
  dsimp only
  rw [if_neg (by omega), htype, if_neg (not_not.mpr rfl), howner]
  dsimp only
  rw [hrdlen, toNat_ofNat_length (by omega), if_neg (by omega), hrdata, List.take_length]

/-- **Without the record the message is what it was.** -/
theorem stripTsig_withRecord (h : Whole message) (hsize : message.length ≤ 65535) (owner rdata : Octets) :
    stripTsig (withRecord message owner rdata) message.length (u16At message 0) = message := by
  have hheader := h.header
  have hadditional := h.additional_le
  have hhead : (setU16 message 10 (UInt16.ofNat ((u16At message 10).toNat + 1))).length = message.length :=
    length_setU16 _ (by omega)
  have hcount : (UInt16.ofNat ((u16At message 10).toNat + 1)).toNat = (u16At message 10).toNat + 1 := by
    rw [UInt16.toNat_ofNat']
    omega
  have htake : (withRecord message owner rdata).take message.length =
      setU16 message 10 (UInt16.ofNat ((u16At message 10).toNat + 1)) := by
    rw [withRecord, ← hhead, List.take_left]
  have hid : u16At (setU16 message 10 (UInt16.ofNat ((u16At message 10).toNat + 1))) 0 = u16At message 0 :=
    u16At_congr fun at_ hge hlt => getElem?_setU16_of_lt (by omega) (by omega)
  have hsame : setU16 (setU16 message 10 (UInt16.ofNat ((u16At message 10).toNat + 1))) 0 (u16At message 0) =
      setU16 message 10 (UInt16.ofNat ((u16At message 10).toNat + 1)) := by
    rw [← hid]
    exact setU16_u16At (by omega)
  rw [stripTsig, htake, hsame, u16At_setU16 _ (by omega), hcount, Nat.add_sub_cancel, setU16_setU16 _ _ (by omega), UInt16.ofNat_toNat,
    setU16_u16At (by omega)]

theorem Whole.eq_of_append {other after after' : Octets} (h : Whole message) (h' : Whole other)
    (hsame : message ++ after = other ++ after') : message = other := by
  have hheader := h.header
  have hheader' := h'.header
  have hfront : ∀ {at_ : Nat}, at_ < message.length → (message ++ after)[at_]? = message[at_]? :=
    fun hlt => List.getElem?_append_left hlt
  have hfront' : ∀ {at_ : Nat}, at_ < other.length → (message ++ after)[at_]? = other[at_]? := by
    intro at_ hlt
    rw [hsame, List.getElem?_append_left hlt]
  have hword : ∀ {pos : Nat}, pos + 2 ≤ 12 → u16At message pos = u16At other pos := by
    intro pos hpos
    refine u16At_congr fun at_ hge hlt => ?_
    rw [← hfront (by omega), ← hfront' (by omega)]
  have hwalked := sectionsEnd_congr h.walked fun at_ hge hlt => hfront hlt
  have hwalked' := sectionsEnd_congr h'.walked fun at_ hge hlt => hfront' hlt
  rw [hword (by omega), hword (by omega), hword (by omega), hword (by omega), hwalked'] at hwalked
  have hlength : other.length = message.length := Option.some.inj hwalked
  exact (List.append_inj hsame hlength.symm).1

theorem whole_stripTsig {packet : Octets} {start : Nat} {owner : Text} (id : UInt16)
    (h : findTsig packet = some (start, rdata, owner)) : Whole (stripTsig packet start id) := by
  rw [findTsig] at h
  split at h
  · cases h
  split at h
  · cases h
  next hheader hcount =>
  split at h
  · cases h
  next found hfound =>
  split at h
  · cases h
  next afterName hname =>
  split at h
  · cases h
  next hroom =>
  split at h
  · cases h
  split at h
  · cases h
  dsimp only at h
  split at h
  · cases h
  cases h
  have hle := le_of_sectionsEnd hfound
  have hlt := lt_of_skipName hname
  have htake : (packet.take start).length = start := by
    rw [List.length_take]
    omega
  set out := setU16 (packet.take start) 0 id with hout
  have hlength : out.length = start := by
    rw [hout, length_setU16 _ (by omega), htake]
  have hstrip : stripTsig packet start id = setU16 out 10 (UInt16.ofNat ((u16At out 10).toNat - 1)) := rfl
  have hout_get : ∀ {at_ : Nat}, 2 ≤ at_ → at_ < start → out[at_]? = packet[at_]? := by
    intro at_ hge hlt
    rw [hout, getElem?_setU16_of_le (by omega) (by omega), List.getElem?_take_of_lt hlt]
  have hten : u16At out 10 = u16At packet 10 := u16At_congr fun at_ hge hlt => hout_get (by omega) (by omega)
  have hless : (UInt16.ofNat ((u16At packet 10).toNat - 1)).toNat = (u16At packet 10).toNat - 1 := by
    have := (u16At packet 10).toNat_lt
    rw [UInt16.toNat_ofNat']
    omega
  have hword : ∀ {pos : Nat}, 2 ≤ pos → pos + 2 ≤ 10 → u16At (stripTsig packet start id) pos = u16At packet pos := by
    intro pos hge hpos
    refine u16At_congr fun at_ hat hlt => ?_
    rw [hstrip, getElem?_setU16_of_lt (by omega) (by omega), hout_get (by omega) (by omega)]
  have hlast : u16At (stripTsig packet start id) 10 = UInt16.ofNat ((u16At packet 10).toNat - 1) := by
    rw [hstrip, u16At_setU16 _ (by omega), hten]
  have hwhole : (stripTsig packet start id).length = start := by
    rw [hstrip, length_setU16 _ (by omega), hlength]
  refine ⟨by omega, ?_⟩
  rw [hwhole, hword (by omega) (by omega), hword (by omega) (by omega), hword (by omega) (by omega), hlast, hless,
    ← Nat.add_sub_assoc (by omega)]
  refine sectionsEnd_congr hfound fun at_ hge hlt => ?_
  rw [hstrip, getElem?_setU16_of_le (by omega) (by omega), hout_get (by omega) hlt]

end Found

end Rdns.Auth
