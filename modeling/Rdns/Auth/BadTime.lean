import Rdns.Auth.Spelling

/-!
# Rdns — The reply to a clock that is off

A request whose MAC verifies and whose time does not is answered with a signed BADTIME:
`TsigRejection::attach` in `rdns-tsig/src/tsig.rs`. It digests the reply and the record, and puts the
server's own time in the record. The client of the source reports the error before it looks at the
MAC, so how the reply would verify is `checkFirst`: `check_response` for a first message, without that.
-/

namespace Rdns.Auth

open Rdns.Lib Rdns.Core Rdns.Present

/-! ## The reply -/

def TsigError.code : TsigError → UInt16
  | .badSig => 16
  | .badKey => 17
  | .badTime => 18
  | .badTrunc => 22
  | .formErr => 0

def TsigRejection.attach (hmac : Hmac) (rejection : TsigRejection) (response : Octets) (now : Nat) :
    Except SignError Octets :=
  let tsig : Tsig := ⟨rejection.keyName, rejection.algorithmName, now, DEFAULT_FUDGE, [], rejection.originalId,
    rejection.error.code, if rejection.error = .badTime then be48 now else []⟩
  match rejection.key with
  | none => appendTsig response tsig
  | some key =>
    match tsig.tsigVariables with
    | .error e => .error e
    | .ok covered => appendTsig response { tsig with mac := hmac.mac key (response ++ covered) }

/-- `check_response` of a first message, with the MAC and the clock looked at whatever the error. -/
def checkFirst (hmac : Hmac) (packet : Octets) (key : TsigKey) (requestMac : Octets) (now : Nat) :
    Except TsigError Octets :=
  match findTsig packet with
  | none => .error .formErr
  | some (offset, rdata, owner) =>
    match Tsig.parseRdata owner rdata with
    | .error _ => .error .formErr
    | .ok tsig =>
      if tsig.mac.length ≠ key.algorithm.macLen then .error .badTrunc
      else
        match tsig.tsigVariables with
        | .error _ => .error .formErr
        | .ok covered =>
          if hmac.mac key (priorMac requestMac ++ (stripTsig packet offset tsig.originalId ++ covered)) ≠ tsig.mac then
            .error .badSig
          else if absDiff now tsig.timeSigned > tsig.fudge.toNat then .error .badTime
          else .ok tsig.mac

section BadTime

variable {hmac : Hmac} {keyring : TsigKeyring} {rejection : TsigRejection} {packet response reply : Octets} {now : Nat}

theorem of_checkRequest_badTime (h : checkRequest hmac packet keyring now = .rejected rejection)
    (herror : rejection.error = .badTime) :
    ∃ owner algorithm key, rejection.keyName = toPresentation owner ∧ owner.toFolded = owner ∧
      rejection.algorithmName = toPresentation algorithm ∧ rejection.key = some key := by
  rw [checkRequest] at h
  split at h
  · cases h
  next offset rdata owner hfound =>
  split at h
  · cases h
    cases herror
  next tsig hparse =>
  dsimp only at h
  split at h
  · cases h
    cases herror
  split at h
  · cases h
    cases herror
  next key hkey =>
  split at h
  · cases h
    cases herror
  split at h
  · cases h
    cases herror
  split at h
  · cases h
    cases herror
  split at h
  · cases h
    obtain ⟨name, rfl⟩ : ∃ name, owner = toPresentation name := by
      rw [findTsig] at hfound
      split at hfound
      · cases hfound
      split at hfound
      · cases hfound
      split at hfound
      · cases hfound
      split at hfound
      · cases hfound
      split at hfound
      · cases hfound
      split at hfound
      · cases hfound
      split at hfound
      · cases hfound
      next name _ _ =>
        dsimp only at hfound
        split at hfound
        · cases hfound
        · cases hfound
          exact ⟨name, rfl⟩
    rw [Tsig.parseRdata] at hparse
    split at hparse
    · cases hparse
    next algorithm rest _ =>
      split at hparse
      · cases hparse
      dsimp only at hparse
      split at hparse
      · cases hparse
      split at hparse
      · cases hparse
      cases hparse
      exact ⟨name.toFolded, algorithm, key, canonicalKeyName_toPresentation name, Name.toFolded_toFolded name, rfl, rfl⟩
  · cases h

theorem of_appendTsig {tsig : Tsig} (h : Whole response) (happend : appendTsig response tsig = .ok reply) :
    ∃ owner rdata, nameWire tsig.keyName = .ok owner ∧ tsig.rdataBytes = .ok rdata ∧
      response.length + owner.length + 10 + rdata.length ≤ 65535 ∧ reply = withRecord response owner rdata := by
  have happend' := happend
  rw [appendTsig] at happend
  split at happend
  · cases happend
  next rdata hrdata =>
  split at happend
  · cases happend
  next owner howner =>
  dsimp only at happend
  split at happend
  · cases happend
  split at happend
  · cases happend
  next hsize =>
  have hheader := h.header
  rw [← recordOctets, length_setU16 _ (by rw [List.length_append]; omega), List.length_append, length_recordOctets]
    at hsize
  refine ⟨owner, rdata, howner, hrdata, by omega, ?_⟩
  rw [appendTsig_ok h hrdata howner (by omega)] at happend'
  exact (Except.ok.inj happend').symm

def badTimeRecord (owner algorithm : Name) (originalId : UInt16) (now : Nat) : WireTsig :=
  ⟨owner, algorithm, now % 2 ^ 48, DEFAULT_FUDGE, originalId, TsigError.badTime.code, be48 now⟩

/-- **The record of the reply, as its reader finds it**: with the server's time, and the MAC of the
reply and the record alone. -/
theorem attach_reads {owner algorithm : Name} {key : TsigKey} (hwhole : Whole response)
    (herror : rejection.error = .badTime) (hname : rejection.keyName = toPresentation owner)
    (hfolded : owner.toFolded = owner) (halgorithm : rejection.algorithmName = toPresentation algorithm)
    (hkey : rejection.key = some key) (hreply : rejection.attach hmac response now = .ok reply) :
    let w := badTimeRecord owner algorithm rejection.originalId now
    let mac := hmac.mac key (response ++ w.covers algorithm)
    reply = withRecord response owner.wire (w.rdata mac) ∧
      response.length + owner.wire.length + 10 + (w.rdata mac).length ≤ 65535 := by
  intro w mac
  have hcovers : ∀ mac, Tsig.tsigVariables ⟨toPresentation owner, toPresentation algorithm, now, DEFAULT_FUDGE, mac,
      rejection.originalId, TsigError.badTime.code, be48 now⟩ = .ok (w.covers algorithm) := by
    intro mac
    have htime : be48 w.timeSigned = be48 now := be48_mod now
    rw [Tsig.tsigVariables, nameWire_of_ok (fromPresentation_toPresentation owner)]
    dsimp only
    rw [nameWire_of_ok (fromPresentation_toPresentation algorithm), WireTsig.covers, htime]
    show _ = Except.ok (owner.toFolded.wire ++ _)
    rw [hfolded]
    rfl
  rw [TsigRejection.attach, herror, hname, halgorithm, hkey, if_pos rfl] at hreply
  dsimp only at hreply
  rw [hcovers] at hreply
  dsimp only at hreply
  obtain ⟨written, rdata, howner, hrdata, hsize, hsame⟩ := of_appendTsig hwhole hreply
  dsimp only at howner hrdata
  obtain rfl := Except.ok.inj ((nameWire_of_ok (fromPresentation_toPresentation owner)).symm.trans howner)
  have htime : be48 w.timeSigned = be48 now := be48_mod now
  have hwritten : w.rdata mac = rdata := by
    rw [Tsig.rdataBytes, nameWire_of_ok (fromPresentation_toPresentation algorithm)] at hrdata
    rw [← Except.ok.inj hrdata, WireTsig.rdata, htime]
    rfl
  rw [hwritten]
  exact ⟨hsame, hsize⟩

/-- **A BADTIME never verifies** under the MAC of its request within the fudge of a client's clock that
the server's is more than the fudge away from; unless the server's clock is past what the field holds,
and its low 48 bits near the client's, and the MACs with and without the request's are the same. -/
theorem badTime_verifies_iff {hmac : Hmac} {keyring : TsigKeyring} {key serverKey : TsigKey}
    {rejection : TsigRejection} {signed response reply requestMac : Octets} {client server : Nat}
    (hrejected : checkRequest hmac signed keyring server = .rejected rejection) (herror : rejection.error = .badTime)
    (hkey : rejection.key = some serverKey) (haway : absDiff server client > DEFAULT_FUDGE.toNat)
    (hwhole : Whole response) (hreply : rejection.attach hmac response server = .ok reply) :
    ((∃ mac, checkFirst hmac reply key requestMac client = .ok mac) ↔
      absDiff client (server % 2 ^ 48) ≤ DEFAULT_FUDGE.toNat ∧
      ∃ owner algorithm, rejection.keyName = toPresentation owner ∧ rejection.algorithmName = toPresentation algorithm ∧
        let covered := (badTimeRecord owner algorithm rejection.originalId server).covers algorithm
        hmac.mac key (priorMac requestMac ++ (setU16 response 0 rejection.originalId ++ covered)) =
          hmac.mac serverKey (response ++ covered)) ∧
    (server < 2 ^ 48 → ∀ mac, checkFirst hmac reply key requestMac client ≠ .ok mac) := by
  obtain ⟨owner, algorithm, found, hname, hfolded, halgorithm, hfound⟩ := of_checkRequest_badTime hrejected herror
  obtain rfl := Option.some.inj (hfound.symm.trans hkey)
  obtain ⟨rfl, hsize⟩ := attach_reads hwhole herror hname hfolded halgorithm hkey hreply
  set w := badTimeRecord owner algorithm rejection.originalId server with hw
  set mac := hmac.mac found (response ++ w.covers algorithm) with hmacDef
  have hmacLen : mac.length = found.algorithm.macLen := hmac.length_mac found _
  have hparse : Tsig.parseRdata (toPresentation owner) (w.rdata mac) = .ok ⟨toPresentation owner, toPresentation algorithm,
      server % 2 ^ 48, DEFAULT_FUDGE, mac, rejection.originalId, TsigError.badTime.code, be48 server⟩ := by
    have hlen : mac.length < 65536 := by
      rw [hmacLen]
      cases found.algorithm <;> decide
    have htime : w.timeSigned < 2 ^ 48 := Nat.mod_lt _ (by decide)
    have hother : (be48 server).length < 65536 := by
      rw [length_be48]
      decide
    have hread := parseRdata_rdata htime hother hlen
    rw [show w.owner.toFolded = owner from hfolded] at hread
    exact hread
  have hcovered : Tsig.tsigVariables ⟨toPresentation owner, toPresentation algorithm, server % 2 ^ 48, DEFAULT_FUDGE, mac,
      rejection.originalId, TsigError.badTime.code, be48 server⟩ = .ok (w.covers algorithm) := by
    rw [Tsig.tsigVariables, nameWire_of_ok (fromPresentation_toPresentation owner)]
    dsimp only
    rw [nameWire_of_ok (fromPresentation_toPresentation algorithm), WireTsig.covers]
    show _ = Except.ok (owner.toFolded.wire ++ _)
    rw [hfolded]
    rfl
  have hcheck : checkFirst hmac (withRecord response owner.wire (w.rdata mac)) key requestMac client =
      if mac.length ≠ key.algorithm.macLen then .error .badTrunc
      else if hmac.mac key (priorMac requestMac ++ (setU16 response 0 rejection.originalId ++ w.covers algorithm)) ≠ mac then
        .error .badSig
      else if absDiff client (server % 2 ^ 48) > DEFAULT_FUDGE.toNat then .error .badTime
      else .ok mac := by
    rw [checkFirst, findTsig_withRecord hwhole owner hsize]
    dsimp only
    rw [hparse]
    dsimp only
    rw [hcovered, stripTsig_id hwhole (by omega)]
  have hiff : (∃ verified, checkFirst hmac (withRecord response owner.wire (w.rdata mac)) key requestMac client =
      .ok verified) ↔ absDiff client (server % 2 ^ 48) ≤ DEFAULT_FUDGE.toNat ∧
        hmac.mac key (priorMac requestMac ++ (setU16 response 0 rejection.originalId ++ w.covers algorithm)) = mac := by
    rw [hcheck]
    constructor
    · rintro ⟨verified, hverified⟩
      split at hverified
      · cases hverified
      split at hverified
      · cases hverified
      next hsame =>
      split at hverified
      · cases hverified
      next htime => exact ⟨Nat.not_lt.mp htime, not_not.mp hsame⟩
    · rintro ⟨htime, hsame⟩
      have hlen : mac.length = key.algorithm.macLen := by
        rw [← hsame]
        exact hmac.length_mac key _
      rw [if_neg (not_not.mpr hlen), if_neg (not_not.mpr hsame), if_neg (Nat.not_lt.mpr htime)]
      exact ⟨mac, rfl⟩
  refine ⟨hiff.trans (and_congr_right fun _ => ⟨fun hsame => ⟨owner, algorithm, hname, halgorithm, hsame⟩, ?_⟩),
    fun hclock verified hverified => ?_⟩
  · rintro ⟨owner', algorithm', hname', halgorithm', hsame⟩
    obtain rfl := toPresentation_injective (hname.symm.trans hname')
    obtain rfl := toPresentation_injective (halgorithm.symm.trans halgorithm')
    exact hsame
  · have htime := (hiff.mp ⟨verified, hverified⟩).1
    rw [Nat.mod_eq_of_lt hclock, absDiff, Nat.max_comm, Nat.min_comm, ← absDiff] at htime
    omega

end BadTime

/-! ## What a signature adds -/

def TsigSession.replyOverhead (session : TsigSession) : Nat :=
  tsigRecordLen session.key.name session.key.algorithm.wireName session.key.algorithm.macLen 0

def TsigRejection.replyOverhead (rejection : TsigRejection) : Nat :=
  tsigRecordLen rejection.keyName rejection.algorithmName (rejection.key.elim 0 (·.algorithm.macLen))
    (if rejection.error = .badTime then 6 else 0)

theorem length_appendTsig {message reply : Octets} {tsig : Tsig} (h : appendTsig message tsig = .ok reply)
    (hheader : 12 ≤ message.length) :
    reply.length = message.length + tsigRecordLen tsig.keyName tsig.algorithmName tsig.mac.length tsig.other.length := by
  rw [appendTsig, Tsig.rdataBytes] at h
  cases halgorithm : nameWire tsig.algorithmName with
  | error e =>
    rw [halgorithm] at h
    cases h
  | ok algorithm =>
    cases howner : nameWire tsig.keyName with
    | error e =>
      rw [halgorithm, howner] at h
      cases h
    | ok owner =>
      rw [halgorithm, howner] at h
      dsimp only at h
      split at h
      · cases h
      · split at h
        · cases h
        · rw [← Except.ok.inj h, length_setU16 _ (by rw [List.length_append]; omega), tsigRecordLen]
          dsimp only
          rw [halgorithm, howner]
          simp only [List.length_append, length_be16, length_be32, length_be48]
          show _ = message.length + (owner.length + 10 + algorithm.length + 16 + tsig.mac.length + tsig.other.length)
          omega

/-- **A reply's TSIG is as long as it was said to be**, signed or attached to a refusal, so that
what was left of the reply for it is what it takes. -/
theorem reply_overhead_exact (hmac : Hmac) (response : Octets) (now : Nat) :
    (∀ (session : TsigSession) (signed : Octets), (session.sign hmac response now).2 = .ok signed →
      signed.length = response.length + session.replyOverhead) ∧
    ∀ (rejection : TsigRejection) (reply : Octets), 12 ≤ response.length →
      rejection.attach hmac response now = .ok reply → reply.length = response.length + rejection.replyOverhead := by
  constructor
  · intro session signed hsigned
    rw [TsigSession.sign] at hsigned
    split at hsigned
    · cases hsigned
    · rename_i hheader
      dsimp only at hsigned
      split at hsigned
      · cases hsigned
      · have hlength := length_appendTsig hsigned (by omega)
        rw [hlength, hmac.length_mac]
        rfl
  · intro rejection reply hheader hreply
    have hother : (if rejection.error = .badTime then be48 now else []).length
        = if rejection.error = .badTime then 6 else 0 := by split <;> rfl
    rw [TsigRejection.attach] at hreply
    rw [TsigRejection.replyOverhead, ← hother]
    cases hkey : rejection.key with
    | none =>
      rw [hkey] at hreply
      exact length_appendTsig hreply hheader
    | some key =>
      rw [hkey] at hreply
      dsimp only at hreply
      split at hreply
      · cases hreply
      · have hlength := length_appendTsig hreply hheader
        rw [hlength, hmac.length_mac]
        rfl

section Example

/-- A request of `axfr.`, signed at 1700000000 and read at 1700001000. -/
def lateHmac : Hmac := spelledHmac "axfr." "hmac-sha256."

def lateRequest : WireTsig := spelled "axfr." "hmac-sha256."

def lateRejection : TsigRejection :=
  ⟨.badTime, toPresentation (nameOf "axfr.").toFolded, toPresentation (nameOf "hmac-sha256."), 4660, some axfrKey⟩

theorem late_rejected :
    checkRequest lateHmac (lateRequest.packet lateHmac axfrKey axfrRequest) ⟨[axfrKey]⟩ 1700001000 = .rejected lateRejection := by
  have hget : TsigKeyring.get ⟨[axfrKey]⟩ (toPresentation (nameOf "axfr.").toFolded) axfrKey.algorithm = some axfrKey := by
    decide +kernel
  have hnames : lateRequest.Names axfrKey (nameOf "axfr.") axfrRequest :=
    names_spelled (by decide +kernel) (by decide +kernel) (by decide +kernel)
  rw [checkRequest_packet hnames, hget]
  dsimp only
  rw [if_neg (by decide +kernel), if_pos (by decide)]
  rfl

theorem late_replied : (lateRejection.attach lateHmac axfrAnswer 1700001000).toOption.isSome = true := by decide +kernel

theorem reply_overhead_exact_late :
    ∃ reply, lateRejection.attach lateHmac axfrAnswer 1700001000 = .ok reply ∧
      reply.length = axfrAnswer.length + lateRejection.replyOverhead := by
  have hreplied := late_replied
  cases hreply : lateRejection.attach lateHmac axfrAnswer 1700001000 with
  | error e =>
    rw [hreply] at hreplied
    cases hreplied
  | ok reply => exact ⟨reply, rfl, (reply_overhead_exact lateHmac axfrAnswer 1700001000).2 _ _ (by decide) hreply⟩

theorem badTime_verifies_iff_late :
    ∃ reply, lateRejection.attach lateHmac axfrAnswer 1700001000 = .ok reply ∧
      ∀ mac, checkFirst lateHmac reply axfrKey (lateRequest.mac lateHmac axfrKey axfrRequest) 1700000000 ≠ .ok mac := by
  have hreplied := late_replied
  cases hreply : lateRejection.attach lateHmac axfrAnswer 1700001000 with
  | error e =>
    rw [hreply] at hreplied
    cases hreplied
  | ok reply =>
    exact ⟨reply, rfl, (badTime_verifies_iff late_rejected rfl rfl (by decide)
      (whole_axfr axfrAnswer (by decide)) hreply).2 (by decide)⟩

theorem late_not_verified :
    checkRequest lateHmac (lateRequest.packet lateHmac axfrKey axfrRequest) ⟨[axfrKey]⟩ 1700001000 = .rejected lateRejection ∧
      ((lateRejection.attach lateHmac axfrAnswer 1700001000).toOption.map fun reply =>
        (checkFirst lateHmac reply axfrKey (lateRequest.mac lateHmac axfrKey axfrRequest) 1700000000).toOption) = some none :=
  ⟨late_rejected, by decide +kernel⟩

end Example

end Rdns.Auth
