import Rdns.Auth.Tsig
import Rdns.Lib.Succession

/-!
# Rdns — TSIG sessions

A signed request and the messages of its answer, a transfer's envelopes: each is signed over the MAC
of the one before, and the two sides keep that MAC and whether it was the first each for itself.

A key is known by its name as text, lower-cased as text, but looked up by the name that the record
holds as it presents: what a client may sign with, the server may not find.
-/

namespace Rdns.Auth

open Rdns.Lib Rdns.Core Rdns.Present

/-! ## The two sides -/

structure Envelope where
  message : Octets
  signedAt : Nat
  checkedAt : Nat

def TsigSession.signAll (hmac : Hmac) : TsigSession → List Envelope → List (Except SignError Octets)
  | _, [] => []
  | session, envelope :: rest =>
    let (next, packet) := session.sign hmac envelope.message envelope.signedAt
    packet :: next.signAll hmac rest

structure Receiver where
  key : TsigKey
  previousMac : Octets
  first : Bool

def Receiver.check (hmac : Hmac) (receiver : Receiver) (packet : Octets) (now : Nat) : Option Receiver :=
  match checkResponse hmac packet receiver.key receiver.previousMac receiver.first now with
  | .error _ => none
  | .ok mac => some ⟨receiver.key, mac, false⟩

def Receiver.AcceptsAll (hmac : Hmac) : Receiver → List (Octets × Nat) → Prop
  | _, [] => True
  | receiver, (packet, now) :: rest =>
    ∃ next, receiver.check hmac packet now = some next ∧ next.AcceptsAll hmac rest

def body (packet : Octets) : Octets :=
  match findTsig packet with
  | none => packet
  | some (offset, rdata, owner) =>
    match Tsig.parseRdata owner rdata with
    | .error _ => packet
    | .ok tsig => stripTsig packet offset tsig.originalId

def Receiver.receive (hmac : Hmac) : Receiver → List (Octets × Nat) → List (Octets × Octets)
  | _, [] => []
  | receiver, (packet, now) :: rest =>
    match receiver.check hmac packet now with
    | none => receiver.receive hmac rest
    | some next => (body packet, next.previousMac) :: next.receive hmac rest

/-! ## A transfer -/

/-- A request and the messages that answer it, with the clocks of both sides. -/
structure Transfer where
  hmac : Hmac
  keyring : TsigKeyring
  key : TsigKey
  request : Octets
  requestedAt : Nat
  verifiedAt : Nat
  envelopes : List Envelope

namespace Transfer

variable (t : Transfer)

def messages : List Octets := t.envelopes.map Envelope.message

def clocks : List Nat := t.requestedAt :: t.verifiedAt :: t.envelopes.flatMap fun e => [e.signedAt, e.checkedAt]

/-- The server knows the key, the messages are whole, the clocks agree, and no signed message is too
long. -/
structure Legal : Prop where
  known : t.keyring.get t.key.name t.key.algorithm = some t.key
  answered : t.envelopes ≠ []
  whole : ∀ message ∈ t.request :: t.messages, Whole message
  inTime : ∀ a ∈ t.clocks, ∀ b ∈ t.clocks, absDiff a b ≤ DEFAULT_FUDGE.toNat
  fits : ∀ message ∈ t.request :: t.messages,
    message.length + tsigRecordLen t.key.name t.key.algorithm.wireName t.key.algorithm.macLen 0 ≤ 65535

def Completes : Prop :=
  ∃ (signed : Octets) (session : TsigSession) (mac : Octets) (packets : List Octets),
    signRequest t.hmac t.request t.key t.requestedAt = .ok signed ∧
      checkRequest t.hmac signed t.keyring t.verifiedAt = .verified session ∧ session.key = t.key ∧
      requestMac signed = some mac ∧
      session.signAll t.hmac t.envelopes = packets.map .ok ∧
      Receiver.AcceptsAll t.hmac ⟨t.key, mac, true⟩ (packets.zip (t.envelopes.map Envelope.checkedAt))

def requestDigest : Except SignError Octets :=
  (unsignedTsig t.key t.request t.requestedAt).tsigVariables.map (t.request ++ ·)

end Transfer

def TsigSession.digest (session : TsigSession) (message : Octets) (now : Nat) : Except SignError Octets :=
  let tsig := unsignedTsig session.key message now
  (if session.firstSigned then .ok tsig.timers else tsig.tsigVariables).map fun covered =>
    priorMac session.previousMac ++ (message ++ covered)

def TsigSession.digests (hmac : Hmac) : TsigSession → List Envelope → List Octets
  | _, [] => []
  | session, envelope :: rest =>
    (session.digest envelope.message envelope.signedAt).toOption.toList ++
      (session.sign hmac envelope.message envelope.signedAt).1.digests hmac rest

namespace Transfer

variable (t : Transfer)

def digests (session : TsigSession) : List Octets :=
  t.requestDigest.toOption.toList ++ session.digests t.hmac t.envelopes

/-- The MAC of what was signed is of nothing else, and none is in the request it comes after. -/
structure Ideal (session : TsigSession) : Prop where
  injective : ∀ digest ∈ t.digests session, ∀ other, t.hmac.mac t.key other = t.hmac.mac t.key digest → other = digest
  fresh : ∀ digest ∈ t.digests session, ∀ request, t.requestDigest = .ok request →
    ¬ priorMac (t.hmac.mac t.key digest) <+: request

def Faithful : Prop :=
  ∀ signed session mac,
    signRequest t.hmac t.request t.key t.requestedAt = .ok signed →
    checkRequest t.hmac signed t.keyring t.verifiedAt = .verified session → requestMac signed = some mac →
    t.Ideal session →
    ∀ stream : List (Octets × Nat),
      (∀ accepted ∈ Receiver.receive t.hmac ⟨t.key, mac, true⟩ stream,
        ∃ digest ∈ t.digests session, accepted.2 = t.hmac.mac t.key digest) →
      (Receiver.receive t.hmac ⟨t.key, mac, true⟩ stream).map Prod.fst <+: t.messages

end Transfer

/-! ## A signed message -/

def TsigKey.NameStable (key : TsigKey) : Prop :=
  ∃ owner, fromPresentation key.name = .ok owner ∧ canonicalKeyName (toPresentation owner) = key.name

theorem exists_ok_of_map {ε α β : Type} {x : Except ε α} {f : α → β} {b : β} (h : x.toOption.map f = some b) :
    ∃ a, x = .ok a ∧ f a = b := by
  obtain ⟨a, ha, hback⟩ := Option.map_eq_some_iff.mp h
  cases x with
  | error e => cases ha
  | ok found =>
    cases ha
    exact ⟨a, rfl, hback⟩

theorem TsigAlgorithm.reads (algorithm : TsigAlgorithm) :
    ∃ name, fromPresentation algorithm.wireName = .ok name ∧ toPresentation name = algorithm.wireName := by
  have hread : ((fromPresentation algorithm.wireName).toOption.map toPresentation) = some algorithm.wireName := by
    cases algorithm <;> decide +kernel
  exact exists_ok_of_map hread

theorem TsigAlgorithm.fromName_wireName (algorithm : TsigAlgorithm) : fromName algorithm.wireName = some algorithm := by
  cases algorithm <;> decide +kernel

theorem TsigAlgorithm.macLen_ne_zero (algorithm : TsigAlgorithm) : algorithm.macLen ≠ 0 := by
  cases algorithm <;> decide

def covered (owner algorithm : Name) (now : Nat) : Bool → Octets
  | true => owner.wire ++ (be16 TSIG_CLASS ++ (be32 0 ++ (algorithm.wire ++ (be48 now ++ (be16 DEFAULT_FUDGE ++
      (be16 0 ++ (be16 0 ++ [])))))))
  | false => be48 now ++ be16 DEFAULT_FUDGE

def readTsig (key : TsigKey) (owner : Name) (message : Octets) (now : Nat) (mac : Octets) : Tsig :=
  { unsignedTsig key message now with
    keyName := canonicalKeyName (toPresentation owner)
    timeSigned := now % 2 ^ 48
    mac := mac }

theorem be48_mod (time : Nat) : be48 (time % 2 ^ 48) = be48 time := by
  have hbyte : ∀ a b : Nat, a % 256 = b % 256 → UInt8.ofNat a = UInt8.ofNat b := by
    intro a b hmod
    rw [← UInt8.toNat_inj, UInt8.toNat_ofNat', UInt8.toNat_ofNat']
    exact hmod
  rw [be48, be48, hbyte (time % 2 ^ 48 / 2 ^ 40) (time / 2 ^ 40) (by omega),
    hbyte (time % 2 ^ 48 / 2 ^ 32) (time / 2 ^ 32) (by omega), hbyte (time % 2 ^ 48 / 2 ^ 24) (time / 2 ^ 24) (by omega),
    hbyte (time % 2 ^ 48 / 2 ^ 16) (time / 2 ^ 16) (by omega), hbyte (time % 2 ^ 48 / 2 ^ 8) (time / 2 ^ 8) (by omega),
    hbyte (time % 2 ^ 48) time (by omega)]

section Signed

variable {key : TsigKey} {owner algorithm : Name} {message packet mac : Octets} {now : Nat}

theorem nameWire_of_ok {name : Text} (h : fromPresentation name = .ok owner) : nameWire name = .ok owner.wire := by
  rw [nameWire, h]
  rfl

theorem tsigVariables_unsignedTsig (howner : fromPresentation key.name = .ok owner)
    (halgorithm : fromPresentation key.algorithm.wireName = .ok algorithm) :
    (unsignedTsig key message now).tsigVariables = .ok (covered owner algorithm now true) := by
  have hkey : nameWire (unsignedTsig key message now).keyName = .ok owner.wire := nameWire_of_ok howner
  have halg : nameWire (unsignedTsig key message now).algorithmName = .ok algorithm.wire := nameWire_of_ok halgorithm
  rw [Tsig.tsigVariables, hkey]
  dsimp only
  rw [halg]
  rfl

theorem tsigVariables_readTsig (howner : fromPresentation key.name = .ok owner)
    (halgorithm : fromPresentation key.algorithm.wireName = .ok algorithm)
    (hstable : canonicalKeyName (toPresentation owner) = key.name) :
    (readTsig key owner message now mac).tsigVariables = .ok (covered owner algorithm now true) := by
  have hkey : nameWire (readTsig key owner message now mac).keyName = .ok owner.wire := by
    rw [readTsig, hstable]
    exact nameWire_of_ok howner
  have halg : nameWire (readTsig key owner message now mac).algorithmName = .ok algorithm.wire :=
    nameWire_of_ok halgorithm
  have htime : be48 (readTsig key owner message now mac).timeSigned = be48 now := be48_mod now
  rw [Tsig.tsigVariables, hkey]
  dsimp only
  rw [halg]
  dsimp only
  rw [htime]
  rfl

theorem timers_readTsig : (readTsig key owner message now mac).timers = covered owner algorithm now false := by
  have htime : be48 (readTsig key owner message now mac).timeSigned = be48 now := be48_mod now
  rw [Tsig.timers, htime]
  rfl

structure Reads (key : TsigKey) (owner : Name) (message : Octets) (now : Nat) (mac packet : Octets) : Prop where
  found : ∃ rdata, findTsig packet = some (message.length, rdata, toPresentation owner) ∧
    Tsig.parseRdata (toPresentation owner) rdata = .ok (readTsig key owner message now mac)
  body : stripTsig packet message.length (u16At message 0) = message

/-- **What is appended reads back.** -/
theorem exists_reads (now : Nat) (hwhole : Whole message) (howner : fromPresentation key.name = .ok owner)
    (hmac : mac.length = key.algorithm.macLen)
    (hfits : message.length + tsigRecordLen key.name key.algorithm.wireName key.algorithm.macLen 0 ≤ 65535) :
    ∃ packet, appendTsig message { unsignedTsig key message now with mac := mac } = .ok packet ∧
      Reads key owner message now mac packet := by
  obtain ⟨algorithm, halgorithm, hback⟩ := key.algorithm.reads
  have hlen : mac.length < 65536 := by
    rw [hmac]
    cases key.algorithm <;> decide
  obtain ⟨rdata, hrdata, hlength, hparse⟩ : ∃ rdata, Tsig.rdataBytes { unsignedTsig key message now with mac := mac } = .ok rdata ∧ _ :=
    Tsig.parseRdata_rdataBytes (toPresentation owner) halgorithm hlen (by decide : 0 < 65536)
  have hname := nameWire_of_ok howner
  rw [tsigRecordLen] at hfits
  dsimp only at hfits
  rw [hname, nameWire_of_ok halgorithm] at hfits
  have hsize : message.length + owner.wire.length + 10 + rdata.length ≤ 65535 := by
    simp only [Except.toOption, Option.map_some, Option.getD_some] at hfits
    have hrest : rdata.length = algorithm.wire.length + 16 + mac.length + 0 := hlength
    omega
  refine ⟨_, appendTsig_ok hwhole hrdata hname hsize, ⟨rdata, findTsig_withRecord hwhole owner hsize, ?_⟩,
    stripTsig_withRecord hwhole (by omega) owner.wire rdata⟩
  · rw [hparse, hback]
    rfl

variable {hmac : Hmac}

theorem checkResponse_of_reads (h : Reads key owner message now mac packet)
    (hmac_length : mac.length = key.algorithm.macLen)
    (howner : fromPresentation key.name = .ok owner)
    (halgorithm : fromPresentation key.algorithm.wireName = .ok algorithm)
    (hstable : canonicalKeyName (toPresentation owner) = key.name) (previousMac : Octets)
    (first : Bool) (checkedAt : Nat)
    (hsigned : mac = hmac.mac key (priorMac previousMac ++ (message ++ covered owner algorithm now first))) :
    checkResponse hmac packet key previousMac first checkedAt =
      if absDiff checkedAt (now % 2 ^ 48) > DEFAULT_FUDGE.toNat then .error .badTime else .ok mac := by
  obtain ⟨rdata, hfound, hparse⟩ := h.found
  have hcovered : (if first = true then (readTsig key owner message now mac).tsigVariables
      else .ok (readTsig key owner message now mac).timers) = .ok (covered owner algorithm now first) := by
    cases first with
    | true => exact tsigVariables_readTsig howner halgorithm hstable
    | false => exact congrArg Except.ok timers_readTsig
  have hbody : stripTsig packet message.length (readTsig key owner message now mac).originalId = message := h.body
  rw [checkResponse, hfound]
  dsimp only
  rw [hparse]
  dsimp only
  rw [if_neg (fun hne => hne rfl), if_neg (fun hne => hne hmac_length), hcovered]
  dsimp only
  rw [hbody, ← hsigned, if_neg (fun hne => hne rfl)]
  rfl

theorem checkRequest_of_reads {keyring : TsigKeyring} (h : Reads key owner message now mac packet)
    (hmac_length : mac.length = key.algorithm.macLen)
    (howner : fromPresentation key.name = .ok owner)
    (halgorithm : fromPresentation key.algorithm.wireName = .ok algorithm)
    (hstable : canonicalKeyName (toPresentation owner) = key.name)
    (hknown : keyring.get key.name key.algorithm = some key) (checkedAt : Nat)
    (hsigned : mac = hmac.mac key (message ++ covered owner algorithm now true)) :
    checkRequest hmac packet keyring checkedAt =
      if absDiff checkedAt (now % 2 ^ 48) > DEFAULT_FUDGE.toNat then
        .rejected ⟨.badTime, key.name, key.algorithm.wireName, u16At message 0, some key⟩
      else .verified ⟨key, mac, false⟩ := by
  obtain ⟨rdata, hfound, hparse⟩ := h.found
  have hcovered : (readTsig key owner message now mac).tsigVariables = .ok (covered owner algorithm now true) :=
    tsigVariables_readTsig howner halgorithm hstable
  have hbody : stripTsig packet message.length (readTsig key owner message now mac).originalId = message := h.body
  have halg : TsigAlgorithm.fromName (readTsig key owner message now mac).algorithmName = some key.algorithm :=
    key.algorithm.fromName_wireName
  have hname : (readTsig key owner message now mac).keyName = key.name := hstable
  rw [checkRequest, hfound]
  dsimp only
  rw [hparse]
  dsimp only
  rw [halg]
  dsimp only
  rw [hname, hknown]
  dsimp only
  rw [if_neg (fun hne => hne hmac_length), hcovered]
  dsimp only
  rw [hbody, ← hsigned, if_neg (fun hne => hne rfl)]
  rfl

theorem get_of_checkRequest {keyring : TsigKeyring} {session : TsigSession} {checkedAt : Nat}
    (h : Reads key owner message now mac packet)
    (hverified : checkRequest hmac packet keyring checkedAt = .verified session) :
    keyring.get (canonicalKeyName (toPresentation owner)) key.algorithm = some session.key := by
  obtain ⟨rdata, hfound, hparse⟩ := h.found
  have halg : TsigAlgorithm.fromName (readTsig key owner message now mac).algorithmName = some key.algorithm :=
    key.algorithm.fromName_wireName
  rw [checkRequest, hfound] at hverified
  dsimp only at hverified
  rw [hparse] at hverified
  dsimp only at hverified
  rw [halg] at hverified
  dsimp only at hverified
  split at hverified
  · cases hverified
  next found hfoundKey =>
  split at hverified
  · cases hverified
  split at hverified
  · cases hverified
  split at hverified
  · cases hverified
  split at hverified
  · cases hverified
  cases hverified
  exact hfoundKey

theorem requestMac_of_reads (h : Reads key owner message now mac packet) : requestMac packet = some mac := by
  obtain ⟨rdata, hfound, hparse⟩ := h.found
  rw [requestMac, hfound]
  dsimp only
  rw [hparse]
  rfl

theorem digest_eq (session : TsigSession) (message : Octets) (now : Nat) (hkey : session.key = key) (howner : fromPresentation key.name = .ok owner)
    (halgorithm : fromPresentation key.algorithm.wireName = .ok algorithm) :
    session.digest message now =
      .ok (priorMac session.previousMac ++ (message ++ covered owner algorithm now (!session.firstSigned))) := by
  subst hkey
  rw [TsigSession.digest]
  cases session.firstSigned with
  | true => rfl
  | false =>
    rw [if_neg Bool.false_ne_true, tsigVariables_unsignedTsig howner halgorithm]
    rfl

theorem sign_eq {digest : Octets} (session : TsigSession) (hheader : 12 ≤ message.length)
    (hdigest : session.digest message now = .ok digest) :
    session.sign hmac message now =
      ({ session with previousMac := hmac.mac session.key digest, firstSigned := true },
        appendTsig message { unsignedTsig session.key message now with mac := hmac.mac session.key digest }) := by
  rw [TsigSession.digest] at hdigest
  rw [TsigSession.sign, if_neg (by omega)]
  dsimp only at hdigest ⊢
  split
  · next e he =>
    rw [he] at hdigest
    cases hdigest
  · next found hfound =>
    rw [hfound] at hdigest
    cases hdigest
    rfl

theorem signRequest_eq (hheader : 12 ≤ message.length)
    (howner : fromPresentation key.name = .ok owner)
    (halgorithm : fromPresentation key.algorithm.wireName = .ok algorithm) :
    signRequest hmac message key now = appendTsig message { unsignedTsig key message now with
      mac := hmac.mac key (message ++ covered owner algorithm now true) } := by
  rw [signRequest, if_neg (by omega)]
  dsimp only
  rw [tsigVariables_unsignedTsig howner halgorithm]

theorem owner_of_signRequest {signed : Octets} (h : signRequest hmac message key now = .ok signed) :
    ∃ owner, fromPresentation key.name = .ok owner := by
  cases hname : fromPresentation key.name with
  | ok owner => exact ⟨owner, rfl⟩
  | error e =>
    have hwire : nameWire (unsignedTsig key message now).keyName = .error e := by
      rw [nameWire, unsignedTsig, hname]
      rfl
    have hvariables : (unsignedTsig key message now).tsigVariables = .error (.keyName e) := by
      unfold Tsig.tsigVariables
      rw [hwire]
    rw [signRequest] at h
    dsimp only at h
    rw [hvariables] at h
    split at h <;> cases h

end Signed

/-! ## A canonical name -/

/-- **A canonical name is its own.** -/
theorem canonicalKeyName_canonicalKeyName (name : Text) :
    canonicalKeyName (canonicalKeyName name) = canonicalKeyName name := by
  have hdot : isWhitespace '.' = false := by decide
  have hfixed : ∀ text : Text, text.getLast? = some '.' → (∀ c, text.head? = some c → isWhitespace c = false) →
      text.map Char.toLower = text → canonicalKeyName text = text := by
    intro text hlast hhead hlower
    have hne : text ≠ [] := by
      rintro rfl
      cases hlast
    have htrim : trim text = text := trim_eq_self hne hhead (by
      intro c hc
      rw [hlast] at hc
      cases hc
      exact hdot)
    rw [canonicalKeyName, htrim, hlower, if_pos hlast]
  set lower := (trim name).map Char.toLower with hlowerDef
  have hlower : lower.map Char.toLower = lower := by
    rw [hlowerDef, List.map_map]
    exact List.map_congr_left fun c _ => toLower_toLower c
  have hhead : ∀ c, lower.head? = some c → isWhitespace c = false := by
    intro c hc
    rw [hlowerDef, List.head?_map] at hc
    obtain ⟨before, hbefore, rfl⟩ := Option.map_eq_some_iff.mp hc
    exact isWhitespace_toLower (head?_trim hbefore)
  have hcanonical : canonicalKeyName name = if lower.getLast? = some '.' then lower else lower ++ ['.'] := rfl
  rw [hcanonical]
  split
  · next hlast => exact hfixed lower hlast hhead hlower
  · refine hfixed _ List.getLast?_concat ?_ ?_
    · intro c hc
      rw [List.head?_append] at hc
      cases hfirst : lower.head? with
      | none =>
        rw [hfirst] at hc
        cases hc
        exact hdot
      | some d =>
        rw [hfirst] at hc
        cases hc
        exact hhead c hfirst
    · rw [List.map_append, hlower]
      rfl

theorem name_of_get {keyring : TsigKeyring} {name : Text} {algorithm : TsigAlgorithm} {key : TsigKey}
    (h : keyring.get name algorithm = some key) : key.name = canonicalKeyName name := by
  have hfound := List.find?_some h
  exact (of_decide_eq_true hfound).1

/-! ## A stream that arrives as it was sent -/

section Stream

variable {hmac : Hmac} {key : TsigKey} {owner algorithm : Name}

/-- **One session's messages are all accepted where their clocks are the records'.** -/
theorem signAll_acceptsAll (hmac : Hmac) (howner : fromPresentation key.name = .ok owner)
    (halgorithm : fromPresentation key.algorithm.wireName = .ok algorithm)
    (hstable : canonicalKeyName (toPresentation owner) = key.name) {envelopes : List Envelope}
    (hwhole : ∀ envelope ∈ envelopes, Whole envelope.message)
    (hfits : ∀ envelope ∈ envelopes,
      envelope.message.length + tsigRecordLen key.name key.algorithm.wireName key.algorithm.macLen 0 ≤ 65535)
    (previousMac : Octets) (firstSigned : Bool) :
    ∃ packets : List Octets, TsigSession.signAll hmac ⟨key, previousMac, firstSigned⟩ envelopes = packets.map .ok ∧
      (Receiver.AcceptsAll hmac ⟨key, previousMac, !firstSigned⟩ (packets.zip (envelopes.map Envelope.checkedAt)) ↔
        ∀ envelope ∈ envelopes, absDiff envelope.checkedAt (envelope.signedAt % 2 ^ 48) ≤ DEFAULT_FUDGE.toNat) := by
  induction envelopes generalizing previousMac firstSigned with
  | nil => exact ⟨[], rfl, iff_of_true trivial fun envelope hmem => absurd hmem List.not_mem_nil⟩
  | cons envelope rest ih =>
    have hthis := hwhole envelope List.mem_cons_self
    set session : TsigSession := ⟨key, previousMac, firstSigned⟩ with hsession
    have hdigest := digest_eq session envelope.message envelope.signedAt rfl howner halgorithm
    set mac := hmac.mac key (priorMac previousMac ++ (envelope.message ++
      covered owner algorithm envelope.signedAt (!firstSigned))) with hmacDef
    have hlength : mac.length = key.algorithm.macLen := hmac.length_mac key _
    obtain ⟨packet, hpacket, hreads⟩ :=
      exists_reads envelope.signedAt hthis howner hlength (hfits envelope List.mem_cons_self)
    obtain ⟨packets, hsigned, haccepts⟩ := ih (fun other hmem => hwhole other (List.mem_cons_of_mem _ hmem))
      (fun other hmem => hfits other (List.mem_cons_of_mem _ hmem)) mac true
    have hsign : session.sign hmac envelope.message envelope.signedAt = (⟨key, mac, true⟩, .ok packet) := by
      rw [sign_eq session hthis.header hdigest, ← hpacket]
    have hcheck := checkResponse_of_reads hreads hlength howner halgorithm hstable previousMac (!firstSigned)
      envelope.checkedAt hmacDef
    refine ⟨packet :: packets, ?_, ?_⟩
    · rw [TsigSession.signAll, hsign]
      dsimp only
      rw [hsigned]
      rfl
    · rw [List.map_cons, List.zip_cons_cons, Receiver.AcceptsAll, List.forall_mem_cons, ← haccepts]
      by_cases htime : absDiff envelope.checkedAt (envelope.signedAt % 2 ^ 48) ≤ DEFAULT_FUDGE.toNat
      · have hnext : Receiver.check hmac ⟨key, previousMac, !firstSigned⟩ packet envelope.checkedAt =
            some ⟨key, mac, false⟩ := by
          rw [Receiver.check, hcheck, if_neg (by omega)]
        constructor
        · rintro ⟨next, hchecked, hrest⟩
          rw [hnext] at hchecked
          cases hchecked
          exact ⟨htime, hrest⟩
        · exact fun h => ⟨_, hnext, h.2⟩
      · have hnext : Receiver.check hmac ⟨key, previousMac, !firstSigned⟩ packet envelope.checkedAt = none := by
          rw [Receiver.check, hcheck, if_pos (by omega)]
        constructor
        · rintro ⟨next, hchecked, hrest⟩
          rw [hnext] at hchecked
          cases hchecked
        · exact fun h => absurd h.1 htime

end Stream

theorem absDiff_mod_iff {now time : Nat} (h : absDiff now time ≤ DEFAULT_FUDGE.toNat) :
    absDiff now (time % 2 ^ 48) ≤ DEFAULT_FUDGE.toNat ↔ time < 2 ^ 48 := by
  have hfudge : DEFAULT_FUDGE.toNat = 300 := rfl
  rw [hfudge] at h ⊢
  constructor
  · intro hmod
    by_contra hlarge
    have hdiv : 1 ≤ time / 2 ^ 48 := by omega
    rw [absDiff] at h hmod
    omega
  · intro hsmall
    rw [Nat.mod_eq_of_lt hsmall]
    exact h

namespace Transfer

variable {t : Transfer}

theorem Legal.requested (h : t.Legal) : absDiff t.verifiedAt t.requestedAt ≤ DEFAULT_FUDGE.toNat :=
  h.inTime _ (List.mem_cons_of_mem _ List.mem_cons_self) _ List.mem_cons_self

theorem Legal.checked (h : t.Legal) {envelope : Envelope} (hmem : envelope ∈ t.envelopes) :
    absDiff envelope.checkedAt envelope.signedAt ≤ DEFAULT_FUDGE.toNat := by
  have hclocks : ∀ clock ∈ [envelope.signedAt, envelope.checkedAt], clock ∈ t.clocks := by
    intro clock hclock
    exact List.mem_cons_of_mem _ (List.mem_cons_of_mem _ (List.mem_flatMap.mpr ⟨envelope, hmem, hclock⟩))
  exact h.inTime _ (hclocks _ (List.mem_cons_of_mem _ List.mem_cons_self)) _ (hclocks _ List.mem_cons_self)

theorem mem_messages {envelope : Envelope} (hmem : envelope ∈ t.envelopes) :
    envelope.message ∈ t.request :: t.messages :=
  List.mem_cons_of_mem _ (List.mem_map.mpr ⟨envelope, hmem, rfl⟩)

def signingTimes (t : Transfer) : List Nat := t.requestedAt :: t.envelopes.map Envelope.signedAt

theorem Legal.exists_request (h : t.Legal) {owner algorithm : Name} (howner : fromPresentation t.key.name = .ok owner)
    (halgorithm : fromPresentation t.key.algorithm.wireName = .ok algorithm) :
    ∃ signed, signRequest t.hmac t.request t.key t.requestedAt = .ok signed ∧
      Reads t.key owner t.request t.requestedAt
        (t.hmac.mac t.key (t.request ++ covered owner algorithm t.requestedAt true)) signed := by
  have hwhole := h.whole _ List.mem_cons_self
  obtain ⟨signed, hsigned, hreads⟩ := exists_reads t.requestedAt hwhole howner
    (t.hmac.length_mac t.key (t.request ++ covered owner algorithm t.requestedAt true)) (h.fits _ List.mem_cons_self)
  exact ⟨signed, by rw [signRequest_eq hwhole.header howner halgorithm, hsigned], hreads⟩

/-- **A transfer completes exactly where its key's name reads back and no clock is out of the
record's range.** -/
theorem Legal.completes_iff (h : t.Legal) :
    t.Completes ↔ t.key.NameStable ∧ ∀ time ∈ t.signingTimes, time < 2 ^ 48 := by
  obtain ⟨algorithm, halgorithm, -⟩ := t.key.algorithm.reads
  have hstream : ∀ {owner : Name}, fromPresentation t.key.name = .ok owner →
      canonicalKeyName (toPresentation owner) = t.key.name → ∀ previousMac : Octets,
      ∃ packets : List Octets, TsigSession.signAll t.hmac ⟨t.key, previousMac, false⟩ t.envelopes = packets.map .ok ∧
        (Receiver.AcceptsAll t.hmac ⟨t.key, previousMac, true⟩ (packets.zip (t.envelopes.map Envelope.checkedAt)) ↔
          ∀ envelope ∈ t.envelopes, envelope.signedAt < 2 ^ 48) := by
    intro owner howner hstable previousMac
    obtain ⟨packets, hpackets, haccepts⟩ := signAll_acceptsAll t.hmac howner halgorithm hstable
      (fun envelope hmem => h.whole _ (mem_messages hmem)) (fun envelope hmem => h.fits _ (mem_messages hmem))
      previousMac false
    refine ⟨packets, hpackets, haccepts.trans (forall₂_congr fun envelope hmem => absDiff_mod_iff (h.checked hmem))⟩
  constructor
  · rintro ⟨signed, session, mac, packets, hsigned, hverified, hkey, hmac, hpackets, haccepts⟩
    obtain ⟨owner, howner⟩ := owner_of_signRequest hsigned
    obtain ⟨signed', hsigned', hreads⟩ := h.exists_request howner halgorithm
    rw [hsigned] at hsigned'
    cases hsigned'
    have hget := get_of_checkRequest hreads hverified
    rw [hkey] at hget
    have hstable : canonicalKeyName (toPresentation owner) = t.key.name := by
      rw [name_of_get hget, canonicalKeyName_canonicalKeyName]
    have hcheck := checkRequest_of_reads hreads (t.hmac.length_mac _ _) howner halgorithm hstable h.known t.verifiedAt rfl
    rw [hverified] at hcheck
    rw [requestMac_of_reads hreads] at hmac
    cases hmac
    split at hcheck
    · cases hcheck
    next hclock =>
    cases hcheck
    obtain ⟨packets', hpackets', hiff⟩ := hstream howner hstable
      (t.hmac.mac t.key (t.request ++ covered owner algorithm t.requestedAt true))
    rw [hpackets] at hpackets'
    have hsame : packets = packets' := List.map_injective_iff.mpr (fun a b hab => Except.ok.inj hab) hpackets'
    subst hsame
    refine ⟨⟨owner, howner, hstable⟩, List.forall_mem_cons.mpr ⟨?_, ?_⟩⟩
    · exact (absDiff_mod_iff h.requested).mp (by omega)
    · intro time hmem
      obtain ⟨envelope, henvelope, rfl⟩ := List.mem_map.mp hmem
      exact hiff.mp haccepts envelope henvelope
  · rintro ⟨⟨owner, howner, hstable⟩, hclocks⟩
    obtain ⟨hrequested, hsent⟩ := List.forall_mem_cons.mp hclocks
    obtain ⟨signed, hsigned, hreads⟩ := h.exists_request howner halgorithm
    have hcheck := checkRequest_of_reads hreads (t.hmac.length_mac _ _) howner halgorithm hstable h.known t.verifiedAt rfl
    have hclock := (absDiff_mod_iff h.requested).mpr hrequested
    rw [if_neg (by omega)] at hcheck
    obtain ⟨packets, hpackets, hiff⟩ := hstream howner hstable
      (t.hmac.mac t.key (t.request ++ covered owner algorithm t.requestedAt true))
    exact ⟨signed, _, _, packets, hsigned, hcheck, rfl, requestMac_of_reads hreads, hpackets,
      hiff.mpr fun envelope hmem => hsent _ (List.mem_map.mpr ⟨envelope, hmem, rfl⟩)⟩

end Transfer

/-! ## A stream that does not -/

section Prior

variable {hmac : Hmac} {key : TsigKey} {owner algorithm : Name}

def Follows (hmac : Hmac) (key : TsigKey) (digest next : Octets) : Prop := priorMac (hmac.mac key digest) <+: next

theorem priorMac_mac (digest : Octets) :
    priorMac (hmac.mac key digest) = be16 (UInt16.ofNat key.algorithm.macLen) ++ hmac.mac key digest := by
  have hne : (hmac.mac key digest).isEmpty = false := by
    cases hmac_eq : hmac.mac key digest with
    | nil =>
      have hlength := hmac.length_mac key digest
      rw [hmac_eq] at hlength
      exact absurd hlength.symm key.algorithm.macLen_ne_zero
    | cons b rest => rfl
  rw [priorMac, hne, hmac.length_mac]
  rfl

theorem mac_eq_of_follows {a b next : Octets} (ha : Follows hmac key a next) (hb : Follows hmac key b next) :
    hmac.mac key a = hmac.mac key b := by
  rw [Follows, priorMac_mac] at ha hb
  obtain ⟨after, hafter⟩ := ha
  obtain ⟨after', hafter'⟩ := hb
  rw [← hafter', List.append_assoc, List.append_assoc, List.append_cancel_left_eq] at hafter
  exact (List.append_inj hafter (by rw [hmac.length_mac, hmac.length_mac])).1

theorem digests_cons (hmac : Hmac) (howner : fromPresentation key.name = .ok owner)
    (halgorithm : fromPresentation key.algorithm.wireName = .ok algorithm) (previousMac : Octets) (firstSigned : Bool)
    (envelope : Envelope) (rest : List Envelope) (hheader : 12 ≤ envelope.message.length) :
    TsigSession.digests hmac ⟨key, previousMac, firstSigned⟩ (envelope :: rest) =
      (priorMac previousMac ++ (envelope.message ++ covered owner algorithm envelope.signedAt (!firstSigned))) ::
        TsigSession.digests hmac ⟨key, hmac.mac key (priorMac previousMac ++ (envelope.message ++
          covered owner algorithm envelope.signedAt (!firstSigned))), true⟩ rest := by
  have hdigest := digest_eq ⟨key, previousMac, firstSigned⟩ envelope.message envelope.signedAt rfl howner halgorithm
  rw [TsigSession.digests, hdigest, sign_eq _ hheader hdigest]
  rfl

/-- **Each digest follows the one before.** -/
theorem isChain_digests (howner : fromPresentation key.name = .ok owner)
    (halgorithm : fromPresentation key.algorithm.wireName = .ok algorithm) {envelopes : List Envelope}
    (hheaders : ∀ envelope ∈ envelopes, 12 ≤ envelope.message.length) (digest : Octets) (firstSigned : Bool) :
    List.IsChain (Follows hmac key)
      (digest :: TsigSession.digests hmac ⟨key, hmac.mac key digest, firstSigned⟩ envelopes) := by
  induction envelopes generalizing digest firstSigned with
  | nil => exact List.isChain_singleton _
  | cons envelope rest ih =>
    rw [digests_cons hmac howner halgorithm _ _ _ _ (hheaders envelope List.mem_cons_self)]
    exact List.IsChain.cons_cons ⟨_, rfl⟩ (ih (fun other hmem => hheaders other (List.mem_cons_of_mem _ hmem)) _ true)

theorem of_checkResponse {packet previousMac mac : Octets} {first : Bool} {now : Nat}
    (h : checkResponse hmac packet key previousMac first now = .ok mac) :
    Whole (body packet) ∧ ∃ after, mac = hmac.mac key (priorMac previousMac ++ (body packet ++ after)) := by
  rw [checkResponse] at h
  split at h
  · cases h
  next offset rdata owner hfound =>
  split at h
  · cases h
  next tsig hparse =>
  split at h
  · cases h
  split at h
  · cases h
  split at h
  · cases h
  next after hcovered =>
  split at h
  · cases h
  next hmac_eq =>
  split at h
  · cases h
  cases h
  have hbody : body packet = stripTsig packet offset tsig.originalId := by
    rw [body, hfound]
    dsimp only
    rw [hparse]
  rw [hbody]
  exact ⟨whole_stripTsig _ hfound, after, (not_not.mp hmac_eq).symm⟩

end Prior

section Tampered

variable {hmac : Hmac} {key : TsigKey} {owner algorithm : Name} {first : Octets} {later : List Octets}

/-- **What is accepted is what was signed next**, at any point of the transfer. -/
theorem receive_prefix (howner : fromPresentation key.name = .ok owner)
    (halgorithm : fromPresentation key.algorithm.wireName = .ok algorithm)
    (hchain : List.IsChain (Follows hmac key) (first :: later))
    (hinjective : ∀ digest ∈ first :: later, ∀ other, hmac.mac key other = hmac.mac key digest → other = digest)
    (hfresh : ∀ digest ∈ first :: later, ¬ Follows hmac key digest first) {envelopes : List Envelope}
    (hwhole : ∀ envelope ∈ envelopes, Whole envelope.message) {before : List Octets} {digest : Octets}
    {firstSigned isFirst : Bool}
    (hsplit : before ++ digest :: TsigSession.digests hmac ⟨key, hmac.mac key digest, firstSigned⟩ envelopes =
      first :: later)
    {stream : List (Octets × Nat)}
    (haccepted : ∀ accepted ∈ Receiver.receive hmac ⟨key, hmac.mac key digest, isFirst⟩ stream,
      ∃ signed ∈ first :: later, accepted.2 = hmac.mac key signed) :
    (Receiver.receive hmac ⟨key, hmac.mac key digest, isFirst⟩ stream).map Prod.fst <+:
      envelopes.map Envelope.message := by
  -- on the stream: the digest accepted last stays where it is, or the next one takes its place
  induction stream generalizing envelopes before digest firstSigned isFirst with
  | nil => exact List.nil_prefix
  | cons arrived stream ih =>
    obtain ⟨packet, now⟩ := arrived
    cases hcheck : checkResponse hmac packet key (hmac.mac key digest) isFirst now with
    | error e =>
      have hreceive : Receiver.receive hmac ⟨key, hmac.mac key digest, isFirst⟩ ((packet, now) :: stream) =
          Receiver.receive hmac ⟨key, hmac.mac key digest, isFirst⟩ stream := by
        rw [Receiver.receive, Receiver.check, hcheck]
      rw [hreceive] at haccepted ⊢
      exact ih hwhole hsplit haccepted
    | ok mac =>
      have hreceive : Receiver.receive hmac ⟨key, hmac.mac key digest, isFirst⟩ ((packet, now) :: stream) =
          (body packet, mac) :: Receiver.receive hmac ⟨key, mac, false⟩ stream := by
        rw [Receiver.receive, Receiver.check, hcheck]
      rw [hreceive] at haccepted ⊢
      obtain ⟨⟨signed, hmem, hmac_eq⟩, hrest⟩ := List.forall_mem_cons.mp haccepted
      obtain ⟨hbody, after, hdigested⟩ := of_checkResponse hcheck
      have hsigned : priorMac (hmac.mac key digest) ++ (body packet ++ after) = signed :=
        hinjective signed hmem _ (hdigested.symm.trans hmac_eq)
      have hnext := next_of_mem hchain hfresh
        (fun a ha b hb next hfa hfb => hinjective b hb a (mac_eq_of_follows hfa hfb)) hsplit hmem ⟨_, hsigned⟩
      cases envelopes with
      | nil => cases hnext
      | cons envelope rest =>
        have hthis := hwhole envelope List.mem_cons_self
        have hcons := digests_cons hmac howner halgorithm (hmac.mac key digest) firstSigned envelope rest
          hthis.header
        rw [hcons, List.head?_cons, Option.some.injEq] at hnext
        have hsame : body packet = envelope.message := by
          rw [← hnext, List.append_cancel_left_eq] at hsigned
          exact hbody.eq_of_append hthis hsigned
        rw [List.map_cons, List.map_cons, hsame, List.cons_prefix_cons]
        refine ⟨rfl, ?_⟩
        rw [hcons, hnext, ← List.singleton_append, ← List.append_assoc] at hsplit
        rw [show mac = hmac.mac key signed from hmac_eq] at hrest ⊢
        exact ih (fun other hother => hwhole other (List.mem_cons_of_mem _ hother)) hsplit hrest

end Tampered

namespace Transfer

variable {t : Transfer}

/-- **Where the key's name reads back, nothing gets past the receiver but what was signed, in its
order.** -/
theorem Legal.faithful (h : t.Legal) (hstable : t.key.NameStable) : t.Faithful := by
  intro signed session mac hsigned hverified hmac hideal stream haccepted
  obtain ⟨owner, howner, hback⟩ := hstable
  obtain ⟨algorithm, halgorithm, -⟩ := t.key.algorithm.reads
  obtain ⟨signed', hsigned', hreads⟩ := h.exists_request howner halgorithm
  rw [hsigned] at hsigned'
  cases hsigned'
  have hcheck := checkRequest_of_reads hreads (t.hmac.length_mac _ _) howner halgorithm hback h.known t.verifiedAt rfl
  rw [hverified] at hcheck
  rw [requestMac_of_reads hreads] at hmac
  cases hmac
  split at hcheck
  · cases hcheck
  cases hcheck
  set request := t.request ++ covered owner algorithm t.requestedAt true with hrequestDef
  have hrequest : t.requestDigest = .ok request := by
    rw [requestDigest, tsigVariables_unsignedTsig howner halgorithm]
    rfl
  have hdigests : t.digests ⟨t.key, t.hmac.mac t.key request, false⟩ =
      request :: TsigSession.digests t.hmac ⟨t.key, t.hmac.mac t.key request, false⟩ t.envelopes := by
    rw [digests, hrequest]
    rfl
  have hwhole : ∀ envelope ∈ t.envelopes, Whole envelope.message := fun envelope hmem => h.whole _ (mem_messages hmem)
  have hinjective := hideal.injective
  have hfresh := hideal.fresh
  rw [hdigests] at hinjective hfresh haccepted
  exact receive_prefix howner halgorithm
    (isChain_digests howner halgorithm (fun envelope hmem => (hwhole envelope hmem).header) request false)
    hinjective (fun digest hmem => hfresh digest hmem request hrequest) hwhole (List.nil_append _) haccepted

/-- **A transfer completes and nothing else passes for it, exactly where its key's name reads back
and no clock is out of the record's range.** -/
theorem carries_iff (h : t.Legal) :
    t.Completes ∧ t.Faithful ↔ t.key.NameStable ∧ ∀ time ∈ t.signingTimes, time < 2 ^ 48 := by
  constructor
  · exact fun hboth => h.completes_iff.mp hboth.1
  · exact fun hstable => ⟨h.completes_iff.mpr hstable, h.faithful hstable.1⟩

end Transfer

/-! ## One transfer -/

def axfrKey : TsigKey := TsigKey.new "axfr.".toList .hmacSha256 [115, 101, 99, 114, 101, 116]

def axfrRequest : Octets := [18, 52, 0, 0, 0, 1, 0, 0, 0, 0, 0, 0, 3, 111, 114, 103, 0, 0, 252, 0, 1]

def axfrAnswer : Octets := [18, 52, 132, 0, 0, 1, 0, 0, 0, 0, 0, 0, 3, 111, 114, 103, 0, 0, 252, 0, 1]

def axfrEnd : Octets := [18, 52, 132, 0, 0, 0, 0, 0, 0, 0, 0, 0]

/-- The key, the class, the algorithm, the clock at 1700000000 and the fudge. -/
def axfrVariables : Octets :=
  [4, 97, 120, 102, 114, 0, 0, 255, 0, 0, 0, 0, 11, 104, 109, 97, 99, 45, 115, 104, 97, 50, 53, 54, 0, 0, 0,
    101, 83, 241, 0, 1, 44, 0, 0, 0, 0]

def axfrTimers : Octets := [0, 0, 101, 83, 241, 0, 1, 44]

/-- HMAC-SHA256 of the three digests under the secret. -/
def axfrMac : Octets :=
  [39, 167, 126, 32, 58, 43, 159, 185, 208, 99, 67, 165, 186, 254, 50, 56, 83, 236, 98, 63, 87, 235, 127, 162,
    76, 118, 176, 244, 21, 8, 31, 6]

def axfrMac1 : Octets :=
  [113, 104, 86, 104, 65, 15, 127, 129, 87, 62, 153, 37, 207, 192, 236, 126, 210, 78, 117, 203, 105, 7, 57,
    161, 167, 212, 37, 56, 93, 22, 13, 36]

def axfrMac2 : Octets :=
  [29, 109, 152, 133, 32, 63, 86, 109, 109, 30, 81, 1, 148, 163, 120, 50, 154, 62, 11, 20, 27, 12, 1, 26, 202,
    89, 249, 108, 208, 242, 62, 149]

def axfrDigest : Octets := axfrRequest ++ axfrVariables

def axfrDigest1 : Octets := 0 :: 32 :: (axfrMac ++ (axfrAnswer ++ axfrVariables))

def axfrDigest2 : Octets := 0 :: 32 :: (axfrMac1 ++ (axfrEnd ++ axfrTimers))

def axfrHmac : Hmac where
  sign algorithm secret data :=
    if algorithm = .hmacSha256 ∧ secret = axfrKey.secret ∧ data = axfrDigest then axfrMac
    else if algorithm = .hmacSha256 ∧ secret = axfrKey.secret ∧ data = axfrDigest1 then axfrMac1
    else if algorithm = .hmacSha256 ∧ secret = axfrKey.secret ∧ data = axfrDigest2 then axfrMac2
    else List.replicate algorithm.macLen 0
  length_sign := by
    intro algorithm secret data
    split
    · next h =>
      rw [h.1]
      rfl
    split
    · next h =>
      rw [h.1]
      rfl
    split
    · next h =>
      rw [h.1]
      rfl
    · exact List.length_replicate

def axfrUnder (hmac : Hmac) (key : TsigKey) : Transfer where
  hmac := hmac
  keyring := ⟨[key]⟩
  key := key
  request := axfrRequest
  requestedAt := 1700000000
  verifiedAt := 1700000000
  envelopes := [⟨axfrAnswer, 1700000000, 1700000001⟩, ⟨axfrEnd, 1700000000, 1700000002⟩]

theorem whole_axfr : ∀ message ∈ [axfrRequest, axfrAnswer, axfrEnd], Whole message := by
  have hsections : ∀ message ∈ [axfrRequest, axfrAnswer, axfrEnd], 12 ≤ message.length ∧
      sectionsEnd message (u16At message 4).toNat
        ((u16At message 6).toNat + (u16At message 8).toNat + (u16At message 10).toNat) = some message.length := by
    decide +kernel
  exact fun message hmem => ⟨(hsections message hmem).1, (hsections message hmem).2⟩

theorem axfrUnder_legal (hmac : Hmac) (key : TsigKey) (hknown : canonicalKeyName key.name = key.name)
    (hshort : tsigRecordLen key.name key.algorithm.wireName key.algorithm.macLen 0 ≤ 65000) :
    (axfrUnder hmac key).Legal where
  known := by
    show List.find? _ [key] = some key
    exact List.find?_cons_of_pos (decide_eq_true ⟨hknown.symm, rfl⟩)
  answered := List.cons_ne_nil _ _
  whole := whole_axfr
  inTime := (by decide : ∀ a ∈ [1700000000, 1700000000, 1700000000, 1700000001, 1700000000, 1700000002],
    ∀ b ∈ [1700000000, 1700000000, 1700000000, 1700000001, 1700000000, 1700000002],
      absDiff a b ≤ DEFAULT_FUDGE.toNat)
  fits := by
    intro message hmem
    have hall : ∀ message ∈ [axfrRequest, axfrAnswer, axfrEnd], message.length ≤ 21 := by decide
    have hlength := hall message hmem
    have hkey : (axfrUnder hmac key).key = key := rfl
    rw [hkey]
    omega

theorem axfrKey_nameStable : axfrKey.NameStable := by
  have hread : ((fromPresentation axfrKey.name).toOption.map fun owner => canonicalKeyName (toPresentation owner)) =
      some axfrKey.name := by
    decide +kernel
  exact exists_ok_of_map hread

theorem axfr_ideal : (axfrUnder axfrHmac axfrKey).Ideal ⟨axfrKey, axfrMac, false⟩ := by
  have hdigests : (axfrUnder axfrHmac axfrKey).digests ⟨axfrKey, axfrMac, false⟩ =
      [axfrDigest, axfrDigest1, axfrDigest2] := by
    decide +kernel
  have hrequest : (axfrUnder axfrHmac axfrKey).requestDigest.toOption = some axfrDigest := by decide +kernel
  have hmac : ∀ data, axfrHmac.mac axfrKey data =
      if data = axfrDigest then axfrMac
      else if data = axfrDigest1 then axfrMac1
      else if data = axfrDigest2 then axfrMac2
      else List.replicate 32 0 := by
    intro data
    show (if TsigAlgorithm.hmacSha256 = .hmacSha256 ∧ axfrKey.secret = axfrKey.secret ∧ data = axfrDigest then axfrMac
      else if TsigAlgorithm.hmacSha256 = .hmacSha256 ∧ axfrKey.secret = axfrKey.secret ∧ data = axfrDigest1 then axfrMac1
      else if TsigAlgorithm.hmacSha256 = .hmacSha256 ∧ axfrKey.secret = axfrKey.secret ∧ data = axfrDigest2 then axfrMac2
      else List.replicate 32 0) = _
    simp only [true_and]
  have hdistinct : [axfrMac, axfrMac1, axfrMac2, List.replicate 32 0].Nodup := by decide
  have hof : ∀ data, (axfrHmac.mac axfrKey data = axfrMac → data = axfrDigest) ∧
      (axfrHmac.mac axfrKey data = axfrMac1 → data = axfrDigest1) ∧
      (axfrHmac.mac axfrKey data = axfrMac2 → data = axfrDigest2) := by
    intro data
    rw [hmac]
    generalize List.replicate 32 0 = elsewhere at hdistinct
    grind
  have hsigned : axfrHmac.mac axfrKey axfrDigest = axfrMac ∧ axfrHmac.mac axfrKey axfrDigest1 = axfrMac1 ∧
      axfrHmac.mac axfrKey axfrDigest2 = axfrMac2 := by
    decide
  constructor
  · rw [hdigests]
    intro digest hmem other hsame
    have hsame : axfrHmac.mac axfrKey other = axfrHmac.mac axfrKey digest := hsame
    rcases List.mem_cons.mp hmem with rfl | hmem
    · exact (hof other).1 (hsame.trans hsigned.1)
    rcases List.mem_cons.mp hmem with rfl | hmem
    · exact (hof other).2.1 (hsame.trans hsigned.2.1)
    cases List.mem_singleton.mp hmem
    exact (hof other).2.2 (hsame.trans hsigned.2.2)
  · rw [hdigests]
    intro digest hmem request hdigest
    rw [hdigest] at hrequest
    cases hrequest
    have hfront : ∀ digest ∈ [axfrDigest, axfrDigest1, axfrDigest2],
        ¬ priorMac (axfrHmac.mac axfrKey digest) <+: axfrDigest := by
      decide
    exact hfront digest hmem

theorem carries_iff_axfr : (axfrUnder axfrHmac axfrKey).Completes ∧ (axfrUnder axfrHmac axfrKey).Faithful ∧
    (axfrUnder axfrHmac axfrKey).Ideal ⟨axfrKey, axfrMac, false⟩ := by
  have hboth := (Transfer.carries_iff (axfrUnder_legal axfrHmac axfrKey (by decide) (by decide +kernel))).mpr
    ⟨axfrKey_nameStable, by decide⟩
  exact ⟨hboth.1, hboth.2, axfr_ideal⟩

/-! ## A key that signs and is not found -/

def opsKey : TsigKey := TsigKey.new "ops@example.".toList .hmacSha256 [115, 101, 99, 114, 101, 116]

theorem opsKey_reads : ∃ owner, fromPresentation opsKey.name = .ok owner ∧
    canonicalKeyName (toPresentation owner) = "ops\\@example.".toList := by
  have hread : ((fromPresentation opsKey.name).toOption.map fun owner => canonicalKeyName (toPresentation owner)) =
      some "ops\\@example.".toList := by
    decide +kernel
  exact exists_ok_of_map hread

/-- **Whatever the MAC**: the request is signed under `ops@example.`, and the server that knows this
key alone does not accept it, as it looks for `ops\@example.`. -/
theorem ops_not_carried : (∀ hmac : Hmac, (axfrUnder hmac opsKey).Legal) ∧ ∀ hmac : Hmac,
    (∃ signed, signRequest hmac axfrRequest opsKey 1700000000 = .ok signed ∧
      ∀ session, checkRequest hmac signed ⟨[opsKey]⟩ 1700000000 ≠ .verified session) ∧
    ¬ ((axfrUnder hmac opsKey).Completes ∧ (axfrUnder hmac opsKey).Faithful) := by
  have hlegal : ∀ hmac : Hmac, (axfrUnder hmac opsKey).Legal :=
    fun hmac => axfrUnder_legal hmac opsKey (by decide) (by decide +kernel)
  refine ⟨hlegal, fun hmac => ?_⟩
  obtain ⟨owner, howner, hback⟩ := opsKey_reads
  obtain ⟨algorithm, halgorithm, -⟩ := opsKey.algorithm.reads
  obtain ⟨signed, hsigned, hreads⟩ := (hlegal hmac).exists_request howner halgorithm
  have hrefused : ∀ session, checkRequest hmac signed ⟨[opsKey]⟩ 1700000000 ≠ .verified session := by
    intro session hverified
    have hget := get_of_checkRequest hreads hverified
    have hkey : session.key = opsKey := List.mem_singleton.mp (List.mem_of_find?_eq_some hget)
    have hname := name_of_get hget
    rw [hkey, canonicalKeyName_canonicalKeyName, hback] at hname
    exact absurd hname (by decide)
  refine ⟨⟨signed, hsigned, hrefused⟩, ?_⟩
  rintro ⟨⟨signed', session, mac, packets, hsigned', hverified, -⟩, -⟩
  rw [hsigned] at hsigned'
  cases hsigned'
  exact hrefused session hverified

end Rdns.Auth
