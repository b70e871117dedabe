import Rdns.Auth.Sessions

/-!
# Rdns — How a TSIG's names are spelled

`check_request` reads both names off the wire as presentation text, down-cases the owner's, looks it
up as text and makes octets of both again for the digest. The algorithm's name is down-cased for the
lookup only.
-/

namespace Rdns.Auth

open Rdns.Lib Rdns.Core Rdns.Present

/-! ## Text of a name, down-cased -/

theorem toLower_escapeOctet (octet : UInt8) :
    (escapeOctet isNameSyntax 0x21 octet).map Char.toLower = escapeOctet isNameSyntax 0x21 (toAsciiLowercase octet) := by
  have hall : ∀ n < 256, (escapeOctet isNameSyntax 0x21 (UInt8.ofNat n)).map Char.toLower =
      escapeOctet isNameSyntax 0x21 (toAsciiLowercase (UInt8.ofNat n)) := by decide +kernel
  have hoctet := hall octet.toNat octet.toNat_lt
  rwa [UInt8.ofNat_toNat] at hoctet

theorem toLower_escapeLabel (label : Octets) : (escapeLabel label).map Char.toLower = escapeLabel (foldCase label) := by
  induction label with
  | nil => rfl
  | cons octet label ih =>
    have hcons : ∀ (octet : UInt8) (label : Octets),
        escapeLabel (octet :: label) = escapeOctet isNameSyntax 0x21 octet ++ escapeLabel label := fun _ _ => rfl
    rw [hcons, List.map_append, ih, toLower_escapeOctet, foldCase_cons, hcons]

theorem toLower_labelsText (labels : List Octets) :
    (labelsText labels).map Char.toLower = labelsText (foldLabels labels) := by
  induction labels with
  | nil => rfl
  | cons label labels ih =>
    have hcons : ∀ (label : Octets) (labels : List Octets),
        labelsText (label :: labels) = (escapeLabel label ++ ['.']) ++ labelsText labels := fun _ _ => rfl
    rw [hcons, List.map_append, List.map_append, ih, toLower_escapeLabel]
    rfl

theorem toLower_toPresentation (name : Name) :
    (toPresentation name).map Char.toLower = toPresentation name.toFolded := by
  have hfolded : name.toFolded.labels = foldLabels name.labels := rfl
  rw [toPresentation_eq, toPresentation_eq, hfolded]
  by_cases hroot : name.labels = []
  · rw [hroot]
    rfl
  · rw [if_neg hroot, if_neg (by simpa [foldLabels] using hroot), toLower_labelsText]

/-- **What the wire holds, as text and down-cased, is the down-cased name.** -/
theorem canonicalKeyName_toPresentation (name : Name) :
    canonicalKeyName (toPresentation name) = toPresentation name.toFolded := by
  have hgraphic : ∀ c ∈ toPresentation name, isWhitespace c = false := fun c hc =>
    isWhitespace_of_graphic ((bare_toPresentation name).graphic c hc)
  have hlast := getLast?_toPresentation name
  have htrim : trim (toPresentation name) = toPresentation name :=
    trim_eq_self (fun hnil => by rw [hnil] at hlast; cases hlast) (fun c hc => hgraphic c (List.mem_of_head? hc))
      fun c hc => hgraphic c (List.mem_of_getLast? hc)
  rw [canonicalKeyName, htrim, toLower_toPresentation, if_pos (getLast?_toPresentation name.toFolded)]

theorem toPresentation_injective {a b : Name} (h : toPresentation a = toPresentation b) : a = b := by
  have hread := fromPresentation_toPresentation a
  rw [h, fromPresentation_toPresentation] at hread
  exact (Except.ok.inj hread).symm

theorem TsigAlgorithm.fromName_same {algorithm : TsigAlgorithm} {name spelled : Name}
    (hname : fromPresentation algorithm.wireName = .ok name) (hsame : spelled.same name = true) :
    fromName (toPresentation spelled) = some algorithm := by
  have hlower : ∀ text : Text, fromName (text.map Char.toLower) = fromName text := by
    intro text
    have hdot : ((· == '.') ∘ Char.toLower : Char → Bool) = (· == '.') := by
      funext c
      have hall : ∀ n : Fin 26, (Char.ofNat (97 + n.val) == '.') = false := by decide
      rcases toLower_eq c with hsame | ⟨n, hletter⟩
      · rw [Function.comp_apply, hsame]
      · have hne : (c == '.') = false := by
          refine beq_eq_false_iff_ne.mpr fun hc => ?_
          rw [hc] at hletter
          have hdotted := hall n
          rw [← hletter] at hdotted
          exact absurd hdotted (by decide)
        rw [Function.comp_apply, hletter, hall, hne]
    have hstrip : ((text.map Char.toLower).reverse.dropWhile (· == '.')).reverse.map Char.toLower =
        (text.reverse.dropWhile (· == '.')).reverse.map Char.toLower := by
      rw [← List.map_reverse, List.dropWhile_map, hdot, ← List.map_reverse, List.map_map]
      exact List.map_congr_left fun c _ => toLower_toLower c
    rw [fromName, fromName, hstrip]
  obtain ⟨read, hread, hback⟩ := algorithm.reads
  obtain rfl := Except.ok.inj (hread.symm.trans hname)
  rw [← hlower, toLower_toPresentation, Name.same_iff.mp hsame, ← toLower_toPresentation, hlower, hback,
    fromName_wireName]

/-! ## A TSIG as the wire has it -/

/-- The fields of a record, its names in any case. -/
structure WireTsig where
  owner : Name
  algorithm : Name
  timeSigned : Nat
  fudge : UInt16
  originalId : UInt16
  error : UInt16
  other : Octets

namespace WireTsig

variable (w : WireTsig)

/-- The TSIG variables with a given algorithm name: RFC 8945 §4.3.3 has it in canonical form. -/
def covers (algorithm : Name) : Octets :=
  w.owner.toFolded.wire ++ (be16 TSIG_CLASS ++ (be32 0 ++ (algorithm.wire ++ (be48 w.timeSigned ++ (be16 w.fudge ++
    (be16 w.error ++ (be16 (UInt16.ofNat w.other.length) ++ w.other)))))))

/-- What is digested of a request (RFC 8945 §4.3): the message with its original ID, and the
variables. -/
def digest (message : Octets) (algorithm : Name) : Octets := setU16 message 0 w.originalId ++ w.covers algorithm

/-- The MAC of the rule: both names in canonical form. -/
def mac (hmac : Hmac) (key : TsigKey) (message : Octets) : Octets :=
  hmac.mac key (w.digest message w.algorithm.toFolded)

def rdata (mac : Octets) : Octets :=
  w.algorithm.wire ++ (be48 w.timeSigned ++ (be16 w.fudge ++ (be16 (UInt16.ofNat mac.length) ++
    (mac ++ (be16 w.originalId ++ (be16 w.error ++ (be16 (UInt16.ofNat w.other.length) ++ w.other)))))))

def packet (hmac : Hmac) (key : TsigKey) (message : Octets) : Octets :=
  withRecord message w.owner.wire (w.rdata (w.mac hmac key message))

/-- The record is one of the key of that name, in fields that hold what they are given. -/
structure Names (key : TsigKey) (named : Name) (message : Octets) : Prop where
  keyName : fromPresentation key.name = .ok named
  owner : w.owner.same named = true
  algorithm : ∃ name, fromPresentation key.algorithm.wireName = .ok name ∧ w.algorithm.same name = true
  time : w.timeSigned < 2 ^ 48
  other : w.other.length < 65536
  whole : Whole message
  fits : message.length + w.owner.wire.length + 10 +
    (w.algorithm.wire.length + 16 + key.algorithm.macLen + w.other.length) ≤ 65535

def Honoured (hmac : Hmac) (keyring : TsigKeyring) (key : TsigKey) (message : Octets) (now : Nat) : Prop :=
  (absDiff now w.timeSigned ≤ w.fudge.toNat →
    checkRequest hmac (w.packet hmac key message) keyring now = .verified ⟨key, w.mac hmac key message, false⟩) ∧
  (absDiff now w.timeSigned > w.fudge.toNat →
    ∃ rejection, checkRequest hmac (w.packet hmac key message) keyring now = .rejected rejection ∧
      rejection.error = .badTime ∧ rejection.key = some key)

end WireTsig

def TsigKeyring.Finds (keyring : TsigKeyring) (key : TsigKey) (named : Name) : Prop :=
  ∀ owner : Name, keyring.get (toPresentation owner) key.algorithm = some key ↔ owner.same named = true

section Checked

variable {hmac : Hmac} {keyring : TsigKeyring} {key : TsigKey} {named : Name} {message : Octets} {w : WireTsig}

theorem stripTsig_id (h : Whole message) (hsize : message.length ≤ 65535) (owner rdata : Octets) (id : UInt16) :
    stripTsig (withRecord message owner rdata) message.length id = setU16 message 0 id := by
  have hheader := h.header
  have hsplit : ∀ (front rest : Octets) (value : UInt16), front.length = 10 →
      setU16 (front ++ rest) 10 value = front ++ (be16 value ++ rest.drop 2) := by
    intro front rest value hfront
    rw [setU16, List.take_left' hfront, ← hfront, List.drop_append]
    simp
  have hcomm : ∀ (packet : Octets) (a b : UInt16), 12 ≤ packet.length →
      setU16 (setU16 packet 0 a) 10 b = setU16 (setU16 packet 10 b) 0 a := by
    intro packet a b hlen
    have hfront : (packet.take 10).length = 10 := by
      rw [List.length_take]
      omega
    rw [← List.take_append_drop 10 packet, setU16_append a _ (by omega),
      hsplit _ _ _ (by rw [length_setU16 _ (by omega), hfront]), hsplit _ _ _ hfront, setU16_append a _ (by omega)]
  have hback := stripTsig_withRecord h hsize owner rdata
  have hlen : 12 ≤ ((withRecord message owner rdata).take message.length).length := by
    rw [List.length_take, length_withRecord hheader]
    omega
  have hten : ∀ value : UInt16,
      u16At (setU16 ((withRecord message owner rdata).take message.length) 0 value) 10 =
        u16At ((withRecord message owner rdata).take message.length) 10 := fun value =>
    u16At_congr fun at_ hge hlt => getElem?_setU16_of_le (by omega) (by omega)
  rw [stripTsig] at hback ⊢
  rw [hten, hcomm _ _ _ hlen] at hback
  rw [hten, hcomm _ _ _ hlen, ← setU16_setU16 (u16At message 0) id (by rw [length_setU16 _ (by omega)]; omega), hback]

theorem parseRdata_rdata {mac : Octets} (htime : w.timeSigned < 2 ^ 48) (hother : w.other.length < 65536)
    (hmac : mac.length < 65536) :
    Tsig.parseRdata (toPresentation w.owner) (w.rdata mac) = .ok ⟨toPresentation w.owner.toFolded,
      toPresentation w.algorithm, w.timeSigned, w.fudge, mac, w.originalId, w.error, w.other⟩ := by
  set tsig : Tsig := ⟨toPresentation w.owner, toPresentation w.algorithm, w.timeSigned, w.fudge, mac, w.originalId,
    w.error, w.other⟩ with htsig
  have halgorithm : fromPresentation tsig.algorithmName = .ok w.algorithm := fromPresentation_toPresentation w.algorithm
  obtain ⟨rdata, hrdata, -, hparse⟩ := Tsig.parseRdata_rdataBytes (toPresentation w.owner) halgorithm hmac hother
  have hsame : w.rdata mac = rdata := by
    rw [Tsig.rdataBytes, nameWire_of_ok halgorithm] at hrdata
    exact Except.ok.inj hrdata
  rw [hsame, hparse, canonicalKeyName_toPresentation, htsig, Nat.mod_eq_of_lt htime]

/-- **What a request comes to, whatever the case of its names.** -/
theorem checkRequest_packet (h : w.Names key named message) (now : Nat) :
    checkRequest hmac (w.packet hmac key message) keyring now =
      match keyring.get (toPresentation named.toFolded) key.algorithm with
      | none => .rejected ⟨.badKey, toPresentation named.toFolded, toPresentation w.algorithm, w.originalId, none⟩
      | some found =>
        if hmac.mac found (w.digest message w.algorithm) ≠ w.mac hmac key message then
          .rejected ⟨.badSig, toPresentation named.toFolded, toPresentation w.algorithm, w.originalId, none⟩
        else if absDiff now w.timeSigned > w.fudge.toNat then
          .rejected ⟨.badTime, toPresentation named.toFolded, toPresentation w.algorithm, w.originalId, some found⟩
        else .verified ⟨found, w.mac hmac key message, false⟩ := by
  obtain ⟨name, hname, hsame⟩ := h.algorithm
  have hmacLen : (w.mac hmac key message).length = key.algorithm.macLen := hmac.length_mac key _
  have hlen : (w.mac hmac key message).length < 65536 := by
    rw [hmacLen]
    cases key.algorithm <;> decide
  have hfits := h.fits
  have hrdata : (w.rdata (w.mac hmac key message)).length =
      w.algorithm.wire.length + 16 + key.algorithm.macLen + w.other.length := by
    simp only [WireTsig.rdata, List.length_append, length_be48, length_be16, hmacLen]
    omega
  have hfound : findTsig (withRecord message w.owner.wire (w.rdata (w.mac hmac key message))) = some (_, _, _) :=
    findTsig_withRecord h.whole w.owner (by omega)
  have hstrip := stripTsig_id h.whole (by omega) w.owner.wire (w.rdata (w.mac hmac key message)) w.originalId
  have hvariables : Tsig.tsigVariables ⟨toPresentation w.owner.toFolded, toPresentation w.algorithm, w.timeSigned,
      w.fudge, w.mac hmac key message, w.originalId, w.error, w.other⟩ = .ok (w.covers w.algorithm) := by
    rw [Tsig.tsigVariables, nameWire_of_ok (fromPresentation_toPresentation w.owner.toFolded)]
    dsimp only
    rw [nameWire_of_ok (fromPresentation_toPresentation w.algorithm)]
    rfl
  have howner : w.owner.toFolded = named.toFolded := Name.same_iff.mp h.owner
  rw [checkRequest, WireTsig.packet, hfound]
  dsimp only
  rw [parseRdata_rdata h.time h.other hlen]
  dsimp only
  rw [TsigAlgorithm.fromName_same hname hsame]
  dsimp only
  rw [hvariables, hstrip, hmacLen, howner]
  cases keyring.get (toPresentation named.toFolded) key.algorithm with
  | none => rfl
  | some found => exact if_neg fun hne => hne rfl

theorem get_toPresentation (owner : Name) (algorithm : TsigAlgorithm) :
    keyring.get (toPresentation owner) algorithm =
      keyring.keys.find? fun key => key.name = toPresentation owner.toFolded ∧ key.algorithm = algorithm := by
  rw [TsigKeyring.get, canonicalKeyName_toPresentation]

theorem finds_iff : keyring.Finds key named ↔
    keyring.get key.name key.algorithm = some key ∧ key.name = toPresentation named.toFolded := by
  constructor
  · intro hfinds
    have hown : keyring.get (toPresentation named) key.algorithm = some key := (hfinds named).mpr (Name.same_iff.mpr rfl)
    have hname : key.name = toPresentation named.toFolded :=
      (name_of_get hown).trans (canonicalKeyName_toPresentation named)
    refine ⟨?_, hname⟩
    rw [hname, get_toPresentation, Name.toFolded_toFolded, ← get_toPresentation, hown]
  · rintro ⟨hfirst, hname⟩ owner
    rw [hname, get_toPresentation, Name.toFolded_toFolded] at hfirst
    constructor
    · intro hfound
      have hspelled := (name_of_get hfound).trans (canonicalKeyName_toPresentation owner)
      exact Name.same_iff.mpr (toPresentation_injective (hspelled.symm.trans hname))
    · intro hsame
      rw [get_toPresentation, Name.same_iff.mp hsame]
      exact hfirst

theorem digest_inj (h : w.digest message w.algorithm = w.digest message w.algorithm.toFolded) :
    w.algorithm.toFolded = w.algorithm := by
  have hvariables := List.append_cancel_left h
  rw [WireTsig.covers, WireTsig.covers] at hvariables
  have halgorithm := List.append_cancel_left (List.append_cancel_left (List.append_cancel_left hvariables))
  exact (Name.wire_injective (List.append_cancel_right halgorithm)).symm

/-- **The spelling does not matter** exactly where the key is first of its name, its name is spelled as
the wire's is read, and the algorithm's name is in lower case. -/
theorem honoured_iff {hmac : Hmac} {keyring : TsigKeyring} {key : TsigKey} {named : Name} {message : Octets}
    {w : WireTsig} (now : Nat) (hnames : w.Names key named message)
    (hideal : ∀ other, hmac.mac key other = w.mac hmac key message → other = w.digest message w.algorithm.toFolded) :
    (w.Honoured hmac keyring key message now ∧ keyring.Finds key named) ↔
      keyring.get key.name key.algorithm = some key ∧ key.name = toPresentation named.toFolded ∧
        w.algorithm.toFolded = w.algorithm := by
  have hcheck : checkRequest hmac (w.packet hmac key message) keyring now = _ := checkRequest_packet hnames now
  constructor
  · rintro ⟨⟨hintime, hlate⟩, hfinds⟩
    obtain ⟨hfirst, hname⟩ := finds_iff.mp hfinds
    refine ⟨hfirst, hname, ?_⟩
    rw [hname] at hfirst
    rw [hfirst] at hcheck
    dsimp only at hcheck
    split at hcheck
    next hne =>
      by_cases htime : absDiff now w.timeSigned ≤ w.fudge.toNat
      · cases hcheck.symm.trans (hintime htime)
      · obtain ⟨rejection, hrejected, herror, -⟩ := hlate (Nat.not_le.mp htime)
        cases hcheck.symm.trans hrejected
        cases herror
    next heq => exact digest_inj (hideal _ (not_not.mp heq))
  · rintro ⟨hfirst, hname, hlower⟩
    refine ⟨?_, finds_iff.mpr ⟨hfirst, hname⟩⟩
    rw [hname] at hfirst
    have hmac : hmac.mac key (w.digest message w.algorithm) = w.mac hmac key message := by
      rw [WireTsig.mac, hlower]
    rw [hfirst] at hcheck
    dsimp only at hcheck
    rw [if_neg (not_not.mpr hmac)] at hcheck
    refine ⟨fun htime => ?_, fun hlate => ?_⟩
    · rw [hcheck, if_neg (Nat.not_lt.mpr htime)]
    · rw [hcheck, if_pos hlate]
      exact ⟨_, rfl, rfl, rfl⟩

end Checked

section Example

def nameOf (text : String) : Name := (fromPresentation text.toList).toOption.getD .root

def onlyHmac (digest : Octets) : Hmac where
  sign algorithm _ data := List.replicate algorithm.macLen (if data = digest then 1 else 0)
  length_sign _ _ _ := List.length_replicate

def spelled (owner algorithm : String) : WireTsig := ⟨nameOf owner, nameOf algorithm, 1700000000, 300, 4660, 0, []⟩

def spelledHmac (owner algorithm : String) : Hmac :=
  onlyHmac ((spelled owner algorithm).digest axfrRequest (nameOf algorithm).toFolded)

theorem names_spelled {owner algorithm : String} (howner : (nameOf owner).same (nameOf "axfr.") = true)
    (halgorithm : (nameOf algorithm).same (nameOf "hmac-sha256.") = true)
    (hfits : (nameOf owner).wire.length + (nameOf algorithm).wire.length ≤ 1000) :
    (spelled owner algorithm).Names axfrKey (nameOf "axfr.") axfrRequest where
  keyName := by decide +kernel
  owner := howner
  algorithm := ⟨nameOf "hmac-sha256.", by decide +kernel, halgorithm⟩
  time := by show 1700000000 < 2 ^ 48; decide
  other := by show 0 < 65536; decide
  whole := whole_axfr axfrRequest List.mem_cons_self
  fits := by
    show 21 + (nameOf owner).wire.length + 10 + ((nameOf algorithm).wire.length + 16 + 32 + 0) ≤ 65535
    omega

theorem honoured_iff_upper :
    (spelled "AXFR." "hmac-sha256.").Honoured (spelledHmac "AXFR." "hmac-sha256.") ⟨[axfrKey]⟩ axfrKey axfrRequest 1700000000 ∧
      TsigKeyring.Finds ⟨[axfrKey]⟩ axfrKey (nameOf "axfr.") := by
  refine (honoured_iff 1700000000 (names_spelled (by decide +kernel) (by decide +kernel) (by decide +kernel)) ?_).mpr
    ⟨by decide +kernel, by decide +kernel, by decide +kernel⟩
  intro other hsame
  by_contra hne
  have hmac : (spelledHmac "AXFR." "hmac-sha256.").mac axfrKey other = List.replicate 32 0 :=
    congrArg (List.replicate 32) (if_neg hne)
  have hown : (spelled "AXFR." "hmac-sha256.").mac (spelledHmac "AXFR." "hmac-sha256.") axfrKey axfrRequest =
    List.replicate 32 1 := congrArg (List.replicate 32) (if_pos rfl)
  rw [hmac, hown] at hsame
  exact absurd hsame (by decide)

theorem upper_algorithm_refused :
    ¬ (spelled "axfr." "HMAC-SHA256.").Honoured (spelledHmac "axfr." "HMAC-SHA256.") ⟨[axfrKey]⟩ axfrKey axfrRequest
      1700000000 := by
  rintro ⟨hintime, -⟩
  have hverified := hintime (by decide)
  rw [checkRequest_packet (names_spelled (by decide +kernel) (by decide +kernel) (by decide +kernel))] at hverified
  have hget : TsigKeyring.get ⟨[axfrKey]⟩ (toPresentation (nameOf "axfr.").toFolded) axfrKey.algorithm = some axfrKey := by
    decide +kernel
  rw [hget] at hverified
  dsimp only at hverified
  rw [if_pos (by decide +kernel)] at hverified
  cases hverified

end Example

end Rdns.Auth
