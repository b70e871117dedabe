import Rdns.Dnssec.SignerLaws

/-!
# Rdns — The serial of a signed zone

A signed zone is served under its file's serial plus the hours since the epoch
(`signed_serial`). What the zone holds also moves with the keys and with the signatures, so
two runs inside one hour can serve different zones under one serial.
-/

namespace Rdns.Dnssec

open Rdns.Lib Rdns.Core Rdns.Present Rdns.Zones RecordTypes

/-! ## The apex SOA through a run -/

section Soa

variable {origin : Name} {policy : SigningPolicy}

theorem find?_carried {records : List ZoneRecord} {carried : List (Option (ZoneRecord × Option (Ttl × UInt32)))}
    (h : records.mapM (carryOne origin policy) = .ok carried) :
    (((carried.filterMap id).map Prod.fst).find? (isSoaAt origin) = none ∧
      (carried.filterMap id).filterMap Prod.snd = []) ∨
    ∃ soa out info, records.find? (isSoaAt origin) = some soa ∧
      carryOne origin policy soa = .ok (some (out, info)) ∧
      ((carried.filterMap id).map Prod.fst).find? (isSoaAt origin) = some out := by
  induction records generalizing carried with
  | nil =>
    cases h
    exact .inl ⟨rfl, rfl⟩
  | cons r records ih =>
    rw [List.mapM_cons] at h
    obtain ⟨first, hfirst, h⟩ := except_bind_eq_ok.mp h
    obtain ⟨rest, hrest, h⟩ := except_bind_eq_ok.mp h
    cases h
    cases first with
    | none =>
      have hnot : isSoaAt origin r = false := by
        cases hat : isSoaAt origin r with
        | false => rfl
        | true =>
          exact absurd hfirst (carryOne_soa_ne_none hat)
      rw [List.find?_cons_of_neg (by simp [hnot])]
      have hrest := ih hrest
      exact hrest
    | some pair =>
      obtain ⟨out, info⟩ := pair
      obtain ⟨hname, hrtype, -, hplain, hsoa⟩ := of_carryOne hfirst
      have hsame : isSoaAt origin out = isSoaAt origin r := by rw [isSoaAt, isSoaAt, hname, hrtype]
      show (((out :: (rest.filterMap id).map Prod.fst).find? (isSoaAt origin) = none ∧
        ((out, info) :: rest.filterMap id).filterMap Prod.snd = []) ∨ _)
      cases hat : isSoaAt origin r with
      | true =>
        refine .inr ⟨r, out, info, List.find?_cons_of_pos hat, hfirst, ?_⟩
        exact List.find?_cons_of_pos (hsame.trans hat)
      | false =>
        have hout : ¬ isSoaAt origin out = true := by simp [hsame, hat]
        rw [List.find?_cons_of_neg hout, List.find?_cons_of_neg (by simp [hat])]
        obtain ⟨-, rfl⟩ := hplain hat
        rcases ih hrest with ⟨hfind, hinfo⟩ | ⟨soa, soaOut, soaInfo, hfind, hcarry, hfound⟩
        · exact .inl ⟨hfind, by simpa using hinfo⟩
        · refine .inr ⟨soa, soaOut, soaInfo, hfind, hcarry, ?_⟩
          show (out :: (rest.filterMap id).map Prod.fst).find? (isSoaAt origin) = some soaOut
          rw [List.find?_cons_of_neg hout]
          exact hfound

theorem length_soa {mname rname : Name} {serial : Serial} {refresh retry expire : Int32} {minimum : UInt32}
    {rdata : RecordData}
    (h : RecordData.fromParsed (.soa mname rname serial refresh retry expire minimum) = .ok rdata) :
    rdata.rdata ≠ [] ∧ rdata.rdata.length ≤ 65535 := by
  have henc := (RecordData.fromParsed_eq_ok h).2
  rw [ParsedRecord.encodeRdata] at henc
  have hrdata := Except.ok.inj henc
  have hm := Name.length_wire_le mname
  have hr := Name.length_wire_le rname
  constructor
  · intro hnil
    rw [hnil] at hrdata
    simp [be32] at hrdata
  · grind [length_be32]

theorem find?_carryOverRecords {zone : Zone} {carried : List ZoneRecord} {soaTtl : Ttl} {minimum : UInt32}
    (h : carryOverRecords zone origin policy = .ok (carried, soaTtl, minimum)) :
    ∃ soa out info, zone.records.find? (isSoaAt origin) = some soa ∧
      carryOne origin policy soa = .ok (some (out, info)) ∧
      ∃ ttl, carried.find? (isSoaAt origin) = some { out with ttl } := by
  obtain ⟨all, hall, h⟩ := except_bind_eq_ok.mp h
  dsimp only at h
  split at h
  · cases h
  · rename_i soaInfo hlast
    cases h
    rcases find?_carried hall with ⟨-, hnone⟩ | ⟨soa, out, info, hfind, hcarry, hfound⟩
    · rw [hnone] at hlast
      cases hlast
    · refine ⟨soa, out, info, hfind, hcarry,
        rrsetTtl ((all.filterMap id).map Prod.fst) out.name out.rtype out.ttl, ?_⟩
      rw [withRrsetTtls, List.find?_map]
      show ((List.find? (isSoaAt origin) _).map _) = _
      rw [hfound]
      rfl

end Soa

/-- **The serial a run serves**: its file's, and the hours since the epoch. -/
theorem served_serial {run : SigningRun} {served : Zone} (h : run.served = .ok served) :
    ∃ file, run.zone.fileSerial = some file ∧
      served.serial = some (signedSerial file run.policy.signedAt) := by
  obtain ⟨out, fresh, hout, rfl⟩ := of_served h
  obtain ⟨layout, signed, hunsigned, hsigned⟩ := of_signRecords hout
  obtain ⟨-, made, -, rfl⟩ := of_signEverything hsigned
  obtain ⟨carried, soaTtl, minimum, hcarried, hprefix⟩ := carried_of_unsigned hunsigned
  obtain ⟨soa, carriedSoa, info, hfind, hcarry, ttl, hfound⟩ := find?_carryOverRecords hcarried
  obtain ⟨-, hrtype, -, -, hserial⟩ := of_carryOne hcarry
  obtain ⟨mname, rname, file, refresh, retry, expire, least, hparse, hencode, -⟩ :=
    hserial (List.find?_some hfind)
  refine ⟨file, ?_, ?_⟩
  · have hsame : run.zone.isApexSoa = isSoaAt run.zone.origin.toFolded := by
      funext r
      rw [Zone.isApexSoa, isSoaAt, same_toFolded_right]
    rw [Zone.fileSerial, hsame, hfind]
    dsimp only
    rw [hparse]
  · rw [(inOrder_zoneOf _ _).serial, Zone.fileSerial]
    have hall : (signed ++ made.flatMap Prod.fst).find? (isSoaAt run.zone.origin.toFolded)
        = some { carriedSoa with ttl } := by
      obtain ⟨rest, rfl⟩ := hprefix
      rw [List.append_assoc, List.find?_append, hfound]
      rfl
    have hstored : (zoneOf run.zone.origin (signed ++ made.flatMap Prod.fst)).records.find?
        (zoneOf run.zone.origin (signed ++ made.flatMap Prod.fst)).isApexSoa
        = some (storedRecord { carriedSoa with ttl }) := by
      rw [zoneOf_records, List.find?_map]
      have hpred : (zoneOf run.zone.origin (signed ++ made.flatMap Prod.fst)).isApexSoa ∘ storedRecord
          = isSoaAt run.zone.origin.toFolded := by
        funext r
        rw [Function.comp, Zone.isApexSoa, zoneOf_origin]
        rfl
      rw [hpred, hall]
      rfl
    rw [hstored]
    dsimp only
    have hkept : (storedRecord { carriedSoa with ttl }).rdata = carriedSoa.rdata :=
      stored_eq_self (length_soa hencode).2
    rw [hkept, RecordData.fromParsed_parse hencode (length_soa hencode).1]
    rfl

/-! ## Two runs -/

def serialAdvance (file₁ file₂ : Serial) (signedAt₁ signedAt₂ : Nat) : Nat :=
  ((file₂.value - file₁.value).toNat + (signedAt₂ / 3600 - signedAt₁ / 3600)) % 2 ^ 32

theorem signedSerial_newer_iff {file₁ file₂ : Serial} {signedAt₁ signedAt₂ : Nat}
    (h : signedAt₁ ≤ signedAt₂) :
    (signedSerial file₂ signedAt₂).isNewerThan (signedSerial file₁ signedAt₁) = true ↔
      0 < serialAdvance file₁ file₂ signedAt₁ signedAt₂ ∧
        serialAdvance file₁ file₂ signedAt₁ signedAt₂ < 2 ^ 31 := by
  have hhours : signedAt₁ / 3600 ≤ signedAt₂ / 3600 := Nat.div_le_div_right h
  have hforward : ((signedSerial file₂ signedAt₂).value - (signedSerial file₁ signedAt₁).value).toNat
      = serialAdvance file₁ file₂ signedAt₁ signedAt₂ := by
    have h₁ := file₁.value.toNat_lt
    have h₂ := file₂.value.toNat_lt
    simp only [signedSerial, Serial.wrappingAdd, serialAdvance, UInt32.toNat_sub, UInt32.toNat_add,
      UInt32.toNat_ofNat']
    generalize signedAt₁ / 3600 = hours₁, signedAt₂ / 3600 = hours₂ at hhours ⊢
    omega
  rw [Serial.isNewerThan, Bool.and_eq_true, decide_eq_true_eq, hforward, bne_iff_ne, ne_eq,
    ← UInt32.toNat_inj, hforward]
  show ¬ _ = 0 ∧ _ ↔ _
  omega

def DiffersOutsideSoa (before after : Zone) : Prop :=
  ∃ r : ZoneRecord, r.rtype ≠ SOA ∧ ¬ (r ∈ before.records ↔ r ∈ after.records)

def SerialMoves (before after : Zone) : Prop :=
  DiffersOutsideSoa before after →
    ∃ old new, before.serial = some old ∧ after.serial = some new ∧ new.isNewerThan old = true

/-- **When a change is visible.** -/
theorem serial_moves_iff {first second : SigningRun} {before after : Zone} {file₁ file₂ : Serial}
    (hfirst : first.served = .ok before) (hsecond : second.served = .ok after)
    (hfile₁ : first.zone.fileSerial = some file₁) (hfile₂ : second.zone.fileSerial = some file₂)
    (htime : first.policy.signedAt ≤ second.policy.signedAt) (hdiffer : DiffersOutsideSoa before after) :
    SerialMoves before after ↔
      0 < serialAdvance file₁ file₂ first.policy.signedAt second.policy.signedAt ∧
        serialAdvance file₁ file₂ first.policy.signedAt second.policy.signedAt < 2 ^ 31 := by
  obtain ⟨f₁, hf₁, hold⟩ := served_serial hfirst
  obtain ⟨f₂, hf₂, hnew⟩ := served_serial hsecond
  obtain rfl : f₁ = file₁ := Option.some.inj (hf₁.symm.trans hfile₁)
  obtain rfl : f₂ = file₂ := Option.some.inj (hf₂.symm.trans hfile₂)
  rw [← signedSerial_newer_iff htime]
  constructor
  · intro h
    obtain ⟨old, new, ho, hn, hnewer⟩ := h hdiffer
    obtain rfl : old = _ := Option.some.inj (ho.symm.trans hold)
    obtain rfl : new = _ := Option.some.inj (hn.symm.trans hnew)
    exact hnewer
  · intro hnewer _
    exact ⟨_, _, hold, hnew, hnewer⟩

def rollRun (signedAt : Nat) : SigningRun where
  crypto := ed25519Crypto
  zone := zoneOf ex [exSoa]
  keys := [firstKey 257 .default, secondKey 257 { KeyTiming.default with publish := some 1754198200 }]
  policy := SigningPolicy.validFor signedAt 2592000 .nsec .local
  previous := none

def rollKey : ZoneRecord :=
  ⟨ex, ⟨300⟩, .IN, ⟨DNSKEY, (secondKey 257 .default).dnskeyRdata⟩⟩

theorem rollRun_served (signedAt : Nat) (h : (rollRun signedAt).encodes = true) :
    ∃ zone, (rollRun signedAt).served = .ok zone := by
  refine served_isOk (fun key hkey => ?_) h
  rcases List.mem_cons.mp hkey with rfl | hkey
  · exact signs_firstKey _ _
  · rw [List.mem_singleton.mp hkey]
    exact signs_secondKey _ _

def gainsKey (run : SigningRun) : Bool :=
  match unsigned run.crypto run.zone run.keys run.policy with
  | .ok (_, signed) => (signed.map storedRecord).contains rollKey
  | .error _ => false

theorem mem_served_rollKey {run : SigningRun} {zone : Zone} (h : run.served = .ok zone) :
    rollKey ∈ zone.records ↔ gainsKey run = true := by
  obtain ⟨layout, signed, hunsigned, hmem⟩ := mem_served_iff h (r := rollKey) (by decide)
  rw [hmem, gainsKey, hunsigned]
  exact List.contains_iff_mem.symm

theorem rollRun_differs {signedAt₁ signedAt₂ : Nat} {before after : Zone}
    (hfirst : (rollRun signedAt₁).served = .ok before) (hsecond : (rollRun signedAt₂).served = .ok after)
    (hold : gainsKey (rollRun signedAt₁) = false) (hnew : gainsKey (rollRun signedAt₂) = true) :
    DiffersOutsideSoa before after := by
  refine ⟨rollKey, by decide, fun hsame => ?_⟩
  rw [mem_served_rollKey hfirst, mem_served_rollKey hsecond, hold, hnew] at hsame
  exact absurd (hsame.mpr rfl) (by decide)

theorem serial_moves_hour :
    ∃ before after, (rollRun 1754197300).served = .ok before ∧ (rollRun 1754200900).served = .ok after ∧
      DiffersOutsideSoa before after ∧ SerialMoves before after := by
  obtain ⟨before, hbefore⟩ := rollRun_served 1754197300 (by decide +kernel)
  obtain ⟨after, hafter⟩ := rollRun_served 1754200900 (by decide +kernel)
  have hdiffer := rollRun_differs hbefore hafter (by decide +kernel) (by decide +kernel)
  have hfile₁ : (rollRun 1754197300).zone.fileSerial = some ⟨0⟩ := by decide +kernel
  have hfile₂ : (rollRun 1754200900).zone.fileSerial = some ⟨0⟩ := by decide +kernel
  exact ⟨before, after, hbefore, hafter, hdiffer,
    (serial_moves_iff hbefore hafter hfile₁ hfile₂ (by decide) hdiffer).mpr (by decide)⟩

/-- **Inside one hour it does not**: the key is published between two runs, and both zones
have the same serial. -/
theorem same_hour_same_serial :
    ¬ ∀ (first second : SigningRun) (before after : Zone) (file₁ file₂ : Serial),
      first.served = .ok before → second.served = .ok after →
      (second.previous = none ∨ second.previous = some before) →
      first.zone.fileSerial = some file₁ → second.zone.fileSerial = some file₂ →
      (file₂ = file₁ ∨ file₂.isNewerThan file₁ = true) →
      first.policy.signedAt ≤ second.policy.signedAt → SerialMoves before after := by
  intro h
  obtain ⟨before, hbefore⟩ := rollRun_served 1754197300 (by decide +kernel)
  obtain ⟨after, hafter⟩ := rollRun_served 1754198201 (by decide +kernel)
  have hdiffer := rollRun_differs hbefore hafter (by decide +kernel) (by decide +kernel)
  have hfile₁ : (rollRun 1754197300).zone.fileSerial = some ⟨0⟩ := by decide +kernel
  have hfile₂ : (rollRun 1754198201).zone.fileSerial = some ⟨0⟩ := by decide +kernel
  obtain ⟨old, new, hold, hnew, hnewer⟩ := h _ _ before after ⟨0⟩ ⟨0⟩ hbefore hafter (.inl rfl)
    hfile₁ hfile₂ (.inl rfl) (by decide) hdiffer
  obtain ⟨file₁, hf₁, hserial₁⟩ := served_serial hbefore
  obtain ⟨file₂, hf₂, hserial₂⟩ := served_serial hafter
  obtain rfl : file₁ = ⟨0⟩ := Option.some.inj (hf₁.symm.trans hfile₁)
  obtain rfl : file₂ = ⟨0⟩ := Option.some.inj (hf₂.symm.trans hfile₂)
  rw [Option.some.inj (hold.symm.trans hserial₁), Option.some.inj (hnew.symm.trans hserial₂)] at hnewer
  exact absurd hnewer (by decide)

end Rdns.Dnssec
