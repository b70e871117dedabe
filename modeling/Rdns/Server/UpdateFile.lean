import Rdns.Server.Maintenance
import Rdns.Zones.Update

/-!
# Rdns — Applying an UPDATE to a zone file

`apply_update_to_file` of `rdnsd/src/dispatch.rs`: the zone is read from its file, the
prerequisites are checked, the changes are applied and written back, and only then is the
changed zone signed and verified. A failure of the last two steps is reported as any other,
and the file has moved.

The file is its octets, if it can be read; a write replaces all of them or none.
-/

namespace Rdns.Server

open Rdns.Lib Rdns.Core Rdns.Present Rdns.Zones Rdns.Dnssec RecordTypes

/-! ## The file -/

def fromUtf8 (raw : Octets) : Option Text := raw.toByteArray.utf8Decode?.map Array.toList

theorem fromUtf8_toBytes (text : Text) : fromUtf8 (toBytes text) = some text := by
  show (List.utf8Encode text).utf8Decode?.map Array.toList = some text
  rw [List.utf8Decode?_utf8Encode]
  rfl

def isAsciiWhitespace (octet : UInt8) : Bool :=
  octet == 32 || octet == 9 || octet == 10 || octet == 12 || octet == 13

def isInclude (line : Octets) : Bool :=
  foldCase ((line.dropWhile isAsciiWhitespace).take 8) == foldCase (toBytes "$INCLUDE".toList)

def ofSelfContained (digestOf : Octets → FileDigest) (raw : Octets) : Option FileDigest :=
  if (raw.splitOnP fun octet => octet == 10).any isInclude then none else some (digestOf raw)

/-! ## Signing one zone after an UPDATE -/

inductive UpdateFailure where
  | prerequisite (rejected : Rejected)
  | notWritable
  | unreadable
  | notUtf8
  | zoneFile (error : ZoneError)
  | unwritten
  | signing (error : DnssecError)
  | verification (detail : String)

def signOneIncrementally (crypto : Crypto) (signing : ZoneSigning) (now : Nat) (previous zone : Zone) :
    Except DnssecError (Zone × List (Name × Rtype)) :=
  match signing.keysFor zone.origin with
  | none => .ok (zone, [])
  | some keys => signZoneIncrementally crypto previous zone keys (signing.policyFor zone.origin now)

def signedRrsetsAt (zone : Zone) (name : Name) : List (Name × Rtype) :=
  (zone.query name (.of RRSIG)).filterMap rrsigCovers

def verifyFresh (validator : Validator) (zone : Zone) (fresh : List (Name × Rtype)) (touched : List Name) :
    Except String Zone :=
  if !(zone.records.any fun r => r.rtype == DNSKEY) then
    if validator.requireSigned then .error "the zone is not signed" else .ok zone
  else if (fresh ++ touched.flatMap (signedRrsetsAt zone)).all (validator.validates zone) then .ok zone
  else .error "an RRset does not verify against the zone's own keys"

def namesChanged (changes : List Change) : List Name :=
  changes.map fun
    | .add record => record.name
    | .deleteRrset name _ => name
    | .deleteName name => name
    | .deleteRecord name _ _ => name

/-! ## The call -/

/-- What one call of `apply_update_to_file` is given: the file and whether a text can be
written to it, the served version, the UPDATE, and how the result is signed and checked. -/
structure UpdateCall where
  b64 : Base64
  fs : FileSystem
  base : Option fs.Path
  digestOf : Octets → FileDigest
  contents : Option Octets
  writes : Text → Bool
  origin : Text
  previous : Zone
  prerequisites : List Prerequisite
  changes : List Change
  signing : Option ZoneSigning
  validator : Validator
  crypto : Crypto
  now : Nat
  known : Option FileDigest

structure UpdateReport where
  changed : Nat
  ignored : List Ignored

namespace UpdateCall

variable (call : UpdateCall)

def source : Except UpdateFailure (Zone × FileDigest) :=
  match call.contents with
  | none => .error .unreadable
  | some raw =>
    match ofSelfContained call.digestOf raw with
    | none => .error .notWritable
    | some digest =>
      -- the served copy is the file only when unsigned
      if call.known = some digest ∧ call.signing.isNone then .ok (call.previous, digest)
      else match fromUtf8 raw with
        | none => .error .notUtf8
        | some text =>
          match parseZoneFile call.b64 call.fs call.base text call.origin with
          | .ok zone => .ok (zone, digest)
          | .error e => .error (.zoneFile e)

def applied : Except UpdateFailure (Applied × FileDigest) := do
  let (source, digest) ← call.source
  match checkPrerequisites source call.prerequisites with
  | .error rejected => throw (.prerequisite rejected)
  | .ok () => return (applyUpdate source call.changes, digest)

def signed (zone : Zone) : Except UpdateFailure Zone :=
  match call.signing with
  | none => .ok zone
  | some signing =>
    match signOneIncrementally call.crypto signing call.now call.previous zone with
    | .error e => .error (.signing e)
    | .ok (signed, fresh) =>
      match verifyFresh call.validator signed fresh (namesChanged call.changes) with
      | .error detail => .error (.verification detail)
      | .ok zone => .ok zone

def applyUpdateToFile :
    Except UpdateFailure (Option Zone × UpdateReport × FileDigest) × Option Octets :=
  match call.applied with
  | .error e => (.error e, call.contents)
  | .ok (applied, digest) =>
    let report := ⟨applied.changed, applied.ignored⟩
    if applied.changed = 0 then (.ok (none, report, digest), call.contents)
    else match zoneToString call.b64 applied.zone with
      | .error e => (.error (.zoneFile e), call.contents)
      | .ok text =>
        if !call.writes text then (.error .unwritten, call.contents)
        else match call.signed applied.zone with
          | .error e => (.error e, some (toBytes text))
          | .ok zone => (.ok (some zone, report, call.digestOf (toBytes text)), some (toBytes text))

/-! ## What a failure leaves behind -/

def LeavesFile : Prop :=
  (∀ e, call.applyUpdateToFile.1 = .error e → call.applyUpdateToFile.2 = call.contents) ∧
    ∀ report digest, call.applyUpdateToFile.1 = .ok (none, report, digest) →
      call.applyUpdateToFile.2 = call.contents

/-- What the call writes can be installed: if the changes change something, and the changed
zone has a text that can be written and is not in the file already, then the zone is signed
and verified, where signing is configured. -/
def SignsWhatItWrites : Prop :=
  ∀ applied digest text, call.applied = .ok (applied, digest) → applied.changed ≠ 0 →
    zoneToString call.b64 applied.zone = .ok text → call.writes text = true →
    some (toBytes text) ≠ call.contents → ∃ zone, call.signed applied.zone = .ok zone

end UpdateCall

theorem applyUpdateToFile_cases (call : UpdateCall) :
    (call.applyUpdateToFile.2 = call.contents ∧ call.SignsWhatItWrites ∧
      ∀ zone report digest, call.applyUpdateToFile.1 ≠ .ok (some zone, report, digest)) ∨
    ∃ applied digest text, call.applied = .ok (applied, digest) ∧ applied.changed ≠ 0 ∧
      zoneToString call.b64 applied.zone = .ok text ∧ call.writes text = true ∧
      call.applyUpdateToFile.2 = some (toBytes text) ∧
      ((∃ e, call.signed applied.zone = .error e ∧ call.applyUpdateToFile.1 = .error e) ∨
        ∃ zone report digest, call.signed applied.zone = .ok zone ∧
          call.applyUpdateToFile.1 = .ok (some zone, report, digest)) := by
  rw [UpdateCall.applyUpdateToFile]
  cases happlied : call.applied with
  | error e =>
    refine .inl ⟨rfl, ?_, fun _ _ _ h => (by cases h)⟩
    intro applied digest text h
    rw [happlied] at h
    cases h
  | ok pair =>
    obtain ⟨applied, digest⟩ := pair
    dsimp only
    by_cases hchanged : applied.changed = 0
    · rw [if_pos hchanged]
      refine .inl ⟨rfl, ?_, fun _ _ _ h => (by cases h)⟩
      intro applied' digest' text h hne
      cases happlied.symm.trans h
      exact absurd hchanged hne
    · rw [if_neg hchanged]
      cases htext : zoneToString call.b64 applied.zone with
      | error e =>
        refine .inl ⟨rfl, ?_, fun _ _ _ h => (by cases h)⟩
        intro applied' digest' text h _ hwritten
        cases happlied.symm.trans h
        rw [htext] at hwritten
        cases hwritten
      | ok text =>
        dsimp only
        cases hwrites : call.writes text with
        | false =>
          refine .inl ⟨rfl, ?_, fun _ _ _ h => (by cases h)⟩
          intro applied' digest' text' h _ hwritten hcan
          cases happlied.symm.trans h
          cases htext.symm.trans hwritten
          rw [hwrites] at hcan
          cases hcan
        | true => grind

/-- **A failed UPDATE leaves the file alone** exactly when what is written is signed and
verified too. -/
theorem failed_update_leaves_file_iff (call : UpdateCall) : call.LeavesFile ↔ call.SignsWhatItWrites := by
  rcases applyUpdateToFile_cases call with ⟨hafter, hsigns, -⟩ |
    ⟨applied, digest, text, happlied, hchanged, htext, hwrites, hafter, hresult⟩
  · exact ⟨fun _ => hsigns, fun _ => ⟨fun _ _ => hafter, fun _ _ _ => hafter⟩⟩
  · rcases hresult with ⟨e, hsigned, hresult⟩ | ⟨zone, report, digest', hsigned, hresult⟩
    · -- the file holds the new text, and the caller is told of a failure
      constructor
      · rintro ⟨hfailed, -⟩ applied' digest' text' h _ hwritten _ hnew
        cases happlied.symm.trans h
        cases htext.symm.trans hwritten
        rw [hafter] at hfailed
        exact absurd (hfailed e hresult) hnew
      · intro hsigns
        have hsame : some (toBytes text) = call.contents := by
          by_contra hnew
          obtain ⟨zone, hzone⟩ := hsigns applied digest text happlied hchanged htext hwrites hnew
          rw [hsigned] at hzone
          cases hzone
        rw [UpdateCall.LeavesFile, hafter]
        exact ⟨fun _ _ => hsame, fun _ _ _ => hsame⟩
    · constructor
      · intro _ applied' digest'' text' h _ _ _ _
        cases happlied.symm.trans h
        exact ⟨zone, hsigned⟩
      · grind [UpdateCall.LeavesFile]

/-! ## A CDS that contradicts a key -/

def goInsecure : ResourceRecord := ⟨ex, .IN, ⟨60⟩, ⟨CDS, [0, 0, 0, 0, 0]⟩⟩

def syncSigning : ZoneSigning where
  keys := [(ex, [firstKey 257 { KeyTiming.default with syncPublish := some 0 }])]
  validity := 86400
  chain := .nsec
  perZone := []

def goInsecureCall : UpdateCall where
  b64 := noBase64
  fs := noFiles
  base := none
  digestOf := fun raw => UInt64.ofNat raw.length
  contents := some (toBytes smallText)
  writes := fun _ => true
  origin := "ex.".toList
  previous := zoneOf ex []
  prerequisites := []
  changes := [.add goInsecure]
  signing := some syncSigning
  validator := ⟨true, false, fun _ _ => true⟩
  crypto := ed25519Crypto
  now := 1754197300
  known := none

theorem source_goInsecure {z : Zone}
    (hload : parseZoneFile noBase64 noFiles none smallText "ex.".toList = .ok z) :
    goInsecureCall.source = .ok (z, UInt64.ofNat (toBytes smallText).length) := by
  have hself : ofSelfContained goInsecureCall.digestOf (toBytes smallText)
      = some (UInt64.ofNat (toBytes smallText).length) := by
    decide +kernel
  have hread : fromUtf8 (toBytes smallText) = some smallText := fromUtf8_toBytes smallText
  simp only [UpdateCall.source, goInsecureCall] at hself ⊢
  rw [hself, hread]
  simp only [hload, reduceCtorEq, false_and, if_false]

theorem go_insecure_moves_file : ¬ ∀ call : UpdateCall, call.LeavesFile := by
  intro h
  obtain ⟨z, hload, horigin, hrecords⟩ := smallText_loads
  have happlied : goInsecureCall.applied
      = .ok (applyUpdate z [.add goInsecure], UInt64.ofNat (toBytes smallText).length) := by
    rw [UpdateCall.applied, source_goInsecure hload]
    rfl
  have hchanged : (applyUpdate z [.add goInsecure]).changed ≠ 0 := by
    rw [applyUpdate, Working.new, horigin, hrecords]
    decide +kernel
  have hsigned : (goInsecureCall.signed (applyUpdate z [.add goInsecure]).zone).isOk = false := by
    rw [applyUpdate, Working.new, horigin, hrecords]
    decide +kernel
  have htext : (zoneToString noBase64 (applyUpdate z [.add goInsecure]).zone).toOption.any
      (fun text => decide (toBytes text ≠ toBytes smallText)) = true := by
    rw [applyUpdate, Working.new, horigin, hrecords]
    decide +kernel
  obtain ⟨text, hwritten, hmoved⟩ : ∃ text,
      zoneToString noBase64 (applyUpdate z [.add goInsecure]).zone = .ok text ∧
        toBytes text ≠ toBytes smallText := by
    cases hwrite : zoneToString noBase64 (applyUpdate z [.add goInsecure]).zone with
    | error e =>
      rw [hwrite] at htext
      cases htext
    | ok text =>
      rw [hwrite] at htext
      exact ⟨text, rfl, of_decide_eq_true htext⟩
  rcases applyUpdateToFile_cases goInsecureCall with ⟨-, hsigns, -⟩ |
    ⟨applied, digest, text', happlied', -, hwritten', -, hafter, hresult⟩
  · obtain ⟨zone, hzone⟩ := hsigns _ _ text happlied hchanged hwritten rfl
      (fun heq => hmoved (Option.some.inj heq))
    rw [hzone] at hsigned
    cases hsigned
  · cases happlied.symm.trans happlied'
    cases hwritten.symm.trans hwritten'
    rcases hresult with ⟨e, -, hfailed⟩ | ⟨zone, -, -, hzone, -⟩
    · exact hmoved (Option.some.inj (hafter.symm.trans ((h goInsecureCall).1 e hfailed)))
    · rw [hzone] at hsigned
      cases hsigned

end Rdns.Server
