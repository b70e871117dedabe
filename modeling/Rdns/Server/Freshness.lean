import Rdns.Server.Maintenance

/-!
# Rdns — How long the served signatures live

Only a load that the loop's own timer starts makes the signatures anew, and every other load
sets the timer back to its full interval. A zone whose file has not moved is kept whole with
the signatures it has, and a carried signature is one that has not expired yet. So the
signatures are as old as the last refresh, whatever was reloaded since.
-/

namespace Rdns.Server

open Rdns.Lib Rdns.Core Rdns.Present Rdns.Zones Rdns.Dnssec RecordTypes

def expirationOf (data : RecordData) : Option UInt32 :=
  match data.parse with
  | .ok (.rrsig _ _ _ _ _ expiration _ _ _) => some expiration
  | _ => none

/-! ## The RRSIGs of one signing -/

theorem expirationOf_parsed {data : RecordData} {sig : Rrsig} (h : data.parse = .ok sig.parsed) :
    expirationOf data = some sig.expiration := by
  rw [expirationOf, h]
  rfl

/-- **Where the RRSIGs of a signing come from**: they were in the zone that was served before,
or they expire when the policy says. -/
theorem rrsig_of_served {run : SigningRun} {zone : Zone} (hserved : run.served = .ok zone)
    (hlocal : run.policy.dnskeySignature = .local)
    (hshort : ∀ algorithm key data signature, run.crypto.sign algorithm key data = .ok signature →
      signature.length ≤ 65000)
    (hprevious : ∀ p, run.previous = some p → p.Fits) {r : ZoneRecord} (hr : r ∈ zone.records)
    (hrrsig : r.rtype = RRSIG) :
    (∃ p, run.previous = some p ∧ ∃ old ∈ p.records, old.rtype = RRSIG ∧ old.rdata = r.rdata) ∨
      ∃ name rtype, expirationOf r.rdata = some (run.policy.expiryFor name rtype) := by
  obtain ⟨out, fresh, hout, rfl⟩ := of_served hserved
  obtain ⟨layout, signed, hunsigned, hsigned⟩ := of_signRecords hout
  rw [zoneOf_records] at hr
  obtain ⟨made, hmade, rfl⟩ := List.mem_map.mp hr
  rcases (mem_signEverything hsigned).mp hmade with hmade | ⟨key, rrset, all, names, -, hover, hmade⟩
  · exact absurd hrrsig (unsigned_noRrsig hlocal hunsigned made hmade)
  · rcases of_signaturesOver hover with ⟨-, rfl⟩ | ⟨-, ⟨carried, hcarried, rfl⟩ | ⟨-, hall⟩⟩
    · cases hmade
    · obtain ⟨s, hs, rfl⟩ := List.mem_map.mp hmade
      obtain ⟨was, tags, hwas, -, hreuse⟩ := of_carriedFor hcarried
      rw [(of_reuse hreuse).1] at hs
      obtain ⟨old, hold, -, holdType, hrdata, -⟩ := mem_previousSignatures hs
      obtain ⟨p, hp, rfl⟩ := Option.map_eq_some_iff.mp hwas
      refine .inl ⟨p, hp, old, hold, holdType, ?_⟩
      show old.rdata = stored s.rdata
      rw [hrdata, stored_eq_self (hprevious p hp old hold)]
    · obtain ⟨signer, -, hsignature⟩ := mem_of_mapM_ok hall hmade
      obtain ⟨sig, hsig, -, -, -, -, hparse⟩ := of_signatureBy hsignature
      obtain ⟨data, signature, -, -, rfl⟩ := of_signRrset hsig
      refine .inr ⟨rrset.name, rrset.rtype, ?_⟩
      show expirationOf (stored made.rdata) = _
      rw [stored_eq_self (length_signatureBy hshort hsignature)]
      exact expirationOf_parsed hparse

/-! ## What a load installs -/

section Load

variable {signing : ZoneSigning}

theorem keysFor_holding (held : SigningKey → Bool) (origin : Name) :
    (signing.holding held).keysFor origin
      = (signing.keysFor origin).map fun keys => keys.map fun key => { key with held := held key } := by
  rw [ZoneSigning.keysFor, ZoneSigning.keysFor, ZoneSigning.holding, List.find?_map, Option.map_map,
    Option.map_map]
  rfl

variable {key : Name} {zone : Zone}

theorem mem_of_kept {proved : Entries Name KeyRoles} {served : ZoneMap} {now : Nat}
    {files : Entries String (FileDigest × Name)} {list : List ZoneFile}
    (h : (key, zone, true) ∈ (loadFiles signing proved served now files list).1) :
    (key, zone) ∈ served := by
  induction list generalizing files with
  | nil => cases h
  | cons file rest ih =>
    rw [loadFiles] at h
    rcases List.mem_cons.mp h with heq | h
    · rw [loadOne] at heq
      split at heq
      · rename_i key' zone' hkept
        cases heq
        rw [zoneFor] at hkept
        obtain ⟨digest, -, hkept⟩ := Option.bind_eq_some_iff.mp hkept
        obtain ⟨lastKey, -, hkept⟩ := Option.bind_eq_some_iff.mp hkept
        obtain ⟨found, hfound, hkept⟩ := Option.bind_eq_some_iff.mp hkept
        have hmem := Entries.mem_of_get hfound
        split at hkept
        · cases hkept
          exact hmem
        · grind
      · cases heq
    · exact ih h

theorem mem_foldl_insert {loaded : List (Name × Zone × Bool)} {zones : ZoneMap}
    (h : (key, zone) ∈ loaded.foldl (fun zones (entry : Name × Zone × Bool) =>
      Entries.insert zones entry.1 entry.2.1) zones) :
    (key, zone) ∈ zones ∨ ∃ kept, (key, zone, kept) ∈ loaded := by
  induction loaded generalizing zones with
  | nil => exact .inl h
  | cons entry rest ih =>
    rcases ih h with h | ⟨kept, h⟩
    · rcases Entries.mem_insert.mp h with ⟨rfl, rfl⟩ | ⟨h, -⟩
      · exact .inr ⟨entry.2.2, List.mem_cons_self⟩
      · exact .inl h
    · exact .inr ⟨kept, List.mem_cons_of_mem _ h⟩

/-- **A load keeps what it says it keeps**, where no two files are filed under one name. -/
theorem mem_of_mem_kept {loaded : List (Name × Zone × Bool)} (hnodup : (loaded.map Prod.fst).Nodup)
    (hzone : (key, zone) ∈ (loadZones loaded).1) (hkept : key ∈ (loadZones loaded).2) :
    (key, zone, true) ∈ loaded := by
  rcases mem_foldl_insert hzone with h | ⟨kept, hmem⟩
  · cases h
  · obtain ⟨⟨key', zone', flag⟩, hfiltered, rfl⟩ := List.mem_map.mp hkept
    obtain ⟨hmem', hflag⟩ := List.mem_filter.mp hfiltered
    have heq := List.inj_on_of_nodup_map hnodup hmem hmem' rfl
    cases heq
    obtain rfl : kept = true := hflag
    exact hmem

theorem of_signOne {crypto : Crypto} {previous : Option ZoneMap} {kept : List Name} {now : Nat}
    {signed : Zone} {keys : List SigningKey} {names : List (Name × Rtype)}
    (h : signOne crypto signing previous kept now key zone keys = .ok (signed, names)) :
    (key ∈ kept ∧ signed = zone) ∨
      SigningRun.served ⟨crypto, zone, keys, signing.policyFor key now,
        previous.bind fun served => served.get key⟩ = .ok signed := by
  rw [signOne] at h
  split at h
  · grind
  · dsimp only at h
    refine .inr ?_
    rw [SigningRun.served]
    split at h
    · rename_i served hserved
      dsimp only
      rw [hserved]
      exact except_bind_eq_ok.mpr ⟨_, h, rfl⟩
    · rename_i hnone
      dsimp only
      rw [hnone]
      obtain ⟨out, hout, h⟩ := except_bind_eq_ok.mp h
      cases h
      exact hout

/-- **What a reload installs** under a name this server signs. -/
theorem of_reloadOnce {it : Iteration} {before after : Served}
    (h : reloadOnce signing it before = .ok after) (hzone : (key, zone) ∈ after.zones)
    {keys : List SigningKey} (hkeys : (signing.holding it.held).keysFor key = some keys) :
    ∃ loaded names, (key, loaded) ∈ (loadZones (it.load signing before).1).1 ∧
      signOne it.crypto (signing.holding it.held)
        (if it.trigger.refreshesSignatures then none else some before.zones)
        (loadZones (it.load signing before).1).2 it.now key loaded keys = .ok (zone, names) := by
  rw [reloadOnce] at h
  obtain ⟨entries, hentries, h⟩ := except_bind_eq_ok.mp h
  obtain ⟨proved, -, h⟩ := except_bind_eq_ok.mp h
  cases h
  obtain ⟨⟨key', zone', run⟩, hentry, heq⟩ := List.mem_map.mp hzone
  cases heq
  obtain ⟨⟨loadedKey, loaded⟩, hloaded, hsigned⟩ := mem_of_mapM_ok (mapError_eq_ok.mp hentries) hentry
  dsimp only at hsigned
  split at hsigned
  · grind
  · rename_i found hfound
    obtain ⟨⟨signed, names⟩, hsignOne, hsigned⟩ := except_bind_eq_ok.mp hsigned
    cases hsigned
    cases hkeys.symm.trans hfound
    exact ⟨loaded, names, hloaded, hsignOne⟩

end Load

/-! ## One step -/

def lifetime (signing : ZoneSigning) (key : Name) : Nat :=
  signing.validityFor key - signing.validityFor key / EXPIRY_JITTER_FRACTION

def LiveSince (signing : ZoneSigning) (since : Nat) (served : Served) : Prop :=
  ∀ key zone, (key, zone) ∈ served.zones → (signing.keysFor key).isSome = true →
    zone.Fits ∧ ∀ r ∈ zone.records, r.rtype = RRSIG →
      ∃ expiration, expirationOf r.rdata = some expiration ∧ since + lifetime signing key ≤ expiration.toNat

/-- A load as the server makes them: the clock and the validities inside the 32 bits an RRSIG
has for times, signatures that fit in RDATA, and no two files filed under one name. -/
structure Ordinary (signing : ZoneSigning) (before : Served) (it : Iteration) : Prop where
  clock : ∀ key, it.now + signing.validityFor key < 2 ^ 32
  short : ∀ algorithm key data signature, it.crypto.sign algorithm key data = .ok signature →
    signature.length ≤ 65000
  oneFile : ((it.load signing before).1.map Prod.fst).Nodup

variable {signing : ZoneSigning}

/-- **What one load does to the age of the signatures**: those it makes are of its own moment,
and the others are as they were. -/
theorem liveSince_of_reload {it : Iteration} {before after : Served}
    (hours : ∀ key, (signing.overrideFor key).dnskeyRrsig ≠ some .imported)
    (hok : Ordinary signing before it) (hload : reloadOnce signing it before = .ok after)
    {since : Nat} (hnow : since ≤ it.now)
    (hsince : it.trigger.refreshesSignatures = false → LiveSince signing since before) :
    LiveSince signing since after := by
  intro key zone hzone hsigns
  obtain ⟨keys, hkeys⟩ := Option.isSome_iff_exists.mp hsigns
  have hheld : (signing.holding it.held).keysFor key = _ := keysFor_holding it.held key
  rw [hkeys, Option.map_some] at hheld
  obtain ⟨loaded, names, hloaded, hsignOne⟩ := of_reloadOnce hload hzone hheld
  rcases of_signOne hsignOne with ⟨hkept, rfl⟩ | hserved
  · -- kept whole: the zone is one that was served
    have hserving := mem_of_kept (mem_of_mem_kept hok.oneFile hloaded hkept)
    cases hrefreshes : it.trigger.refreshesSignatures with
    | true => grind
    | false =>
      rw [hrefreshes, if_neg (by decide)] at hserving
      exact hsince hrefreshes key _ hserving hsigns
  · refine ⟨fits_of_served hserved, fun r hr hrrsig => ?_⟩
    have hprevious : ∀ p, (if it.trigger.refreshesSignatures = true then none else some before.zones).bind
        (fun served => served.get key) = some p →
        it.trigger.refreshesSignatures = false ∧ (key, p) ∈ before.zones := by
      intro p hp
      cases hrefreshes : it.trigger.refreshesSignatures with
      | true =>
        rw [hrefreshes] at hp
        cases hp
      | false => grind [Entries.mem_of_get]
    have hlocal : ((signing.holding it.held).policyFor key it.now).dnskeySignature = .local := by
      show (signing.overrideFor key).dnskeyRrsig.getD .local = .local
      cases hsource : (signing.overrideFor key).dnskeyRrsig with
      | none => rfl
      | some source =>
        cases source with
        | «local» => rfl
        | imported => exact absurd hsource (hours key)
    have hfits : ∀ p, (if it.trigger.refreshesSignatures = true then none else some before.zones).bind
        (fun served => served.get key) = some p → p.Fits := by
      intro p hp
      obtain ⟨hrefreshes, hmem⟩ := hprevious p hp
      exact (hsince hrefreshes key p hmem hsigns).1
    rcases rrsig_of_served hserved hlocal hok.short hfits hr hrrsig with
      ⟨p, hp, old, hold, holdType, hrdata⟩ | ⟨name, rtype, hexpires⟩
    · -- carried: the record was in the zone before
      obtain ⟨hrefreshes, hmem⟩ := hprevious p hp
      rw [← hrdata]
      exact (hsince hrefreshes key p hmem hsigns).2 old hold holdType
    · refine ⟨_, hexpires, ?_⟩
      have hle := le_expiryFor (hok.clock key) ((signing.holding it.held).chainFor key)
        (((signing.holding it.held).overrideFor key).dnskeyRrsig.getD .local) name rtype
      have hmade : since + lifetime signing key
          ≤ it.now + signing.validityFor key - signing.validityFor key / EXPIRY_JITTER_FRACTION := by
        have := Nat.div_le_self (signing.validityFor key) EXPIRY_JITTER_FRACTION
        rw [lifetime]
        omega
      exact hmade.trans hle

/-! ## Runs -/

theorem refreshedAt_le {ok : Served → Iteration → Prop} {events : List Iteration} {served : Served}
    (h : Maintained signing ok events served) :
    ∃ last earlier, events = last :: earlier ∧ refreshedAt events ≤ last.now := by
  induction h with
  | @start it served htrigger hok hload => grind [refreshedAt]
  | @next it last earlier before after h htrigger htime htimer hok hload ih =>
    obtain ⟨_, _, heq, hle⟩ := ih
    cases heq
    refine ⟨it, last :: earlier, rfl, ?_⟩
    rw [refreshedAt]
    split
    · exact le_refl _
    · exact hle.trans htime

/-- **The invariant of a run**: the signatures are as old as the last refresh. -/
theorem Maintained.liveSince {events : List Iteration} {served : Served}
    (hours : ∀ key, (signing.overrideFor key).dnskeyRrsig ≠ some .imported)
    (h : Maintained signing (Ordinary signing) events served) :
    LiveSince signing (refreshedAt events) served := by
  induction h with
  | @start it served htrigger hok hload =>
    have hrefreshes : it.trigger.refreshesSignatures = true := by
      rw [htrigger]
      rfl
    rw [refreshedAt, if_pos hrefreshes]
    refine liveSince_of_reload hours hok hload (le_refl _) fun hnot => ?_
    rw [hrefreshes] at hnot
    cases hnot
  | @next it last earlier before after h htrigger htime htimer hok hload ih =>
    obtain ⟨_, _, heq, hle⟩ := refreshedAt_le h
    cases heq
    rw [refreshedAt]
    split
    · rename_i hrefreshes
      refine liveSince_of_reload hours hok hload (le_refl _) fun hnot => ?_
      rw [hrefreshes] at hnot
      cases hnot
    · exact liveSince_of_reload hours hok hload (hle.trans htime) fun _ => ih

/-- **No signature lapses** in a zone whose last refresh lies less than the life of a
signature back. -/
theorem signatures_live {signing : ZoneSigning} {events : List Iteration} {served : Served}
    (hours : ∀ key, (signing.overrideFor key).dnskeyRrsig ≠ some .imported)
    (h : Maintained signing (Ordinary signing) events served) {key : Name} {zone : Zone}
    (hzone : (key, zone) ∈ served.zones) (hsigns : (signing.keysFor key).isSome = true) {moment : Nat}
    (hlately : moment < refreshedAt events + lifetime signing key) {r : ZoneRecord} (hr : r ∈ zone.records)
    (hrrsig : r.rtype = RRSIG) :
    ∃ expiration, expirationOf r.rdata = some expiration ∧ moment < expiration.toNat := by
  obtain ⟨expiration, hexpires, hle⟩ := (h.liveSince hours key zone hzone hsigns).2 r hr hrrsig
  exact ⟨expiration, hexpires, lt_of_lt_of_le hlately hle⟩

/-! ## `ex.`, reloaded every few hours -/

section Example

def daySigning : ZoneSigning where
  keys := [(ex, [firstKey 257 .default])]
  validity := 86400
  chain := .nsec
  perZone := []

def exFile : ZoneFile := ⟨"ex.zone", some 7, zoneOf ex [exSoa]⟩

def content : Validator := ⟨true, false, fun _ _ => true⟩

def dayLoad (trigger : ReloadTrigger) (now : Nat) : Iteration :=
  ⟨trigger, now, [exFile], fun _ => false, ed25519Crypto, content⟩

def dayServed (zone : Zone) : Served :=
  ⟨[("ex.zone", 7, ex)], [(ex, keyRoles [firstKey 257 .default] 1754197300)], [(ex, zone)]⟩

theorem zoneKey_exFile : zoneKey exFile.zone = ex := by decide +kernel

theorem keysFor_day : (daySigning.holding fun _ => false).keysFor ex = some [firstKey 257 .default] := by
  decide +kernel

def dayRun : SigningRun :=
  ⟨ed25519Crypto, exFile.zone, [firstKey 257 .default],
    (daySigning.holding fun _ => false).policyFor ex 1754197300, none⟩

theorem dayRun_served : ∃ zone, dayRun.served = .ok zone := by
  refine served_isOk (fun key hkey => ?_) (by decide +kernel)
  rw [List.mem_singleton.mp hkey]
  exact signs_firstKey _ _

variable {zone : Zone}

theorem day_start (hzone : dayRun.served = .ok zone)
    (hdnskey : (zone.records.any fun r => r.rtype == DNSKEY) = true) :
    reloadOnce daySigning (dayLoad .startup 1754197300) .empty = .ok (dayServed zone) := by
  have hload : (dayLoad .startup 1754197300).load daySigning .empty
      = ([(ex, exFile.zone, false)], [("ex.zone", 7, ex)]) := by
    show ([(zoneKey exFile.zone, exFile.zone, false)], [("ex.zone", 7, zoneKey exFile.zone)]) = _
    rw [zoneKey_exFile]
  have happly : applyKeeping ed25519Crypto (daySigning.holding fun _ => false) none [] 1754197300 [(ex, exFile.zone)]
      = .ok [(ex, zone, some (keyRoles [firstKey 257 .default] 1754197300, []))] := by
    have hsign : signOne ed25519Crypto (daySigning.holding fun _ => false) none [] 1754197300 ex exFile.zone
        [firstKey 257 .default] = .ok (zone, []) := except_bind_eq_ok.mpr ⟨zone, hzone, rfl⟩
    rw [applyKeeping, List.mapM_cons]
    dsimp only
    rw [keysFor_day]
    dsimp only
    rw [hsign]
    rfl
  have hverify : verifyZones content [] [(ex, zone, some (keyRoles [firstKey 257 .default] 1754197300, []))]
      = .ok [(ex, keyRoles [firstKey 257 .default] 1754197300)] := by
    show verifyZone content [] _ >>= _ = _
    rw [verifyZone, hdnskey]
    have hall : (zone.records.filterMap rrsigCovers).all (content.validates zone) = true :=
      List.all_eq_true.mpr fun _ _ => rfl
    rw [hall]
    rfl
  rw [reloadOnce, hload]
  refine except_bind_eq_ok.mpr ⟨_, mapError_eq_ok.mpr happly, ?_⟩
  exact except_bind_eq_ok.mpr ⟨_, hverify, rfl⟩

theorem day_kept (zone : Zone) (now : Nat) :
    reloadOnce daySigning (dayLoad .signal now) (dayServed zone) = .ok (dayServed zone) := by
  have hroles : keyRoles [firstKey 257 .default] now = keyRoles [firstKey 257 .default] 1754197300 := rfl
  have hzoneFor : zoneFor (daySigning.holding fun _ => false) (dayServed zone).proved [(ex, zone)] now
      (dayServed zone).files exFile = some (ex, zone) := by
    show ((daySigning.holding fun _ => false).keysFor ex).elim (some (ex, zone)) (fun keys =>
      if alreadyProved (dayServed zone).proved ex (some (keyRoles keys now)) = true then some (ex, zone) else none) =
        some (ex, zone)
    rw [keysFor_day, Option.elim_some]
    rw [hroles]
    exact if_pos (decide_eq_true rfl)
  have hload : (dayLoad .signal now).load daySigning (dayServed zone)
      = ([(ex, zone, true)], (dayServed zone).files) := by
    have hone : loadOne (daySigning.holding fun _ => false) (dayServed zone).proved [(ex, zone)] now
        (dayServed zone).files exFile = ((ex, zone, true), (dayServed zone).files) := by
      rw [loadOne, hzoneFor]
    show loadFiles (daySigning.holding fun _ => false) (dayServed zone).proved [(ex, zone)] now
      (dayServed zone).files [exFile] = _
    rw [loadFiles, hone]
    rfl
  have happly : applyKeeping ed25519Crypto (daySigning.holding fun _ => false) (some [(ex, zone)]) [ex] now
      [(ex, zone)] = .ok [(ex, zone, some (keyRoles [firstKey 257 .default] 1754197300, []))] := by
    have hsign : signOne ed25519Crypto (daySigning.holding fun _ => false) (some [(ex, zone)]) [ex] now ex zone
        [firstKey 257 .default] = .ok (zone, []) := if_pos (by decide)
    rw [applyKeeping, List.mapM_cons]
    dsimp only
    rw [keysFor_day]
    dsimp only
    rw [hsign]
    rfl
  have hverify : verifyZones content (dayServed zone).proved
      [(ex, zone, some (keyRoles [firstKey 257 .default] 1754197300, []))] = .ok (dayServed zone).proved := by
    have hproved : alreadyProved (dayServed zone).proved ex
        (some (keyRoles [firstKey 257 .default] 1754197300)) = true := decide_eq_true rfl
    show verifyZone content (dayServed zone).proved _ >>= _ = _
    rw [verifyZone, Option.map_some, hproved]
    rfl
  rw [reloadOnce, hload]
  refine except_bind_eq_ok.mpr ⟨_, mapError_eq_ok.mpr happly, ?_⟩
  exact except_bind_eq_ok.mpr ⟨_, hverify, rfl⟩

def dayEvents : Nat → List Iteration
  | 0 => [dayLoad .startup 1754197300]
  | count + 1 => dayLoad .signal (1754197300 + 28000 * (count + 1)) :: dayEvents count

theorem day_maintained {ok : Served → Iteration → Prop} (hzone : dayRun.served = .ok zone)
    (hdnskey : (zone.records.any fun r => r.rtype == DNSKEY) = true)
    (hstart : ok .empty (dayLoad .startup 1754197300))
    (hok : ∀ now ≤ 1754297300, ok (dayServed zone) (dayLoad .signal now)) (count : Nat)
    (hcount : count ≤ 3) :
    Maintained daySigning ok (dayEvents count) (dayServed zone) := by
  induction count with
  | zero => exact .start rfl hstart (day_start hzone hdnskey)
  | succ count ih =>
    have hearlier := ih (by omega)
    cases count with
    | zero =>
      exact hearlier.next (fun h => (by cases h)) (by decide) (fun h => (by cases h)) (hok _ (by decide))
        (day_kept zone _)
    | succ count =>
      refine hearlier.next (fun h => (by cases h)) ?_ (fun h => (by cases h)) (hok _ (by omega)) (day_kept zone _)
      show 1754197300 + 28000 * (count + 1) ≤ 1754197300 + 28000 * (count + 1 + 1)
      omega

theorem day_ours (key : Name) : (daySigning.overrideFor key).dnskeyRrsig ≠ some .imported := by
  show (none : Option DnskeySignature) ≠ some .imported
  decide

theorem dayZone_dnskey (hzone : dayRun.served = .ok zone) :
    (zone.records.any fun r => r.rtype == DNSKEY) = true := by
  obtain ⟨layout, signed, hunsigned, hmem⟩ : ∃ layout signed,
      unsigned dayRun.crypto dayRun.zone dayRun.keys dayRun.policy = .ok (layout, signed) ∧
      ∀ r ∈ signed, storedRecord r ∈ zone.records := by
    obtain ⟨out, fresh, hout, rfl⟩ := of_served hzone
    obtain ⟨layout, signed, hunsigned, hsigned⟩ := of_signRecords hout
    refine ⟨layout, signed, hunsigned, fun r hr => ?_⟩
    rw [zoneOf_records]
    exact List.mem_map_of_mem ((mem_signEverything hsigned).mpr (.inl hr))
  obtain ⟨r, hr, -, hrdata⟩ := unsigned_dnskey hunsigned (List.mem_cons_self : firstKey 257 .default ∈ dayRun.keys)
    (by decide)
  refine List.any_eq_true.mpr ⟨_, hmem r hr, ?_⟩
  rw [beq_iff_eq, storedRecord_rtype, ZoneRecord.rtype, hrdata]

theorem signatures_live_day :
    ∃ events served zone, Maintained daySigning (Ordinary daySigning) events served ∧
      (ex, zone) ∈ served.zones ∧ ∀ r ∈ zone.records, r.rtype = RRSIG →
        ∃ expiration, expirationOf r.rdata = some expiration ∧ 1754228900 < expiration.toNat := by
  obtain ⟨zone, hzone⟩ := dayRun_served
  have hshort : ∀ algorithm key data signature, ed25519Crypto.sign algorithm key data = .ok signature →
      signature.length ≤ 65000 := fun algorithm _ _ _ => length_ed25519Sign algorithm
  have hmaintained : Maintained daySigning (Ordinary daySigning) (dayEvents 1) (dayServed zone) := by
    refine day_maintained hzone (dayZone_dnskey hzone) ⟨fun key => ?_, hshort, ?_⟩
      (fun now hnow => ⟨fun key => ?_, hshort, ?_⟩) 1 (by decide)
    · show 1754197300 + 86400 < 2 ^ 32
      decide
    · exact List.nodup_singleton _
    · show now + 86400 < 2 ^ 32
      omega
    · exact List.nodup_singleton _
  refine ⟨_, _, zone, hmaintained, List.mem_cons_self, fun r hr hrrsig => ?_⟩
  refine signatures_live day_ours hmaintained List.mem_cons_self (by decide +kernel) ?_ hr hrrsig
  decide +kernel

theorem expiryFor_le {policy : SigningPolicy} (h : policy.inception < policy.expiration) (name : Name)
    (rtype : Rtype) : (policy.expiryFor name rtype).toNat ≤ policy.expiration.toNat := by
  rw [SigningPolicy.expiryFor]
  split
  · exact le_refl _
  · dsimp only
    generalize UInt32.ofNat ((Dnssec.foldedHash (name.wire ++ be16 rtype.code)).toNat %
      (policy.validity / EXPIRY_JITTER_FRACTION)) = back
    have hback : (if policy.expiration < back then 0 else policy.expiration - back).toNat
        ≤ policy.expiration.toNat := by
      split
      · exact Nat.zero_le _
      · grind [UInt32.toNat_sub_of_le]
    have hfirst : (if policy.inception = 0xffffffff then policy.inception else policy.inception + 1).toNat
        ≤ policy.expiration.toNat := by
      rw [UInt32.lt_iff_toNat_lt] at h
      split
      · exact le_of_lt h
      · have hlt := policy.expiration.toNat_lt
        rw [UInt32.toNat_add]
        show (policy.inception.toNat + 1) % 2 ^ 32 ≤ _
        omega
    generalize (if policy.expiration < back then 0 else policy.expiration - back) = spreadBack at hback
    generalize (if policy.inception = 0xffffffff then policy.inception else policy.inception + 1) = first at hfirst
    split
    · exact hfirst
    · exact hback

/-- **A server that is reloaded too often lets its signatures lapse**: three reloads, each
before the timer is due, and `ex.` is served with a signature that has expired. -/
theorem reloaded_too_often :
    ¬ ∀ (signing : ZoneSigning) (events : List Iteration) (served : Served) (moment : Nat),
      (∀ key, (signing.overrideFor key).dnskeyRrsig ≠ some .imported) →
      Maintained signing (fun _ _ => True) events served →
      (∀ last ∈ events.head?, last.now ≤ moment ∧
        moment ≤ last.now + ((signing.holding last.held).resignIntervalAt last.now).every) →
      ∀ key zone, (key, zone) ∈ served.zones → (signing.keysFor key).isSome = true →
        ∀ r ∈ zone.records, r.rtype = RRSIG →
          ∃ expiration, expirationOf r.rdata = some expiration ∧ moment < expiration.toNat := by
  intro hall
  obtain ⟨zone, hzone⟩ := dayRun_served
  have hmaintained : Maintained daySigning (fun _ _ => True) (dayEvents 3) (dayServed zone) :=
    day_maintained hzone (dayZone_dnskey hzone) trivial (fun _ _ => trivial) 3 (le_refl _)
  have hwhen : ∀ last ∈ (dayEvents 3).head?, last.now ≤ 1754297300 ∧
      1754297300 ≤ last.now + ((daySigning.holding last.held).resignIntervalAt last.now).every := by
    intro last hlast
    cases hlast
    decide +kernel
  have hlive := hall daySigning (dayEvents 3) (dayServed zone) 1754297300 day_ours hmaintained hwhen ex zone
    List.mem_cons_self (by decide +kernel)
  obtain ⟨base, ttl, chain, hsigned⟩ := of_signZone rfl (by decide +kernel) exZone_sized hzone
  -- the signature that was made over the SOA at startup
  obtain ⟨r, hr, hrrsig, key, sig, hsig, hparse⟩ := hsigned.exists_rrsig (by decide +kernel)
  obtain ⟨data, signature, -, -, rfl⟩ := of_signRrset hsig
  obtain ⟨expiration, hexpires, hafter⟩ := hlive r hr hrrsig
  rw [expirationOf_parsed hparse] at hexpires
  cases hexpires
  have hle : (dayRun.policy.expiryFor r.name SOA).toNat ≤ dayRun.policy.expiration.toNat :=
    expiryFor_le (by decide) _ _
  have hend : dayRun.policy.expiration.toNat = 1754283700 := by decide
  exact absurd (hafter.trans_le hle) (by rw [hend]; decide)

end Example

end Rdns.Server
