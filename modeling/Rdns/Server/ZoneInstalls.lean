import Rdns.Server.Maintenance
import Rdns.Transfer.Deltas

/-!
# Rdns — Installing versions of a zone

`Zones` and `install_zone` of `rdnsd/src/zones.rs`: a version takes its place in the map
and, in the same breath, the step from the version before is recorded. The step is planned
under the read guard and recorded under the write guard, so that other installs may come in
between; the map's generation tells. What is counted is left
out, and the journal is in `Rdns.Server.Restarts`.

The log's steps are found by serial alone, and a version whose serial did not move forward
leaves no step and takes none away.
-/

namespace Rdns.Server

open Rdns.Lib Rdns.Core Rdns.Zones Rdns.Dnssec Rdns.Transfer RecordTypes

/-! ## The served zones and their history -/

/-- The zones this server answers from, and a counter that moves whenever the set does. -/
structure Zones where
  byName : ZoneMap
  generation : Nat

def Zones.insert (zones : Zones) (zone : Zone) : Zones :=
  ⟨zones.byName.insert (zoneKey zone) zone, zones.generation + 1⟩

def Zones.matching (zones : Zones) (name : Name) : Option Zone := zones.byName.get name.toFolded

structure ZoneContext where
  zones : Zones
  deltas : DeltaLog

namespace ZoneContext

def empty : ZoneContext := ⟨⟨[], 0⟩, DeltaLog.new⟩

def planInstall (served : ZoneContext) (zone : Zone) : Option PlannedDelta × Nat :=
  (planChange (served.zones.matching zone.origin) zone, served.zones.generation)

def commitInstall (served : ZoneContext) (zone : Zone) (plan : Option PlannedDelta × Nat) : ZoneContext :=
  let planned :=
    if served.zones.generation = plan.2 then plan.1
    else planChange (served.zones.matching zone.origin) zone
  ⟨served.zones.insert zone, served.deltas.recordAny planned⟩

end ZoneContext

/-- **The runs of installs**, the last first, each beside what it found: any number of them at
a time, so that one may have been planned in any earlier state of the run. -/
inductive Installed (ok : List Zone → Zone → Prop) : List (Zone × ZoneContext) → ZoneContext → Prop where
  | start : Installed ok [] .empty
  | install {trace : List (Zone × ZoneContext)} {served seen : ZoneContext} {zone : Zone}
      (h : Installed ok trace served) (hversion : Version zone) (hok : ok (trace.map Prod.fst) zone)
      (hseen : seen = served ∨ seen ∈ trace.map Prod.snd) :
      Installed ok ((zone, served) :: trace) (served.commitInstall zone (seen.planInstall zone))

def Honest (versions : List Zone) (served : ZoneContext) : Prop :=
  ∀ (name : Name) (zone : Zone) (request : DnsMessage) (client : Serial) (messages : List DnsMessage)
    (steps records : Nat),
    served.zones.matching name = some zone → requestedSerial request = some client →
    ixfrResponse request zone served.deltas = .ok (.incremental messages steps records) →
    ∀ version ∈ versions, zoneKey version = zoneKey zone → version.serial = some client →
      ∃ soa chain, served.deltas.chainFrom zone.origin client = some chain ∧
        messages.flatMap DnsMessage.answers = increment soa chain ∧ chain.length = steps ∧
        applySequences (contents version) chain = some (contents zone)

def SerialNamesVersion (earlier : List Zone) (zone : Zone) : Prop :=
  ∀ version ∈ earlier, zoneKey version = zoneKey zone → ∀ serial, version.serial = some serial →
    zone.serial = some serial → contents version = contents zone

/-! ## One install after another -/

section Runs

variable {ok : List Zone → Zone → Prop} {trace : List (Zone × ZoneContext)} {served : ZoneContext}

theorem Installed.generation_lt (h : Installed ok trace served) :
    ∀ seen ∈ trace.map Prod.snd, seen.zones.generation < served.zones.generation := by
  induction h with
  | start => exact fun seen hseen => by cases hseen
  | @install trace served seen zone h hversion hok hseen ih =>
    intro earlier hearlier
    show earlier.zones.generation < served.zones.generation + 1
    rcases List.mem_cons.mp hearlier with rfl | hearlier
    · exact Nat.lt_succ_self _
    · exact Nat.lt_succ_of_lt (ih earlier hearlier)

/-- **Planning early makes no difference**: a plan that is out of date is made again. -/
theorem Installed.commitInstall_eq (h : Installed ok trace served) {seen : ZoneContext}
    (hseen : seen = served ∨ seen ∈ trace.map Prod.snd) (zone : Zone) :
    served.commitInstall zone (seen.planInstall zone)
      = ⟨served.zones.insert zone, served.deltas.noteChange (served.zones.matching zone.origin) zone⟩ := by
  have hplan : (if served.zones.generation = (seen.planInstall zone).2 then (seen.planInstall zone).1
      else planChange (served.zones.matching zone.origin) zone)
        = planChange (served.zones.matching zone.origin) zone := by
    rcases hseen with rfl | hseen
    · exact if_pos rfl
    · exact if_neg (h.generation_lt seen hseen).ne'
  rw [ZoneContext.commitInstall, hplan, DeltaLog.noteChange]

end Runs

/-! ## What the log remembers -/

def Links (versions : List Zone) (key : Name) (delta : ZoneDelta) : Prop :=
  ∃ old ∈ versions, ∃ new ∈ versions, zoneKey old = key ∧ zoneKey new = key ∧
    old.serial = some delta.fromSerial ∧ new.serial = some delta.toSerial ∧
    applySequence (contents old) delta = some (contents new)

structure Remembers (versions : List Zone) (served : ZoneContext) : Prop where
  wellMade : ∀ version ∈ versions, Version version
  held : ∀ key zone, served.zones.byName.get key = some zone → zone ∈ versions ∧ zoneKey zone = key
  steps : ∀ key history, served.deltas.byZone.get key = some history → ∀ delta ∈ history,
    Links versions key delta
  named : ∀ a ∈ versions, ∀ b ∈ versions, zoneKey a = zoneKey b → ∀ serial, a.serial = some serial →
    b.serial = some serial → contents a = contents b

variable {versions : List Zone} {key : Name}

theorem Links.mono {delta : ZoneDelta} (h : Links versions key delta) (zone : Zone) :
    Links (zone :: versions) key delta := by
  obtain ⟨old, hold, new, hnew, hrest⟩ := h
  exact ⟨old, List.mem_cons_of_mem _ hold, new, List.mem_cons_of_mem _ hnew, hrest⟩

theorem links_of_planChange {old new : Zone} {planned : PlannedDelta}
    (hversions : ∀ version ∈ versions, Version version) (hold : old ∈ versions)
    (hnew : new ∈ versions) (hkey : zoneKey old = zoneKey new)
    (h : planChange (some old) new = some planned) :
    planned.zone = zoneKey new ∧ Links versions (zoneKey new) planned.delta := by
  simp only [planChange, Option.bind_eq_bind, Option.bind_some, Option.bind_eq_some_iff] at h
  obtain ⟨fromSerial, hfrom, toSerial, hto, h⟩ := h
  split at h
  · cases h
  · obtain ⟨delta, hdelta, h⟩ := Option.bind_eq_some_iff.mp h
    split at h
    · cases h
    · obtain rfl := Option.some.inj h
      have hserials : delta.fromSerial = fromSerial ∧ delta.toSerial = toSerial := by
        simp only [diff, Option.bind_eq_bind, Option.bind_eq_some_iff, Option.pure_def, Option.some.injEq] at hdelta
        obtain ⟨_, -, _, -, fromSerial', hfrom', toSerial', hto', rfl⟩ := hdelta
        exact ⟨Option.some.inj (hfrom'.symm.trans hfrom), Option.some.inj (hto'.symm.trans hto)⟩
      refine ⟨rfl, old, hold, new, hnew, hkey, rfl, ?_, ?_, ?_⟩
      · rw [hfrom, hserials.1]
      · rw [hto, hserials.2]
      · exact applySequence_diff (hversions old hold) (hversions new hnew) hdelta

theorem mem_record {log : DeltaLog} {planned : PlannedDelta} {history : List ZoneDelta}
    (h : (log.record planned).byZone.get key = some history) {delta : ZoneDelta}
    (hdelta : delta ∈ history) :
    (key = planned.zone ∧ delta = planned.delta) ∨
      ∃ before, log.byZone.get key = some before ∧ delta ∈ before := by
  rw [DeltaLog.record, Entries.get_insert] at h
  split at h
  · rename_i hkey
    have hmem : delta ∈ (log.byZone.get planned.zone).getD [] ++ [planned.delta] := by grind
    rcases List.mem_append.mp hmem with hmem | hmem
    · cases hbefore : log.byZone.get planned.zone with
      | none =>
        rw [hbefore] at hmem
        cases hmem
      | some before => grind
    · exact .inl ⟨hkey, List.mem_singleton.mp hmem⟩
  · exact .inr ⟨history, h, hdelta⟩

theorem Installed.remembers {trace : List (Zone × ZoneContext)} {served : ZoneContext}
    (h : Installed SerialNamesVersion trace served) : Remembers (trace.map Prod.fst) served := by
  induction h with
  | start =>
    constructor
    · intro version hversion
      cases hversion
    · intro key zone hzone
      cases hzone
    · intro key history hhistory
      cases hhistory
    · intro a ha
      cases ha
  | @install trace served seen zone h hversion hok hseen ih =>
    rw [h.commitInstall_eq hseen, List.map_cons]
    have hwell : ∀ version ∈ zone :: trace.map Prod.fst, Version version := by
      intro version hmem
      rcases List.mem_cons.mp hmem with rfl | hmem
      · exact hversion
      · exact ih.wellMade version hmem
    refine ⟨hwell, ?_, ?_, ?_⟩
    · intro key held hheld
      rw [Zones.insert, Entries.get_insert] at hheld
      split at hheld
      · rename_i hkey
        obtain rfl := Option.some.inj hheld
        exact ⟨List.mem_cons_self, hkey.symm⟩
      · obtain ⟨hmem, hkey⟩ := ih.held key held hheld
        exact ⟨List.mem_cons_of_mem _ hmem, hkey⟩
    · intro key history hhistory delta hdelta
      rw [DeltaLog.noteChange] at hhistory
      cases hplan : planChange (served.zones.matching zone.origin) zone with
      | none =>
        rw [hplan] at hhistory
        exact (ih.steps key history hhistory delta hdelta).mono zone
      | some planned =>
        rw [hplan] at hhistory
        rcases mem_record hhistory hdelta with ⟨rfl, rfl⟩ | ⟨before, hbefore, hmem⟩
        · cases hold : served.zones.matching zone.origin with
          | none =>
            rw [hold] at hplan
            cases hplan
          | some old =>
            rw [hold] at hplan
            obtain ⟨hmem, hkey⟩ := ih.held _ old hold
            obtain ⟨hzone, hlinks⟩ := links_of_planChange hwell (List.mem_cons_of_mem _ hmem) List.mem_cons_self hkey hplan
            rw [hzone]
            exact hlinks
        · exact (ih.steps key before hbefore delta hmem).mono zone
    · intro a ha b hb hkey serial hserial hserial'
      rcases List.mem_cons.mp ha with hnew | ha
      · rcases List.mem_cons.mp hb with hnew' | hb
        · rw [hnew, hnew']
        · rw [hnew] at hkey hserial ⊢
          exact (hok b hb hkey.symm serial hserial' hserial).symm
      · rcases List.mem_cons.mp hb with hnew | hb
        · rw [hnew] at hkey hserial' ⊢
          exact hok a ha hkey serial hserial hserial'
        · exact ih.named a ha b hb hkey serial hserial hserial'

/-! ## Chains -/

theorem applySequences_linked {served : ZoneContext} (h : Remembers versions served)
    {chain : List ZoneDelta} (hchain : ∀ delta ∈ chain, Links versions key delta)
    {version target : Zone} (hversion : version ∈ versions) (hkey : zoneKey version = key)
    (htarget : target ∈ versions) (hkey' : zoneKey target = key) {serial current : Serial}
    (hserial : version.serial = some serial) (hcurrent : target.serial = some current)
    (hlinked : DeltaLog.linked serial chain = true)
    (hlast : chain.getLast?.map ZoneDelta.toSerial = some current) :
    applySequences (contents version) chain = some (contents target) := by
  induction chain generalizing version serial with
  | nil => cases hlast
  | cons delta rest ih =>
    rw [DeltaLog.linked, Bool.and_eq_true, beq_iff_eq] at hlinked
    obtain ⟨old, hold, new, hnew, hkeyOld, hkeyNew, hfrom, hto, happly⟩ := hchain delta List.mem_cons_self
    -- the step starts from the records of the version at hand
    have hsame : contents version = contents old :=
      h.named version hversion old hold (hkey.trans hkeyOld.symm) serial hserial (hlinked.1 ▸ hfrom)
    rw [applySequences, List.foldlM_cons, hsame, happly]
    show applySequences (contents new) rest = _
    cases rest with
    | nil =>
      rw [List.getLast?_singleton] at hlast
      have hcurrent' : new.serial = some current := hto.trans hlast
      rw [h.named new hnew target htarget (hkeyNew.trans hkey'.symm) current hcurrent' hcurrent]
      rfl
    | cons next rest =>
      rw [List.getLast?_cons_cons] at hlast
      exact ih (fun d hd => hchain d (List.mem_cons_of_mem _ hd)) hnew hkeyNew hto hlinked.2 hlast

/-- **While a serial names one version, increments are honest.** -/
theorem increments_honest {trace : List (Zone × ZoneContext)} {served : ZoneContext}
    (h : Installed SerialNamesVersion trace served) : Honest (trace.map Prod.fst) served := by
  have hremembers := h.remembers
  intro name zone request client messages steps records hheld hclient hanswer version hversion hkey hserial
  obtain ⟨hzone, hzoneKey⟩ := hremembers.held _ zone hheld
  obtain ⟨soa, current, chain, hcurrent, hchain, hlast, rfl, rfl⟩ := of_incremental hclient hanswer
  refine ⟨soa, chain, hchain, answers_packTransferMessages request _, rfl, ?_⟩
  obtain ⟨history, hhistory, hmem, hlinked⟩ := DeltaLog.of_chainFrom hchain
  exact applySequences_linked hremembers (fun d hd => hremembers.steps _ history hhistory d (hmem d hd)) hversion
    hkey hzone rfl hserial hcurrent hlinked hlast

/-! ## Two versions, and two under one serial -/

def installs : List Zone → List (Zone × ZoneContext) × ZoneContext
  | [] => ([], .empty)
  | zone :: earlier =>
    let (trace, served) := installs earlier
    ((zone, served) :: trace, served.commitInstall zone (served.planInstall zone))

theorem map_fst_installs (zones : List Zone) : (installs zones).1.map Prod.fst = zones := by
  induction zones with
  | nil => rfl
  | cons zone earlier ih =>
    show zone :: (installs earlier).1.map Prod.fst = zone :: earlier
    rw [ih]

theorem installed_cons {ok : List Zone → Zone → Prop} {zone : Zone} {earlier : List Zone}
    (h : Installed ok (installs earlier).1 (installs earlier).2) (hversion : Version zone) (hok : ok earlier zone) :
    Installed ok (installs (zone :: earlier)).1 (installs (zone :: earlier)).2 := by
  refine h.install hversion ?_ (.inl rfl)
  rw [map_fst_installs]
  exact hok

def exSoaAt (serial : UInt8) : ZoneRecord :=
  ⟨ex, ⟨300⟩, .IN, ⟨SOA, wireOf [] ++ wireOf [] ++ [0, 0, 0, serial] ++ List.replicate 16 0⟩⟩

def exVersion (serial : UInt8) (addresses : List UInt8) : Zone :=
  zoneOf ex (exSoaAt serial :: addresses.map fun last => ⟨ex, ⟨300⟩, .IN, ⟨A, [192, 0, 2, last]⟩⟩)

theorem version_exVersion (serial : UInt8) (addresses : List UInt8)
    (h : ((exVersion serial addresses).records.filter (exVersion serial addresses).isApexSoa).length = 1) :
    Version (exVersion serial addresses) :=
  ⟨zoneOk_zoneOf _ _, h⟩

def ixfrFrom (serial : UInt8) : DnsMessage where
  id := 1
  response := false
  opcode := .query
  authoritive := false
  truncation := false
  recursion := false
  recursionOk := false
  ad := false
  cd := false
  rcode := .ok
  queries := []
  answers := []
  authorities := [asRecord (exSoaAt serial)]
  additionals := []
  edns := none

def isIncremental : Except Text IxfrResponse → Bool
  | .ok (.incremental _ _ _) => true
  | _ => false

theorem exists_of_isIncremental {response : Except Text IxfrResponse} (h : isIncremental response = true) :
    ∃ messages steps records, response = .ok (.incremental messages steps records) := by
  match response with
  | .ok (.incremental messages steps records) => exact ⟨messages, steps, records, rfl⟩
  | .ok (.upToDate _) | .ok (.fullTransfer _) | .error _ => cases h

def renewed : List (Zone × ZoneContext) × ZoneContext := installs [exVersion 2 [1, 2, 4], exVersion 1 [1, 2, 3]]

theorem increments_honest_renewed :
    ∃ soa chain messages steps records,
      ixfrResponse (ixfrFrom 1) (exVersion 2 [1, 2, 4]) renewed.2.deltas = .ok (.incremental messages steps records) ∧
      messages.flatMap DnsMessage.answers = increment soa chain ∧
      applySequences (contents (exVersion 1 [1, 2, 3])) chain = some (contents (exVersion 2 [1, 2, 4])) := by
  have hrun : Installed SerialNamesVersion renewed.1 renewed.2 := by
    refine installed_cons (installed_cons .start (version_exVersion _ _ (by decide +kernel)) ?_)
      (version_exVersion _ _ (by decide +kernel)) ?_
    · intro version hversion
      cases hversion
    · intro version hversion hkey serial hserial hserial'
      rw [List.mem_singleton.mp hversion] at hserial
      have hne : (exVersion 1 [1, 2, 3]).serial ≠ (exVersion 2 [1, 2, 4]).serial := by decide +kernel
      exact absurd (hserial.trans hserial'.symm) hne
  have hincremental : isIncremental (ixfrResponse (ixfrFrom 1) (exVersion 2 [1, 2, 4]) renewed.2.deltas) = true := by
    decide +kernel
  obtain ⟨messages, steps, records, hanswer⟩ := exists_of_isIncremental hincremental
  have hserved : exVersion 1 [1, 2, 3] ∈ renewed.1.map Prod.fst := by simp [renewed, map_fst_installs]
  obtain ⟨soa, chain, -, hrecords, -, happly⟩ := increments_honest hrun ex _ (ixfrFrom 1) ⟨1⟩ messages steps records
    rfl (by decide +kernel) hanswer _ hserved rfl (by decide +kernel)
  exact ⟨soa, chain, messages, steps, records, hanswer, hrecords, happly⟩

def edited : List (Zone × ZoneContext) × ZoneContext :=
  installs [exVersion 2 [1, 3, 4], exVersion 1 [1, 3], exVersion 1 [1, 2]]

/-- **An increment from an edited serial** brings its first version to records that were never
served. -/
theorem increments_dishonest_edited :
    ¬ ∀ (trace : List (Zone × ZoneContext)) (served : ZoneContext),
      Installed (fun _ _ => True) trace served → Honest (trace.map Prod.fst) served := by
  intro hclaim
  have hrun : Installed (fun _ _ => True) edited.1 edited.2 :=
    installed_cons (installed_cons (installed_cons .start (version_exVersion _ _ (by decide +kernel)) trivial)
      (version_exVersion _ _ (by decide +kernel)) trivial) (version_exVersion _ _ (by decide +kernel)) trivial
  have hincremental : isIncremental (ixfrResponse (ixfrFrom 1) (exVersion 2 [1, 3, 4]) edited.2.deltas) = true := by
    decide +kernel
  obtain ⟨messages, steps, records, hanswer⟩ := exists_of_isIncremental hincremental
  have hserved : exVersion 1 [1, 2] ∈ edited.1.map Prod.fst := by simp [edited, map_fst_installs]
  obtain ⟨-, chain, hchain, -, -, happly⟩ := hclaim _ _ hrun ex _ (ixfrFrom 1) ⟨1⟩ messages steps records
    rfl (by decide +kernel) hanswer _ hserved rfl (by decide +kernel)
  have hbroken : (edited.2.deltas.chainFrom (exVersion 2 [1, 3, 4]).origin ⟨1⟩).bind
      (applySequences (contents (exVersion 1 [1, 2]))) ≠ some (contents (exVersion 2 [1, 3, 4])) := by
    decide +kernel
  rw [hchain] at hbroken
  exact hbroken happly

end Rdns.Server
