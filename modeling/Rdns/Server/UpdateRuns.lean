import Rdns.Server.FileRuns

/-!
# Rdns — An UPDATE and the file it changes

An UPDATE is made to the zone as its file has it now. Where zones are not signed, and the file
has the digest an UPDATE last left or found there, the zone that is served is taken for the
file's. An UPDATE that changes nothing records the digest too, and so of a file nobody has
loaded.
-/

namespace Rdns.Server

open Rdns.Lib Rdns.Core Rdns.Present Rdns.Zones Rdns.Dnssec RecordTypes

variable {setup : ServerSetup} {state : ServerState} {sources : Sources}

/-- What the file holds once the UPDATE has been made to `source`: what it held, or the text of
the changed zone, in which every record of `zone` stands that no change names, the apex SOA
apart. -/
def KeepsEdits (setup : ServerSetup) (state : ServerState) (update : UpdateMessage) (path : String)
    (changes : List Change) (source zone : Zone) : Prop :=
  (setup.update update state).1.disk.read path = state.disk.read path ∨
    ∃ text, zoneToString setup.b64 (applyUpdate source changes).zone = .ok text ∧
      (setup.update update state).1.disk.read path = some (toBytes text) ∧
      ∀ r ∈ zone.records, (∀ change ∈ changes, r.name.same change.owner = false) →
        (r.rtype ≠ SOA ∨ r.name.same zone.origin = false) →
          { r with rdata := stored r.rdata } ∈ (applyUpdate source changes).zone.records

/-- **The zone an UPDATE is judged on and made to** is the one its file reads as now, and what
the operator wrote there is kept. -/
def ActsOnFile (setup : ServerSetup) (state : ServerState) (update : UpdateMessage) : Prop :=
  ∀ request path previous, Calls setup state update request path previous →
    ∀ source digest, (setup.callFor update state request path previous).source = .ok (source, digest) →
      ∃ raw text origin zone, state.disk.read path = some raw ∧ fromUtf8 raw = some text ∧
        Names origin request.zone ∧ parseZoneFile setup.b64 update.fs (update.base path) text origin = .ok zone ∧
        source.origin = zone.origin ∧ source.records.Perm zone.records ∧
        KeepsEdits setup state update path request.changes source zone

def TrustsDigests (setup : ServerSetup) (state : ServerState) (sources : Sources) : ServerEvent → Prop
  | .update update => ReusesTheFile setup state sources update ∧ WritesWhatLoads setup state update
  | _ => True

/-- **What is served without signing are the records of its source.** -/
theorem ServerSetup.Ran.sound (hunsigned : setup.signing = none) {events : List ServerEvent}
    (h : setup.Ran (TrustsDigests setup) events state sources) : Sound setup (fun _ => True) state sources := by
  induction h with
  | start disk =>
    intro key served hserved
    cases hserved
  | @next events state sources event h hok ih =>
    cases event with
    | edit disk => exact ih
    | update update =>
      refine ih.update ?_
      intro zone origin octets hinstalls _ other hreads
      exact holds_written (fun _ => ih) hok.1 hok.2 hinstalls hreads
    | reload call =>
      have hprevious : setup.previous call state = none := by
        rw [ServerSetup.previous, hunsigned]
        rfl
      refine ih.reload ?_ ?_ fun _ _ => trivial
      · intro entries hentries path origin hmem raw key served hraw hkept
        obtain ⟨-, -, -, hserved⟩ := of_zoneFor hkept
        cases (zones_of_keepable hserved).1.symm.trans hprevious
      · intro hsome
        rw [hprevious] at hsome
        cases hsome

theorem keepsEdits {update : UpdateMessage} {request : UpdateRequest} {path : String} {previous : Zone}
    (hcalls : Calls setup state update request path previous) {source zone : Zone} {digest : FileDigest}
    (hsource : (setup.callFor update state request path previous).source = .ok (source, digest))
    (horigin : source.origin = zone.origin) (hperm : source.records.Perm zone.records) :
    KeepsEdits setup state update path request.changes source zone := by
  have hafter : (setup.update update state).1.disk.read path
      = (setup.callFor update state request path previous).applyUpdateToFile.2 := by
    rw [ServerSetup.update, hcalls.updateCall]
    dsimp only
    have hcontents : (setup.callFor update state request path previous).applyUpdateToFile.2 = none →
        state.disk.read path = none := by
      intro hnone
      rcases applyUpdateToFile_cases (setup.callFor update state request path previous) with
        ⟨hsame, -⟩ | ⟨applied, digest, text, -, -, -, -, hwritten, -⟩
      · exact hsame.symm.trans hnone
      · rw [hnone] at hwritten
        cases hwritten
    generalize (setup.callFor update state request path previous).applyUpdateToFile = result at hcontents ⊢
    obtain ⟨outcome, contents⟩ := result
    rcases outcome with _ | ⟨_ | _, _, _⟩ <;> cases contents with
    | none => exact hcontents rfl
    | some written => exact if_pos rfl
  rw [KeepsEdits, hafter]
  rcases applyUpdateToFile_cases (setup.callFor update state request path previous) with
    ⟨hsame, -⟩ | ⟨applied, digest', text, happlied, -, htext, -, hwritten, -⟩
  · exact .inl hsame
  · rw [UpdateCall.applied, hsource] at happlied
    obtain ⟨⟨source', digest''⟩, hpair, happlied⟩ := except_bind_eq_ok.mp happlied
    cases hpair
    dsimp only at happlied
    split at happlied
    · cases happlied
    · cases happlied
      refine .inr ⟨text, htext, hwritten, ?_⟩
      intro r hr hnames hsoa
      refine mem_applyUpdate (hperm.mem_iff.mpr hr) hnames ?_
      rw [horigin]
      exact hsoa

/-- **An UPDATE acts on the file as it is**, after every run in which the digest an UPDATE
remembers was that of the zone served. -/
theorem update_acts_on_file {events : List ServerEvent} (h : setup.Ran (TrustsDigests setup) events state sources)
    {update : UpdateMessage} (hreuses : ReusesTheFile setup state sources update) : ActsOnFile setup state update := by
  intro request path previous hcalls source digest hsource
  obtain ⟨raw, text, origin, zone, hraw, htext, hnames, hparse, horigin, hperm⟩ :=
    source_of_sound (fun hunsigned => h.sound hunsigned) hreuses hcalls hsource
  exact ⟨raw, text, origin, zone, hraw, htext, hnames, hparse, horigin, hperm,
    keepsEdits hcalls hsource horigin hperm⟩

/-! ## An edit that is gone -/

def rootUpdate (changes : List ResourceRecord) : UpdateMessage where
  msg := { oneAdd addressToAdd with queries := [⟨.root, .of SOA, .in⟩], authorities := changes }
  now := 1754197300
  fs := noFiles
  base := fun _ => none
  writes := fun _ => true
  held := fun _ => false
  crypto := ed25519Crypto
  validator := ⟨false, false, fun _ _ => true⟩

def secondAddress : ResourceRecord := ⟨.root, .IN, ⟨60⟩, ⟨A, [192, 0, 2, 2]⟩⟩

theorem source_of_known {call : UpdateCall} {raw : Octets} {digest : FileDigest} (hcontents : call.contents = some raw)
    (hself : ofSelfContained call.digestOf raw = some digest) (hknown : call.known = some digest)
    (hunsigned : call.signing = none) : call.source = .ok (call.previous, digest) := by
  rw [UpdateCall.source, hcontents]
  dsimp only
  rw [hself]
  exact if_pos ⟨hknown, by rw [hunsigned]; rfl⟩

def loadedThen (disk edited : Disk) : ServerState × Sources :=
  let (state, sources) := (rootSetup none).step (.reload reloadNow) (.start disk) []
  let (state, sources) := (rootSetup none).step (.edit edited) state sources
  (rootSetup none).step (.update (rootUpdate [])) state sources

theorem reload_written (setup : ServerSetup) (call : ReloadCall) (state : ServerState) :
    (setup.reload call state).1.written = state.written := by
  rw [ServerSetup.reload]
  split
  · rfl
  · grind

theorem ran_loadedThen {ok : ServerState → Sources → ServerEvent → Prop} (disk edited : Disk)
    (hreload : ok (.start disk) [] (.reload reloadNow)) (hedit : ∀ state sources, ok state sources (.edit edited))
    (hupdate : ∀ state sources, state.written = [] → ok state sources (.update (rootUpdate []))) :
    (rootSetup none).Ran ok [.update (rootUpdate []), .edit edited, .reload reloadNow] (loadedThen disk edited).1
      (loadedThen disk edited).2 := by
  refine .next (.next (.next (.start disk) hreload) (hedit _ _)) (hupdate _ _ ?_)
  have hwritten := reload_written (rootSetup none) reloadNow (.start disk)
  show ((rootSetup none).step (.reload reloadNow) (.start disk) []).1.written = []
  rw [ServerSetup.step]
  generalize (rootSetup none).reload reloadNow (.start disk) = result at hwritten
  obtain ⟨after, installed⟩ := result
  cases installed with
  | none => exact hwritten
  | some loaded => exact hwritten

theorem parse_rootUpdate : parseUpdate (rootUpdate []).msg = .ok ⟨.root, [], []⟩ ∧
    parseUpdate (rootUpdate [secondAddress]).msg = .ok ⟨.root, [], [.add secondAddress]⟩ := by
  decide +kernel

theorem calls_root {changes : List ResourceRecord} {wanted request : UpdateRequest} {path : String} {previous : Zone}
    (hcalls : Calls (rootSetup none) state (rootUpdate changes) request path previous)
    (hparse : parseUpdate (rootUpdate changes).msg = .ok wanted) (hzone : wanted.zone = .root) :
    request = wanted ∧ path = "root.zone" := by
  have hrequest := hcalls.parsed
  rw [hparse] at hrequest
  cases hrequest
  have hfiled := hcalls.filed
  rw [hzone, show (rootSetup none).source.fileFor state.disk (toPresentation .root) = some (some "root.zone") from rfl]
    at hfiled
  cases hfiled
  exact ⟨rfl, rfl⟩

theorem update_acts_on_known_file : ∃ events state sources,
    (rootSetup none).Ran (TrustsDigests (rootSetup none)) events state sources ∧
      state.written.get "root.zone" = some (fnv1a rootFile) ∧
      ActsOnFile (rootSetup none) state (rootUpdate [secondAddress]) := by
  have hran := @ran_loadedThen (TrustsDigests (rootSetup none)) (twoFiles rootFile bareFile) (twoFiles rootFile bareFile)
    trivial (fun _ _ => trivial) (by
      intro state sources hwritten
      constructor
      · intro request path previous hcalls _ raw digest _ _ hknown
        rw [hwritten] at hknown
        cases hknown
      · intro request path previous hcalls source digest _ hchanged
        obtain ⟨rfl, -⟩ := calls_root hcalls parse_rootUpdate.1 rfl
        exact absurd rfl hchanged)
  obtain ⟨hknown, hfrom, hread⟩ :
      (loadedThen (twoFiles rootFile bareFile) (twoFiles rootFile bareFile)).1.written.get "root.zone"
        = some (fnv1a rootFile) ∧
      (loadedThen (twoFiles rootFile bareFile) (twoFiles rootFile bareFile)).2.get .root
        = some ⟨['.'], rootFile, false⟩ ∧
      (loadedThen (twoFiles rootFile bareFile) (twoFiles rootFile bareFile)).1.disk.read "root.zone"
        = some rootFile := by
    decide +kernel
  generalize loadedThen (twoFiles rootFile bareFile) (twoFiles rootFile bareFile) = reached at hran hknown hfrom hread
  refine ⟨_, _, _, hran, hknown, update_acts_on_file hran ?_⟩
  intro request path previous hcalls _ raw digest hraw _ _
  obtain ⟨rfl, rfl⟩ := calls_root hcalls parse_rootUpdate.2 rfl
  cases hread.symm.trans hraw
  obtain ⟨zone, hreads, -⟩ := readsAs_rootFile
  exact ⟨_, zone, hfrom, rfl, ⟨.root, fromPresentation_toPresentation .root, Name.same_self _⟩, hreads⟩

theorem update_drops_edit :
    ¬ ∀ (setup : ServerSetup) (events : List ServerEvent) (state : ServerState) (sources : Sources)
      (update : UpdateMessage), setup.signing = none → setup.Ran (fun _ _ _ => True) events state sources →
        ActsOnFile setup state update := by
  intro h
  have hran := @ran_loadedThen (fun _ _ _ => True) (twoFiles bareFile bareFile) (twoFiles rootFile bareFile)
    trivial (fun _ _ => trivial) (fun _ _ _ => trivial)
  have hacts := h _ _ _ _ (rootUpdate [secondAddress]) rfl hran
  obtain ⟨hknown, hread, hrecords⟩ :
      (loadedThen (twoFiles bareFile bareFile) (twoFiles rootFile bareFile)).1.written.get "root.zone"
        = some (fnv1a rootFile) ∧
      (loadedThen (twoFiles bareFile bareFile) (twoFiles rootFile bareFile)).1.disk.read "root.zone" = some rootFile ∧
      ((loadedThen (twoFiles bareFile bareFile) (twoFiles rootFile bareFile)).1.zones.get .root).map
        Zone.records = some [rootSoa] := by
    decide +kernel
  generalize (loadedThen (twoFiles bareFile bareFile) (twoFiles rootFile bareFile)).1 = state at hacts hknown hread hrecords
  obtain ⟨previous, hprevious, hserved⟩ := Option.map_eq_some_iff.mp hrecords
  have hcalls : Calls (rootSetup none) state (rootUpdate [secondAddress]) ⟨.root, [], [.add secondAddress]⟩
      "root.zone" previous := ⟨parse_rootUpdate.2, hprevious, rfl⟩
  have hsource : ((rootSetup none).callFor (rootUpdate [secondAddress]) state ⟨.root, [], [.add secondAddress]⟩
      "root.zone" previous).source = .ok (previous, fnv1a rootFile) := by
    have hself : ofSelfContained fnv1a rootFile = some (fnv1a rootFile) := by decide +kernel
    exact source_of_known hread hself hknown rfl
  obtain ⟨raw, text, origin, zone, hraw, htext, ⟨apex, hapex, hsame⟩, hparse, -, hperm, -⟩ :=
    hacts _ _ _ hcalls _ _ hsource
  cases hread.symm.trans hraw
  obtain ⟨whole, ⟨text', htext', hreads⟩, -, hwhole⟩ := readsAs_rootFile
  cases htext.symm.trans htext'
  have hroot : apex = .root := by
    rw [Name.same_iff_foldLabels] at hsame
    exact Name.ext (List.map_eq_nil_iff.mp hsame)
  have hzone : parseZoneFile noBase64 noFiles none text ['.'] = .ok zone := by
    have hdot : fromPresentation ['.'] = .ok .root := fromPresentation_toPresentation .root
    rw [parse_congr (hdot.trans (hroot ▸ hapex.symm))]
    exact hparse
  cases (hreads noFiles none).symm.trans hzone
  have hlength := hperm.length_eq
  rw [hserved, hwhole] at hlength
  cases hlength

end Rdns.Server
