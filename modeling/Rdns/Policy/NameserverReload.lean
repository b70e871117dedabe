import Rdns.Policy.Expiry
import Rdns.Policy.FirstMatch
import Rdns.Resolver.CacheRuns

/-!
# Rdns — A nameserver rule that is read again

The delegations of a cached answer were offered to the policy in force when its resolution began.
A reload installs the new set and then clears the caches, where the zones that watch delegations
are others or have other serials. A resolution that began before the install may be stored after
the clear, and a rule may be edited under the same serial.
-/

namespace Rdns.Policy

open Rdns.Lib Rdns.Core Rdns.Present Rdns.Zones Rdns.Dnssec Rdns.Resolver Rdns.Server RecordTypes

/-! ## The delegations a resolution followed -/

def Walk.followed {α : Type} (watch : List Name → List SocketAddr → Option Rewrite) :
    Walk α → List (List Name × List SocketAddr)
  | .done _ => []
  | .ask nsNames servers next =>
    let allowed := allows (watch nsNames servers)
    let rest := (next allowed).followed watch
    if allowed then (nsNames, servers) :: rest else rest

/-- **What a walk follows, its own policy allows.** -/
theorem Walk.allows_of_followed {α : Type} {watch : List Name → List SocketAddr → Option Rewrite} (walk : Walk α)
    {delegation : List Name × List SocketAddr} (h : delegation ∈ walk.followed watch) :
    allows (watch delegation.1 delegation.2) = true := by
  induction walk with
  | done result => cases h
  | ask nsNames servers next ih =>
    rw [Walk.followed] at h
    split at h
    · next hallowed =>
      rcases List.mem_cons.mp h with rfl | hrest
      · exact hallowed
      · exact ih _ hrest
    · exact ih _ h

/-- A resolution under way: the question, the policy it took when it began, and its walk. -/
structure Resolution where
  query : QuerySection
  policy : PolicyZones
  walk : Walk Resolved

namespace Resolution

variable (resolution : Resolution)

def result : Resolved := (resolution.walk.run (resolution.policy.watch resolution.query)).2

def followed : List (List Name × List SocketAddr) :=
  resolution.walk.followed (resolution.policy.watch resolution.query)

def Allowed (policy : PolicyZones) : Prop :=
  ∀ delegation ∈ resolution.followed, allows (policy.watch resolution.query delegation.1 delegation.2) = true

end Resolution

theorem Resolution.allowed_self (resolution : Resolution) : resolution.Allowed resolution.policy :=
  fun _ h => Walk.allows_of_followed resolution.walk h

/-! ## Queries, prefetches and the reload task -/

structure ResolverSetup where
  sha1 : Octets → Nsec3Hash
  reader : FeedReader
  touchesLocalZone : QuerySection → DnsMessage → Bool

structure ResolverSystem where
  now : Nat
  store : PolicyStore
  caches : Caches
  flying : List Resolution
  clearing : Bool
  kept : List (Resolution × StoreCall)

inductive ResolverEvent where
  | wait (later : Nat)
  /-- A query that misses, a prefetch, or a question of DNS64. -/
  | resolve (query : QuerySection) (walk : Walk Resolved)
  | finish (place : Nat)
  | use (left : Caches)
  | offer (path : String) (raw : Octets) (zone : Zone)
  | reload (disk : Disk)
  | clear

namespace ResolverSystem

variable (setup : ResolverSetup) (system : ResolverSystem)

def keep (resolution : Resolution) : ResolverSystem :=
  match resolution.result with
  | .error _ => system
  | .ok (response, state) =>
    if setup.touchesLocalZone resolution.query response then system
    else
      let call : StoreCall := ⟨system.now, resolution.query, response, state⟩
      { system with
        caches := system.caches.store call
        kept := if state.isBogus then system.kept else (resolution, call) :: system.kept }

def reload (disk : Disk) : ResolverSystem :=
  match PolicyStore.reload setup.reader disk system.store with
  | (store, .error _) => { system with store }
  | (store, .ok reloaded) => { system with store, clearing := reloaded.delegationRulesChanged }

def step : ResolverEvent → ResolverSystem
  | .wait later => { system with now := later }
  | .resolve query walk => { system with flying := ⟨query, system.store.current, walk⟩ :: system.flying }
  | .finish place =>
    match system.flying[place]? with
    | none => system
    | some resolution => { system with flying := system.flying.eraseIdx place }.keep setup resolution
  | .use left => { system with caches := left }
  | .offer path raw zone => { system with store := PolicyStore.offer setup.reader system.store path raw zone }
  | .reload disk => system.reload setup disk
  | .clear => { system with caches := system.caches.clear, clearing := false, kept := [] }

def May : ResolverEvent → Prop
  | .wait later => system.now ≤ later
  | .resolve _ _ | .finish _ | .offer _ _ _ => True
  | .use left => system.caches.Used setup.sha1 system.now left
  | .reload _ => system.clearing = false
  | .clear => system.clearing = true

/-- **The runs**, the last event first, each beside what it found. -/
inductive Ran (setup : ResolverSetup) : List (ResolverEvent × ResolverSystem) → ResolverSystem → Prop where
  | start (now capacity denialZones : Nat) (stale : StalePolicy) {disk : Disk} {feeds : List Feed}
      {store : PolicyStore} (h : PolicyStore.load setup.reader disk feeds = .ok store) :
      Ran setup [] ⟨now, store, .new capacity denialZones stale, [], false, []⟩
  | step {trace : List (ResolverEvent × ResolverSystem)} {system : ResolverSystem} {event : ResolverEvent}
      (h : Ran setup trace system) (hmay : system.May setup event) :
      Ran setup ((event, system) :: trace) (system.step setup event)

/-! ## A rule holds for every later query -/

/-- **Whatever a lookup may answer from**, fresh or stale, was made by resolutions that followed no
delegation a nameserver rule in force blocks. -/
def Vetted : Prop :=
  ∃ makers ⊆ system.kept, (∀ maker ∈ makers, maker.1.Allowed system.store.current) ∧
    system.caches.From (makers.map Prod.snd)

/-- In time: what is stored while no clear is to come followed no delegation that the policy in force
blocks; and a set that is installed under the serials of the one before blocks none that anything
stored since the last clear followed. -/
def InTime : ResolverEvent → Prop
  | .finish place => system.clearing = false → ∀ resolution response state,
      system.flying[place]? = some resolution → resolution.result = .ok (response, state) →
        setup.touchesLocalZone resolution.query response = false → state.isBogus = false →
          resolution.Allowed system.store.current
  | .reload disk => ∀ zones,
      PolicyZones.reload setup.reader disk system.store.feeds system.store.current ⟨system.store.offered⟩ = .ok zones →
        sameVersions zones.delegationVersions system.store.current.delegationVersions = true →
          ∀ maker ∈ system.kept, maker.1.Allowed zones
  | _ => True

/-- What the caches hold is what was kept of resolutions, and unless a clear is to come the policy in
force allows each of them. -/
structure Sound : Prop where
  made : system.caches.From (system.kept.map Prod.snd)
  allowed : system.clearing = false → ∀ maker ∈ system.kept, maker.1.Allowed system.store.current

variable {setup system}

theorem current_offer {reader : FeedReader} {store : PolicyStore} {path : String} {raw : Octets} {zone : Zone} :
    (PolicyStore.offer reader store path raw zone).current = store.current := by
  rw [PolicyStore.offer]
  split
  · rfl
  · split
    · rfl
    · rfl

theorem Sound.keep (h : system.Sound) {resolution : Resolution}
    (hallowed : system.clearing = false → ∀ response state, resolution.result = .ok (response, state) →
      setup.touchesLocalZone resolution.query response = false → state.isBogus = false →
        resolution.Allowed system.store.current) : (system.keep setup resolution).Sound := by
  rw [ResolverSystem.keep]
  split
  · exact h
  · next response state hresult =>
    split
    · exact h
    · next hlocal =>
      rw [Bool.not_eq_true] at hlocal
      dsimp only
      by_cases hbogus : state.isBogus = true
      · rw [if_pos hbogus, Caches.store_of_isBogus hbogus]
        exact ⟨h.made, h.allowed⟩
      · rw [if_neg hbogus]
        refine ⟨(h.made.mono (List.subset_cons_self _ _)).store List.mem_cons_self, fun hclearing maker hmaker => ?_⟩
        rcases List.mem_cons.mp hmaker with rfl | hold
        · exact hallowed hclearing response state hresult hlocal (Bool.eq_false_iff.mpr hbogus)
        · exact h.allowed hclearing maker hold

theorem Sound.reload (h : system.Sound) {disk : Disk} (htime : system.InTime setup (.reload disk)) : (system.reload setup disk).Sound := by
  rw [ResolverSystem.reload, PolicyStore.reload]
  cases hzones : PolicyZones.reload setup.reader disk system.store.feeds system.store.current
      ⟨system.store.offered⟩ with
  | error e => exact ⟨h.made, h.allowed⟩
  | ok zones =>
    refine ⟨h.made, fun hclearing => ?_⟩
    exact htime zones hzones (by rwa [Bool.not_eq_eq_eq_not, Bool.not_false] at hclearing)

theorem Sound.step (h : system.Sound) {event : ResolverEvent} (hmay : system.May setup event)
    (htime : system.InTime setup event) : (system.step setup event).Sound := by
  cases event with
  | wait later => exact ⟨h.made, h.allowed⟩
  | resolve query walk => exact ⟨h.made, h.allowed⟩
  | finish place =>
    rw [ResolverSystem.step]
    split
    · exact h
    · next resolution hresolution =>
      have hlanded : Sound { system with flying := system.flying.eraseIdx place } := ⟨h.made, h.allowed⟩
      exact hlanded.keep fun hclearing response state => htime hclearing resolution response state hresolution
  | use left =>
    exact ⟨Caches.from_iff.mpr ((Caches.from_iff.mp h.made).used hmay), h.allowed⟩
  | offer path raw zone =>
    refine ⟨h.made, fun hclearing maker hmaker => ?_⟩
    show maker.1.Allowed (PolicyStore.offer setup.reader system.store path raw zone).current
    rw [current_offer]
    exact h.allowed hclearing maker hmaker
  | reload disk => exact h.reload htime
  | clear =>
    refine ⟨⟨fun _ h => (by cases h), fun _ h => (by cases h), fun _ h => (by cases h), fun _ h => (by cases h)⟩, ?_⟩
    exact fun _ _ h => (by cases h)

theorem Ran.sound {trace : List (ResolverEvent × ResolverSystem)} (hrun : Ran setup trace system)
    (htime : ∀ entry ∈ trace, entry.2.InTime setup entry.1) : system.Sound := by
  induction hrun with
  | start now capacity denialZones stale hload =>
    exact ⟨Caches.from_new capacity denialZones stale, fun _ _ h => (by cases h)⟩
  | step hrun hmay ih =>
    rw [List.forall_mem_cons] at htime
    exact (ih htime.2).step hmay htime.1

end ResolverSystem

/-- **A nameserver rule in force holds for every query**, once the reload that brought it is over:
in every run whose events are in time. -/
theorem vetted_of_inTime (setup : ResolverSetup) (trace : List (ResolverEvent × ResolverSystem))
    (system : ResolverSystem) (hrun : ResolverSystem.Ran setup trace system)
    (htime : ∀ entry ∈ trace, entry.2.InTime setup entry.1) (hover : system.clearing = false) : system.Vetted := by
  have hsound := hrun.sound htime
  exact ⟨system.kept, List.Subset.refl _, hsound.allowed hover, hsound.made⟩

/-! ## A resolution that outlives the clear -/

def nsdnameText : Text := "@ 60 IN SOA . . 2 2 3 4 5\nns.rpz-nsdname 60 IN CNAME .".toList

def feedSetup : ResolverSetup := ⟨unusedSha1, blockSetup.reader, fun _ _ => false⟩

def nsName : Name := ⟨[[110, 115]], by decide, by decide⟩

def wwwReply : DnsMessage := { requestFor wwwClient.query with response := true, answers := [wwwAddress] }

def wwwState : ValidationState := .indeterminate "DNSSEC validation is not enabled"

def asking (server : Name) : Walk Resolved :=
  .ask [server] [] fun allowed => .done (if allowed then .ok (wwwReply, wwwState) else .error .policyStopped)

theorem quiet_parses : ∃ zone, PolicyZone.parse blockSetup.reader blockFeed bareFile bareText = .ok zone ∧
    zone.watchesDelegations = false := by
  have hparse : ((PolicyZone.parse blockSetup.reader blockFeed bareFile bareText).toOption.map
      PolicyZone.watchesDelegations) = some false := by
    decide +kernel
  obtain ⟨zone, hzone, hwatches⟩ := Option.map_eq_some_iff.mp hparse
  exact ⟨zone, ok_of_toOption hzone, hwatches⟩

theorem nsdname_parses :
    ∃ zone, PolicyZone.parse blockSetup.reader blockFeed (toBytes nsdnameText) nsdnameText = .ok zone ∧
      zone.watchesDelegations = true ∧
      allows ((⟨[zone]⟩ : PolicyZones).watch wwwClient.query [nsName] []) = false ∧
      allows ((⟨[zone]⟩ : PolicyZones).watch wwwClient.query [wwwName] []) = true := by
  have hparse : ((PolicyZone.parse blockSetup.reader blockFeed (toBytes nsdnameText) nsdnameText).toOption.map
      fun zone => (zone.watchesDelegations, allows ((⟨[zone]⟩ : PolicyZones).watch wwwClient.query [nsName] []),
        allows ((⟨[zone]⟩ : PolicyZones).watch wwwClient.query [wwwName] []))) = some (true, false, true) := by
    decide +kernel
  obtain ⟨zone, hzone, heq⟩ := Option.map_eq_some_iff.mp hparse
  rw [Prod.mk.injEq, Prod.mk.injEq] at heq
  exact ⟨zone, ok_of_toOption hzone, heq⟩

def quietSystem (zone : PolicyZone) : ResolverSystem :=
  ⟨0, ⟨[blockFeed], ⟨[zone]⟩, []⟩, .new 8 8 .OFF, [], false, []⟩

theorem quietSystem_ran : ∃ zone, ResolverSystem.Ran feedSetup [] (quietSystem zone) ∧
    PolicyZone.parse blockSetup.reader blockFeed bareFile bareText = .ok zone ∧ zone.watchesDelegations = false := by
  obtain ⟨zone, hparse, hwatches⟩ := quiet_parses
  exact ⟨zone, .start 0 8 8 .OFF (load_feedDisk hparse), hparse, hwatches⟩

def askingResolution (policy : PolicyZones) (server : Name) : Resolution := ⟨wwwClient.query, policy, asking server⟩

def wwwCall (now : Nat) : StoreCall := ⟨now, wwwClient.query, wwwReply, wwwState⟩

theorem watch_quiet {zone : PolicyZone} (h : zone.watchesDelegations = false) (query : QuerySection)
    (nsNames : List Name) (servers : List SocketAddr) :
    (⟨[zone]⟩ : PolicyZones).watch query nsNames servers = none := by
  refine if_neg ?_
  rw [PolicyZones.watchesDelegations, List.any_cons, h]
  decide

theorem keep_askingResolution (system : ResolverSystem) {policy : PolicyZones} {server : Name}
    (h : allows (policy.watch wwwClient.query [server] []) = true) :
    (askingResolution policy server).followed = [([server], [])] ∧
      system.keep feedSetup (askingResolution policy server) = { system with
        caches := system.caches.store (wwwCall system.now)
        kept := (askingResolution policy server, wwwCall system.now) :: system.kept } := by
  have hresult : (askingResolution policy server).result = .ok (wwwReply, wwwState) := by
    show (Walk.run (policy.watch wwwClient.query) (asking server)).2 = _
    rw [asking, Walk.run, h]
    rfl
  refine ⟨?_, ?_⟩
  · show Walk.followed (policy.watch wwwClient.query) (asking server) = _
    rw [asking, Walk.followed, if_pos h, h]
    rfl
  · rw [ResolverSystem.keep, hresult]
    rfl

section Nsdname

variable {quiet rule : PolicyZone}
  (hparse : PolicyZone.parse blockSetup.reader blockFeed bareFile bareText = .ok quiet)
  (hquiet : quiet.watchesDelegations = false)
  (hrule : PolicyZone.parse blockSetup.reader blockFeed (toBytes nsdnameText) nsdnameText = .ok rule)
  (hwatches : rule.watchesDelegations = true)

include hparse hrule in
theorem reload_nsdname :
    PolicyZones.reload feedSetup.reader (feedDisk nsdnameText) [blockFeed] ⟨[quiet]⟩ ⟨[]⟩ = .ok ⟨[rule]⟩ := by
  refine reload_feedDisk ?_ hrule
  -- the file that is read again is not the one that is held
  rw [Option.eq_none_iff_forall_ne_some]
  intro zone hzone
  obtain ⟨hmem, -, found, hfound, hfrom⟩ := PolicyZones.of_kept hzone
  cases List.mem_singleton.mp hmem
  obtain ⟨raw, hraw, hdigest, -⟩ := (of_parse (fromUtf8_toBytes bareText) hparse).2 List.mem_cons_self _ _ hfrom
  cases List.mem_singleton.mp hraw
  have hlengths : UInt64.ofNat bareFile.length ≠ UInt64.ofNat (toBytes nsdnameText).length := by decide +kernel
  exact hlengths (hdigest.trans (of_ofSelfContained hfound).symm)

include hquiet hwatches in
theorem versions_nsdname :
    sameVersions (⟨[rule]⟩ : PolicyZones).delegationVersions (⟨[quiet]⟩ : PolicyZones).delegationVersions = false := by
  have hold : (⟨[quiet]⟩ : PolicyZones).delegationVersions = [] := by
    show (([quiet].filter PolicyZone.watchesDelegations).map _) = []
    rw [List.filter_cons_of_neg (by rw [hquiet]; decide)]
    rfl
  have hnew : (⟨[rule]⟩ : PolicyZones).delegationVersions = [(rule.origin, rule.zone.serial)] := by
    show (([rule].filter PolicyZone.watchesDelegations).map _) = _
    rw [List.filter_cons_of_pos hwatches]
    rfl
  rw [hold, hnew]
  rfl

include hparse hquiet hrule hwatches in
/-- The reload brings the rule, and asks for a clear. -/
theorem step_reload_nsdname {system : ResolverSystem} (hstore : system.store = ⟨[blockFeed], ⟨[quiet]⟩, []⟩) :
    system.step feedSetup (.reload (feedDisk nsdnameText)) =
      { system with store := ⟨[blockFeed], ⟨[rule]⟩, []⟩, clearing := true } := by
  show system.reload feedSetup (feedDisk nsdnameText) = _
  rw [ResolverSystem.reload, PolicyStore.reload, hstore]
  dsimp only
  rw [reload_nsdname hparse hrule]
  dsimp only
  rw [versions_nsdname hquiet hwatches]
  rfl

end Nsdname

theorem vetted_of_inTime_nsdname : ∃ trace system, ResolverSystem.Ran feedSetup trace system ∧
    allows (system.store.current.watch wwwClient.query [nsName] []) = false ∧ system.kept ≠ [] ∧
    system.Vetted := by
  obtain ⟨quiet, hstart, hparse, hquiet⟩ := quietSystem_ran
  obtain ⟨rule, hrule, hwatches, hblocks, hasks⟩ := nsdname_parses
  set installed : ResolverSystem := { quietSystem quiet with store := ⟨[blockFeed], ⟨[rule]⟩, []⟩, clearing := true }
    with hinstalled
  set begun := (installed.step feedSetup .clear).step feedSetup (.resolve wwwClient.query (asking wwwName)) with hbegun
  have hrun₁ := hstart.step (show (quietSystem quiet).May feedSetup (.reload (feedDisk nsdnameText)) from rfl)
  rw [step_reload_nsdname hparse hquiet hrule hwatches rfl] at hrun₁
  have hrun₂ := hrun₁.step (show installed.May feedSetup .clear from rfl)
  have hrun₃ := hrun₂.step (show ResolverSystem.May feedSetup _ (.resolve wwwClient.query (asking wwwName)) from trivial)
  have hrun₄ := hrun₃.step (show begun.May feedSetup (.finish 0) from trivial)
  have hlast : begun.step feedSetup (.finish 0) = _ := (keep_askingResolution { begun with flying := [] } hasks).2
  refine ⟨_, _, hrun₄, ?_, ?_, vetted_of_inTime feedSetup _ _ hrun₄ ?_ ?_⟩
  · rw [hlast]
    exact hblocks
  · rw [hlast]
    exact List.cons_ne_nil _ _
  · intro entry hentry
    simp only [List.mem_cons, List.not_mem_nil, or_false] at hentry
    rcases hentry with rfl | rfl | rfl | rfl
    · rintro - resolution response state hplace - - -
      cases hplace
      exact Resolution.allowed_self _
    · exact trivial
    · exact trivial
    · -- the versions differ, so that the caches are cleared
      intro zones hreload hsame
      cases (reload_nsdname hparse hrule).symm.trans hreload
      cases (versions_nsdname hquiet hwatches).symm.trans hsame
  · rw [hlast]
    rfl

/-- **A blocked server's answer is served after the clear**: the resolution that asked `ns.` began
before the rule about it, and is stored behind the clear. -/
theorem stored_behind_the_clear : ∃ trace system hit, ResolverSystem.Ran feedSetup trace system ∧
    system.clearing = false ∧
    (system.caches.lookup feedSetup.sha1 system.now wwwRoot (.of A) false false).1 = some (.answer hit) ∧
    ¬ system.Vetted := by
  obtain ⟨quiet, hstart, hparse, hquiet⟩ := quietSystem_ran
  obtain ⟨rule, hrule, hwatches, hblocks, -⟩ := nsdname_parses
  set begun := (quietSystem quiet).step feedSetup (.resolve wwwClient.query (asking nsName)) with hbegun
  set installed : ResolverSystem := { begun with store := ⟨[blockFeed], ⟨[rule]⟩, []⟩, clearing := true } with hinstalled
  have hrun₁ := hstart.step (show (quietSystem quiet).May feedSetup (.resolve wwwClient.query (asking nsName)) from trivial)
  have hrun₂ := hrun₁.step (show begun.May feedSetup (.reload (feedDisk nsdnameText)) from rfl)
  rw [step_reload_nsdname hparse hquiet hrule hwatches rfl] at hrun₂
  have hrun₃ := hrun₂.step (show installed.May feedSetup .clear from rfl)
  have hrun₄ := hrun₃.step (show (installed.step feedSetup .clear).May feedSetup (.finish 0) from trivial)
  have hasks : allows ((⟨[quiet]⟩ : PolicyZones).watch wwwClient.query [nsName] []) = true := by
    rw [watch_quiet hquiet]
    rfl
  obtain ⟨hfollowed, hkeep⟩ := keep_askingResolution { installed.step feedSetup .clear with flying := [] } hasks
  have hlast : (installed.step feedSetup .clear).step feedSetup (.finish 0) = _ := hkeep
  refine ⟨_, _, ⟨[wwwAddress], wwwState.outcome, false, 0⟩, hrun₄, ?_, ?_, ?_⟩
  · rw [hlast]
    rfl
  · rw [hlast]
    rfl
  · rw [hlast]
    rintro ⟨makers, hmakers, hallowed, hfrom⟩
    obtain ⟨call, hcall, -⟩ := hfrom.answers (nameTypeKey wwwRoot (.of A), _) List.mem_cons_self
    obtain ⟨maker, hmaker, -⟩ := List.mem_map.mp hcall
    cases List.mem_singleton.mp (hmakers hmaker)
    have hallows : allows ((⟨[rule]⟩ : PolicyZones).watch wwwClient.query [nsName] []) = true :=
      hallowed _ hmaker ([nsName], []) (by rw [hfollowed]; exact List.mem_cons_self)
    rw [hblocks] at hallows
    cases hallows

end Rdns.Policy
