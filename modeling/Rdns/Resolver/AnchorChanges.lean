import Rdns.Resolver.CacheRuns
import Rdns.Resolver.HonestServers

/-!
# Rdns — Negative trust anchors that come and go

`rdnsr/src/nta.rs` beside the resolutions. A change updates the set and flushes the caches at and
below each node that changed: a reload of the file flushes first, a lapse and a recheck update
first. A resolution looks its exemption up when its walk is over, and is stored later.
-/

namespace Rdns.Resolver

open Rdns.Lib Rdns.Core Rdns.Zones Rdns.Present Rdns.Dnssec

/-! ## The set -/

def Nta.same (a b : Nta) : Bool := a.name.same b.name && a.expires == b.expires && a.recheck == b.recheck

def expireNtas (ntas : List Nta) (now : Nat) : List Nta × List Nta := ntas.partition fun nta => nta.expires ≤ now

def liftNta (ntas : List Nta) (name : Name) : Option Nta × List Nta :=
  (ntas.find? fun nta => nta.name.same name, ntas.eraseP fun nta => nta.name.same name)

def changedNodes (old new : List Nta) : List Name :=
  (new.filter fun nta =>
    match old.find? fun other => other.name.same nta.name with
    | some other => !other.same nta
    | none => true).map Nta.name ++
  (old.filter fun nta => !new.any fun other => other.name.same nta.name).map Nta.name

/-! ## Resolutions and changes -/

/-- A resolution that is over and not stored yet, and after how many updates of the set it looked
its exemption up. -/
structure Concluded where
  query : QuerySection
  response : DnsMessage
  state : ValidationState
  decidedAt : Nat

inductive AnchorChange where
  /-- `install`: it has flushed some nodes and has others to flush, and then puts the set in force. -/
  | installing (new : List Nta) (flushed todo : List Name)
  /-- `expire`, and a `recheck` that lifts: the set is updated, and these nodes are to be flushed. -/
  | flushing (update : Nat) (todo : List Name)

structure AnchorSystem where
  now : Nat
  ntas : List Nta
  updates : Nat
  caches : Caches
  flying : List Concluded
  changes : List AnchorChange
  kept : List (StoreCall × Nat)
  settled : List (Name × Nat)

inductive AnchorEvent where
  | wait (later : Nat)
  | conclude (query : QuerySection) (response : DnsMessage) (validated : ValidationState)
  | finish (place : Nat)
  | use (left : Caches)
  | install (new : List Nta)
  | expire
  | lift (name : Name)
  | proceed (place : Nat)

structure AnchorSetup where
  sha1 : Octets → Nsec3Hash
  config : ResolverConfig
  anchors : Option TrustAnchors
  touchesLocalZone : QuerySection → DnsMessage → Bool

namespace AnchorSystem

variable (setup : AnchorSetup) (system : AnchorSystem)

def verdict (query : QuerySection) (response : DnsMessage) (validated : ValidationState) : ValidationState :=
  match setup.anchors with
  | none => .indeterminate "DNSSEC validation is not enabled"
  | some anchors =>
    match exemption setup.config true query response anchors system.ntas system.now with
    | some why => .indeterminate why
    | none => validated

def keep (concluded : Concluded) : AnchorSystem :=
  if setup.touchesLocalZone concluded.query concluded.response then system
  else
    let call : StoreCall := ⟨system.now, concluded.query, concluded.response, concluded.state⟩
    { system with
      caches := system.caches.store call
      kept := if concluded.state.isBogus then system.kept else (call, concluded.decidedAt) :: system.kept }

def proceed (place : Nat) : AnchorSystem :=
  match system.changes[place]? with
  | none => system
  | some (.installing new flushed (node :: todo)) =>
    { system with
      caches := system.caches.forgetAtOrBelow node
      changes := system.changes.set place (.installing new (node :: flushed) todo) }
  | some (.installing new _ []) =>
    { system with
      ntas := new
      updates := system.updates + 1
      changes := system.changes.eraseIdx place
      settled := ((changedNodes system.ntas new).map fun node => (node, system.updates + 1)) ++ system.settled }
  | some (.flushing update (node :: todo)) =>
    { system with
      caches := system.caches.forgetAtOrBelow node
      changes := system.changes.set place (.flushing update todo)
      settled := (node, update) :: system.settled }
  | some (.flushing _ []) => { system with changes := system.changes.eraseIdx place }

def step : AnchorEvent → AnchorSystem
  | .wait later => { system with now := later }
  | .conclude query response validated =>
    let state := system.verdict setup query response validated
    { system with flying := ⟨query, response, state, system.updates⟩ :: system.flying }
  | .finish place =>
    match system.flying[place]? with
    | none => system
    | some concluded => { system with flying := system.flying.eraseIdx place }.keep setup concluded
  | .use left => { system with caches := left }
  | .install new =>
    { system with changes := .installing new [] (changedNodes system.ntas new) :: system.changes }
  | .expire =>
    let (gone, ntas) := expireNtas system.ntas system.now
    { system with
      ntas
      updates := system.updates + 1
      changes := .flushing (system.updates + 1) (gone.map Nta.name) :: system.changes }
  | .lift name =>
    match liftNta system.ntas name with
    | (none, _) => system
    | (some _, ntas) =>
      { system with
        ntas
        updates := system.updates + 1
        changes := .flushing (system.updates + 1) [name] :: system.changes }
  | .proceed place => system.proceed place

def May : AnchorEvent → Prop
  | .wait later => system.now ≤ later
  | .use left => system.caches.Used setup.sha1 system.now left
  | _ => True

/-- **The runs**, the last event first, each beside what it found. -/
inductive Ran (setup : AnchorSetup) : List (AnchorEvent × AnchorSystem) → AnchorSystem → Prop where
  | start (now capacity denialZones : Nat) (stale : StalePolicy) (ntas : List Nta) :
      Ran setup [] ⟨now, ntas, 0, .new capacity denialZones stale, [], [], [], []⟩
  | step {trace : List (AnchorEvent × AnchorSystem)} {system : AnchorSystem} {event : AnchorEvent}
      (h : Ran setup trace system) (hmay : system.May setup event) :
      Ran setup ((event, system) :: trace) (system.step setup event)

/-! ## A change takes effect -/

end AnchorSystem

def AtOrBelow (node : Name) : Name → Prop := fun name => name.isAtOrUnder node = true

namespace AnchorSystem

variable (setup : AnchorSetup) (system : AnchorSystem)

/-- **A change takes effect**: what a lookup may answer from at or below its node, fresh or stale, was
made by resolutions whose exemption was decided under the set it brought, or a later one. -/
def Effective : Prop :=
  ∀ effect ∈ system.settled, ∃ makers ⊆ system.kept, (∀ maker ∈ makers, effect.2 ≤ maker.2) ∧
    system.caches.FromIn (AtOrBelow effect.1) (makers.map Prod.fst)

/-- In time: what is stored does not reach a node that has been flushed for an update which comes after
its exemption was decided; and a reload that updates the set has flushed each node it changes. -/
def InTime : AnchorEvent → Prop
  | .finish place => ∀ concluded, system.flying[place]? = some concluded →
      setup.touchesLocalZone concluded.query concluded.response = false → concluded.state.isBogus = false →
        let call : StoreCall := ⟨system.now, concluded.query, concluded.response, concluded.state⟩
        (∀ effect ∈ system.settled, call.Reaches (AtOrBelow effect.1) → effect.2 ≤ concluded.decidedAt) ∧
        ∀ new flushed todo, .installing new flushed todo ∈ system.changes → ∀ node ∈ flushed,
          ¬ call.Reaches (AtOrBelow node)
  | .proceed place => ∀ new flushed, system.changes[place]? = some (.installing new flushed []) →
      ∀ node ∈ changedNodes system.ntas new, ∃ done ∈ flushed, node.isAtOrUnder done = true
  | _ => True

/-- The changes that are over have taken effect, and nothing is held where a reload has flushed. -/
structure Sound : Prop where
  effective : system.Effective
  flushed : ∀ new flushed todo, .installing new flushed todo ∈ system.changes → ∀ node ∈ flushed,
    system.caches.FromIn (AtOrBelow node) []

end AnchorSystem

section

variable {setup : AnchorSetup} {system : AnchorSystem} {c : Caches} {calls : List StoreCall}

theorem Caches.FromIn.imp {inside outside : Name → Prop} (h : c.FromIn outside calls)
    (himp : ∀ name, inside name → outside name) : c.FromIn inside calls where
  answers := fun entry hentry hinside => h.answers entry hentry (himp _ hinside)
  nxdomain := fun entry hentry hinside => h.nxdomain entry hentry (himp _ hinside)
  nodata := fun entry hentry hinside => h.nodata entry hentry (himp _ hinside)
  denials := fun entry hentry hinside => h.denials entry hentry (himp _ hinside)

/-- **Nothing is held at or below a node that was flushed.** -/
theorem Caches.fromIn_forgetAtOrBelow (c : Caches) (node : Name) :
    (c.forgetAtOrBelow node).FromIn (AtOrBelow node) [] := by
  have hgone : ∀ name : Name, (!name.isAtOrUnder node) = true → ¬ AtOrBelow node name := by
    intro name hnot hunder
    rw [AtOrBelow] at hunder
    rw [hunder] at hnot
    cases hnot
  constructor
  · exact fun entry hentry hinside => absurd hinside (hgone _ (List.mem_filter.mp hentry).2)
  · exact fun entry hentry hinside => absurd hinside (hgone _ (List.mem_filter.mp hentry).2)
  · exact fun entry hentry hinside => absurd hinside (hgone _ (List.mem_filter.mp hentry).2)
  · exact fun entry hentry hinside => absurd hinside (hgone _ (List.mem_filter.mp hentry).2)

namespace AnchorSystem

theorem Sound.used (h : system.Sound) {left : Caches} (hused : system.caches.Used setup.sha1 system.now left) :
    Sound { system with caches := left } where
  effective := by
    intro effect heffect
    obtain ⟨makers, hsub, hlater, hfrom⟩ := h.effective effect heffect
    exact ⟨makers, hsub, hlater, hfrom.used hused⟩
  flushed := fun new flushed todo hmem node hnode => (h.flushed new flushed todo hmem node hnode).used hused

theorem Sound.keep (h : system.Sound) {concluded : Concluded}
    (htime : setup.touchesLocalZone concluded.query concluded.response = false → concluded.state.isBogus = false →
      let call : StoreCall := ⟨system.now, concluded.query, concluded.response, concluded.state⟩
      (∀ effect ∈ system.settled, call.Reaches (AtOrBelow effect.1) → effect.2 ≤ concluded.decidedAt) ∧
      ∀ new flushed todo, .installing new flushed todo ∈ system.changes → ∀ node ∈ flushed,
        ¬ call.Reaches (AtOrBelow node)) : (system.keep setup concluded).Sound := by
  rw [AnchorSystem.keep]
  split
  · exact h
  · next hlocal =>
    rw [Bool.not_eq_true] at hlocal
    dsimp only
    by_cases hbogus : concluded.state.isBogus = true
    · rw [if_pos hbogus, Caches.store_of_isBogus hbogus]
      exact ⟨h.effective, h.flushed⟩
    · rw [if_neg hbogus]
      obtain ⟨hlate, hmissed⟩ := htime hlocal (Bool.eq_false_iff.mpr hbogus)
      refine ⟨fun effect heffect => ?_, fun new flushed todo hmem node hnode => ?_⟩
      · obtain ⟨makers, hsub, hlater, hfrom⟩ := h.effective effect heffect
        by_cases hreaches : StoreCall.Reaches ⟨system.now, concluded.query, concluded.response, concluded.state⟩
            (AtOrBelow effect.1)
        · refine ⟨(⟨system.now, concluded.query, concluded.response, concluded.state⟩, concluded.decidedAt) :: makers,
            List.cons_subset_cons _ hsub, List.forall_mem_cons.mpr ⟨hlate effect heffect hreaches, hlater⟩, ?_⟩
          exact (hfrom.mono (List.subset_cons_self _ _)).store fun _ => List.mem_cons_self
        · exact ⟨makers, List.subset_cons_of_subset _ hsub, hlater, hfrom.store fun h => absurd h hreaches⟩
      · exact (h.flushed new flushed todo hmem node hnode).store fun h =>
          absurd h (hmissed new flushed todo hmem node hnode)

theorem Sound.proceed (h : system.Sound) {place : Nat} (htime : system.InTime setup (.proceed place)) :
    (system.proceed place).Sound := by
  rw [AnchorSystem.proceed]
  split
  · exact h
  · next new flushed node todo hplace =>
    -- a reload flushes a node
    have hused : Sound { system with caches := system.caches.forgetAtOrBelow node } :=
      h.used (.forgetAtOrBelow node : system.caches.Used setup.sha1 system.now _)
    refine ⟨hused.effective, fun new' flushed' todo' hmem other hother => ?_⟩
    rcases List.mem_or_eq_of_mem_set hmem with hmem | heq
    · exact hused.flushed new' flushed' todo' hmem other hother
    · cases heq
      rcases List.mem_cons.mp hother with rfl | hold
      · exact Caches.fromIn_forgetAtOrBelow _ _
      · exact hused.flushed new flushed (node :: todo) (List.mem_of_getElem? hplace) other hold
  · next new flushed hplace =>
    -- a reload puts its set in force
    refine ⟨fun effect heffect => ?_, fun new' flushed' todo' hmem => ?_⟩
    · rcases List.mem_append.mp heffect with hnew | hold
      · obtain ⟨node, hnode, rfl⟩ := List.mem_map.mp hnew
        obtain ⟨done, hdone, hunder⟩ := htime new flushed hplace node hnode
        refine ⟨[], List.nil_subset _, fun _ h => (by cases h), ?_⟩
        refine (h.flushed new flushed [] (List.mem_of_getElem? hplace) done hdone).imp fun name hname => ?_
        exact Name.isAtOrUnder_trans hname hunder
      · exact h.effective effect hold
    · exact h.flushed new' flushed' todo' (List.mem_of_mem_eraseIdx hmem)
  · next update node todo hplace =>
    -- a lapse or a recheck flushes a node, which is settled
    have hused : Sound { system with caches := system.caches.forgetAtOrBelow node } :=
      h.used (.forgetAtOrBelow node : system.caches.Used setup.sha1 system.now _)
    refine ⟨fun effect heffect => ?_, fun new' flushed' todo' hmem other hother => ?_⟩
    · rcases List.mem_cons.mp heffect with rfl | hold
      · exact ⟨[], List.nil_subset _, fun _ h => (by cases h), Caches.fromIn_forgetAtOrBelow _ _⟩
      · exact hused.effective effect hold
    · rcases List.mem_or_eq_of_mem_set hmem with hmem | heq
      · exact hused.flushed new' flushed' todo' hmem other hother
      · cases heq
  · exact ⟨h.effective, fun new' flushed' todo' hmem => h.flushed new' flushed' todo' (List.mem_of_mem_eraseIdx hmem)⟩

theorem Sound.step (h : system.Sound) {event : AnchorEvent} (hmay : system.May setup event)
    (htime : system.InTime setup event) : (system.step setup event).Sound := by
  have hbegun : ∀ change : AnchorChange, (∀ new flushed todo, change = .installing new flushed todo → flushed = []) →
      ∀ new flushed todo, .installing new flushed todo ∈ change :: system.changes → ∀ node ∈ flushed,
        system.caches.FromIn (AtOrBelow node) [] := by
    intro change hnothing new flushed todo hmem node hnode
    rcases List.mem_cons.mp hmem with heq | hold
    · rw [hnothing new flushed todo heq.symm] at hnode
      cases hnode
    · exact h.flushed new flushed todo hold node hnode
  cases event with
  | wait later => exact ⟨h.effective, h.flushed⟩
  | conclude query response validated => exact ⟨h.effective, h.flushed⟩
  | finish place =>
    rw [AnchorSystem.step]
    split
    · exact h
    · next concluded hconcluded =>
      have hlanded : Sound { system with flying := system.flying.eraseIdx place } := ⟨h.effective, h.flushed⟩
      exact hlanded.keep fun hlocal hbogus => htime concluded hconcluded hlocal hbogus
  | use left => exact h.used hmay
  | install new =>
    refine ⟨h.effective, hbegun _ fun new' flushed todo heq => ?_⟩
    cases heq
    rfl
  | expire => exact ⟨h.effective, hbegun _ fun _ _ _ heq => (by cases heq)⟩
  | lift name =>
    rw [AnchorSystem.step]
    split
    · exact h
    · exact ⟨h.effective, hbegun _ fun _ _ _ heq => (by cases heq)⟩
  | proceed place => exact h.proceed htime

theorem Ran.sound {trace : List (AnchorEvent × AnchorSystem)} (hrun : Ran setup trace system)
    (htime : ∀ entry ∈ trace, entry.2.InTime setup entry.1) : system.Sound := by
  induction hrun with
  | start => exact ⟨fun _ h => (by cases h), fun _ _ _ h => (by cases h)⟩
  | step hrun hmay ih =>
    rw [List.forall_mem_cons] at htime
    exact (ih htime.2).step hmay htime.1

end AnchorSystem

end

/-- **A change of negative trust anchors takes effect**, in every run whose events are in time. -/
theorem effective_of_inTime (setup : AnchorSetup) (trace : List (AnchorEvent × AnchorSystem)) (system : AnchorSystem)
    (hrun : AnchorSystem.Ran setup trace system) (htime : ∀ entry ∈ trace, entry.2.InTime setup entry.1) :
    system.Effective := (hrun.sound htime).effective

/-! ## An answer that outlives its anchor -/

def lapsingSetup : AnchorSetup := ⟨unusedSha1, exValidating, some [], fun _ _ => false⟩

def lapsing : AnchorSystem := ⟨0, [⟨wwwEx, 10, true⟩], 0, .new 8 8 .OFF, [], [], [], []⟩

theorem lapsing_ran : AnchorSystem.Ran lapsingSetup [] lapsing := .start 0 8 8 .OFF _

def broken : AnchorEvent := .conclude wwwQuery (replyWith [addressOfWww] wwwQuery) (.bogus ⟨.RRSIGS_MISSING, "nothing is signed"⟩)

theorem effective_of_inTime_lapse : ∃ trace system, AnchorSystem.Ran lapsingSetup trace system ∧
    system.settled = [(wwwEx, 1)] ∧ system.Effective := by
  set decided := lapsing.step lapsingSetup broken with hdecided
  set stored := decided.step lapsingSetup (.finish 0) with hstored
  set late := stored.step lapsingSetup (.wait 10) with hlate
  set lapsed := late.step lapsingSetup .expire with hlapsed
  have hwait : stored.May lapsingSetup (.wait 10) := Nat.zero_le 10
  have hrun : AnchorSystem.Ran lapsingSetup
      [(.proceed 0, lapsed), (.expire, late), (.wait 10, stored), (.finish 0, decided), (broken, lapsing)]
      (lapsed.step lapsingSetup (.proceed 0)) :=
    .step (.step (.step (.step (.step lapsing_ran trivial) trivial) hwait) trivial) trivial
  refine ⟨_, _, hrun, rfl, effective_of_inTime lapsingSetup _ _ hrun fun entry hentry => ?_⟩
  rw [List.mem_cons, List.mem_cons, List.mem_cons, List.mem_cons, List.mem_singleton] at hentry
  rcases hentry with rfl | rfl | rfl | rfl | rfl
  · intro new flushed hplace
    cases hplace
  · exact trivial
  · exact trivial
  · intro concluded hplace _ _
    exact ⟨fun _ h => (by cases h), fun _ _ _ h => (by cases h)⟩
  · exact trivial

/-- **An unvalidated answer outlives its anchor**: the walk is over before the lapse, and the answer
is stored behind the flush. -/
theorem stored_behind_the_flush : ∃ trace system hit, AnchorSystem.Ran lapsingSetup trace system ∧
    system.ntas = [] ∧ system.changes = [] ∧
    (system.caches.lookup lapsingSetup.sha1 system.now wwwEx wwwQuery.qtype true false).1 =
      some (.answer hit) ∧ hit.outcome = .indeterminate ∧ ¬ system.Effective := by
  set decided := lapsing.step lapsingSetup broken with hdecided
  set late := decided.step lapsingSetup (.wait 10) with hlate
  set lapsed := late.step lapsingSetup .expire with hlapsed
  set flushed := lapsed.step lapsingSetup (.proceed 0) with hflushed
  set settled := flushed.step lapsingSetup (.proceed 0) with hsettled
  have hwait : decided.May lapsingSetup (.wait 10) := Nat.zero_le 10
  have hrun : AnchorSystem.Ran lapsingSetup
      [(.finish 0, settled), (.proceed 0, flushed), (.proceed 0, lapsed), (.expire, late), (.wait 10, decided),
        (broken, lapsing)] (settled.step lapsingSetup (.finish 0)) :=
    .step (.step (.step (.step (.step (.step lapsing_ran trivial) hwait) trivial) trivial) trivial) trivial
  refine ⟨_, _, ⟨[addressOfWww], .indeterminate, false, 10⟩, hrun, rfl, rfl, rfl, rfl, fun heffective => ?_⟩
  obtain ⟨makers, hmakers, hlater, hfrom⟩ := heffective (wwwEx, 1) List.mem_cons_self
  have hunder : AtOrBelow wwwEx wwwEx.toFolded := rfl
  obtain ⟨call, hcall, -⟩ := hfrom.answers (nameTypeKey wwwEx wwwQuery.qtype, _) List.mem_cons_self hunder
  obtain ⟨maker, hmaker, -⟩ := List.mem_map.mp hcall
  cases List.mem_singleton.mp (hmakers hmaker)
  exact absurd (hlater _ hmaker) (by decide)

end Rdns.Resolver
