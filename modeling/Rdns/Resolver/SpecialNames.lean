import Mathlib.Data.List.Pairwise
import Rdns.Resolver.Recursion

/-!
# Rdns — Names that are answered here

`rdns/src/special_names.rs`: the special-use names and the reverse zones of private addresses
(RFC 6761, RFC 6762, RFC 6303) are answered by a table, each as a zone that holds nothing below its
apex. Two things do exist below an apex: the loopback address has a PTR record, and a routed domain
takes the names at or under it away.
-/

namespace Rdns.Resolver

open Rdns.Lib Rdns.Core Rdns.Present RecordTypes

/-! ## The table -/

def literal (text : String) : Name :=
  (Name.ofLabels ((text.toList.splitOn '.').dropLast.map toBytes)).toOption.getD Name.root

/-- The reverse zones of addresses that are not globally unique (RFC 6303 §4). -/
def EMPTY_ZONES : List String :=
  [ "10.in-addr.arpa.",
    "16.172.in-addr.arpa.",
    "17.172.in-addr.arpa.",
    "18.172.in-addr.arpa.",
    "19.172.in-addr.arpa.",
    "20.172.in-addr.arpa.",
    "21.172.in-addr.arpa.",
    "22.172.in-addr.arpa.",
    "23.172.in-addr.arpa.",
    "24.172.in-addr.arpa.",
    "25.172.in-addr.arpa.",
    "26.172.in-addr.arpa.",
    "27.172.in-addr.arpa.",
    "28.172.in-addr.arpa.",
    "29.172.in-addr.arpa.",
    "30.172.in-addr.arpa.",
    "31.172.in-addr.arpa.",
    "168.192.in-addr.arpa.",
    "254.169.in-addr.arpa.",
    "0.in-addr.arpa.",
    "2.0.192.in-addr.arpa.",
    "100.51.198.in-addr.arpa.",
    "113.0.203.in-addr.arpa.",
    "255.255.255.255.in-addr.arpa.",
    "0.0.0.0.0.0.0.0.0.0.0.0.0.0.0.0.0.0.0.0.0.0.0.0.0.0.0.0.0.0.0.0.ip6.arpa.",
    "8.e.f.ip6.arpa.",
    "9.e.f.ip6.arpa.",
    "a.e.f.ip6.arpa.",
    "b.e.f.ip6.arpa.",
    "c.f.ip6.arpa.",
    "d.f.ip6.arpa.",
    "8.b.d.0.1.0.0.2.ip6.arpa." ]

def LOOPBACK_V6_REVERSE : String := "1.0.0.0.0.0.0.0.0.0.0.0.0.0.0.0.0.0.0.0.0.0.0.0.0.0.0.0.0.0.0.0.ip6.arpa."

structure Table where
  localhost : Name
  loopbackPtr : Name
  loopbackReverse : Name
  loopbackV6Reverse : Name
  mdns : Name
  invalid : Name
  empty : List Name

def Table.specialUse (table : Table) : List Name :=
  [table.localhost, table.loopbackReverse, table.loopbackV6Reverse, table.mdns, table.invalid]

def table : Table where
  localhost := literal "localhost."
  loopbackPtr := literal "1.0.0.127.in-addr.arpa."
  loopbackReverse := literal "127.in-addr.arpa."
  loopbackV6Reverse := literal LOOPBACK_V6_REVERSE
  mdns := literal "local."
  invalid := literal "invalid."
  empty := EMPTY_ZONES.map literal

/-! ## Which empty zones are on -/

structure EmptyZones where
  on : List Bool
  length_ok : on.length = EMPTY_ZONES.length
deriving DecidableEq

namespace EmptyZones

def default : EmptyZones := ⟨List.replicate EMPTY_ZONES.length true, List.length_replicate⟩

end EmptyZones

/-! ## What is answered -/

structure LocalAnswer where
  rcode : ResponseCode
  answers : List ResourceRecord
  authority : List ResourceRecord
  why : String

def LOCAL_TTL : Ttl := ⟨3600⟩

def syntheticSoa (zone : Name) : Option ResourceRecord :=
  ((RecordData.fromParsed (.soa zone (literal "nobody.invalid.") ⟨1⟩ 3600 1200 604800 LOCAL_TTL.secs)).toOption).map
    fun rdata => ⟨zone, .IN, LOCAL_TTL, rdata⟩

def positive (qname : Name) (rdata : RecordData) (why : String) : LocalAnswer :=
  ⟨.ok, [⟨qname, .IN, LOCAL_TTL, rdata⟩], [], why⟩

def nodata (zone : Name) (why : String) : LocalAnswer := ⟨.ok, [], (syntheticSoa zone).toList, why⟩

def nxdomain (zone : Name) (why : String) : LocalAnswer := ⟨.noSuchDomain, [], (syntheticSoa zone).toList, why⟩

def inZone (qname : Name) (qtype : Qtype) (zone : Name) (why : String) : LocalAnswer :=
  if !qname.same zone then nxdomain zone why
  else if qtype.is SOA then ⟨.ok, (syntheticSoa zone).toList, [], why⟩
  else if qtype.is NS then
    match RecordData.fromParsed (.ns zone) with
    | .ok rdata => positive qname rdata why
    | .error _ => nodata zone why
  else nodata zone why

def loopbackV4 : RecordData := ⟨A, [127, 0, 0, 1]⟩
def loopbackV6 : RecordData := ⟨AAAA, [0, 0, 0, 0, 0, 0, 0, 0, 0, 0, 0, 0, 0, 0, 0, 1]⟩

def emptyZoneOf (qname : Name) (empty : EmptyZones) (routed : Option Name) : Option Name :=
  ((table.empty.zip empty.on).find? fun (zone, on) =>
    on && !routed.any (·.isAtOrUnder zone) && qname.isAtOrUnder zone).map Prod.fst

def lookup (qname : Name) (qtype : Qtype) (empty : EmptyZones) (routed : Option Name) : Option LocalAnswer :=
  if qname.isAtOrUnder table.localhost then
    some (
      if qtype.is A then
        positive qname loopbackV4 "localhost is the loopback address (RFC 6761 §6.3)"
      else if qtype.is AAAA then
        positive qname loopbackV6 "localhost is the loopback address (RFC 6761 §6.3)"
      -- the name exists on every machine
      else nodata table.localhost "localhost exists but has only loopback addresses (RFC 6761 §6.3)")
  else if qname.same table.loopbackPtr && qtype.is PTR then
    (RecordData.fromParsed (.ptr table.localhost)).toOption.map fun rdata =>
      positive qname rdata "127.0.0.1 is localhost (RFC 6303 §4.2)"
  else match [table.loopbackReverse, table.loopbackV6Reverse].find? (qname.isAtOrUnder ·) with
  | some zone =>
    some (inZone qname qtype zone "the loopback reverse zones are answered locally (RFC 6303 §4.2, §4.3)")
  | none =>
    if qname.isAtOrUnder table.mdns then
      some (nxdomain table.mdns "`.local` is mDNS, not DNS (RFC 6762 §3)")
    else if qname.isAtOrUnder table.invalid then
      some (nxdomain table.invalid "`invalid.` is reserved to not exist (RFC 6761 §6.4)")
    else (emptyZoneOf qname empty routed).map fun zone =>
      inZone qname qtype zone "a private-address reverse lookup is answered locally (RFC 6303 §4)"

def answerHere (empty : EmptyZones) (config : ResolverConfig) (qname : Name) (qtype : Qtype) : Option LocalAnswer :=
  lookup qname qtype empty ((config.routeFor qname).map Route.name)

def StrictlyUnder (name other : Name) : Prop := name.isAtOrUnder other = true ∧ name.same other = false

def Denied (answer : Option LocalAnswer) : Prop := ∃ found, answer = some found ∧ found.rcode = .noSuchDomain

/-- **What RFC 8020 reads into a denial**: it is one for every type, and for every name below. -/
def Consistent (empty : EmptyZones) (config : ResolverConfig) (name : Name) : Prop :=
  (∃ qtype, Denied (answerHere empty config name qtype)) →
    (∀ qtype, Denied (answerHere empty config name qtype)) ∧
      ∀ below, StrictlyUnder below name → ∀ qtype, Denied (answerHere empty config below qtype)

def AboveLoopbackPtr (name : Name) : Prop :=
  StrictlyUnder name table.loopbackReverse ∧ table.loopbackPtr.isAtOrUnder name = true

def AboveRoute (empty : EmptyZones) (config : ResolverConfig) (name : Name) : Prop :=
  (∃ zone, emptyZoneOf name empty ((config.routeFor name).map Route.name) = some zone ∧ name.same zone = false) ∧
    ∃ route ∈ config.routes, StrictlyUnder route.name name

/-! ## Names above one another -/

section Names

variable {name other third : Name} {config : ResolverConfig}

theorem StrictlyUnder.trans_left (h : StrictlyUnder name other) (hunder : third.isAtOrUnder name = true) :
    StrictlyUnder third other := by
  refine ⟨Name.isAtOrUnder_trans hunder h.1, ?_⟩
  rw [Bool.eq_false_iff]
  intro hsame
  have hback : name.isAtOrUnder other = true ∧ other.isAtOrUnder name = true := by
    refine ⟨h.1, ?_⟩
    rw [Name.isAtOrUnder_iff] at hunder ⊢
    rwa [← Name.same_iff_foldLabels.mp hsame]
  have hfold := List.IsSuffix.eq_of_length (Name.isAtOrUnder_iff.mp hback.1)
    (Nat.le_antisymm (Name.isAtOrUnder_iff.mp hback.1).length_le (Name.isAtOrUnder_iff.mp hback.2).length_le)
  have hnot := h.2
  rw [Name.same_iff_foldLabels.mpr hfold.symm] at hnot
  cases hnot

theorem labelCount_le (h : name.isAtOrUnder other = true) : other.labelCount ≤ name.labelCount := by
  have hlength := (Name.isAtOrUnder_iff.mp h).length_le
  rwa [foldLabels, foldLabels, List.length_map, List.length_map] at hlength

theorem isAtOrUnder_of_labelCount_le (hother : name.isAtOrUnder other = true) (hthird : name.isAtOrUnder third = true)
    (hle : third.labelCount ≤ other.labelCount) : other.isAtOrUnder third = true := by
  rw [Name.isAtOrUnder_iff] at *
  refine List.suffix_of_suffix_length_le hthird hother ?_
  rw [foldLabels, foldLabels, List.length_map, List.length_map]
  exact hle

theorem of_routeFor {route : Route} (h : config.routeFor name = some route) :
    route ∈ config.routes ∧ name.isAtOrUnder route.name = true ∧
      ∀ rival ∈ config.routes, name.isAtOrUnder rival.name = true → rival.name.labelCount ≤ route.name.labelCount := by
  obtain ⟨hmem, hcovers⟩ := List.mem_filter.mp (List.mem_reverse.mp (List.maxOn?_mem h))
  refine ⟨hmem, hcovers, fun rival hrival hrivalCovers => ?_⟩
  have hcandidate : rival ∈ (config.routes.filter fun route => name.isAtOrUnder route.name).reverse :=
    List.mem_reverse.mpr (List.mem_filter.mpr ⟨hrival, hrivalCovers⟩)
  have hmost := List.le_apply_get_maxOn?_of_mem (f := fun route : Route => route.name.labelCount) hcandidate
  rw [ResolverConfig.routeFor] at h
  simpa only [h, Option.get_some] using hmost

theorem exists_routeFor {route : Route} (hroute : route ∈ config.routes) (hcovers : name.isAtOrUnder route.name = true) :
    ∃ found, config.routeFor name = some found :=
  Option.isSome_iff_exists.mp (List.isSome_maxOn?_of_mem (List.mem_reverse.mpr (List.mem_filter.mpr ⟨hroute, hcovers⟩)))

end Names

/-! ## Zones apart -/

def Apart (name other : Name) : Prop := name.isAtOrUnder other = false ∧ other.isAtOrUnder name = false

instance : DecidableRel Apart := fun _ _ => inferInstanceAs (Decidable (_ ∧ _))

instance : Std.Symm Apart := ⟨fun _ _ h => ⟨h.2, h.1⟩⟩

/-- **The zones of the table are apart.** -/
theorem table_apart : (table.specialUse ++ table.empty).Pairwise Apart := by
  decide +kernel

theorem loopbackPtr_under : StrictlyUnder table.loopbackPtr table.loopbackReverse := by
  constructor
  · decide +kernel
  · decide +kernel

section Lookup

variable {name below a b zone : Name} {qtype : Qtype} {empty : EmptyZones} {routed : Option Name} {config : ResolverConfig}

theorem eq_of_under (ha : a ∈ table.specialUse ++ table.empty) (hb : b ∈ table.specialUse ++ table.empty)
    (hna : name.isAtOrUnder a = true) (hnb : name.isAtOrUnder b = true) : a = b := by
  by_contra hne
  obtain ⟨hab, hba⟩ := table_apart.forall ha hb hne
  rcases Nat.le_total a.labelCount b.labelCount with hle | hle
  · rw [isAtOrUnder_of_labelCount_le hnb hna hle] at hba
    cases hba
  · rw [isAtOrUnder_of_labelCount_le hna hnb hle] at hab
    cases hab

theorem not_both_special (ha : a ∈ table.specialUse) (hb : b ∈ table.specialUse) (hne : a ≠ b)
    (hna : name.isAtOrUnder a = true) : name.isAtOrUnder b = false := by
  rw [Bool.eq_false_iff]
  intro hnb
  exact hne (eq_of_under (List.mem_append_left _ ha) (List.mem_append_left _ hb) hna hnb)

theorem not_special_of_empty (ha : a ∈ table.empty) (hb : b ∈ table.specialUse) (hna : name.isAtOrUnder a = true) :
    name.isAtOrUnder b = false := by
  rw [Bool.eq_false_iff]
  intro hnb
  rw [eq_of_under (List.mem_append_right _ ha) (List.mem_append_left _ hb) hna hnb] at ha
  have hself := ((List.pairwise_append.mp table_apart).2.2 b hb b ha).1
  rw [Name.isAtOrUnder_refl] at hself
  cases hself

theorem rcode_inZone {why : String} : (inZone name qtype zone why).rcode = .noSuchDomain ↔ name.same zone = false := by
  unfold inZone
  split
  · next hne =>
    rw [Bool.not_eq_true'] at hne
    exact ⟨fun _ => hne, fun _ => rfl⟩
  · next heq =>
    rw [Bool.not_eq_true', Bool.not_eq_false] at heq
    rw [heq]
    refine ⟨fun h => ?_, fun h => (by cases h)⟩
    split at h
    · cases h
    · split at h
      · split at h <;> cases h
      · cases h

theorem of_emptyZoneOf (h : emptyZoneOf name empty routed = some zone) :
    (zone, true) ∈ table.empty.zip empty.on ∧ name.isAtOrUnder zone = true ∧ routed.any (·.isAtOrUnder zone) = false := by
  obtain ⟨⟨found, on⟩, hfind, rfl⟩ := Option.map_eq_some_iff.mp h
  have hmem := List.mem_of_find?_eq_some hfind
  have hpasses := List.find?_some hfind
  simp only [Bool.and_eq_true, Bool.not_eq_true'] at hpasses
  obtain ⟨⟨rfl, hfree⟩, hunder⟩ := hpasses
  exact ⟨hmem, hunder, hfree⟩

theorem mem_empty (h : (zone, true) ∈ table.empty.zip empty.on) : zone ∈ table.empty := (List.of_mem_zip h).1

theorem emptyZoneOf_eq (hon : (zone, true) ∈ table.empty.zip empty.on) (hunder : name.isAtOrUnder zone = true)
    (hfree : routed.any (·.isAtOrUnder zone) = false) : emptyZoneOf name empty routed = some zone := by
  have hsome : ∃ found, emptyZoneOf name empty routed = some found := by
    rw [emptyZoneOf]
    cases hfind : (table.empty.zip empty.on).find? fun (zone, on) =>
        on && !routed.any (·.isAtOrUnder zone) && name.isAtOrUnder zone with
    | some pair => exact ⟨pair.1, rfl⟩
    | none =>
      have hnot := List.find?_eq_none.mp hfind (zone, true) hon
      simp only [hfree, hunder] at hnot
      exact absurd rfl hnot
  obtain ⟨found, hfound⟩ := hsome
  obtain ⟨hfoundOn, hfoundUnder, -⟩ := of_emptyZoneOf hfound
  rw [hfound, eq_of_under (List.mem_append_right _ (mem_empty hfoundOn)) (List.mem_append_right _ (mem_empty hon))
    hfoundUnder hunder]

inductive DeniedAt (name : Name) (qtype : Qtype) (empty : EmptyZones) (routed : Option Name) : Prop where
  | nowhere (h : name.isAtOrUnder table.mdns = true ∨ name.isAtOrUnder table.invalid = true)
  | loopback (zone : Name) (hzone : zone = table.loopbackReverse ∨ zone = table.loopbackV6Reverse)
      (hunder : StrictlyUnder name zone) (hptr : (name.same table.loopbackPtr && qtype.is PTR) = false)
  | privateZone (zone : Name) (hzone : emptyZoneOf name empty routed = some zone) (hbelow : name.same zone = false)

theorem denied_some {found : LocalAnswer} : Denied (some found) ↔ found.rcode = .noSuchDomain := by
  constructor
  · rintro ⟨_, heq, h⟩
    cases heq
    exact h
  · exact fun h => ⟨found, rfl, h⟩

theorem special_localhost : table.localhost ∈ table.specialUse := List.mem_cons_self
theorem special_loopback : table.loopbackReverse ∈ table.specialUse := List.mem_cons_of_mem _ List.mem_cons_self
theorem special_loopbackV6 : table.loopbackV6Reverse ∈ table.specialUse :=
  List.mem_cons_of_mem _ (List.mem_cons_of_mem _ List.mem_cons_self)
theorem special_mdns : table.mdns ∈ table.specialUse :=
  List.mem_cons_of_mem _ (List.mem_cons_of_mem _ (List.mem_cons_of_mem _ List.mem_cons_self))
theorem special_invalid : table.invalid ∈ table.specialUse :=
  List.mem_cons_of_mem _ (List.mem_cons_of_mem _ (List.mem_cons_of_mem _ (List.mem_cons_of_mem _ List.mem_cons_self)))

theorem DeniedAt.apart (h : DeniedAt name qtype empty routed) (hb : b ∈ table.specialUse) (hunder : name.isAtOrUnder b = true) :
    (b = table.mdns ∨ b = table.invalid) ∨ (b = table.loopbackReverse ∨ b = table.loopbackV6Reverse) := by
  cases h with
  | nowhere h =>
    left
    rcases h with h | h
    · exact .inl (eq_of_under (List.mem_append_left _ hb) (List.mem_append_left _ special_mdns) hunder h)
    · exact .inr (eq_of_under (List.mem_append_left _ hb) (List.mem_append_left _ special_invalid) hunder h)
  | loopback zone hzone hstrict _ =>
    right
    rcases hzone with rfl | rfl
    · exact .inl (eq_of_under (List.mem_append_left _ hb) (List.mem_append_left _ special_loopback) hunder hstrict.1)
    · exact .inr (eq_of_under (List.mem_append_left _ hb) (List.mem_append_left _ special_loopbackV6) hunder hstrict.1)
  | privateZone zone hzone _ =>
    obtain ⟨hon, hin, -⟩ := of_emptyZoneOf hzone
    rw [not_special_of_empty (mem_empty hon) hb hin] at hunder
    cases hunder

/-- **Where the table says that a name does not exist.** -/
theorem lookup_denied_iff : Denied (lookup name qtype empty routed) ↔ DeniedAt name qtype empty routed := by
  have hptr : name.same table.loopbackPtr = true → name.isAtOrUnder table.loopbackReverse = true := by
    intro hsame
    have hunder := loopbackPtr_under.1
    rw [Name.isAtOrUnder_iff] at hunder ⊢
    rwa [Name.same_iff_foldLabels.mp hsame]
  unfold lookup
  split
  · next hlocalhost =>
    rw [denied_some]
    refine ⟨fun h => ?_, fun h => ?_⟩
    · split at h
      · cases h
      · split at h <;> cases h
    · have hother : ¬((table.localhost = table.mdns ∨ table.localhost = table.invalid) ∨
          (table.localhost = table.loopbackReverse ∨ table.localhost = table.loopbackV6Reverse)) := by
        decide +kernel
      exact absurd (h.apart special_localhost hlocalhost) hother
  split
  · next hasked =>
    rw [Bool.and_eq_true] at hasked
    refine ⟨fun h => ?_, fun h => ?_⟩
    · obtain ⟨found, hfound, hrcode⟩ := h
      obtain ⟨rdata, -, rfl⟩ := Option.map_eq_some_iff.mp hfound
      cases hrcode
    · have hunder := hptr hasked.1
      cases h with
      | nowhere h =>
        rcases h with h | h
        · rw [not_both_special special_loopback special_mdns (by decide +kernel) hunder] at h
          cases h
        · rw [not_both_special special_loopback special_invalid (by decide +kernel) hunder] at h
          cases h
      | loopback zone _ _ hnot =>
        rw [hasked.1, hasked.2] at hnot
        cases hnot
      | privateZone zone hzone _ =>
        obtain ⟨hon, hin, -⟩ := of_emptyZoneOf hzone
        rw [not_special_of_empty (mem_empty hon) special_loopback hin] at hunder
        cases hunder
  next hnotPtr =>
  rw [Bool.not_eq_true] at hnotPtr
  split
  · next zone hfind =>
    have hzone : zone = table.loopbackReverse ∨ zone = table.loopbackV6Reverse := by
      have hmem := List.mem_of_find?_eq_some hfind
      rwa [List.mem_cons, List.mem_singleton] at hmem
    have hspecial : zone ∈ table.specialUse := by grind [special_loopback, special_loopbackV6]
    have hunder := List.find?_some hfind
    rw [denied_some, rcode_inZone]
    refine ⟨fun hsame => .loopback zone hzone ⟨hunder, hsame⟩ hnotPtr, fun h => ?_⟩
    cases h with
    | nowhere h =>
      have hne : zone ≠ table.mdns ∧ zone ≠ table.invalid := by
        rcases hzone with rfl | rfl
        · decide +kernel
        · decide +kernel
      rcases h with h | h
      · rw [not_both_special hspecial special_mdns hne.1 hunder] at h
        cases h
      · rw [not_both_special hspecial special_invalid hne.2 hunder] at h
        cases h
    | loopback other hother hstrict _ =>
      have hotherSpecial : other ∈ table.specialUse := by grind [special_loopback, special_loopbackV6]
      rw [eq_of_under (List.mem_append_left _ hspecial) (List.mem_append_left _ hotherSpecial) hunder hstrict.1]
      exact hstrict.2
    | privateZone other hother _ =>
      obtain ⟨hon, hin, -⟩ := of_emptyZoneOf hother
      rw [not_special_of_empty (mem_empty hon) hspecial hin] at hunder
      cases hunder
  next hnone =>
  have houtside : name.isAtOrUnder table.loopbackReverse = false ∧ name.isAtOrUnder table.loopbackV6Reverse = false := by
    have hall := List.find?_eq_none.mp hnone
    exact ⟨Bool.eq_false_iff.mpr (hall _ List.mem_cons_self),
      Bool.eq_false_iff.mpr (hall _ (List.mem_cons_of_mem _ List.mem_cons_self))⟩
  split
  · next hmdns => exact ⟨fun _ => .nowhere (.inl hmdns), fun _ => ⟨_, rfl, rfl⟩⟩
  split
  · next hinvalid => exact ⟨fun _ => .nowhere (.inr hinvalid), fun _ => ⟨_, rfl, rfl⟩⟩
  next hmdns hinvalid =>
  constructor
  · rintro ⟨found, hfound, hrcode⟩
    obtain ⟨zone, hzone, rfl⟩ := Option.map_eq_some_iff.mp hfound
    exact .privateZone zone hzone (rcode_inZone.mp hrcode)
  · intro h
    cases h with
    | nowhere h => exact absurd h (not_or.mpr ⟨hmdns, hinvalid⟩)
    | loopback zone hzone hstrict _ =>
      have hin := hstrict.1
      rcases hzone with rfl | rfl
      · rw [houtside.1] at hin
        cases hin
      · rw [houtside.2] at hin
        cases hin
    | privateZone zone hzone hbelow =>
      rw [hzone]
      exact ⟨_, rfl, rcode_inZone.mpr hbelow⟩

/-! ## The whole subtree -/

theorem not_isAtOrUnder_empty (ha : a ∈ table.specialUse) (hna : name.isAtOrUnder a = true) :
    ∀ zone, emptyZoneOf name empty routed ≠ some zone := by
  intro zone hzone
  obtain ⟨hon, hin, -⟩ := of_emptyZoneOf hzone
  rw [not_special_of_empty (mem_empty hon) ha hin] at hna
  cases hna

theorem not_deniedAt_ptr (hsame : name.same table.loopbackPtr = true) :
    ¬DeniedAt name (.of PTR) empty routed := by
  intro h
  have hunder : name.isAtOrUnder table.loopbackReverse = true := by
    have hptr := loopbackPtr_under.1
    rw [Name.isAtOrUnder_iff] at hptr ⊢
    rwa [Name.same_iff_foldLabels.mp hsame]
  cases h with
  | nowhere h =>
    rcases h with h | h
    · rw [not_both_special special_loopback special_mdns (by decide +kernel) hunder] at h
      cases h
    · rw [not_both_special special_loopback special_invalid (by decide +kernel) hunder] at h
      cases h
  | loopback zone _ _ hnot =>
    rw [hsame] at hnot
    cases hnot
  | privateZone zone hzone _ => exact not_isAtOrUnder_empty special_loopback hunder zone hzone

theorem not_deniedAt_routed {route : Route} (hroute : route ∈ config.routes) (hzone : zone ∈ table.empty)
    (hunder : route.name.isAtOrUnder zone = true) :
    ¬DeniedAt route.name qtype empty ((config.routeFor route.name).map Route.name) := by
  intro h
  obtain ⟨found, hfound⟩ := exists_routeFor hroute (Name.isAtOrUnder_refl route.name)
  obtain ⟨-, hcovers, hmost⟩ := of_routeFor hfound
  -- the route that decides is no shorter than this one, and so inside the zone too
  have hinside : found.name.isAtOrUnder zone = true :=
    isAtOrUnder_of_labelCount_le hcovers hunder
      (Nat.le_trans (labelCount_le hunder) (hmost route hroute (Name.isAtOrUnder_refl route.name)))
  cases h with
  | nowhere h => grind [not_special_of_empty, special_mdns, special_invalid]
  | loopback other hother hstrict _ =>
    have hin := hstrict.1
    rcases hother with rfl | rfl
    · rw [not_special_of_empty hzone special_loopback hunder] at hin
      cases hin
    · rw [not_special_of_empty hzone special_loopbackV6 hunder] at hin
      cases hin
  | privateZone other hother _ =>
    obtain ⟨hon, hin, hfree⟩ := of_emptyZoneOf hother
    rw [eq_of_under (List.mem_append_right _ (mem_empty hon)) (List.mem_append_right _ hzone) hin hunder] at hfree
    rw [hfound] at hfree
    simp [hinside] at hfree

theorem DeniedAt.subtree {other : Qtype} (h : DeniedAt name qtype empty ((config.routeFor name).map Route.name))
    (hptr : ¬AboveLoopbackPtr name) (hroutes : ¬AboveRoute empty config name) (hbelow : below.isAtOrUnder name = true) :
    DeniedAt below other empty ((config.routeFor below).map Route.name) := by
  cases h with
  | nowhere h =>
    rcases h with h | h
    · exact .nowhere (.inl (Name.isAtOrUnder_trans hbelow h))
    · exact .nowhere (.inr (Name.isAtOrUnder_trans hbelow h))
  | loopback zone hzone hstrict _ =>
    refine .loopback zone hzone (hstrict.trans_left hbelow) ?_
    rw [Bool.and_eq_false_iff]
    left
    rw [Bool.eq_false_iff]
    intro hsame
    have hunder : table.loopbackPtr.isAtOrUnder name = true := by grind [Name.isAtOrUnder_iff, Name.same_iff_foldLabels]
    rcases hzone with rfl | rfl
    · exact hptr ⟨hstrict, hunder⟩
    · have hin := Name.isAtOrUnder_trans hunder hstrict.1
      rw [not_both_special special_loopback special_loopbackV6 (by decide +kernel) loopbackPtr_under.1] at hin
      cases hin
  | privateZone zone hzone hinside =>
    obtain ⟨hon, hunder, hfree⟩ := of_emptyZoneOf hzone
    have hstrict : StrictlyUnder below zone := StrictlyUnder.trans_left ⟨hunder, hinside⟩ hbelow
    refine .privateZone zone (emptyZoneOf_eq hon hstrict.1 ?_) hstrict.2
    rw [Bool.eq_false_iff]
    intro hany
    obtain ⟨route, hroute, hoverrides⟩ : ∃ route, config.routeFor below = some route ∧
        route.name.isAtOrUnder zone = true := by
      cases hfound : config.routeFor below with
      | none => rw [hfound] at hany; cases hany
      | some route => exact ⟨route, rfl, by simpa [hfound] using hany⟩
    obtain ⟨hmem, hcovers, -⟩ := of_routeFor hroute
    rcases Nat.lt_or_ge name.labelCount route.name.labelCount with hlonger | hshorter
    · -- the route begins below the name
      refine hroutes ⟨⟨zone, hzone, hinside⟩, route, hmem,
        isAtOrUnder_of_labelCount_le hcovers hbelow (Nat.le_of_lt hlonger), ?_⟩
      rw [Bool.eq_false_iff]
      intro hsame
      have hlength := congrArg List.length (Name.same_iff_foldLabels.mp hsame)
      rw [foldLabels, foldLabels, List.length_map, List.length_map] at hlength
      exact absurd hlength (Nat.ne_of_gt hlonger)
    · -- the route covers the name, and overrode the zone for it already
      have hover := isAtOrUnder_of_labelCount_le hbelow hcovers hshorter
      obtain ⟨found, hfound⟩ := exists_routeFor hmem hover
      obtain ⟨-, hfoundCovers, hmost⟩ := of_routeFor hfound
      have hwithin := Name.isAtOrUnder_trans
        (isAtOrUnder_of_labelCount_le hfoundCovers hover (hmost route hmem hover)) hoverrides
      rw [hfound] at hfree
      simp [hwithin] at hfree

/-- **A denial holds for the whole subtree** exactly at the names that are neither above the loopback
address's record nor, inside an empty zone, above a routed domain. -/
theorem consistent_iff (empty : EmptyZones) (config : ResolverConfig) (name : Name) :
    Consistent empty config name ↔ ¬AboveLoopbackPtr name ∧ ¬AboveRoute empty config name := by
  constructor
  · intro h
    constructor
    · rintro ⟨hstrict, hunder⟩
      have hdenied : Denied (answerHere empty config name (.of A)) := by
        refine lookup_denied_iff.mpr (.loopback _ (.inl rfl) hstrict ?_)
        have hnot : (Qtype.of A).is PTR = false := by decide
        rw [hnot, Bool.and_false]
      obtain ⟨hevery, hsubtree⟩ := h ⟨_, hdenied⟩
      cases hsame : table.loopbackPtr.same name with
      | true =>
        have hself := Name.same_iff_foldLabels.mpr (Name.same_iff_foldLabels.mp hsame).symm
        exact not_deniedAt_ptr hself (lookup_denied_iff.mp (hevery (.of PTR)))
      | false =>
        exact not_deniedAt_ptr (Name.same_self _)
          (lookup_denied_iff.mp (hsubtree table.loopbackPtr ⟨hunder, hsame⟩ (.of PTR)))
    · rintro ⟨⟨zone, hzone, hinside⟩, route, hroute, hstrict⟩
      have hdenied : Denied (answerHere empty config name (.of A)) :=
        lookup_denied_iff.mpr (.privateZone zone hzone hinside)
      obtain ⟨hon, hunder, -⟩ := of_emptyZoneOf hzone
      exact not_deniedAt_routed hroute (mem_empty hon) (Name.isAtOrUnder_trans hstrict.1 hunder)
        (lookup_denied_iff.mp ((h ⟨_, hdenied⟩).2 route.name hstrict (.of A)))
  · rintro ⟨hptr, hroutes⟩ ⟨qtype, hdenied⟩
    have hat := lookup_denied_iff.mp hdenied
    exact ⟨fun other => lookup_denied_iff.mpr (hat.subtree hptr hroutes (Name.isAtOrUnder_refl name)),
      fun below hstrict other => lookup_denied_iff.mpr (hat.subtree hptr hroutes hstrict.1)⟩

def unrouted : ResolverConfig := ⟨[], [], 0, 0, 0, false, false⟩

theorem not_consistent_loopbackPtr : ¬Consistent EmptyZones.default unrouted table.loopbackPtr := by
  intro h
  have hevery := (h ⟨.of A, lookup_denied_iff.mpr (.loopback _ (.inl rfl) loopbackPtr_under (by decide +kernel))⟩).1
  exact not_deniedAt_ptr (Name.same_self _) (lookup_denied_iff.mp (hevery (.of PTR)))

end Lookup

end Rdns.Resolver
