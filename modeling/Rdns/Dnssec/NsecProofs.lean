import Rdns.Dnssec.DenialChains

/-!
# Rdns — What an NSEC denial is worth

`proves_nxdomain` of `rdns/src/dnssec_denial.rs` against the chain `build_nsec_chain`
gives a zone, when any of its records may be offered (RFC 4035 §5.4).
-/

namespace Rdns.Dnssec

open Rdns.Lib Rdns.Core Rdns.Present Rdns.Zones RecordTypes

/-! ## What a denial should mean -/

/-- **A name does not exist, as far as the zone can tell**: no node, not at or below a cut,
not below a DNAME, and no wildcard stands at its closest encloser. -/
structure Absent (origin : Name) (records : List ZoneRecord) (q : Name) : Prop where
  noNode : isNode records q = false
  noCut : ∀ a, q.isAtOrUnder a = true → isCut origin records a = false
  noDname : ∀ a, q.isAtOrUnder a = true → q.same a = false →
    ownsType records a DNAME = false
  noWildcard : ∀ encloser star, closestEncloser origin records q = some encloser →
    Name.prefixed ASTERISK encloser = .ok star → isNode records star = false

/-- What a zone is before anything is signed: its names at or below the apex, which owns
the SOA. -/
structure InZone (origin : Name) (records : List ZoneRecord) : Prop where
  under : ∀ r ∈ records, r.name.isAtOrUnder origin = true
  apex : owns records origin = true

variable {q : Name}

theorem InZone.not_apex {origin : Name} {records : List ZoneRecord} (hzone : InZone origin records)
    (hqnode : isNode records q = false) : q.same origin = false := by
  by_contra hsame
  rw [Bool.not_eq_false] at hsame
  rw [isNode_congr hsame, isNode_of_owns hzone.apex] at hqnode
  cases hqnode

/-! ## The listed names -/

section Listed

variable {origin : Name} {records : List ZoneRecord}

variable {a b : Name}

theorem isOccluded_congr (h : a.same b = true) :
    isOccluded origin records a = isOccluded origin records b := by
  rw [Bool.eq_iff_iff, isOccluded_iff, isOccluded_iff]
  refine exists_congr fun d => and_congr_right fun _ => ?_
  rw [isAtOrUnder_congr_left h, Name.same_comm a, same_congr h, Name.same_comm d]

theorem same_of_under (hab : a.isAtOrUnder b = true) (hba : b.isAtOrUnder a = true) :
    a.same b = true := by
  rw [isAtOrUnder_iff_isPrefix] at hab hba
  exact canonicalLabels_inj.mp (hba.eq_of_length (le_antisymm hba.length_le hab.length_le))

theorem not_same_of_under {d : Name} (hab : a.isAtOrUnder b = true) (hbd : b.isAtOrUnder d = true)
    (hne : b.same d = false) : a.same d = false := by
  by_contra hsame
  rw [Bool.not_eq_false] at hsame
  have hdb : d.isAtOrUnder b = true := by rw [← isAtOrUnder_congr_left hsame]; exact hab
  rw [same_of_under hbd hdb] at hne
  cases hne

theorem not_same_of_above {d : Name} (hab : a.isAtOrUnder b = true) (hne : a.same b = false)
    (hbd : b.isAtOrUnder d = true) : a.same d = false := by
  by_contra hsame
  rw [Bool.not_eq_false] at hsame
  rw [same_of_under hab (by rw [isAtOrUnder_congr hsame]; exact hbd)] at hne
  cases hne

theorem isOccluded_of_under (hab : a.isAtOrUnder b = true) (h : isOccluded origin records b = true) :
    isOccluded origin records a = true := by
  obtain ⟨d, hd, hunder, hne⟩ := isOccluded_iff.mp h
  exact isOccluded_iff.mpr ⟨d, hd, Name.isAtOrUnder_trans hab hunder, not_same_of_under hab hunder hne⟩

theorem exists_top_occluder {name : Name} (h : isOccluded origin records name = true) :
    ∃ d, isOccluder origin records d = true ∧ isOccluded origin records d = false ∧
      name.isAtOrUnder d = true ∧ name.same d = false := by
  obtain ⟨d, hd, hunder, hne⟩ := isOccluded_iff.mp h
  -- up from `d`, whose labels get fewer
  induction hlen : (canonicalLabels d).length using Nat.strong_induction_on generalizing d with
  | h n ih =>
    by_cases hocc : isOccluded origin records d = true
    · obtain ⟨up, hup, hunder', hne'⟩ := isOccluded_iff.mp hocc
      have hleads := isAtOrUnder_iff_isPrefix.mp hunder'
      have hlt : (canonicalLabels up).length < n := by
        refine hlen ▸ lt_of_le_of_ne hleads.length_le fun heq => ?_
        rw [Name.same_comm, canonicalLabels_inj.mp (hleads.eq_of_length heq)] at hne'
        cases hne'
      exact ih _ hlt up hup (Name.isAtOrUnder_trans hunder hunder')
        (not_same_of_under hunder hunder' hne') rfl
    · exact ⟨d, hd, Bool.not_eq_true _ ▸ hocc, hunder, hne⟩

theorem not_isOccluded_origin (hzone : InZone origin records) :
    isOccluded origin records origin = false := by
  by_contra hocc
  rw [Bool.not_eq_false] at hocc
  obtain ⟨d, hd, hunder, hne⟩ := isOccluded_iff.mp hocc
  obtain ⟨r, hr, hsame⟩ := List.any_eq_true.mp (owns_of_isOccluder hd)
  have hd' := hzone.under r hr
  rw [isAtOrUnder_congr_left hsame] at hd'
  have := not_same_of_under hd' hunder hne
  rw [Name.same_self] at this
  cases this

/-- **The chain lists the nodes that are not occluded.** -/
theorem listed_iff (hzone : InZone origin records) {name : Name}
    (hunder : name.isAtOrUnder origin = true) :
    Listed origin records false name ↔
      isNode records name = true ∧ isOccluded origin records name = false := by
  have howner : ∀ o, isListedOwner origin records false o = true ↔
      owns records o = true ∧ isOccluded origin records o = false := by
    intro o
    simp [isListedOwner]
  constructor
  · intro h
    refine ⟨h.isNode, ?_⟩
    rcases h with h | ⟨-, -, o, ho, hbelow⟩
    · exact ((howner name).mp h).2
    · by_contra hocc
      rw [Bool.not_eq_false] at hocc
      have := ((howner o).mp ho).2
      rw [isOccluded_of_under hbelow hocc] at this
      cases this
  · rintro ⟨hnode, hocc⟩
    -- the apex owns records, so an empty non-terminal is below it
    have hent : ∀ o, isListedOwner origin records false o = true → o.isAtOrUnder name = true →
        Listed origin records false name := by
      intro o ho hbelow
      by_cases hsame : name.same origin = true
      · refine .inl ((howner name).mpr ⟨?_, hocc⟩)
        rw [owns_congr hsame]
        exact hzone.apex
      · exact .inr ⟨hunder, Bool.not_eq_true _ ▸ hsame, o, ho, hbelow⟩
    obtain ⟨r, hr, hbelow⟩ := Zone.isNode_iff.mp hnode
    have howns : owns records r.name = true := List.any_eq_true.mpr ⟨r, hr, Name.same_self _⟩
    by_cases hrocc : isOccluded origin records r.name = true
    · obtain ⟨d, hd, hdocc, hrd, hrne⟩ := exists_top_occluder hrocc
      have hdlisted := (howner d).mpr ⟨owns_of_isOccluder hd, hdocc⟩
      -- `d` and `name` are both above the record, so one is above the other
      rcases le_total d.wire.length name.wire.length with hle | hle
      · have hnd := Name.isAtOrUnder_of_length_le hbelow hrd hle
        have hsame : name.same d = true := by
          by_contra hne
          have := isOccluded_iff.mpr ⟨d, hd, hnd, Bool.not_eq_true _ ▸ hne⟩
          rw [hocc] at this
          cases this
        rw [Name.same_comm] at hsame
        exact hent d hdlisted (Zone.same_isAtOrUnder hsame)
      · exact hent d hdlisted (Name.isAtOrUnder_of_length_le hrd hbelow hle)
    · exact hent r.name ((howner _).mpr ⟨howns, Bool.not_eq_true _ ▸ hrocc⟩) hbelow

end Listed

/-! ## Gaps and enclosers -/

variable {name : Name}

theorem Nsec.covers_iff {nsec : Nsec} : nsec.covers name = true ↔
    InGap (canonicalLabels nsec.owner) (canonicalLabels nsec.next) (canonicalLabels name) := by
  rw [Nsec.covers, InGap]
  simp only [beq_iff_eq, canonicalNameCmp_gt]
  split
  · rw [Bool.and_eq_true, beq_iff_eq, beq_iff_eq, canonicalNameCmp_gt, canonicalNameCmp_lt]
  · rw [Bool.or_eq_true, beq_iff_eq, beq_iff_eq, canonicalNameCmp_gt, canonicalNameCmp_lt]

theorem Nsec.matches_iff {nsec : Nsec} : nsec.matches name = true ↔
    canonicalLabels nsec.owner = canonicalLabels name := canonicalLabels_inj.symm

theorem canonicalLabels_suffix (name : Name) (count : Nat) :
    canonicalLabels (name.suffix count) = (canonicalLabels name).take count := by
  rw [canonicalLabels_eq, canonicalLabels_eq, Name.suffix, Name.dropLabels_labels,
    Name.foldLabels_drop, List.take_reverse]
  congr 2
  rw [foldLabels, List.length_map]
  rfl

theorem length_canonicalLabels (name : Name) : (canonicalLabels name).length = name.labelCount := by
  rw [canonicalLabels_eq, List.length_reverse, foldLabels, List.length_map]
  rfl

theorem labelCount_suffix {count : Nat} (h : count ≤ name.labelCount) :
    (name.suffix count).labelCount = count := by
  rw [Name.suffix, Name.labelCount, Name.dropLabels_labels, List.length_drop]
  unfold Name.labelCount at *
  omega

theorem commonSuffix_eq (a b : Name) :
    commonSuffix a b = a.suffix (commonLen (canonicalLabels a) (canonicalLabels b)) := rfl

theorem commonLen_le_labelCount (a b : Name) :
    commonLen (canonicalLabels a) (canonicalLabels b) ≤ a.labelCount :=
  length_canonicalLabels a ▸ commonLen_le _ _

theorem closestEncloserNsec_suffix (q : Name) (covering : Nsec) :
    closestEncloserNsec q covering = q.suffix
      (max (commonLen (canonicalLabels q) (canonicalLabels covering.owner))
        (commonLen (canonicalLabels q) (canonicalLabels covering.next))) := by
  rw [closestEncloserNsec, commonSuffix_eq, commonSuffix_eq,
    labelCount_suffix (commonLen_le_labelCount _ _), labelCount_suffix (commonLen_le_labelCount _ _)]
  split
  · rw [max_eq_left ‹_›]
  · rw [max_eq_right (by omega)]

theorem prefixed_star_isOk {encloser : Name} (hunder : q.isAtOrUnder encloser = true)
    (hne : q.same encloser = false) : ∃ star, Name.prefixed STAR encloser = .ok star := by
  obtain ⟨front, hfront⟩ := Name.isAtOrUnder_iff.mp hunder
  have hlong := q.length_ok
  rw [← encodedLen_foldLabels, ← hfront, encodedLen_append, encodedLen_foldLabels] at hlong
  have hpos : 2 ≤ (labelsOctets front).length := by
    cases front with
    | nil => grind [Name.same_iff_foldLabels]
    | cons label rest =>
      have hvalid : ValidLabel label :=
        validLabels_foldLabels q.labels_ok label (hfront ▸ List.mem_cons_self)
      have := hvalid.1
      rw [labelsOctets, List.length_append, length_labelOctets]
      omega
  have hlabels : ∀ l ∈ STAR :: encloser.labels, ValidLabel l := by
    intro l hl
    rcases List.mem_cons.mp hl with rfl | hl
    · decide
    · exact encloser.labels_ok l hl
  have hlen : encodedLen (STAR :: encloser.labels) ≤ MAX_NAME_LEN := by
    rw [encodedLen_cons]
    have : STAR.length = 1 := rfl
    omega
  refine ⟨⟨_, hlabels, hlen⟩, ?_⟩
  rw [Name.prefixed, if_neg (by decide), Name.ofLabels_ok_iff]

theorem canonicalLabels_prefixed {encloser star : Name}
    (h : Name.prefixed STAR encloser = .ok star) :
    canonicalLabels star = canonicalLabels encloser ++ [STAR] := by
  rw [Name.prefixed, if_neg (by decide), Name.ofLabels_ok_iff] at h
  rw [canonicalLabels_eq, canonicalLabels_eq, h, foldLabels, List.map_cons, List.reverse_cons]
  rfl

theorem closestEncloser_spec {origin : Name} {records : List ZoneRecord}
    (hzone : InZone origin records) (hunder : q.isAtOrUnder origin = true)
    (hne : q.same origin = false) :
    ∃ ce, closestEncloser origin records q = some ce ∧ q.isAtOrUnder ce = true ∧
      q.same ce = false ∧ isNode records ce = true ∧ ce.isAtOrUnder origin = true ∧
      ∀ a, q.isAtOrUnder a = true → q.same a = false → isNode records a = true →
        a.isAtOrUnder origin = true → ce.isAtOrUnder a = true := by
  have happly : ∀ a, q.isAtOrUnder a = true → q.same a = false → isNode records a = true →
      a.isAtOrUnder origin = true → ∃ b ∈ q.ancestors.drop 1, b.same a = true ∧
        (b.isAtOrUnder origin && isNode records b) = true := by
    intro a ha hane hanode haorigin
    obtain ⟨b, hb, hsame⟩ := exists_ancestor ha hane
    refine ⟨b, hb, hsame, ?_⟩
    rw [isAtOrUnder_congr_left hsame, isNode_congr hsame, haorigin, hanode]
    rfl
  obtain ⟨ce, hce⟩ : ∃ ce, closestEncloser origin records q = some ce := by
    obtain ⟨b, hb, -, hp⟩ := happly origin hunder hne (isNode_of_owns hzone.apex)
      (Name.isAtOrUnder_refl origin)
    exact Option.isSome_iff_exists.mp (List.find?_isSome.mpr ⟨b, hb, hp⟩)
  obtain ⟨hp, before, after, hsplit, hbefore⟩ := List.find?_eq_some_iff_append.mp hce
  have hmem : ce ∈ q.ancestors.drop 1 := hsplit ▸ List.mem_append_right _ List.mem_cons_self
  obtain ⟨hqce, hqne⟩ := of_mem_ancestors hmem
  rw [Bool.and_eq_true] at hp
  refine ⟨ce, hce, hqce, hqne, hp.2, hp.1, fun a ha hane hanode haorigin => ?_⟩
  obtain ⟨b, hb, hsame, hpb⟩ := happly a ha hane hanode haorigin
  rw [← isAtOrUnder_congr hsame]
  have hwalk := List.Pairwise.sublist (List.drop_sublist 1 _) (Name.pairwise_ancestors q)
  rw [hsplit] at hb hwalk
  rcases List.mem_append.mp hb with hb | hb
  · have := hbefore b hb
    rw [hpb] at this
    cases this
  · grind [List.pairwise_cons, Name.isAtOrUnder_of_length_le, isAtOrUnder_congr]

/-! ## The chain -/

section Chain

variable {origin : Name} {records : List ZoneRecord} {ttl : Ttl} {chain : List ZoneRecord}
  {listed : List (List Octets)}

variable {q ce encloser star : Name} {nsec : Nsec} {optOut : Bool}

theorem Listed.congr {a b : Name} (hsame : a.same b = true) (h : Listed origin records optOut a) :
    Listed origin records optOut b := by
  rcases h with h | ⟨hunder, hne, o, ho, hbelow⟩
  · exact .inl ((isListedOwner_congr hsame).symm.trans h)
  · refine .inr ⟨(isAtOrUnder_congr_left hsame).symm.trans hunder, ?_, o, ho,
      (isAtOrUnder_congr hsame).symm.trans hbelow⟩
    rw [Name.same_comm, ← same_congr hsame, Name.same_comm]
    exact hne

theorem Listed.under (hzone : InZone origin records) (h : Listed origin records optOut name) :
    name.isAtOrUnder origin = true := by
  rcases h with h | ⟨hunder, -⟩
  · rw [isListedOwner, Bool.and_eq_true, Bool.and_eq_true] at h
    obtain ⟨r, hr, hsame⟩ := List.any_eq_true.mp h.1.1
    exact (isAtOrUnder_congr_left hsame).symm.trans (hzone.under r hr)
  · exact hunder

theorem mem_chainLabels (hkeys : KeysApart records) (hzone : InZone origin records) :
    canonicalLabels name ∈ ((Layout.of records origin).chainNames optOut).map canonicalLabels ↔
      Listed origin records optOut name := by
  rw [List.mem_map]
  constructor
  · rintro ⟨n, hn, heq⟩
    exact ((mem_chainNames hkeys hzone.under).mp hn).2.congr (canonicalLabels_inj.mp heq)
  · intro h
    have hsame : name.same name.toFolded = true := by rw [Name.same_iff, Name.toFolded_toFolded]
    exact ⟨name.toFolded, (mem_chainNames hkeys hzone.under).mpr
      ⟨Name.toFolded_toFolded name, h.congr hsame⟩, canonicalLabels_toFolded name⟩

/-- **A record of the chain** stands between two neighbours of the listed names. -/
theorem mem_nsecs_of_chain (hchain : nsecChain (Layout.of records origin) ttl = .ok chain)
    (h : nsec ∈ nsecsIn (chain.map asRecord)) :
    (canonicalLabels nsec.owner, canonicalLabels nsec.next) ∈
      ring (((Layout.of records origin).chainNames false).map canonicalLabels) := by
  rw [nsecs_of_chain hchain] at h
  obtain ⟨pair, hpair, rfl⟩ := List.mem_map.mp h
  rw [ring_map, List.mem_map]
  exact ⟨pair, hpair, by rw [nsecOf, canonicalLabels_toFolded, canonicalLabels_toFolded]⟩

theorem head_le (hsorted : listed.Pairwise (· < ·)) (hapex : canonicalLabels origin ∈ listed)
    (hunder : q.isAtOrUnder origin = true) :
    ∀ y ∈ listed.head?, y ≤ canonicalLabels q := by
  intro y hy
  cases listed with
  | nil => cases hy
  | cons first rest =>
    cases hy
    exact (le_head_of_sorted hsorted hapex).trans
      (le_of_isPrefix (isAtOrUnder_iff_isPrefix.mp hunder))

theorem apex_mem_chainLabels (hkeys : KeysApart records) (hzone : InZone origin records) :
    canonicalLabels origin ∈ ((Layout.of records origin).chainNames false).map canonicalLabels :=
  (mem_chainLabels hkeys hzone).mpr ((listed_iff hzone (Name.isAtOrUnder_refl origin)).mpr
    ⟨isNode_of_owns hzone.apex, not_isOccluded_origin hzone⟩)

theorem commonSuffix_node {e : Name} (hunder : q.isAtOrUnder origin = true)
    (he : isNode records e = true) (heunder : e.isAtOrUnder origin = true) :
    q.isAtOrUnder (commonSuffix q e) = true ∧ isNode records (commonSuffix q e) = true ∧
      (commonSuffix q e).isAtOrUnder origin = true := by
  have hlabels := canonicalLabels_suffix q (commonLen (canonicalLabels q) (canonicalLabels e))
  rw [← commonSuffix_eq] at hlabels
  have hleads := (le_commonLen_iff.mp (le_refl (commonLen (canonicalLabels q) (canonicalLabels e)))).2
  rw [← hlabels] at hleads
  refine ⟨?_, isNode_of_isAtOrUnder he (isAtOrUnder_iff_isPrefix.mpr hleads), ?_⟩
  · rw [isAtOrUnder_iff_isPrefix, hlabels]
    exact List.take_prefix _ _
  · -- the apex is above both
    have hq := isAtOrUnder_iff_isPrefix.mp hunder
    have htake : (canonicalLabels q).take (canonicalLabels origin).length = canonicalLabels origin :=
      (List.prefix_iff_eq_take.mp hq).symm
    have hle : (canonicalLabels origin).length ≤ commonLen (canonicalLabels q) (canonicalLabels e) :=
      le_commonLen_iff.mpr ⟨hq.length_le, by rw [htake]; exact isAtOrUnder_iff_isPrefix.mp heunder⟩
    rw [isAtOrUnder_iff_isPrefix, hlabels, ← htake]
    exact List.take_prefix_take_left hle

/-- **Names that span a zone**: sorted nodes of the zone, none occluded, the apex among
them, and one at or below every node that is not occluded. -/
structure Spans (origin : Name) (records : List ZoneRecord) (listed : List (List Octets)) : Prop where
  sorted : listed.Pairwise (· < ·)
  apex : canonicalLabels origin ∈ listed
  node : ∀ n : Name, canonicalLabels n ∈ listed →
    isNode records n = true ∧ n.isAtOrUnder origin = true ∧ isOccluded origin records n = false
  below : ∀ n : Name, isNode records n = true → n.isAtOrUnder origin = true →
    isOccluded origin records n = false →
      ∃ o : Name, canonicalLabels o ∈ listed ∧ o.isAtOrUnder n = true

theorem Spans.le_commonLen (h : Spans origin records listed) {o : Name} {a b : List Octets}
    (hunder : q.isAtOrUnder origin = true) (hring : (a, b) ∈ ring listed)
    (hgap : InGap a b (canonicalLabels q)) (ho : canonicalLabels o ∈ listed)
    (hoce : o.isAtOrUnder ce = true) (hqce : q.isAtOrUnder ce = true) :
    ce.labelCount ≤ max (commonLen (canonicalLabels q) a) (commonLen (canonicalLabels q) b) := by
  have hceo := isAtOrUnder_iff_isPrefix.mp hoce
  have hceq := isAtOrUnder_iff_isPrefix.mp hqce
  have hshare : ∀ e, canonicalLabels ce <+: e → ce.labelCount ≤ commonLen (canonicalLabels q) e := by
    intro e he
    rw [← length_canonicalLabels, le_commonLen_iff, ← List.prefix_iff_eq_take.mp hceq]
    exact ⟨hceq.length_le, he⟩
  rcases lt_trichotomy (canonicalLabels o) (canonicalLabels q) with hlt | heq | hgt
  · have hle := le_of_inGap h.sorted hring hgap ho hlt
    have haq := lt_of_inGap h.sorted hring hgap (head_le h.sorted h.apex hunder)
    exact (hshare a (isPrefix_of_between hceo hceq hle (le_of_lt haq))).trans (le_max_left _ _)
  · exact absurd hgap (not_inGap_of_mem h.sorted hring (heq ▸ ho))
  · obtain ⟨hqb, hbo⟩ := ge_of_inGap h.sorted hring hgap ho hgt
    exact (hshare b (isPrefix_of_between hceq hceo (le_of_lt hqb) hbo)).trans (le_max_right _ _)

/-- **The record that covers an absent name knows its closest encloser**, where no occluder
stands above the name. -/
theorem Spans.closestEncloserNsec_eq (h : Spans origin records listed)
    (hzone : InZone origin records) (hunder : q.isAtOrUnder origin = true)
    (hocc : isOccluded origin records q = false) (hqnode : isNode records q = false)
    (hce : closestEncloser origin records q = some ce) {covering : Nsec}
    (hring : (canonicalLabels covering.owner, canonicalLabels covering.next) ∈ ring listed)
    (hcovers : covering.covers q = true) : (closestEncloserNsec q covering).same ce = true := by
  have hqorigin := hzone.not_apex hqnode
  obtain ⟨ce', hce', hqce, hqne, hcenode, hceunder, hleast⟩ :=
    closestEncloser_spec hzone hunder hqorigin
  obtain rfl : ce' = ce := Option.some_inj.mp (hce'.symm.trans hce)
  have hceocc : isOccluded origin records ce' = false := by
    by_contra hceocc
    rw [Bool.not_eq_false] at hceocc
    rw [isOccluded_of_under hqce hceocc] at hocc
    cases hocc
  obtain ⟨o, ho, hoce⟩ := h.below ce' hcenode hceunder hceocc
  have hleft := h.le_commonLen hunder hring (Nsec.covers_iff.mp hcovers) ho hoce hqce
  -- and no end shares more with the name than its encloser does
  have hends := ring_ends hring
  have hright : ∀ e, canonicalLabels e ∈ listed →
      commonLen (canonicalLabels q) (canonicalLabels e) ≤ ce'.labelCount := by
    intro e he
    obtain ⟨henode, heunder, -⟩ := h.node e he
    obtain ⟨habove, hnode, horigin⟩ := commonSuffix_node hunder henode heunder
    have hne : q.same (commonSuffix q e) = false := by
      by_contra hsame
      rw [Bool.not_eq_false] at hsame
      rw [← isNode_congr hsame, hqnode] at hnode
      cases hnode
    have hbelow := isAtOrUnder_iff_isPrefix.mp (hleast _ habove hne hnode horigin)
    have hlen := hbelow.length_le
    rw [length_canonicalLabels, length_canonicalLabels, commonSuffix_eq,
      labelCount_suffix (commonLen_le_labelCount q e)] at hlen
    exact hlen
  have hmax : max (commonLen (canonicalLabels q) (canonicalLabels covering.owner))
      (commonLen (canonicalLabels q) (canonicalLabels covering.next)) = ce'.labelCount :=
    le_antisymm (max_le (hright _ hends.1) (hright _ hends.2)) hleft
  rw [closestEncloserNsec_suffix, hmax, ← canonicalLabels_inj, canonicalLabels_suffix, ←
    length_canonicalLabels ce', ← List.prefix_iff_eq_take.mp (isAtOrUnder_iff_isPrefix.mp hqce)]

theorem spans_chainNames (hkeys : KeysFaithful records) (hzone : InZone origin records) :
    Spans origin records (((Layout.of records origin).chainNames false).map canonicalLabels) where
  sorted := sorted_chainNames hkeys hzone.under
  apex := apex_mem_chainLabels hkeys.apart hzone
  node n hn := by
    have hlisted := (mem_chainLabels hkeys.apart hzone).mp hn
    exact ⟨hlisted.isNode, hlisted.under hzone, ((listed_iff hzone (hlisted.under hzone)).mp hlisted).2⟩
  below n hnode hunder hocc :=
    ⟨n, (mem_chainLabels hkeys.apart hzone).mpr ((listed_iff hzone hunder).mpr ⟨hnode, hocc⟩),
      Name.isAtOrUnder_refl n⟩

theorem closestEncloserNsec_eq (hkeys : KeysFaithful records) (hzone : InZone origin records)
    (hchain : nsecChain (Layout.of records origin) ttl = .ok chain)
    (hunder : q.isAtOrUnder origin = true) (hocc : isOccluded origin records q = false)
    (hce : closestEncloser origin records q = some ce) {covering : Nsec}
    (hmem : covering ∈ nsecsIn (chain.map asRecord)) (hcovers : covering.covers q = true) :
    (closestEncloserNsec q covering).same ce = true ∧ isNode records q = false := by
  have hspans := spans_chainNames hkeys hzone
  have hring := mem_nsecs_of_chain hchain hmem
  have hqnode : isNode records q = false := by
    by_contra hnode
    rw [Bool.not_eq_false] at hnode
    exact not_inGap_of_mem hspans.sorted hring
      ((mem_chainLabels hkeys.apart hzone).mpr ((listed_iff hzone hunder).mpr ⟨hnode, hocc⟩))
      (Nsec.covers_iff.mp hcovers)
  exact ⟨hspans.closestEncloserNsec_eq hzone hunder hocc hqnode hce hring hcovers, hqnode⟩

/-! ## The name error -/

theorem mem_nsecsIn_of_subset {offered : List ZoneRecord} (hoffered : ∀ r ∈ offered, r ∈ chain)
    (h : nsec ∈ nsecsIn (offered.map asRecord)) :
    nsec ∈ nsecsIn (chain.map asRecord) := by
  obtain ⟨rr, hrr, hnsec⟩ := List.mem_filterMap.mp h
  obtain ⟨r, hr, rfl⟩ := List.mem_map.mp hrr
  exact List.mem_filterMap.mpr ⟨asRecord r, List.mem_map_of_mem (hoffered r hr), hnsec⟩

theorem of_provesNxdomain_nsec {sha1 : Octets → Nsec3Hash} {zone : Name} {nsecs : List Nsec}
    (h : provesNxdomain sha1 q zone nsecs [] = .proved) :
    ∃ covering ∈ nsecs, covering.covers q = true ∧ ∃ star,
      Name.prefixed STAR (closestEncloserNsec q covering) = .ok star ∧
      ∃ other ∈ nsecs, other.covers star = true := by
  rw [provesNxdomain] at h
  split at h
  · grind
  · cases h

theorem not_isOccluder_above {a : Name} (hocc : isOccluded origin records q = false)
    (ha : q.isAtOrUnder a = true) (hne : q.same a = false) :
    isOccluder origin records a = false := by
  by_contra hd
  rw [Bool.not_eq_false] at hd
  rw [isOccluded_iff.mpr ⟨a, hd, ha, hne⟩] at hocc
  cases hocc

theorem isAtOrUnder_of_star {d : Name} (hstar : Name.prefixed STAR encloser = .ok star)
    (hunder : star.isAtOrUnder d = true) (hne : star.same d = false) :
    encloser.isAtOrUnder d = true := by
  rw [isAtOrUnder_iff_isPrefix, canonicalLabels_prefixed hstar] at hunder
  rw [← Bool.not_eq_true, Name.same_comm, ← canonicalLabels_inj, canonicalLabels_prefixed hstar] at hne
  rcases List.prefix_concat_iff.mp hunder with heq | hleads
  · exact absurd heq hne
  · exact isAtOrUnder_iff_isPrefix.mpr hleads

theorem star_isAtOrUnder (hstar : Name.prefixed STAR encloser = .ok star) :
    star.isAtOrUnder encloser = true := by
  rw [isAtOrUnder_iff_isPrefix, canonicalLabels_prefixed hstar]
  exact List.prefix_append _ _

theorem not_isOccluded_star (hocc : isOccluded origin records q = false)
    (hunder : q.isAtOrUnder encloser = true) (hne : q.same encloser = false)
    (hstar : Name.prefixed STAR encloser = .ok star) : isOccluded origin records star = false := by
  by_contra hstarOcc
  rw [Bool.not_eq_false] at hstarOcc
  obtain ⟨d, hd, hstard, hstarne⟩ := isOccluded_iff.mp hstarOcc
  have hed := isAtOrUnder_of_star hstar hstard hstarne
  rw [not_isOccluder_above hocc (Name.isAtOrUnder_trans hunder hed)
    (not_same_of_above hunder hne hed)] at hd
  cases hd

theorem not_isNode_of_covers (hkeys : KeysFaithful records) (hzone : InZone origin records)
    (hchain : nsecChain (Layout.of records origin) ttl = .ok chain)
    (hunder : q.isAtOrUnder origin = true) (hocc : isOccluded origin records q = false)
    (hmem : nsec ∈ nsecsIn (chain.map asRecord)) (hcovers : nsec.covers q = true) :
    isNode records q = false := by
  by_contra hnode
  rw [Bool.not_eq_false] at hnode
  exact not_inGap_of_mem (sorted_chainNames hkeys hzone.under) (mem_nsecs_of_chain hchain hmem)
    ((mem_chainLabels hkeys.apart hzone).mpr ((listed_iff hzone hunder).mpr ⟨hnode, hocc⟩))
    (Nsec.covers_iff.mp hcovers)

theorem absent_of_not_isOccluded (hqnode : isNode records q = false)
    (hocc : isOccluded origin records q = false)
    (hwild : ∀ encloser star, closestEncloser origin records q = some encloser →
      Name.prefixed ASTERISK encloser = .ok star → isNode records star = false) :
    Absent origin records q := by
  refine ⟨hqnode, fun a ha => ?_, fun a ha hne => ?_, hwild⟩
  · by_cases hsame : q.same a = true
    · by_contra hcut
      rw [Bool.not_eq_false, ← isCut_congr hsame] at hcut
      have hd : isOccluder origin records q = true := by rw [isOccluder, hcut, Bool.true_or]
      rw [isNode_of_owns (owns_of_isOccluder hd)] at hqnode
      cases hqnode
    · have := not_isOccluder_above hocc ha (Bool.not_eq_true _ ▸ hsame)
      rw [isOccluder, Bool.or_eq_false_iff] at this
      exact this.1
  · have := not_isOccluder_above hocc ha hne
    rw [isOccluder, Bool.or_eq_false_iff] at this
    exact this.2

/-- **A name error proved from records of the chain is true** of a name that is not
occluded. -/
theorem absent_of_provesNxdomain {sha1 : Octets → Nsec3Hash} (hkeys : KeysFaithful records)
    (hzone : InZone origin records) (hchain : nsecChain (Layout.of records origin) ttl = .ok chain)
    (hunder : q.isAtOrUnder origin = true) (hocc : isOccluded origin records q = false)
    {offered : List ZoneRecord} (hoffered : ∀ r ∈ offered, r ∈ chain)
    (h : provesNxdomain sha1 q origin (nsecsIn (offered.map asRecord)) [] = .proved) :
    Absent origin records q := by
  obtain ⟨covering, hmem, hcovers, star, hstar, other, hother, hotherCovers⟩ :=
    of_provesNxdomain_nsec h
  have hchainMem := mem_nsecsIn_of_subset hoffered hmem
  have hqnode := not_isNode_of_covers hkeys hzone hchain hunder hocc hchainMem hcovers
  have hqorigin := hzone.not_apex hqnode
  refine absent_of_not_isOccluded hqnode hocc fun encloser wild hce hwild => ?_
  obtain ⟨hsame, -⟩ :=
    closestEncloserNsec_eq hkeys hzone hchain hunder hocc hce hchainMem hcovers
  obtain ⟨ce, hce', hqce, hqne, -, hceunder, -⟩ := closestEncloser_spec hzone hunder hqorigin
  obtain rfl : ce = encloser := Option.some_inj.mp (hce'.symm.trans hce)
  -- the wildcard that was covered is the one at the closest encloser
  have hlabels : canonicalLabels star = canonicalLabels wild := by
    rw [canonicalLabels_prefixed hstar, canonicalLabels_prefixed hwild, canonicalLabels_inj.mpr hsame]
  have hwildCovers : other.covers wild = true := by grind [Nsec.covers_iff]
  exact not_isNode_of_covers hkeys hzone hchain
    (Name.isAtOrUnder_trans (star_isAtOrUnder hwild) hceunder)
    (not_isOccluded_star hocc hqce hqne hwild) (mem_nsecsIn_of_subset hoffered hother) hwildCovers

/-- **The record at an occluder covers whatever is below it**, and its far end shares no
more with that than the occluder does. -/
theorem covers_below
    (hfree : ∀ n : Name, canonicalLabels n ∈ listed → isOccluded origin records n = false)
    {d : Name} (hd : isOccluder origin records d = true) (howner : nsec.owner.same d = true)
    (hring : (canonicalLabels nsec.owner, canonicalLabels nsec.next) ∈ ring listed)
    (hunder : q.isAtOrUnder d = true) (hne : q.same d = false) :
    nsec.covers q = true ∧ (closestEncloserNsec q nsec).same d = true := by
  have hq := isAtOrUnder_iff_isPrefix.mp hunder
  have hlt : canonicalLabels d < canonicalLabels q := by
    refine lt_of_isPrefix hq fun heq => ?_
    rw [Name.same_comm, canonicalLabels_inj.mp heq] at hne
    cases hne
  have hnextOcc := hfree nsec.next (ring_ends hring).2
  -- the next name is listed, so it is not below `d`
  have hnot : canonicalLabels d <+: canonicalLabels nsec.next →
      canonicalLabels nsec.next = canonicalLabels d := by
    intro hleads
    by_contra hnextne
    rw [canonicalLabels_inj, Bool.not_eq_true] at hnextne
    rw [not_isOccluder_above hnextOcc (isAtOrUnder_iff_isPrefix.mpr hleads) hnextne] at hd
    cases hd
  rw [Nsec.covers_iff, canonicalLabels_inj.mpr howner]
  constructor
  · grind [InGap, lt_of_not_isPrefix]
  · have hleft : commonLen (canonicalLabels q) (canonicalLabels d) = d.labelCount := by
      apply le_antisymm
      · have hle := (le_commonLen_iff.mp (le_refl (commonLen (canonicalLabels q) (canonicalLabels d)))).2
        have hlen := hle.length_le
        rw [List.length_take_of_le (commonLen_le _ _), length_canonicalLabels] at hlen
        exact hlen
      · rw [← length_canonicalLabels, le_commonLen_iff, ← List.prefix_iff_eq_take.mp hq]
        exact ⟨hq.length_le, List.prefix_rfl⟩
    have hright : commonLen (canonicalLabels q) (canonicalLabels nsec.next) ≤ d.labelCount := by
      by_contra hlong
      have hle := (le_commonLen_iff.mp (le_of_not_ge hlong)).2
      rw [← length_canonicalLabels, ← List.prefix_iff_eq_take.mp hq] at hle
      rw [hnot hle, hleft] at hlong
      exact hlong (le_refl _)
    rw [closestEncloserNsec_suffix, canonicalLabels_inj.mpr howner, hleft, max_eq_left hright,
      ← canonicalLabels_inj, canonicalLabels_suffix, ← length_canonicalLabels d,
      ← List.prefix_iff_eq_take.mp hq]

/-- **The record at a delegation or a DNAME denies every name below it.** -/
theorem provesNxdomain_of_isOccluded (sha1 : Octets → Nsec3Hash) (hkeys : KeysFaithful records)
    (hzone : InZone origin records) (hchain : nsecChain (Layout.of records origin) ttl = .ok chain)
    (hocc : isOccluded origin records q = true) :
    ∃ record ∈ chain, provesNxdomain sha1 q origin (nsecsIn [asRecord record]) [] = .proved := by
  obtain ⟨d, hd, hdocc, hunder, hne⟩ := exists_top_occluder hocc
  have hdowns := owns_of_isOccluder hd
  have hdunder : d.isAtOrUnder origin = true := by
    obtain ⟨r, hr, hsame⟩ := List.any_eq_true.mp hdowns
    exact (isAtOrUnder_congr_left hsame).symm.trans (hzone.under r hr)
  have hdlisted := (listed_iff hzone hdunder).mpr ⟨isNode_of_owns hdowns, hdocc⟩
  have hsame : d.same d.toFolded = true := by rw [Name.same_iff, Name.toFolded_toFolded]
  obtain ⟨next, hpair⟩ := exists_ring_of_mem ((mem_chainNames hkeys.apart hzone.under).mpr
    ⟨Name.toFolded_toFolded d, hdlisted.congr hsame⟩)
  -- the record at `d`
  have hnsec : nsecOf (Layout.of records origin) (d.toFolded, next) ∈ nsecsIn (chain.map asRecord) := by grind [nsecs_of_chain]
  obtain ⟨rr, hrr, hfrom⟩ := List.mem_filterMap.mp hnsec
  obtain ⟨record, hrecord, rfl⟩ := List.mem_map.mp hrr
  refine ⟨record, hrecord, ?_⟩
  have hring := mem_nsecs_of_chain hchain hnsec
  have hfree : ∀ n : Name, canonicalLabels n ∈
      ((Layout.of records origin).chainNames false).map canonicalLabels →
      isOccluded origin records n = false := by
    intro n hn
    have hlisted := (mem_chainLabels hkeys.apart hzone).mp hn
    exact ((listed_iff hzone (hlisted.under hzone)).mp hlisted).2
  have howner : (nsecOf (Layout.of records origin) (d.toFolded, next)).owner.same d = true := by
    rw [nsecOf, Name.same_iff, Name.toFolded_toFolded, Name.toFolded_toFolded]
  obtain ⟨hcovers, hencloser⟩ := covers_below hfree hd howner hring hunder hne
  have hqencloser := (isAtOrUnder_congr hencloser).trans hunder
  obtain ⟨star, hstar⟩ := prefixed_star_isOk hqencloser ((same_congr hencloser).trans hne)
  have hstarUnder := (isAtOrUnder_congr hencloser).symm.trans (star_isAtOrUnder hstar)
  have hstarNe : star.same d = false := by
    rw [← Bool.not_eq_true, ← canonicalLabels_inj, canonicalLabels_prefixed hstar,
      canonicalLabels_inj.mpr hencloser]
    simp
  obtain ⟨hstarCovers, -⟩ := covers_below hfree hd howner hring hstarUnder hstarNe
  have hoffered : nsecsIn [asRecord record] =
      [nsecOf (Layout.of records origin) (d.toFolded, next)] := by
    rw [nsecsIn, List.filterMap_cons, hfrom, List.filterMap_nil]
  rw [hoffered, provesNxdomain]
  simp only [List.isEmpty_cons, Bool.not_false, if_true, List.find?_cons, hcovers, hstar,
    List.any_cons, hstarCovers, Bool.true_or]

/-- **What a validated NSEC name error is worth**: it is true of a name, whatever records of
the chain were offered, exactly when no delegation and no DNAME stands above the name. -/
theorem provesNxdomain_sound_iff (sha1 : Octets → Nsec3Hash) (hkeys : KeysFaithful records)
    (hzone : InZone origin records)
    (hchain : nsecChain (Layout.of records origin) ttl = .ok chain) {q : Name}
    (hunder : q.isAtOrUnder origin = true) :
    (∀ offered : List ZoneRecord, (∀ r ∈ offered, r ∈ chain) →
      provesNxdomain sha1 q origin (nsecsIn (offered.map asRecord)) [] = .proved →
        Absent origin records q) ↔ isOccluded origin records q = false := by
  constructor
  · intro hsound
    by_contra hocc
    rw [Bool.not_eq_false] at hocc
    obtain ⟨record, hrecord, hproved⟩ :=
      provesNxdomain_of_isOccluded sha1 hkeys hzone hchain hocc
    have habsent := hsound [record] (fun r hr => List.mem_singleton.mp hr ▸ hrecord) hproved
    obtain ⟨d, hd, hqd, hqne⟩ := isOccluded_iff.mp hocc
    rw [isOccluder, habsent.noCut d hqd, habsent.noDname d hqd hqne] at hd
    cases hd
  · intro hocc offered hoffered hproved
    exact absent_of_provesNxdomain hkeys hzone hchain hunder hocc hoffered hproved

end Chain

def cutZone : List ZoneRecord :=
  [⟨ex, ⟨300⟩, .IN, ⟨SOA, wireOf [] ++ wireOf [] ++ List.replicate 20 0⟩⟩,
   ⟨wwwEx, ⟨300⟩, .IN, ⟨NS, wireOf []⟩⟩]

def aWwwEx : Name := ⟨[[97], [119, 119, 119], [101, 120]], by decide, by decide⟩

theorem cutZone_inZone : InZone ex cutZone := ⟨by decide, by decide⟩

theorem cutZone_keys : KeysFaithful cutZone := keysFaithful_of_noZero (by decide)

def unusedSha1 (_ : Octets) : Nsec3Hash := ⟨List.replicate 20 0, rfl⟩

theorem provesNxdomain_sound_cutZone :
    ∃ chain, nsecChain (Layout.of cutZone ex) ⟨300⟩ = .ok chain ∧
      ∀ offered : List ZoneRecord, (∀ r ∈ offered, r ∈ chain) →
        provesNxdomain unusedSha1 bEx ex (nsecsIn (offered.map asRecord)) [] = .proved →
          Absent ex cutZone bEx := by
  obtain ⟨chain, hchain⟩ := nsecChain_isOk (Layout.of cutZone ex) ⟨300⟩
  exact ⟨chain, hchain, (provesNxdomain_sound_iff unusedSha1 cutZone_keys cutZone_inZone hchain
    (by decide)).mpr (by decide)⟩

/-- **Below the delegation it does not**: the NSEC at `www.ex.` denies `a.www.ex.`, which is
the child's to deny (RFC 6840 §4.1). -/
theorem cutZone_denied :
    ¬ ∀ (sha1 : Octets → Nsec3Hash) (origin : Name) (records : List ZoneRecord) (ttl : Ttl)
      (chain : List ZoneRecord) (q : Name) (offered : List ZoneRecord),
      InZone origin records → nsecChain (Layout.of records origin) ttl = .ok chain →
      q.isAtOrUnder origin = true → (∀ r ∈ offered, r ∈ chain) →
      provesNxdomain sha1 q origin (nsecsIn (offered.map asRecord)) [] = .proved →
        Absent origin records q := by
  intro h
  obtain ⟨chain, hchain⟩ := nsecChain_isOk (Layout.of cutZone ex) ⟨300⟩
  have hocc : isOccluded ex cutZone aWwwEx = true := by decide
  obtain ⟨record, hrecord, hproved⟩ := provesNxdomain_of_isOccluded unusedSha1
    cutZone_keys cutZone_inZone hchain hocc
  have habsent := h _ ex cutZone ⟨300⟩ chain aWwwEx [record] cutZone_inZone hchain (by decide)
    (fun r hr => List.mem_singleton.mp hr ▸ hrecord) hproved
  have hcut := habsent.noCut wwwEx (by decide)
  revert hcut
  decide

end Rdns.Dnssec
