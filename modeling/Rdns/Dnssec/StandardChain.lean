import Rdns.Dnssec.NsecProofs
import Mathlib.Data.List.Dedup

/-!
# Rdns — The NSEC chain of other signers

RFC 4035 §2.3 asks for an NSEC at every name that owns authoritative data or a delegation,
and at no empty non-terminal. Our own signer lists those too; a zone that was transferred,
or that a resolver validates against, does not.

An empty non-terminal then falls into a gap whose far end is below it. The checker takes
the name to be absent and looks for a wildcard below *it*.
-/

namespace Rdns.Dnssec

open Rdns.Lib Rdns.Core Rdns.Present Rdns.Zones RecordTypes

/-! ## The chain -/

/-- The names RFC 4035 §2.3 lists, in canonical order. -/
def standardNames (origin : Name) (records : List ZoneRecord) : List Name :=
  (((records.map fun r => r.name.toFolded).filter (isListedOwner origin records false)).dedup).mergeSort
    fun a b => canonicalLabels a ≤ canonicalLabels b

def standardTypes (origin : Name) (records : List ZoneRecord) (name : Name) : List Rtype :=
  let present := (records.filter (·.name.same name)).map ZoneRecord.rtype
  let published :=
    if isCut origin records name then
      present.filter fun t => t == NS || t == DS
    else present
  published ++ [RRSIG, NSEC]

def standardChain (origin : Name) (records : List ZoneRecord) : List Nsec :=
  (ring (standardNames origin records)).map fun (name, next) =>
    ⟨name, next, buildTypeBitmap (standardTypes origin records name)⟩

section Standard

variable {origin : Name} {records : List ZoneRecord}

variable {name e : Name} {covering nsec : Nsec}

theorem mem_standardNames : name ∈ standardNames origin records ↔
    name.toFolded = name ∧ isListedOwner origin records false name = true := by
  rw [standardNames, (List.mergeSort_perm _ _).mem_iff, List.mem_dedup, List.mem_filter, List.mem_map]
  constructor
  · rintro ⟨⟨r, -, rfl⟩, hlisted⟩
    exact ⟨Name.toFolded_toFolded _, hlisted⟩
  · rintro ⟨hfolded, hlisted⟩
    have howns := hlisted
    rw [isListedOwner, Bool.and_eq_true, Bool.and_eq_true] at howns
    obtain ⟨r, hr, hsame⟩ := List.any_eq_true.mp howns.1.1
    exact ⟨⟨r, hr, (Name.same_iff.mp hsame).trans hfolded⟩, hlisted⟩

theorem mem_standardLabels :
    canonicalLabels name ∈ (standardNames origin records).map canonicalLabels ↔
      isListedOwner origin records false name = true := by
  rw [List.mem_map]
  constructor
  · rintro ⟨n, hn, heq⟩
    rw [← isListedOwner_congr (canonicalLabels_inj.mp heq)]
    exact (mem_standardNames.mp hn).2
  · intro h
    have hsame : name.toFolded.same name = true := by rw [Name.same_iff, Name.toFolded_toFolded]
    exact ⟨name.toFolded, mem_standardNames.mpr
      ⟨Name.toFolded_toFolded name, (isListedOwner_congr hsame).trans h⟩, canonicalLabels_toFolded name⟩

theorem sorted_standardNames :
    ((standardNames origin records).map canonicalLabels).Pairwise (· < ·) := by
  have hle : (standardNames origin records).Pairwise fun a b => canonicalLabels a ≤ canonicalLabels b := by
    refine (List.pairwise_mergeSort ?_ ?_ _).imp fun h => of_decide_eq_true h
    · intro a b c hab hbc
      exact decide_eq_true (le_trans (of_decide_eq_true hab) (of_decide_eq_true hbc))
    · simp [le_total]
  have hnodup : (standardNames origin records).Nodup :=
    (List.mergeSort_perm _ _).nodup_iff.mpr (List.nodup_dedup _)
  rw [List.pairwise_map]
  refine (hle.and hnodup).imp_of_mem ?_
  rintro a b ha hb ⟨hab, hne⟩
  -- folded names with the same labels are the same
  refine lt_of_le_of_ne hab fun heq => hne ?_
  have hsame := Name.same_iff.mp (canonicalLabels_inj.mp heq)
  rw [(mem_standardNames.mp ha).1, (mem_standardNames.mp hb).1] at hsame
  exact hsame

theorem not_isOccluded_of_mem {n : Name}
    (h : canonicalLabels n ∈ (standardNames origin records).map canonicalLabels) :
    isOccluded origin records n = false := by
  have hlisted := mem_standardLabels.mp h
  simp only [isListedOwner, Bool.and_eq_true, Bool.not_eq_true'] at hlisted
  exact hlisted.1.2

theorem mem_standardChain (h : nsec ∈ standardChain origin records) :
    (canonicalLabels nsec.owner, canonicalLabels nsec.next) ∈
      ring ((standardNames origin records).map canonicalLabels) := by
  obtain ⟨pair, hpair, rfl⟩ := List.mem_map.mp h
  rw [ring_map, List.mem_map]
  exact ⟨pair, hpair, rfl⟩

theorem apex_listed (hzone : InZone origin records) :
    isListedOwner origin records false origin = true := by
  simp [isListedOwner, hzone.apex, not_isOccluded_origin hzone]

theorem exists_covers (hzone : InZone origin records)
    (h : isListedOwner origin records false name = false) :
    ∃ nsec ∈ standardChain origin records, nsec.covers name = true := by
  have hne : (standardNames origin records).map canonicalLabels ≠ [] :=
    List.ne_nil_of_mem (mem_standardLabels.mpr (apex_listed hzone))
  have hnot : canonicalLabels name ∉ (standardNames origin records).map canonicalLabels := by
    rw [mem_standardLabels, h]
    exact Bool.false_ne_true
  obtain ⟨a, b, hring, hgap⟩ := exists_inGap sorted_standardNames hne hnot
  rw [ring_map, List.mem_map] at hring
  obtain ⟨pair, hpair, heq⟩ := hring
  cases heq
  exact ⟨_, List.mem_map_of_mem hpair, Nsec.covers_iff.mpr hgap⟩

theorem spans_standardNames (hzone : InZone origin records) :
    Spans origin records ((standardNames origin records).map canonicalLabels) where
  sorted := sorted_standardNames
  apex := mem_standardLabels.mpr (apex_listed hzone)
  node n hn := by
    have hlisted : Listed origin records false n := .inl (mem_standardLabels.mp hn)
    exact ⟨hlisted.isNode, hlisted.under hzone, not_isOccluded_of_mem hn⟩
  below n hnode hunder hocc := by
    rcases (listed_iff hzone hunder).mpr ⟨hnode, hocc⟩ with h | ⟨-, -, o, ho, hbelow⟩
    · exact ⟨n, mem_standardLabels.mpr h, Name.isAtOrUnder_refl n⟩
    · exact ⟨o, mem_standardLabels.mpr ho, hbelow⟩

/-- **What covers an occluded name stands at what occludes it**: nothing listed is below. -/
theorem owner_of_isOccluded (hzone : InZone origin records) {q : Name}
    (hunder : q.isAtOrUnder origin = true) (hocc : isOccluded origin records q = true)
    (hmem : covering ∈ standardChain origin records) (hcovers : covering.covers q = true) :
    ∃ d, isOccluder origin records d = true ∧ isOccluded origin records d = false ∧
      q.isAtOrUnder d = true ∧ q.same d = false ∧ covering.owner.same d = true := by
  have hring := mem_standardChain hmem
  have hgap := Nsec.covers_iff.mp hcovers
  have hlt := lt_of_inGap sorted_standardNames hring hgap
    (head_le sorted_standardNames (mem_standardLabels.mpr (apex_listed hzone)) hunder)
  obtain ⟨d, hd, hdocc, hqd, hqdne⟩ := exists_top_occluder hocc
  have hdq := isAtOrUnder_iff_isPrefix.mp hqd
  have hdlisted : isListedOwner origin records false d = true := by
    simp [isListedOwner, owns_of_isOccluder hd, hdocc]
  have hdlt : canonicalLabels d < canonicalLabels q := by
    refine lt_of_isPrefix hdq fun heq => ?_
    rw [Name.same_comm, canonicalLabels_inj.mp heq] at hqdne
    cases hqdne
  have hle := le_of_inGap sorted_standardNames hring hgap (mem_standardLabels.mpr hdlisted) hdlt
  have howner := isPrefix_of_between List.prefix_rfl hdq hle (le_of_lt hlt)
  refine ⟨d, hd, hdocc, hqd, hqdne, ?_⟩
  by_contra hne
  rw [not_isOccluder_above (not_isOccluded_of_mem (ring_ends hring).1)
    (isAtOrUnder_iff_isPrefix.mpr howner) (Bool.not_eq_true _ ▸ hne)] at hd
  cases hd

theorem not_isListedOwner_of_covers (hmem : nsec ∈ standardChain origin records)
    (hcovers : nsec.covers name = true) :
    isListedOwner origin records false name = false := by
  by_contra hlisted
  rw [Bool.not_eq_false] at hlisted
  exact not_inGap_of_mem sorted_standardNames (mem_standardChain hmem) (mem_standardLabels.mpr hlisted)
    (Nsec.covers_iff.mp hcovers)

/-! ## Types -/

theorem mem_standardTypes {t : Rtype} : t ∈ standardTypes origin records name ↔
    (ownsType records name t = true ∧
      (isCut origin records name = true → t = NS ∨ t = DS)) ∨
    t = RRSIG ∨ t = NSEC := by
  have hpresent : t ∈ (records.filter (·.name.same name)).map ZoneRecord.rtype ↔
      ownsType records name t = true := by
    rw [ownsType, List.any_eq_true, List.mem_map]
    refine exists_congr fun r => ?_
    rw [List.mem_filter, Bool.and_eq_true, beq_iff_eq, and_assoc]
  rw [standardTypes, List.mem_append, List.mem_cons, List.mem_singleton]
  refine or_congr_left ?_
  split
  · rename_i hcut
    rw [List.mem_filter, hpresent, Bool.or_eq_true, beq_iff_eq, beq_iff_eq]
    exact and_congr_right fun _ => ⟨fun h _ => h, fun h => h hcut⟩
  · rename_i hcut
    rw [hpresent]
    exact ⟨fun h => ⟨h, fun hc => absurd hc hcut⟩, And.left⟩

theorem hasType_standardChain (h : nsec ∈ standardChain origin records) (t : Rtype) :
    nsec.hasType t = true ↔ t ∈ standardTypes origin records nsec.owner := by
  obtain ⟨pair, -, rfl⟩ := List.mem_map.mp h
  exact bitmapHasType_build _ _

theorem owner_standardChain (h : nsec ∈ standardChain origin records) :
    isListedOwner origin records false nsec.owner = true :=
  mem_standardLabels.mp (ring_ends (mem_standardChain h)).1

/-! ## Empty non-terminals -/

/-- **The encloser the checker finds for an empty non-terminal** is the name itself, or the
delegation or DNAME it is below. -/
theorem closestEncloserNsec_ent (hzone : InZone origin records)
    (hunder : e.isAtOrUnder origin = true) (hnode : isNode records e = true)
    (hmem : covering ∈ standardChain origin records) (hcovers : covering.covers e = true) :
    (closestEncloserNsec e covering).same e = true ∧ isOccluded origin records e = false ∨
      ∃ d, isOccluder origin records d = true ∧ e.isAtOrUnder d = true ∧ e.same d = false ∧
        covering.owner.same d = true ∧ (closestEncloserNsec e covering).same d = true := by
  have hring := mem_standardChain hmem
  have hgap := Nsec.covers_iff.mp hcovers
  by_cases hocc : isOccluded origin records e = true
  · right
    obtain ⟨d, hd, -, hed, hedne, hsame⟩ := owner_of_isOccluded hzone hunder hocc hmem hcovers
    exact ⟨d, hd, hed, hedne, hsame,
      (covers_below (fun n hn => not_isOccluded_of_mem hn) hd hsame hring hed hedne).2⟩
  · left
    rw [Bool.not_eq_true] at hocc
    refine ⟨?_, hocc⟩
    rcases (listed_iff hzone hunder).mpr ⟨hnode, hocc⟩ with hlisted | ⟨-, -, o, ho, hbelow⟩
    · exact absurd hgap (not_inGap_of_mem sorted_standardNames hring (mem_standardLabels.mpr hlisted))
    · have heo := isAtOrUnder_iff_isPrefix.mp hbelow
      have helt : canonicalLabels e < canonicalLabels o := by
        refine lt_of_isPrefix heo fun heq => ?_
        exact not_inGap_of_mem sorted_standardNames hring
          (heq ▸ mem_standardLabels.mpr ho) hgap
      -- the gap ends at or below `o`, so below `e`
      obtain ⟨hnext, hnexto⟩ :=
        ge_of_inGap sorted_standardNames hring hgap (mem_standardLabels.mpr ho) helt
      have hprefix := isPrefix_of_between List.prefix_rfl heo (le_of_lt hnext) hnexto
      have hright : commonLen (canonicalLabels e) (canonicalLabels covering.next) = e.labelCount := by
        refine le_antisymm (commonLen_le_labelCount _ _) ?_
        rw [← length_canonicalLabels, le_commonLen_iff, List.take_length]
        exact ⟨le_refl _, hprefix⟩
      rw [closestEncloserNsec_suffix, hright, max_eq_right (commonLen_le_labelCount _ _),
        ← canonicalLabels_inj, canonicalLabels_suffix, ← length_canonicalLabels,
        List.take_length]

theorem not_matches_star (hzone : InZone origin records) {star : Name}
    (hunder : e.isAtOrUnder origin = true) (hnode : isNode records e = true)
    (hmem : covering ∈ standardChain origin records) (hcovers : covering.covers e = true)
    (hstar : Name.prefixed STAR (closestEncloserNsec e covering) = .ok star) :
    covering.matches star = false := by
  have hring := mem_standardChain hmem
  have hlt := lt_of_inGap sorted_standardNames hring (Nsec.covers_iff.mp hcovers)
    (head_le sorted_standardNames (mem_standardLabels.mpr (apex_listed hzone)) hunder)
  rw [← Bool.not_eq_true, Nsec.matches_iff, canonicalLabels_prefixed hstar]
  rcases closestEncloserNsec_ent hzone hunder hnode hmem hcovers with ⟨hsame, -⟩ | ⟨d, -, -, -, howner, hsame⟩
  · rw [canonicalLabels_inj.mpr hsame]
    intro heq
    rw [heq] at hlt
    exact absurd hlt (not_lt.mpr (le_of_isPrefix (List.prefix_append _ _)))
  · rw [canonicalLabels_inj.mpr hsame, canonicalLabels_inj.mpr howner]
    simp

theorem provesNodata_ent (sha1 : Octets → Nsec3Hash) (hzone : InZone origin records)
    (hunder : e.isAtOrUnder origin = true) (hnode : isNode records e = true)
    (hmem : covering ∈ standardChain origin records) (hcovers : covering.covers e = true)
    (t : Rtype) :
    provesNodata sha1 e origin t [covering] [] ≠ .proved := by
  have hring := mem_standardChain hmem
  have hmatches : covering.matches e = false := by
    rw [← Bool.not_eq_true, Nsec.matches_iff]
    intro heq
    exact not_inGap_of_mem sorted_standardNames hring (heq ▸ (ring_ends hring).1)
      (Nsec.covers_iff.mp hcovers)
  simp only [provesNodata, List.find?_cons, hmatches, List.find?_nil, List.isEmpty_cons,
    Bool.not_false, if_true, nsecWildcardNodata, hcovers]
  split
  · simp
  · rename_i star hstar
    rw [not_matches_star hzone hunder hnode hmem hcovers hstar]
    simp

theorem not_listed_star {star : Name} (hocc : isOccluded origin records e = true)
    (hstar : Name.prefixed STAR e = .ok star) :
    isListedOwner origin records false star = false := by
  have hstarOcc := isOccluded_of_under (star_isAtOrUnder hstar) hocc
  simp [isListedOwner, hstarOcc]

theorem exists_unlisted_star (hzone : InZone origin records) (hunder : e.isAtOrUnder origin = true)
    (hnode : isNode records e = true) (hent : owns records e = false)
    (hfree : ∀ star, Name.prefixed STAR e = .ok star → isListedOwner origin records false star = false)
    (hmem : covering ∈ standardChain origin records) (hcovers : covering.covers e = true) :
    ∃ star, Name.prefixed STAR (closestEncloserNsec e covering) = .ok star ∧
      isListedOwner origin records false star = false := by
  rcases closestEncloserNsec_ent hzone hunder hnode hmem hcovers with
    ⟨hsame, -⟩ | ⟨d, hd, hed, hedne, -, hsame⟩
  · -- a node that owns nothing has room below it
    obtain ⟨r, hr, hbelow⟩ := Zone.isNode_iff.mp hnode
    have hne : r.name.same e = false := by
      by_contra hre
      rw [Bool.not_eq_false] at hre
      rw [owns, List.any_eq_false] at hent
      exact hent r hr hre
    obtain ⟨star, hstar⟩ := prefixed_star_isOk hbelow hne
    obtain ⟨star', hstar'⟩ := prefixed_star_isOk ((isAtOrUnder_congr hsame).trans hbelow)
      ((same_congr hsame).trans hne)
    refine ⟨star', hstar', (isListedOwner_congr ?_).trans (hfree star hstar)⟩
    rw [← canonicalLabels_inj, canonicalLabels_prefixed hstar, canonicalLabels_prefixed hstar',
      canonicalLabels_inj.mpr hsame]
  · obtain ⟨star, hstar⟩ := prefixed_star_isOk ((isAtOrUnder_congr hsame).trans hed)
      ((same_congr hsame).trans hedne)
    have hstarOcc : isOccluded origin records star = true := by
      refine isOccluded_iff.mpr ⟨d, hd, (isAtOrUnder_congr hsame).symm.trans (star_isAtOrUnder hstar), ?_⟩
      rw [← Bool.not_eq_true, ← canonicalLabels_inj, canonicalLabels_prefixed hstar,
        canonicalLabels_inj.mpr hsame]
      simp
    exact ⟨star, hstar, by simp [isListedOwner, hstarOcc]⟩

/-- **An empty non-terminal of a standard zone is never proved to be one**, and is proved
absent unless the wildcard below it is listed. -/
theorem ent_never_proved (sha1 : Octets → Nsec3Hash) (hzone : InZone origin records) {e : Name}
    (hunder : e.isAtOrUnder origin = true) (hnode : isNode records e = true)
    (hent : owns records e = false) :
    (∃ covering ∈ standardChain origin records, covering.covers e = true) ∧
      (∀ covering ∈ standardChain origin records, covering.covers e = true →
        ∀ t, provesNodata sha1 e origin t [covering] [] ≠ .proved) ∧
      (provesNxdomain sha1 e origin (standardChain origin records) [] = .proved ↔
        ∀ star, Name.prefixed STAR e = .ok star →
          isListedOwner origin records false star = false) := by
  have hunlisted : isListedOwner origin records false e = false := by simp [isListedOwner, hent]
  refine ⟨exists_covers hzone hunlisted, fun covering hmem hcovers =>
    provesNodata_ent sha1 hzone hunder hnode hmem hcovers, ?_⟩
  constructor
  · intro h star hstar
    obtain ⟨covering, hmem, hcovers, star', hstar', other, hother, hotherCovers⟩ :=
      of_provesNxdomain_nsec h
    by_cases hocc : isOccluded origin records e = true
    · exact not_listed_star hocc hstar
    · rcases closestEncloserNsec_ent hzone hunder hnode hmem hcovers with
        ⟨hsame, -⟩ | ⟨d, hd, hed, hedne, -⟩
      · by_contra hlisted
        rw [Bool.not_eq_false] at hlisted
        have hlabels : canonicalLabels star' = canonicalLabels star := by
          rw [canonicalLabels_prefixed hstar, canonicalLabels_prefixed hstar',
            canonicalLabels_inj.mpr hsame]
        refine not_inGap_of_mem sorted_standardNames (mem_standardChain hother)
          (mem_standardLabels.mpr hlisted) ?_
        rw [← hlabels]
        exact Nsec.covers_iff.mp hotherCovers
      · exact absurd (isOccluded_iff.mpr ⟨d, hd, hed, hedne⟩) hocc
  · intro hfree
    obtain ⟨covering, hfind⟩ : ∃ covering,
        (standardChain origin records).find? (·.covers e) = some covering :=
      Option.isSome_iff_exists.mp (List.find?_isSome.mpr (exists_covers hzone hunlisted))
    have hmem := List.mem_of_find?_eq_some hfind
    have hcovers : covering.covers e = true := by simpa using List.find?_some hfind
    obtain ⟨star, hstar, hunlistedStar⟩ :=
      exists_unlisted_star hzone hunder hnode hent hfree hmem hcovers
    have hne : (standardChain origin records).isEmpty = false := by
      rw [← Bool.not_eq_true, List.isEmpty_iff]
      exact List.ne_nil_of_mem hmem
    have hany : ((standardChain origin records).any fun nsec => nsec.covers star) = true :=
      List.any_eq_true.mpr (exists_covers hzone hunlistedStar)
    simp only [provesNxdomain, hne, Bool.not_false, if_true, hfind, hstar, hany]

/-! ## Names that are not nodes -/

/-- **A name error proved from records of the chain is true** of a name that is not occluded
and not an empty non-terminal, where no wildcard that owns nothing stands at its closest
encloser. -/
theorem absent_of_standardChain {sha1 : Octets → Nsec3Hash} (hzone : InZone origin records) {q zone : Name}
    (hunder : q.isAtOrUnder origin = true) (hocc : isOccluded origin records q = false)
    (hent : isNode records q = true → owns records q = false →
      ∃ star, Name.prefixed STAR q = .ok star ∧ isListedOwner origin records false star = true)
    (hstarEnt : isNode records q = false → ∀ encloser star,
      closestEncloser origin records q = some encloser →
      Name.prefixed ASTERISK encloser = .ok star → isNode records star = true → owns records star = true)
    {nsecs : List Nsec} (hsub : ∀ nsec ∈ nsecs, nsec ∈ standardChain origin records)
    (h : provesNxdomain sha1 q zone nsecs [] = .proved) : Absent origin records q := by
  obtain ⟨covering, hmem, hcovers, star, hstar, other, hother, hotherCovers⟩ :=
    of_provesNxdomain_nsec h
  have hstarUnlisted := not_isListedOwner_of_covers (hsub other hother) hotherCovers
  have hqUnlisted := not_isListedOwner_of_covers (hsub covering hmem) hcovers
  have hqnode : isNode records q = false := by
    by_contra hnode
    rw [Bool.not_eq_false] at hnode
    have howns : owns records q = false := by
      simpa [isListedOwner, hocc] using hqUnlisted
    obtain ⟨star', hstar', hlisted⟩ := hent hnode howns
    rcases closestEncloserNsec_ent hzone hunder hnode (hsub covering hmem) hcovers with
      ⟨hsame, -⟩ | ⟨d, hd, hqd, hqdne, -⟩
    · have hlabels : canonicalLabels star = canonicalLabels star' := by
        rw [canonicalLabels_prefixed hstar, canonicalLabels_prefixed hstar', canonicalLabels_inj.mpr hsame]
      rw [isListedOwner_congr (canonicalLabels_inj.mp hlabels), hlisted] at hstarUnlisted
      cases hstarUnlisted
    · rw [isOccluded_iff.mpr ⟨d, hd, hqd, hqdne⟩] at hocc
      cases hocc
  have hqorigin := hzone.not_apex hqnode
  refine absent_of_not_isOccluded hqnode hocc fun encloser wild hce hwild => ?_
  have hsame := (spans_standardNames hzone).closestEncloserNsec_eq hzone hunder hocc hqnode hce
    (mem_standardChain (hsub covering hmem)) hcovers
  obtain ⟨ce, hce', hqce, hqne, -, -, -⟩ := closestEncloser_spec hzone hunder hqorigin
  obtain rfl : ce = encloser := Option.some_inj.mp (hce'.symm.trans hce)
  -- the wildcard that was covered is the one at the closest encloser
  have hstars : star.same wild = true := by
    rw [← canonicalLabels_inj, canonicalLabels_prefixed hstar, canonicalLabels_prefixed hwild,
      canonicalLabels_inj.mpr hsame]
  by_contra hnode
  rw [Bool.not_eq_false] at hnode
  have howns := hstarEnt hqnode _ _ hce hwild hnode
  have hwildOcc := not_isOccluded_star hocc hqce hqne hwild
  rw [isListedOwner_congr hstars] at hstarUnlisted
  simp [isListedOwner, howns, hwildOcc] at hstarUnlisted

end Standard

def entZone : List ZoneRecord :=
  [⟨ex, ⟨300⟩, .IN, ⟨SOA, wireOf [] ++ wireOf [] ++ List.replicate 20 0⟩⟩, addressAt aWwwEx]

theorem ent_never_proved_entZone :
    (∃ covering ∈ standardChain ex entZone, covering.covers wwwEx = true) ∧
      (∀ covering ∈ standardChain ex entZone, covering.covers wwwEx = true →
        ∀ t, provesNodata unusedSha1 wwwEx ex t [covering] [] ≠ .proved) ∧
      (provesNxdomain unusedSha1 wwwEx ex (standardChain ex entZone) [] = .proved ↔
        ∀ star, Name.prefixed STAR wwwEx = .ok star →
          isListedOwner ex entZone false star = false) :=
  ent_never_proved unusedSha1 ⟨by decide, by decide⟩ (by decide) (by decide) (by decide)

/-- **The NSEC at `ex.` does not prove the NODATA of `www.ex.`**, which its span holds. -/
theorem entZone_denied :
    ¬ ∀ (sha1 : Octets → Nsec3Hash) (origin : Name) (records : List ZoneRecord) (e : Name),
      InZone origin records → e.isAtOrUnder origin = true → isNode records e = true →
      owns records e = false →
      provesNxdomain sha1 e origin (standardChain origin records) [] ≠ .proved ∧
        ∀ covering ∈ standardChain origin records, covering.covers e = true →
          ∀ t, provesNodata sha1 e origin t [covering] [] = .proved := by
  intro h
  have hzone : InZone ex entZone := ⟨by decide, by decide⟩
  have hunder : wwwEx.isAtOrUnder ex = true := by decide
  have hnode : isNode entZone wwwEx = true := by decide
  obtain ⟨covering, hmem, hcovers⟩ :
      ∃ covering ∈ standardChain ex entZone, covering.covers wwwEx = true :=
    exists_covers hzone (by decide)
  have hproved := (h unusedSha1 ex entZone wwwEx hzone hunder hnode (by decide)).2 covering hmem
    hcovers A
  exact provesNodata_ent unusedSha1 hzone hunder hnode hmem hcovers A hproved

end Rdns.Dnssec
