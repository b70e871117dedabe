import Rdns.Dnssec.NsecProofs

/-!
# Rdns — What an NSEC3 denial is worth

`proves_nxdomain` of `rdns/src/dnssec_denial.rs` against the chain `build_nsec3_chain`
gives a zone, when any of its records may be offered (RFC 5155 §8.4).

A name's hash is compared with those of the chain, so nothing can be said unless the
hashes of the names involved are apart (`HashesApart`).
-/

namespace Rdns.Dnssec

open Rdns.Lib Rdns.Core Rdns.Present Rdns.Zones

/-! ## Hashes -/

/-- The names a proof about `q` compares by their hashes: those of the zone, those at or
above `q`, and the wildcards below the latter. -/
def Involved (records : List ZoneRecord) (q name : Name) : Prop :=
  isNode records name = true ∨ q.isAtOrUnder name = true ∨
    ∃ a, q.isAtOrUnder a = true ∧ Name.prefixed STAR a = .ok name

def HashesApart (hash : Name → Nsec3Hash) (records : List ZoneRecord) (q : Name) : Prop :=
  ∀ a b, Involved records q a → Involved records q b → hash a = hash b → a.same b = true

theorem Nsec3.coversHash_iff {nsec3 : Nsec3} {hash : Nsec3Hash} : nsec3.coversHash hash = true ↔
    InGap nsec3.ownerHash.octets nsec3.nextHashedOwner.octets hash.octets := by
  rw [Nsec3.coversHash, InGap]
  split
  · rw [Bool.and_eq_true, decide_eq_true_eq, decide_eq_true_eq]
  · rw [Bool.or_eq_true, decide_eq_true_eq, decide_eq_true_eq]

theorem Nsec3For.hash {sha1 : Octets → Nsec3Hash} {layout : Layout} {salt : Octets}
    {iterations : UInt16} {optOut : Bool} {hash next : Nsec3Hash} {name : Name} {nsec3 : Nsec3}
    (h : Nsec3For layout salt iterations optOut hash name next nsec3)
    (hfew : ¬ iterations > MAX_NSEC3_ITERATIONS) (q : Name) :
    nsec3.params.hash sha1 q = .ok (nameHash sha1 salt iterations q) := by
  rw [h.params, Nsec3Params.hash, if_neg (fun hne => hne rfl)]
  exact nsec3HashName_eq_ok.mpr ⟨hfew, rfl⟩

/-! ## The walk -/

theorem parent_suffix {q : Name} {depth : Nat} (h : depth + 1 ≤ q.labelCount) :
    (q.suffix (depth + 1)).parent = some (q.suffix depth) := by
  have hlen : q.labels.length = q.labelCount := rfl
  rw [Name.parent, if_neg]
  · refine congrArg some (Name.ext ?_)
    rw [Name.dropLabels_labels, Name.suffix, Name.suffix, Name.dropLabels_labels,
      Name.dropLabels_labels, List.drop_drop]
    congr 1
    omega
  · rw [Name.isRoot_iff, Name.suffix, Name.dropLabels_labels, List.drop_eq_nil_iff]
    omega

theorem suffix_labelCount (q : Name) : q.suffix q.labelCount = q := by
  refine Name.ext ?_
  rw [Name.suffix, Name.dropLabels_labels, Nat.sub_self, List.drop_zero]

theorem isAtOrUnder_suffix (q : Name) (k : Nat) : q.isAtOrUnder (q.suffix k) = true := by
  rw [isAtOrUnder_iff_isPrefix, canonicalLabels_suffix]
  exact List.take_prefix _ _

def cameFrom (q : Name) (depth : Nat) : Option Name :=
  if depth < q.labelCount then some (q.suffix (depth + 1)) else none

section Walk

variable {sha1 : Octets → Nsec3Hash} {nsec3s : List Nsec3} {q c : Name} {zlabels : Nat}

variable {depth : Nat}

theorem encloserWalk_step (hdepth : depth + 1 ≤ q.labelCount)
    (hmatched : matchedBy sha1 (q.suffix (depth + 1)) nsec3s = false) (hzone : depth + 1 ≠ zlabels) :
    encloserWalk sha1 nsec3s q.labelCount zlabels (depth + 1) (q.suffix (depth + 1))
        (cameFrom q (depth + 1)) =
      encloserWalk sha1 nsec3s q.labelCount zlabels depth (q.suffix depth) (cameFrom q depth) := by
  have hcame : cameFrom q depth = some (q.suffix (depth + 1)) := if_pos (by omega)
  rw [encloserWalk.eq_def, if_neg (by simp [hmatched]), if_neg hzone, parent_suffix hdepth, hcame]

theorem encloserWalk_matched (hdepth : depth ≤ q.labelCount)
    (hmatched : matchedBy sha1 (q.suffix depth) nsec3s = true) :
    encloserWalk sha1 nsec3s q.labelCount zlabels depth (q.suffix depth) (cameFrom q depth) = .ok c ↔
      depth < q.labelCount ∧ c = q.suffix depth ∧
        coveredBy sha1 (q.suffix (depth + 1)) nsec3s = true := by
  rw [encloserWalk.eq_def, if_pos hmatched]
  by_cases htop : depth = q.labelCount
  · grind
  · have hlt : depth < q.labelCount := by omega
    rw [if_neg htop, cameFrom, if_pos hlt]
    dsimp only
    cases coveredBy sha1 (q.suffix (depth + 1)) nsec3s with
    | false => simp
    | true => simp [hlt, eq_comm]

theorem of_encloserWalk (hdepth : depth ≤ q.labelCount) (hzone : zlabels ≤ depth)
    (h : encloserWalk sha1 nsec3s q.labelCount zlabels depth (q.suffix depth) (cameFrom q depth) =
      .ok c) :
    ∃ k, zlabels ≤ k ∧ k < q.labelCount ∧ c = q.suffix k ∧
      matchedBy sha1 (q.suffix k) nsec3s = true ∧ coveredBy sha1 (q.suffix (k + 1)) nsec3s = true := by
  induction depth with
  | zero =>
    by_cases hmatched : matchedBy sha1 (q.suffix 0) nsec3s = true
    · obtain ⟨hlt, hc, hcovered⟩ := (encloserWalk_matched hdepth hmatched).mp h
      exact ⟨0, hzone, hlt, hc, hmatched, hcovered⟩
    · rw [encloserWalk.eq_def, if_neg hmatched, if_pos (by omega)] at h
      cases h
  | succ depth ih =>
    by_cases hmatched : matchedBy sha1 (q.suffix (depth + 1)) nsec3s = true
    · obtain ⟨hlt, hc, hcovered⟩ := (encloserWalk_matched hdepth hmatched).mp h
      exact ⟨depth + 1, hzone, hlt, hc, hmatched, hcovered⟩
    · by_cases hend : depth + 1 = zlabels
      · rw [encloserWalk.eq_def, if_neg hmatched, if_pos hend] at h
        cases h
      · rw [encloserWalk_step hdepth (Bool.not_eq_true _ ▸ hmatched) hend] at h
        exact ih (by omega) (by omega) h

theorem encloserWalk_ok {k : Nat} (hdepth : depth ≤ q.labelCount) (hk : k ≤ depth)
    (hlt : k < q.labelCount) (hzone : zlabels ≤ k)
    (hmatched : matchedBy sha1 (q.suffix k) nsec3s = true)
    (hdeeper : ∀ j, k < j → j ≤ q.labelCount → matchedBy sha1 (q.suffix j) nsec3s = false)
    (hcovered : coveredBy sha1 (q.suffix (k + 1)) nsec3s = true) :
    encloserWalk sha1 nsec3s q.labelCount zlabels depth (q.suffix depth) (cameFrom q depth) =
      .ok (q.suffix k) := by
  induction depth with
  | zero =>
    obtain rfl : k = 0 := by omega
    exact (encloserWalk_matched hdepth hmatched).mpr ⟨hlt, rfl, hcovered⟩
  | succ depth ih =>
    by_cases hhere : k = depth + 1
    · subst hhere
      exact (encloserWalk_matched hdepth hmatched).mpr ⟨hlt, rfl, hcovered⟩
    · rw [encloserWalk_step hdepth (hdeeper (depth + 1) (by omega) hdepth) (by omega)]
      exact ih (by omega) (by omega)

theorem nsec3ClosestEncloser_eq (zone : Name) : nsec3ClosestEncloser sha1 q zone nsec3s =
    encloserWalk sha1 nsec3s q.labelCount zone.labelCount q.labelCount (q.suffix q.labelCount)
      (cameFrom q q.labelCount) := by
  rw [nsec3ClosestEncloser, suffix_labelCount, cameFrom, if_neg (lt_irrefl _)]

end Walk

theorem of_provesNxdomain_nsec3 {sha1 : Octets → Nsec3Hash} {q zone : Name} {nsec3s : List Nsec3}
    (hunder : q.isAtOrUnder zone = true) (h : provesNxdomain sha1 q zone [] nsec3s = .proved) :
    ∃ k, zone.labelCount ≤ k ∧ k < q.labelCount ∧
      nsec3ClosestEncloser sha1 q zone nsec3s = .ok (q.suffix k) ∧
      matchedBy sha1 (q.suffix k) nsec3s = true ∧
      coveredBy sha1 (q.suffix (k + 1)) nsec3s = true := by
  rw [provesNxdomain, if_neg (by simp)] at h
  split at h
  · rw [nsec3ClosestEncloserProof] at h
    split at h
    · cases h
    · rename_i encloser hencloser
      have hzone : zone.labelCount ≤ q.labelCount := by grind [length_canonicalLabels, isAtOrUnder_iff_isPrefix]
      have hwalk := hencloser
      rw [nsec3ClosestEncloser_eq] at hwalk
      obtain ⟨k, hk, hlt, rfl, hmatched, hcovered⟩ := of_encloserWalk (le_refl _) hzone hwalk
      exact ⟨k, hk, hlt, hencloser, hmatched, hcovered⟩
  · cases h

/-! ## The chain -/

section Chain

variable {sha1 : Octets → Nsec3Hash} {origin : Name} {records : List ZoneRecord} {salt : Octets}
  {iterations : UInt16} {optOut : Bool} {ttl : Ttl} {chain : List ZoneRecord}

theorem isListedOwner_apex (hzone : InZone origin records) :
    isListedOwner origin records optOut origin = true := by
  simp [isListedOwner, isCut, hzone.apex, not_isOccluded_origin hzone]

theorem Listed.up (hzone : InZone origin records) {a b : Name} (h : Listed origin records optOut a)
    (hab : a.isAtOrUnder b = true) (hb : b.isAtOrUnder origin = true) :
    Listed origin records optOut b := by
  by_cases hsame : b.same origin = true
  · exact .inl ((isListedOwner_congr hsame).trans (isListedOwner_apex hzone))
  · rcases h with h | ⟨-, -, o, ho, hbelow⟩
    · exact .inr ⟨hb, Bool.not_eq_true _ ▸ hsame, a, h, hab⟩
    · exact .inr ⟨hb, Bool.not_eq_true _ ▸ hsame, o, ho, Name.isAtOrUnder_trans hbelow hab⟩

theorem listed_apex (hzone : InZone origin records) : Listed origin records optOut origin :=
  .inl (isListedOwner_apex hzone)

/-- **What the records of the chain say of hashes**: each stands at the hash of a listed
name, no hash of a listed name is inside its span, and every listed name has its record. -/
structure HashChain (sha1 : Octets → Nsec3Hash) (origin : Name) (records : List ZoneRecord)
    (salt : Octets) (iterations : UInt16) (optOut : Bool) (chain : List ZoneRecord) : Prop where
  record : ∀ nsec3 ∈ nsec3sIn (chain.map asRecord), nsec3.optOut = optOut ∧
    (∃ name, Listed origin records optOut name ∧
      nsec3.ownerHash = nameHash sha1 salt iterations name) ∧
    (∀ q, nsec3.params.hash sha1 q = .ok (nameHash sha1 salt iterations q)) ∧
    ∀ name, Listed origin records optOut name →
      nsec3.coversHash (nameHash sha1 salt iterations name) = false
  listed : ∀ name, Listed origin records optOut name →
    ∃ nsec3 ∈ nsec3sIn (chain.map asRecord), nsec3.ownerHash = nameHash sha1 salt iterations name
  between : ∀ q, (∀ name, Listed origin records optOut name →
      nameHash sha1 salt iterations name ≠ nameHash sha1 salt iterations q) →
    ∃ nsec3 ∈ nsec3sIn (chain.map asRecord),
      nsec3.coversHash (nameHash sha1 salt iterations q) = true

theorem hashChain_of_nsec3Chain (hkeys : KeysApart records) (hzone : InZone origin records)
    (h : nsec3Chain sha1 (Layout.of records origin) salt iterations optOut ttl = .ok chain) :
    HashChain sha1 origin records salt iterations optOut chain := by
  obtain ⟨hashed, hperm, hsorted, hfew, hrecord, hall⟩ := of_nsec3Chain h
  have hfold : ∀ name : Name, name.toFolded.same name = true := fun name => by
    rw [Name.same_iff, Name.toFolded_toFolded]
  have hmem : ∀ name, Listed origin records optOut name →
      (nameHash sha1 salt iterations name, name.toFolded) ∈ hashed := by
    intro name hlisted
    rw [hperm.mem_iff, List.mem_map]
    refine ⟨name.toFolded, (mem_chainNames hkeys hzone.under).mpr ⟨Name.toFolded_toFolded name,
      hlisted.congr (by rw [Name.same_comm]; exact hfold name)⟩, ?_⟩
    rw [nameHash_congr (hfold name)]
  have hoctets : ∀ name, Listed origin records optOut name →
      (nameHash sha1 salt iterations name).octets ∈ hashed.map fun entry => entry.1.octets :=
    fun name hlisted => List.mem_map.mpr ⟨_, hmem name hlisted, rfl⟩
  have hnames : (Layout.of records origin).chainNames optOut ≠ [] := by
    intro hnil
    have happly := hmem origin (listed_apex hzone)
    rw [hperm.mem_iff, hnil] at happly
    cases happly
  have hring : ∀ pair ∈ ring hashed,
      (pair.1.1.octets, pair.2.1.octets) ∈ ring (hashed.map fun entry => entry.1.octets) := by
    intro pair hpair
    rw [ring_map]
    exact List.mem_map_of_mem hpair
  refine ⟨fun nsec3 hnsec3 => ?_, fun name hlisted => ?_, fun q hapart => ?_⟩
  · obtain ⟨rr, hrr, hfrom⟩ := List.mem_filterMap.mp hnsec3
    obtain ⟨record, hr, rfl⟩ := List.mem_map.mp hrr
    obtain ⟨pair, hpair, hfor⟩ := hrecord record hr nsec3 hfrom
    refine ⟨hfor.optOut, ?_, fun q => hfor.hash (hfew hnames) q, fun name hlisted => ?_⟩
    · have hfirst := (ring_ends hpair).1
      rw [hperm.mem_iff, List.mem_map] at hfirst
      obtain ⟨name, hname, heq⟩ := hfirst
      refine ⟨name, ((mem_chainNames hkeys hzone.under).mp hname).2, ?_⟩
      rw [hfor.ownerHash, ← heq]
    · rw [← Bool.not_eq_true, Nsec3.coversHash_iff, hfor.ownerHash, hfor.next]
      exact not_inGap_of_mem hsorted (hring pair hpair) (hoctets name hlisted)
  · obtain ⟨next, hpair⟩ := exists_ring_of_mem (hmem name hlisted)
    obtain ⟨record, hr, nsec3, hfrom, hfor⟩ := hall _ hpair
    exact ⟨nsec3, List.mem_filterMap.mpr ⟨_, List.mem_map_of_mem hr, hfrom⟩, hfor.ownerHash⟩
  · have hnot : (nameHash sha1 salt iterations q).octets ∉ hashed.map fun entry => entry.1.octets := by
      intro hin
      obtain ⟨entry, hentry, heq⟩ := List.mem_map.mp hin
      rw [hperm.mem_iff, List.mem_map] at hentry
      obtain ⟨name, hname, rfl⟩ := hentry
      exact hapart name ((mem_chainNames hkeys hzone.under).mp hname).2 (octets_inj heq)
    have hne : (hashed.map fun entry => entry.1.octets) ≠ [] :=
      List.ne_nil_of_mem (hoctets origin (listed_apex hzone))
    obtain ⟨a, b, hab, hgap⟩ := exists_inGap hsorted hne hnot
    rw [ring_map, List.mem_map] at hab
    obtain ⟨pair, hpair, heq⟩ := hab
    cases heq
    obtain ⟨record, hr, nsec3, hfrom, hfor⟩ := hall _ hpair
    refine ⟨nsec3, List.mem_filterMap.mpr ⟨_, List.mem_map_of_mem hr, hfrom⟩, ?_⟩
    rw [Nsec3.coversHash_iff, hfor.ownerHash, hfor.next]
    exact hgap

variable {q : Name} {offered : List ZoneRecord}

theorem mem_nsec3sIn_of_subset (hoffered : ∀ r ∈ offered, r ∈ chain) {nsec3 : Nsec3}
    (h : nsec3 ∈ nsec3sIn (offered.map asRecord)) :
    nsec3 ∈ nsec3sIn (chain.map asRecord) := by
  obtain ⟨rr, hrr, hnsec3⟩ := List.mem_filterMap.mp h
  obtain ⟨r, hr, rfl⟩ := List.mem_map.mp hrr
  exact List.mem_filterMap.mpr ⟨asRecord r, List.mem_map_of_mem (hoffered r hr), hnsec3⟩

namespace HashChain

variable {offered : List ZoneRecord}

variable {name : Name}

section

variable (h : HashChain sha1 origin records salt iterations optOut chain)
include h

theorem matchedBy_iff (hoffered : ∀ r ∈ offered, r ∈ chain) :
    matchedBy sha1 name (nsec3sIn (offered.map asRecord)) = true ↔
      ∃ nsec3 ∈ nsec3sIn (offered.map asRecord),
        nsec3.ownerHash = nameHash sha1 salt iterations name := by
  rw [matchedBy, List.any_eq_true]
  refine exists_congr fun nsec3 => and_congr_right fun hmem => ?_
  obtain ⟨-, -, hhash, -⟩ := h.record nsec3 (mem_nsec3sIn_of_subset hoffered hmem)
  rw [Nsec3.matches, hhash name]
  show (nameHash sha1 salt iterations name == nsec3.ownerHash) = true ↔ _
  rw [beq_iff_eq, eq_comm]

theorem coveredBy_iff (hoffered : ∀ r ∈ offered, r ∈ chain) :
    coveredBy sha1 name (nsec3sIn (offered.map asRecord)) = true ↔
      ∃ nsec3 ∈ nsec3sIn (offered.map asRecord),
        nsec3.coversHash (nameHash sha1 salt iterations name) = true := by
  rw [coveredBy, List.any_eq_true]
  refine exists_congr fun nsec3 => and_congr_right fun hmem => ?_
  obtain ⟨-, -, hhash, -⟩ := h.record nsec3 (mem_nsec3sIn_of_subset hoffered hmem)
  rw [Nsec3.covers, hhash name]
  exact Iff.rfl

theorem listed_of_matchedBy (hoffered : ∀ r ∈ offered, r ∈ chain) {q : Name}
    (hapart : HashesApart (nameHash sha1 salt iterations) records q)
    (hname : Involved records q name)
    (hmatched : matchedBy sha1 name (nsec3sIn (offered.map asRecord)) = true) :
    Listed origin records optOut name := by
  obtain ⟨nsec3, hmem, hhash⟩ := (h.matchedBy_iff hoffered).mp hmatched
  obtain ⟨-, ⟨other, hlisted, hother⟩, -⟩ := h.record nsec3 (mem_nsec3sIn_of_subset hoffered hmem)
  exact hlisted.congr (hapart other name (.inl hlisted.isNode) hname (hother.symm.trans hhash))

theorem not_listed_of_coveredBy (hoffered : ∀ r ∈ offered, r ∈ chain)
    (hcovered : coveredBy sha1 name (nsec3sIn (offered.map asRecord)) = true) :
    ¬ Listed origin records optOut name := by
  intro hlisted
  obtain ⟨nsec3, hmem, hcovers⟩ := (h.coveredBy_iff hoffered).mp hcovered
  obtain ⟨-, -, -, hfree⟩ := h.record nsec3 (mem_nsec3sIn_of_subset hoffered hmem)
  rw [hfree name hlisted] at hcovers
  cases hcovers

theorem matchedBy_of_listed (hlisted : Listed origin records optOut name) :
    matchedBy sha1 name (nsec3sIn (chain.map asRecord)) = true :=
  (h.matchedBy_iff fun _ hr => hr).mpr (h.listed name hlisted)

theorem coveredBy_of_not_listed {q : Name}
    (hapart : HashesApart (nameHash sha1 salt iterations) records q)
    (hname : Involved records q name) (hnot : ¬ Listed origin records optOut name) :
    coveredBy sha1 name (nsec3sIn (chain.map asRecord)) = true := by
  refine (h.coveredBy_iff fun _ hr => hr).mpr (h.between name fun other hlisted heq => hnot ?_)
  exact hlisted.congr (hapart other name (.inl hlisted.isNode) hname heq)

end

end HashChain

/-! ## The name error -/

theorem listed_suffix_apex (hzone : InZone origin records) (hunder : q.isAtOrUnder origin = true) :
    Listed origin records optOut (q.suffix origin.labelCount) := by
  refine (listed_apex hzone).congr ?_
  rw [← canonicalLabels_inj, canonicalLabels_suffix, ← length_canonicalLabels]
  exact List.prefix_iff_eq_take.mp (isAtOrUnder_iff_isPrefix.mp hunder)

theorem exists_deepest_listed (hzone : InZone origin records) (hunder : q.isAtOrUnder origin = true)
    (hnot : ¬ Listed origin records optOut q) :
    ∃ k, origin.labelCount ≤ k ∧ k < q.labelCount ∧ Listed origin records optOut (q.suffix k) ∧
      ∀ j, k < j → j ≤ q.labelCount → ¬ Listed origin records optOut (q.suffix j) := by
  classical
  have hzoneLabels : origin.labelCount ≤ q.labelCount := by
    rw [← length_canonicalLabels, ← length_canonicalLabels]
    exact (isAtOrUnder_iff_isPrefix.mp hunder).length_le
  have hapex : Listed origin records optOut (q.suffix origin.labelCount) :=
    listed_suffix_apex hzone hunder
  have hspec := Nat.findGreatest_spec (P := fun k => Listed origin records optOut (q.suffix k))
    hzoneLabels hapex
  refine ⟨Nat.findGreatest (fun k => Listed origin records optOut (q.suffix k)) q.labelCount,
    Nat.le_findGreatest hzoneLabels hapex, ?_, hspec, fun j hj hle =>
      Nat.findGreatest_is_greatest hj hle⟩
  refine lt_of_le_of_ne (Nat.findGreatest_le _) fun heq => hnot ?_
  rw [heq, suffix_labelCount] at hspec
  exact hspec

section

variable (h : HashChain sha1 origin records salt iterations optOut chain)
  (hzone : InZone origin records) {q : Name} (hunder : q.isAtOrUnder origin = true)
include h hzone hunder

/-- **The whole chain denies every name it does not list.** -/
theorem HashChain.provesNxdomain (hapart : HashesApart (nameHash sha1 salt iterations) records q)
    (hnot : ¬ Listed origin records optOut q) :
    provesNxdomain sha1 q origin [] (nsec3sIn (chain.map asRecord)) = .proved := by
  obtain ⟨k, hk, hlt, hlisted, hdeeper⟩ := exists_deepest_listed hzone hunder hnot
  have hinvolved : ∀ j, Involved records q (q.suffix j) := fun j => .inr (.inl (isAtOrUnder_suffix q j))
  have hwalk : nsec3ClosestEncloser sha1 q origin (nsec3sIn (chain.map asRecord)) =
      .ok (q.suffix k) := by
    rw [nsec3ClosestEncloser_eq]
    refine encloserWalk_ok (le_refl _) (le_of_lt hlt) hlt hk (h.matchedBy_of_listed hlisted)
      (fun j hj hle => ?_) ?_
    · by_contra hmatched
      rw [Bool.not_eq_false] at hmatched
      exact hdeeper j hj hle (h.listed_of_matchedBy (fun _ hr => hr) hapart (hinvolved j) hmatched)
    · exact h.coveredBy_of_not_listed hapart (hinvolved _) (hdeeper _ (by omega) hlt)
  have hne : q.same (q.suffix k) = false := by
    rw [← Bool.not_eq_true, ← canonicalLabels_inj]
    intro heq
    have hlen := congrArg List.length heq
    rw [length_canonicalLabels, length_canonicalLabels, labelCount_suffix (le_of_lt hlt)] at hlen
    omega
  obtain ⟨star, hstar⟩ := prefixed_star_isOk (isAtOrUnder_suffix q k) hne
  have hstarInvolved : Involved records q star := .inr (.inr ⟨_, isAtOrUnder_suffix q k, hstar⟩)
  have hwildcard : (coveredBy sha1 star (nsec3sIn (chain.map asRecord)) ||
      matchedBy sha1 star (nsec3sIn (chain.map asRecord))) = true := by
    rw [Bool.or_eq_true]
    by_cases hstarListed : Listed origin records optOut star
    · exact .inr (h.matchedBy_of_listed hstarListed)
    · exact .inl (h.coveredBy_of_not_listed hapart hstarInvolved hstarListed)
  have hsome : (nsec3sIn (chain.map asRecord)).isEmpty = false := by
    obtain ⟨nsec3, hmem, -⟩ := h.listed _ hlisted
    rw [← Bool.not_eq_true, List.isEmpty_iff]
    exact List.ne_nil_of_mem hmem
  rw [Rdns.Dnssec.provesNxdomain, if_neg (by simp), hsome, nsec3ClosestEncloserProof, hwalk]
  dsimp only
  rw [hstar]
  dsimp only
  rw [hwildcard]
  rfl

theorem HashChain.not_listed_of_provesNxdomain {offered : List ZoneRecord}
    (hoffered : ∀ r ∈ offered, r ∈ chain)
    (hproved : Rdns.Dnssec.provesNxdomain sha1 q origin [] (nsec3sIn (offered.map asRecord)) = .proved) :
    ¬ Listed origin records optOut q := by
  obtain ⟨k, hk, hlt, -, -, hcovered⟩ := of_provesNxdomain_nsec3 hunder hproved
  intro hlisted
  refine h.not_listed_of_coveredBy hoffered hcovered
    (hlisted.up hzone (isAtOrUnder_suffix q _) ?_)
  rw [isAtOrUnder_iff_isPrefix, canonicalLabels_suffix,
    List.prefix_iff_eq_take.mp (isAtOrUnder_iff_isPrefix.mp hunder), length_canonicalLabels]
  exact List.take_prefix_take_left (by omega)

end

def restsOnOptOut (sha1 : Octets → Nsec3Hash) (q zone : Name) (nsec3s : List Nsec3) : Bool :=
  match nsec3ClosestEncloser sha1 q zone nsec3s with
  | .error _ => false
  | .ok encloser => nsec3s.any fun nsec3 =>
      nsec3.optOut && orFalse (nsec3.covers sha1 (q.suffix (encloser.labelCount + 1)))

theorem HashChain.restsOnOptOut (h : HashChain sha1 origin records salt iterations true chain)
    (hunder : q.isAtOrUnder origin = true) (hoffered : ∀ r ∈ offered, r ∈ chain)
    (hproved : Rdns.Dnssec.provesNxdomain sha1 q origin [] (nsec3sIn (offered.map asRecord)) = .proved) :
    Rdns.Dnssec.restsOnOptOut sha1 q origin (nsec3sIn (offered.map asRecord)) = true := by
  obtain ⟨k, -, hlt, hwalk, -, hcovered⟩ := of_provesNxdomain_nsec3 hunder hproved
  obtain ⟨nsec3, hmem, hcovers⟩ := List.any_eq_true.mp hcovered
  rw [Rdns.Dnssec.restsOnOptOut, hwalk]
  dsimp only
  rw [labelCount_suffix (le_of_lt hlt), List.any_eq_true]
  refine ⟨nsec3, hmem, ?_⟩
  rw [(h.record nsec3 (mem_nsec3sIn_of_subset hoffered hmem)).1, hcovers]
  rfl

theorem HashChain.absent (h : HashChain sha1 origin records salt iterations false chain)
    (hzone : InZone origin records) (hunder : q.isAtOrUnder origin = true)
    (hocc : isOccluded origin records q = false)
    (hwild : ∀ encloser star, closestEncloser origin records q = some encloser →
      Name.prefixed ASTERISK encloser = .ok star → isNode records star = false)
    (hoffered : ∀ r ∈ offered, r ∈ chain)
    (hproved : Rdns.Dnssec.provesNxdomain sha1 q origin [] (nsec3sIn (offered.map asRecord)) = .proved) :
    Absent origin records q := by
  have hqnode : isNode records q = false := by
    by_contra hnode
    rw [Bool.not_eq_false] at hnode
    exact h.not_listed_of_provesNxdomain hzone hunder hoffered hproved
      ((listed_iff hzone hunder).mpr ⟨hnode, hocc⟩)
  exact absent_of_not_isOccluded hqnode hocc hwild

/-- **What a validated NSEC3 name error is worth.** Without Opt-Out it is true of a name,
whatever records of the chain were offered, exactly when no delegation and no DNAME stands
above the name and the name exists or no wildcard would have answered for it: a wildcard
that exists is taken for one that is denied. With Opt-Out it rests on a span that says
nothing about delegations for every name the chain does not list. -/
theorem nsec3_nxdomain_iff (hkeys : KeysApart records) (hzone : InZone origin records) {q : Name}
    (hunder : q.isAtOrUnder origin = true)
    (hapart : HashesApart (nameHash sha1 salt iterations) records q) :
    (∀ chain, nsec3Chain sha1 (Layout.of records origin) salt iterations false ttl = .ok chain →
      ((∀ offered : List ZoneRecord, (∀ r ∈ offered, r ∈ chain) →
        provesNxdomain sha1 q origin [] (nsec3sIn (offered.map asRecord)) = .proved →
          Absent origin records q) ↔
        isOccluded origin records q = false ∧ (isNode records q = true ∨
          ∀ encloser star, closestEncloser origin records q = some encloser →
            Name.prefixed ASTERISK encloser = .ok star → isNode records star = false))) ∧
    (∀ chain, nsec3Chain sha1 (Layout.of records origin) salt iterations true ttl = .ok chain →
      ((∀ offered : List ZoneRecord, (∀ r ∈ offered, r ∈ chain) →
        provesNxdomain sha1 q origin [] (nsec3sIn (offered.map asRecord)) = .proved →
          restsOnOptOut sha1 q origin (nsec3sIn (offered.map asRecord)) = false) ↔
        Listed origin records true q)) := by
  constructor
  · intro chain hchain
    have h := hashChain_of_nsec3Chain hkeys hzone hchain
    constructor
    · intro hsound
      have hwhole := hsound chain (fun _ hr => hr)
      have hocc : isOccluded origin records q = false := by
        by_contra hocc
        rw [Bool.not_eq_false] at hocc
        have hnot : ¬ Listed origin records false q := by grind [listed_iff]
        have habsent := hwhole (h.provesNxdomain hzone hunder hapart hnot)
        obtain ⟨d, hd, hqd, hqne⟩ := isOccluded_iff.mp hocc
        rw [isOccluder, habsent.noCut d hqd, habsent.noDname d hqd hqne] at hd
        cases hd
      refine ⟨hocc, ?_⟩
      by_cases hnode : isNode records q = true
      · exact .inl hnode
      · have hnot : ¬ Listed origin records false q := fun hlisted => hnode hlisted.isNode
        exact .inr (hwhole (h.provesNxdomain hzone hunder hapart hnot)).noWildcard
    · rintro ⟨hocc, hnode | hwild⟩ offered hoffered hproved
      · exact absurd ((listed_iff hzone hunder).mpr ⟨hnode, hocc⟩)
          (h.not_listed_of_provesNxdomain hzone hunder hoffered hproved)
      · exact h.absent hzone hunder hocc hwild hoffered hproved
  · intro chain hchain
    have h := hashChain_of_nsec3Chain hkeys hzone hchain
    constructor
    · intro hsound
      by_contra hnot
      have hproved := h.provesNxdomain hzone hunder hapart hnot
      have hrests := h.restsOnOptOut hunder (fun _ hr => hr) hproved
      rw [hsound chain (fun _ hr => hr) hproved] at hrests
      cases hrests
    · intro hlisted offered hoffered hproved
      exact absurd hlisted (h.not_listed_of_provesNxdomain hzone hunder hoffered hproved)

theorem nodup_hashes (hkeys : KeysFaithful records) (hzone : InZone origin records)
    (hapart : HashesApart (nameHash sha1 salt iterations) records q) :
    (((Layout.of records origin).chainNames optOut).map (nameHash sha1 salt iterations)).Nodup := by
  have hsorted : (((Layout.of records origin).chainNames optOut).map canonicalLabels).Pairwise (· < ·) :=
    sorted_chainNames hkeys hzone.under
  rw [List.pairwise_map] at hsorted
  refine List.Nodup.map_on (fun a ha b hb heq => ?_) ?_
  · obtain ⟨hafold, halisted⟩ := (mem_chainNames hkeys.apart hzone.under).mp ha
    obtain ⟨hbfold, hblisted⟩ := (mem_chainNames hkeys.apart hzone.under).mp hb
    have hsame := Name.same_iff.mp (hapart a b (.inl halisted.isNode) (.inl hblisted.isNode) heq)
    rwa [hafold, hbfold] at hsame
  · refine hsorted.imp fun {a b} hlt heq => ?_
    rw [heq] at hlt
    exact lt_irrefl _ hlt

end Chain

/-! ## A zone with a delegation -/

def knownDigests : List (Octets × Octets) :=
  [([0], [91, 169, 60, 157, 176, 207, 249, 63, 82, 181, 33, 215, 66, 14, 67, 246, 237, 162, 120, 79]),
   ([2, 101, 120, 0],
    [84, 122, 197, 116, 144, 197, 225, 117, 133, 25, 33, 139, 156, 73, 6, 181, 18, 34, 9, 142]),
   ([3, 119, 119, 119, 2, 101, 120, 0],
    [89, 216, 245, 221, 94, 216, 121, 112, 163, 251, 0, 55, 138, 209, 236, 28, 192, 60, 133, 160]),
   ([1, 97, 3, 119, 119, 119, 2, 101, 120, 0],
    [105, 87, 171, 140, 142, 192, 112, 191, 240, 171, 15, 183, 119, 9, 176, 68, 246, 5, 158, 35]),
   ([1, 42, 0],
    [52, 107, 187, 17, 49, 57, 209, 27, 152, 224, 64, 5, 105, 181, 240, 100, 25, 166, 117, 42]),
   ([1, 42, 2, 101, 120, 0],
    [85, 143, 188, 33, 32, 47, 100, 35, 228, 55, 216, 60, 236, 98, 214, 51, 242, 115, 158, 224]),
   ([1, 42, 3, 119, 119, 119, 2, 101, 120, 0],
    [14, 36, 62, 253, 61, 65, 125, 196, 10, 173, 130, 162, 2, 76, 85, 61, 72, 24, 81, 137]),
   ([1, 42, 1, 97, 3, 119, 119, 119, 2, 101, 120, 0],
    [229, 100, 97, 59, 109, 8, 248, 213, 2, 204, 58, 189, 104, 3, 115, 82, 92, 2, 236, 246])]

theorem length_noSha1 : (List.replicate 20 0 : Octets).length = 20 := rfl

def knownSha1 (input : Octets) : Nsec3Hash :=
  ((knownDigests.lookup input).bind Nsec3Hash.fromWire).getD ⟨List.replicate 20 0, length_noSha1⟩

def comparedNames : List Name :=
  aWwwEx.ancestors ++ aWwwEx.ancestors.filterMap fun a => (Name.prefixed STAR a).toOption

theorem comparedNames_apart : ∀ a ∈ comparedNames, ∀ b ∈ comparedNames,
    nameHash knownSha1 [] 0 a = nameHash knownSha1 [] 0 b → a = b := by
  decide +kernel

theorem toFolded_mem_ancestors {a b : Name} (h : a.isAtOrUnder b = true) :
    b.toFolded ∈ a.toFolded.ancestors :=
  Name.mem_ancestors.mpr (Name.isAtOrUnder_toFolded.mp h)

theorem toFolded_mem_comparedNames {name : Name} (h : Involved cutZone aWwwEx name) :
    name.toFolded ∈ comparedNames := by
  rcases h with hnode | habove | ⟨a, ha, hstar⟩
  · obtain ⟨r, hr, hunder⟩ := Zone.isNode_iff.mp hnode
    have hall : ∀ r ∈ cutZone, ∀ b ∈ r.name.toFolded.ancestors, b ∈ comparedNames := by decide +kernel
    exact hall r hr _ (toFolded_mem_ancestors hunder)
  · exact List.mem_append_left _ (toFolded_mem_ancestors habove)
  · refine List.mem_append_right _ (List.mem_filterMap.mpr ⟨a.toFolded, toFolded_mem_ancestors ha, ?_⟩)
    rw [Name.prefixed, if_neg (by decide), Name.ofLabels_ok_iff] at hstar
    have hfolded : Name.prefixed STAR a.toFolded = .ok name.toFolded := by
      rw [Name.prefixed, if_neg (by decide), Name.ofLabels_ok_iff, Name.toFolded_labels, hstar]
      rfl
    rw [hfolded]
    rfl

theorem cutZone_apart : HashesApart (nameHash knownSha1 [] 0) cutZone aWwwEx := by
  intro a b ha hb heq
  have hfold : ∀ name : Name, name.same name.toFolded = true := fun name => by
    rw [Name.same_iff, Name.toFolded_toFolded]
  rw [nameHash_congr (hfold a), nameHash_congr (hfold b)] at heq
  exact Name.same_iff.mpr (comparedNames_apart _ (toFolded_mem_comparedNames ha) _
    (toFolded_mem_comparedNames hb) heq)

theorem cutZone_nsec3Chain (optOut : Bool) :
    ∃ chain, nsec3Chain knownSha1 (Layout.of cutZone ex) [] 0 optOut ⟨300⟩ = .ok chain :=
  nsec3Chain_isOk (by decide) (by decide) (by decide)
    (nodup_hashes cutZone_keys cutZone_inZone cutZone_apart)

theorem nsec3_nxdomain_cutZone :
    ∃ chain, nsec3Chain knownSha1 (Layout.of cutZone ex) [] 0 false ⟨300⟩ = .ok chain ∧
      ∀ offered : List ZoneRecord, (∀ r ∈ offered, r ∈ chain) →
        provesNxdomain knownSha1 wwwEx ex [] (nsec3sIn (offered.map asRecord)) = .proved →
          Absent ex cutZone wwwEx := by
  obtain ⟨chain, hchain⟩ := cutZone_nsec3Chain false
  have hbelow : aWwwEx.isAtOrUnder wwwEx = true := by decide
  have hinvolved : ∀ name, Involved cutZone wwwEx name → Involved cutZone aWwwEx name := by
    rintro name (hnode | habove | ⟨a, ha, hstar⟩)
    · exact .inl hnode
    · exact .inr (.inl (Name.isAtOrUnder_trans hbelow habove))
    · exact .inr (.inr ⟨a, Name.isAtOrUnder_trans hbelow ha, hstar⟩)
  have hapart : HashesApart (nameHash knownSha1 [] 0) cutZone wwwEx :=
    fun a b ha hb => cutZone_apart a b (hinvolved a ha) (hinvolved b hb)
  exact ⟨chain, hchain, ((nsec3_nxdomain_iff cutZone_keys.apart cutZone_inZone (by decide) hapart).1
    chain hchain).mpr ⟨by decide, .inl (by decide)⟩⟩

/-- **Below the delegation it does not**: the whole chain denies `a.www.ex.`. -/
theorem cutZone_denied_nsec3 :
    ¬ ∀ (sha1 : Octets → Nsec3Hash) (origin : Name) (records : List ZoneRecord) (salt : Octets)
      (iterations : UInt16) (ttl : Ttl) (chain : List ZoneRecord) (q : Name)
      (offered : List ZoneRecord), InZone origin records →
      HashesApart (nameHash sha1 salt iterations) records q →
      nsec3Chain sha1 (Layout.of records origin) salt iterations false ttl = .ok chain →
      q.isAtOrUnder origin = true → (∀ r ∈ offered, r ∈ chain) →
      provesNxdomain sha1 q origin [] (nsec3sIn (offered.map asRecord)) = .proved →
        Absent origin records q := by
  intro h
  obtain ⟨chain, hchain⟩ := cutZone_nsec3Chain false
  have hashes := hashChain_of_nsec3Chain cutZone_keys.apart cutZone_inZone hchain
  have hunder : aWwwEx.isAtOrUnder ex = true := by decide
  have hnot : ¬ Listed ex cutZone false aWwwEx := by
    rw [listed_iff cutZone_inZone hunder]
    decide
  have habsent := h knownSha1 ex cutZone [] 0 ⟨300⟩ chain aWwwEx chain cutZone_inZone cutZone_apart
    hchain hunder (fun _ hr => hr) (hashes.provesNxdomain cutZone_inZone hunder cutZone_apart hnot)
  have hcut := habsent.noCut wwwEx (by decide)
  revert hcut
  decide

end Rdns.Dnssec
