import Rdns.Dnssec.Nsec3Proofs

/-!
# Rdns — Which denial records bear on a name

A denial asks about the name, its ancestors and the wildcards right below those, and about
nothing else. A record that neither matches nor covers any of them is not evidence, whatever
zone it is from: taking it away leaves the denial as it was.
-/

namespace Rdns.Dnssec

open Rdns.Lib Rdns.Core Rdns.Present

def lookedUp (name : Name) : List Name :=
  name.ancestors ++ name.ancestors.filterMap fun a => (Name.prefixed STAR a).toOption

def Nsec.bearsOn (name : Name) (nsec : Nsec) : Bool :=
  (lookedUp name).any fun a => nsec.matches a || nsec.covers a

def Nsec3.bearsOn (sha1 : Octets → Nsec3Hash) (name : Name) (nsec3 : Nsec3) : Bool :=
  (lookedUp name).any fun a => orFalse (nsec3.matches sha1 a) || orFalse (nsec3.covers sha1 a)

/-! ## What is asked about -/

section

variable {name a star : Name}

theorem mem_lookedUp_self (name : Name) : name ∈ lookedUp name :=
  List.mem_append_left _ (Name.mem_ancestors.mpr List.suffix_rfl)

theorem suffix_mem_lookedUp (name : Name) (count : Nat) : name.suffix count ∈ lookedUp name := by
  refine List.mem_append_left _ (Name.mem_ancestors.mpr ?_)
  rw [Name.suffix, Name.dropLabels_labels]
  exact List.drop_suffix _ _

theorem star_mem_lookedUp {count : Nat} (h : Name.prefixed STAR (name.suffix count) = .ok star) :
    star ∈ lookedUp name := by
  refine List.mem_append_right _ (List.mem_filterMap.mpr ⟨name.suffix count, ?_, ?_⟩)
  · rw [Name.mem_ancestors, Name.suffix, Name.dropLabels_labels]
    exact List.drop_suffix _ _
  · rw [h]
    rfl

end

theorem find?_kept {α : Type} {p q : α → Bool} {xs : List α} (h : ∀ x, q x = true → p x = true) :
    (xs.filter p).find? q = xs.find? q := by
  rw [List.find?_filter]
  congr 1
  funext x
  cases hq : q x with
  | false => simp
  | true => simp [h x hq]

theorem any_kept {α : Type} {p q : α → Bool} {xs : List α} (h : ∀ x, q x = true → p x = true) :
    (xs.filter p).any q = xs.any q := by
  rw [List.any_filter]
  congr 1
  funext x
  cases hq : q x with
  | false => rw [Bool.and_false]
  | true => rw [h x hq, Bool.and_self]

/-! ## NSEC -/

section Nsec

variable {qname a : Name} {nsecs : List Nsec}

theorem Nsec.bearsOn_of_matches {nsec : Nsec} (ha : a ∈ lookedUp qname) (h : nsec.matches a = true) :
    nsec.bearsOn qname = true :=
  List.any_eq_true.mpr ⟨a, ha, by rw [h, Bool.true_or]⟩

theorem Nsec.bearsOn_of_covers {nsec : Nsec} (ha : a ∈ lookedUp qname) (h : nsec.covers a = true) :
    nsec.bearsOn qname = true :=
  List.any_eq_true.mpr ⟨a, ha, by rw [h, Bool.or_true]⟩

theorem find?_covers_bearing (ha : a ∈ lookedUp qname) :
    (nsecs.filter (·.bearsOn qname)).find? (·.covers a) = nsecs.find? (·.covers a) :=
  find?_kept fun _ h => Nsec.bearsOn_of_covers ha h

theorem find?_matches_bearing (ha : a ∈ lookedUp qname) :
    (nsecs.filter (·.bearsOn qname)).find? (·.matches a) = nsecs.find? (·.matches a) :=
  find?_kept fun _ h => Nsec.bearsOn_of_matches ha h

theorem isEmpty_of_find? {α : Type} {p : α → Bool} {xs : List α} {x : α} (h : xs.find? p = some x) :
    xs.isEmpty = false :=
  List.isEmpty_eq_false_iff_exists_mem.mpr ⟨x, List.mem_of_find?_eq_some h⟩

theorem nsecWildcardNodata_bearing (qtype : Rtype) :
    nsecWildcardNodata qname qtype (nsecs.filter (·.bearsOn qname)) = nsecWildcardNodata qname qtype nsecs := by
  rw [nsecWildcardNodata, nsecWildcardNodata, find?_covers_bearing (mem_lookedUp_self qname)]
  cases nsecs.find? (·.covers qname) with
  | none => rfl
  | some covering =>
    dsimp only
    rw [closestEncloserNsec_suffix]
    split
    · rfl
    · rename_i star hstar
      rw [find?_matches_bearing (star_mem_lookedUp hstar)]

end Nsec

/-! ## NSEC3 -/

section Nsec3

variable {sha1 : Octets → Nsec3Hash} {qname zone a : Name} {nsec3s : List Nsec3}

theorem Nsec3.bearsOn_of_matches {nsec3 : Nsec3} (ha : a ∈ lookedUp qname)
    (h : orFalse (nsec3.matches sha1 a) = true) : nsec3.bearsOn sha1 qname = true :=
  List.any_eq_true.mpr ⟨a, ha, by rw [h, Bool.true_or]⟩

theorem Nsec3.bearsOn_of_covers {nsec3 : Nsec3} (ha : a ∈ lookedUp qname)
    (h : orFalse (nsec3.covers sha1 a) = true) : nsec3.bearsOn sha1 qname = true :=
  List.any_eq_true.mpr ⟨a, ha, by rw [h, Bool.or_true]⟩

theorem matchedBy_bearing (ha : a ∈ lookedUp qname) :
    matchedBy sha1 a (nsec3s.filter (·.bearsOn sha1 qname)) = matchedBy sha1 a nsec3s :=
  any_kept fun _ h => Nsec3.bearsOn_of_matches ha h

theorem coveredBy_bearing (ha : a ∈ lookedUp qname) :
    coveredBy sha1 a (nsec3s.filter (·.bearsOn sha1 qname)) = coveredBy sha1 a nsec3s :=
  any_kept fun _ h => Nsec3.bearsOn_of_covers ha h

theorem find?_hashed_bearing (ha : a ∈ lookedUp qname) :
    ((nsec3s.filter (·.bearsOn sha1 qname)).find? fun nsec3 => orFalse (nsec3.matches sha1 a))
      = nsec3s.find? fun nsec3 => orFalse (nsec3.matches sha1 a) :=
  find?_kept fun _ h => Nsec3.bearsOn_of_matches ha h

theorem encloserWalk_bearing {zlabels depth : Nat} (hdepth : depth ≤ qname.labelCount) :
    encloserWalk sha1 (nsec3s.filter (·.bearsOn sha1 qname)) qname.labelCount zlabels depth
        (qname.suffix depth) (cameFrom qname depth)
      = encloserWalk sha1 nsec3s qname.labelCount zlabels depth (qname.suffix depth) (cameFrom qname depth) := by
  have hmatched : ∀ depth, matchedBy sha1 (qname.suffix depth) (nsec3s.filter (·.bearsOn sha1 qname))
      = matchedBy sha1 (qname.suffix depth) nsec3s := fun depth => matchedBy_bearing (suffix_mem_lookedUp _ _)
  -- where a name is matched, the walk ends by what covers the one below
  have hhere : ∀ depth ≤ qname.labelCount, matchedBy sha1 (qname.suffix depth) nsec3s = true →
      encloserWalk sha1 (nsec3s.filter (·.bearsOn sha1 qname)) qname.labelCount zlabels depth
          (qname.suffix depth) (cameFrom qname depth)
        = encloserWalk sha1 nsec3s qname.labelCount zlabels depth (qname.suffix depth) (cameFrom qname depth) := by
    intro depth hdepth hmatch
    rw [encloserWalk.eq_def, encloserWalk.eq_def, hmatched, if_pos hmatch, if_pos hmatch]
    rcases eq_or_lt_of_le hdepth with htop | hlt
    · rw [if_pos htop, if_pos htop]
    · grind [cameFrom, coveredBy_bearing, suffix_mem_lookedUp]
  induction depth with
  | zero =>
    by_cases hmatch : matchedBy sha1 (qname.suffix 0) nsec3s = true
    · exact hhere 0 hdepth hmatch
    · rw [encloserWalk.eq_def, encloserWalk.eq_def, hmatched, if_neg hmatch, if_neg hmatch]
  | succ depth ih =>
    by_cases hmatch : matchedBy sha1 (qname.suffix (depth + 1)) nsec3s = true
    · exact hhere _ hdepth hmatch
    · by_cases htop : depth + 1 = zlabels
      · rw [encloserWalk.eq_def, encloserWalk.eq_def, hmatched, if_neg hmatch, if_neg hmatch, if_pos htop,
          if_pos htop]
      · rw [Bool.not_eq_true] at hmatch
        rw [encloserWalk_step hdepth ((hmatched _).trans hmatch) htop, encloserWalk_step hdepth hmatch htop]
        exact ih (by omega)

theorem nsec3ClosestEncloser_bearing :
    nsec3ClosestEncloser sha1 qname zone (nsec3s.filter (·.bearsOn sha1 qname))
      = nsec3ClosestEncloser sha1 qname zone nsec3s := by
  have h := @encloserWalk_bearing sha1 qname nsec3s zone.labelCount qname.labelCount (le_refl _)
  rwa [suffix_labelCount, cameFrom, if_neg (lt_irrefl _)] at h

theorem encloser_eq_suffix {encloser : Name} (h : nsec3ClosestEncloser sha1 qname zone nsec3s = .ok encloser) :
    ∃ count, encloser = qname.suffix count := by
  have hwalk : ∀ depth ≤ qname.labelCount, encloserWalk sha1 nsec3s qname.labelCount zone.labelCount depth
      (qname.suffix depth) (cameFrom qname depth) = .ok encloser → ∃ count, encloser = qname.suffix count := by
    intro depth
    induction depth with
    | zero =>
      intro hdepth h
      by_cases hmatch : matchedBy sha1 (qname.suffix 0) nsec3s = true
      · exact ⟨0, ((encloserWalk_matched hdepth hmatch).mp h).2.1⟩
      · rw [encloserWalk.eq_def, if_neg hmatch] at h
        split at h <;> cases h
    | succ depth ih =>
      intro hdepth h
      by_cases hmatch : matchedBy sha1 (qname.suffix (depth + 1)) nsec3s = true
      · exact ⟨depth + 1, ((encloserWalk_matched hdepth hmatch).mp h).2.1⟩
      · by_cases htop : depth + 1 = zone.labelCount
        · rw [encloserWalk.eq_def, if_neg hmatch, if_pos htop] at h
          cases h
        · rw [encloserWalk_step hdepth (Bool.not_eq_true _ ▸ hmatch) htop] at h
          exact ih (by omega) h
  rw [nsec3ClosestEncloser_eq] at h
  exact hwalk _ (le_refl _) h

theorem nsec3ClosestEncloserProof_bearing :
    nsec3ClosestEncloserProof sha1 qname zone (nsec3s.filter (·.bearsOn sha1 qname))
      = nsec3ClosestEncloserProof sha1 qname zone nsec3s := by
  rw [nsec3ClosestEncloserProof, nsec3ClosestEncloserProof, nsec3ClosestEncloser_bearing]
  cases hencloser : nsec3ClosestEncloser sha1 qname zone nsec3s with
  | error why => rfl
  | ok encloser =>
    obtain ⟨count, rfl⟩ := encloser_eq_suffix hencloser
    dsimp only
    split
    · rfl
    · rename_i star hstar
      rw [coveredBy_bearing (star_mem_lookedUp hstar), matchedBy_bearing (star_mem_lookedUp hstar)]

theorem nsec3WildcardNodata_bearing (qtype : Rtype) :
    nsec3WildcardNodata sha1 qname zone qtype (nsec3s.filter (·.bearsOn sha1 qname))
      = nsec3WildcardNodata sha1 qname zone qtype nsec3s := by
  rw [nsec3WildcardNodata, nsec3WildcardNodata, nsec3ClosestEncloser_bearing]
  cases hencloser : nsec3ClosestEncloser sha1 qname zone nsec3s with
  | error why => rfl
  | ok encloser =>
    obtain ⟨count, rfl⟩ := encloser_eq_suffix hencloser
    dsimp only
    split
    · rfl
    · rename_i star hstar
      rw [find?_hashed_bearing (star_mem_lookedUp hstar)]

end Nsec3

/-! ## Both -/

section Both

variable {sha1 : Octets → Nsec3Hash} {qname zone : Name} {nsecs : List Nsec} {nsec3s : List Nsec3}

theorem nonempty_of_encloser {encloser : Name} (h : nsec3ClosestEncloser sha1 qname zone nsec3s = .ok encloser) :
    nsec3s.isEmpty = false := by
  cases nsec3s with
  | cons => rfl
  | nil =>
    have hwalk : ∀ (depth : Nat) (candidate : Name) (below : Option Name),
        ∃ why, encloserWalk sha1 [] qname.labelCount zone.labelCount depth candidate below = .error why := by
      intro depth
      induction depth with
      | zero => simp [encloserWalk.eq_def, matchedBy]
      | succ depth ih =>
        intro candidate below
        rw [encloserWalk.eq_def, if_neg (by simp [matchedBy])]
        split
        · exact ⟨_, rfl⟩
        · cases candidate.parent with
          | none => exact ⟨_, rfl⟩
          | some up => exact ih up _
    obtain ⟨why, herror⟩ := hwalk qname.labelCount qname none
    rw [nsec3ClosestEncloser, herror] at h
    cases h

/-- **A denial of existence rests on the records that bear on the name.** -/
theorem provesNxdomain_bearing (h : provesNxdomain sha1 qname zone nsecs nsec3s = .proved) :
    provesNxdomain sha1 qname zone (nsecs.filter (·.bearsOn qname)) (nsec3s.filter (·.bearsOn sha1 qname))
      = .proved := by
  rw [provesNxdomain] at h ⊢
  split at h
  · split at h
    · cases h
    · rename_i covering hcovering
      have hfound : (nsecs.filter (·.bearsOn qname)).find? (·.covers qname) = some covering :=
        (find?_covers_bearing (mem_lookedUp_self qname)).trans hcovering
      rw [isEmpty_of_find? hfound, Bool.not_false, if_pos rfl, hfound]
      dsimp only
      split at h
      · cases h
      · rename_i star hstar
        have hlooked : star ∈ lookedUp qname := by
          rw [closestEncloserNsec_suffix] at hstar
          exact star_mem_lookedUp hstar
        have hany : (nsecs.filter (·.bearsOn qname)).any (·.covers star) = nsecs.any (·.covers star) :=
          any_kept fun _ hcovers => Nsec.bearsOn_of_covers hlooked hcovers
        rw [hany]
        exact h
  · rename_i hnone
    rw [Bool.not_eq_true', Bool.not_eq_false, List.isEmpty_iff] at hnone
    subst hnone
    split at h
    · rw [List.filter_nil, List.isEmpty_nil, Bool.not_true, if_neg Bool.false_ne_true,
        nsec3ClosestEncloserProof_bearing]
      have hsome : (nsec3s.filter (·.bearsOn sha1 qname)).isEmpty = false := by
        have hproof := h
        rw [nsec3ClosestEncloserProof] at hproof
        split at hproof
        · cases hproof
        · rename_i encloser hencloser
          exact nonempty_of_encloser (nsec3ClosestEncloser_bearing.trans hencloser)
      rw [hsome, Bool.not_false, if_pos rfl]
      exact h
    · cases h

/-- **A denial of a type rests on the records that bear on the name.** -/
theorem provesNodata_bearing {qtype : Rtype} (h : provesNodata sha1 qname zone qtype nsecs nsec3s = .proved) :
    provesNodata sha1 qname zone qtype (nsecs.filter (·.bearsOn qname)) (nsec3s.filter (·.bearsOn sha1 qname))
      = .proved := by
  rw [provesNodata] at h ⊢
  rw [find?_matches_bearing (mem_lookedUp_self qname), find?_hashed_bearing (mem_lookedUp_self qname)]
  split at h
  · exact h
  · split at h
    · exact h
    · split at h
      · have hsome : (nsecs.filter (·.bearsOn qname)).isEmpty = false := by
          have hproof := h
          rw [nsecWildcardNodata] at hproof
          split at hproof
          · cases hproof
          · rename_i covering hcovering
            exact isEmpty_of_find? ((find?_covers_bearing (mem_lookedUp_self qname)).trans hcovering)
        rw [hsome, Bool.not_false, if_pos rfl, nsecWildcardNodata_bearing]
        exact h
      · rename_i hempty
        rw [Bool.not_eq_true', Bool.not_eq_false, List.isEmpty_iff] at hempty
        subst hempty
        rw [List.filter_nil, List.isEmpty_nil, Bool.not_true, if_neg Bool.false_ne_true]
        split at h
        · rw [nsec3WildcardNodata_bearing]
          have hproved : nsec3WildcardNodata sha1 qname zone qtype nsec3s = .proved := by grind
          have hsome : (nsec3s.filter (·.bearsOn sha1 qname)).isEmpty = false := by
            have hproof := hproved
            rw [nsec3WildcardNodata] at hproof
            split at hproof
            · cases hproof
            · rename_i encloser hencloser
              exact nonempty_of_encloser (nsec3ClosestEncloser_bearing.trans hencloser)
          rw [hsome, Bool.not_false, if_pos rfl, hproved]
        · cases h

end Both

end Rdns.Dnssec
