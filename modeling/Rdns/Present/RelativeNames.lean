import Rdns.Present.Presentation

/-!
# Rdns — Absolute and relative names in zone-file text

`Name::absolutized_in` takes text that ends in a dot for an absolute name. A label may itself end
in a dot, which its text escapes, so that text without the root's dot can still end in one.
-/

namespace Rdns.Present

open Rdns.Lib Rdns.Core

def relativeText (name : Name) : Text := (toPresentation name).dropLast

/-! ## The last label's text -/

theorem escapeLabel_append (a b : Octets) : escapeLabel (a ++ b) = escapeLabel a ++ escapeLabel b :=
  List.flatMap_append

theorem labelsText_append (a b : List Octets) : labelsText (a ++ b) = labelsText a ++ labelsText b :=
  List.flatMap_append

variable {name : Name}

theorem relativeText_eq {front : List Octets} {last : Octets} (h : name.labels = front ++ [last]) :
    relativeText name = labelsText front ++ escapeLabel last := by
  have hne : name.labels ≠ [] := by simp [h]
  have hlast : labelsText [last] = escapeLabel last ++ ['.'] := List.flatMap_singleton _ _
  rw [relativeText, toPresentation_eq, if_neg hne, h, labelsText_append, hlast, ← List.append_assoc,
    List.dropLast_concat]

theorem getLast?_escapeOctet (octet : UInt8) :
    (escapeOctet isNameSyntax 0x21 octet).getLast? = some '.' ↔ octet = 46 := by
  rw [escapeOctet]
  split
  · constructor
    · intro h
      have hchar : charOf octet = '.' := Option.some.inj h
      have hnat := congrArg Char.toNat hchar
      rw [toNat_charOf] at hnat
      exact UInt8.toNat_inj.mp (show octet.toNat = (46 : UInt8).toNat from hnat)
    · rintro rfl
      rfl
  · rename_i hplain
    refine iff_of_false (fun h => ?_) (fun h => hplain (h ▸ rfl))
    split at h
    · have hchar : charOf octet = '.' := Option.some.inj h
      have hnat := congrArg Char.toNat hchar
      rw [toNat_charOf] at hnat
      have hdot := UInt8.toNat_inj.mp (show octet.toNat = (46 : UInt8).toNat from hnat)
      exact hplain (hdot ▸ rfl)
    · have hchar : charOf (48 + octet % 10) = '.' := Option.some.inj h
      have hnat := congrArg Char.toNat hchar
      have hdigit := (toNat_threeDigits octet).2.2
      rw [toNat_charOf, hdigit] at hnat
      have hdot : ('.' : Char).toNat = 46 := rfl
      omega

theorem append_escapeOctet_ne {c : Char} (hc : isNameSyntax (UInt8.ofNat c.toNat) = true) (front : Text)
    (octet : UInt8) : front ++ escapeOctet isNameSyntax 0x21 octet ≠ [c] := by
  intro h
  rw [escapeOctet] at h
  split at h
  · have hlen := congrArg List.length h
    simp only [List.length_append, List.length_cons, List.length_nil] at hlen
    omega
  · rename_i hplain
    split at h
    · have hlast := congrArg List.getLast? h
      rw [List.getLast?_concat] at hlast
      have hchar : charOf octet = c := Option.some.inj hlast
      rw [← hchar, toNat_charOf, UInt8.ofNat_toNat] at hc
      exact hplain hc
    · have hlen := congrArg List.length h
      simp only [threeDigits, List.length_append, List.length_cons, List.length_nil] at hlen
      omega

section Relative

variable {name : Name} {front : List Octets} {body : Octets} {octet : UInt8}

theorem relativeText_octet (h : name.labels = front ++ [body ++ [octet]]) :
    relativeText name = labelsText front ++ escapeLabel body ++ escapeOctet isNameSyntax 0x21 octet := by
  have hlast : escapeLabel [octet] = escapeOctet isNameSyntax 0x21 octet := List.flatMap_singleton _ _
  rw [relativeText_eq h, escapeLabel_append, hlast, List.append_assoc]

theorem escapeOctet_ne_nil : escapeOctet isNameSyntax 0x21 octet ≠ [] := by
  rw [escapeOctet]
  split
  · exact List.cons_ne_nil _ _
  · split <;> exact List.cons_ne_nil _ _

/-- **What the text without the root's dot ends in**: a dot exactly where the last label does. -/
theorem getLast?_relativeText (h : name.labels = front ++ [body ++ [octet]]) :
    (relativeText name).getLast? = some '.' ↔ octet = 46 := by
  rw [relativeText_octet h, List.getLast?_append_of_ne_nil _ escapeOctet_ne_nil, getLast?_escapeOctet]

theorem relativeText_ne_nil (h : name.labels = front ++ [body ++ [octet]]) : relativeText name ≠ [] := by
  rw [relativeText_octet h]
  exact List.append_ne_nil_of_right_ne_nil _ escapeOctet_ne_nil

theorem trim_relativeText (h : name.labels = front ++ [body ++ [octet]]) :
    trim (relativeText name) = relativeText name := by
  have hgraphic : ∀ c ∈ relativeText name, isGraphic c = true := fun c hc =>
    (bare_toPresentation name).graphic c (List.dropLast_subset _ hc)
  exact trim_eq_self (relativeText_ne_nil h)
    (fun c hc => isWhitespace_of_graphic (hgraphic c (List.mem_of_mem_head? hc)))
    (fun c hc => isWhitespace_of_graphic (hgraphic c (List.mem_of_getLast? hc)))

end Relative

/-! ## Reading it -/

theorem presentationWalk_last {finished : List Octets} :
    ∀ (octets label : Octets) (pos : Nat), pos + octets.length < MAX_NAME_LEN →
      label.length + octets.length ≤ MAX_LABEL_LEN →
      presentationWalk pos finished (some label) (toBytes (escapeLabel octets)) =
        .ok (finished ++ [label ++ octets]) := by
  intro octets
  induction octets with
  | nil =>
    intro label pos hpos hlen
    rw [escapeLabel, List.flatMap_nil, toBytes_nil, presentationWalk, finishLabel,
      if_neg (by simpa using hlen), List.append_nil]
    show (pushOctet pos >>= _) = _
    rw [pushOctet, if_neg (by simpa using hpos)]
    rfl
  | cons octet octets ih =>
    intro label pos hpos hlen
    rw [List.length_cons] at hpos hlen
    rw [escapeLabel, List.flatMap_cons, toBytes_append, presentationWalk_octet, pushLabel_some (by omega)]
    show presentationWalk (pos + 1) finished (some (label ++ [octet])) (toBytes (escapeLabel octets)) = _
    have hlabel : (label ++ [octet]).length + octets.length ≤ MAX_LABEL_LEN := by
      rw [List.length_append, List.length_singleton]
      omega
    rw [ih (label ++ [octet]) (pos + 1) (by omega) hlabel, List.append_assoc]
    rfl

/-- **A name reads back without the root's dot.** -/
theorem fromPresentation_relative (h : name.labels ≠ []) :
    fromPresentation (relativeText name) = .ok name := by
  obtain ⟨front, last, hlabels⟩ : ∃ front last, name.labels = front ++ [last] :=
    ⟨_, _, (List.dropLast_append_getLast h).symm⟩
  have hvalid : ∀ l ∈ front ++ [last], ValidLabel l := hlabels ▸ name.labels_ok
  have hlast := hvalid last (List.mem_append_right _ List.mem_cons_self)
  obtain ⟨body, octet, hbody⟩ : ∃ body octet, last = body ++ [octet] :=
    ⟨_, _, (List.dropLast_append_getLast (List.ne_nil_of_length_pos hlast.1)).symm⟩
  have htext : ¬ (relativeText name = [] ∨ relativeText name = ['.']) := by
    rw [relativeText_octet (hbody ▸ hlabels)]
    rintro (hnil | hdot)
    · exact List.append_ne_nil_of_right_ne_nil _ escapeOctet_ne_nil hnil
    · exact append_escapeOctet_ne (by decide) _ _ hdot
  have hlen := name.length_ok
  rw [encodedLen, hlabels, labelsOctets_append, List.length_append, labelsOctets, labelsOctets,
    List.append_nil, length_labelOctets] at hlen
  have hwalk : presentationWalk 0 [] none (toBytes (relativeText name)) = .ok name.labels := by
    rw [relativeText_eq hlabels, toBytes_append,
      presentationWalk_labels front [] 0 _ (fun l hl => hvalid l (List.mem_append_left _ hl)) (by omega)]
    cases last with
    | nil => exact absurd hlast (by decide)
    | cons first octets =>
      have hmax : (first :: octets).length ≤ MAX_LABEL_LEN := hlast.2
      rw [List.length_cons] at hlen hmax
      rw [escapeLabel, List.flatMap_cons, toBytes_append, presentationWalk_octet, pushLabel_none (by omega)]
      show presentationWalk _ ([] ++ front) (some [first]) (toBytes (escapeLabel octets)) = _
      rw [presentationWalk_last octets [first] _ (by omega) (by rw [List.length_singleton]; omega), hlabels]
      rfl
  rw [fromPresentation, if_neg htext, hwalk]
  exact Name.ofLabels_labels name

/-! ## Against an origin -/

/-- A name's text is read by its label structure: with the root's dot it is that name, without it
that name's labels in front of the origin's, or an error where these are too long. -/
def ReadsByLabels (name origin : Name) : Prop :=
  absolutized (toPresentation name) origin = .ok name ∧
    (encodedLen (name.labels ++ origin.labels) ≤ MAX_NAME_LEN →
      ∃ joined, absolutized (relativeText name) origin = .ok joined ∧
        joined.labels = name.labels ++ origin.labels) ∧
    (MAX_NAME_LEN < encodedLen (name.labels ++ origin.labels) →
      ∃ e, absolutized (relativeText name) origin = .error e)

theorem absolutized_relativeText {front : List Octets} {body : Octets} {octet : UInt8}
    (h : name.labels = front ++ [body ++ [octet]]) (origin : Name) :
    absolutized (relativeText name) origin =
      if octet = 46 then .ok name
      else checkNameLen (name.wire.length - 1 + origin.wire.length) >>= fun _ =>
        Name.ofLabels (name.labels ++ origin.labels) := by
  have hne : name.labels ≠ [] := by simp [h]
  have hat : ¬ (relativeText name = [] ∨ relativeText name = ['@']) := by
    rw [relativeText_octet h]
    rintro (hnil | hdot)
    · exact List.append_ne_nil_of_right_ne_nil _ escapeOctet_ne_nil hnil
    · exact append_escapeOctet_ne (by decide) _ _ hdot
  rw [absolutized, trim_relativeText h, if_neg hat, fromPresentation_relative hne]
  show (if (relativeText name).getLast? = some '.' then Except.ok name else _) = _
  by_cases hoctet : octet = 46
  · rw [if_pos ((getLast?_relativeText h).mpr hoctet), if_pos hoctet]
  · rw [if_neg fun hdot => hoctet ((getLast?_relativeText h).mp hdot), if_neg hoctet]

/-- **When a name's text is read by its label structure**: its last label does not end in a dot, or
the origin adds no labels. -/
theorem readsByLabels_iff {name : Name} (hne : name.labels ≠ []) (origin : Name) :
    ReadsByLabels name origin ↔
      (∀ last, name.labels.getLast? = some last → last.getLast? ≠ some 46) ∨ origin.labels = [] := by
  obtain ⟨front, last, hlabels⟩ : ∃ front last, name.labels = front ++ [last] :=
    ⟨_, _, (List.dropLast_append_getLast hne).symm⟩
  have hlast := name.labels_ok last (hlabels ▸ List.mem_append_right _ List.mem_cons_self)
  obtain ⟨body, octet, rfl⟩ : ∃ body octet, last = body ++ [octet] :=
    ⟨_, _, (List.dropLast_append_getLast (List.ne_nil_of_length_pos hlast.1)).symm⟩
  have hread := absolutized_relativeText hlabels origin
  have hends : (∀ last, name.labels.getLast? = some last → last.getLast? ≠ some 46) ↔ octet ≠ 46 := by
    rw [hlabels, List.getLast?_concat]
    refine ⟨fun h hoctet => h _ rfl (by rw [List.getLast?_concat, hoctet]), fun h last hlast => ?_⟩
    cases hlast
    rw [List.getLast?_concat]
    exact fun heq => h (Option.some.inj heq)
  have hjoined : name.wire.length - 1 + origin.wire.length = encodedLen (name.labels ++ origin.labels) := by grind [Name.length_wire, encodedLen, labelsOctets_append]
  rw [hends]
  constructor
  · rintro ⟨-, hfits, hlong⟩
    by_contra hbad
    obtain ⟨hoctet, horigin⟩ := not_or.mp hbad
    rw [hread, if_pos (not_not.mp hoctet)] at hfits hlong
    rcases Nat.lt_or_ge MAX_NAME_LEN (encodedLen (name.labels ++ origin.labels)) with hlt | hge
    · obtain ⟨e, he⟩ := hlong hlt
      cases he
    · obtain ⟨joined, hok, hsame⟩ := hfits hge
      cases hok
      exact horigin (List.append_right_eq_self.mp hsame.symm)
  · intro hcond
    refine ⟨absolutized_toPresentation name origin, fun hfits => ?_, fun hlong => ?_⟩
    · by_cases hoctet : octet = 46
      · have horigin := hcond.resolve_left (not_not.mpr hoctet)
        refine ⟨name, ?_, by rw [horigin, List.append_nil]⟩
        rw [hread, if_pos hoctet]
      · have hvalid : ∀ l ∈ name.labels ++ origin.labels, ValidLabel l := fun l hl =>
          (List.mem_append.mp hl).elim (name.labels_ok l) (origin.labels_ok l)
        refine ⟨⟨name.labels ++ origin.labels, hvalid, hfits⟩, ?_, rfl⟩
        rw [hread, if_neg hoctet, hjoined, checkNameLen, if_neg (by omega)]
        exact Name.ofLabels_labels ⟨name.labels ++ origin.labels, hvalid, hfits⟩
    · have hoctet : octet ≠ 46 := by
        refine hcond.resolve_right fun horigin => ?_
        rw [horigin, List.append_nil] at hlong
        exact absurd name.length_ok (by omega)
      refine ⟨.tooLong "a domain name" MAX_NAME_LEN (encodedLen (name.labels ++ origin.labels)), ?_⟩
      rw [hread, if_neg hoctet, hjoined, checkNameLen, if_pos hlong]
      rfl

theorem dottedLabel_ok : ∀ l ∈ ([[97, 46]] : List Octets), ValidLabel l := by decide

theorem dottedLabel_short : encodedLen [[97, 46]] ≤ MAX_NAME_LEN := by decide

def dottedLabel : Name := ⟨[[97, 46]], dottedLabel_ok, dottedLabel_short⟩

theorem plainLabel_ok : ∀ l ∈ ([[98]] : List Octets), ValidLabel l := by decide

theorem plainLabel_short : encodedLen [[98]] ≤ MAX_NAME_LEN := by decide

def plainLabel : Name := ⟨[[98]], plainLabel_ok, plainLabel_short⟩

theorem readsByLabels_plain : ReadsByLabels plainLabel dottedLabel := by
  refine (readsByLabels_iff (List.cons_ne_nil _ _) dottedLabel).mpr (.inl fun last hlast => ?_)
  cases hlast
  decide

/-- **An escaped dot is taken for the root's**: `a\.` below `b.` is read as `a\..`. -/
theorem escapedDot_absolute :
    ¬ ∀ name origin : Name, name.labels ≠ [] → ReadsByLabels name origin := by
  intro h
  have hlabels : dottedLabel.labels = [] ++ [[97] ++ [46]] := rfl
  obtain ⟨joined, hok, hsame⟩ := (h dottedLabel plainLabel (List.cons_ne_nil _ _)).2.1 (by decide)
  rw [absolutized_relativeText hlabels, if_pos rfl] at hok
  cases hok
  exact absurd hsame (by decide)

end Rdns.Present
