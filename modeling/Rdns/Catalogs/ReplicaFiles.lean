import Rdns.Catalogs.Consumer
import Rdns.Present.RelativeNames
import Rdns.Server.ServedFiles

/-!
# Rdns — A replicated zone's file

`zone_file_path` of `rdns/src/secondary.rs` names the file of a replicated zone after the zone, in
the text of a zone file, and the readers of a zone directory (`ZoneSource::file_for` and
`enumerate_zone_files` of `rdnsd/src/zones.rs`) take the zone back from the name of the file. That
text escapes what a zone file reads as syntax. It does not escape what a path reads as syntax: the
`/`. And the file of the root is all extension, so it has none.
-/

namespace Rdns.Catalogs

open Rdns.Lib Rdns.Core Rdns.Present Rdns.Zones Rdns.Server

/-! ## Paths as text -/

def FilePath.text (path : FilePath) : Text :=
  (if path.fromRoot then ['/'] else []) ++ ['/'].intercalate path.components

def IsEntry (name : Text) : Prop := '/' ∉ name ∧ name ≠ [] ∧ name ≠ ['.'] ∧ name ≠ ['.', '.']

def FilePath.entry (dir : FilePath) (name : Text) : FilePath := ⟨dir.fromRoot, dir.components ++ [name]⟩

variable {zone : Name} {name : Text}

theorem splitOn_entry (h : '/' ∉ name) (before : Text) :
    (before ++ '/' :: name).splitOn '/' = before.splitOn '/' ++ [name] := by
  induction before with
  | nil => rw [List.nil_append, List.splitOn_cons_eq_if_modifyHead, List.splitOn_eq_singleton h]; rfl
  | cons c before ih =>
    rw [List.cons_append, List.splitOn_cons_eq_if_modifyHead, List.splitOn_cons_eq_if_modifyHead, ih]
    split
    · rfl
    · cases hparts : before.splitOn '/' with
      | nil => exact absurd hparts (List.splitOn_ne_nil _ _)
      | cons part parts => rfl

theorem text_entry (dir : FilePath) (name : Text) :
    (dir.entry name).text = name ∨ ∃ before, (dir.entry name).text = before ++ '/' :: name := by
  have hjoined : ∀ parts : List Text, ['/'].intercalate (parts ++ [name]) = name ∨
      ∃ before, ['/'].intercalate (parts ++ [name]) = before ++ '/' :: name := by
    intro parts
    induction parts with
    | nil => exact .inl List.intercalate_singleton
    | cons part parts ih =>
      rw [List.cons_append, List.intercalate_cons_of_ne_nil (by simp)]
      rcases ih with ih | ⟨before, ih⟩
      · exact .inr ⟨part, by rw [ih, List.append_assoc]; rfl⟩
      · exact .inr ⟨part ++ '/' :: before, by rw [ih]; simp only [List.append_assoc, List.cons_append, List.nil_append]⟩
  rw [FilePath.text, FilePath.entry]
  dsimp only
  rcases hjoined dir.components with h | ⟨before, h⟩
  · rw [h]
    split
    · exact .inr ⟨[], rfl⟩
    · exact .inl rfl
  · exact .inr ⟨_ ++ before, by rw [h, List.append_assoc]⟩

/-- **The file name of an entry of a directory is the entry.** -/
theorem fileName_text (dir : FilePath) (h : IsEntry name) :
    fileName (String.ofList (dir.entry name).text) = some name := by
  obtain ⟨hslash, hnil, hdot, hdots⟩ := h
  have hkeep : ([name].filter fun part => decide (part ≠ [] ∧ part ≠ ['.'])) = [name] := by
    rw [List.filter_cons_of_pos (by simp [hnil, hdot]), List.filter_nil]
  have hlast : ∀ text : Text, text = name ∨ (∃ before, text = before ++ '/' :: name) →
      ((text.splitOn '/').filter fun part => decide (part ≠ [] ∧ part ≠ ['.'])).getLast? = some name := by
    rintro text (rfl | ⟨before, rfl⟩)
    · rw [List.splitOn_eq_singleton hslash, hkeep]
      rfl
    · rw [splitOn_entry hslash, List.filter_append, hkeep, List.getLast?_concat]
  rw [fileName, String.toList_ofList, hlast _ (text_entry dir name)]
  exact if_neg hdots

/-! ## The readers of a directory -/

def InDirectory (dir path : FilePath) : Prop := ∃ name, IsEntry name ∧ path = dir.entry name

def Recognised (path : FilePath) (zone : Name) : Prop :=
  hasZoneExtension (String.ofList path.text) = true ∧
    fromPresentation (originFromPath (String.ofList path.text)) = .ok zone ∧
    eqIgnoreCase (absolute (originFromPath (String.ofList path.text))) (absolute (toPresentation zone)) = true

def FoundAgain (dir : FilePath) (zone : Name) : Prop :=
  InDirectory dir (zoneFilePath dir zone) ∧ Recognised (zoneFilePath dir zone) zone

def HaveOwnFiles (dir : FilePath) (a b : Name) : Prop :=
  FoundAgain dir a ∧ FoundAgain dir b ∧ (a.same b = false → zoneFilePath dir a ≠ zoneFilePath dir b)

def FitsAFileName (zone : Name) : Prop := zone.labels ≠ [] ∧ ∀ label ∈ zone.labels, 47 ∉ label

/-! ## The text of a name -/

theorem slash_mem_escapeOctet {octet : UInt8} : '/' ∈ escapeOctet isNameSyntax 0x21 octet ↔ octet = 47 := by
  have hchar : ∀ o : UInt8, charOf o = '/' → o = 47 := by
    intro o h
    have hnat := congrArg Char.toNat h
    rw [toNat_charOf] at hnat
    exact UInt8.toNat_inj.mp (show o.toNat = (47 : UInt8).toNat from hnat)
  constructor
  · intro h
    rw [escapeOctet] at h
    split at h
    · grind
    · split at h
      · exact hchar octet (List.mem_singleton.mp h).symm
      · -- the digits are above the `/`
        obtain ⟨h1, h2, h3⟩ := toNat_threeDigits octet
        have hdigit : ∀ o : UInt8, 48 ≤ o.toNat → charOf o ≠ '/' := fun o hlow heq => by
          rw [hchar o heq] at hlow
          exact absurd hlow (by decide)
        rw [threeDigits] at h
        simp only [List.mem_cons, List.not_mem_nil, or_false] at h
        rcases h with h | h | h | h
        · exact absurd h (by decide)
        · exact absurd h.symm (hdigit _ (by omega))
        · exact absurd h.symm (hdigit _ (by omega))
        · exact absurd h.symm (hdigit _ (by omega))
  · rintro rfl
    decide

theorem slash_mem_toPresentation :
    '/' ∈ toPresentation zone ↔ ∃ label ∈ zone.labels, 47 ∈ label := by
  rw [toPresentation_eq]
  split
  · rename_i hroot
    rw [hroot]
    simp
  · simp [labelsText, escapeLabel, slash_mem_escapeOctet]

theorem absolute_toPresentation (zone : Name) : absolute (toPresentation zone) = toPresentation zone := by
  rw [absolute, if_pos (endsWithRoot_toPresentation zone)]

theorem relativeText_append (zone : Name) : relativeText zone ++ ['.'] = toPresentation zone := by
  have hlast := getLast?_toPresentation zone
  have hne := toPresentation_ne_nil zone
  rw [List.getLast?_eq_some_getLast hne] at hlast
  rw [relativeText, ← Option.some.inj hlast, List.dropLast_append_getLast hne]

theorem origin_cases (hroot : zone.labels ≠ []) :
    let origin := relativeText zone
    let read := if origin.getLast? = some '.' then origin else origin ++ ['.']
    fromPresentation read = .ok zone ∧ absolute read = toPresentation zone := by
  dsimp only
  split
  · rename_i hdot
    refine ⟨fromPresentation_relative hroot, ?_⟩
    -- the last dot is escaped, so the root's is put back
    obtain ⟨front, last, hlabels⟩ : ∃ front last, zone.labels = front ++ [last] :=
      ⟨_, _, (List.dropLast_append_getLast hroot).symm⟩
    have hvalid : ValidLabel last := zone.labels_ok last (hlabels ▸ List.mem_append_right _ List.mem_cons_self)
    obtain ⟨body, octet, rfl⟩ : ∃ body octet, last = body ++ [octet] :=
      ⟨_, _, (List.dropLast_append_getLast (List.ne_nil_of_length_pos hvalid.1)).symm⟩
    obtain rfl := (getLast?_relativeText hlabels).mp hdot
    have hpairs := trailing_backslashes ((bare_labelsText front).append (bare_escapeLabel body))
    have hrelative : endsWithRoot (relativeText zone) = false := by
      have hescape : escapeOctet isNameSyntax 0x21 46 = ['\\', '.'] := by decide
      rw [relativeText_octet hlabels, hescape, endsWithRoot, List.reverse_append]
      show (((List.takeWhile _ ('\\' :: _)).length % 2 == 0) : Bool) = false
      rw [List.takeWhile_cons_of_pos (by decide), List.length_cons, beq_eq_false_iff_ne]
      show (((labelsText front ++ escapeLabel body).reverse.takeWhile (· == '\\')).length + 1) % 2 ≠ 0
      omega
    rw [absolute, hrelative, if_neg (by decide), relativeText_append]
  · rw [relativeText_append, absolute_toPresentation]
    exact ⟨fromPresentation_toPresentation zone, rfl⟩

/-! ## Where the file goes -/

def zoneFileName (zone : Name) : Text := toPresentation zone ++ "zone".toList

theorem isEntry_append {text suffix : Text} (htext : '/' ∉ text) (hsuffix : '/' ∉ suffix) (hlength : 2 < suffix.length) :
    IsEntry (text ++ suffix) := by
  have hlong : 2 < (text ++ suffix).length := by
    rw [List.length_append]
    omega
  refine ⟨fun hmem => ?_, fun heq => ?_, fun heq => ?_, fun heq => ?_⟩
  · rcases List.mem_append.mp hmem with hmem | hmem
    · exact htext hmem
    · exact hsuffix hmem
  all_goals
    rw [heq] at hlong
    exact absurd hlong (by decide)

theorem isEntry_zoneFileName (h : '/' ∉ toPresentation zone) : IsEntry (zoneFileName zone) :=
  isEntry_append h (by decide) (by decide)

theorem join_entry (dir : FilePath) (h : IsEntry name) : dir.join name = dir.entry name := by
  obtain ⟨hslash, hnil, hdot, -⟩ := h
  have hhead : name.head? ≠ some '/' := fun hhead => hslash (List.mem_of_mem_head? hhead)
  have hpath : FilePath.ofText name = ⟨false, [name]⟩ := by grind [FilePath.ofText, List.splitOn_eq_singleton]
  rw [FilePath.join, hpath]
  rfl

theorem zoneFilePath_eq (dir : FilePath) (h : '/' ∉ toPresentation zone) :
    zoneFilePath dir zone = dir.entry (zoneFileName zone) := by
  rw [zoneFilePath, absolute_toPresentation]
  exact join_entry dir (isEntry_zoneFileName h)

theorem zoneFileName_relative (zone : Name) : zoneFileName zone = relativeText zone ++ ".zone".toList := by
  rw [zoneFileName, ← relativeText_append, List.append_assoc]
  rfl

/-- **A name that fits a file name is found again.** -/
theorem foundAgain_of_fits (dir : FilePath) (h : FitsAFileName zone) : FoundAgain dir zone := by
  obtain ⟨hroot, hlabels⟩ := h
  have hslash : '/' ∉ toPresentation zone := fun hmem => by
    obtain ⟨label, hlabel, hmem⟩ := slash_mem_toPresentation.mp hmem
    exact hlabels label hlabel hmem
  have hentry := isEntry_zoneFileName hslash
  have hname := fileName_text dir hentry
  have hrelative : 0 < (relativeText zone).length := by
    rw [List.length_pos_iff]
    intro hnil
    have hread := (fromPresentation_relative hroot).symm
    rw [hnil, fromPresentation, if_pos (.inl rfl)] at hread
    exact hroot (congrArg Name.labels (Except.ok.inj hread))
  have hdotZone : ".zone".toList.length = 5 := rfl
  have hsuffix : ".zone".toList.isSuffixOf (zoneFileName zone) = true := by simp [zoneFileName_relative]
  have horigin : originFromPath (String.ofList (dir.entry (zoneFileName zone)).text) =
      if (relativeText zone).getLast? = some '.' then relativeText zone else relativeText zone ++ ['.'] := by
    have htake : (zoneFileName zone).take ((zoneFileName zone).length - 5) = relativeText zone := by
      rw [zoneFileName_relative, List.length_append, hdotZone, Nat.add_sub_cancel, List.take_left]
    rw [originFromPath, hname, Option.getD_some, if_pos hsuffix, htake]
  obtain ⟨hread, habsolute⟩ := origin_cases hroot
  refine ⟨⟨_, hentry, zoneFilePath_eq dir hslash⟩, ?_, ?_, ?_⟩
  · rw [zoneFilePath_eq dir hslash, hasZoneExtension, hname]
    show (decide (5 < (zoneFileName zone).length) && _) = true
    rw [hsuffix, Bool.and_true, decide_eq_true_iff, zoneFileName_relative, List.length_append, hdotZone]
    omega
  · rw [zoneFilePath_eq dir hslash, horigin]
    exact hread
  · rw [zoneFilePath_eq dir hslash, horigin, absolute_toPresentation, habsolute, eqIgnoreCase]
    exact beq_self_eq_true _

/-- A letter's case has no `/`. -/
theorem eq_slash_of_toLower {c : Char} (h : c.toLower = '/') : c = '/' := by
  rcases toLower_eq c with heq | ⟨n, heq⟩
  · exact heq ▸ h
  · have hletter : ∀ n : Fin 26, Char.ofNat (97 + n.val) ≠ '/' := by decide
    exact absurd (heq.symm.trans h) (hletter n)

theorem slash_notMem_origin (dir : FilePath) (h : IsEntry name) :
    '/' ∉ absolute (originFromPath (String.ofList (dir.entry name).text)) := by
  have hdotted : ∀ origin : Text, '/' ∉ origin → '/' ∉ origin ++ ['.'] := by
    intro origin horigin hmem
    rcases List.mem_append.mp hmem with hmem | hmem
    · exact horigin hmem
    · exact absurd hmem (by decide)
  have hended : ∀ origin : Text, '/' ∉ origin →
      '/' ∉ (if origin.getLast? = some '.' then origin else origin ++ ['.']) := by
    intro origin horigin
    split
    · exact horigin
    · exact hdotted origin horigin
  have hstripped : '/' ∉ (if ".zone".toList.isSuffixOf name then name.take (name.length - 5) else name) := by
    split
    · exact fun hmem => h.1 (List.take_subset _ _ hmem)
    · exact h.1
  have horigin : '/' ∉ originFromPath (String.ofList (dir.entry name).text) := by
    rw [originFromPath, fileName_text dir h, Option.getD_some]
    exact hended _ hstripped
  rw [absolute]
  split
  · exact horigin
  · exact hdotted _ horigin

/-- **A name that is found again fits a file name.** -/
theorem fits_of_foundAgain {dir : FilePath} (h : FoundAgain dir zone) : FitsAFileName zone := by
  obtain ⟨⟨name, hentry, hpath⟩, hextension, -, hfound⟩ := h
  have hslash : '/' ∉ toPresentation zone := by
    intro hmem
    rw [hpath, absolute_toPresentation, eqIgnoreCase] at hfound
    have hlower : '/' ∈ (toPresentation zone).map Char.toLower := List.mem_map.mpr ⟨'/', hmem, by decide⟩
    rw [← eq_of_beq hfound] at hlower
    obtain ⟨c, hc, hslash⟩ := List.mem_map.mp hlower
    rw [eq_slash_of_toLower hslash] at hc
    exact slash_notMem_origin dir hentry hc
  refine ⟨fun hroot => ?_, fun label hlabel hmem => hslash (slash_mem_toPresentation.mpr ⟨label, hlabel, hmem⟩)⟩
  have hzone : zoneFileName zone = ".zone".toList := by
    rw [zoneFileName, toPresentation_eq, if_pos hroot]
    rfl
  rw [zoneFilePath_eq dir hslash, hasZoneExtension, fileName_text dir (isEntry_zoneFileName hslash), hzone] at hextension
  exact absurd hextension (by decide)

/-- **Zones have files of their own that are found again exactly when** neither is the root and no
label of either holds a `/`. -/
theorem own_file_iff (dir : FilePath) (a b : Name) : HaveOwnFiles dir a b ↔ FitsAFileName a ∧ FitsAFileName b := by
  constructor
  · rintro ⟨ha, hb, -⟩
    exact ⟨fits_of_foundAgain ha, fits_of_foundAgain hb⟩
  · rintro ⟨ha, hb⟩
    refine ⟨foundAgain_of_fits dir ha, foundAgain_of_fits dir hb, fun hne hpath => ?_⟩
    -- the loader reads both zones off the one path
    have hreadA := (foundAgain_of_fits dir ha).2.2.1
    have hreadB := (foundAgain_of_fits dir hb).2.2.1
    rw [hpath, hreadB] at hreadA
    obtain rfl := Except.ok.inj hreadA
    rw [Name.same_iff.mpr rfl] at hne
    cases hne

def slashName : Name := ⟨[[97, 47, 98]], by decide, by decide⟩

theorem file_not_found_again :
    ¬ HaveOwnFiles ⟨true, ["zones".toList]⟩ slashName slashName ∧
      ¬ HaveOwnFiles ⟨true, ["zones".toList]⟩ Name.root Name.root := by
  have hslash : zoneFilePath ⟨true, ["zones".toList]⟩ slashName =
      ⟨true, ["zones".toList, "a".toList, "b.zone".toList]⟩ := by decide +kernel
  have hroot : hasZoneExtension (String.ofList (zoneFilePath ⟨true, ["zones".toList]⟩ Name.root).text) = false := by
    decide +kernel
  constructor
  · rintro ⟨⟨⟨name, -, hpath⟩, -⟩, -⟩
    rw [hslash] at hpath
    exact absurd (congrArg (fun path : FilePath => path.components.length) hpath) (by simp [FilePath.entry])
  · rintro ⟨⟨-, hextension, -⟩, -⟩
    rw [hroot] at hextension
    cases hextension

end Rdns.Catalogs
