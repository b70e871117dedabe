import Rdns.Dnssec.SignedOctets
import Rdns.Dnssec.Nsec3Proofs

/-!
# Rdns — One RRset, one set of signed octets

RFC 4034 §6.2 has the names inside RDATA down-cased before an RRset is signed, for a list of
types. `canonical_rdata` of `rdns/src/dnssec.rs` goes through that list and leaves out DNAME,
which is decoded here as the others are. So a signature is over the RRset however it is spelled,
unless the RRset holds a DNAME whose target is spelled in another case.
-/

namespace Rdns.Dnssec

open Rdns.Lib Rdns.Core Rdns.Present RecordTypes

/-! ## Respelling -/

/-- The types of RFC 4034 §6.2 with names inside that are decoded here. -/
def NAMED_TYPES : List Rtype :=
  [NS, CNAME, PTR, SOA, MX, RRSIG,
    DNAME]

def Spells (x : RecordData) (parsed : ParsedRecord) (rest : Octets) : Prop :=
  x.parse = .ok parsed ∧ ∃ octets, parsed.encodeRdata = .ok octets ∧ x.rdata = octets ++ rest

def Respells (x y : RecordData) : Prop :=
  x = y ∨ (x.rtype = y.rtype ∧ x.rtype ∈ NAMED_TYPES ∧
    ∃ p q rest, Spells x p rest ∧ Spells y q rest ∧ p.folded = q.folded)

def SameRrset (xs ys : List RecordData) : Prop :=
  (∀ x ∈ xs, ∃ y ∈ ys, Respells x y) ∧ ∀ y ∈ ys, ∃ x ∈ xs, Respells x y

theorem not_decoded_of_named {rtype : Rtype} (h : rtype ∈ NAMED_TYPES) : rtype ∈ decodedTypes := by
  revert rtype
  decide

theorem holdsNames_of_named {rtype : Rtype} (h : rtype ∈ NAMED_TYPES) (hdname : rtype ≠ DNAME) :
    holdsNames rtype = true := by
  revert rtype
  decide

variable {xs ys : List RecordData} {x y : RecordData} {rrsig : Rrsig}

theorem canonicalRdata_of_parse {parsed : ParsedRecord} (hparse : x.parse = .ok parsed)
    (hknown : parsed.isUnknown = false) (hnames : holdsNames x.rtype = true) :
    canonicalRdata x = RecordData.fromParsed parsed.folded >>= fun data => .ok data.rdata := by
  have hrtype : holdsNames parsed.rtype = true := by
    rcases ParsedRecord.decode_cases hparse with ⟨rfl, -⟩ | ⟨-, hrtype, -⟩
    · exact hnames
    · rwa [hrtype]
  rw [canonicalRdata, hnames, hparse]
  cases parsed with
  | ns | cname | ptr | mx | soa | rrsig | nsec => rfl
  | unknown => cases hknown
  | svcb rtype => cases rtype <;> cases hrtype
  | dnskey rtype => cases rtype <;> cases hrtype
  | ds rtype => cases rtype <;> cases hrtype
  | a | dname | txt | aaaa | nsec3 => cases hrtype

theorem isUnknown_folded (parsed : ParsedRecord) : parsed.folded.isUnknown = parsed.isUnknown := by
  cases parsed <;> rfl

theorem isUnknown_iff {parsed : ParsedRecord} (hrtype : x.rtype ∈ decodedTypes)
    (hparse : x.parse = .ok parsed) : parsed.isUnknown = true ↔ x.rdata = [] := by
  rcases ParsedRecord.decode_cases hparse with ⟨rfl, hempty | hundecoded⟩ | ⟨hne, -, hknown⟩
  · exact ⟨fun _ => hempty, fun _ => rfl⟩
  · exact absurd hrtype hundecoded
  · exact ⟨fun h => absurd (hknown.symm.trans h) (by decide), fun h => absurd h hne⟩

/-- **The canonical form does not depend on the case** of the names inside, but for DNAME. -/
theorem canonicalRdata_congr (h : Respells x y) (hdname : x.rtype ≠ DNAME) :
    canonicalRdata x = canonicalRdata y := by
  rcases h with rfl | ⟨hrtype, hnamed, p, q, rest, ⟨hp, -⟩, ⟨hq, -⟩, hfolded⟩
  · rfl
  · have hunknown : p.isUnknown = q.isUnknown := by
      rw [← isUnknown_folded, hfolded, isUnknown_folded]
    have hnames := holdsNames_of_named hnamed hdname
    by_cases hempty : p.isUnknown = true
    · have hx := (isUnknown_iff (not_decoded_of_named hnamed) hp).mp hempty
      have hy := (isUnknown_iff (not_decoded_of_named (hrtype ▸ hnamed)) hq).mp (hunknown ▸ hempty)
      obtain ⟨_, _⟩ := x
      obtain ⟨_, _⟩ := y
      exact congrArg canonicalRdata (congrArg₂ RecordData.mk hrtype (hx.trans hy.symm))
    · rw [Bool.not_eq_true] at hempty
      rw [canonicalRdata_of_parse hp hempty hnames, canonicalRdata_of_parse hq (hunknown ▸ hempty) (hrtype ▸ hnames),
        hfolded]

/-! ## The signed octets of an RRset -/

def HasForm (xs : List RecordData) (form : Octets) : Prop := ∃ x ∈ xs, canonicalRdata x = .ok form

def Encodes (xs : List RecordData) : Prop := ∀ x ∈ xs, ∃ form, canonicalRdata x = .ok form ∧ form.length ≤ 65535

theorem mem_canonicalRdatas {canonical : List Octets} (h : canonicalRdatas xs = .ok canonical)
    (form : Octets) : form ∈ canonical ↔ HasForm xs form := by
  obtain ⟨forms, hforms, -⟩ := except_bind_eq_ok.mp h
  rw [canonicalRdatas_eq hforms] at h
  rw [← Except.ok.inj h, mem_sortedSet]
  constructor
  · intro hform
    exact mem_of_mapM_ok hforms hform
  · rintro ⟨x, hx, hform⟩
    obtain ⟨form', hmem, hform'⟩ := exists_of_mapM_ok hforms hx
    rw [hform] at hform'
    exact Except.ok.inj hform' ▸ hmem

theorem canonicalRdatas_same {cx cy : List Octets} (hx : canonicalRdatas xs = .ok cx)
    (hy : canonicalRdatas ys = .ok cy) (h : ∀ form, HasForm xs form ↔ HasForm ys form) :
    cx = cy := by
  obtain ⟨formsX, hformsX, -⟩ := except_bind_eq_ok.mp hx
  obtain ⟨formsY, hformsY, -⟩ := except_bind_eq_ok.mp hy
  have hmem : ∀ form, form ∈ cx ↔ form ∈ cy := fun form => by
    rw [mem_canonicalRdatas hx, mem_canonicalRdatas hy, h]
  rw [canonicalRdatas_eq hformsX] at hx
  rw [canonicalRdatas_eq hformsY] at hy
  obtain rfl := Except.ok.inj hx
  obtain rfl := Except.ok.inj hy
  refine sortedSet_eq_of_mem_iff (fun a b => decide_eq_true_iff) fun form => ?_
  simpa only [mem_sortedSet] using hmem form

theorem signedOwnerName_isOk (owner : Name) (labels : UInt8) : ∃ name, signedOwnerName owner labels = .ok name := by
  rw [signedOwnerName]
  split
  · exact ⟨_, rfl⟩
  · rename_i hfewer
    have hcount : (owner.toFolded.suffix labels.toNat).labelCount = labels.toNat :=
      labelCount_suffix (by omega)
    refine prefixed_star_isOk (q := owner.toFolded) (isAtOrUnder_suffix ..) ?_
    rw [← Bool.not_eq_true]
    intro hsame
    have hlength := congrArg List.length (Name.same_iff_foldLabels.mp hsame)
    rw [foldLabels, foldLabels, List.length_map, List.length_map] at hlength
    exact hfewer (le_of_eq (hlength.trans hcount))

theorem signedData_isOk_iff {rrset : Rrset} :
    (∃ data, signedData rrsig rrset = .ok data) ↔ rrset.rdatas ≠ [] ∧ Encodes rrset.rdatas := by
  constructor
  · rintro ⟨data, h⟩
    obtain ⟨hnonempty, signedAt, canonical, records, -, hcanonical, hrecords, -⟩ := of_signedData h
    refine ⟨hnonempty, fun x hx => ?_⟩
    obtain ⟨forms, hforms, -⟩ := except_bind_eq_ok.mp hcanonical
    obtain ⟨form, -, hform⟩ := exists_of_mapM_ok hforms hx
    obtain ⟨record, -, hrecord⟩ :=
      exists_of_mapM_ok hrecords ((mem_canonicalRdatas hcanonical form).mpr ⟨x, hx, hform⟩)
    exact ⟨form, hform, (of_signedRecord hrecord).1⟩
  · rintro ⟨hnonempty, hencodes⟩
    obtain ⟨signedAt, hsignedAt⟩ := signedOwnerName_isOk rrset.owner rrsig.labels
    obtain ⟨forms, hforms⟩ : ∃ forms, rrset.rdatas.mapM canonicalRdata = .ok forms := by
      refine mapM_isOk fun x hx => ?_
      obtain ⟨form, hform, -⟩ := hencodes x hx
      exact ⟨form, hform⟩
    have hcanonical := canonicalRdatas_eq hforms
    obtain ⟨records, hrecords⟩ : ∃ records, (sortedSet (fun a b => a ≤ b) forms).mapM
        (signedRecord rrsig signedAt.wire rrset.cls) = .ok records := by
      refine mapM_isOk fun form hform => ?_
      obtain ⟨x, hx, hxform⟩ := (mem_canonicalRdatas hcanonical form).mp hform
      obtain ⟨form', hform', hfits⟩ := hencodes x hx
      rw [hxform] at hform'
      obtain rfl := Except.ok.inj hform'
      exact ⟨_, if_neg (by omega)⟩
    rw [signedData, if_neg (by rwa [List.isEmpty_iff])]
    exact bind_isOk (mapError_eq_ok.mpr hsignedAt)
      (bind_isOk (mapError_eq_ok.mpr hcanonical) (bind_isOk hrecords ⟨_, rfl⟩))

/-- **RRsets of the same canonical forms have the same signed octets**, in any case of the owner. -/
theorem signedData_same {a b : Rrset} {dataA dataB : Octets} (howner : a.owner.same b.owner = true)
    (hcls : a.cls = b.cls) (hforms : ∀ form, HasForm a.rdatas form ↔ HasForm b.rdatas form)
    (ha : signedData rrsig a = .ok dataA) (hb : signedData rrsig b = .ok dataB) :
    dataA = dataB := by
  obtain ⟨-, signedAt, canonical, records, hsignedAt, hcanonical, hrecords, rfl⟩ := of_signedData ha
  obtain ⟨-, signedAt', canonical', records', hsignedAt', hcanonical', hrecords', rfl⟩ := of_signedData hb
  have hname : signedOwnerName a.owner rrsig.labels = signedOwnerName b.owner rrsig.labels := by
    rw [signedOwnerName, signedOwnerName, Name.same_iff.mp howner]
  obtain rfl := Except.ok.inj (hsignedAt.symm.trans (hname.trans hsignedAt'))
  obtain rfl := canonicalRdatas_same hcanonical hcanonical' hforms
  rw [hcls] at hrecords
  obtain rfl := Except.ok.inj (hrecords.symm.trans hrecords')
  rfl

/-! ## What is signed depends only on the RRset -/

def DependsOnTheRrset (rrsig : Rrsig) (cls : Core.Class) (owner owner' : Name) (xs ys : List RecordData) : Prop :=
  (owner.same owner' = true → SameRrset xs ys →
    (signedData rrsig ⟨owner, rrsig.typeCovered, cls, xs⟩).toOption =
      (signedData rrsig ⟨owner', rrsig.typeCovered, cls, ys⟩).toOption) ∧
  ∀ data, signedData rrsig ⟨owner, rrsig.typeCovered, cls, xs⟩ = .ok data →
    signedData rrsig ⟨owner', rrsig.typeCovered, cls, ys⟩ = .ok data → ∀ form, HasForm xs form ↔ HasForm ys form

def RespelledDname (xs ys : List RecordData) : Prop :=
  ∃ x ∈ xs, x.rtype = DNAME ∧ ¬ HasForm ys x.rdata

theorem Respells.symm (h : Respells x y) : Respells y x := by
  rcases h with rfl | ⟨hrtype, hnamed, p, q, rest, hp, hq, hfolded⟩
  · exact .inl rfl
  · exact .inr ⟨hrtype.symm, hrtype ▸ hnamed, q, p, rest, hq, hp, hfolded.symm⟩

theorem SameRrset.symm (h : SameRrset xs ys) : SameRrset ys xs := by
  refine ⟨fun y hy => ?_, fun x hx => ?_⟩
  · obtain ⟨x, hx, hxy⟩ := h.2 y hy
    exact ⟨x, hx, hxy.symm⟩
  · obtain ⟨y, hy, hxy⟩ := h.1 x hx
    exact ⟨y, hy, hxy.symm⟩

theorem canonicalRdata_dname (h : x.rtype = DNAME) :
    canonicalRdata x = .ok x.rdata := by
  rw [canonicalRdata, h]
  rfl

theorem SameRrset.forms (h : SameRrset xs ys) (hdname : ¬ RespelledDname xs ys) {form : Octets}
    (hform : HasForm xs form) : HasForm ys form := by
  obtain ⟨x, hx, hxform⟩ := hform
  by_cases hrtype : x.rtype = DNAME
  · rw [canonicalRdata_dname hrtype] at hxform
    obtain rfl := Except.ok.inj hxform
    exact not_not.mp fun hnone => hdname ⟨x, hx, hrtype, hnone⟩
  · obtain ⟨y, hy, hxy⟩ := h.1 x hx
    exact ⟨y, hy, canonicalRdata_congr hxy hrtype ▸ hxform⟩

theorem length_wire_folded {name other : Name} (h : name.toFolded = other.toFolded) :
    name.wire.length = other.wire.length := by
  have hlabels := congrArg encodedLen (Name.same_iff_foldLabels.mp (Name.same_iff.mpr h))
  rw [encodedLen_foldLabels, encodedLen_foldLabels] at hlabels
  rw [Name.length_wire, Name.length_wire, hlabels]

theorem Respells.length (h : Respells x y) (hrtype : x.rtype = DNAME) :
    x.rdata.length = y.rdata.length := by
  rcases h with rfl | ⟨hsame, -, p, q, rest, ⟨hp, a, ha, hx⟩, ⟨hq, b, hb, hy⟩, hfolded⟩
  · rfl
  · rw [hx, hy, List.length_append, List.length_append]
    rcases ParsedRecord.decode_cases hp with ⟨rfl, -⟩ | ⟨-, hptype, hknown⟩
    · have hunknown : q = .unknown x.rtype := by
        cases q <;> first | exact hfolded.symm | cases hfolded
      rw [hunknown] at hb
      rw [Except.ok.inj (ha.symm.trans hb)]
    · rw [hrtype] at hptype
      cases p with
      | dname name =>
        cases q with
        | dname other =>
          cases ha
          cases hb
          rw [length_wire_folded (ParsedRecord.dname.inj hfolded)]
        | _ => cases hfolded
      | unknown => cases hknown
      | svcb rtype => cases rtype <;> cases hptype
      | dnskey rtype => cases rtype <;> cases hptype
      | ds rtype => cases rtype <;> cases hptype
      | _ => cases hptype

theorem SameRrset.encodes (h : SameRrset xs ys) (hencodes : Encodes xs) : Encodes ys := by
  intro y hy
  obtain ⟨x, hx, hxy⟩ := h.2 y hy
  obtain ⟨form, hform, hfits⟩ := hencodes x hx
  by_cases hrtype : x.rtype = DNAME
  · rw [canonicalRdata_dname hrtype] at hform
    obtain rfl := Except.ok.inj hform
    have hytype : y.rtype = DNAME := by
      rcases hxy with rfl | ⟨hsame, -⟩
      · exact hrtype
      · exact hsame.symm.trans hrtype
    exact ⟨y.rdata, canonicalRdata_dname hytype, hxy.length hrtype ▸ hfits⟩
  · exact ⟨form, canonicalRdata_congr hxy hrtype ▸ hform, hfits⟩

theorem forms_of_signedData {a b : Rrset} {data : Octets} (ha : signedData rrsig a = .ok data)
    (hb : signedData rrsig b = .ok data) (form : Octets) :
    HasForm a.rdatas form ↔ HasForm b.rdatas form := by
  obtain ⟨-, -, -, -, canonical, -, -, hcanonical, hcanonical'⟩ := signedData_injective ha hb
  rw [← mem_canonicalRdatas hcanonical, ← mem_canonicalRdatas hcanonical']

theorem SameRrset.ne_nil (h : SameRrset xs ys) (hxs : xs ≠ []) : ys ≠ [] := by
  obtain ⟨x, hx⟩ := List.exists_mem_of_ne_nil _ hxs
  obtain ⟨y, hy, -⟩ := h.1 x hx
  exact List.ne_nil_of_mem hy

theorem SameRrset.signs (h : SameRrset xs ys) {cls : Core.Class} {owner : Name} (owner' : Name)
    (hsigns : ∃ data, signedData rrsig ⟨owner, rrsig.typeCovered, cls, xs⟩ = .ok data) :
    ∃ data, signedData rrsig ⟨owner', rrsig.typeCovered, cls, ys⟩ = .ok data := by
  obtain ⟨hnonempty, hencodes⟩ := signedData_isOk_iff.mp hsigns
  exact signedData_isOk_iff.mpr ⟨h.ne_nil hnonempty, h.encodes hencodes⟩

/-- **What is signed depends only on the RRset exactly when no DNAME is respelled** in it, of RRsets
that can be signed at all. -/
theorem dependsOnTheRrset_iff (rrsig : Rrsig) (cls : Core.Class) (owner owner' : Name) (xs ys : List RecordData) :
    DependsOnTheRrset rrsig cls owner owner' xs ys ↔
      (owner.same owner' = true → SameRrset xs ys → Encodes xs → ¬ RespelledDname xs ys ∧ ¬ RespelledDname ys xs) := by
  constructor
  · rintro ⟨hsame, -⟩ howner hrrset hencodes
    by_cases hempty : xs = []
    · have hys : ys = [] := by
        by_contra hys
        exact hrrset.symm.ne_nil hys hempty
      rw [hempty, hys]
      constructor <;> rintro ⟨_, hmem, -⟩ <;> cases hmem
    · obtain ⟨data, hdata⟩ : ∃ data, signedData rrsig ⟨owner, rrsig.typeCovered, cls, xs⟩ = .ok data :=
        signedData_isOk_iff.mpr ⟨hempty, hencodes⟩
      have hsome := hsame howner hrrset
      rw [hdata] at hsome
      have hdata' : signedData rrsig ⟨owner', rrsig.typeCovered, cls, ys⟩ = .ok data := by
        cases h : signedData rrsig ⟨owner', rrsig.typeCovered, cls, ys⟩ with
        | error e =>
          rw [h] at hsome
          cases hsome
        | ok data' =>
          rw [h] at hsome
          exact congrArg Except.ok (Option.some.inj hsome).symm
      have hforms := forms_of_signedData hdata hdata'
      constructor
      · rintro ⟨x, hx, hrtype, hnone⟩
        exact hnone ((hforms _).mp ⟨x, hx, canonicalRdata_dname hrtype⟩)
      · rintro ⟨y, hy, hrtype, hnone⟩
        exact hnone ((hforms _).mpr ⟨y, hy, canonicalRdata_dname hrtype⟩)
  · intro hrespelled
    refine ⟨fun howner hrrset => ?_, fun data ha hb => forms_of_signedData ha hb⟩
    cases ha : signedData rrsig ⟨owner, rrsig.typeCovered, cls, xs⟩ with
    | error e =>
      cases hb : signedData rrsig ⟨owner', rrsig.typeCovered, cls, ys⟩ with
      | error e' => rfl
      | ok data' =>
        obtain ⟨data, hdata⟩ := hrrset.symm.signs owner ⟨data', hb⟩
        rw [ha] at hdata
        cases hdata
    | ok data =>
      obtain ⟨hxs, hys⟩ := hrespelled howner hrrset (signedData_isOk_iff.mp ⟨data, ha⟩).2
      obtain ⟨data', hb⟩ := hrrset.signs owner' ⟨data, ha⟩
      have hforms : ∀ form, HasForm xs form ↔ HasForm ys form := fun form =>
        ⟨fun h => hrrset.forms hxs h, fun h => hrrset.symm.forms hys h⟩
      have heq : data = data' := signedData_same (a := ⟨owner, rrsig.typeCovered, cls, xs⟩)
        (b := ⟨owner', rrsig.typeCovered, cls, ys⟩) howner rfl hforms ha hb
      rw [hb, heq]

def lowerTarget : Name := ⟨[[100]], by decide, by decide⟩
def upperTarget : Name := ⟨[[68]], by decide, by decide⟩

def dnameRrsig : Rrsig := ⟨Name.root, DNAME, 13, 0, 300, 0, 0, 0, Name.root, []⟩

theorem respelledDname_signed_apart :
    SameRrset [⟨DNAME, lowerTarget.wire⟩] [⟨DNAME, upperTarget.wire⟩] ∧
    ¬ DependsOnTheRrset dnameRrsig .IN Name.root Name.root [⟨DNAME, lowerTarget.wire⟩]
      [⟨DNAME, upperTarget.wire⟩] := by
  have hrespells : Respells ⟨DNAME, lowerTarget.wire⟩ ⟨DNAME, upperTarget.wire⟩ :=
    .inr ⟨rfl, by decide, .dname lowerTarget, .dname upperTarget, [], ⟨by decide +kernel, _, rfl, by decide⟩,
      ⟨by decide +kernel, _, rfl, by decide⟩, by decide⟩
  have hsame : SameRrset [⟨DNAME, lowerTarget.wire⟩] [⟨DNAME, upperTarget.wire⟩] :=
    ⟨fun x hx => ⟨_, List.mem_cons_self, List.mem_singleton.mp hx ▸ hrespells⟩,
      fun y hy => ⟨_, List.mem_cons_self, List.mem_singleton.mp hy ▸ hrespells⟩⟩
  refine ⟨hsame, fun h => ?_⟩
  have hoctets := h.1 (by decide) hsame
  revert hoctets
  decide +kernel

end Rdns.Dnssec
