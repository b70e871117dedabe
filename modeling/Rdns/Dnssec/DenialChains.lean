import Rdns.Dnssec.Denial
import Rdns.Dnssec.SignerLayout

/-!
# Rdns — Building the denial chains

`build_nsec_chain` and `build_nsec3_chain` of `rdns/src/zone_signer.rs`, and what a
validator reads back out of the records they make: `nsecs_of_chain` and
`nsec3s_of_chain`.

The sort keys order the names of a zone canonically as long as no label holds a zero
octet (`keysFaithful_of_noZero`).
-/

namespace Rdns.Dnssec

open Rdns.Lib Rdns.Core Rdns.Present Rdns.Zones RecordTypes

theorem Nsec.rtype_of_fromRecord {rr : ResourceRecord} {nsec : Nsec} (h : Nsec.fromRecord rr = some nsec) :
    rr.rdata.rtype = NSEC := by
  rw [Nsec.fromRecord] at h
  split at h
  · cases h
  · rename_i hrtype
    exact not_not.mp hrtype

theorem Nsec3.rtype_of_fromRecord {rr : ResourceRecord} {nsec3 : Nsec3} (h : Nsec3.fromRecord rr = some nsec3) :
    rr.rdata.rtype = NSEC3 := by
  by_contra hrtype
  rw [Nsec3.fromRecord, if_pos hrtype] at h
  cases h

/-! ## NSEC -/

/-- Every NSEC lists itself and its own signature (RFC 4035 §2.3). -/
def nsecTypes (layout : Layout) (name : Name) : List Rtype :=
  insertType NSEC (insertType RRSIG (layout.entry name).publishedTypes)

def nsecRecord (layout : Layout) (ttl : Ttl) (name next : Name) : Except DnssecError ZoneRecord :=
  match RecordData.fromParsed (.nsec next (buildTypeBitmap (nsecTypes layout name))) with
  | .ok rdata => .ok ⟨name, ttl, .IN, rdata⟩
  | .error _ => .error (.key "encoding an NSEC")

def nsecChain (layout : Layout) (ttl : Ttl) : Except DnssecError (List ZoneRecord) :=
  (ring (layout.chainNames false)).mapM fun (name, next) => nsecRecord layout ttl name next

/-! ## NSEC3 -/

def nsec3Types (layout : Layout) (name : Name) : List Rtype :=
  let entry := layout.entry name
  if entry.hasSignedData then insertType RRSIG entry.publishedTypes
  else entry.publishedTypes

def nsec3Record (layout : Layout) (salt : Octets) (iterations : UInt16) (optOut : Bool) (ttl : Ttl)
    (hash : Nsec3Hash) (name : Name) (next : Nsec3Hash) : Except DnssecError ZoneRecord :=
  match RecordData.fromParsed (.nsec3 1 (if optOut then 1 else 0) iterations salt next.octets
      (buildTypeBitmap (nsec3Types layout name))) with
  | .error _ => .error (.key "encoding an NSEC3")
  | .ok rdata =>
    match nsec3OwnerNameAt hash layout.origin with
    | .error _ => .error (.key "an NSEC3 owner name")
    | .ok owner => .ok ⟨owner, ttl, .IN, rdata⟩

section Nsec3

variable (sha1 : Octets → Nsec3Hash)

def hashedName (salt : Octets) (iterations : UInt16) (name : Name) :
    Except DnssecError (Nsec3Hash × Name) :=
  match nsec3HashName sha1 name salt iterations with
  | .ok hash => .ok (hash, name)
  | .error _ => .error (.key "hashing a name for the NSEC3 chain")

def hashedNames (layout : Layout) (salt : Octets) (iterations : UInt16) (optOut : Bool) :
    Except DnssecError (List (Nsec3Hash × Name)) := do
  let hashed ← (layout.chainNames optOut).mapM (hashedName sha1 salt iterations)
  return hashed.mergeSort fun a b => a.1.octets ≤ b.1.octets

def collides : List (Nsec3Hash × Name) → Bool
  | a :: b :: rest => a.1 == b.1 || collides (b :: rest)
  | _ => false

def nsec3Chain (layout : Layout) (salt : Octets) (iterations : UInt16) (optOut : Bool) (ttl : Ttl) :
    Except DnssecError (List ZoneRecord) := do
  let hashed ← hashedNames sha1 layout salt iterations optOut
  if collides hashed then throw (.signing "two names have the same NSEC3 hash")
  (ring hashed).mapM fun ((hash, name), next) =>
    nsec3Record layout salt iterations optOut ttl hash name next.1

end Nsec3

/-! ## Reading the NSEC chain back -/

theorem fromParsed_nsec (next : Name) (bitmap : Octets) :
    RecordData.fromParsed (.nsec next bitmap) = .ok ⟨NSEC, next.wire ++ bitmap⟩ := rfl

def nsecOf (layout : Layout) (pair : Name × Name) : Nsec :=
  ⟨pair.1.toFolded, pair.2.toFolded, buildTypeBitmap (nsecTypes layout pair.1)⟩

theorem fromRecord_nsecRecord {layout : Layout} {ttl : Ttl} {name next : Name} {record : ZoneRecord}
    (h : nsecRecord layout ttl name next = .ok record) :
    Nsec.fromRecord (asRecord record) = some (nsecOf layout (name, next)) := by
  rw [nsecRecord, fromParsed_nsec] at h
  cases h
  have hparse := RecordData.fromParsed_parse (fromParsed_nsec next
    (buildTypeBitmap (nsecTypes layout name))) (by
      intro hnil
      exact wireOf_ne_nil next.labels (List.append_eq_nil_iff.mp hnil).1)
  rw [Nsec.fromRecord, asRecord]
  dsimp only
  rw [if_neg (by simp), hparse]
  rfl

theorem filterMap_of_mapM_ok {α β γ ε : Type} {f : α → Except ε β} {g : β → Option γ} {k : α → γ}
    (hg : ∀ x y, f x = .ok y → g y = some (k x)) {xs : List α} {ys : List β}
    (h : xs.mapM f = .ok ys) : ys.filterMap g = xs.map k := by
  induction xs generalizing ys with
  | nil =>
    cases h
    rfl
  | cons x xs ih =>
    rw [List.mapM_cons] at h
    obtain ⟨y, hy, h⟩ := except_bind_eq_ok.mp h
    obtain ⟨rest, hrest, h⟩ := except_bind_eq_ok.mp h
    cases h
    rw [List.filterMap_cons, hg x y hy, List.map_cons, ih hrest]

/-- **The NSEC chain as a validator reads it**: one record a listed name, each pointing at
the next, the last at the first. -/
theorem nsecs_of_chain {layout : Layout} {ttl : Ttl} {chain : List ZoneRecord}
    (h : nsecChain layout ttl = .ok chain) :
    nsecsIn (chain.map asRecord) = (ring (layout.chainNames false)).map (nsecOf layout) := by
  rw [nsecsIn, List.filterMap_map]
  refine filterMap_of_mapM_ok (fun pair record hrecord => ?_) h
  exact fromRecord_nsecRecord hrecord

theorem mapM_isOk {α β ε : Type} {f : α → Except ε β} {xs : List α}
    (h : ∀ x ∈ xs, ∃ y, f x = .ok y) : ∃ ys, xs.mapM f = .ok ys := by
  induction xs with
  | nil => exact ⟨[], rfl⟩
  | cons x xs ih =>
    obtain ⟨y, hy⟩ := h x List.mem_cons_self
    obtain ⟨ys, hys⟩ := ih fun x' hx' => h x' (List.mem_cons_of_mem _ hx')
    refine ⟨y :: ys, ?_⟩
    rw [List.mapM_cons, hy, hys]
    rfl

theorem nsecChain_isOk (layout : Layout) (ttl : Ttl) : ∃ chain, nsecChain layout ttl = .ok chain := by
  rw [nsecChain]
  refine mapM_isOk fun pair _ => ?_
  show ∃ record, nsecRecord layout ttl pair.1 pair.2 = .ok record
  rw [nsecRecord, fromParsed_nsec]
  exact ⟨_, rfl⟩

/-! ## Reading the NSEC3 chain back -/

def nameHash (sha1 : Octets → Nsec3Hash) (salt : Octets) (iterations : UInt16) (name : Name) :
    Nsec3Hash :=
  iteratedHash sha1 salt (sha1 (foldCase name.wire ++ salt)) iterations.toNat

/-- What a validator reads out of the NSEC3 for `name`. -/
structure Nsec3For (layout : Layout) (salt : Octets) (iterations : UInt16) (optOut : Bool)
    (hash : Nsec3Hash) (name : Name) (next : Nsec3Hash) (nsec3 : Nsec3) : Prop where
  ownerHash : nsec3.ownerHash = hash
  next : nsec3.nextHashedOwner = next
  params : nsec3.params = ⟨SHA1_HASH_ALGORITHM, iterations, salt⟩
  optOut : nsec3.optOut = optOut
  typeBitmap : nsec3.typeBitmap = buildTypeBitmap (nsec3Types layout name)

section Nsec3ReadBack

variable {sha1 : Octets → Nsec3Hash} {layout : Layout} {salt : Octets} {iterations : UInt16}
  {optOut : Bool} {ttl : Ttl}

theorem nameHash_congr {a b : Name} (h : a.same b = true) :
    nameHash sha1 salt iterations a = nameHash sha1 salt iterations b := by
  rw [nameHash, nameHash, ← Name.wire_toFolded, ← Name.wire_toFolded, Name.same_iff.mp h]

variable {name : Name} {hash next : Nsec3Hash} {hashed : List (Nsec3Hash × Name)}

theorem nsec3HashName_eq_ok :
    nsec3HashName sha1 name salt iterations = .ok hash ↔
      ¬ iterations > MAX_NSEC3_ITERATIONS ∧ hash = nameHash sha1 salt iterations name := by
  rw [nsec3HashName, hashWire]
  split
  · grind
  · grind [nameHash]

theorem owner_labels {origin owner : Name} (h : nsec3OwnerNameAt hash origin = .ok owner) :
    owner.labels = base32hexLower hash.octets :: origin.labels := by
  rw [nsec3OwnerNameAt, Name.prefixed] at h
  split at h
  · cases h
  · exact Name.ofLabels_ok_iff.mp h

theorem base32hexDecode_foldCase_lower (hash : Nsec3Hash) :
    base32hexDecode (foldCase (base32hexLower hash.octets)) = .ok hash.octets := by
  rw [base32hexLower, foldCase_idem]
  refine base32hexDecode_lower ?_
  rw [hash.length_eq]
  rfl

theorem fromWire_octets (hash : Nsec3Hash) : Nsec3Hash.fromWire hash.octets = some hash := by
  rw [Nsec3Hash.fromWire, dif_pos hash.length_eq]

theorem of_nsec3Record {record : ZoneRecord}
    (h : nsec3Record layout salt iterations optOut ttl hash name next = .ok record) :
    nsec3OwnerNameAt hash layout.origin = .ok record.name ∧ record.rtype = NSEC3 ∧
      record.rdata.parse = .ok (.nsec3 1 (if optOut then 1 else 0) iterations salt next.octets
        (buildTypeBitmap (nsec3Types layout name))) := by
  rw [nsec3Record] at h
  split at h
  · cases h
  · rename_i rdata hrdata
    split at h
    · cases h
    · rename_i owner howner
      cases h
      have hne : rdata.rdata ≠ [] := by
        obtain ⟨-, hencoded⟩ := RecordData.fromParsed_eq_ok hrdata
        rw [ParsedRecord.encodeRdata] at hencoded
        obtain ⟨saltLen, -, hencoded⟩ := except_bind_eq_ok.mp hencoded
        obtain ⟨nextLen, -, hencoded⟩ := except_bind_eq_ok.mp hencoded
        rw [← Except.ok.inj hencoded]
        simp
      exact ⟨howner, (RecordData.fromParsed_eq_ok hrdata).1, RecordData.fromParsed_parse hrdata hne⟩

theorem fromRecord_nsec3Record {record : ZoneRecord}
    (h : nsec3Record layout salt iterations optOut ttl hash name next = .ok record) :
    ∃ nsec3, Nsec3.fromRecord (asRecord record) = some nsec3 ∧
      Nsec3For layout salt iterations optOut hash name next nsec3 := by
  obtain ⟨howner, hrtype, hparse⟩ := of_nsec3Record h
  have hlabels := owner_labels howner
  have hparent : record.name.toFolded.parent = some (record.name.toFolded.dropLabels 1) := by
    rw [Name.parent, if_neg]
    rw [Name.isRoot_iff, Name.toFolded_labels, hlabels]
    exact List.cons_ne_nil _ _
  refine ⟨⟨record.name.toFolded, hash, record.name.toFolded.dropLabels 1, SHA1_HASH_ALGORITHM,
    if optOut then 1 else 0, iterations, salt, next,
    buildTypeBitmap (nsec3Types layout name)⟩, ?_, rfl, rfl, rfl, ?_, rfl⟩
  · rw [ZoneRecord.rtype] at hrtype
    rw [Nsec3.fromRecord, asRecord]
    dsimp only
    rw [hrtype, hparse]
    simp only [Name.toFolded_labels, hlabels, foldLabels, List.map_cons, List.head?_cons, hparent]
    rw [if_neg (fun hne => hne rfl), Option.bind_eq_bind, Option.bind_some, Option.bind_eq_bind,
      Option.bind_some, base32hexDecode_foldCase_lower]
    show (Nsec3Hash.fromWire hash.octets >>= _) = _
    rw [fromWire_octets, Option.bind_eq_bind, Option.bind_some]
    show (Nsec3Hash.fromWire next.octets >>= _) = _
    rw [fromWire_octets]
    rfl
  · show ((if optOut then 1 else 0 : UInt8) &&& 1 != 0) = optOut
    cases optOut <;> decide

theorem hashedName_eq_ok {entry : Nsec3Hash × Name}
    (h : hashedName sha1 salt iterations name = .ok entry) :
    ¬ iterations > MAX_NSEC3_ITERATIONS ∧ entry = (nameHash sha1 salt iterations name, name) := by
  rw [hashedName] at h
  split at h
  · rename_i hash hhash
    obtain ⟨hfew, rfl⟩ := nsec3HashName_eq_ok.mp hhash
    exact ⟨hfew, (Except.ok.inj h).symm⟩
  · cases h

theorem octets_inj {a b : Nsec3Hash} (h : a.octets = b.octets) : a = b := by
  cases a
  cases b
  cases h
  rfl

theorem ascending_of_not_collides (hsorted : hashed.Pairwise fun a b => a.1.octets ≤ b.1.octets)
    (hapart : collides hashed = false) :
    (hashed.map fun entry => entry.1.octets).Pairwise (· < ·) := by
  induction hashed with
  | nil => exact List.Pairwise.nil
  | cons a rest ih =>
    obtain ⟨hfirst, hrest⟩ := List.pairwise_cons.mp hsorted
    cases rest with
    | nil => exact List.pairwise_singleton _ _
    | cons b rest =>
      rw [collides, Bool.or_eq_false_iff] at hapart
      have hlater := ih hrest hapart.2
      have hab : a.1.octets < b.1.octets := by
        refine lt_of_le_of_ne (hfirst b List.mem_cons_self) fun heq => ?_
        exact absurd (octets_inj heq) (by simpa using hapart.1)
      rw [List.map_cons, List.pairwise_cons]
      refine ⟨fun y hy => lt_of_lt_of_le hab ?_, hlater⟩
      exact le_head_of_sorted hlater hy

theorem of_hashedNames (h : hashedNames sha1 layout salt iterations optOut = .ok hashed)
    (hapart : collides hashed = false) :
    hashed.Perm ((layout.chainNames optOut).map fun name => (nameHash sha1 salt iterations name, name)) ∧
      (hashed.map fun entry => entry.1.octets).Pairwise (· < ·) ∧
      (layout.chainNames optOut ≠ [] → ¬ iterations > MAX_NSEC3_ITERATIONS) := by
  rw [hashedNames] at h
  obtain ⟨entries, hentries, hsorted⟩ := except_bind_eq_ok.mp h
  have hmap : entries =
      (layout.chainNames optOut).map fun name => (nameHash sha1 salt iterations name, name) := by
    have hfilter : entries.filterMap some = _ := filterMap_of_mapM_ok
      (fun name entry hentry => congrArg some (hashedName_eq_ok hentry).2) hentries
    rwa [List.filterMap_some] at hfilter
  have hhashed := (Except.ok.inj hsorted).symm
  refine ⟨?_, ?_, ?_⟩
  · rw [← hmap, hhashed]
    exact List.mergeSort_perm _ _
  · refine ascending_of_not_collides ?_ hapart
    rw [hhashed]
    refine (List.pairwise_mergeSort ?_ ?_ _).imp fun hle => of_decide_eq_true hle
    · intro a b c hab hbc
      exact decide_eq_true (le_trans (of_decide_eq_true hab) (of_decide_eq_true hbc))
    · simp [le_total]
  · intro hne
    cases hnames : layout.chainNames optOut with
    | nil => exact absurd hnames hne
    | cons name rest =>
      rw [hnames, List.mapM_cons] at hentries
      obtain ⟨entry, hentry, -⟩ := except_bind_eq_ok.mp hentries
      exact (hashedName_eq_ok hentry).1

theorem hashed_of_nsec3Chain {chain : List ZoneRecord}
    (h : nsec3Chain sha1 layout salt iterations optOut ttl = .ok chain) :
    ∃ hashed : List (Nsec3Hash × Name),
      hashed.Perm
        ((layout.chainNames optOut).map fun name => (nameHash sha1 salt iterations name, name)) ∧
      (hashed.map fun entry => entry.1.octets).Pairwise (· < ·) ∧
      (layout.chainNames optOut ≠ [] → ¬ iterations > MAX_NSEC3_ITERATIONS) ∧
      (ring hashed).mapM (fun pair => nsec3Record layout salt iterations optOut ttl pair.1.1 pair.1.2
        pair.2.1) = .ok chain := by
  rw [nsec3Chain] at h
  obtain ⟨hashed, hhashed, h⟩ := except_bind_eq_ok.mp h
  have hapart : collides hashed = false := by
    by_contra hcollides
    rw [Bool.not_eq_false] at hcollides
    rw [hcollides] at h
    cases h
  rw [hapart] at h
  obtain ⟨hperm, hsorted, hfew⟩ := of_hashedNames hhashed hapart
  exact ⟨hashed, hperm, hsorted, hfew, h⟩

/-- **The NSEC3 chain as a validator reads it**: one record a listed name, between its hash
and the next. -/
theorem of_nsec3Chain {chain : List ZoneRecord}
    (h : nsec3Chain sha1 layout salt iterations optOut ttl = .ok chain) :
    ∃ hashed : List (Nsec3Hash × Name),
      hashed.Perm
        ((layout.chainNames optOut).map fun name => (nameHash sha1 salt iterations name, name)) ∧
      (hashed.map fun entry => entry.1.octets).Pairwise (· < ·) ∧
      (layout.chainNames optOut ≠ [] → ¬ iterations > MAX_NSEC3_ITERATIONS) ∧
      (∀ record ∈ chain, ∀ nsec3, Nsec3.fromRecord (asRecord record) = some nsec3 →
        ∃ pair ∈ ring hashed,
          Nsec3For layout salt iterations optOut pair.1.1 pair.1.2 pair.2.1 nsec3) ∧
      (∀ pair ∈ ring hashed, ∃ record ∈ chain, ∃ nsec3,
        Nsec3.fromRecord (asRecord record) = some nsec3 ∧
          Nsec3For layout salt iterations optOut pair.1.1 pair.1.2 pair.2.1 nsec3) := by
  obtain ⟨hashed, hperm, hsorted, hfew, h⟩ := hashed_of_nsec3Chain h
  refine ⟨hashed, hperm, hsorted, hfew, ?_, ?_⟩
  · intro record hrecord nsec3 hnsec3
    obtain ⟨pair, hpair, hmade⟩ := mem_of_mapM_ok h hrecord
    obtain ⟨nsec3', hnsec3', hfor⟩ := fromRecord_nsec3Record hmade
    cases hnsec3.symm.trans hnsec3'
    exact ⟨pair, hpair, hfor⟩
  · intro pair hpair
    obtain ⟨record, hrecord, hmade⟩ := exists_of_mapM_ok h hpair
    exact ⟨record, hrecord, fromRecord_nsec3Record hmade⟩

theorem nsec3OwnerNameAt_isOk (hash : Nsec3Hash) {origin : Name}
    (hroom : encodedLen origin.labels + 33 ≤ MAX_NAME_LEN) :
    ∃ owner, nsec3OwnerNameAt hash origin = .ok owner := by
  have hlen : (base32hexLower hash.octets).length = 32 := by
    rw [base32hexLower, length_lower (by rw [hash.length_eq]; rfl), hash.length_eq]
    rfl
  have hlabels : ∀ l ∈ base32hexLower hash.octets :: origin.labels, ValidLabel l := by
    intro l hl
    rcases List.mem_cons.mp hl with rfl | hl
    · rw [ValidLabel, hlen]
      decide
    · exact origin.labels_ok l hl
  refine ⟨⟨_, hlabels, ?_⟩, ?_⟩
  · rw [encodedLen_cons, hlen]
    omega
  · rw [nsec3OwnerNameAt, Name.prefixed, if_neg, Name.ofLabels_ok_iff]
    rw [Bool.or_eq_true, List.isEmpty_iff, decide_eq_true_eq]
    rintro (hnil | hlong)
    · rw [hnil] at hlen
      cases hlen
    · rw [hlen] at hlong
      exact absurd hlong (by decide)

theorem nsec3Record_isOk (hsalt : salt.length ≤ 255)
    (hroom : encodedLen layout.origin.labels + 33 ≤ MAX_NAME_LEN) :
    ∃ record, nsec3Record layout salt iterations optOut ttl hash name next = .ok record := by
  obtain ⟨rdata, hrdata⟩ : ∃ rdata, RecordData.fromParsed (.nsec3 1 (if optOut then 1 else 0) iterations
      salt next.octets (buildTypeBitmap (nsec3Types layout name))) = .ok rdata := by
    have hsalt' : lengthOctet "an NSEC3 salt" salt = .ok (UInt8.ofNat salt.length) :=
      if_neg (by omega)
    have hnext : lengthOctet "an NSEC3 next hashed owner" next.octets =
        .ok (UInt8.ofNat next.octets.length) := if_neg (by rw [next.length_eq]; decide)
    rw [RecordData.fromParsed, ParsedRecord.encode, ParsedRecord.encodeRdata, hsalt', hnext]
    exact ⟨_, rfl⟩
  obtain ⟨owner, howner⟩ := nsec3OwnerNameAt_isOk hash hroom
  rw [nsec3Record, hrdata]
  dsimp only
  rw [howner]
  exact ⟨_, rfl⟩

theorem not_collides_of_nodup (h : (hashed.map Prod.fst).Nodup) : collides hashed = false := by
  induction hashed with
  | nil => rfl
  | cons a rest ih =>
    rw [List.map_cons, List.nodup_cons] at h
    cases rest with
    | nil => rfl
    | cons b rest =>
      rw [collides, ih h.2, Bool.or_false, beq_eq_false_iff_ne]
      intro heq
      exact h.1 (heq ▸ List.mem_cons_self)

/-- **A chain is built** of names whose hashes are apart. -/
theorem nsec3Chain_isOk (hfew : ¬ iterations > MAX_NSEC3_ITERATIONS) (hsalt : salt.length ≤ 255)
    (hroom : encodedLen layout.origin.labels + 33 ≤ MAX_NAME_LEN)
    (hapart : ((layout.chainNames optOut).map (nameHash sha1 salt iterations)).Nodup) :
    ∃ chain, nsec3Chain sha1 layout salt iterations optOut ttl = .ok chain := by
  obtain ⟨entries, hentries⟩ :
      ∃ entries, (layout.chainNames optOut).mapM (hashedName sha1 salt iterations) = .ok entries := by
    refine mapM_isOk fun name _ => ?_
    rw [hashedName, nsec3HashName_eq_ok.mpr ⟨hfew, rfl⟩]
    exact ⟨_, rfl⟩
  obtain ⟨hashed, hhashed⟩ :
      ∃ hashed, hashedNames sha1 layout salt iterations optOut = .ok hashed := by
    rw [hashedNames, hentries]
    exact ⟨_, rfl⟩
  have hmap : (entries.map Prod.fst) = (layout.chainNames optOut).map (nameHash sha1 salt iterations) := by
    have hfilter : entries.filterMap (fun entry => some entry.1) = _ := filterMap_of_mapM_ok
      (fun name entry hentry => congrArg some (congrArg Prod.fst (hashedName_eq_ok hentry).2)) hentries
    rw [← hfilter, List.filterMap_eq_map']
  have hcollides : collides hashed = false := by
    apply not_collides_of_nodup
    rw [hashedNames, hentries] at hhashed
    rw [← Except.ok.inj hhashed, ((List.mergeSort_perm _ _).map _).nodup_iff, hmap]
    exact hapart
  obtain ⟨chain, hchain⟩ : ∃ chain, (ring hashed).mapM (fun pair =>
      nsec3Record layout salt iterations optOut ttl pair.1.1 pair.1.2 pair.2.1) = .ok chain :=
    mapM_isOk fun pair _ => nsec3Record_isOk hsalt hroom
  refine ⟨chain, ?_⟩
  rw [nsec3Chain, hhashed]
  show (if collides hashed = true then _ else _) = _
  rw [hcollides]
  exact hchain

end Nsec3ReadBack

/-! ## Sort keys -/

/-- **Sort keys order names canonically** as long as no label holds a zero octet, the
octet they use as the terminator of a label. -/
theorem keysFaithful_of_noZero {records : List ZoneRecord}
    (h : ∀ r ∈ records, ∀ label ∈ r.name.labels, 0 ∉ label) : KeysFaithful records := by
  have hnode : ∀ a, isNode records a = true → ∀ label ∈ canonicalLabels a, 0 ∉ label := by
    intro a ha label hlabel
    obtain ⟨r, hr, hunder⟩ := Zone.isNode_iff.mp ha
    have hsub := isAtOrUnder_iff_isPrefix.mp hunder
    have hmem := hsub.subset hlabel
    rw [canonicalLabels] at hmem
    obtain ⟨original, horiginal, rfl⟩ := List.mem_map.mp hmem
    exact zero_notMem_foldCase (h r hr original (List.mem_reverse.mp horiginal))
  intro a b ha hb
  rw [canonicalSortKey_eq, canonicalSortKey_eq]
  exact terminated_lt_iff_of_notMem (fun _ => UInt8.zero_le) (hnode a ha) (hnode b hb)

end Rdns.Dnssec
