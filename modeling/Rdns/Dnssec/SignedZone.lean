import Rdns.Dnssec.IncrementalSigning
import Rdns.Dnssec.SignedSerial

/-!
# Rdns — A signed zone is complete

What `sign_zone` serves, read back from the records alone: the denial chain lists every name
the zone speaks for and nothing else, and every RRset the zone is authoritative for carries
one RRSIG of each key of its role.

The contents of a served zone (`contents`) are its records less what the signer generates for
them, and every statement below is about those.
-/

namespace Rdns.Dnssec

open Rdns.Lib Rdns.Core Rdns.Present Rdns.Zones RecordTypes

/-! ## What a signed zone has to hold -/

def contents (records : List ZoneRecord) : List ZoneRecord :=
  records.filter fun r =>
    !(r.rtype == RRSIG || r.rtype == NSEC || r.rtype == NSEC3)

def Presents (origin : Name) (records : List ZoneRecord) (name : Name) (rtype : Rtype) : Prop :=
  ownsType records name rtype = true ∧
    (isCut origin records name = true → rtype = NS ∨ rtype = DS)

def HasSigned (origin : Name) (records : List ZoneRecord) (name : Name) : Prop :=
  ∃ rtype, Presents origin records name rtype ∧
    (isCut origin records name = true → rtype = DS)

/-- **The RRsets a zone is authoritative for.** An NSEC3 stands at a name of its own making:
only one whose owner is also an occluded owner of the zone is left unsigned. -/
def Authoritative (origin : Name) (records : List ZoneRecord) (name : Name) (rtype : Rtype) : Prop :=
  if rtype = NSEC3 then owns records name = true → isOccluded origin records name = false
  else isOccluded origin records name = false ∧
    (isCut origin records name = true → rtype = DS ∨ rtype = NSEC)

def rrsigsOver (records : List ZoneRecord) (name : Name) (rtype : Rtype) : List ZoneRecord :=
  records.filter fun r =>
    r.rtype == RRSIG && r.name.same name && coveredType r.rdata == some rtype

def MadeUnder (crypto : Crypto) (policy : SigningPolicy) (records : List ZoneRecord) (rtype : Rtype)
    (key : SigningKey) (r : ZoneRecord) : Prop :=
  ∃ sig, key.signRrset crypto.sign
      ⟨r.name, rtype, .IN, (rrsetAt records r.name rtype).map ZoneRecord.rdata⟩ r.ttl.secs
      policy.inception (policy.expiryFor r.name rtype) = .ok sig ∧
    r.rdata.parse = .ok sig.parsed

def IsNsecOf (origin : Name) (records : List ZoneRecord) (pair : Name × Name) (r : ZoneRecord) : Prop :=
  r.name = pair.1 ∧ ∃ bitmap, r.rdata.parse = .ok (.nsec pair.2 bitmap) ∧
    ∀ rtype, bitmapHasType bitmap rtype = true ↔
      Presents origin records pair.1 rtype ∨ rtype = RRSIG ∨ rtype = NSEC

/-- **A complete NSEC chain**: one record a listed name, from the apex through all of them in
canonical order and back. -/
def NsecComplete (origin : Name) (records : List ZoneRecord) : Prop :=
  ∃ names : List Name, (names.map canonicalLabels).Pairwise (· < ·) ∧ names.head? = some origin.toFolded ∧
    (∀ name, name ∈ names ↔ name.toFolded = name ∧ Listed origin (contents records) false name) ∧
    List.Forall₂ (IsNsecOf origin (contents records)) (ring names)
      (records.filter fun r => r.rtype == NSEC)

def IsNsec3Of (salt : Octets) (iterations : UInt16) (optOut : Bool) (origin : Name) (records : List ZoneRecord)
    (pair : (Nsec3Hash × Name) × (Nsec3Hash × Name)) (r : ZoneRecord) : Prop :=
  r.name.labels = base32hexLower pair.1.1.octets :: origin.toFolded.labels ∧
  ∃ bitmap, r.rdata.parse = .ok (.nsec3 1 (if optOut then 1 else 0) iterations salt pair.2.1.octets bitmap) ∧
    ∀ rtype, bitmapHasType bitmap rtype = true ↔
      Presents origin records pair.1.2 rtype ∨
        rtype = RRSIG ∧ HasSigned origin records pair.1.2

/-- **A complete NSEC3 chain**: one record a listed name, through all the hashes in order and
back. -/
def Nsec3Complete (sha1 : Octets → Nsec3Hash) (salt : Octets) (iterations : UInt16) (optOut : Bool)
    (origin : Name) (records : List ZoneRecord) : Prop :=
  ∃ hashed : List (Nsec3Hash × Name), (hashed.map fun entry => entry.1.octets).Pairwise (· < ·) ∧
    (∀ hash name, (hash, name) ∈ hashed ↔ hash = nameHash sha1 salt iterations name ∧
      name.toFolded = name ∧ Listed origin (contents records) optOut name) ∧
    List.Forall₂ (IsNsec3Of salt iterations optOut origin (contents records)) (ring hashed)
      (records.filter fun r => r.rtype == NSEC3)

def ChainComplete (crypto : Crypto) (origin : Name) (records : List ZoneRecord) : DenialChain → Prop
  | .nsec => NsecComplete origin records
  | .nsec3 salt iterations optOut => Nsec3Complete crypto.sha1 salt iterations optOut origin records

/-- **Complete signatures**: one by each of its signers over an RRset the zone is
authoritative for, in the order of the keys, and no other. -/
def SignaturesComplete (crypto : Crypto) (policy : SigningPolicy) (signers : Rtype → List SigningKey)
    (origin : Name) (records : List ZoneRecord) : Prop :=
  ∀ name rtype,
    ((rrsetAt records name rtype ≠ [] ∧ rtype ≠ RRSIG ∧
        Authoritative origin (contents records) name rtype) →
      List.Forall₂ (MadeUnder crypto policy records rtype) (signers rtype) (rrsigsOver records name rtype)) ∧
    (¬ (rrsetAt records name rtype ≠ [] ∧ rtype ≠ RRSIG ∧
        Authoritative origin (contents records) name rtype) →
      rrsigsOver records name rtype = [])

/-! ## Names without zero octets -/

def NoZero (name : Name) : Prop := ∀ label ∈ name.labels, 0 ∉ label

variable {name : Name}

theorem NoZero.canonicalLabels (h : NoZero name) : ∀ label ∈ canonicalLabels name, 0 ∉ label := by
  intro label hlabel
  obtain ⟨original, horiginal, rfl⟩ := List.mem_map.mp hlabel
  exact zero_notMem_foldCase (h original (List.mem_reverse.mp horiginal))

theorem noZero_of_isNode {records : List ZoneRecord} (hnames : ∀ r ∈ records, NoZero r.name)
    (hnode : isNode records name = true) : NoZero name := by
  intro label hlabel hzero
  obtain ⟨r, hr, hunder⟩ := Zone.isNode_iff.mp hnode
  have hfolded : foldCase label ∈ Present.canonicalLabels name :=
    List.mem_map_of_mem (List.mem_reverse.mpr hlabel)
  refine (hnames r hr).canonicalLabels _ ((isAtOrUnder_iff_isPrefix.mp hunder).subset hfolded) ?_
  exact List.mem_map.mpr ⟨0, hzero, by decide⟩

theorem NoZero.same_of_key {a b : Name} (ha : NoZero a) (hb : NoZero b)
    (hkey : canonicalSortKey a = canonicalSortKey b) : a.same b = true := by
  rw [canonicalSortKey_eq, canonicalSortKey_eq] at hkey
  exact canonicalLabels_inj.mp (terminated_inj_of_notMem (fun _ => UInt8.zero_le) ha.canonicalLabels hb.canonicalLabels hkey)

theorem zero_notMem_lower (hash : Nsec3Hash) : 0 ∉ base32hexLower hash.octets := by
  have hfive : hash.octets.length % 5 = 0 := by
    rw [hash.length_eq]
    rfl
  rw [base32hexLower, (base32hexEncode_eq hfive).1, foldCase_digits (digitsOf_lt _)]
  intro hzero
  obtain ⟨digit, hdigit, heq⟩ := List.mem_map.mp hzero
  have hall : ∀ v : Fin 32, lowerDigit v.val ≠ 0 := by decide
  exact hall ⟨digit, digitsOf_lt _ digit hdigit⟩ heq

section

variable {origin : Name} {records : List ZoneRecord} (hnames : ∀ r ∈ records, NoZero r.name)
  (hzone : ∀ r ∈ records, r.name.isAtOrUnder origin = true) (hname : NoZero name)
include hnames hzone hname

/-- **The layout at a name without zero octets**, whether or not the zone has it. -/
theorem at_of_noZero :
    (owns records name = false → (Layout.of records origin).at (canonicalSortKey name) = none) ∧
    (owns records name = true → ∃ entry, (Layout.of records origin).at (canonicalSortKey name) = some entry ∧
      EntryOk origin records name entry) := by
  have hkeys : KeysApart records := (keysFaithful_of_noZero hnames).apart
  rw [Layout.at]
  constructor
  · intro howns
    cases hget : (Layout.of records origin).names.get (canonicalSortKey name) with
    | none => rfl
    | some value =>
      obtain ⟨found, entry⟩ := value
      obtain ⟨hkey, -, hfound, -⟩ := mem_of hkeys hzone ((SortedMap.mem_iff_get ordered_of).mpr hget)
      obtain ⟨r, hr, hsame⟩ := List.any_eq_true.mp hfound
      -- the entry is that of a record, whose name has the key of this one
      have hthis : r.name.same name = true := by
        refine (hnames r hr).same_of_key hname ?_
        rw [hkey, canonicalSortKey_congr hsame]
      have howned : owns records name = true := List.any_eq_true.mpr ⟨r, hr, hthis⟩
      rw [howned] at howns
      cases howns
  · intro howns
    obtain ⟨entry, hget, hok⟩ := (of_get hkeys hzone (isNode_of_owns howns)).2 howns
    rw [hget]
    exact ⟨entry, rfl, hok⟩

theorem signable_iff {rtype : Rtype} (hrtype : rtype ≠ RRSIG)
    (howner : owns records name = false → rtype ≠ NSEC3 → isOccluded origin records name = false) :
    signable ((Layout.of records origin).at (canonicalSortKey name)) name rtype origin = true ↔
      Authoritative origin records name rtype := by
  obtain ⟨hnone, hsome⟩ := at_of_noZero hnames hzone hname
  rw [signable.eq_def, if_neg hrtype, Authoritative]
  cases howns : owns records name with
  | false =>
    have hcut : isCut origin records name = false := by
      by_contra hcut
      rw [Bool.not_eq_false, isCut, Bool.and_eq_true] at hcut
      have := owns_of_ownsType hcut.2
      rw [howns] at this
      cases this
    rw [hnone howns]
    by_cases hnsec3 : rtype = NSEC3
    · simp [hnsec3]
    · simp [hnsec3, hcut, howner howns hnsec3]
  | true =>
    obtain ⟨entry, hentry, hok⟩ := hsome howns
    rw [hentry]
    dsimp only
    rw [hok.occluded, hok.delegation]
    cases hocc : isOccluded origin records name with
    | true => simp
    | false =>
      by_cases hnsec3 : rtype = NSEC3
      · simp [hnsec3]
      · cases hcut : isCut origin records name with
        | false => simp [hnsec3]
        | true =>
          have hbelow : name.same origin = false := by
            rw [isCut, Bool.and_eq_true, Bool.and_eq_true] at hcut
            simpa using hcut.1.2
          simp [hnsec3, hbelow]

end

/-! ## The types of a name -/

section Types

variable {origin : Name} {records : List ZoneRecord}

variable {name : Name}

section

variable (hnames : ∀ r ∈ records, NoZero r.name)
  (hzone : ∀ r ∈ records, r.name.isAtOrUnder origin = true) (hname : NoZero name)
include hnames hzone hname

theorem entry_of_noZero :
    (∀ rtype, rtype ∈ ((Layout.of records origin).entry name).types ↔ ownsType records name rtype = true) ∧
      ((Layout.of records origin).entry name).isDelegation = isCut origin records name := by
  obtain ⟨hnone, hsome⟩ := at_of_noZero hnames hzone hname
  rw [Layout.entry]
  cases howns : owns records name with
  | true =>
    obtain ⟨entry, hentry, hok⟩ := hsome howns
    rw [hentry]
    exact ⟨hok.types, hok.delegation⟩
  | false =>
    have hnothing : ∀ rtype, ownsType records name rtype = false := by
      intro rtype
      by_contra htype
      rw [Bool.not_eq_false] at htype
      have howned := owns_of_ownsType htype
      rw [howns] at howned
      cases howned
    rw [hnone howns]
    constructor
    · intro rtype
      rw [hnothing]
      simp [NameEntry.default]
    · show false = _
      rw [eq_comm, Bool.eq_false_iff]
      intro hcut
      have hns := ownsType_of_isCut hcut
      rw [hnothing] at hns
      cases hns

theorem mem_publishedTypes {rtype : Rtype} :
    rtype ∈ ((Layout.of records origin).entry name).publishedTypes ↔ Presents origin records name rtype := by
  obtain ⟨htypes, hdelegation⟩ := entry_of_noZero hnames hzone hname
  rw [NameEntry.publishedTypes, hdelegation, Presents]
  cases hcut : isCut origin records name with
  | false =>
    rw [if_neg (by decide), htypes]
    simp
  | true =>
    have hns := ownsType_of_isCut hcut
    have hcontains : ((Layout.of records origin).entry name).types.contains DS
        = ownsType records name DS := by
      rw [Bool.eq_iff_iff, List.contains_iff_mem, htypes]
    rw [if_pos rfl, hcontains]
    cases hds : ownsType records name DS with
    | true => grind [mem_insertType]
    | false => grind

theorem hasSignedData_iff :
    ((Layout.of records origin).entry name).hasSignedData = true ↔ HasSigned origin records name := by
  obtain ⟨htypes, hdelegation⟩ := entry_of_noZero hnames hzone hname
  rw [NameEntry.hasSignedData, hdelegation, HasSigned]
  cases hcut : isCut origin records name with
  | true =>
    rw [if_pos rfl, List.contains_iff_mem, htypes]
    constructor
    · intro hds
      exact ⟨_, ⟨hds, fun _ => .inr rfl⟩, fun _ => rfl⟩
    · rintro ⟨rtype, ⟨htype, -⟩, hkind⟩
      rw [← hkind rfl]
      exact htype
  | false =>
    rw [if_neg (by decide)]
    constructor
    · intro hsome
      obtain ⟨rtype, hrtype⟩ := List.exists_mem_of_ne_nil ((Layout.of records origin).entry name).types
        (by simpa using hsome)
      refine ⟨rtype, ⟨(htypes rtype).mp hrtype, fun h => ?_⟩, fun h => (by cases h)⟩
      rw [hcut] at h
      cases h
    · rintro ⟨rtype, ⟨htype, -⟩, -⟩
      simpa using List.ne_nil_of_mem ((htypes rtype).mpr htype)

end

end Types

/-! ## Passes over a list -/

theorem forall₂_of_mapM_ok {α β ε : Type} {f : α → Except ε β} {xs : List α} {ys : List β}
    (h : xs.mapM f = .ok ys) : List.Forall₂ (fun x y => x ∈ xs ∧ f x = .ok y) xs ys := by
  induction xs generalizing ys with
  | nil =>
    cases h
    exact .nil
  | cons x xs ih =>
    rw [List.mapM_cons] at h
    obtain ⟨y, hy, h⟩ := except_bind_eq_ok.mp h
    obtain ⟨rest, hrest, h⟩ := except_bind_eq_ok.mp h
    cases h
    refine .cons ⟨List.mem_cons_self, hy⟩ ((ih hrest).imp fun x' y' hxy => ?_)
    exact ⟨List.mem_cons_of_mem _ hxy.1, hxy.2⟩

theorem filter_flatMap_of_forall₂ {α β γ : Type} {R : α → β → Prop} {Q : α → Prop} {f : β → List γ} {p : γ → Bool}
    (hkept : ∀ x y, R x y → Q x → (f y).filter p = f y) (hdropped : ∀ x y, R x y → ¬ Q x → (f y).filter p = [])
    {xs : List α} {ys : List β} (h : List.Forall₂ R xs ys) (honce : xs.Pairwise fun a b => ¬ (Q a ∧ Q b)) :
    ((∀ x ∈ xs, ¬ Q x) → (ys.flatMap f).filter p = []) ∧
      ∀ x ∈ xs, Q x → ∃ y, R x y ∧ (ys.flatMap f).filter p = f y := by
  induction h with
  | nil => exact ⟨fun _ => rfl, fun _ hx => (by cases hx)⟩
  | @cons first y xs ys hfirst hrest ih =>
    obtain ⟨hapart, honce⟩ := List.pairwise_cons.mp honce
    obtain ⟨hnone, hone⟩ := ih honce
    rw [List.flatMap_cons, List.filter_append]
    constructor
    · grind
    · intro x hx hq
      rcases List.mem_cons.mp hx with rfl | hx
      · refine ⟨y, hfirst, ?_⟩
        rw [hkept x y hfirst hq, hnone fun x' hx' hq' => hapart x' hx' ⟨hq, hq'⟩, List.append_nil]
      · obtain ⟨y', hy', heq⟩ := hone x hx hq
        refine ⟨y', hy', ?_⟩
        rw [hdropped first y hfirst fun hq' => hapart x hx ⟨hq', hq⟩, List.nil_append, heq]

/-! ## The chains -/

section Chains

variable {origin : Name} {base : List ZoneRecord} {ttl : Ttl} {chain : List ZoneRecord}

theorem isNsecOf_of_nsecRecord (hnames : ∀ r ∈ base, NoZero r.name) (hzone : InZone origin base)
    {next : Name} (hname : NoZero name) {r : ZoneRecord}
    (h : nsecRecord (Layout.of base origin) ttl name next = .ok r) :
    IsNsecOf origin base (name, next) r := by
  rw [nsecRecord, fromParsed_nsec] at h
  cases h
  refine ⟨rfl, _, RecordData.fromParsed_parse (fromParsed_nsec next _) ?_, fun rtype => ?_⟩
  · intro hnil
    exact wireOf_ne_nil next.labels (List.append_eq_nil_iff.mp hnil).1
  · rw [bitmapHasType_build, nsecTypes, mem_insertType, mem_insertType,
      mem_publishedTypes hnames hzone.under hname]
    tauto

theorem head_chainNames (hkeys : KeysFaithful base) (hzone : InZone origin base) :
    ((Layout.of base origin).chainNames false).head? = some origin.toFolded := by
  have hsorted : (((Layout.of base origin).chainNames false).map canonicalLabels).Pairwise (· < ·) :=
    sorted_chainNames hkeys hzone.under
  have hapex : origin.toFolded ∈ (Layout.of base origin).chainNames false := by
    refine (mem_chainNames hkeys.apart hzone.under).mpr ⟨Name.toFolded_toFolded _, ?_⟩
    have hsame : origin.same origin.toFolded = true := by rw [same_toFolded_right]; exact Name.same_self _
    exact ((listed_iff hzone (Name.isAtOrUnder_refl origin)).mpr
      ⟨isNode_of_owns hzone.apex, not_isOccluded_origin hzone⟩).congr hsame
  cases hlist : (Layout.of base origin).chainNames false with
  | nil =>
    rw [hlist] at hapex
    cases hapex
  | cons first rest =>
    have hfirst : first ∈ (Layout.of base origin).chainNames false := hlist ▸ List.mem_cons_self
    obtain ⟨hfolded, hlisted⟩ := (mem_chainNames hkeys.apart hzone.under).mp hfirst
    rw [List.head?_cons]
    congr 1
    rw [hlist] at hapex hsorted
    rcases List.mem_cons.mp hapex with heq | hmem
    · exact heq.symm
    · -- what is above a name does not come after it
      have hlt : canonicalLabels first < canonicalLabels origin.toFolded :=
        (List.pairwise_cons.mp hsorted).1 _ (List.mem_map_of_mem hmem)
      have hprefix : canonicalLabels origin.toFolded <+: canonicalLabels first := by
        rw [← isAtOrUnder_iff_isPrefix, isAtOrUnder_toFolded_right]
        exact hlisted.under hzone
      exact absurd hlt (not_lt_of_ge (le_of_isPrefix hprefix))

/-- **The NSEC chain is complete.** -/
theorem nsecChain_complete {records : List ZoneRecord} (hnames : ∀ r ∈ base, NoZero r.name)
    (hzone : InZone origin base) (hchain : nsecChain (Layout.of base origin) ttl = .ok chain)
    (hcontents : contents records = base)
    (hrecords : records.filter (fun r => r.rtype == NSEC) = chain) :
    NsecComplete origin records := by
  have hkeys : KeysFaithful base := keysFaithful_of_noZero hnames
  rw [NsecComplete, hcontents, hrecords]
  refine ⟨(Layout.of base origin).chainNames false, sorted_chainNames hkeys hzone.under,
    head_chainNames hkeys hzone, fun name => mem_chainNames hkeys.apart hzone.under, ?_⟩
  refine (forall₂_of_mapM_ok hchain).imp fun pair r hpair => ?_
  obtain ⟨hmem, hrecord⟩ := hpair
  have hlisted := ((mem_chainNames hkeys.apart hzone.under).mp (ring_ends hmem).1).2
  exact isNsecOf_of_nsecRecord hnames hzone (noZero_of_isNode hnames hlisted.isNode) hrecord

theorem isNsec3Of_of_nsec3Record (hnames : ∀ r ∈ base, NoZero r.name) (hzone : InZone origin base)
    {salt : Octets} {iterations : UInt16} {optOut : Bool}
    {pair : (Nsec3Hash × Name) × (Nsec3Hash × Name)} (hname : NoZero pair.1.2) {r : ZoneRecord}
    (h : nsec3Record (Layout.of base origin) salt iterations optOut ttl pair.1.1 pair.1.2 pair.2.1 = .ok r) :
    IsNsec3Of salt iterations optOut origin base pair r := by
  obtain ⟨howner, -, hparse⟩ := of_nsec3Record h
  refine ⟨owner_labels howner, _, hparse, fun rtype => ?_⟩
  rw [bitmapHasType_build, nsec3Types]
  cases hdata : ((Layout.of base origin).entry pair.1.2).hasSignedData with
  | true =>
    have hsigned := (hasSignedData_iff hnames hzone.under hname).mp hdata
    rw [if_pos rfl, mem_insertType, mem_publishedTypes hnames hzone.under hname]
    tauto
  | false =>
    have hnone : ¬ HasSigned origin base pair.1.2 := by
      rw [← hasSignedData_iff hnames hzone.under hname, hdata]
      decide
    rw [if_neg (by decide), mem_publishedTypes hnames hzone.under hname]
    tauto

/-- **The NSEC3 chain is complete.** -/
theorem nsec3Chain_complete {sha1 : Octets → Nsec3Hash} {salt : Octets} {iterations : UInt16} {optOut : Bool}
    {records : List ZoneRecord} (hnames : ∀ r ∈ base, NoZero r.name) (hzone : InZone origin base)
    (hchain : nsec3Chain sha1 (Layout.of base origin) salt iterations optOut ttl = .ok chain)
    (hcontents : contents records = base)
    (hrecords : records.filter (fun r => r.rtype == NSEC3) = chain) :
    Nsec3Complete sha1 salt iterations optOut origin records := by
  have hkeys : KeysApart base := (keysFaithful_of_noZero hnames).apart
  obtain ⟨hashed, hperm, hsorted, -, hmade⟩ := hashed_of_nsec3Chain hchain
  have hmem : ∀ hash name, (hash, name) ∈ hashed ↔ hash = nameHash sha1 salt iterations name ∧
      name.toFolded = name ∧ Listed origin base optOut name := by
    intro hash name
    rw [hperm.mem_iff, List.mem_map, ← mem_chainNames hkeys hzone.under]
    constructor
    · grind
    · rintro ⟨rfl, hn⟩
      exact ⟨name, hn, rfl⟩
  rw [Nsec3Complete, hcontents, hrecords]
  refine ⟨hashed, hsorted, hmem, (forall₂_of_mapM_ok hmade).imp fun pair r hpair => ?_⟩
  have hlisted := ((hmem _ _).mp (ring_ends hpair.1).1).2.2
  exact isNsec3Of_of_nsec3Record hnames hzone (noZero_of_isNode hnames hlisted.isNode) hpair.2

end Chains

/-! ## The zone before its chain -/

theorem kept_of_carryOne {origin : Name} {policy : SigningPolicy} {record kept : ZoneRecord}
    {info : Option (Ttl × UInt32)} (hlocal : policy.dnskeySignature = .local)
    (h : carryOne origin policy record = .ok (some (kept, info))) :
    record.name.isAtOrUnder origin = true ∧ isSignerOutput record.rtype = false := by
  have himported : isImportedDnskeyRrsig record origin policy = false := by
    rw [isImportedDnskeyRrsig, hlocal]
    rfl
  rw [carryOne, himported] at h
  split at h
  · cases h
  · grind

section Unsigned

variable {crypto : Crypto} {zone : Zone} {keys : List SigningKey} {policy : SigningPolicy}
  {base : List ZoneRecord} {ttl : Ttl}

theorem apexSoa (h : published crypto zone keys policy = .ok (base, ttl)) :
    (∃ r ∈ base, isSoaAt zone.origin.toFolded r = true) ∧
      ∃ r ∈ zone.records, isSoaAt zone.origin.toFolded r = true := by
  obtain ⟨carried, soaTtl, minimum, synced, hcarried, hsynced, rfl, -⟩ := of_published h
  obtain ⟨soa, out, info, hfind, -, ttl, hfound⟩ := find?_carryOverRecords hcarried
  refine ⟨⟨_, ?_, List.find?_some hfound⟩, soa, List.mem_of_find?_eq_some hfind, List.find?_some hfind⟩
  have hprefix : carried <+: publishNsec3param policy.chain zone.origin.toFolded
      (dnskeyTtl carried zone.origin.toFolded soaTtl) synced := by
    refine (List.IsPrefix.trans ?_ (publishSyncRecords_leads hsynced)).trans (publishNsec3param_leads ..)
    exact List.prefix_append ..
  exact hprefix.subset (List.mem_of_find?_eq_some hfound)

theorem owns_of_isSoaAt {origin : Name} {records : List ZoneRecord}
    (h : ∃ r ∈ records, isSoaAt origin r = true) : owns records origin = true := by
  obtain ⟨r, hr, hat⟩ := h
  rw [isSoaAt, Bool.and_eq_true] at hat
  exact List.any_eq_true.mpr ⟨r, hr, hat.2⟩

section

variable (hlocal : policy.dnskeySignature = .local) (hnames : ∀ r ∈ zone.records, NoZero r.name)
  (h : published crypto zone keys policy = .ok (base, ttl))
include hlocal hnames h

/-- **The zone before its chain**: nothing a signer generates for it, all at or under the
apex, and no zero octet that was not there. -/
theorem of_mem_published {r : ZoneRecord} (hr : r ∈ base) :
    r.rtype ≠ RRSIG ∧ r.rtype ≠ NSEC ∧ r.rtype ≠ NSEC3 ∧
      r.name.isAtOrUnder zone.origin.toFolded = true ∧ NoZero r.name := by
  rcases mem_published h hr with ⟨record, hrecord, kept, info, ttl, hcarry, rfl⟩ | ⟨hname, -, hkind⟩
  · obtain ⟨hsame, hrtype, -⟩ := of_carryOne hcarry
    obtain ⟨hunder, hown⟩ := kept_of_carryOne hlocal hcarry
    show kept.rtype ≠ _ ∧ kept.rtype ≠ _ ∧ kept.rtype ≠ _ ∧ kept.name.isAtOrUnder _ = true ∧ NoZero kept.name
    rw [hsame, hrtype]
    simp only [isSignerOutput, Bool.or_eq_false_iff, decide_eq_false_iff_not] at hown
    exact ⟨hown.1.1.1, hown.1.1.2, hown.1.2, hunder, hnames record hrecord⟩
  · have hapex : NoZero zone.origin.toFolded := noZero_of_isNode hnames (isNode_of_owns (owns_of_isSoaAt (apexSoa h).2))
    rw [hname]
    refine ⟨?_, ?_, ?_, Name.isAtOrUnder_refl _, hapex⟩
    all_goals
      rcases hkind with hkind | hkind | hkind | hkind <;> rw [hkind] <;> decide

theorem inZone_published : InZone zone.origin.toFolded base :=
  ⟨fun _ hr => (of_mem_published hlocal hnames h hr).2.2.2.1, owns_of_isSoaAt (apexSoa h).1⟩

end

end Unsigned

/-! ## One full signing -/

theorem key_of_mem_rrsetsOf {signed : List ZoneRecord} {key : Octets ×ₗ Nat} {rrset : ZoneRrset}
    (h : (key, rrset) ∈ rrsetsOf signed) :
    key = toLex (canonicalSortKey rrset.name, rrset.rtype.code.toNat) := by
  obtain ⟨first, rest, hrecords, hname, hrtype, -, -⟩ := asRrset_eq_some (mem_rrsetsOf.mp h)
  have hfirst : first ∈ rrsetRecords signed key := by
    rw [hrecords]
    exact List.mem_cons_self
  rw [hname, hrtype]
  exact (of_decide_eq_true (List.mem_filter.mp hfirst).2).symm

structure SignedFrom (crypto : Crypto) (zone : Zone) (keys : List SigningKey) (policy : SigningPolicy)
    (base : List ZoneRecord) (ttl : Ttl) (chain out : List ZoneRecord) : Prop where
  ours : policy.dnskeySignature = .local
  names : ∀ r ∈ zone.records, NoZero r.name
  published : published crypto zone keys policy = .ok (base, ttl)
  denial : denialChain crypto (Layout.of base zone.origin.toFolded) policy.chain ttl = .ok chain
  signed : ∃ fresh, signEverything crypto.sign (Layout.of base zone.origin.toFolded) keys policy none
    (base ++ chain) = .ok (out, fresh)

namespace SignedFrom

variable {crypto : Crypto} {zone : Zone} {keys : List SigningKey} {policy : SigningPolicy}
  {base : List ZoneRecord} {ttl : Ttl} {chain out : List ZoneRecord}

theorem inZone (h : SignedFrom crypto zone keys policy base ttl chain out) :
    InZone zone.origin.toFolded base := inZone_published h.ours h.names h.published

theorem noZero (h : SignedFrom crypto zone keys policy base ttl chain out) : ∀ r ∈ base, NoZero r.name :=
  fun _ hr => (of_mem_published h.ours h.names h.published hr).2.2.2.2

variable {r : ZoneRecord} {rrset : ZoneRrset}

section

variable (h : SignedFrom crypto zone keys policy base ttl chain out)
include h

theorem of_mem_chain (hr : r ∈ chain) :
    (r.rtype = NSEC ∧ Listed zone.origin.toFolded base false r.name) ∨
      r.rtype = NSEC3 ∧ ∃ hash : Nsec3Hash,
        r.name.labels = base32hexLower hash.octets :: zone.origin.toFolded.labels := by
  have hchain := h.denial
  cases hkind : policy.chain with
  | nsec =>
    rw [hkind] at hchain
    obtain ⟨⟨name, next⟩, hpair, hrecord⟩ := mem_of_mapM_ok hchain hr
    have hkeys : KeysApart base := (keysFaithful_of_noZero h.noZero).apart
    have hlisted := ((mem_chainNames hkeys h.inZone.under).mp (ring_ends hpair).1).2
    dsimp only at hrecord
    rw [nsecRecord, fromParsed_nsec] at hrecord
    cases hrecord
    exact .inl ⟨rfl, hlisted⟩
  | nsec3 salt iterations optOut =>
    rw [hkind] at hchain
    obtain ⟨hashed, -, -, -, hmade⟩ := hashed_of_nsec3Chain hchain
    obtain ⟨pair, -, hrecord⟩ := mem_of_mapM_ok hmade hr
    obtain ⟨howner, hrtype, -⟩ := of_nsec3Record hrecord
    refine .inr ⟨hrtype, pair.1.1, ?_⟩
    have hlabels := owner_labels howner
    rwa [show (Layout.of base zone.origin.toFolded).origin = zone.origin.toFolded from Name.toFolded_toFolded _]
      at hlabels

theorem noZero_of_mem (hr : r ∈ base ++ chain) : NoZero r.name := by
  rcases List.mem_append.mp hr with hr | hr
  · exact h.noZero r hr
  · rcases h.of_mem_chain hr with ⟨-, hlisted⟩ | ⟨-, hash, hlabels⟩
    · exact noZero_of_isNode h.noZero hlisted.isNode
    · have hapex : NoZero zone.origin.toFolded := noZero_of_isNode h.noZero (isNode_of_owns h.inZone.apex)
      intro label hlabel
      rw [hlabels] at hlabel
      rcases List.mem_cons.mp hlabel with rfl | hlabel
      · exact zero_notMem_lower hash
      · exact hapex label hlabel

theorem ownersApart : OwnersApart (base ++ chain) :=
  fun _ ha _ hb hkey => (h.noZero_of_mem ha).same_of_key (h.noZero_of_mem hb) hkey

theorem ne_rrsig (hr : r ∈ base ++ chain) : r.rtype ≠ RRSIG := by
  rcases List.mem_append.mp hr with hr | hr
  · exact (of_mem_published h.ours h.names h.published hr).1
  · rcases h.of_mem_chain hr with ⟨hrtype, -⟩ | ⟨hrtype, -⟩
    · rw [hrtype]
      decide
    · rw [hrtype]
      decide

theorem not_isOccluded (hr : r ∈ base ++ chain) (hrtype : r.rtype ≠ NSEC3)
    (howns : owns base r.name = false) :
    isOccluded zone.origin.toFolded base r.name = false := by
  rcases List.mem_append.mp hr with hr | hr
  · have howned : owns base r.name = true := List.any_eq_true.mpr ⟨r, hr, Name.same_self _⟩
    rw [howned] at howns
    cases howns
  · rcases h.of_mem_chain hr with ⟨-, hlisted⟩ | ⟨hkind, -⟩
    · exact ((listed_iff h.inZone (hlisted.under h.inZone)).mp hlisted).2
    · exact absurd hkind hrtype

theorem eq_append :
    ∃ made, out = base ++ chain ++ made ∧ ∀ r ∈ made, r.rtype = RRSIG := by
  obtain ⟨fresh, hsigned⟩ := h.signed
  obtain ⟨-, all, hall, rfl⟩ := of_signEverything hsigned
  refine ⟨_, rfl, fun r hr => ?_⟩
  obtain ⟨⟨made, names⟩, hmade, hr⟩ := List.mem_flatMap.mp hr
  obtain ⟨entry, -, hover⟩ := mem_of_mapM_ok hall hmade
  exact rtype_of_signaturesOver hover hr

theorem contents_eq : contents out = base := by
  obtain ⟨made, rfl, hmade⟩ := h.eq_append
  have hbase : contents base = base := by
    rw [contents, List.filter_eq_self]
    intro r hr
    obtain ⟨hrrsig, hnsec, hnsec3, -⟩ := of_mem_published h.ours h.names h.published hr
    simp [hrrsig, hnsec, hnsec3]
  have hchain : contents chain = [] := by
    rw [contents, List.filter_eq_nil_iff]
    intro r hr
    rcases h.of_mem_chain hr with ⟨hrtype, -⟩ | ⟨hrtype, -⟩
    · simp [hrtype]
    · simp [hrtype]
  have hsignatures : contents made = [] := by
    rw [contents, List.filter_eq_nil_iff]
    intro r hr
    simp [hmade r hr]
  rw [contents, List.filter_append, List.filter_append]
  show contents base ++ contents chain ++ contents made = base
  rw [hbase, hchain, hsignatures, List.append_nil, List.append_nil]

theorem filter_chain {rtype : Rtype}
    (hdenial : rtype = NSEC ∨ rtype = NSEC3)
    (hrtype : ∀ r ∈ chain, r.rtype = rtype) :
    out.filter (fun r => r.rtype == rtype) = chain := by
  obtain ⟨made, rfl, hmade⟩ := h.eq_append
  have hbase : base.filter (fun r => r.rtype == rtype) = [] := by
    rw [List.filter_eq_nil_iff]
    intro r hr
    obtain ⟨-, hnsec, hnsec3, -⟩ := of_mem_published h.ours h.names h.published hr
    rcases hdenial with rfl | rfl
    · simp [hnsec]
    · simp [hnsec3]
  have hsignatures : made.filter (fun r => r.rtype == rtype) = [] := by
    rw [List.filter_eq_nil_iff]
    intro r hr
    rw [hmade r hr]
    rcases hdenial with rfl | rfl <;> decide
  have hself : chain.filter (fun r => r.rtype == rtype) = chain := by
    rw [List.filter_eq_self]
    intro r hr
    simp [hrtype r hr]
  rw [List.filter_append, List.filter_append, hbase, hself, hsignatures, List.nil_append, List.append_nil]

/-- **The chain is complete**, whichever it is. -/
theorem chainComplete : ChainComplete crypto zone.origin.toFolded out policy.chain := by
  have hdenial := h.denial
  cases hkind : policy.chain with
  | nsec =>
    rw [hkind] at hdenial
    exact nsecChain_complete h.noZero h.inZone hdenial h.contents_eq
      (h.filter_chain (.inl rfl) fun r hr => (of_mem_denialChain hdenial hr).2)
  | nsec3 salt iterations optOut =>
    rw [hkind] at hdenial
    exact nsec3Chain_complete h.noZero h.inZone hdenial h.contents_eq
      (h.filter_chain (.inr rfl) fun r hr => (of_mem_denialChain hdenial hr).2)

end

/-! ## The signatures of a full signing -/

theorem exists_rrset (h : SignedFrom crypto zone keys policy base ttl chain out)
    (hr : r ∈ base ++ chain) :
    ∃ key rrset, (key, rrset) ∈ rrsetsOf (base ++ chain) ∧ rrset.name.same r.name = true ∧
      rrset.rtype = r.rtype := by
  obtain ⟨rrset, hmem, -⟩ := exists_rrset_of_mem hr
  obtain ⟨-, -, first, hfirst, hname, hrtype, -⟩ := rrset_of_mem h.ownersApart hmem
  have hkey := congrArg ofLex (key_of_mem_rrsetsOf hmem)
  refine ⟨_, rrset, hmem, ?_, ?_⟩
  · rw [← hname]
    refine h.ownersApart first hfirst r hr ?_
    rw [hname]
    exact (congrArg Prod.fst hkey).symm
  · have hcode : r.rtype.code.toNat = rrset.rtype.code.toNat := congrArg Prod.snd hkey
    exact (congrArg Rtype.mk (UInt16.toNat_inj.mp hcode)).symm

theorem rrsets_apart (signed : List ZoneRecord) (name : Name) (rtype : Rtype) :
    (rrsetsOf signed).Pairwise fun a b => ¬ ((a.2.name.same name = true ∧ a.2.rtype = rtype) ∧
      (b.2.name.same name = true ∧ b.2.rtype = rtype)) := by
  refine List.Pairwise.imp_of_mem ?_ (ordered_rrsetsOf signed)
  rintro ⟨ka, a⟩ ⟨kb, b⟩ ha hb hlt ⟨⟨haname, harype⟩, hbname, hbrtype⟩
  have hkeys : ka = kb := by
    rw [key_of_mem_rrsetsOf ha, key_of_mem_rrsetsOf hb, canonicalSortKey_congr haname,
      canonicalSortKey_congr hbname, harype, hbrtype]
  exact absurd hlt (hkeys ▸ lt_irrefl _)

section

variable {sign : Sign} {layout : Layout} {key : Octets} {made : List ZoneRecord}
  {fresh : List (Name × Rtype)} (hlocal : policy.dnskeySignature = .local)
  (h : signaturesOver sign layout keys policy none key rrset = .ok (made, fresh))
include hlocal h

theorem of_signaturesOver_none :
    (signable (layout.at key) rrset.name rrset.rtype layout.origin = false ∧ made = []) ∨
      signable (layout.at key) rrset.name rrset.rtype layout.origin = true ∧
        (signersFor keys policy.signedAt rrset.rtype).mapM (signatureBy sign policy rrset) = .ok made := by
  rcases of_signaturesOver h with ⟨hleft, rfl⟩ | ⟨hnot, ⟨carried, hcarried, -⟩ | ⟨-, hmade⟩⟩
  · rcases hleft with hleft | ⟨-, himported⟩
    · exact .inl ⟨hleft, rfl⟩
    · rw [hlocal] at himported
      cases himported
  · cases hcarried
  · refine .inr ⟨?_, hmade⟩
    rw [leftUnsigned, not_or] at hnot
    simpa using hnot.1

theorem over_of_mem (hr : r ∈ made) :
    r.rtype = RRSIG ∧ r.name = rrset.name ∧ coveredType r.rdata = some rrset.rtype := by
  rcases of_signaturesOver_none hlocal h with ⟨-, rfl⟩ | ⟨-, hmade⟩
  · cases hr
  · obtain ⟨signer, -, hsignature⟩ := mem_of_mapM_ok hmade hr
    obtain ⟨sig, hsig, hname, -, -, hrtype, hparse⟩ := of_signatureBy hsignature
    obtain ⟨data, signature, -, -, rfl⟩ := of_signRrset hsig
    refine ⟨hrtype, hname, ?_⟩
    rw [coveredType, hparse]
    rfl

end

section

variable (h : SignedFrom crypto zone keys policy base ttl chain out)
include h

/-- **The RRSIGs over an RRset** are the ones of its entry, and there are none over what is no
RRset. -/
theorem rrsigsOver_eq (name : Name) (rtype : Rtype) :
    ((∀ entry ∈ rrsetsOf (base ++ chain), ¬ (entry.2.name.same name = true ∧ entry.2.rtype = rtype)) →
      rrsigsOver out name rtype = []) ∧
    ∀ entry ∈ rrsetsOf (base ++ chain), entry.2.name.same name = true ∧ entry.2.rtype = rtype →
      ∃ names, signaturesOver crypto.sign (Layout.of base zone.origin.toFolded) keys policy none
        (ofLex entry.1).1 entry.2 = .ok (rrsigsOver out name rtype, names) := by
  obtain ⟨fresh, hsigned⟩ := h.signed
  obtain ⟨-, all, hall, rfl⟩ := of_signEverything hsigned
  have hbefore : rrsigsOver (base ++ chain) name rtype = [] := by
    rw [rrsigsOver, List.filter_eq_nil_iff]
    intro r hr
    simp [h.ne_rrsig hr]
  have hsplit : rrsigsOver (base ++ chain ++ all.flatMap Prod.fst) name rtype
      = rrsigsOver (all.flatMap Prod.fst) name rtype := by
    rw [rrsigsOver, List.filter_append]
    exact (congrArg (· ++ _) hbefore).trans (List.nil_append _)
  have hkept : ∀ entry made, (entry ∈ rrsetsOf (base ++ chain) ∧ signaturesOver crypto.sign
      (Layout.of base zone.origin.toFolded) keys policy none (ofLex entry.1).1 entry.2 = .ok made) →
      entry.2.name.same name = true ∧ entry.2.rtype = rtype →
      rrsigsOver made.1 name rtype = made.1 := by
    rintro ⟨key, rrset⟩ ⟨made, names⟩ ⟨-, hover⟩ ⟨hname, hrtype⟩
    rw [rrsigsOver, List.filter_eq_self]
    intro r hr
    obtain ⟨hrrsig, hrname, hcovered⟩ := over_of_mem h.ours hover hr
    dsimp only at hname hrtype
    rw [hrrsig, hrname, hname, hcovered, hrtype]
    simp
  have hdropped : ∀ entry made, (entry ∈ rrsetsOf (base ++ chain) ∧ signaturesOver crypto.sign
      (Layout.of base zone.origin.toFolded) keys policy none (ofLex entry.1).1 entry.2 = .ok made) →
      ¬ (entry.2.name.same name = true ∧ entry.2.rtype = rtype) → rrsigsOver made.1 name rtype = [] := by
    rintro ⟨key, rrset⟩ ⟨made, names⟩ ⟨-, hover⟩ hother
    rw [rrsigsOver, List.filter_eq_nil_iff]
    intro r hr hkept
    obtain ⟨-, hrname, hcovered⟩ := over_of_mem h.ours hover hr
    rw [Bool.and_eq_true, Bool.and_eq_true, hrname, hcovered, beq_iff_eq, beq_iff_eq, Option.some_inj] at hkept
    exact hother ⟨hkept.1.2, hkept.2⟩
  obtain ⟨hnone, hone⟩ := filter_flatMap_of_forall₂ hkept hdropped (forall₂_of_mapM_ok hall)
    (rrsets_apart _ name rtype)
  rw [hsplit]
  refine ⟨hnone, fun entry hentry hover => ?_⟩
  obtain ⟨⟨made, names⟩, ⟨-, hmade⟩, heq⟩ := hone entry hentry hover
  refine ⟨names, ?_⟩
  rw [hmade, rrsigsOver, heq]

theorem rrsetAt_eq {rtype : Rtype} (hrtype : rtype ≠ RRSIG) (name : Name) :
    rrsetAt out name rtype = rrsetAt (base ++ chain) name rtype := by
  obtain ⟨fresh, hsigned⟩ := h.signed
  exact rrsetAt_signEverything hsigned hrtype name

theorem signable_iff_authoritative {key : Octets ×ₗ Nat}
    (hmem : (key, rrset) ∈ rrsetsOf (base ++ chain)) (hname : rrset.name.same name = true) :
    signable ((Layout.of base zone.origin.toFolded).at (ofLex key).1) rrset.name rrset.rtype
        (Layout.of base zone.origin.toFolded).origin = true ↔
      Authoritative zone.origin.toFolded base name rrset.rtype := by
  obtain ⟨hkey, -, first, hfirst, hfirstName, hrtype, -⟩ := rrset_of_mem h.ownersApart hmem
  have hnoZero : NoZero rrset.name := hfirstName ▸ h.noZero_of_mem hfirst
  have horigin : (Layout.of base zone.origin.toFolded).origin = zone.origin.toFolded := Name.toFolded_toFolded _
  have hsame : Authoritative zone.origin.toFolded base name rrset.rtype ↔
      Authoritative zone.origin.toFolded base rrset.name rrset.rtype := by
    rw [Authoritative, Authoritative, owns_congr hname, isOccluded_congr hname, isCut_congr hname]
  rw [hkey, horigin, hsame]
  refine signable_iff h.noZero h.inZone.under hnoZero (hrtype ▸ h.ne_rrsig hfirst) fun howns hkind => ?_
  rw [← hfirstName] at howns ⊢
  exact h.not_isOccluded hfirst (hrtype.symm ▸ hkind) howns

/-- **The signatures are complete.** -/
theorem signaturesComplete :
    SignaturesComplete crypto policy (signersFor keys policy.signedAt) zone.origin.toFolded out := by
  intro name rtype
  rw [h.contents_eq]
  obtain ⟨hnone, hone⟩ := h.rrsigsOver_eq name rtype
  constructor
  · rintro ⟨hthere, hrtype, hauthoritative⟩
    rw [h.rrsetAt_eq hrtype] at hthere
    obtain ⟨x, hx⟩ := List.exists_mem_of_ne_nil _ hthere
    obtain ⟨hx, hxname, hxtype⟩ := mem_rrsetAt.mp hx
    obtain ⟨key, rrset, hmem, hrrname, hrrtype⟩ := h.exists_rrset hx
    have hname : rrset.name.same name = true := by rwa [← same_congr hxname]
    obtain rfl : rrset.rtype = rtype := hrrtype.trans hxtype
    obtain ⟨names, hover⟩ := hone (key, rrset) hmem ⟨hname, rfl⟩
    rcases of_signaturesOver_none h.ours hover with ⟨hnot, -⟩ | ⟨-, hmade⟩
    · rw [(h.signable_iff_authoritative hmem hname).mpr hauthoritative] at hnot
      cases hnot
    · refine (forall₂_of_mapM_ok hmade).imp fun signer r hr => ?_
      obtain ⟨sig, hsig, hrname, httl, -, -, hparse⟩ := of_signatureBy hr.2
      obtain ⟨-, hrdatas, -⟩ := rrset_of_mem h.ownersApart hmem
      refine ⟨sig, ?_, hparse⟩
      rw [hrname, httl, h.rrsetAt_eq hrtype, ← hrdatas]
      exact hsig
  · intro hnot
    by_cases hentry : ∃ entry ∈ rrsetsOf (base ++ chain), entry.2.name.same name = true ∧ entry.2.rtype = rtype
    · obtain ⟨⟨key, rrset⟩, hmem, hname, rfl⟩ := hentry
      obtain ⟨names, hover⟩ := hone (key, rrset) hmem ⟨hname, rfl⟩
      obtain ⟨-, -, first, hfirst, hfirstName, hrtype, -⟩ := rrset_of_mem h.ownersApart hmem
      have hkind : rrset.rtype ≠ RRSIG := hrtype ▸ h.ne_rrsig hfirst
      have hthere : rrsetAt out name rrset.rtype ≠ [] := by
        rw [h.rrsetAt_eq hkind]
        exact List.ne_nil_of_mem (mem_rrsetAt.mpr ⟨hfirst, hfirstName ▸ hname, hrtype⟩)
      rcases of_signaturesOver_none h.ours hover with ⟨-, hempty⟩ | ⟨hsignable, -⟩
      · exact hempty
      · exact absurd ⟨hthere, hkind, (h.signable_iff_authoritative hmem hname).mp hsignable⟩ hnot
    · refine hnone fun entry hmem hover => hentry ⟨entry, hmem, hover⟩

theorem soa_authoritative :
    rrsetAt out zone.origin.toFolded SOA ≠ [] ∧ SOA ≠ RRSIG ∧
      Authoritative zone.origin.toFolded (contents out) zone.origin.toFolded SOA := by
  refine ⟨?_, by decide, ?_⟩
  · obtain ⟨r, hr, hat⟩ := (apexSoa h.published).1
    rw [isSoaAt, Bool.and_eq_true, beq_iff_eq] at hat
    rw [h.rrsetAt_eq (by decide)]
    exact List.ne_nil_of_mem (mem_rrsetAt.mpr ⟨List.mem_append_left _ hr, hat.2, hat.1⟩)
  · rw [h.contents_eq, Authoritative, if_neg (by decide)]
    refine ⟨not_isOccluded_origin h.inZone, fun hcut => ?_⟩
    rw [isCut, Name.same_self] at hcut
    simp at hcut

theorem exists_rrsig (hsigners : signersFor keys policy.signedAt SOA ≠ []) :
    ∃ r ∈ out, r.rtype = RRSIG ∧ ∃ key, MadeUnder crypto policy out SOA key r := by
  have hmade := (h.signaturesComplete _ _).1 h.soa_authoritative
  generalize signersFor keys policy.signedAt SOA = signers at hmade hsigners
  generalize hcovering : rrsigsOver out zone.origin.toFolded SOA = covering at hmade
  cases hmade with
  | nil => exact absurd rfl hsigners
  | @cons key r _ _ hkey _ =>
    have hr : r ∈ rrsigsOver out zone.origin.toFolded SOA := by
      rw [hcovering]
      exact List.mem_cons_self
    obtain ⟨hmem, hkind⟩ := List.mem_filter.mp hr
    rw [Bool.and_eq_true, Bool.and_eq_true, beq_iff_eq] at hkind
    exact ⟨r, hmem, hkind.1.1, key, hkey⟩

end

end SignedFrom

/-! ## Sizes -/

structure Sized (crypto : Crypto) (zone : Zone) (keys : List SigningKey) : Prop where
  zone : zone.Fits
  keys : ∀ key ∈ keys, key.dnskeyRdata.length ≤ 65535
  digest : ∀ octets, (crypto.sha256 octets).length ≤ 32
  signature : ∀ algorithm key data signature, crypto.sign algorithm key data = .ok signature →
    signature.length ≤ 65000

section Sizes

variable {crypto : Crypto} {zone : Zone} {keys : List SigningKey} {policy : SigningPolicy}
  {base : List ZoneRecord} {ttl : Ttl} {chain out : List ZoneRecord}

theorem length_carried {origin : Name} {record kept : ZoneRecord} {info : Option (Ttl × UInt32)}
    (h : carryOne origin policy record = .ok (some (kept, info)))
    (hrecord : record.rdata.rdata.length ≤ 65535) : kept.rdata.rdata.length ≤ 65535 := by
  obtain ⟨-, -, -, hplain, hsoa⟩ := of_carryOne h
  cases hat : isSoaAt origin record with
  | false =>
    rw [(hplain hat).1]
    exact hrecord
  | true =>
    obtain ⟨mname, rname, serial, refresh, retry, expire, minimum, -, hencode, -⟩ := hsoa hat
    exact (length_soa hencode).2

theorem Sized.published (h : Sized crypto zone keys) (hcheck : policy.chain.check = .ok ())
    (hpublished : published crypto zone keys policy = .ok (base, ttl)) {r : ZoneRecord} (hr : r ∈ base) :
    r.rdata.rdata.length ≤ 65535 := by
  obtain ⟨carried, soaTtl, minimum, synced, hcarried, hsynced, rfl, -⟩ := of_published hpublished
  have hsync : r ∈ synced ∨ r.rdata.rdata.length ≤ 65535 := by
    cases hkind : policy.chain with
    | nsec =>
      rw [hkind] at hr
      exact .inl hr
    | nsec3 salt iterations optOut =>
      rw [hkind] at hr hcheck
      rcases List.mem_append.mp hr with hr | hr
      · exact .inl hr
      · rw [DenialChain.check] at hcheck
        split at hcheck
        · cases hcheck
        · rw [List.mem_singleton.mp hr]
          refine .inr ?_
          show (([1, 0] ++ be16 iterations ++ [UInt8.ofNat salt.length] ++ salt : Octets)).length ≤ _
          simp only [List.length_append, length_be16, List.length_cons, List.length_nil]
          omega
  rcases hsync with hr | hle
  · rcases mem_publishSyncRecords hsynced hr with hr | ⟨-, -, -, key, hkey, -, hrdata⟩
    · rcases mem_publishDnskeys.mp hr with hr | ⟨key, hkey, -, -, rfl⟩
      · obtain ⟨record, hrecord, kept, info, ttl, hcarry, rfl⟩ := mem_carryOverRecords hcarried hr
        have hkept := length_carried hcarry (h.zone record hrecord)
        exact hkept
      · exact h.keys key hkey
    · rw [syncRdatas, List.mem_cons, List.mem_singleton] at hrdata
      rcases hrdata with hrdata | hrdata
      · have hdigest := h.digest (key.owner.toFolded.wire ++ key.dnskeyRdata)
        rw [hrdata]
        simp only [List.length_append, length_be16, List.length_cons, List.length_nil, dsDigest]
        omega
      · rw [hrdata]
        exact h.keys key hkey
  · exact hle

theorem length_denialChain {layout : Layout} {kind : DenialChain} (hcheck : kind.check = .ok ())
    (h : denialChain crypto layout kind ttl = .ok chain) {r : ZoneRecord} (hr : r ∈ chain) :
    r.rdata.rdata.length ≤ 65535 := by
  cases kind with
  | nsec =>
    obtain ⟨⟨name, next⟩, -, hrecord⟩ := mem_of_mapM_ok h hr
    dsimp only at hrecord
    rw [nsecRecord, fromParsed_nsec] at hrecord
    cases hrecord
    have hbitmap := length_buildTypeBitmap_le (nsecTypes layout name)
    have hnext := Name.length_wire_le next
    show (next.wire ++ _).length ≤ _
    rw [List.length_append]
    omega
  | nsec3 salt iterations optOut =>
    obtain ⟨hashed, -, -, -, hmade⟩ := hashed_of_nsec3Chain h
    obtain ⟨pair, -, hrecord⟩ := mem_of_mapM_ok hmade hr
    rw [nsec3Record] at hrecord
    split at hrecord
    · cases hrecord
    · rename_i rdata hrdata
      split at hrecord
      · cases hrecord
      · cases hrecord
        rw [DenialChain.check] at hcheck
        split at hcheck
        · cases hcheck
        · have hencoded := (RecordData.fromParsed_eq_ok hrdata).2
          rw [ParsedRecord.encodeRdata] at hencoded
          obtain ⟨saltLen, -, hencoded⟩ := except_bind_eq_ok.mp hencoded
          obtain ⟨nextLen, -, hencoded⟩ := except_bind_eq_ok.mp hencoded
          have hbitmap := length_buildTypeBitmap_le (nsec3Types layout pair.1.2)
          have hnext := pair.2.1.length_eq
          rw [NSEC3_HASH_LEN] at hnext
          rw [← Except.ok.inj hencoded]
          simp only [List.length_append, length_be16, List.length_cons, List.length_nil]
          omega

theorem Sized.stored (h : Sized crypto zone keys) (hcheck : policy.chain.check = .ok ())
    (hsigned : SignedFrom crypto zone keys policy base ttl chain out) : out.map storedRecord = out := by
  have hall : ∀ r ∈ out, r.rdata.rdata.length ≤ 65535 := by
    intro r hr
    obtain ⟨fresh, hout⟩ := hsigned.signed
    rcases (mem_signEverything hout).mp hr with hr | ⟨key, rrset, made, names, -, hover, hr⟩
    · rcases List.mem_append.mp hr with hr | hr
      · exact h.published hcheck hsigned.published hr
      · exact length_denialChain hcheck hsigned.denial hr
    · rcases SignedFrom.of_signaturesOver_none hsigned.ours hover with ⟨-, rfl⟩ | ⟨-, hmade⟩
      · cases hr
      · obtain ⟨signer, -, hsignature⟩ := mem_of_mapM_ok hmade hr
        exact length_signatureBy h.signature hsignature
  refine (List.map_congr_left fun r hr => ?_).trans (List.map_id out)
  show ({ r with rdata := Zones.stored r.rdata } : ZoneRecord) = r
  rw [stored_eq_self (hall r hr)]

end Sizes

/-! ## The signed zone -/

theorem of_signZone {crypto : Crypto} {zone served : Zone} {keys : List SigningKey} {policy : SigningPolicy}
    (hlocal : policy.dnskeySignature = .local) (hnames : ∀ r ∈ zone.records, NoZero r.name)
    (hsized : Sized crypto zone keys) (h : signZone crypto zone keys policy = .ok served) :
    ∃ base ttl chain, SignedFrom crypto zone keys policy base ttl chain served.records := by
  obtain ⟨⟨out, fresh⟩, hout, h⟩ := except_bind_eq_ok.mp h
  cases h
  obtain ⟨layout, signed, hunsigned, hsigned⟩ := of_signRecords hout
  obtain ⟨hcheck, -, -, base, ttl, chain, hpublished, rfl, hchain, rfl⟩ := of_unsigned hunsigned
  have hfrom : SignedFrom crypto zone keys policy base ttl chain out :=
    ⟨hlocal, hnames, hpublished, hchain, fresh, hsigned⟩
  refine ⟨base, ttl, chain, ?_⟩
  rw [zoneOf_records, hsized.stored hcheck hfrom]
  exact hfrom

/-- **A signed zone is complete**: its denial chain, and its signatures. -/
theorem signedZone_complete {crypto : Crypto} {zone served : Zone} {keys : List SigningKey}
    {policy : SigningPolicy} (hlocal : policy.dnskeySignature = .local)
    (hnames : ∀ r ∈ zone.records, NoZero r.name) (hsized : Sized crypto zone keys)
    (h : signZone crypto zone keys policy = .ok served) :
    ChainComplete crypto zone.origin.toFolded served.records policy.chain ∧
      SignaturesComplete crypto policy (signersFor keys policy.signedAt) zone.origin.toFolded served.records := by
  obtain ⟨base, ttl, chain, hsigned⟩ := of_signZone hlocal hnames hsized h
  exact ⟨hsigned.chainComplete, hsigned.signaturesComplete⟩

/-! ## `ex.` signed with one key -/

theorem exZone_signed (records : List ZoneRecord)
    (h : (exRun records 1754197300 .local none).encodes = true) :
    ∃ served, signZone ed25519Crypto (zoneOf ex records) [firstKey 257 .default]
      (.validFor 1754197300 2592000 .nsec .local) = .ok served :=
  exRun_served records 1754197300 .local none h

theorem exZone_sized {records : List ZoneRecord} : Sized ed25519Crypto (zoneOf ex records) [firstKey 257 .default] where
  zone := by
    intro r hr
    rw [zoneOf_records] at hr
    obtain ⟨r', -, rfl⟩ := List.mem_map.mp hr
    exact Zone.length_stored_le _
  keys := by
    intro key hkey
    rw [List.mem_singleton.mp hkey]
    decide
  digest := fun _ => Nat.zero_le _
  signature := fun algorithm _ _ _ => length_ed25519Sign algorithm

instance (name : Name) : Decidable (NoZero name) :=
  inferInstanceAs (Decidable (∀ label ∈ name.labels, 0 ∉ label))

theorem signedZone_complete_ex :
    ∃ served, signZone ed25519Crypto (zoneOf ex [exSoa, wwwA]) [firstKey 257 .default]
        (.validFor 1754197300 2592000 .nsec .local) = .ok served ∧
      NsecComplete (zoneOf ex [exSoa, wwwA]).origin.toFolded served.records ∧
      SignaturesComplete ed25519Crypto (.validFor 1754197300 2592000 .nsec .local)
        (signersFor [firstKey 257 .default] 1754197300) (zoneOf ex [exSoa, wwwA]).origin.toFolded
        served.records := by
  obtain ⟨served, hserved⟩ := exZone_signed [exSoa, wwwA] (by decide +kernel)
  have hcomplete := signedZone_complete rfl (by decide +kernel) exZone_sized hserved
  exact ⟨served, hserved, hcomplete.1, hcomplete.2⟩

def keysOfRole (keys : List SigningKey) (now : Nat) (rtype : Rtype) : List SigningKey :=
  (activeSigningKeys keys now).filter fun key =>
    key.isSep == (rtype == DNSKEY || rtype == CDS || rtype == CDNSKEY)

/-- **A key on its own has every role**: where the only key is a SEP key, it signs the SOA. -/
theorem only_key_signs_all :
    ¬ ∀ (crypto : Crypto) (zone served : Zone) (keys : List SigningKey) (policy : SigningPolicy),
      policy.dnskeySignature = .local → signZone crypto zone keys policy = .ok served →
      ChainComplete crypto zone.origin.toFolded served.records policy.chain ∧
        SignaturesComplete crypto policy (keysOfRole keys policy.signedAt) zone.origin.toFolded
          served.records := by
  intro hroles
  obtain ⟨served, hserved⟩ := exZone_signed [exSoa] (by decide +kernel)
  obtain ⟨base, ttl, chain, hsigned⟩ := of_signZone rfl (by decide +kernel) exZone_sized hserved
  have hclaimed := (hroles _ _ _ _ _ rfl hserved).2 (zoneOf ex [exSoa]).origin.toFolded SOA
  have hmade := hsigned.signaturesComplete (zoneOf ex [exSoa]).origin.toFolded SOA
  have hsoa := hsigned.soa_authoritative
  -- no key signs the SOA by its role, and there is a signature
  have hlengths := (hclaimed.1 hsoa).length_eq.trans (hmade.1 hsoa).length_eq.symm
  revert hlengths
  decide +kernel

end Rdns.Dnssec
