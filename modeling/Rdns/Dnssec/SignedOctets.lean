import Rdns.Dnssec.IncrementalSigning

/-!
# Rdns — What a signature is over

The octets that are signed spell the signature's fields, the name it was made at and the RRset
in canonical form: two RRsets with the same octets are the same, served wherever.
-/

namespace Rdns.Dnssec

open Rdns.Lib Rdns.Core Rdns.Present

def signedFields (rrsig : Rrsig) : Octets :=
  be16 rrsig.typeCovered.code ++ [rrsig.algorithm, rrsig.labels] ++ be32 rrsig.originalTtl
    ++ be32 rrsig.expiration ++ be32 rrsig.inception ++ be16 rrsig.keyTag

variable {rrsig rrsig' : Rrsig}

theorem of_signedRecord {owner : Octets} {cls : Core.Class} {rdata octets : Octets}
    (h : signedRecord rrsig owner cls rdata = .ok octets) :
    rdata.length ≤ 65535 ∧ octets = owner ++ (be16 rrsig.typeCovered.code ++ be16 cls.code ++ be32 rrsig.originalTtl
      ++ (be16 (UInt16.ofNat rdata.length) ++ rdata)) := by
  rw [signedRecord] at h
  split at h
  · cases h
  · grind

theorem of_signedData {rrset : Rrset} {data : Octets} (h : signedData rrsig rrset = .ok data) :
    rrset.rdatas ≠ [] ∧ ∃ signedAt canonical records,
      signedOwnerName rrset.owner rrsig.labels = .ok signedAt ∧ canonicalRdatas rrset.rdatas = .ok canonical ∧
      canonical.mapM (signedRecord rrsig signedAt.wire rrset.cls) = .ok records ∧
      data = signedFields rrsig ++ (rrsig.signerName.toFolded.wire ++ records.flatten) := by
  rw [signedData] at h
  split at h
  · cases h
  · rename_i hnonempty
    obtain ⟨signedAt, hsignedAt, h⟩ := except_bind_eq_ok.mp h
    obtain ⟨canonical, hcanonical, h⟩ := except_bind_eq_ok.mp h
    obtain ⟨records, hrecords, h⟩ := except_bind_eq_ok.mp h
    cases h
    refine ⟨?_, signedAt, canonical, records, mapError_eq_ok.mp hsignedAt, mapError_eq_ok.mp hcanonical, hrecords, ?_⟩
    · rwa [List.isEmpty_iff] at hnonempty
    · simp only [signedFields, List.append_assoc]

theorem wire_append_injective {a b : Name} {restA restB : Octets} (h : a.wire ++ restA = b.wire ++ restB) :
    a = b ∧ restA = restB := by
  obtain ⟨hlabels, hrest⟩ := wireOf_append_injective a.labels_ok b.labels_ok h
  exact ⟨Name.ext hlabels, hrest⟩

theorem rdata_append_injective {x y restX restY : Octets} (hx : x.length ≤ 65535) (hy : y.length ≤ 65535)
    (h : be16 (UInt16.ofNat x.length) ++ (x ++ restX) = be16 (UInt16.ofNat y.length) ++ (y ++ restY)) :
    x = y ∧ restX = restY := by
  obtain ⟨hlength, h⟩ := List.append_inj h rfl
  have hsame : x.length = y.length := by
    have htoNat := congrArg UInt16.toNat (be16_injective hlength)
    rw [UInt16.toNat_ofNat', UInt16.toNat_ofNat'] at htoNat
    omega
  exact List.append_inj h hsame

theorem mapM_cons_eq_ok {α β ε : Type} {f : α → Except ε β} {x : α} {xs : List α} {out : List β} :
    (x :: xs).mapM f = .ok out ↔ ∃ y ys, f x = .ok y ∧ xs.mapM f = .ok ys ∧ out = y :: ys := by
  rw [List.mapM_cons]
  constructor
  · intro h
    obtain ⟨y, hy, h⟩ := except_bind_eq_ok.mp h
    obtain ⟨ys, hys, h⟩ := except_bind_eq_ok.mp h
    cases h
    exact ⟨y, ys, hy, hys, rfl⟩
  · rintro ⟨y, ys, hy, hys, rfl⟩
    rw [hy, hys]
    rfl

theorem records_injective {a b : Name} {cls cls' : Core.Class}
    {xs ys recordsX recordsY : List Octets}
    (hxs : xs.mapM (signedRecord rrsig a.wire cls) = .ok recordsX)
    (hys : ys.mapM (signedRecord rrsig' b.wire cls') = .ok recordsY)
    (h : recordsX.flatten = recordsY.flatten) : xs = ys ∧ (xs ≠ [] → a = b) := by
  induction xs generalizing ys recordsX recordsY with
  | nil =>
    cases hxs
    cases ys with
    | nil => exact ⟨rfl, fun hne => absurd rfl hne⟩
    | cons y ys =>
      obtain ⟨first, rest, hfirst, -, rfl⟩ := mapM_cons_eq_ok.mp hys
      rw [(of_signedRecord hfirst).2] at h
      have hlength := congrArg List.length h
      simp only [List.flatten_cons, List.length_append, length_be16] at hlength
      exact absurd hlength (by simp; omega)
  | cons x xs ih =>
    obtain ⟨firstX, restX, hfirstX, hrestX, rfl⟩ := mapM_cons_eq_ok.mp hxs
    obtain ⟨hlengthX, rfl⟩ := of_signedRecord hfirstX
    cases ys with
    | nil =>
      cases hys
      have hlength := congrArg List.length h
      simp only [List.flatten_cons, List.length_append, length_be16] at hlength
      exact absurd hlength (by simp)
    | cons y ys =>
      obtain ⟨firstY, restY, hfirstY, hrestY, rfl⟩ := mapM_cons_eq_ok.mp hys
      obtain ⟨hlengthY, rfl⟩ := of_signedRecord hfirstY
      simp only [List.flatten_cons, List.append_assoc] at h
      obtain ⟨rfl, htype⟩ := wire_append_injective h
      obtain ⟨-, hcls⟩ := List.append_inj htype rfl
      obtain ⟨-, httl⟩ := List.append_inj hcls rfl
      obtain ⟨-, hrdata⟩ := List.append_inj httl rfl
      obtain ⟨rfl, hrest⟩ := rdata_append_injective hlengthX hlengthY hrdata
      obtain ⟨rfl, -⟩ := ih hrestX hrestY hrest
      exact ⟨rfl, fun _ => rfl⟩

theorem signedFields_injective (h : signedFields rrsig = signedFields rrsig') :
    rrsig.typeCovered = rrsig'.typeCovered ∧ rrsig.labels = rrsig'.labels := by
  rw [signedFields, signedFields] at h
  simp only [List.append_assoc] at h
  obtain ⟨hrtype, h⟩ := List.append_inj h rfl
  obtain ⟨hlabels, -⟩ := List.append_inj h rfl
  refine ⟨congrArg Rtype.mk (be16_injective hrtype), ?_⟩
  rw [List.cons.injEq, List.cons.injEq] at hlabels
  exact hlabels.2.1

theorem canonicalRdatas_ne_nil {rdatas : List RecordData} {canonical : List Octets} (hnonempty : rdatas ≠ [])
    (h : canonicalRdatas rdatas = .ok canonical) : canonical ≠ [] := by
  obtain ⟨forms, hforms, -⟩ := except_bind_eq_ok.mp h
  rw [canonicalRdatas_eq hforms] at h
  obtain ⟨rdata, hrdata⟩ := List.exists_mem_of_ne_nil _ hnonempty
  obtain ⟨form, hform, -⟩ := exists_of_mapM_ok hforms hrdata
  rw [← Except.ok.inj h]
  exact List.ne_nil_of_mem (mem_sortedSet.mpr hform)

/-- **The signed octets determine what was signed**: the type, the labels and the signer, the name
the signature was made at, and the RDATA in canonical form. -/
theorem signedData_injective {rrset rrset' : Rrset} {data : Octets}
    (h : signedData rrsig rrset = .ok data) (h' : signedData rrsig' rrset' = .ok data) :
    rrsig.typeCovered = rrsig'.typeCovered ∧ rrsig.labels = rrsig'.labels ∧
      rrsig.signerName.same rrsig'.signerName = true ∧
      ∃ signedAt canonical, signedOwnerName rrset.owner rrsig.labels = .ok signedAt ∧
        signedOwnerName rrset'.owner rrsig'.labels = .ok signedAt ∧
        canonicalRdatas rrset.rdatas = .ok canonical ∧ canonicalRdatas rrset'.rdatas = .ok canonical := by
  obtain ⟨hnonempty, signedAt, canonical, records, hsignedAt, hcanonical, hrecords, rfl⟩ := of_signedData h
  obtain ⟨-, signedAt', canonical', records', hsignedAt', hcanonical', hrecords', heq⟩ := of_signedData h'
  obtain ⟨hfields, heq⟩ := List.append_inj heq rfl
  obtain ⟨hsigner, heq⟩ := wire_append_injective heq
  obtain ⟨rfl, hat⟩ := records_injective hrecords hrecords' heq
  obtain rfl : signedAt = signedAt' := hat (canonicalRdatas_ne_nil hnonempty hcanonical)
  obtain ⟨hrtype, hlabels⟩ := signedFields_injective hfields
  exact ⟨hrtype, hlabels, Name.same_iff.mpr hsigner, signedAt, canonical, hsignedAt, hsignedAt', hcanonical, hcanonical'⟩

end Rdns.Dnssec
