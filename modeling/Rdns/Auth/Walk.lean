import Rdns.Core.DName

/-!
# Rdns — Where a message's records end

The walk over a message that `rdns-tsig/src/tsig.rs` finds the TSIG by: names and records are
stepped over, never read. What a walk comes to rests on the octets it passes and on no others.
-/

namespace Rdns.Auth

open Rdns.Lib Rdns.Core

/-! ## Words of a message -/

def u16At (packet : Octets) (pos : Nat) : UInt16 := ofBe16 (packet.getD pos 0) (packet.getD (pos + 1) 0)

def setU16 (packet : Octets) (pos : Nat) (value : UInt16) : Octets :=
  packet.take pos ++ (be16 value ++ packet.drop (pos + 2))

section Words

variable {packet : Octets} {pos : Nat}

@[simp]
theorem length_setU16 (value : UInt16) (h : pos + 2 ≤ packet.length) :
    (setU16 packet pos value).length = packet.length := by
  rw [setU16, List.length_append, List.length_append, List.length_take, length_be16, List.length_drop]
  omega

theorem getElem?_setU16_of_lt {value : UInt16} {at_ : Nat} (h : at_ < pos) (hlen : pos ≤ packet.length) :
    (setU16 packet pos value)[at_]? = packet[at_]? := by
  rw [setU16, List.getElem?_append_left (by rw [List.length_take]; omega), List.getElem?_take_of_lt h]

theorem getElem?_setU16_of_le {value : UInt16} {at_ : Nat} (h : pos + 2 ≤ at_) (hlen : pos ≤ packet.length) :
    (setU16 packet pos value)[at_]? = packet[at_]? := by
  have htake : (packet.take pos).length = pos := by
    rw [List.length_take]
    omega
  rw [setU16, List.getElem?_append_right (by omega), List.getElem?_append_right (by rw [length_be16]; omega),
    List.getElem?_drop, htake, length_be16]
  congr 1
  omega

theorem u16At_setU16 (value : UInt16) (h : pos ≤ packet.length) : u16At (setU16 packet pos value) pos = value := by
  have htake : (packet.take pos).length = pos := by
    rw [List.length_take]
    omega
  have hread : ∀ shift : Nat, (setU16 packet pos value).getD (pos + shift) 0
      = (be16 value ++ packet.drop (pos + 2)).getD shift 0 := by
    intro shift
    rw [setU16, List.getD_eq_getElem?_getD, List.getElem?_append_right (by omega), htake,
      Nat.add_sub_cancel_left, List.getD_eq_getElem?_getD]
  have hfirst := hread 0
  have hsecond := hread 1
  rw [Nat.add_zero] at hfirst
  rw [u16At, hfirst, hsecond]
  exact ofBe16_be16 value

theorem u16At_congr {other : Octets} (h : ∀ at_, pos ≤ at_ → at_ < pos + 2 → other[at_]? = packet[at_]?) :
    u16At other pos = u16At packet pos := by
  rw [u16At, u16At, List.getD_eq_getElem?_getD, List.getD_eq_getElem?_getD, List.getD_eq_getElem?_getD,
    List.getD_eq_getElem?_getD, h pos (by omega) (by omega), h (pos + 1) (by omega) (by omega)]

theorem u16At_append (before after : Octets) (shift : Nat) :
    u16At (before ++ after) (before.length + shift) = u16At after shift := by
  have hread : ∀ at_ : Nat, (before ++ after)[before.length + at_]? = after[at_]? := by
    intro at_
    rw [List.getElem?_append_right (by omega), Nat.add_sub_cancel_left]
  rw [u16At, u16At, List.getD_eq_getElem?_getD, List.getD_eq_getElem?_getD, Nat.add_assoc, hread, hread,
    List.getD_eq_getElem?_getD, List.getD_eq_getElem?_getD]

theorem setU16_u16At (h : pos + 2 ≤ packet.length) : setU16 packet pos (u16At packet pos) = packet := by
  have hget : ∀ at_, at_ < packet.length → packet.getD at_ 0 :: packet.drop (at_ + 1) = packet.drop at_ := by grind [List.drop_eq_getElem_cons]
  rw [setU16, u16At, be16_ofBe16, List.cons_append, List.cons_append, List.nil_append, hget (pos + 1) (by omega),
    hget pos (by omega), List.take_append_drop]

theorem setU16_setU16 (a b : UInt16) (h : pos + 2 ≤ packet.length) :
    setU16 (setU16 packet pos a) pos b = setU16 packet pos b := by
  have htake : (packet.take pos).length = pos := by
    rw [List.length_take]
    omega
  rw [setU16, setU16]
  congr 1
  · rw [List.take_append_of_le_length (by omega), List.take_take, Nat.min_self]
  · congr 1
    rw [List.drop_append, htake, Nat.add_sub_cancel_left, List.drop_eq_nil_of_le (by omega), List.nil_append]
    rfl

theorem setU16_append (value : UInt16) (after : Octets) (h : pos + 2 ≤ packet.length) :
    setU16 (packet ++ after) pos value = setU16 packet pos value ++ after := by
  rw [setU16, setU16, List.take_append_of_le_length (by omega), List.drop_append_of_le_length (by omega),
    List.append_assoc, List.append_assoc]

end Words

/-! ## Stepping over names and records -/

def skipName (packet : Octets) (pos : Nat) : Option Nat :=
  match _h : packet[pos]? with
  | none => none
  | some len =>
    if len &&& 0xc0 = 0xc0 then some (pos + 2)
    else if len = 0 then some (pos + 1)
    else skipName packet (pos + 1 + len.toNat)
termination_by packet.length - pos
decreasing_by
  have := (List.getElem?_eq_some_iff.mp _h).1
  omega

def skipRecord (packet : Octets) (pos : Nat) : Option Nat :=
  match skipName packet pos with
  | none => none
  | some pos =>
    if pos + 10 > packet.length then none
    else
      let rdend := pos + 10 + (u16At packet (pos + 8)).toNat
      if rdend > packet.length then none else some rdend

def skipQuestion (packet : Octets) (pos : Nat) : Option Nat := (skipName packet pos).map (· + 4)

def walk (skip : Nat → Option Nat) : Nat → Nat → Option Nat
  | 0, pos => some pos
  | count + 1, pos => (skip pos).bind (walk skip count)

def sectionsEnd (packet : Octets) (questions records : Nat) : Option Nat :=
  (walk (skipQuestion packet) questions 12).bind (walk (skipRecord packet) records)

section Steps

variable {packet other : Octets} {pos stop : Nat}

theorem skipName_of_none (h : packet[pos]? = none) : skipName packet pos = none := by
  rw [skipName]
  split
  · rfl
  · next len hlen =>
    rw [h] at hlen
    cases hlen

theorem skipName_of_some {len : UInt8} (h : packet[pos]? = some len) :
    skipName packet pos =
      if len &&& 0xc0 = 0xc0 then some (pos + 2)
      else if len = 0 then some (pos + 1)
      else skipName packet (pos + 1 + len.toNat) := by
  rw [skipName]
  split
  · next hnone =>
    rw [h] at hnone
    cases hnone
  · next len' hlen =>
    cases h.symm.trans hlen
    rfl

theorem lt_of_skipName (h : skipName packet pos = some stop) : pos < stop ∧ pos < packet.length := by
  induction pos using skipName.induct packet with
  | case1 pos hnone =>
    rw [skipName_of_none hnone] at h
    cases h
  | case2 pos len hlen hpointer => grind [skipName_of_some]
  | case3 pos hlen hpointer => grind [skipName_of_some]
  | case4 pos len hlen hpointer hzero ih =>
    rw [skipName_of_some hlen, if_neg hpointer, if_neg hzero] at h
    have hrest := ih h
    exact ⟨by omega, (List.getElem?_eq_some_iff.mp hlen).1⟩

theorem skipName_congr (h : skipName packet pos = some stop)
    (hagree : ∀ at_, pos ≤ at_ → at_ < stop → at_ < packet.length → other[at_]? = packet[at_]?) :
    skipName other pos = some stop := by
  have hlt := lt_of_skipName h
  have hfirst : other[pos]? = packet[pos]? := hagree pos le_rfl hlt.1 hlt.2
  induction pos using skipName.induct packet with
  | case1 pos hnone =>
    rw [skipName_of_none hnone] at h
    cases h
  | case2 pos len hlen hpointer => grind [skipName_of_some]
  | case3 pos hlen hpointer => grind [skipName_of_some]
  | case4 pos len hlen hpointer hzero ih =>
    rw [skipName_of_some hlen, if_neg hpointer, if_neg hzero] at h
    rw [skipName_of_some (hfirst.trans hlen), if_neg hpointer, if_neg hzero]
    have hnext := lt_of_skipName h
    exact ih h (fun at_ hle => hagree at_ (by omega)) hnext (hagree _ (by omega) hnext.1 hnext.2)

theorem lengthOctet_plain {label : Octets} (h : ValidLabel label) :
    ¬ UInt8.ofNat label.length &&& 0xc0 = 0xc0 ∧ UInt8.ofNat label.length ≠ 0 := by
  have hall : ∀ n : Fin 64, 0 < n.val → ¬ UInt8.ofNat n.val &&& 0xc0 = 0xc0 ∧ UInt8.ofNat n.val ≠ 0 := by decide
  have hlen : label.length < 64 := by
    have := h.2
    rw [MAX_LABEL_LEN] at this
    omega
  exact hall ⟨label.length, hlen⟩ h.1

/-- **A name written in full is stepped over whole.** -/
theorem skipName_wireOf {labels : List Octets} (h : ∀ l ∈ labels, ValidLabel l) (before after : Octets) :
    skipName (before ++ (wireOf labels ++ after)) before.length = some (before.length + (wireOf labels).length) := by
  have hfirst : ∀ bytes : Octets, (before ++ bytes)[before.length]? = bytes[0]? := by
    intro bytes
    rw [List.getElem?_append_right le_rfl, Nat.sub_self]
  induction labels generalizing before with
  | nil =>
    rw [skipName_of_some (hfirst _), if_neg (by decide), if_pos rfl]
    rfl
  | cons label rest ih =>
    obtain ⟨hpointer, hroot⟩ := lengthOctet_plain (h label List.mem_cons_self)
    rw [skipName_of_some (hfirst _), if_neg hpointer, if_neg hroot, toNat_lengthOctet (h label List.mem_cons_self)]
    have hlabel : (labelOctets label).length = label.length + 1 := rfl
    have hsplit : before ++ (wireOf (label :: rest) ++ after)
        = (before ++ labelOctets label) ++ (wireOf rest ++ after) := by
      rw [wireOf_cons, List.append_assoc, List.append_assoc]
    have hrest := ih (fun l hl => h l (List.mem_cons_of_mem _ hl)) (before ++ labelOctets label) fun bytes => by
      rw [List.getElem?_append_right le_rfl, Nat.sub_self]
    rw [List.length_append, hlabel] at hrest
    rw [hsplit, Nat.add_right_comm before.length 1, Nat.add_assoc before.length, hrest, wireOf_cons, List.length_append,
      hlabel, Nat.add_assoc]

theorem le_of_skipRecord (h : skipRecord packet pos = some stop) : pos + 11 ≤ stop ∧ stop ≤ packet.length := by
  rw [skipRecord] at h
  split at h
  · cases h
  · next named hnamed =>
    have hlt := lt_of_skipName hnamed
    dsimp only at h
    split_ifs at h with hfixed hend
    cases h
    omega

theorem skipRecord_congr (h : skipRecord packet pos = some stop)
    (hagree : ∀ at_, pos ≤ at_ → at_ < stop → other[at_]? = packet[at_]?) : skipRecord other pos = some stop := by
  have hle := le_of_skipRecord h
  have hlength : stop ≤ other.length := by
    have hlast := hagree (stop - 1) (by omega) (by omega)
    rw [List.getElem?_eq_getElem (by omega : stop - 1 < packet.length)] at hlast
    have := (List.getElem?_eq_some_iff.mp hlast).1
    omega
  rw [skipRecord] at h ⊢
  split at h
  · cases h
  · next named hnamed =>
    have hlt := lt_of_skipName hnamed
    dsimp only at h
    split_ifs at h with hfixed hend
    cases h
    rw [skipName_congr hnamed fun at_ hge hbelow _ => hagree at_ hge (by omega)]
    dsimp only
    have hword : u16At other (named + 8) = u16At packet (named + 8) :=
      u16At_congr fun at_ hge hbelow => hagree at_ (by omega) (by omega)
    rw [if_neg (by omega), hword, if_neg (by omega)]

theorem skipQuestion_congr (h : skipQuestion packet pos = some stop)
    (hagree : ∀ at_, pos ≤ at_ → at_ < stop → at_ < packet.length → other[at_]? = packet[at_]?) :
    skipQuestion other pos = some stop := by
  obtain ⟨named, hnamed, rfl⟩ := Option.map_eq_some_iff.mp h
  rw [skipQuestion, skipName_congr hnamed fun at_ hge hbelow => hagree at_ hge (by omega)]
  rfl

theorem le_of_skipQuestion (h : skipQuestion packet pos = some stop) : pos + 5 ≤ stop := by
  obtain ⟨named, hnamed, rfl⟩ := Option.map_eq_some_iff.mp h
  have := (lt_of_skipName hnamed).1
  omega

end Steps

section Walks

variable {skip other : Nat → Option Nat} {count pos stop : Nat}

theorem le_of_walk (size : Nat) (hskip : ∀ {pos stop}, skip pos = some stop → pos + size ≤ stop)
    (h : walk skip count pos = some stop) : pos + size * count ≤ stop := by
  induction count generalizing pos with
  | zero =>
    cases h
    omega
  | succ count ih =>
    obtain ⟨next, hnext, hrest⟩ := Option.bind_eq_some_iff.mp h
    have hfirst := hskip hnext
    have hlater := ih hrest
    rw [Nat.mul_succ]
    omega

theorem walk_congr (hskip : ∀ {pos stop}, skip pos = some stop → pos ≤ stop)
    (hagree : ∀ {from_ to_}, pos ≤ from_ → to_ ≤ stop → skip from_ = some to_ → other from_ = some to_)
    (h : walk skip count pos = some stop) : walk other count pos = some stop := by
  induction count generalizing pos with
  | zero => exact h
  | succ count ih =>
    obtain ⟨next, hnext, hrest⟩ := Option.bind_eq_some_iff.mp h
    have hle := hskip hnext
    have hend : next ≤ stop := by
      have := le_of_walk 0 (fun h => by have := hskip h; omega) hrest
      omega
    rw [walk, hagree le_rfl hend hnext]
    exact ih (fun hge => hagree (by omega)) hrest

end Walks

section Sections

variable {packet other : Octets} {questions records stop : Nat}

theorem le_of_sectionsEnd (h : sectionsEnd packet questions records = some stop) : 12 + 11 * records ≤ stop := by
  obtain ⟨middle, hquestions, hrecords⟩ := Option.bind_eq_some_iff.mp h
  have hfirst := le_of_walk 5 (fun h => le_of_skipQuestion h) hquestions
  have hlater := le_of_walk 11 (fun h => (le_of_skipRecord h).1) hrecords
  omega

/-- **Messages that agree from their header to where the sections of one end** have them end there. -/
theorem sectionsEnd_congr (h : sectionsEnd packet questions records = some stop)
    (hagree : ∀ at_, 12 ≤ at_ → at_ < stop → other[at_]? = packet[at_]?) :
    sectionsEnd other questions records = some stop := by
  obtain ⟨middle, hquestions, hrecords⟩ := Option.bind_eq_some_iff.mp h
  have hfirst := le_of_walk 5 (fun h => le_of_skipQuestion h) hquestions
  have hlater := le_of_walk 11 (fun h => (le_of_skipRecord h).1) hrecords
  refine Option.bind_eq_some_iff.mpr ⟨middle, ?_, ?_⟩
  · refine walk_congr (fun h => (by have := le_of_skipQuestion h; omega)) (fun hge hle hskip => ?_) hquestions
    exact skipQuestion_congr hskip fun at_ hfrom hbelow _ => hagree at_ (by omega) (by omega)
  · refine walk_congr (fun h => (by have := le_of_skipRecord h; omega)) (fun hge hle hskip => ?_) hrecords
    exact skipRecord_congr hskip fun at_ hfrom hbelow => hagree at_ (by omega) (by omega)

end Sections

end Rdns.Auth
