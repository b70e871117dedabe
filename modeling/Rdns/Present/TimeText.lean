import Rdns.Present.FieldText
import Mathlib.Tactic.IntervalCases

/-!
# Rdns — The times of an RRSIG read back

`rdns-present/src/dnssec_time.rs`: the writer counts days off year by year and month by
month, the reader adds them up again.
-/

namespace Rdns.Present

open Rdns.Lib

/-! ## Padded numbers -/

variable {n width : Nat}

theorem isDigit_of_mem_zeroPadded {c : Char} (h : c ∈ zeroPadded width n) : c.isDigit = true := by
  rcases List.mem_append.mp h with h | h
  · rw [List.eq_of_mem_replicate h]
    decide
  · exact isDigit_of_mem_decimal h

theorem length_zeroPadded (hwidth : 0 < width) (h : n < 10 ^ width) :
    (zeroPadded width n).length = width := by
  have hle : (decimal n).length ≤ width := (Nat.length_toDigits_le_iff (by decide) hwidth).mpr h
  rw [zeroPadded, List.length_append, List.length_replicate]
  omega

theorem ofDigitChars_zeroPadded (width n : Nat) :
    Nat.ofDigitChars 10 (zeroPadded width n) 0 = n := by
  rw [zeroPadded, Nat.ofDigitChars_append, Nat.ofDigitChars_replicate_zero, Nat.mul_zero]
  exact Nat.ofDigitChars_ten_toDigits

theorem parseDigits_zeroPadded (hwidth : 0 < width) (h : n < 10 ^ width) :
    parseDigits (zeroPadded width n) = some n := by
  have hempty : (zeroPadded width n).isEmpty = false := by
    rw [List.isEmpty_eq_false_iff, ← List.length_pos_iff, length_zeroPadded hwidth h]
    exact hwidth
  have hall : (zeroPadded width n).all Char.isDigit = true :=
    List.all_eq_true.mpr fun c hc => isDigit_of_mem_zeroPadded hc
  rw [parseDigits, hempty, hall]
  exact congrArg some (ofDigitChars_zeroPadded width n)

theorem sliceNumber_field {text front rest : Text} {start count : Nat} (hcount : 0 < count)
    (hn : n < 10 ^ count) (htext : text = front ++ (zeroPadded count n ++ rest))
    (hstart : front.length = start) : sliceNumber text start count = some n := by
  rw [sliceNumber, htext, List.drop_left' hstart, List.take_left' (length_zeroPadded hcount hn)]
  exact parseDigits_zeroPadded hcount hn

/-! ## Counting days off -/

theorem daysInYear_pos (year : Nat) : 365 ≤ daysInYear year := by
  rw [daysInYear]
  split <;> decide

/-- **The year a day falls in**: the whole years before it, and a day of that year. -/
theorem yearOf_spec (year days : Nat) :
    year ≤ (yearOf year days).1 ∧ (yearOf year days).2 < daysInYear (yearOf year days).1 ∧
      ((List.range' year ((yearOf year days).1 - year)).map daysInYear).sum +
        (yearOf year days).2 = days := by
  induction days using Nat.strong_induction_on generalizing year with
  | _ days ih =>
    have hyear := daysInYear_pos year
    rw [yearOf]
    split
    · grind
    · rename_i hge
      obtain ⟨hle, hday, hsum⟩ := ih (days - daysInYear year) (by omega) (year + 1)
      refine ⟨by omega, hday, ?_⟩
      have hcount : (yearOf (year + 1) (days - daysInYear year)).1 - year =
          ((yearOf (year + 1) (days - daysInYear year)).1 - (year + 1)) + 1 := by omega
      rw [hcount, List.range'_succ, List.map_cons, List.sum_cons]
      omega

theorem daysInMonth_eq {month : Nat} (hlow : 1 ≤ month) (hhigh : month ≤ 12) (year : Nat) :
    daysInMonth month year = some ((daysInMonth month year).getD 0) := by
  interval_cases month <;> rfl

theorem sum_daysInMonth (year : Nat) :
    ((List.range' 1 12).map fun m => (daysInMonth m year).getD 0).sum = daysInYear year := by
  rw [daysInYear]
  simp only [List.range', daysInMonth]
  cases isLeap year <;> rfl

/-- **The month a day of a year falls in**, from a month that is not past it. -/
theorem monthOf_spec (year fuel : Nat) : ∀ month days : Nat, 1 ≤ month → month + fuel = 12 →
    days < ((List.range' month (fuel + 1)).map fun m => (daysInMonth m year).getD 0).sum →
    month ≤ (monthOf year fuel month days).1 ∧ (monthOf year fuel month days).1 ≤ 12 ∧
      (monthOf year fuel month days).2 <
        (daysInMonth (monthOf year fuel month days).1 year).getD 0 ∧
      ((List.range' month ((monthOf year fuel month days).1 - month)).map
        fun m => (daysInMonth m year).getD 0).sum + (monthOf year fuel month days).2 = days := by
  induction fuel with
  | zero =>
    intro month days hlow hsum hdays
    rw [List.range'_succ, List.range'_zero, List.map_cons, List.map_nil, List.sum_cons,
      List.sum_nil, Nat.add_zero] at hdays
    rw [monthOf]
    refine ⟨le_refl _, by omega, hdays, ?_⟩
    rw [Nat.sub_self, List.range'_zero, List.map_nil, List.sum_nil, Nat.zero_add]
  | succ fuel ih =>
    intro month days hlow hsum hdays
    have hmonth := daysInMonth_eq hlow (by omega) year
    rw [monthOf, hmonth]
    dsimp only
    split
    · grind
    · rename_i hge
      rw [List.range'_succ, List.map_cons, List.sum_cons] at hdays
      obtain ⟨hle, htwelve, hday, hrest⟩ :=
        ih (month + 1) (days - (daysInMonth month year).getD 0) (by omega) (by omega) (by omega)
      refine ⟨by omega, htwelve, hday, ?_⟩
      have hcount : (monthOf year fuel (month + 1) (days - (daysInMonth month year).getD 0)).1 - month =
          ((monthOf year fuel (month + 1) (days - (daysInMonth month year).getD 0)).1 - (month + 1)) + 1 := by
        omega
      rw [hcount, List.range'_succ, List.map_cons, List.sum_cons]
      omega

/-! ## The time -/

/-- The years a 32-bit time can fall in. -/
theorem yearOf_le {days : Nat} (h : days ≤ 49710) : (yearOf 1970 days).1 ≤ 2106 := by
  obtain ⟨hlow, -, hsum⟩ := yearOf_spec 1970 days
  have hcount : ∀ year count : Nat, 365 * count ≤ ((List.range' year count).map daysInYear).sum := by
    intro year count
    induction count generalizing year with
    | zero => exact Nat.zero_le _
    | succ count ih =>
      rw [List.range'_succ, List.map_cons, List.sum_cons]
      have := ih (year + 1)
      have := daysInYear_pos year
      omega
  have := hcount 1970 ((yearOf 1970 days).1 - 1970)
  omega

def timeFields (year month day hour min sec : Nat) : Text :=
  zeroPadded 4 year ++ zeroPadded 2 month ++ zeroPadded 2 day ++ zeroPadded 2 hour ++
    zeroPadded 2 min ++ zeroPadded 2 sec

section Fields

variable {year month day hour min sec : Nat}

theorem isDigit_of_mem_timeFields {c : Char} (h : c ∈ timeFields year month day hour min sec) :
    c.isDigit = true := by
  simp only [timeFields, List.mem_append] at h
  rcases h with ((((h | h) | h) | h) | h) | h
  all_goals exact isDigit_of_mem_zeroPadded h

variable (hyear : year < 10000) (hmonth : month < 100) (hday : day < 100) (hhour : hour < 100)
  (hmin : min < 100) (hsec : sec < 100)

include hyear hmonth hday hhour hmin hsec

theorem length_timeFields : (timeFields year month day hour min sec).length = 14 := by
  simp only [timeFields, List.length_append]
  rw [length_zeroPadded (by decide) (by omega), length_zeroPadded (by decide) (by omega),
    length_zeroPadded (by decide) (by omega), length_zeroPadded (by decide) (by omega),
    length_zeroPadded (by decide) (by omega), length_zeroPadded (by decide) (by omega)]

/-- **Fourteen digits are no bare epoch**: from 1970 on they are a number past 32 bits. -/
theorem parseU32_timeFields (hepoch : 1970 ≤ year) :
    parseU32 (timeFields year month day hour min sec) = none := by
  have hlength := length_timeFields hyear hmonth hday hhour hmin hsec
  have hdigits := @isDigit_of_mem_timeFields year month day hour min sec
  have hsplit : timeFields year month day hour min sec = zeroPadded 4 year ++
      (zeroPadded 2 month ++ (zeroPadded 2 day ++ (zeroPadded 2 hour ++ (zeroPadded 2 min ++
        zeroPadded 2 sec)))) := by
    simp only [timeFields, List.append_assoc]
  have hvalue : 19700000000000 ≤
      Nat.ofDigitChars 10 (timeFields year month day hour min sec) 0 := by
    have hrest := congrArg List.length hsplit
    rw [hlength, List.length_append, length_zeroPadded (by decide) (by omega)] at hrest
    rw [hsplit, Nat.ofDigitChars_append, ofDigitChars_zeroPadded,
      Nat.ofDigitChars_eq_ofDigitChars_zero]
    have hten : (zeroPadded 2 month ++ (zeroPadded 2 day ++ (zeroPadded 2 hour ++
      (zeroPadded 2 min ++ zeroPadded 2 sec)))).length = 10 := by omega
    rw [hten]
    omega
  generalize timeFields year month day hour min sec = text at *
  cases text with
  | nil => cases hlength
  | cons c rest =>
    have hplus : c ≠ '+' := by
      rintro rfl
      exact absurd (hdigits List.mem_cons_self) (by decide)
    have hall : (c :: rest).all Char.isDigit = true := List.all_eq_true.mpr fun c hc => hdigits hc
    have hunsigned : parseUnsigned (c :: rest) = some (Nat.ofDigitChars 10 (c :: rest) 0) := by
      rw [parseUnsigned]
      · rw [parseDigits, hall]
        rfl
      · rintro digits heq
        exact hplus (List.cons.inj heq).1
    rw [parseU32, parseBelow, hunsigned, Option.bind_some, if_neg (by omega), Option.map_none]

theorem sliceNumber_timeFields :
    sliceNumber (timeFields year month day hour min sec) 0 4 = some year ∧
      sliceNumber (timeFields year month day hour min sec) 4 2 = some month ∧
      sliceNumber (timeFields year month day hour min sec) 6 2 = some day ∧
      sliceNumber (timeFields year month day hour min sec) 8 2 = some hour ∧
      sliceNumber (timeFields year month day hour min sec) 10 2 = some min ∧
      sliceNumber (timeFields year month day hour min sec) 12 2 = some sec := by
  have hfour : (zeroPadded 4 year).length = 4 := length_zeroPadded (by decide) (by omega)
  have htwo : ∀ n, n < 100 → (zeroPadded 2 n).length = 2 :=
    fun n hn => length_zeroPadded (by decide) hn
  have hfront : ∀ {a b : Text} {n : Nat}, a.length = n → b.length = 2 → (a ++ b).length = n + 2 := by
    intro a b n ha hb
    rw [List.length_append, ha, hb]
  have h6 := hfront hfour (htwo month hmonth)
  have h8 := hfront h6 (htwo day hday)
  have h10 := hfront h8 (htwo hour hhour)
  have h12 := hfront h10 (htwo min hmin)
  have hsplit : ∀ front field rest : Text,
      timeFields year month day hour min sec = front ++ field ++ rest →
      timeFields year month day hour min sec = front ++ (field ++ rest) := by
    intro front field rest h
    rw [h, List.append_assoc]
  have at0 := hsplit [] (zeroPadded 4 year) (zeroPadded 2 month ++ (zeroPadded 2 day ++
    (zeroPadded 2 hour ++ (zeroPadded 2 min ++ zeroPadded 2 sec))))
    (by simp only [timeFields, List.append_assoc, List.nil_append])
  have at4 := hsplit (zeroPadded 4 year) (zeroPadded 2 month) (zeroPadded 2 day ++
    (zeroPadded 2 hour ++ (zeroPadded 2 min ++ zeroPadded 2 sec)))
    (by simp only [timeFields, List.append_assoc])
  have at6 := hsplit (zeroPadded 4 year ++ zeroPadded 2 month) (zeroPadded 2 day)
    (zeroPadded 2 hour ++ (zeroPadded 2 min ++ zeroPadded 2 sec))
    (by simp only [timeFields, List.append_assoc])
  have at8 := hsplit (zeroPadded 4 year ++ zeroPadded 2 month ++ zeroPadded 2 day)
    (zeroPadded 2 hour) (zeroPadded 2 min ++ zeroPadded 2 sec)
    (by simp only [timeFields, List.append_assoc])
  have at10 := hsplit (zeroPadded 4 year ++ zeroPadded 2 month ++ zeroPadded 2 day ++
    zeroPadded 2 hour) (zeroPadded 2 min) (zeroPadded 2 sec) rfl
  have at12 := hsplit (zeroPadded 4 year ++ zeroPadded 2 month ++ zeroPadded 2 day ++
    zeroPadded 2 hour ++ zeroPadded 2 min) (zeroPadded 2 sec) [] (List.append_nil _).symm
  exact ⟨sliceNumber_field (by decide) hyear at0 rfl, sliceNumber_field (by decide) hmonth at4 hfour,
    sliceNumber_field (by decide) hday at6 h6, sliceNumber_field (by decide) hhour at8 h8,
    sliceNumber_field (by decide) hmin at10 h10, sliceNumber_field (by decide) hsec at12 h12⟩

end Fields

theorem isDigit_of_mem_formatDnssecTime {epoch : UInt32} {c : Char} (h : c ∈ formatDnssecTime epoch) :
    c.isDigit = true :=
  isDigit_of_mem_timeFields h

/-- **An RRSIG's time reads back.** -/
theorem parseDnssecTime_format (epoch : UInt32) :
    parseDnssecTime (formatDnssecTime epoch) = some epoch := by
  have hlt := epoch.toNat_lt
  obtain ⟨hyearLow, hyearDay, hyearSum⟩ := yearOf_spec 1970 (epoch.toNat / 86400)
  have hyearHigh := @yearOf_le (epoch.toNat / 86400) (by omega)
  rw [formatDnssecTime]
  generalize yearOf 1970 (epoch.toNat / 86400) = found at hyearLow hyearDay hyearSum hyearHigh
  obtain ⟨year, dayOfYear⟩ := found
  obtain ⟨hmonthLow, hmonthHigh, hday, hmonthSum⟩ := monthOf_spec year 11 1 dayOfYear (by decide)
    (by decide) (by rw [sum_daysInMonth]; exact hyearDay)
  dsimp only at *
  generalize monthOf year 11 1 dayOfYear = found at hmonthLow hmonthHigh hday hmonthSum
  obtain ⟨month, day⟩ := found
  dsimp only at *
  have hinMonth := daysInMonth_eq hmonthLow hmonthHigh year
  have hdayHigh : (daysInMonth month year).getD 0 ≤ 31 := by
    clear hinMonth hday
    rw [daysInMonth]
    split
    · exact le_refl _
    · grind
  generalize hhour : epoch.toNat % 86400 / 3600 = hour
  generalize hmin : epoch.toNat % 86400 / 60 % 60 = min
  generalize hsec : epoch.toNat % 86400 % 60 = sec
  have hall : (timeFields year month (day + 1) hour min sec).all Char.isDigit = true :=
    List.all_eq_true.mpr fun c hc => isDigit_of_mem_timeFields hc
  have hascii : IsAscii (timeFields year month (day + 1) hour min sec) := by
    intro c hc
    have := isDigit_of_mem_timeFields hc
    simp only [Char.isDigit, Bool.and_eq_true, decide_eq_true_eq, UInt32.le_iff_toNat_le] at this
    have h57 : c.val.toNat ≤ 57 := this.2
    show c.val.toNat < 128
    omega
  have hyear' : year < 10000 := by omega
  have hmonth' : month < 100 := by omega
  have hday' : day + 1 < 100 := by omega
  have hhour' : hour < 100 := by omega
  have hmin' : min < 100 := by omega
  have hsec' : sec < 100 := by omega
  have hlength := length_timeFields hyear' hmonth' hday' hhour' hmin' hsec'
  have hepoch := parseU32_timeFields hyear' hmonth' hday' hhour' hmin' hsec' hyearLow
  obtain ⟨hyearSlice, hmonthSlice, hdaySlice, hhourSlice, hminSlice, hsecSlice⟩ :=
    sliceNumber_timeFields hyear' hmonth' hday' hhour' hmin' hsec'
  show parseDnssecTime (timeFields year month (day + 1) hour min sec) = some epoch
  rw [parseDnssecTime, hepoch]
  dsimp only
  have hshape : ¬ ((toBytes (timeFields year month (day + 1) hour min sec)).length ≠ 14 ∨
      (!(timeFields year month (day + 1) hour min sec).all Char.isDigit) = true) := by
    rw [length_toBytes hascii, hlength, hall]
    decide
  rw [if_neg hshape, hyearSlice, hmonthSlice, hdaySlice, hhourSlice, hminSlice, hsecSlice]
  simp only [Option.bind_eq_bind, Option.bind_some]
  rw [if_neg (by omega), hinMonth]
  simp only [Option.bind_some]
  rw [if_neg (by omega), if_neg (by omega)]
  have htotal : (((List.range' 1970 (year - 1970)).map daysInYear).sum +
      ((List.range' 1 (month - 1)).map fun m => (daysInMonth m year).getD 0).sum +
        (day + 1 - 1)) * 86400 + hour * 3600 + min * 60 + sec = epoch.toNat := by
    omega
  rw [htotal, if_pos hlt, UInt32.ofNat_toNat]

end Rdns.Present
