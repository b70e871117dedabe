import Rdns.Present.TimeText
import Mathlib.Data.List.Induction

/-!
# Rdns — The calendar of an RRSIG's times

`rdns-present/src/dnssec_time.rs`: the reader adds up the years and months that the writer counts
off. Fourteen digits that it accepts as a date are the ones its time is written in, so that no two
dates are read as one time.
-/

namespace Rdns.Present

open Rdns.Lib

/-! ## Numbers of a fixed width -/

theorem digit_inj {c d : Char} (hc : c.isDigit = true) (hd : d.isDigit = true)
    (h : c.toNat - '0'.toNat = d.toNat - '0'.toNat) : c = d := by
  simp only [Char.isDigit, Bool.and_eq_true, decide_eq_true_eq, ge_iff_le, UInt32.le_iff_toNat_le] at hc hd
  have hc0 : 48 ≤ c.toNat := hc.1
  have hd0 : 48 ≤ d.toNat := hd.1
  apply Char.toNat_inj.mp
  change c.toNat - 48 = d.toNat - 48 at h
  omega

theorem digit_lt {c : Char} (hc : c.isDigit = true) : c.toNat - '0'.toNat < 10 := by
  simp only [Char.isDigit, Bool.and_eq_true, decide_eq_true_eq, ge_iff_le, UInt32.le_iff_toNat_le] at hc
  have h9 : c.toNat ≤ 57 := hc.2
  show c.toNat - 48 < 10
  omega

theorem ofDigitChars_inj {a b : Text} (ha : ∀ c ∈ a, c.isDigit = true) (hb : ∀ c ∈ b, c.isDigit = true)
    (hlen : a.length = b.length) (h : Nat.ofDigitChars 10 a 0 = Nat.ofDigitChars 10 b 0) : a = b := by
  induction a using List.reverseRecOn generalizing b with
  | nil => exact (List.length_eq_zero_iff.mp hlen.symm).symm
  | append_singleton a c ih =>
    obtain rfl | ⟨b, d, rfl⟩ := List.eq_nil_or_concat b
    · simp at hlen
    · simp only [List.concat_eq_append, List.mem_append, List.mem_singleton] at ha hb h hlen ⊢
      have hc := ha c (.inr rfl)
      have hd := hb d (.inr rfl)
      rw [Nat.ofDigitChars_append, Nat.ofDigitChars_append, Nat.ofDigitChars_cons, Nat.ofDigitChars_cons,
        Nat.ofDigitChars_nil, Nat.ofDigitChars_nil] at h
      have hclt := digit_lt hc
      have hdlt := digit_lt hd
      rw [ih (fun x hx => ha x (.inl hx)) (fun x hx => hb x (.inl hx)) (by simpa using hlen) (by omega),
        digit_inj hc hd (by omega)]

theorem ofDigitChars_lt {a : Text} (ha : ∀ c ∈ a, c.isDigit = true) : Nat.ofDigitChars 10 a 0 < 10 ^ a.length := by
  induction a using List.reverseRecOn with
  | nil => decide
  | append_singleton a c ih =>
    have hlt := ih fun x hx => ha x (List.mem_append_left _ hx)
    have hc := digit_lt (ha c (List.mem_append_right _ (List.mem_singleton_self c)))
    rw [Nat.ofDigitChars_append, Nat.ofDigitChars_cons, Nat.ofDigitChars_nil, List.length_append, List.length_singleton,
      Nat.pow_succ]
    omega

theorem of_parseDigits {field : Text} {width n : Nat} (hlen : field.length = width) (h : parseDigits field = some n) :
    zeroPadded width n = field ∧ n < 10 ^ width := by
  rw [parseDigits] at h
  split at h
  · cases h
  · rename_i hdigits
    simp only [Bool.or_eq_true, List.isEmpty_iff, Bool.not_eq_true', not_or, Bool.not_eq_false, List.all_eq_true] at hdigits
    obtain rfl := Option.some.inj h
    have hlt : Nat.ofDigitChars 10 field 0 < 10 ^ width := hlen ▸ ofDigitChars_lt hdigits.2
    have hpos : 0 < width := hlen ▸ List.length_pos_iff.mpr hdigits.1
    refine ⟨ofDigitChars_inj (fun c => isDigit_of_mem_zeroPadded) hdigits.2 ?_ (ofDigitChars_zeroPadded _ _), hlt⟩
    rw [length_zeroPadded hpos hlt, hlen]

/-! ## Counting off what was added up -/

theorem yearOf_sum {count rest : Nat} (start : Nat) (hrest : rest < daysInYear (start + count)) :
    yearOf start (((List.range' start count).map daysInYear).sum + rest) = (start + count, rest) := by
  induction count generalizing start with
  | zero =>
    rw [Nat.add_zero] at hrest ⊢
    rw [List.range'_zero, List.map_nil, List.sum_nil, Nat.zero_add, yearOf, if_pos hrest]
  | succ count ih =>
    have hnext : start + (count + 1) = start + 1 + count := by omega
    rw [List.range'_succ, List.map_cons, List.sum_cons, yearOf, if_neg (by omega), Nat.add_assoc, Nat.add_sub_cancel_left,
      ih (start + 1) (hnext ▸ hrest), hnext]

theorem monthOf_sum {year fuel count rest : Nat} (month : Nat) (hmonth : 1 ≤ month) (hcount : count ≤ fuel)
    (hyear : month + fuel ≤ 12) (hrest : rest < (daysInMonth (month + count) year).getD 0) :
    monthOf year fuel month
      (((List.range' month count).map fun m => (daysInMonth m year).getD 0).sum + rest) = (month + count, rest) := by
  induction count generalizing month fuel with
  | zero =>
    rw [Nat.add_zero] at hrest ⊢
    rw [List.range'_zero, List.map_nil, List.sum_nil, Nat.zero_add]
    cases fuel with
    | zero => rfl
    | succ fuel =>
      rw [monthOf, daysInMonth_eq hmonth (by omega) year]
      dsimp only
      rw [if_pos hrest]
  | succ count ih =>
    obtain ⟨fuel, rfl⟩ : ∃ left, fuel = left + 1 := ⟨fuel - 1, by omega⟩
    have hnext : month + (count + 1) = month + 1 + count := by omega
    rw [monthOf, daysInMonth_eq hmonth (by omega) year]
    dsimp only
    rw [List.range'_succ, List.map_cons, List.sum_cons, if_neg (by omega), Nat.add_assoc, Nat.add_sub_cancel_left,
      ih (month + 1) (by omega) (by omega) (by omega) (hnext ▸ hrest), hnext]

/-! ## The time -/

theorem of_parseDnssecTime {text : Text} {epoch : UInt32} (hnumber : parseU32 text = none)
    (h : parseDnssecTime text = some epoch) :
    ∃ year month day hour min sec daysThisMonth, sliceNumber text 0 4 = some year ∧ sliceNumber text 4 2 = some month ∧
      sliceNumber text 6 2 = some day ∧ sliceNumber text 8 2 = some hour ∧ sliceNumber text 10 2 = some min ∧
      sliceNumber text 12 2 = some sec ∧ 1970 ≤ year ∧ daysInMonth month year = some daysThisMonth ∧
      1 ≤ day ∧ day ≤ daysThisMonth ∧ hour ≤ 23 ∧ min ≤ 59 ∧ sec ≤ 59 ∧
      epoch.toNat = (((List.range' 1970 (year - 1970)).map daysInYear).sum +
        ((List.range' 1 (month - 1)).map fun m => (daysInMonth m year).getD 0).sum + (day - 1)) * 86400 +
          hour * 3600 + min * 60 + sec := by
  rw [parseDnssecTime, hnumber] at h
  dsimp only at h
  split at h
  · cases h
  obtain ⟨year, hyear, h⟩ := Option.bind_eq_some_iff.mp h
  obtain ⟨month, hmonth, h⟩ := Option.bind_eq_some_iff.mp h
  obtain ⟨day, hday, h⟩ := Option.bind_eq_some_iff.mp h
  obtain ⟨hour, hhour, h⟩ := Option.bind_eq_some_iff.mp h
  obtain ⟨min, hmin, h⟩ := Option.bind_eq_some_iff.mp h
  obtain ⟨sec, hsec, h⟩ := Option.bind_eq_some_iff.mp h
  split at h
  · cases h
  obtain ⟨daysThisMonth, hin, h⟩ := Option.bind_eq_some_iff.mp h
  split at h
  · cases h
  split at h
  · cases h
  split at h
  · rename_i hlt
    obtain rfl := Option.some.inj h
    exact ⟨year, month, day, hour, min, sec, daysThisMonth, hyear, hmonth, hday, hhour, hmin, hsec, by omega, hin,
      by omega, by omega, by omega, by omega, by omega, Nat.mod_eq_of_lt hlt⟩
  · cases h

theorem month_of_daysInMonth {month year days : Nat} (h : daysInMonth month year = some days) : 1 ≤ month ∧ month ≤ 12 := by
  unfold daysInMonth at h
  simp only [List.mem_cons, List.not_mem_nil, or_false] at h
  grind

theorem field_append_drop (text : Text) (start count : Nat) :
    (text.drop start).take count ++ text.drop (start + count) = text.drop start := by
  rw [← List.drop_drop, List.take_append_drop]

theorem formatDnssecTime_parse {text : Text} {epoch : UInt32} (hlen : text.length = 14)
    (hnumber : parseU32 text = none) (h : parseDnssecTime text = some epoch) : formatDnssecTime epoch = text := by
  obtain ⟨year, month, day, hour, min, sec, daysThisMonth, hyear, hmonth, hday, hhour, hmin, hsec, hlow, hin, hfirst, hlast,
    hhours, hmins, hsecs, hepoch⟩ := of_parseDnssecTime hnumber h
  obtain ⟨hmonthLow, hmonthHigh⟩ := month_of_daysInMonth hin
  have hinMonth : (daysInMonth month year).getD 0 = daysThisMonth := by rw [hin, Option.getD_some]
  -- the days before the date are counted off as they were added up
  generalize hmonths : ((List.range' 1 (month - 1)).map fun m => (daysInMonth m year).getD 0).sum = monthDays at hepoch
  have hinYear : monthDays + (day - 1) < daysInYear year := by
    have hsplit : List.range' 1 (month - 1) ++ List.range' (1 + 1 * (month - 1)) (12 - month + 1) =
        List.range' 1 (month - 1 + (12 - month + 1)) := List.range'_append
    rw [show 1 + 1 * (month - 1) = month by omega, show month - 1 + (12 - month + 1) = 12 by omega] at hsplit
    rw [← sum_daysInMonth, ← hsplit, List.map_append, List.sum_append, hmonths, List.range'_succ, List.map_cons,
      List.sum_cons, hinMonth]
    omega
  have hdays : epoch.toNat / 86400 =
      ((List.range' 1970 (year - 1970)).map daysInYear).sum + (monthDays + (day - 1)) := by omega
  have hyearOf : yearOf 1970 (epoch.toNat / 86400) = (year, monthDays + (day - 1)) := by
    rw [hdays, yearOf_sum 1970 (by rwa [Nat.add_sub_cancel' hlow]), Nat.add_sub_cancel' hlow]
  have hmonthOf : monthOf year 11 1 (monthDays + (day - 1)) = (month, day - 1) := by
    have hback : 1 + (month - 1) = month := Nat.add_sub_cancel' hmonthLow
    rw [← hmonths, monthOf_sum 1 (le_refl 1) (by omega) (by decide) (by rw [hback, hinMonth]; omega), hback]
  have hsecond : epoch.toNat % 86400 = hour * 3600 + min * 60 + sec := by omega
  have hfields : formatDnssecTime epoch = timeFields year month day hour min sec := by
    rw [formatDnssecTime, hyearOf]
    dsimp only
    rw [hmonthOf, hsecond]
    dsimp only
    rw [timeFields, show day - 1 + 1 = day by omega, show (hour * 3600 + min * 60 + sec) / 3600 = hour by omega,
      show (hour * 3600 + min * 60 + sec) / 60 % 60 = min by omega, show (hour * 3600 + min * 60 + sec) % 60 = sec by omega]
  have hfield : ∀ start count n, start + count ≤ 14 → sliceNumber text start count = some n →
      zeroPadded count n = (text.drop start).take count := by
    intro start count n hle hslice
    exact (of_parseDigits (by rw [List.length_take, List.length_drop]; omega) hslice).1
  rw [hfields, timeFields, hfield 0 4 year (by decide) hyear, hfield 4 2 month (by decide) hmonth,
    hfield 6 2 day (by decide) hday, hfield 8 2 hour (by decide) hhour, hfield 10 2 min (by decide) hmin,
    hfield 12 2 sec (by decide) hsec]
  have hend : text.drop 14 = [] := by rw [← hlen, List.drop_length]
  have hwhole : text.drop 12 = (text.drop 12).take 2 := by
    rw [← field_append_drop text 12 2, hend, List.append_nil, List.take_take, Nat.min_self]
  simp only [List.append_assoc]
  rw [← hwhole, field_append_drop text 10 2, field_append_drop text 8 2, field_append_drop text 6 2,
    field_append_drop text 4 2, field_append_drop text 0 4, List.drop_zero]

/-- **The reader and the writer of a time undo each other**: every time, and every fourteen digits
that are a date and no number of 32 bits. -/
theorem dnssecTime_inverse :
    (∀ epoch : UInt32, parseDnssecTime (formatDnssecTime epoch) = some epoch) ∧
      ∀ (text : Text) (epoch : UInt32), text.length = 14 → (∀ c ∈ text, c.isDigit = true) → parseU32 text = none →
        parseDnssecTime text = some epoch → formatDnssecTime epoch = text :=
  ⟨parseDnssecTime_format, fun _ _ hlen _ hnumber h => formatDnssecTime_parse hlen hnumber h⟩

theorem dnssecTime_inverse_lastSecond :
    formatDnssecTime 4294967295 = "21060207062815".toList ∧
      parseDnssecTime "21060207062815".toList = some 4294967295 :=
  have hread : parseDnssecTime "21060207062815".toList = some 4294967295 := by decide +kernel
  ⟨dnssecTime_inverse.2 _ _ (by decide) (by decide) (by decide) hread, hread⟩

end Rdns.Present
