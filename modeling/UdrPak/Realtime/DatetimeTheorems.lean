import UdrPak.Libc.Lemmas.Buffer
import UdrPak.Realtime.Lemmas.Datetime

/-!
# The two ways to a datetime

`ns_tm_to_datetime_slow` prints the same digits that `ns_tm_to_datetime` puts together.
-/

namespace UdrPak.Realtime

open Host Libc Numeral

/-- A time of a day that exists, in a year of four digits. -/
structure NsTm.Exists (t : NsTm) : Prop extends t.InRange where
  fourDigits : 1000 ≤ t.tm.tmYear.toInt + 1900
  mdayOfMonth : t.tm.tmMday.toInt ≤ daysIn (yearOf t.tm) (t.tm.tmMon.toInt + 1).toNat
  noLeapSecond : t.tm.tmSec.toInt ≤ 59

section Text

variable {t : NsTm}

/-! ## The digits of a time -/

theorem NsTm.InRange.values (h : t.InRange) :
    value 10 (fixed 10 4 (yearOf t.tm)) = yearOf t.tm ∧
      value 10 (fixed 10 2 (t.tm.tmMon.toInt + 1).toNat) = (t.tm.tmMon.toInt + 1).toNat ∧
      value 10 (fixed 10 2 t.tm.tmMday.toInt.toNat) = t.tm.tmMday.toInt.toNat ∧
      value 10 (fixed 10 2 t.tm.tmHour.toInt.toNat) = t.tm.tmHour.toInt.toNat ∧
      value 10 (fixed 10 2 t.tm.tmMin.toInt.toNat) = t.tm.tmMin.toInt.toNat ∧
      value 10 (fixed 10 2 t.tm.tmSec.toInt.toNat) = t.tm.tmSec.toInt.toNat ∧
      value 10 (fixed 10 5 t.fraction) = t.fraction := by
  obtain ⟨⟨hyear, hmon, hmday, hhour, hmin, hsec⟩, hns⟩ := h
  have hyear' : yearOf t.tm < 10 ^ 4 := by unfold yearOf; omega
  have hfraction : t.fraction < 10 ^ 5 := by unfold NsTm.fraction; omega
  refine ⟨value_fixed_of_lt base10 hyear', ?_, ?_, ?_, ?_, ?_, value_fixed_of_lt base10 hfraction⟩
  all_goals exact value_fixed_of_lt base10 (by omega)

theorem NsTm.Exists.hasYear (h : t.Exists) : 1 ≤ value 10 (fixed 10 4 (yearOf t.tm)) := by
  have hyear := h.year
  rw [h.values.1, yearOf]
  omega

theorem NsTm.Exists.hasMonth (h : t.Exists) :
    1 ≤ value 10 (fixed 10 2 (t.tm.tmMon.toInt + 1).toNat) ∧
      value 10 (fixed 10 2 (t.tm.tmMon.toInt + 1).toNat) ≤ 12 := by
  have hmon := h.mon
  rw [h.values.2.1]
  omega

theorem NsTm.Exists.hasDay (h : t.Exists) :
    1 ≤ value 10 (fixed 10 2 t.tm.tmMday.toInt.toNat) ∧
      value 10 (fixed 10 2 t.tm.tmMday.toInt.toNat) ≤
        daysIn (value 10 (fixed 10 4 (yearOf t.tm)))
          (value 10 (fixed 10 2 (t.tm.tmMon.toInt + 1).toNat)) := by
  obtain ⟨hyear, hmon, hmday, -⟩ := h.values
  have hfirst := h.mday
  have hlast := h.mdayOfMonth
  rw [hyear, hmon, hmday]
  omega

theorem NsTm.Exists.hasTime (h : t.Exists) :
    value 10 (fixed 10 2 t.tm.tmHour.toInt.toNat) < 24 ∧
      value 10 (fixed 10 2 t.tm.tmMin.toInt.toNat) < 60 ∧
        value 10 (fixed 10 2 t.tm.tmSec.toInt.toNat) < 60 := by
  obtain ⟨-, -, -, hhour, hmin, hsec, -⟩ := h.values
  have hhour' := h.hour
  have hmin' := h.min
  have hsec' := h.noLeapSecond
  rw [hhour, hmin, hsec]
  omega

/-- The digits that are printed. -/
def NsTm.Exists.stamp (h : t.Exists) : Stamp where
  year := fixed 10 4 (yearOf t.tm)
  month := fixed 10 2 (t.tm.tmMon.toInt + 1).toNat
  day := fixed 10 2 t.tm.tmMday.toInt.toNat
  hour := fixed 10 2 t.tm.tmHour.toInt.toNat
  minute := fixed 10 2 t.tm.tmMin.toInt.toNat
  second := fixed 10 2 t.tm.tmSec.toInt.toNat
  fraction := fixed 10 5 t.fraction
  digits := by
    intro c hc
    simp only [List.mem_append, or_assoc] at hc
    rcases hc with hc | hc | hc | hc | hc | hc | hc <;> exact mem_fixed base10 hc
  lengths := by simp only [List.map_cons, List.map_nil, length_fixed]
  hasYear := h.hasYear
  hasMonth := h.hasMonth
  hasDay := h.hasDay
  hasTime := h.hasTime

/-! ## The two texts -/

theorem NsTm.Exists.number_stamp (h : t.Exists) : h.stamp.number = t.packed / 10 ^ 5 := by
  obtain ⟨hyear, hmon, hmday, hhour, hmin, hsec, hfraction⟩ := h.values
  have hdigits : t.packed = value 10 (h.stamp.year ++ h.stamp.month ++ h.stamp.day ++
      h.stamp.hour ++ h.stamp.minute ++ h.stamp.second) * 100000 + value 10 h.stamp.fraction := by
    simp only [NsTm.Exists.stamp, value_append, hyear, hmon, hmday, hhour, hmin, hsec, hfraction,
      length_fixed, NsTm.packed, monthToSecond, bases, Radix.pack, List.cons_append,
      List.nil_append]
    norm_num
  rw [Stamp.number, hdigits]
  push_cast
  field_simp
  norm_num

theorem format_eq (h : t.Exists) : t.tm.format =
    fixed 10 4 (yearOf t.tm) ++ '-' :: fixed 10 2 (t.tm.tmMon.toInt + 1).toNat ++
      '-' :: fixed 10 2 t.tm.tmMday.toInt.toNat ++ ' ' :: fixed 10 2 t.tm.tmHour.toInt.toNat ++
        ':' :: fixed 10 2 t.tm.tmMin.toInt.toNat ++ ':' :: fixed 10 2 t.tm.tmSec.toInt.toNat := by
  obtain ⟨⟨⟨hyear, hmon, hmday, hhour, hmin, hsec⟩, _⟩, hfour, _, _⟩ := h
  rw [Tm.format, decimal_four hfour (by omega), twoDigits_eq (by omega) (by omega),
    twoDigits_eq (by omega) (by omega), twoDigits_eq (by omega) (by omega),
    twoDigits_eq (by omega) (by omega), twoDigits_eq (by omega) (by omega)]
  rfl

/-- The fraction is cut off at five digits, not rounded. -/
theorem fractionText_eq (h : t.InRange) :
    fractionText t.ns = '.' :: fixed 10 5 t.fraction := by
  have hns := h.ns
  have hquot : ((t.ns / 10000) % frac5).toInt = t.ns.toInt / 10000 := by
    have hten : (10000 : Int64).toInt = 10000 := by decide
    have hfrac : frac5.toInt = 100000 := by decide
    rw [Int64.toInt_mod, Int64.toInt_div, hten, hfrac, Int.tdiv_eq_ediv_of_nonneg hns.1,
      Int.bmod_eq_of_le (by omega) (by omega), Int.tmod_eq_emod_of_nonneg (by omega)]
    omega
  have hshort : ('.' :: fixed 10 5 t.fraction).length ≤ 7 := by simp
  rw [fractionText, fmt0Ld_eq (by decide) (by omega) (by omega), hquot, snprintf]
  exact List.take_of_length_le hshort

theorem nul_notMem_text (s : Stamp) : '\x00' ∉ s.text := by
  have hdigits : '\x00' ∉ s.year ++ s.month ++ s.day ++ s.hour ++ s.minute ++ s.second ++
      s.fraction := fun hmem => absurd (s.digits _ hmem) (by decide)
  simp only [List.mem_append, not_or] at hdigits
  simp [Stamp.text, hdigits]

/-- The array holds the text of the stamp, whatever it held before. -/
theorem str_buf (h : t.Exists) (buf : CharArray dateStrBufsz)
    (hfits : 19 + (fractionText t.ns).length + 1 ≤ dateStrBufsz) :
    ((strftime buf t.tm).storeAt 19 (fractionText t.ns) hfits).str = h.stamp.text := by
  have hlen : t.tm.format.length = 19 := by
    rw [format_eq h]
    simp
  have hnul := nul_notMem_text h.stamp
  have hfit : t.tm.format.length + 1 ≤ dateStrBufsz := by
    rw [hlen]
    decide
  have htext : (strftime buf t.tm).toList.take 19 ++ fractionText t.ns = h.stamp.text := by
    rw [strftime, dif_pos hfit, ← hlen, take_store, format_eq h, fractionText_eq h.toInRange]
    simp [Stamp.text, NsTm.Exists.stamp]
  rw [← htext, List.mem_append, not_or] at hnul
  rw [CharArray.str_storeAt hfits hnul.1 hnul.2, htext]

end Text

theorem val_digits {D : DecLib} (hD : D.Exact) {t : NsTm} (h : t.InRange) :
    (nsTmToDatetime D t).dtDec.val =
      ((t.tm.tmYear.toInt + 1900) * 10000000000 + (t.tm.tmMon.toInt + 1) * 100000000 +
        t.tm.tmMday.toInt * 1000000 + t.tm.tmHour.toInt * 10000 + t.tm.tmMin.toInt * 100 +
          t.tm.tmSec.toInt : Int) + (t.ns.toInt / 10000 : Int) / 100000 := by
  have hpacked := congrArg (Int.cast (R := ℚ)) (packed_eq h)
  rw [intTimeExpr_exact, Int.cast_add, Int.cast_mul, Int.cast_natCast] at hpacked
  rw [val_nsTmToDatetime hD h, hpacked]
  push_cast
  ring

/-- Both ways give the same datetime. -/
theorem datetimeSlow_eq (D : DecLib) (hD : D.Exact) (miStringToDatetime : StringToDatetime)
    (hread : ReadsAsWritten miStringToDatetime) (buf : CharArray dateStrBufsz) (t : NsTm)
    (h : t.Exists) :
    nsTmToDatetimeSlow miStringToDatetime buf t = some (nsTmToDatetime D t) ∧
      (nsTmToDatetime D t).dtQual = ⟨.year, .f5⟩ ∧
      (nsTmToDatetime D t).dtDec.val =
        ((t.tm.tmYear.toInt + 1900) * 10000000000 + (t.tm.tmMon.toInt + 1) * 100000000 +
          t.tm.tmMday.toInt * 1000000 + t.tm.tmHour.toInt * 10000 + t.tm.tmMin.toInt * 100 +
            t.tm.tmSec.toInt : Int) + (t.ns.toInt / 10000 : Int) / 100000 := by
  obtain ⟨⟨dec, qual⟩, hdt, hval, hqual⟩ := hread h.stamp
  refine ⟨?_, rfl, val_digits hD h.toInRange⟩
  have hdec : dec = (nsTmToDatetime D t).dtDec := by
    apply Dec.ext
    rw [val_nsTmToDatetime hD h.toInRange, ← h.number_stamp]
    exact hval
  rw [nsTmToDatetimeSlow]
  simp only [str_buf h buf]
  rw [hdt, hdec]
  exact congrArg (fun q => some (Datetime.mk _ q)) hqual

/-- The last instant of a leap day. -/
def leapDayEnd : NsTm := ⟨⟨59, 59, 23, 29, 1, 100⟩, 999999999⟩

theorem datetimeSlow_eq_leapDayEnd :
    nsTmToDatetimeSlow readDigits (Vector.replicate 80 'x') leapDayEnd =
      some (nsTmToDatetime exactDecLib leapDayEnd) :=
  (datetimeSlow_eq exactDecLib exactDecLib_exact readDigits readsAsWritten_readDigits
    (Vector.replicate 80 'x') leapDayEnd
    ⟨⟨⟨by decide, by decide, by decide, by decide, by decide, by decide⟩, by decide⟩, by decide,
      by decide, by decide⟩).1

end UdrPak.Realtime
