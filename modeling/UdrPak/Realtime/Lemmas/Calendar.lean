import UdrPak.Lib.Blocks
import UdrPak.Realtime.Lemmas.Datetime

/-!
# Seconds since the epoch

The standard gives every broken-down time in UTC its number of seconds since the epoch. From 1970
on, the numbers are ordered as the times are.
-/

namespace UdrPak.Realtime

open Host Libc

/-! ## Days -/

/-- The days of a month. Months are counted from 0 as in `tm_mon`. -/
def monthLen (year mon : Nat) : Nat := daysIn year (mon + 1)

def yearLen (year : Nat) : Nat := if isLeap year then 366 else 365

/-- `tm_yday`, the days of the year before a date -/
def yday (year mon mday : Nat) : Nat := Blocks.start (monthLen year) mon + (mday - 1)

/-- The days since the epoch. -/
def dayNumber (year mon mday : Nat) : Nat :=
  Blocks.start (fun k => yearLen (1970 + k)) (year - 1970) + yday year mon mday

section Days

variable {year year' mon mon' mday mday' : Nat}

theorem start_monthLen (year : Nat) : Blocks.start (monthLen year) 12 = yearLen year := by
  simp only [Blocks.start, monthLen, daysIn, yearLen]
  split <;> rfl

theorem yday_lt (hmon : mon < 12) (hmday : mday - 1 < monthLen year mon) :
    yday year mon mday < yearLen year := by
  have hle := @Blocks.start_add_le (monthLen year) mon 12 hmon
  rw [start_monthLen] at hle
  unfold yday
  omega

/-- The leap days are those that the expression of the standard counts. -/
theorem start_yearLen (k : Nat) : (Blocks.start (fun k => yearLen (1970 + k)) k : Int) =
    k * 365 + (k + 1) / 4 - (k + 69) / 100 + (k + 369) / 400 := by
  induction k with
  | zero => rfl
  | succ k ih =>
      have h4 : ((k : Int) + 2) / 4 = (k + 1) / 4 + if (1970 + k) % 4 = 0 then 1 else 0 := by
        split <;> omega
      have h100 : ((k : Int) + 70) / 100 =
          (k + 69) / 100 + if (1970 + k) % 100 = 0 then 1 else 0 := by
        split <;> omega
      have h400 : ((k : Int) + 370) / 400 =
          (k + 369) / 400 + if (1970 + k) % 400 = 0 then 1 else 0 := by
        split <;> omega
      have hlen : (yearLen (1970 + k) : Int) = 365 + (if (1970 + k) % 4 = 0 then 1 else 0) -
          (if (1970 + k) % 100 = 0 then 1 else 0) + if (1970 + k) % 400 = 0 then 1 else 0 := by
        simp only [yearLen, isLeap, Bool.and_eq_true, Bool.or_eq_true, beq_iff_eq, bne_iff_ne,
          ne_eq]
        split_ifs <;> omega
      rw [Blocks.start, Nat.cast_add, ih, hlen]
      push_cast
      rw [add_assoc (k : Int) 1 1, add_assoc (k : Int) 1 69, add_assoc (k : Int) 1 369]
      change _ = ((k : Int) + 1) * 365 + ((k : Int) + 2) / 4 - ((k : Int) + 70) / 100 +
        ((k : Int) + 370) / 400
      rw [h4, h100, h400]
      ring

theorem dayNumber_lt_iff (hyear : 1970 ≤ year) (hyear' : 1970 ≤ year') (hmon : mon < 12)
    (hmon' : mon' < 12) (hmday : mday - 1 < monthLen year mon)
    (hmday' : mday' - 1 < monthLen year' mon') :
    dayNumber year mon mday < dayNumber year' mon' mday' ↔
      year < year' ∨ year = year' ∧ (mon < mon' ∨ mon = mon' ∧ mday - 1 < mday' - 1) := by
  have hlen := yday_lt hmon hmday
  have hlen' := yday_lt hmon' hmday'
  have hback : 1970 + (year - 1970) = year := Nat.add_sub_cancel' hyear
  have hback' : 1970 + (year' - 1970) = year' := Nat.add_sub_cancel' hyear'
  rw [dayNumber, dayNumber, Blocks.start_add_lt_iff (by rwa [hback]) (by rwa [hback'])]
  have hlt : year - 1970 < year' - 1970 ↔ year < year' := by omega
  have heq : year - 1970 = year' - 1970 ↔ year = year' := by omega
  rw [hlt, heq]
  refine or_congr_right (and_congr_right fun hsame => ?_)
  subst hsame
  exact Blocks.start_add_lt_iff hmday hmday'

theorem dayNumber_eq_iff (hyear : 1970 ≤ year) (hyear' : 1970 ≤ year') (hmon : mon < 12)
    (hmon' : mon' < 12) (hmday : mday - 1 < monthLen year mon)
    (hmday' : mday' - 1 < monthLen year' mon') :
    dayNumber year mon mday = dayNumber year' mon' mday' ↔
      year = year' ∧ mon = mon' ∧ mday - 1 = mday' - 1 := by
  have hnot := dayNumber_lt_iff hyear hyear' hmon hmon' hmday hmday'
  have hnot' := dayNumber_lt_iff hyear' hyear hmon' hmon hmday' hmday
  constructor
  · intro h
    rw [h] at hnot hnot'
    omega
  · rintro ⟨rfl, rfl, h⟩
    rw [dayNumber, dayNumber, yday, yday, h]

end Days

/-! ## Seconds -/

/-- The expression of the standard for the seconds since the epoch, on the fields from the year to
the second. -/
def epochSeconds : List Nat → Int
  | [year, mon, mday, hour, min, sec] =>
      let tmYear : Int := year - 1900
      sec + min * 60 + hour * 3600 + yday year (mon - 1) mday * 86400 +
        (tmYear - 70) * 31536000 + (tmYear - 69) / 4 * 86400 - (tmYear - 1) / 100 * 86400 +
          (tmYear + 299) / 400 * 86400
  | _ => 0

/-- The steps of 10 microseconds since the epoch, with the fraction as the last field. -/
def tenMicros : List Nat → Int
  | [year, mon, mday, hour, min, sec, fraction] =>
      epochSeconds [year, mon, mday, hour, min, sec] * 100000 + fraction
  | _ => 0

/-- A time that exists, from the epoch on and in a year of four digits. -/
structure TmExists (tm : Tm) : Prop extends TmInRange tm where
  epoch : 70 ≤ tm.tmYear.toInt
  mdayOfMonth : tm.tmMday.toInt ≤ daysIn (yearOf tm) (tm.tmMon.toInt + 1).toNat
  noLeapSecond : tm.tmSec.toInt ≤ 59

/-- The day of a time. -/
def dayOf (tm : Tm) : Nat := dayNumber (yearOf tm) tm.tmMon.toInt.toNat tm.tmMday.toInt.toNat

section Fields

variable {t t' : NsTm}

theorem epochSeconds_eq {year mon mday hour min sec : Nat} (h : 1970 ≤ year) :
    epochSeconds [year, mon, mday, hour, min, sec] =
      Radix.pack [24, 60, 60] (dayNumber year (mon - 1) mday) [hour, min, sec] := by
  have hdays := start_yearLen (year - 1970)
  simp only [epochSeconds, Radix.pack, dayNumber]
  omega

theorem TmExists.yearOf_ge {tm : Tm} (h : TmExists tm) : 1970 ≤ yearOf tm := by
  have hepoch := h.epoch
  unfold yearOf
  omega

/-- The steps of 10 microseconds as a number in mixed radix. -/
theorem tenMicros_fields (h : TmExists t.tm) : tenMicros t.fields =
    Radix.pack [24, 60, 60, 100000] (dayOf t.tm)
      [t.tm.tmHour.toInt.toNat, t.tm.tmMin.toInt.toNat, t.tm.tmSec.toInt.toNat, t.fraction] := by
  have hmon : (t.tm.tmMon.toInt + 1).toNat - 1 = t.tm.tmMon.toInt.toNat := by
    have hmon := h.mon
    omega
  simp only [NsTm.fields, calendar, monthToSecond, List.cons_append, List.nil_append, tenMicros,
    epochSeconds_eq h.yearOf_ge, hmon, dayOf, Radix.pack]
  push_cast
  rfl

theorem digits_fields (h : TmExists t.tm) (hns : 0 ≤ t.ns.toInt ∧ t.ns.toInt ≤ 999999999) :
    Radix.Digits [24, 60, 60, 100000]
      [t.tm.tmHour.toInt.toNat, t.tm.tmMin.toInt.toNat, t.tm.tmSec.toInt.toNat, t.fraction] := by
  have hhour := h.hour
  have hmin := h.min
  have hsec := h.noLeapSecond
  have hfraction : t.fraction < 100000 := by
    unfold NsTm.fraction
    omega
  refine .cons ?_ (.cons ?_ (.cons ?_ (.cons hfraction .nil))) <;> omega

theorem TmExists.mday_lt {tm : Tm} (h : TmExists tm) :
    tm.tmMday.toInt.toNat - 1 < monthLen (yearOf tm) tm.tmMon.toInt.toNat := by
  have hmon := h.mon
  have hmday := h.mday
  have hlast := h.mdayOfMonth
  have hnext : (tm.tmMon.toInt + 1).toNat = tm.tmMon.toInt.toNat + 1 := by omega
  rw [hnext] at hlast
  unfold monthLen
  omega

/-- Times are ordered as their numbers. -/
theorem fields_lt_iff (h : TmExists t.tm) (h' : TmExists t'.tm)
    (hns : 0 ≤ t.ns.toInt ∧ t.ns.toInt ≤ 999999999)
    (hns' : 0 ≤ t'.ns.toInt ∧ t'.ns.toInt ≤ 999999999) :
    t.fields < t'.fields ↔ tenMicros t.fields < tenMicros t'.fields := by
  have hyear := h.yearOf_ge
  have hyear' := h'.yearOf_ge
  have hmon := h.mon
  have hmon' := h'.mon
  have hmday := h.mday
  have hmday' := h'.mday
  have hlt := dayNumber_lt_iff hyear hyear' (by omega) (by omega) h.mday_lt h'.mday_lt
  have heq := dayNumber_eq_iff hyear hyear' (by omega) (by omega) h.mday_lt h'.mday_lt
  rw [tenMicros_fields h, tenMicros_fields h', Nat.cast_lt,
    Radix.pack_lt_iff (digits_fields h hns) (digits_fields h' hns'), dayOf, dayOf, hlt, heq]
  simp only [NsTm.fields, calendar, monthToSecond, List.cons_append, List.nil_append]
  rw [List.cons_lt_cons_iff, List.cons_lt_cons_iff, List.cons_lt_cons_iff]
  have hmonths : (t.tm.tmMon.toInt + 1).toNat < (t'.tm.tmMon.toInt + 1).toNat ↔
      t.tm.tmMon.toInt.toNat < t'.tm.tmMon.toInt.toNat := by omega
  have hmonths' : (t.tm.tmMon.toInt + 1).toNat = (t'.tm.tmMon.toInt + 1).toNat ↔
      t.tm.tmMon.toInt.toNat = t'.tm.tmMon.toInt.toNat := by omega
  have hmdays : t.tm.tmMday.toInt.toNat - 1 < t'.tm.tmMday.toInt.toNat - 1 ↔
      t.tm.tmMday.toInt.toNat < t'.tm.tmMday.toInt.toNat := by omega
  have hmdays' : t.tm.tmMday.toInt.toNat - 1 = t'.tm.tmMday.toInt.toNat - 1 ↔
      t.tm.tmMday.toInt.toNat = t'.tm.tmMday.toInt.toNat := by omega
  rw [hmonths, hmonths', hmdays, hmdays']
  simp only [and_or_left, or_assoc, and_assoc]

end Fields

end UdrPak.Realtime
