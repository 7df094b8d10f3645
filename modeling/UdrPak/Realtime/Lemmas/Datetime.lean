import UdrPak.Lib.Long
import UdrPak.Lib.Radix
import UdrPak.Realtime.Datetime
import UdrPak.Realtime.Lemmas.Clock

/-!
# The digits of a datetime

The decimal of a datetime is a number in mixed radix: the year, two digits for each of the next
fields, and five for the fraction.
-/

namespace UdrPak.Realtime

open Host Libc Decimal

/-- A broken-down time of the years that have up to four digits. -/
structure TmInRange (tm : Tm) : Prop where
  year : 1 ≤ tm.tmYear.toInt + 1900 ∧ tm.tmYear.toInt + 1900 ≤ 9999
  mon : 0 ≤ tm.tmMon.toInt ∧ tm.tmMon.toInt ≤ 11
  mday : 1 ≤ tm.tmMday.toInt ∧ tm.tmMday.toInt ≤ 31
  hour : 0 ≤ tm.tmHour.toInt ∧ tm.tmHour.toInt ≤ 23
  min : 0 ≤ tm.tmMin.toInt ∧ tm.tmMin.toInt ≤ 59
  sec : 0 ≤ tm.tmSec.toInt ∧ tm.tmSec.toInt ≤ 60

structure NsTm.InRange (t : NsTm) : Prop extends TmInRange t.tm where
  ns : 0 ≤ t.ns.toInt ∧ t.ns.toInt ≤ 999999999

/-! ## The fields

In range, none of them is negative. -/

def yearOf (tm : Tm) : Nat := (tm.tmYear.toInt + 1900).toNat

/-- The fields between the year and the fraction. -/
def monthToSecond (tm : Tm) : List Nat :=
  [(tm.tmMon.toInt + 1).toNat, tm.tmMday.toInt.toNat, tm.tmHour.toInt.toNat, tm.tmMin.toInt.toNat,
    tm.tmSec.toInt.toNat]

/-- Year, month, day, hour, minute and second. -/
def calendar (tm : Tm) : List Nat := yearOf tm :: monthToSecond tm

@[simp] theorem length_calendar (tm : Tm) : (calendar tm).length = 6 := rfl

namespace NsTm

variable (t : NsTm)

/-- The fraction of the second, in its five digits. -/
def fraction : Nat := (t.ns.toInt / 10000).toNat

def fields : List Nat := calendar t.tm ++ [t.fraction]

end NsTm

/-- The bases of the fields below the year. -/
def bases : List Nat := [100, 100, 100, 100, 100, 100000]

theorem NsTm.InRange.digits {t : NsTm} (h : t.InRange) :
    Radix.Digits bases (monthToSecond t.tm ++ [t.fraction]) := by
  obtain ⟨⟨_, hmon, hmday, hhour, hmin, hsec⟩, hns⟩ := h
  have hfraction : t.fraction < 100000 := by
    unfold NsTm.fraction
    omega
  refine .cons ?_ (.cons ?_ (.cons ?_ (.cons ?_ (.cons ?_ (.cons hfraction .nil))))) <;> omega

/-! ## The digits before the point -/

/-- The arithmetic of `intTime`. -/
def intTimeExpr (tm : Tm) : Long.Expr :=
  .add (.add (.add (.add (.add
    (.mul (.add (.lit tm.tmYear.toInt64) (.lit 1900)) (.lit dyear))
    (.mul (.add (.lit tm.tmMon.toInt64) (.lit 1)) (.lit dmon)))
    (.mul (.lit tm.tmMday.toInt64) (.lit dday)))
    (.mul (.lit tm.tmHour.toInt64) (.lit dhour)))
    (.mul (.lit tm.tmMin.toInt64) (.lit dmin)))
    (.lit tm.tmSec.toInt64)

section IntTime

variable {tm : Tm}

theorem intTime_eq_eval (tm : Tm) : intTime tm = (intTimeExpr tm).eval := rfl

theorem intTimeExpr_exact (tm : Tm) : (intTimeExpr tm).exact =
    (tm.tmYear.toInt + 1900) * 10000000000 + (tm.tmMon.toInt + 1) * 100000000 +
      tm.tmMday.toInt * 1000000 + tm.tmHour.toInt * 10000 + tm.tmMin.toInt * 100 +
        tm.tmSec.toInt := by
  have hwide : ∀ n : Int32, n.toInt64.toInt = n.toInt := Int32.toInt_toInt64
  simp only [intTimeExpr, Long.Expr.exact, hwide]
  rfl

theorem intTimeExpr_inRange (h : TmInRange tm) : (intTimeExpr tm).InRange := by
  obtain ⟨hyear, hmon, hmday, hhour, hmin, hsec⟩ := h
  have hwide : ∀ n : Int32, n.toInt64.toInt = n.toInt := Int32.toInt_toInt64
  have hconst : dyear.toInt = 10000000000 ∧ dmon.toInt = 100000000 ∧ dday.toInt = 1000000 ∧
      dhour.toInt = 10000 ∧ dmin.toInt = 100 ∧ (1900 : Int64).toInt = 1900 ∧
        (1 : Int64).toInt = 1 := by decide
  obtain ⟨hdyear, hdmon, hdday, hdhour, hdmin, hbase, hone⟩ := hconst
  simp only [intTimeExpr, Long.Expr.InRange, Long.Expr.exact, Long.Fits, hwide, hdyear, hdmon,
    hdday, hdhour, hdmin, hbase, hone, true_and]
  omega

theorem toInt_intTime (h : TmInRange tm) : (intTime tm).toInt = (intTimeExpr tm).exact := by
  rw [intTime_eq_eval]
  exact Long.Expr.toInt_eval (intTimeExpr_inRange h)

end IntTime

/-! ## All digits -/

/-- The number of all digits, those of the fraction included. -/
def NsTm.packed (t : NsTm) : Nat :=
  Radix.pack bases (yearOf t.tm) (monthToSecond t.tm ++ [t.fraction])

section Packed

variable {D : DecLib} {t : NsTm}

theorem packed_eq (h : t.InRange) :
    (t.packed : Int) = (intTimeExpr t.tm).exact * 100000 + t.ns.toInt / 10000 := by
  obtain ⟨⟨hyear, hmon, hmday, hhour, hmin, hsec⟩, hns⟩ := h
  rw [intTimeExpr_exact]
  simp only [NsTm.packed, yearOf, monthToSecond, NsTm.fraction, bases, Radix.pack,
    List.cons_append, List.nil_append]
  omega

theorem packed_lt (h : t.InRange) : t.packed < 10 ^ 19 := by
  have hpacked := packed_eq h
  obtain ⟨⟨hyear, hmon, hmday, hhour, hmin, hsec⟩, hns⟩ := h
  rw [intTimeExpr_exact] at hpacked
  omega

theorem val_fraction (hD : D.Exact) (h : t.InRange) :
    (D.dectrunc (D.decdiv (D.biginttodec t.ns) (D.biginttodec nsec)) 5).val =
      (t.ns.toInt / 10000 : Int) / 10 ^ 5 := by
  have hns := h.ns
  obtain ⟨n, hn⟩ := Int.eq_ofNat_of_zero_le hns.1
  have hdiv : (D.decdiv (D.biginttodec t.ns) (D.biginttodec nsec)).val = (n : ℚ) / 10 ^ (5 + 4) := by
    rw [val_decdiv_nsec hD ⟨hns.1, by omega⟩, hn]
    rfl
  have hquot : t.ns.toInt / 10000 = ((n / 10 ^ 4 : Nat) : Int) := by rw [hn]; omega
  rw [hD.dectrunc, hdiv, cut_natCast, hquot, Int.cast_natCast]

/-- The decimal is the number of all digits, with the point before the last five. -/
theorem val_nsTmToDatetime (hD : D.Exact) (h : t.InRange) :
    (nsTmToDatetime D t).dtDec.val = t.packed / 10 ^ 5 := by
  have hlt := packed_lt h
  have hpacked := congrArg (Int.cast (R := ℚ)) (packed_eq h)
  push_cast at hpacked
  have hsum : ((intTimeExpr t.tm).exact : ℚ) + (t.ns.toInt / 10000 : Int) / 10 ^ 5 =
      t.packed / 10 ^ 5 := by
    rw [hpacked]
    field_simp
    norm_num
  have hdigits : HasDigits 32 ((t.packed : ℚ) / 10 ^ 5) :=
    ⟨t.packed, 5, by omega, by decide, by rw [Int.cast_natCast]⟩
  have hint : (D.biginttodec (intTime t.tm)).val = (intTimeExpr t.tm).exact := by
    rw [hD.biginttodec, toInt_intTime h.toTmInRange]
  have hfrac := val_fraction hD h
  change (D.decadd (D.biginttodec (intTime t.tm))
    (D.dectrunc (D.decdiv (D.biginttodec t.ns) (D.biginttodec nsec)) 5)).val = _
  rw [hD.decadd _ _ (by rwa [hint, hfrac, hsum]), hint, hfrac, hsum]

end Packed

end UdrPak.Realtime
