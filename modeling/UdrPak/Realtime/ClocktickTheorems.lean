import UdrPak.Lib.Long
import UdrPak.Realtime.Clocktick
import UdrPak.Realtime.Lemmas.Clock

/-!
# The views of one instant

Every `clocktick` function gives the nanoseconds of the reading, rounded down to its unit.
-/

namespace UdrPak.Realtime

open Host Decimal

/-- The reading has less than a second of nanoseconds, and its microseconds are a machine integer. -/
structure Timespec.Narrow (ts : Timespec) : Prop where
  nsec : 0 ≤ ts.tvNsec.toInt ∧ ts.tvNsec.toInt < 1000000000
  sec : -9223372036853 ≤ ts.tvSec.toInt ∧ ts.tvSec.toInt ≤ 9223372036853

/-- The arithmetic of `int_clocktick_us` and of `clocktick_ms`: `sec * scale + nsec / unit`. -/
def splitExpr (ts : Timespec) (scale unit : Int64) : Long.Expr :=
  .add (.mul (.lit ts.tvSec) (.lit scale)) (.div (.lit ts.tvNsec) (.lit unit))

section Views

variable {D : DecLib} {ts : Timespec}

/-! ## Integers -/

theorem splitExpr_exact {scale unit : Int64} (h : 0 < unit.toInt)
    (hsplit : scale.toInt * unit.toInt = 1000000000) (hts : ts.Narrow) :
    (splitExpr ts scale unit).exact = ts.nanos / unit.toInt := by
  have hquot : ts.tvNsec.toInt.tdiv unit.toInt = ts.tvNsec.toInt / unit.toInt :=
    Int.tdiv_eq_ediv_of_nonneg hts.nsec.1
  have hnanos : ts.nanos = ts.tvNsec.toInt + ts.tvSec.toInt * scale.toInt * unit.toInt := by
    rw [Timespec.nanos, Int.mul_assoc, hsplit, Int.add_comm]
  rw [hnanos, Int.add_mul_ediv_right _ _ (Int.ne_of_gt h), Int.add_comm]
  change ts.tvSec.toInt * scale.toInt + ts.tvNsec.toInt.tdiv unit.toInt = _
  rw [hquot]

theorem splitExpr_inRange {scale unit : Int64}
    (h : (scale = usec ∧ unit = msec) ∨ (scale = msec ∧ unit = usec)) (hts : ts.Narrow) :
    (splitExpr ts scale unit).InRange := by
  have hsec := hts.sec
  have hnsec := hts.nsec
  have hmsec : msec.toInt = 1000 := rfl
  have husec : usec.toInt = 1000000 := rfl
  simp only [splitExpr, Long.Expr.InRange, Long.Expr.exact, Long.Fits, true_and]
  rcases h with ⟨rfl, rfl⟩ | ⟨rfl, rfl⟩
  · rw [hmsec, husec, Int.tdiv_eq_ediv_of_nonneg hnsec.1]
    omega
  · rw [hmsec, husec, Int.tdiv_eq_ediv_of_nonneg hnsec.1]
    omega

theorem toInt_intClocktickUs (hts : ts.Narrow) : (intClocktickUs ts).toInt = ts.nanos / 1000 := by
  have hrange := splitExpr_inRange (Or.inl ⟨rfl, rfl⟩) hts
  exact (Long.Expr.toInt_eval hrange).trans (splitExpr_exact (by decide) (by decide) hts)

theorem toInt_clocktickMs (hts : ts.Narrow) : (clocktickMs ts).toInt = ts.nanos / 1000000 := by
  have hrange := splitExpr_inRange (Or.inr ⟨rfl, rfl⟩) hts
  exact (Long.Expr.toInt_eval hrange).trans (splitExpr_exact (by decide) (by decide) hts)

theorem toInt_clocktick (hts : ts.Narrow) : (clocktick ts).toInt = ts.nanos / 1000000000 := by
  have hnsec := hts.nsec
  rw [clocktick, Timespec.nanos]
  omega

/-! ## Decimals -/

/-- Two machine integers, scaled and added, are exact as decimals. -/
theorem val_scaled (hD : D.Exact) {s scale n : Int64} (hscale : scale.toInt.natAbs ≤ 1000000000) :
    (D.dectrunc (D.decadd (D.decmul (D.biginttodec s) (D.biginttodec scale)) (D.biginttodec n))
      0).val = (s.toInt * scale.toInt + n.toInt : Int) := by
  have hs := s.le_toInt
  have hs' := s.toInt_lt
  have hn := n.le_toInt
  have hn' := n.toInt_lt
  have hbound : (s.toInt * scale.toInt).natAbs ≤ 2 ^ 63 * 1000000000 := by
    rw [Int.natAbs_mul]
    exact Nat.mul_le_mul (by omega) hscale
  have hmul : (D.decmul (D.biginttodec s) (D.biginttodec scale)).val =
      (s.toInt * scale.toInt : Int) := by
    have hdigits : HasDigits 32 ((s.toInt * scale.toInt : Int) : ℚ) := hasDigits_int (by omega)
    push_cast at hdigits ⊢
    rw [hD.decmul _ _ (by rwa [hD.biginttodec, hD.biginttodec]), hD.biginttodec, hD.biginttodec]
  have hadd : HasDigits 32 ((s.toInt * scale.toInt + n.toInt : Int) : ℚ) := hasDigits_int (by omega)
  rw [Int.cast_add] at hadd
  rw [hD.dectrunc, hD.decadd _ _ (by rwa [hmul, hD.biginttodec]), hmul, hD.biginttodec,
    ← Int.cast_add, cut_int]

theorem val_clocktickNs (hD : D.Exact) : (clocktickNs D ts).val = ts.nanos :=
  val_scaled hD (by decide)

theorem val_decClocktickUs (hD : D.Exact) (hts : ts.Narrow) :
    (decClocktickUs D ts).val = (ts.nanos / 1000 : Int) := by
  have hrange := splitExpr_inRange (Or.inl ⟨rfl, rfl⟩) hts
  have hquot : (ts.tvNsec / msec).toInt = ts.tvNsec.toInt.tdiv msec.toInt :=
    Long.Expr.toInt_eval hrange.2.1
  have hexact : (splitExpr ts usec msec).exact = ts.nanos / 1000 :=
    splitExpr_exact (by decide) (by decide) hts
  have hval : (decClocktickUs D ts).val =
      (ts.tvSec.toInt * usec.toInt + (ts.tvNsec / msec).toInt : Int) := val_scaled hD (by decide)
  rw [hval, hquot, ← hexact]
  rfl

theorem val_clocktickS (hD : D.Exact) (hts : ts.Narrow) :
    (clocktickS D ts).val = ts.nanos / 1000000000 := by
  have hsec := hts.sec
  have hnsec := hts.nsec
  have hscale : (1000000000 : ℚ) = 10 ^ 9 := by norm_num
  have hfrac := val_decdiv_nsec hD hnsec
  have hsum : (ts.tvSec.toInt : ℚ) + ts.tvNsec.toInt / 10 ^ 9 = ts.nanos / 10 ^ 9 := by
    rw [Timespec.nanos]
    push_cast
    field_simp
    ring
  have hadd : HasDigits 32 ((ts.nanos : ℚ) / 10 ^ 9) := by
    refine ⟨ts.nanos, 9, ?_, by decide, rfl⟩
    unfold Timespec.nanos
    omega
  have hret : (D.decadd (D.biginttodec ts.tvSec)
      (D.decdiv (D.biginttodec ts.tvNsec) (D.biginttodec nsec))).val = ts.nanos / 10 ^ 9 := by
    rw [hD.decadd _ _ (by rwa [hfrac, hD.biginttodec, hsum]), hfrac, hD.biginttodec, hsum]
  rw [hscale, ← cut_of_digits 9 ts.nanos, ← hret, ← hD.dectrunc]
  rfl

end Views

/-- All functions give the same instant, and no integer arithmetic overflows. -/
structure SameInstant (D : DecLib) (ts : Timespec) : Prop where
  ns : (clocktickNs D ts).val = ts.nanos
  s : (clocktickS D ts).val = ts.nanos / 1000000000
  decUs : (decClocktickUs D ts).val = (ts.nanos / 1000 : Int)
  intUs : (intClocktickUs ts).toInt = ts.nanos / 1000
  ms : (clocktickMs ts).toInt = ts.nanos / 1000000
  clocktick : (clocktick ts).toInt = ts.nanos / 1000000000
  usInRange : intClocktickUs ts = (splitExpr ts usec msec).eval ∧ (splitExpr ts usec msec).InRange
  msInRange : clocktickMs ts = (splitExpr ts msec usec).eval ∧ (splitExpr ts msec usec).InRange

theorem clocktick_sameInstant (D : DecLib) (hD : D.Exact) (ts : Timespec) (hts : ts.Narrow) :
    SameInstant D ts where
  ns := val_clocktickNs hD
  s := val_clocktickS hD hts
  decUs := val_decClocktickUs hD hts
  intUs := toInt_intClocktickUs hts
  ms := toInt_clocktickMs hts
  clocktick := toInt_clocktick hts
  usInRange := ⟨rfl, splitExpr_inRange (Or.inl ⟨rfl, rfl⟩) hts⟩
  msInRange := ⟨rfl, splitExpr_inRange (Or.inr ⟨rfl, rfl⟩) hts⟩

/-- A nanosecond before the epoch. -/
theorem clocktick_sameInstant_before_epoch : SameInstant exactDecLib ⟨-1, 999999999⟩ :=
  clocktick_sameInstant exactDecLib exactDecLib_exact ⟨-1, 999999999⟩ ⟨by decide, by decide⟩

end UdrPak.Realtime
