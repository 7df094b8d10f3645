import UdrPak.Any.AnyInt

/-!
# The integers an `any_int` is meant for

A `TypedInt` is a number with an SQL type that holds it. The constructors of `any.c` that take an
SQL value build exactly these, and on them every observer answers with the number.
-/

namespace UdrPak.Any

open Libc Numeral

/-! ## Numbers with a type -/

/-- The numbers a type holds. -/
def OrigType.Holds : OrigType → Int → Prop
  | .cBoolType, n => n = 0 ∨ n = 1
  | .cShortType, n => -2 ^ 15 ≤ n ∧ n < 2 ^ 15
  | .cIntType, n => -2 ^ 31 ≤ n ∧ n < 2 ^ 31
  | .cBigintType, n => -2 ^ 63 ≤ n ∧ n < 2 ^ 63
  | .other _, _ => False

/-- An integer with a type that holds it. -/
structure TypedInt where
  orig : OrigType
  num : Int
  holds : orig.Holds num

theorem OrigType.Holds.int64 {ty : OrigType} {n : Int} (h : ty.Holds n) :
    -2 ^ 63 ≤ n ∧ n < 2 ^ 63 := by
  cases ty <;> simp only [OrigType.Holds] at h <;> omega

/-- The smallest of `smallint`, `integer` and `bigint` that holds a number. -/
def smallest (n : Int) : OrigType :=
  if -2 ^ 15 ≤ n ∧ n < 2 ^ 15 then .cShortType
  else if -2 ^ 31 ≤ n ∧ n < 2 ^ 31 then .cIntType
  else .cBigintType

theorem smallest_holds {n : Int} (h : -2 ^ 63 ≤ n ∧ n < 2 ^ 63) : (smallest n).Holds n := by
  unfold smallest
  split_ifs with h1 h2
  · exact h1
  · exact h2
  · exact h

theorem smallest_ne_other (n : Int) (code : UInt16) : smallest n ≠ .other code := by
  unfold smallest
  split_ifs <;> simp

def TypedInt.toAny (t : TypedInt) : AnyInt := ⟨Int64.ofInt t.num, t.orig⟩

@[simp] theorem TypedInt.toAny_origType (t : TypedInt) : t.toAny.origType = t.orig := rfl

@[simp] theorem TypedInt.toAny_val (t : TypedInt) : t.toAny.val.toInt = t.num := by
  have h := t.holds.int64
  exact Int64.toInt_ofInt_of_le h.1 h.2

/-- The value lies in the range of the type. -/
def AnyInt.InRange (a : AnyInt) : Prop := a.origType.Holds a.val.toInt

theorem TypedInt.toAny_inRange (t : TypedInt) : t.toAny.InRange := by
  simpa [AnyInt.InRange] using t.holds

theorem AnyInt.InRange.eq_toAny {a : AnyInt} (h : a.InRange) : ∃ t : TypedInt, a = t.toAny :=
  ⟨⟨a.origType, a.val.toInt, h⟩, by simp [TypedInt.toAny]⟩

/-! ## Narrowing -/

theorem toInt_toInt32 {v : Int64} (h : -2 ^ 31 ≤ v.toInt ∧ v.toInt < 2 ^ 31) :
    v.toInt32.toInt = v.toInt := by
  rw [Int64.toInt_toInt32]
  exact Int.bmod_eq_of_le (by omega) (by omega)

theorem toInt_toInt16 {v : Int32} (h : -2 ^ 15 ≤ v.toInt ∧ v.toInt < 2 ^ 15) :
    v.toInt16.toInt = v.toInt := by
  rw [Int32.toInt_toInt16]
  exact Int.bmod_eq_of_le (by omega) (by omega)

theorem between_iff {n : Int} (h : -2 ^ 63 ≤ n ∧ n < 2 ^ 63) (lo hi : Int64) :
    (Int64.ofInt n < hi && Int64.ofInt n > lo) = true ↔ lo.toInt < n ∧ n < hi.toInt := by
  rw [Bool.and_eq_true, decide_eq_true_eq, decide_eq_true_eq, gt_iff_lt, Int64.lt_iff_toInt_lt,
    Int64.lt_iff_toInt_lt, Int64.toInt_ofInt_of_le h.1 h.2, and_comm]

/-! ## Casts to `any_int` -/

theorem smallintToAny_eq (v : Int16) :
    smallintToAny v = (⟨.cShortType, v.toInt, v.le_toInt, v.toInt_lt⟩ : TypedInt).toAny := by
  simp [smallintToAny, TypedInt.toAny]

theorem integerToAny_eq (v : Int32) :
    integerToAny v = (⟨.cIntType, v.toInt, v.le_toInt, v.toInt_lt⟩ : TypedInt).toAny := by
  simp [integerToAny, TypedInt.toAny]

theorem bigintToAny_eq (v : Int64) :
    bigintToAny v = (⟨.cBigintType, v.toInt, v.le_toInt, v.toInt_lt⟩ : TypedInt).toAny := by
  simp [bigintToAny, TypedInt.toAny]

theorem booleanToAny_eq (b : Bool) :
    booleanToAny (if b then 1 else 0) =
      (⟨.cBoolType, if b then 1 else 0, by cases b <;> simp [OrigType.Holds]⟩ : TypedInt).toAny := by
  cases b <;> rfl

/-! ## Observers -/

theorem length_decimal_le {n : Int} {k : Nat} (hk : 0 < k) (h : n.natAbs < 10 ^ k) :
    (decimal n).length ≤ k + 1 := by
  have hl := (Nat.length_toDigits_le_iff (b := 10) (by decide) hk).mpr h
  unfold decimal
  split
  · simpa using hl
  · omega

theorem snprintf_decimal {n : Int} (h : -2 ^ 63 ≤ n ∧ n < 2 ^ 63) :
    snprintf maxVcLen (decimal n) = decimal n := by
  have hl := length_decimal_le (n := n) (k := 19) (by decide) (by omega)
  exact List.take_of_length_le (by simp only [maxVcLen]; omega)

theorem anyIntOutput_toAny (t : TypedInt) : anyIntOutput t.toAny = .returned (decimal t.num) := by
  obtain ⟨orig, num, h⟩ := t
  have hv : (Int64.ofInt num).toInt = num := TypedInt.toAny_val ⟨orig, num, h⟩
  have hp := snprintf_decimal h.int64
  cases orig with
  | cBoolType =>
      have h32 := toInt_toInt32 (v := Int64.ofInt num) (by simp only [OrigType.Holds] at h; omega)
      have h16 := toInt_toInt16 (v := (Int64.ofInt num).toInt32)
        (by simp only [OrigType.Holds] at h; omega)
      simp only [anyIntOutput, TypedInt.toAny, fmtHd, h16, h32, hv, hp]
  | cShortType =>
      have h32 := toInt_toInt32 (v := Int64.ofInt num) (by simp only [OrigType.Holds] at h; omega)
      have h16 := toInt_toInt16 (v := (Int64.ofInt num).toInt32)
        (by simp only [OrigType.Holds] at h; omega)
      simp only [anyIntOutput, TypedInt.toAny, fmtHd, h16, h32, hv, hp]
  | cIntType =>
      have h32 := toInt_toInt32 (v := Int64.ofInt num) (by simp only [OrigType.Holds] at h; omega)
      simp only [anyIntOutput, TypedInt.toAny, fmtD, h32, hv, hp]
  | cBigintType => simp only [anyIntOutput, TypedInt.toAny, fmtLd, hv, hp]
  | other code => exact h.elim

theorem anyToBigint_toAny (t : TypedInt) : anyToBigint t.toAny = .returned (Int64.ofInt t.num) := by
  obtain ⟨orig, num, h⟩ := t
  cases orig with
  | other code => exact h.elim
  | _ => rfl

/-- `any_to_integer` checks the range of a `bigint` only, and leaves out both ends of it. -/
theorem anyToInteger_toAny (t : TypedInt) :
    anyToInteger t.toAny =
      if t.orig = .cBigintType ∧ ¬(-2147483648 < t.num ∧ t.num < 2147483647) then
        .raised overflowMessage
      else .returned (Int32.ofInt t.num) := by
  obtain ⟨orig, num, h⟩ := t
  cases orig with
  | cBigintType =>
      have hb := between_iff h.int64 (-2147483648) 2147483647
      simp only [anyToInteger, TypedInt.toAny, Int64.toInt32_ofInt, true_and, ite_not]
      exact if_congr hb rfl rfl
  | other code => exact h.elim
  | _ => simp [anyToInteger, TypedInt.toAny]

/-- `any_to_smallint` checks an `integer` or a `bigint`, and leaves out both ends of the range. -/
theorem anyToSmallint_toAny (t : TypedInt) :
    anyToSmallint t.toAny =
      if (t.orig = .cIntType ∨ t.orig = .cBigintType) ∧ ¬(-32768 < t.num ∧ t.num < 32767) then
        .raised overflowMessage
      else .returned (Int16.ofInt t.num) := by
  obtain ⟨orig, num, h⟩ := t
  have hb := between_iff h.int64 (-32768) 32767
  cases orig with
  | cIntType | cBigintType =>
      simp only [anyToSmallint, TypedInt.toAny, Int64.toInt16_ofInt, reduceCtorEq, or_false,
        or_true, true_and, ite_not]
      exact if_congr hb rfl rfl
  | other code => exact h.elim
  | _ => simp [anyToSmallint, TypedInt.toAny]

theorem anyToBoolean_toAny (t : TypedInt) :
    anyToBoolean t.toAny = if t.num = 0 then 0 else 1 := by
  have hzero : t.toAny.val = 0 ↔ t.num = 0 := by
    rw [← Int64.toInt_inj, t.toAny_val, Int64.toInt_zero]
  exact if_congr hzero rfl rfl

end UdrPak.Any
