import UdrPak.Any.InputTheorems

/-!
# The range of an `any_int` and its casts
-/

namespace UdrPak.Any

open Libc Numeral

/-! ## The range of the type -/

/-- What the observers of an `any_int` owe: the value lies in the range of the type, the text is the
decimal of the `bigint`, and a cast that does not raise returns the value. -/
structure Faithful (a : AnyInt) : Prop where
  inRange : a.InRange
  text : ∃ b, anyToBigint a = .returned b ∧ anyIntOutput a = .returned (decimal b.toInt)
  integer : ∀ r, anyToInteger a = .returned r → r.toInt = a.val.toInt
  smallint : ∀ r, anyToSmallint a = .returned r → r.toInt = a.val.toInt

theorem toInt_ofInt_of_integer {t : TypedInt} {r : Int32}
    (h : anyToInteger t.toAny = .returned r) : r.toInt = t.num := by
  have hn := t.holds
  rw [anyToInteger_toAny] at h
  split at h
  · cases h
  · rename_i hc
    simp only [Outcome.returned.injEq] at h
    subst h
    rw [Int32.toInt_ofInt_of_le] <;>
      cases ht : t.orig <;> simp only [ht, OrigType.Holds, true_and, not_not] at hn hc <;> omega

theorem toInt_ofInt_of_smallint {t : TypedInt} {r : Int16}
    (h : anyToSmallint t.toAny = .returned r) : r.toInt = t.num := by
  have hn := t.holds
  rw [anyToSmallint_toAny] at h
  split at h
  · cases h
  · rename_i hc
    simp only [Outcome.returned.injEq] at h
    subst h
    rw [Int16.toInt_ofInt_of_le] <;>
      cases ht : t.orig <;>
      simp only [ht, OrigType.Holds, reduceCtorEq, or_false, or_true, true_and, not_not] at hn hc <;>
      omega

theorem AnyInt.InRange.faithful {a : AnyInt} (h : a.InRange) : Faithful a := by
  obtain ⟨t, rfl⟩ := h.eq_toAny
  refine ⟨h, ⟨_, anyToBigint_toAny t, ?_⟩, ?_, ?_⟩
  · rw [anyIntOutput_toAny]
    exact congrArg (fun n => Outcome.returned (decimal n)) t.toAny_val.symm
  · intro r hr
    rw [t.toAny_val, toInt_ofInt_of_integer hr]
  · intro r hr
    rw [t.toAny_val, toInt_ofInt_of_smallint hr]

theorem TypedInt.faithful (t : TypedInt) : Faithful t.toAny := t.toAny_inRange.faithful

/-- A literal of an `int64` number with the name of a known type. -/
structure TypedLiteral where
  text : List Char
  num : Int
  name : List Char
  type : OrigType
  literal : Literal text num (some name)
  int64 : -2 ^ 63 ≤ num ∧ num < 2 ^ 63
  named : type.Names name

/-- The ways to make an `any_int`. -/
inductive Constructor where
  | input (lit : TypedLiteral) (typename : CharArray 32) (ret : AnyInt)
  | smallint (v : Int16)
  | integer (v : Int32)
  | bigint (v : Int64)
  | boolean (b : Bool)

def Constructor.run : Constructor → Outcome AnyInt
  | .input lit typename ret => anyIntInput lit.text typename ret
  | .smallint v => .returned (smallintToAny v)
  | .integer v => .returned (integerToAny v)
  | .bigint v => .returned (bigintToAny v)
  | .boolean b => .returned (booleanToAny (if b then 1 else 0))

/-- A literal whose suffix names no type gets a type that its number fits. -/
theorem anyIntInput_unnamed_faithful (v : Int64) {w : List Char} (hw : IsWord w)
    (hlen : w.length ≤ 31) (hnone : ∀ ty : OrigType, ¬ty.Names w) (typename : CharArray 32)
    (ret : AnyInt) :
    ∃ a, anyIntInput (decimal v.toInt ++ ([':', ':'] ++ w)) typename ret = .returned a ∧
      Faithful a := by
  have hname := (namedType_eq_none_iff hw).mpr hnone
  have hinput := anyIntInput_suffix v hw hlen typename ret
  rw [hname, Option.getD_none] at hinput
  refine ⟨_, hinput, AnyInt.InRange.faithful ?_⟩
  exact smallest_holds ⟨v.le_toInt, v.toInt_lt⟩

inductive SqlInt where
  | smallint
  | integer
  | bigint
  deriving DecidableEq

/-- The values of an SQL type. Its most negative machine integer is the SQL null. -/
def SqlInt.Range : SqlInt → Int → Prop
  | .smallint, n => -32767 ≤ n ∧ n ≤ 32767
  | .integer, n => -2147483647 ≤ n ∧ n ≤ 2147483647
  | .bigint, n => -9223372036854775807 ≤ n ∧ n ≤ 9223372036854775807

instance (s : SqlInt) (n : Int) : Decidable (s.Range n) := by
  cases s <;> unfold SqlInt.Range <;> infer_instance

def SqlInt.toAny : SqlInt → Int → AnyInt
  | .smallint, n => smallintToAny (Int16.ofInt n)
  | .integer, n => integerToAny (Int32.ofInt n)
  | .bigint, n => bigintToAny (Int64.ofInt n)

def SqlInt.fromAny : SqlInt → AnyInt → Outcome Int
  | .smallint, a => (anyToSmallint a).map Int16.toInt
  | .integer, a => (anyToInteger a).map Int32.toInt
  | .bigint, a => (anyToBigint a).map Int64.toInt

/-- The cast returns a value the target type has, and raises the overflow error for any other. -/
def CastExact (s t : SqlInt) (n : Int) : Prop :=
  (t.Range n → t.fromAny (s.toAny n) = .returned n) ∧
    (¬t.Range n → t.fromAny (s.toAny n) = .raised overflowMessage)

/-- The largest value of the target type, which the checked casts reject. -/
def AtUpperEnd (s t : SqlInt) (n : Int) : Prop :=
  (t = .integer ∧ s = .bigint ∧ n = 2147483647) ∨
    (t = .smallint ∧ s ≠ .smallint ∧ n = 32767)

def SqlInt.typed (s : SqlInt) (n : Int) (h : s.Range n) : TypedInt where
  orig := match s with
    | .smallint => .cShortType
    | .integer => .cIntType
    | .bigint => .cBigintType
  num := n
  holds := by cases s <;> simp only [SqlInt.Range, OrigType.Holds] at h ⊢ <;> omega

@[simp] theorem SqlInt.typed_num (s : SqlInt) {n : Int} (h : s.Range n) :
    (s.typed n h).num = n := rfl

theorem SqlInt.toAny_eq (s : SqlInt) {n : Int} (h : s.Range n) :
    s.toAny n = (s.typed n h).toAny := by
  cases s with
  | smallint =>
      have hn : (Int16.ofInt n).toInt = n :=
        Int16.toInt_ofInt_of_le (by have := h.1; omega) (by have := h.2; omega)
      simp [SqlInt.toAny, smallintToAny_eq, SqlInt.typed, hn]
  | integer =>
      have hn : (Int32.ofInt n).toInt = n :=
        Int32.toInt_ofInt_of_le (by have := h.1; omega) (by have := h.2; omega)
      simp [SqlInt.toAny, integerToAny_eq, SqlInt.typed, hn]
  | bigint =>
      have hn : (Int64.ofInt n).toInt = n :=
        Int64.toInt_ofInt_of_le (by have := h.1; omega) (by have := h.2; omega)
      simp [SqlInt.toAny, bigintToAny_eq, SqlInt.typed, hn]

def Rejected (s t : SqlInt) (n : Int) : Prop :=
  (t = .integer ∧ s = .bigint ∧ ¬(-2147483648 < n ∧ n < 2147483647)) ∨
    (t = .smallint ∧ s ≠ .smallint ∧ ¬(-32768 < n ∧ n < 32767))

instance (s t : SqlInt) (n : Int) : Decidable (Rejected s t n) := by
  unfold Rejected; infer_instance

theorem SqlInt.fromAny_typed (s t : SqlInt) {n : Int} (h : s.Range n) :
    t.fromAny (s.typed n h).toAny =
      if Rejected s t n then .raised overflowMessage else .returned n := by
  have hn := (s.typed n h).holds.int64
  cases t with
  | bigint =>
      have hv : (Int64.ofInt n).toInt = n := Int64.toInt_ofInt_of_le hn.1 hn.2
      have hr : ¬Rejected s .bigint n := by simp [Rejected]
      rw [if_neg hr, SqlInt.fromAny, anyToBigint_toAny]
      exact congrArg Outcome.returned hv
  | integer =>
      have hr : Rejected s .integer n ↔
          (s.typed n h).orig = .cBigintType ∧ ¬(-2147483648 < n ∧ n < 2147483647) := by
        cases s <;> simp [Rejected, SqlInt.typed]
      have hrun := anyToInteger_toAny (s.typed n h)
      rw [SqlInt.typed_num] at hrun
      rw [SqlInt.fromAny]
      by_cases hc : Rejected s .integer n
      · rw [if_pos hc, hrun, if_pos (hr.mp hc)]
        rfl
      · rw [if_neg (fun hx => hc (hr.mpr hx))] at hrun
        have ho := toInt_ofInt_of_integer hrun
        rw [if_neg hc, hrun]
        exact congrArg Outcome.returned ho
  | smallint =>
      have hr : Rejected s .smallint n ↔
          ((s.typed n h).orig = .cIntType ∨ (s.typed n h).orig = .cBigintType) ∧
            ¬(-32768 < n ∧ n < 32767) := by
        cases s <;> simp [Rejected, SqlInt.typed]
      have hrun := anyToSmallint_toAny (s.typed n h)
      rw [SqlInt.typed_num] at hrun
      rw [SqlInt.fromAny]
      by_cases hc : Rejected s .smallint n
      · rw [if_pos hc, hrun, if_pos (hr.mp hc)]
        rfl
      · rw [if_neg (fun hx => hc (hr.mpr hx))] at hrun
        have ho := toInt_ofInt_of_smallint hrun
        rw [if_neg hc, hrun]
        exact congrArg Outcome.returned ho

theorem rejected_iff {s t : SqlInt} {n : Int} (h : s.Range n) :
    (Rejected s t n ↔ ¬t.Range n) ↔ ¬AtUpperEnd s t n := by
  cases s <;> cases t <;>
    simp only [Rejected, SqlInt.Range, AtUpperEnd, reduceCtorEq, ne_eq, not_true_eq_false,
      not_false_eq_true, true_and, false_and, or_false, false_or, false_iff, iff_true,
      not_not] at h ⊢ <;> omega

theorem castExact_iff (s t : SqlInt) (n : Int) (h : s.Range n) :
    CastExact s t n ↔ ¬AtUpperEnd s t n := by
  rw [← rejected_iff h, CastExact, s.toAny_eq h, SqlInt.fromAny_typed]
  by_cases hc : Rejected s t n
  · simp [hc]
  · simp [hc]

theorem castExact_iff_bigint_to_integer :
    CastExact .bigint .integer 70000 ↔ ¬AtUpperEnd .bigint .integer 70000 :=
  castExact_iff .bigint .integer 70000 (by decide)

/-- The `integer` 2147483647 as a `bigint` does not come back. -/
theorem castExact_fails_at_upper_end : ¬CastExact .bigint .integer 2147483647 := by
  intro h
  have hr : SqlInt.integer.fromAny (SqlInt.bigint.toAny 2147483647) = .raised overflowMessage := by
    decide
  have := h.1 (by decide)
  rw [hr] at this
  cases this

end UdrPak.Any
