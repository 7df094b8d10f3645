import UdrPak.Any.Lemmas.TypedInt

/-!
# SQL values as `any_int`

The values that SQL casts to `any_int`, the most negative machine integers included.
-/

namespace UdrPak.Any

inductive SqlValue where
  | smallint (v : Int16)
  | integer (v : Int32)
  | bigint (v : Int64)
  | boolean (b : Bool)
  deriving DecidableEq

namespace SqlValue

def num : SqlValue → Int
  | smallint v => v.toInt
  | integer v => v.toInt
  | bigint v => v.toInt
  | boolean b => if b then 1 else 0

/-- The cast. A `mi_boolean` that is true is 1. -/
def toAny : SqlValue → AnyInt
  | smallint v => smallintToAny v
  | integer v => integerToAny v
  | bigint v => bigintToAny v
  | boolean b => booleanToAny (if b then 1 else 0)

def typed : SqlValue → TypedInt
  | smallint v => ⟨.cShortType, v.toInt, v.le_toInt, v.toInt_lt⟩
  | integer v => ⟨.cIntType, v.toInt, v.le_toInt, v.toInt_lt⟩
  | bigint v => ⟨.cBigintType, v.toInt, v.le_toInt, v.toInt_lt⟩
  | boolean b => ⟨.cBoolType, if b then 1 else 0, by cases b <;> simp [OrigType.Holds]⟩

@[simp] theorem typed_num (v : SqlValue) : v.typed.num = v.num := by cases v <;> rfl

theorem toAny_eq (v : SqlValue) : v.toAny = v.typed.toAny := by
  cases v with
  | smallint v => exact smallintToAny_eq v
  | integer v => exact integerToAny_eq v
  | bigint v => exact bigintToAny_eq v
  | boolean b => exact booleanToAny_eq b

@[simp] theorem val_toAny (v : SqlValue) : v.toAny.val.toInt = v.num := by
  rw [toAny_eq, TypedInt.toAny_val, typed_num]

theorem holds (v : SqlValue) : v.toAny.origType.Holds v.num := by
  rw [toAny_eq, TypedInt.toAny_origType, ← typed_num]
  exact v.typed.holds

theorem origType_ne_other (v : SqlValue) (code : UInt16) : v.toAny.origType ≠ .other code := by
  intro h
  have hv := v.holds
  rw [h] at hv
  exact hv

/-- A value is determined by the type code and the number of its cast. -/
theorem eq_of_toAny {v v' : SqlValue} (hty : v.toAny.origType = v'.toAny.origType)
    (hnum : v.num = v'.num) : v = v' := by
  cases v with
  | smallint v =>
      cases v' with
      | smallint v' => exact congrArg smallint (Int16.toInt_inj.mp hnum)
      | _ => cases hty
  | integer v =>
      cases v' with
      | integer v' => exact congrArg integer (Int32.toInt_inj.mp hnum)
      | _ => cases hty
  | bigint v =>
      cases v' with
      | bigint v' => exact congrArg bigint (Int64.toInt_inj.mp hnum)
      | _ => cases hty
  | boolean b =>
      cases v' with
      | boolean b' => cases b <;> cases b' <;> first | rfl | cases hnum
      | _ => cases hty

end SqlValue

end UdrPak.Any
