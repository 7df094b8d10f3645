import UdrPak.Libc.Stdio

/-!
# `any_int`

The opaque SQL type `any_int`: an integer together with the SQL type it came from, its text form and
its casts from and to the integer types (`any.c`). Memory for the results is taken to be available.
-/

namespace UdrPak.Any

open Libc

/-- The type codes of `sqltypes.h` that `any.c` names, and every other code. -/
inductive OrigType where
  | cBoolType
  | cShortType
  | cIntType
  | cBigintType
  | other (code : UInt16)
  deriving DecidableEq

structure AnyInt where
  val : Int64
  origType : OrigType
  deriving DecidableEq

def overflowMessage : String := "Overflow, to big for target type"

def unknownOriginMessage (code : UInt16) : String := "Unknown origin type: " ++ toString code.toNat

/-! ## Text -/

def namedType (typename : List Char) : Option OrigType :=
  if strcasecmp typename "integer".toList = 0 || strcasecmp typename "serial".toList = 0 then
    some .cIntType
  else if strcasecmp typename "bigint".toList = 0 || strcasecmp typename "int8".toList = 0 ||
      strcasecmp typename "bigserial".toList = 0 || strcasecmp typename "serial8".toList = 0 then
    some .cBigintType
  else if strcasecmp typename "smallint".toList = 0 then some .cShortType
  else if strcasecmp typename "boolean".toList = 0 then some .cBoolType
  else none

def smallestType (val : Int64) : OrigType :=
  if val < 0 then
    if val < -2147483648 then .cBigintType
    else if val < -32768 then .cIntType
    else .cShortType
  else
    if val > 2147483647 then .cBigintType
    else if val > 32767 then .cIntType
    else .cShortType

/-- The part of `any_int_input` after `sscanf`, which has returned `count` and left `val` and
`typename`. When nothing was converted, `orig_type` keeps what the allocated memory held. -/
def setOrigType (count : Int) (val : Int64) (typename : List Char) (ret : AnyInt) : AnyInt :=
  if count > 0 then ⟨val, (namedType typename).getD (smallestType val)⟩ else ⟨val, ret.origType⟩

/-- `any_int_input`. The array `typename` and the memory `ret` are not initialised, so what they
hold is an argument. `%s` is unbounded: a longer word than the array is written past its end. -/
def anyIntInput (text : List Char) (typename : CharArray 32) (ret : AnyInt) : Outcome AnyInt :=
  let cp := cString text
  let scanned := sscanfLdSepS [':', ':'] cp
  let val := scanned.long.getD ret.val
  match scanned.string with
  | none => .returned (setOrigType scanned.count val typename.str ret)
  | some w =>
      if h : w.length + 1 ≤ 32 then
        .returned (setOrigType scanned.count val (typename.store w h).str ret)
      else .overrun (w.length + 1)

/-- `MAXVCLEN` of `varchar.h`. -/
def maxVcLen : Nat := 255

def anyIntOutput (a : AnyInt) : Outcome (List Char) :=
  match a.origType with
  | .cBoolType => .returned (snprintf maxVcLen (fmtHd a.val.toInt32))
  | .cShortType => .returned (snprintf maxVcLen (fmtHd a.val.toInt32))
  | .cIntType => .returned (snprintf maxVcLen (fmtD a.val.toInt32))
  | .cBigintType => .returned (snprintf maxVcLen (fmtLd a.val))
  | .other code => .raised (unknownOriginMessage code)

/-! ## Casts to `any_int` -/

def integerToAny (v : Int32) : AnyInt := ⟨v.toInt64, .cIntType⟩

def bigintToAny (v : Int64) : AnyInt := ⟨v, .cBigintType⟩

def smallintToAny (v : Int16) : AnyInt := ⟨v.toInt64, .cShortType⟩

/-- `boolean_to_any`. A `mi_boolean` is a `char`. -/
def booleanToAny (v : Int8) : AnyInt := ⟨v.toInt64, .cBoolType⟩

/-! ## Casts from `any_int` -/

def anyToInteger (a : AnyInt) : Outcome Int32 :=
  match a.origType with
  | .cBoolType => .returned a.val.toInt32
  | .cShortType => .returned a.val.toInt32
  | .cIntType => .returned a.val.toInt32
  | .cBigintType =>
      if a.val < 2147483647 && a.val > -2147483648 then .returned a.val.toInt32
      else .raised overflowMessage
  | .other code => .raised (unknownOriginMessage code)

def anyToSmallint (a : AnyInt) : Outcome Int16 :=
  match a.origType with
  | .cBoolType => .returned a.val.toInt16
  | .cShortType => .returned a.val.toInt16
  | .cIntType | .cBigintType =>
      if a.val < 32767 && a.val > -32768 then .returned a.val.toInt16
      else .raised overflowMessage
  | .other code => .raised (unknownOriginMessage code)

def anyToBigint (a : AnyInt) : Outcome Int64 :=
  match a.origType with
  | .cBoolType | .cShortType | .cIntType | .cBigintType => .returned a.val
  | .other code => .raised (unknownOriginMessage code)

/-- `any_to_boolean`, which does not look at the type. `MI_FALSE` is 0 and `MI_TRUE` is 1. -/
def anyToBoolean (a : AnyInt) : Int8 := if a.val = 0 then 0 else 1

end UdrPak.Any
