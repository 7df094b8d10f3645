import UdrPak.Any.AnyInt

/-!
# `to_hex`

Hexadecimal texts of an `any_int`, in the width of the type it came from (`udr_util.c`).
-/

namespace UdrPak.Util

open Libc UdrPak.Any

/-- `any_to_hex`. The argument is absent when `mi_fp_argisnull` says so, the result is absent when
the routine returns the SQL null. -/
def anyToHex (arg : Option AnyInt) : Outcome (Option (List Char)) :=
  match arg with
  | none => .returned none
  | some a =>
      match a.origType with
      | .cBoolType | .cShortType =>
          .returned (some (snprintf maxVcLen (fmtHx a.val.toInt32.toUInt32)))
      | .cIntType => .returned (some (snprintf maxVcLen (fmtX a.val.toInt32.toUInt32)))
      | .cBigintType => .returned (some (snprintf maxVcLen (fmtLx a.val.toUInt64)))
      | .other code => .raised (unknownOriginMessage code)

/-! ## Texts of whole groups of four digits -/

/-- What the three `_to_hex4` routines do with a printed number. It is written behind three
characters of a buffer filled with `'0'`; the size `snprintf` gets is that of the whole buffer, so a
text longer than the rest of it is written past the end. -/
def hex4 (text : List Char) : Outcome (List Char) :=
  let buf : CharArray maxVcLen := Vector.replicate maxVcLen '0'
  let text := snprintf maxVcLen text
  if h : 3 + text.length + 1 ≤ maxVcLen then
    let buf := buf.storeAt 3 text h
    let len := UInt16.ofNat buf.str.length
    let overLen := len % 4
    .returned ((buf.toList.drop overLen.toNat).take (len.toNat - overLen.toNat))
  else .overrun (3 + text.length + 1)

def anyToHex4 (arg : Option AnyInt) : Outcome (Option (List Char)) :=
  match arg with
  | none => .returned none
  | some a =>
      match a.origType with
      | .cBoolType | .cShortType => (hex4 (fmtHx a.val.toInt32.toUInt32)).map some
      | .cIntType => (hex4 (fmtX a.val.toInt32.toUInt32)).map some
      | .cBigintType => (hex4 (fmtLx a.val.toUInt64)).map some
      | .other code => .raised (unknownOriginMessage code)

def integerToHex4 (val : Int32) : Outcome (List Char) := hex4 (fmtX val.toUInt32)

/-- `smallint_to_hex4`. The argument of `snprintf` is promoted to `int`. -/
def smallintToHex4 (val : Int16) : Outcome (List Char) := hex4 (fmtHx val.toInt32.toUInt32)

end UdrPak.Util
