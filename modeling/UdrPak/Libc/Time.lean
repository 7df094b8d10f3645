import UdrPak.Libc.Stdio

/-!
# Broken-down times
-/

namespace Libc

/-- `struct tm`, as far as it is read. -/
structure Tm where
  tmSec : Int32
  tmMin : Int32
  tmHour : Int32
  tmMday : Int32
  tmMon : Int32
  tmYear : Int32
  deriving DecidableEq, Repr

/-- A field of two digits. The standard has no text for a field outside of its range. -/
def twoDigits (n : Int) : List Char := (Numeral.decimal n).leftpad 2 '0'

/-- The text of `strftime` for `%Y-%m-%d %H:%M:%S`. -/
def Tm.format (tm : Tm) : List Char :=
  Numeral.decimal (tm.tmYear.toInt + 1900) ++ '-' :: twoDigits (tm.tmMon.toInt + 1) ++
    '-' :: twoDigits tm.tmMday.toInt ++ ' ' :: twoDigits tm.tmHour.toInt ++
      ':' :: twoDigits tm.tmMin.toInt ++ ':' :: twoDigits tm.tmSec.toInt

/-- `strftime` into an array. A text that does not fit leaves the array undefined, here as it was. -/
def strftime {n : Nat} (buf : CharArray n) (tm : Tm) : CharArray n :=
  if h : tm.format.length + 1 ≤ n then buf.store tm.format h else buf

end Libc
