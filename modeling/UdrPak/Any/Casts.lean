import UdrPak.Any.AnyInt

/-!
# Chains of casts

`udr-pak_REG.sql` registers casts to `any_int` from five SQL types, and back. An expression such as
`x::any_int::bigint::any_int::lvarchar` goes through them in turn.
-/

namespace UdrPak.Any

open Libc

inductive SqlType where
  | lvarchar
  | smallint
  | integer
  | bigint
  | boolean
  deriving DecidableEq

inductive SqlDatum where
  | lvarchar (text : List Char)
  | smallint (v : Int16)
  | integer (v : Int32)
  | bigint (v : Int64)
  | boolean (v : Int8)
  deriving DecidableEq

/-- The memory that `any_int_input` does not initialise, as it finds it. -/
structure Memory where
  typename : CharArray 32
  ret : AnyInt

def SqlDatum.toAny (m : Memory) : SqlDatum → Outcome AnyInt
  | .lvarchar text => anyIntInput text m.typename m.ret
  | .smallint v => .returned (smallintToAny v)
  | .integer v => .returned (integerToAny v)
  | .bigint v => .returned (bigintToAny v)
  | .boolean v => .returned (booleanToAny v)

def SqlType.ofAny : SqlType → AnyInt → Outcome SqlDatum
  | .lvarchar, a => (anyIntOutput a).map .lvarchar
  | .smallint, a => (anyToSmallint a).map .smallint
  | .integer, a => (anyToInteger a).map .integer
  | .bigint, a => (anyToBigint a).map .bigint
  | .boolean, a => .returned (.boolean (anyToBoolean a))

/-- `x::any_int::t` -/
def SqlDatum.cast (m : Memory) (t : SqlType) (x : SqlDatum) : Outcome SqlDatum :=
  (x.toAny m).bind t.ofAny

/-- The casts to the types of a list, each with the memory that its call finds. -/
def SqlDatum.casts : SqlDatum → List (Memory × SqlType) → Outcome SqlDatum
  | x, [] => .returned x
  | x, (m, t) :: rest => (x.cast m t).bind (·.casts rest)

end UdrPak.Any
