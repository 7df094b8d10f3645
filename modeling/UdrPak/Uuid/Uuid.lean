import UdrPak.Prng.Prng

/-!
# The UUID functions

`uuidv4` and `uuidv7` fill 128 bits from `prng` and the clock, and print them.
-/

namespace UdrPak.Uuid

open Host Libc Realtime Prng

def bitMask48 : UInt64 := 0x0000ffffffffffff
def bitMask32 : UInt64 := 0xffffffff
def bitMask16 : UInt64 := 0xffff

def uuidStr : Nat := 36

structure UuidNum where
  qw0 : UInt64
  qw1 : UInt64
  deriving DecidableEq, Repr

/-- The format `%08x-%04x-%04x-%04x-%012lx`. -/
def UuidNum.format (uuid : UuidNum) : List Char :=
  zeroPad 8 (fmtX ((uuid.qw0 >>> 32) &&& bitMask32).toUInt32) ++
    '-' :: zeroPad 4 (fmtX ((uuid.qw0 >>> 16) &&& bitMask16).toUInt16.toUInt32) ++
    '-' :: zeroPad 4 (fmtX (uuid.qw0 &&& bitMask16).toUInt16.toUInt32) ++
    '-' :: zeroPad 4 (fmtX ((uuid.qw1 >>> 48) &&& bitMask16).toUInt16.toUInt32) ++
    '-' :: zeroPad 12 (fmtLx (uuid.qw1 &&& bitMask48))

/-- `snprintf` into the array, and the copy of its first characters into the result. The limit given
to `snprintf` is above the size of the array. -/
def UuidNum.print (uuid : UuidNum) : Outcome (List Char) :=
  let text := snprintf 40 uuid.format
  if text.length + 1 ≤ uuidStr + 1 then .returned (text.take uuidStr)
  else .overrun (text.length + 1)

/-- The bits of `uuidv7`. `~(0xf000)` is an `int`, extended with its sign. -/
def uuidv7Num (ts : UInt64) (p2 : Int64) : UuidNum :=
  let qw0 := (ts / 1000000) <<< 16
  let qw0 := qw0 &&& (~~~(0xf000 : Int32)).toInt64.toUInt64
  let qw0 := qw0 ||| (0x7000 + (ts &&& 0xfff))
  { qw0, qw1 := ((0x2 : UInt64) <<< 62) + (p2.toUInt64 &&& 0x3fffffffffffffff) }

def uuidv4Num (p1 p2 : Int64) : UuidNum :=
  { qw0 := (p1 <<< 16).toUInt64 + (0x4000 + (p1.toUInt64 &&& 0xfff)),
    qw1 := ((0x2 : UInt64) <<< 62) + (p2.toUInt64 &&& 0x3fffffffffffffff) }

def uuidv7 (conn : Option UInt64) (realtime : Timespec) (r : SeedReadings)
    (fp : MiFparam Xsr256State) : Outcome (List Char × MiFparam Xsr256State) :=
  let ts := getClocktickNs realtime
  (xoshiro256StarStar conn r fp).bind fun (p2, fp) => ((uuidv7Num ts p2).print).map (·, fp)

def uuidv4 (conn : Option UInt64) (r r' : SeedReadings) (fp : MiFparam Xsr256State) :
    Outcome (List Char × MiFparam Xsr256State) :=
  (xoshiro256StarStar conn r fp).bind fun (p1, fp) =>
    (xoshiro256StarStar conn r' fp).bind fun (p2, fp) => ((uuidv4Num p1 p2).print).map (·, fp)

end UdrPak.Uuid
