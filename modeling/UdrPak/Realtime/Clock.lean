/-!
# The clock

A reading of `clock_gettime` is a `Timespec`. `long` and `time_t` have 64 bits.
-/

namespace UdrPak.Realtime

structure Timespec where
  tvSec : Int64
  tvNsec : Int64
  deriving DecidableEq, Repr

def nsec : Int64 := 1000000000

/-- `get_clocktick_ns`, on the reading of the clock. -/
def getClocktickNs (ts : Timespec) : UInt64 := (ts.tvSec * nsec).toUInt64 + ts.tvNsec.toUInt64

end UdrPak.Realtime
