import UdrPak.Host.Fparam
import UdrPak.Libc.Stdio
import UdrPak.Prng.Orig
import UdrPak.Realtime.Clock

/-!
# The `prng` function

The port of xoshiro256**, seeded from the session id and the clocks.
-/

namespace UdrPak.Prng

open Host Libc Realtime

structure Xsr256State where
  xsrS : Words
  sm64X : UInt64
  sid : UInt64
  deriving DecidableEq, Repr

def Xsr256State.zeroed : Xsr256State := ⟨⟨0, 0, 0, 0⟩, 0, 0⟩

/-- What the clocks show while one state is seeded, in the order they are read. -/
structure SeedReadings where
  realtime : Timespec
  monotonic : Timespec
  threadCputime : Timespec
  realtimeAgain : Timespec
  deriving DecidableEq, Repr

def enomemMessage : String :=
  "src/util/udr_util.c: UDR Extension memory allocation failure, Aborting"

def noSessionMessage : String := "src/prng/prng.c: Can't get session ID!, Aborting"

/-- `get_session_id`, where `mi_open` gives a connection with the session id, or none. -/
def getSessionId (conn : Option UInt64) : Outcome UInt64 :=
  match conn with
  | none => .raised enomemMessage
  | some id => .returned id

/-- One pass of the seeding loop: the word it stores, and the state with the next `sm64_x`. -/
def seedPass (ts : Timespec) (s : Xsr256State) : UInt64 × Xsr256State :=
  let s := { s with sm64X := getClocktickNs ts ^^^ ((s.sid &&& 0xffffffff) <<< 32) }
  let s := { s with sm64X := s.sm64X + 0x9e3779b97f4a7c15 }
  let z : UInt64 := s.sm64X
  let z : UInt64 := (z ^^^ (z >>> 30)) * 0xbf58476d1ce4e5b9
  let z : UInt64 := (z ^^^ (z >>> 27)) * 0x94d049bb133111eb
  (z ^^^ (z >>> 31), s)

/-- The first word is the real time, the loop stores the other three. -/
def seed (r : SeedReadings) (s : Xsr256State) : Xsr256State :=
  let s := { s with xsrS := { s.xsrS with s0 := getClocktickNs r.realtime } }
  let (w, s) := seedPass r.monotonic s
  let s := { s with xsrS := { s.xsrS with s1 := w } }
  let (w, s) := seedPass r.threadCputime s
  let s := { s with xsrS := { s.xsrS with s2 := w } }
  let (w, s) := seedPass r.realtimeAgain s
  { s with xsrS := { s.xsrS with s3 := w } }

def initXsr256State (conn : Option UInt64) (r : SeedReadings) (fp : MiFparam Xsr256State) :
    Outcome (Xsr256State × MiFparam Xsr256State) :=
  let (s, fp) := getFuncStatePtr Xsr256State.zeroed fp
  (if s.sid = 0 then getSessionId conn else .returned s.sid).bind fun sid =>
    if sid = 0 then .raised noSessionMessage
    else
      let s := seed r { s with sid }
      .returned (s, fp.setfuncstate s)

/-- The generator on a state. The result and the shifted word are `int64_t`. -/
def advance (s : Xsr256State) : Int64 × Xsr256State :=
  let w := s.xsrS
  let r := (rotl (w.s1 * 5) 7 * 9).toInt64
  let t := (w.s1 <<< 17).toInt64
  let w := { w with s2 := w.s2 ^^^ w.s0 }
  let w := { w with s3 := w.s3 ^^^ w.s1 }
  let w := { w with s1 := w.s1 ^^^ w.s2 }
  let w := { w with s0 := w.s0 ^^^ w.s3 }
  let w := { w with s2 := w.s2 ^^^ t.toUInt64 }
  let w := { w with s3 := rotl w.s3 45 }
  (r, { s with xsrS := w })

/-- `_xoshiro256_star_star`, which seeds a state only where it is given none. The state is the
function state. -/
def xoshiro256StarStarOn (s : Option Xsr256State) (conn : Option UInt64) (r : SeedReadings)
    (fp : MiFparam Xsr256State) : Outcome (Int64 × MiFparam Xsr256State) :=
  (match s with
    | none => initXsr256State conn r fp
    | some s => .returned (s, fp)).bind fun (s, fp) =>
      let (ret, s) := advance s
      .returned (ret, fp.setfuncstate s)

/-- `xoshiro256_star_star`, the wrapper that SQL calls as `prng`. -/
def xoshiro256StarStar (conn : Option UInt64) (r : SeedReadings) (fp : MiFparam Xsr256State) :
    Outcome (Int64 × MiFparam Xsr256State) :=
  (initXsr256State conn r fp).bind fun (s, fp) => xoshiro256StarStarOn (some s) conn r fp

end UdrPak.Prng
