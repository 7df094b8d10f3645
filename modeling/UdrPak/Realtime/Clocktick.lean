import UdrPak.Host.Decimal
import UdrPak.Realtime.Clock

/-!
# The clock as a number

The `clocktick` functions give a reading of the clock as one number, in different units.
-/

namespace UdrPak.Realtime

open Host

def usec : Int64 := 1000000
def msec : Int64 := 1000

def clocktick (ts : Timespec) : Int64 := ts.tvSec

def clocktickS (D : DecLib) (ts : Timespec) : Dec :=
  let nsec := D.biginttodec nsec
  let ret := D.biginttodec ts.tvSec
  let fracPart := D.biginttodec ts.tvNsec
  let fracPart := D.decdiv fracPart nsec
  let ret := D.decadd ret fracPart
  D.dectrunc ret 9

def clocktickNs (D : DecLib) (ts : Timespec) : Dec :=
  let nsec := D.biginttodec nsec
  let ret := D.biginttodec ts.tvSec
  let fracPart := D.biginttodec ts.tvNsec
  let ret := D.decmul ret nsec
  let ret := D.decadd ret fracPart
  D.dectrunc ret 0

def decClocktickUs (D : DecLib) (ts : Timespec) : Dec :=
  let usec := D.biginttodec usec
  let ret := D.biginttodec ts.tvSec
  let fracPart := D.biginttodec (ts.tvNsec / msec)
  let ret := D.decmul ret usec
  let ret := D.decadd ret fracPart
  D.dectrunc ret 0

def intClocktickUs (ts : Timespec) : Int64 := (ts.tvSec * usec) + (ts.tvNsec / msec)

def clocktickMs (ts : Timespec) : Int64 := (ts.tvSec * msec) + (ts.tvNsec / usec)

end UdrPak.Realtime
