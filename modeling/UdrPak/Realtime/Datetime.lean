import UdrPak.Host.Datetime
import UdrPak.Libc.Time
import UdrPak.Realtime.Clock

/-!
# The clock as a datetime

`ns_tm_to_datetime` puts a broken-down time into the digits of a decimal. `ns_tm_to_datetime_slow`
prints it and has the server read the text.
-/

namespace UdrPak.Realtime

open Host Libc

structure NsTm where
  tm : Tm
  ns : Int64
  deriving DecidableEq, Repr

inductive IsGmt where
  | localTz
  | gmtTz
  deriving DecidableEq, Repr

def dyear : Int64 := 10000000000
def dmon : Int64 := 100000000
def dday : Int64 := 1000000
def dhour : Int64 := 10000
def dmin : Int64 := 100

def frac5 : Int64 := 100000

/-- `gmtime_r` and `localtime_r` are those of the system. -/
def timespecToNsTm (gmtimeR localtimeR : Int64 → Tm) (ts : Timespec) (isGmt : IsGmt) : NsTm :=
  let tm := match isGmt with
    | .gmtTz => gmtimeR ts.tvSec
    | .localTz => localtimeR ts.tvSec
  { tm, ns := ts.tvNsec }

/-- The digits before the point. -/
def intTime (tm : Tm) : Int64 :=
  ((tm.tmYear.toInt64 + 1900) * dyear) + ((tm.tmMon.toInt64 + 1) * dmon) +
    (tm.tmMday.toInt64 * dday) + (tm.tmHour.toInt64 * dhour) + (tm.tmMin.toInt64 * dmin) +
      tm.tmSec.toInt64

def nsTmToDatetime (D : DecLib) (tm : NsTm) : Datetime :=
  let dtDec := D.biginttodec (intTime tm.tm)
  let fracPart := D.biginttodec tm.ns
  let nsec := D.biginttodec nsec
  let fracPart := D.decdiv fracPart nsec
  let fracPart := D.dectrunc fracPart 5
  { dtDec := D.decadd dtDec fracPart, dtQual := ⟨.year, .f5⟩ }

def dateStrBufsz : Nat := 80

/-- The text of the fraction, as `snprintf` stores it. -/
def fractionText (ns : Int64) : List Char := snprintf 8 ('.' :: fmt0Ld 5 ((ns / 10000) % frac5))

theorem length_fractionText_le (ns : Int64) : (fractionText ns).length ≤ 7 :=
  List.length_take_le 7 _

/-- The result is read through the pointer of the server, which is null where it fails. -/
def nsTmToDatetimeSlow (miStringToDatetime : StringToDatetime) (buf : CharArray dateStrBufsz)
    (tm : NsTm) : Option Datetime :=
  let buf := strftime buf tm.tm
  let buf := buf.storeAt 19 (fractionText tm.ns) (by
    have hlen := length_fractionText_le tm.ns
    unfold dateStrBufsz
    omega)
  miStringToDatetime buf.str "datetime year to fraction(5)"

def realtimeDt (D : DecLib) (gmtimeR localtimeR : Int64 → Tm) (ts : Timespec) : Datetime :=
  nsTmToDatetime D (timespecToNsTm gmtimeR localtimeR ts .localTz)

def utcRealtimeDt (D : DecLib) (gmtimeR localtimeR : Int64 → Tm) (ts : Timespec) : Datetime :=
  nsTmToDatetime D (timespecToNsTm gmtimeR localtimeR ts .gmtTz)

def realtimeDtSlow (miStringToDatetime : StringToDatetime) (buf : CharArray dateStrBufsz)
    (gmtimeR localtimeR : Int64 → Tm) (ts : Timespec) : Option Datetime :=
  nsTmToDatetimeSlow miStringToDatetime buf (timespecToNsTm gmtimeR localtimeR ts .localTz)

def utcRealtimeDtSlow (miStringToDatetime : StringToDatetime) (buf : CharArray dateStrBufsz)
    (gmtimeR localtimeR : Int64 → Tm) (ts : Timespec) : Option Datetime :=
  nsTmToDatetimeSlow miStringToDatetime buf (timespecToNsTm gmtimeR localtimeR ts .gmtTz)

end UdrPak.Realtime
