import UdrPak.Realtime.DatetimeTheorems
import UdrPak.Realtime.Lemmas.Calendar
import UdrPak.Realtime.OrderTheorems

/-!
# A datetime in UTC is an instant

With a `gmtime_r` that inverts the seconds since the epoch, the instant can be read back from the
datetime up to 10 microseconds, and two datetimes are ordered as their instants.
-/

namespace UdrPak.Realtime

open Host Libc

/-- The seconds from the epoch to the end of the year 9999. -/
def InEra (sec : Int64) : Prop := 0 ≤ sec.toInt ∧ sec.toInt < 253402300800

instance (sec : Int64) : Decidable (InEra sec) := by unfold InEra; infer_instance

/-- `gmtime_r` gives the time that has the number of seconds. -/
structure CountsSeconds (gmtimeR : Int64 → Tm) : Prop where
  valid : ∀ sec, InEra sec → TmExists (gmtimeR sec)
  seconds : ∀ sec, InEra sec → epochSeconds (calendar (gmtimeR sec)) = sec.toInt

section Instants

variable {D : DecLib} {gmtimeR localtimeR : Int64 → Tm} {ts ts' : Timespec}

theorem tenMicros_utc (h : CountsSeconds gmtimeR) (hts : ts.ReadAt InEra) :
    tenMicros (timespecToNsTm gmtimeR localtimeR ts .gmtTz).fields = ts.nanos / 10000 := by
  have hsec : epochSeconds (calendar (gmtimeR ts.tvSec)) = ts.tvSec.toInt := h.seconds _ hts.sec
  have hnsec := hts.nsec
  have hfraction : (((ts.tvNsec.toInt / 10000).toNat : Nat) : Int) = ts.tvNsec.toInt / 10000 :=
    Int.toNat_of_nonneg (by omega)
  change epochSeconds (calendar (gmtimeR ts.tvSec)) * 100000 +
    ((ts.tvNsec.toInt / 10000).toNat : Nat) = _
  rw [hsec, hfraction, Timespec.nanos]
  omega

theorem inRange_utc (h : CountsSeconds gmtimeR) (hts : ts.ReadAt InEra) :
    (timespecToNsTm gmtimeR localtimeR ts .gmtTz).InRange :=
  ⟨(h.valid _ hts.sec).toTmInRange, hts.nsec⟩

theorem exists_utc (h : CountsSeconds gmtimeR) (hts : ts.ReadAt InEra) :
    (timespecToNsTm gmtimeR localtimeR ts .gmtTz).Exists := by
  have hvalid := h.valid _ hts.sec
  have hepoch := hvalid.epoch
  exact ⟨inRange_utc h hts, by change 1000 ≤ (gmtimeR ts.tvSec).tmYear.toInt + 1900; omega,
    hvalid.mdayOfMonth, hvalid.noLeapSecond⟩

/-- The digits that the server reads. -/
theorem nsTmToDatetimeSlow_val {miStringToDatetime : StringToDatetime}
    (hread : ReadsAsWritten miStringToDatetime) (buf : CharArray dateStrBufsz) {t : NsTm}
    (h : t.Exists) :
    ∃ dt, nsTmToDatetimeSlow miStringToDatetime buf t = some dt ∧
      dt.dtDec.val = t.packed / 10 ^ 5 := by
  obtain ⟨dt, hdt, hval, -⟩ := hread h.stamp
  refine ⟨dt, ?_, hval.trans h.number_stamp⟩
  rw [nsTmToDatetimeSlow]
  simp only [str_buf h buf]
  exact hdt

end Instants

/-- The instant can be read back from what `utc_realtime_dt` and `utc_realtime_dt_slow` return, and
an earlier datetime is an earlier instant, in steps of 10 microseconds. -/
theorem utcDatetime_instant (D : DecLib) (hD : D.Exact) (gmtimeR localtimeR : Int64 → Tm)
    (h : CountsSeconds gmtimeR) :
    (∀ ts : Timespec, ts.ReadAt InEra →
      tenMicros (readBack (utcRealtimeDt D gmtimeR localtimeR ts).dtDec.val) =
        ts.nanos / 10000) ∧
    (∀ miStringToDatetime, ReadsAsWritten miStringToDatetime → ∀ buf (ts : Timespec),
      ts.ReadAt InEra → ∃ dt,
        utcRealtimeDtSlow miStringToDatetime buf gmtimeR localtimeR ts = some dt ∧
          tenMicros (readBack dt.dtDec.val) = ts.nanos / 10000) ∧
    ∀ ts ts' : Timespec, ts.ReadAt InEra → ts'.ReadAt InEra →
      ((utcRealtimeDt D gmtimeR localtimeR ts).dtDec.val <
          (utcRealtimeDt D gmtimeR localtimeR ts').dtDec.val ↔
        ts.nanos / 10000 < ts'.nanos / 10000) := by
  refine ⟨fun ts hts => ?_, fun miStringToDatetime hread buf ts hts => ?_,
    fun ts ts' hts hts' => ?_⟩
  · have hfields : readBack (utcRealtimeDt D gmtimeR localtimeR ts).dtDec.val = _ :=
      readBack_val hD (inRange_utc h hts)
    rw [hfields, tenMicros_utc h hts]
  · have hexists := @exists_utc gmtimeR localtimeR ts h hts
    obtain ⟨dt, hdt, hval⟩ := nsTmToDatetimeSlow_val hread buf hexists
    refine ⟨dt, hdt, ?_⟩
    rw [hval, ← val_nsTmToDatetime hD hexists.toInRange, readBack_val hD hexists.toInRange,
      tenMicros_utc h hts]
  · have hlt := @fields_lt_iff (timespecToNsTm gmtimeR localtimeR ts .gmtTz)
      (timespecToNsTm gmtimeR localtimeR ts' .gmtTz) (h.valid _ hts.sec) (h.valid _ hts'.sec)
      hts.nsec hts'.nsec
    rw [tenMicros_utc h hts, tenMicros_utc h hts'] at hlt
    exact (val_lt_iff hD (inRange_utc h hts) (inRange_utc h hts')).trans hlt

/-! ## A `gmtime_r` -/

/-- The year, the month and the day of the month, each counted from 0. -/
def dateOf (day : Nat) : Nat × Nat × Nat :=
  let (year, day) := Blocks.locate (fun k => yearLen (1970 + k)) 8030 0 day
  (year, Blocks.locate (monthLen (1970 + year)) 12 0 day)

/-- The time of a second from the epoch on. -/
def gmtimeOf (sec : Int64) : Tm :=
  let n := sec.toInt.toNat
  let (year, mon, mday) := dateOf (n / 86400)
  { tmSec := .ofNat (n % 60), tmMin := .ofNat (n / 60 % 60), tmHour := .ofNat (n / 3600 % 24),
    tmMday := .ofNat (mday + 1), tmMon := .ofNat mon, tmYear := .ofNat (70 + year) }

section Gmtime

theorem dateOf_spec {day : Nat} (h : day < 2932897) : ∃ year mon mday,
    dateOf day = (year, mon, mday) ∧ year < 8030 ∧ mon < 12 ∧ mday < monthLen (1970 + year) mon ∧
      dayNumber (1970 + year) mon (mday + 1) = day := by
  have hlast := start_yearLen 8030
  obtain ⟨year, rest, hlocate, hyear, hrest, hday⟩ :=
    @Blocks.exists_locate (fun k => yearLen (1970 + k)) day 8030 (by omega)
  rw [← start_monthLen] at hrest
  obtain ⟨mon, mday, hlocate', hmon, hmday, hdays⟩ := Blocks.exists_locate hrest
  refine ⟨year, mon, mday, ?_, hyear, hmon, hmday, ?_⟩
  · rw [dateOf, hlocate]
    exact congrArg (Prod.mk year) hlocate'
  · rw [dayNumber, yday, Nat.add_sub_cancel_left, Nat.add_sub_cancel, hdays, hday]

theorem daysIn_le (year month : Nat) : daysIn year month ≤ 31 := by
  unfold daysIn
  split
  · split <;> decide
  all_goals decide

/-- The fields of the time. -/
theorem gmtimeOf_fields {sec : Int64} (h : InEra sec) : ∃ year mon mday,
    (year < 8030 ∧ mon < 12 ∧ mday < monthLen (1970 + year) mon ∧
      dayNumber (1970 + year) mon (mday + 1) = sec.toInt.toNat / 86400) ∧
    (gmtimeOf sec).tmYear.toInt = (70 + year : Nat) ∧ (gmtimeOf sec).tmMon.toInt = mon ∧
    (gmtimeOf sec).tmMday.toInt = (mday + 1 : Nat) ∧
    (gmtimeOf sec).tmHour.toInt = (sec.toInt.toNat / 3600 % 24 : Nat) ∧
    (gmtimeOf sec).tmMin.toInt = (sec.toInt.toNat / 60 % 60 : Nat) ∧
    (gmtimeOf sec).tmSec.toInt = (sec.toInt.toNat % 60 : Nat) := by
  have hlt := h.2
  obtain ⟨year, mon, mday, hdate, hyear, hmon, hmday, hday⟩ :=
    @dateOf_spec (sec.toInt.toNat / 86400) (by omega)
  have hle := daysIn_le (1970 + year) (mon + 1)
  have hsmall : mday < 31 := by
    unfold monthLen at hmday
    omega
  have hfield : ∀ n : Nat, n < 10000 → (Int32.ofNat n).toInt = n := fun n hn =>
    Int32.toInt_ofNat_of_lt (by omega)
  refine ⟨year, mon, mday, ⟨hyear, hmon, hmday, hday⟩, ?_⟩
  rw [gmtimeOf, hdate]
  exact ⟨hfield _ (by omega), hfield _ (by omega), hfield _ (by omega), hfield _ (by omega),
    hfield _ (by omega), hfield _ (by omega)⟩

theorem countsSeconds_gmtimeOf : CountsSeconds gmtimeOf where
  valid := by
    intro sec hsec
    obtain ⟨year, mon, mday, ⟨hyear, hmon, hmday, -⟩, htmYear, htmMon, htmMday, htmHour, htmMin,
      htmSec⟩ := gmtimeOf_fields hsec
    have hle := daysIn_le (1970 + year) (mon + 1)
    have hyearOf : yearOf (gmtimeOf sec) = 1970 + year := by
      unfold yearOf
      omega
    have hmonth : ((gmtimeOf sec).tmMon.toInt + 1).toNat = mon + 1 := by omega
    unfold monthLen at hmday
    refine ⟨⟨by omega, by omega, by omega, by omega, by omega, by omega⟩, by omega, ?_, by omega⟩
    rw [hyearOf, hmonth]
    omega
  seconds := by
    intro sec hsec
    obtain ⟨year, mon, mday, ⟨-, -, -, hday⟩, htmYear, htmMon, htmMday, htmHour, htmMin,
      htmSec⟩ := gmtimeOf_fields hsec
    have hcalendar : calendar (gmtimeOf sec) = [1970 + year, mon + 1, mday + 1,
        sec.toInt.toNat / 3600 % 24, sec.toInt.toNat / 60 % 60, sec.toInt.toNat % 60] := by
      simp only [calendar, yearOf, monthToSecond, htmYear, htmMon, htmMday, htmHour, htmMin, htmSec,
        Int.toNat_natCast, List.cons.injEq, and_true]
      omega
    have hpos := hsec.1
    rw [hcalendar, epochSeconds_eq (Nat.le_add_right _ _), Nat.add_sub_cancel, hday]
    simp only [Radix.pack]
    omega

end Gmtime

/-- The last instant of a leap day. -/
theorem utcDatetime_instant_leapDay :
    tenMicros (readBack (utcRealtimeDt exactDecLib gmtimeOf gmtimeOf
      ⟨1709251199, 999999999⟩).dtDec.val) = 170925119999999 := by
  obtain ⟨hread, -⟩ :=
    utcDatetime_instant exactDecLib exactDecLib_exact gmtimeOf gmtimeOf countsSeconds_gmtimeOf
  exact hread ⟨1709251199, 999999999⟩ ⟨by decide, by decide⟩

end UdrPak.Realtime
