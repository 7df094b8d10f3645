import UdrPak.Host.Select
import UdrPak.Realtime.OrderTheorems
import UdrPak.Realtime.YieldTheorems
import UdrPak.Seq.SeqInt

/-!
# Datetimes in a query that pauses

The test of `realtime_dt` selects `n, realtime_dt(), yield_ms(1)` from `table(seq(100)) s(n)` and
compares the datetimes from row to row. Each of them is later than the one before.
-/

namespace UdrPak.Realtime

open Host Libc UdrPak.Seq

/-- What the functions see for one row, in this order: the datetime, and then `yield_ms`. -/
structure PausedRow where
  realtime : Timespec
  first : Timespec
  turns : List Turn

/-- `select n, dt(), yield_ms(ms) from table(seq(p1, p2, p3)) s(n)`, as far as the rows. -/
def PausedDatetimes (dt : Timespec → Datetime) (ms : Int16) (p1 p2 p3 : Int32)
    (interrupts : Nat → Bool) (clock : Nat → PausedRow) (fp : MiFparam IntSeq)
    (rows : List (Option Int32 × Datetime × Int16)) (x : Nat × MiFparam IntSeq) : Prop :=
  SelectsTo (seqInt p1 p2 p3) interrupts
    (fun k (_ : Unit) => .returned ((dt (clock k).realtime,
      (yieldMs ms (clock k).first (clock k).turns).1), ()))
    fp () rows (x, ())

/-- For the first `n` rows the clock does not go back from one reading to the next, and no pause
between two of them is ended by `nanosleep`. -/
structure RowsInStep (ms : Int16) (secs : Int64 → Prop) (clock : Nat → PausedRow) (n : Nat) :
    Prop where
  read : ∀ k < n, (clock k).realtime.ReadAt secs
  valid : ∀ k < n, (clock k).first.Valid ∧ ∀ turn ∈ (clock k).turns, turn.clock.Valid
  bound : ∀ k < n, (clock k).first.nanos + 32767 * 1000000 < 2 ^ 63
  starts : ∀ k < n, (clock k).realtime.nanos ≤ (clock k).first.nanos
  paused : ∀ k, k + 1 < n → ∃ last,
    (yieldMs ms (clock k).first (clock k).turns).2.exit = .clock last ∧
      (last.toNat : Int) ≤ (clock (k + 1)).realtime.nanos

section Clock

variable {ms : Int16} {secs : Int64 → Prop} {clock : Nat → PausedRow} {n i j : Nat}

theorem RowsInStep.realtime_lt (h : RowsInStep ms secs clock n)
    (hms : 0 < ms.toInt ∧ ms.toInt ≤ 2147) (hij : i < j) (hj : j < n) :
    (clock i).realtime.nanos + 1000000 ≤ (clock j).realtime.nanos := by
  refine @add_le_of_rows (fun k => (clock k).realtime.nanos) _ _ _ _ (by decide) ?_ hij hj
  intro k hk
  have hlt := Nat.lt_of_succ_lt hk
  obtain ⟨hfirst, hturns⟩ := h.valid k hlt
  obtain ⟨last, hexit, hlast⟩ := h.paused k hk
  have hstarts := h.starts k hlt
  have hok : WaitOk ms (clock k).first := by
    rw [WaitOk, if_pos (by omega)]
    exact Or.inl hms.2
  have hlong := (waits_of_waitOk hfirst (h.bound k hlt) hok hturns).long (by omega) last hexit
  change (clock k).realtime.nanos + 1000000 ≤ (clock (k + 1)).realtime.nanos
  omega

end Clock

section Datetimes

variable {D : DecLib} {gmtimeR localtimeR : Int64 → Tm} {secs : Int64 → Prop} {ts ts' : Timespec}

/-- A datetime shows steps of 10 microseconds. -/
theorem utcRealtimeDt_lt (hD : D.Exact) (h : OrdersTimestamps gmtimeR secs)
    (hts : ts.ReadAt secs) (hts' : ts'.ReadAt secs) (hlt : ts.nanos + 10000 ≤ ts'.nanos) :
    (utcRealtimeDt D gmtimeR localtimeR ts).dtDec.val <
      (utcRealtimeDt D gmtimeR localtimeR ts').dtDec.val := by
  have hin : (timespecToNsTm gmtimeR localtimeR ts .gmtTz).InRange := inRange_gmt h hts
  have hin' : (timespecToNsTm gmtimeR localtimeR ts' .gmtTz).InRange := inRange_gmt h hts'
  have hnsec := hts.nsec
  have hnsec' := hts'.nsec
  unfold Timespec.nanos at hlt
  refine (val_lt_iff hD hin hin').mpr ?_
  rcases Int.lt_trichotomy ts.tvSec.toInt ts'.tvSec.toInt with hsec | hsec | hsec
  · exact fields_lt_of_sec_lt h hts hts' (Int64.lt_iff_toInt_lt.mpr hsec)
  · have hfraction : (timespecToNsTm gmtimeR localtimeR ts .gmtTz).fraction <
        (timespecToNsTm gmtimeR localtimeR ts' .gmtTz).fraction := by
      change (ts.tvNsec.toInt / 10000).toNat < (ts'.tvNsec.toInt / 10000).toNat
      omega
    have hcalendar : calendar (timespecToNsTm gmtimeR localtimeR ts .gmtTz).tm =
        calendar (timespecToNsTm gmtimeR localtimeR ts' .gmtTz).tm := by
      change calendar (gmtimeR ts.tvSec) = calendar (gmtimeR ts'.tvSec)
      rw [Int64.toInt_inj.mp hsec]
    unfold NsTm.fields
    rw [hcalendar]
    exact List.append_left_lt (List.cons_lt_cons_iff.mpr (Or.inl hfraction))
  · omega

variable {ms : Int16} {p1 p2 p3 : Int32} {interrupts : Nat → Bool} {clock : Nat → PausedRow}
  {fp : MiFparam IntSeq} {rows : List (Option Int32 × Datetime × Int16)}
  {x : Nat × MiFparam IntSeq}

theorem pairwise_utc (hD : D.Exact) (h : OrdersTimestamps gmtimeR secs)
    (hms : 0 < ms.toInt ∧ ms.toInt ≤ 2147)
    (hrun : PausedDatetimes (utcRealtimeDt D gmtimeR localtimeR) ms p1 p2 p3 interrupts clock fp
      rows x) (hclock : RowsInStep ms secs clock rows.length) :
    rows.Pairwise fun row row' => row.2.1.dtDec.val < row'.2.1.dtDec.val := by
  rw [List.pairwise_iff_getElem]
  intro i j hi hj hij
  obtain ⟨_, _, hi'⟩ := hrun.value (List.getElem?_eq_getElem hi)
  obtain ⟨_, _, hj'⟩ := hrun.value (List.getElem?_eq_getElem hj)
  simp only [Outcome.returned.injEq, Prod.mk.injEq] at hi' hj'
  rw [← hi'.1, ← hj'.1]
  have hlater := hclock.realtime_lt hms hij hj
  exact utcRealtimeDt_lt hD h (hclock.read i (hij.trans hj)) (hclock.read j hj) (by omega)

end Datetimes

/-- In every run of the query each datetime is later than those of the rows before it, as long as
the time zone has no step back among the seconds of the run. -/
theorem pausedDatetimes_ascend (D : DecLib) (hD : D.Exact) (gmtimeR localtimeR : Int64 → Tm)
    (secs : Int64 → Prop) (ms : Int16) (hms : 0 < ms.toInt ∧ ms.toInt ≤ 2147)
    (p1 p2 p3 : Int32) (interrupts : Nat → Bool) (clock : Nat → PausedRow)
    (fp : MiFparam IntSeq) :
    (OrdersTimestamps localtimeR secs → ∀ rows x,
      PausedDatetimes (realtimeDt D gmtimeR localtimeR) ms p1 p2 p3 interrupts clock fp rows x →
        RowsInStep ms secs clock rows.length →
          rows.Pairwise fun row row' => row.2.1.dtDec.val < row'.2.1.dtDec.val) ∧
    (OrdersTimestamps gmtimeR secs → ∀ rows x,
      PausedDatetimes (utcRealtimeDt D gmtimeR localtimeR) ms p1 p2 p3 interrupts clock fp rows x →
        RowsInStep ms secs clock rows.length →
          rows.Pairwise fun row row' => row.2.1.dtDec.val < row'.2.1.dtDec.val) := by
  constructor
  · intro h rows x hrun hclock
    -- the local time is what the other function gives with `localtime_r` for `gmtime_r`
    exact @pairwise_utc D localtimeR localtimeR secs ms p1 p2 p3 interrupts clock fp rows x hD h
      hms hrun hclock
  · intro h rows x hrun hclock
    exact pairwise_utc hD h hms hrun hclock

/-- Two rows, of which the first pauses for 10 milliseconds. -/
def tenMillis (k : Nat) : PausedRow where
  realtime := ⟨5, Int64.ofNat (k * 10000000)⟩
  first := ⟨5, Int64.ofNat (k * 10000000)⟩
  turns := [⟨⟨5, Int64.ofNat (k * 10000000)⟩, false⟩,
    ⟨⟨5, Int64.ofNat ((k + 1) * 10000000)⟩, false⟩]

theorem tenMillis_inStep : RowsInStep 1 InFirstDay tenMillis 2 := by
  constructor
  · exact forall_two_rows ⟨by decide, by decide⟩ ⟨by decide, by decide⟩
  · refine forall_two_rows ⟨⟨by decide, by decide, by decide⟩, ?_⟩
      ⟨⟨by decide, by decide, by decide⟩, ?_⟩
    · exact List.forall_mem_cons.mpr ⟨⟨by decide, by decide, by decide⟩,
        List.forall_mem_singleton.mpr ⟨by decide, by decide, by decide⟩⟩
    · exact List.forall_mem_cons.mpr ⟨⟨by decide, by decide, by decide⟩,
        List.forall_mem_singleton.mpr ⟨by decide, by decide, by decide⟩⟩
  · exact forall_two_rows (by decide) (by decide)
  · exact forall_two_rows (by decide) (by decide)
  · intro k hk
    obtain rfl : k = 0 := by omega
    exact ⟨5010000000, by decide, by decide⟩

theorem pausedDatetimes_ascend_first_day : ∃ rows x,
    PausedDatetimes (realtimeDt exactDecLib firstDay firstDay) 1 2 0 0 (fun _ => false) tenMillis
      (.fresh (· != 0) none) rows x ∧
    rows.map Prod.fst = [some 0, some 1] ∧
    rows.Pairwise fun row row' => row.2.1.dtDec.val < row'.2.1.dtDec.val := by
  obtain ⟨hlocal, -⟩ := pausedDatetimes_ascend exactDecLib exactDecLib_exact firstDay firstDay
    InFirstDay 1 (by decide) 2 0 0 (fun _ => false) tenMillis (.fresh (· != 0) none)
  have hrun : PausedDatetimes (realtimeDt exactDecLib firstDay firstDay) 1 2 0 0 (fun _ => false)
      tenMillis (.fresh (· != 0) none) [(some 0, _, _), (some 1, _, _)] _ :=
    ⟨rfl, .row rfl (.row rfl (.refl _))⟩
  exact ⟨_, _, hrun, rfl, hlocal firstDay_ordersTimestamps _ _ hrun tenMillis_inStep⟩

end UdrPak.Realtime
