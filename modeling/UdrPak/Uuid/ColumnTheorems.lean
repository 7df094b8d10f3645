import UdrPak.Host.Select
import UdrPak.Realtime.InstantTheorems
import UdrPak.Seq.SeqInt
import UdrPak.Uuid.Lemmas.Session
import UdrPak.Uuid.Theorems

/-!
# UUIDs beside datetimes

The demo queries select `uuidv7()` and `utc_realtime_dt()` in one row. Both texts tell the
milliseconds of their reading of the clock, up to the year in which 64 bits of nanoseconds end.
-/

namespace UdrPak.Uuid

open Host Libc Realtime Prng UdrPak.Seq

/-- The milliseconds since the epoch that a datetime in UTC shows. -/
def dtMillis (dt : Datetime) : Int := tenMicros (readBack dt.dtDec.val) / 100

/-- What the functions see for one row, in this order. -/
structure ColumnRow where
  realtime : Timespec
  seed : SeedReadings
  dtRealtime : Timespec

/-- `select uuidv7(), utc_realtime_dt() from table(seq(p1, p2, p3))`, as far as the rows. -/
def TimedRows (D : DecLib) (gmtimeR localtimeR : Int64 → Tm) (p1 p2 p3 : Int32)
    (interrupts : Nat → Bool) (conn : Option UInt64) (clock : Nat → ColumnRow) :
    MiFparam IntSeq → MiFparam Xsr256State → List (Option Int32 × List Char × Datetime) →
      (Nat × MiFparam IntSeq) × MiFparam Xsr256State → Prop :=
  SelectsTo (seqInt p1 p2 p3) interrupts fun k fp =>
    (uuidv7 conn (clock k).realtime (clock k).seed fp).map fun r =>
      ((r.1, utcRealtimeDt D gmtimeR localtimeR (clock k).dtRealtime), r.2)

/-- For the first `n` rows the clock does not go back from one reading to the next, and its
nanoseconds have 64 bits. -/
structure GoesOn (clock : Nat → ColumnRow) (n : Nat) : Prop where
  read : ∀ k < n, (clock k).realtime.ReadAt InEra ∧ (clock k).dtRealtime.ReadAt InEra
  bound : ∀ k < n, (clock k).realtime.nanos < 2 ^ 64
  within : ∀ k < n, (clock k).realtime.nanos ≤ (clock k).dtRealtime.nanos
  follows : ∀ k, k + 1 < n → (clock k).dtRealtime.nanos ≤ (clock (k + 1)).realtime.nanos

section Millis

variable {D : DecLib} {gmtimeR localtimeR : Int64 → Tm} {ts : Timespec} {p : Int64}

theorem dtMillis_utc (hD : D.Exact) (h : CountsSeconds gmtimeR) (hts : ts.ReadAt InEra) :
    dtMillis (utcRealtimeDt D gmtimeR localtimeR ts) = ts.nanos / 1000000 := by
  have hfields : readBack (utcRealtimeDt D gmtimeR localtimeR ts).dtDec.val = _ :=
    readBack_val hD (inRange_utc h hts)
  rw [dtMillis, hfields, tenMicros_utc h hts]
  omega

theorem timeField_clock : (timeField (uuidv7Num (getClocktickNs ts) p).text : Int) =
    ts.nanos % 2 ^ 64 / 1000000 := by
  have hclock := toNat_getClocktickNs ts
  rw [timeField_uuidv7]
  omega

theorem nanos_nonneg (hts : ts.ReadAt InEra) : 0 ≤ ts.nanos := by
  have hsec := hts.sec.1
  have hnsec := hts.nsec
  unfold Timespec.nanos
  omega

theorem timeField_of_lt (hts : ts.ReadAt InEra) (hlt : ts.nanos < 2 ^ 64) :
    (timeField (uuidv7Num (getClocktickNs ts) p).text : Int) = ts.nanos / 1000000 := by
  rw [timeField_clock, Int.emod_eq_of_lt (nanos_nonneg hts) hlt]

/-- The milliseconds of a UUID start again where 64 bits of nanoseconds end. -/
theorem timeField_eq_iff (hts : ts.ReadAt InEra) :
    (timeField (uuidv7Num (getClocktickNs ts) p).text : Int) = ts.nanos / 1000000 ↔
      ts.nanos < 2 ^ 64 := by
  constructor
  · intro h
    have hpos := nanos_nonneg hts
    rw [timeField_clock] at h
    omega
  · exact timeField_of_lt hts

end Millis

section Columns

variable {clock : Nat → ColumnRow} {n i j : Nat}

theorem GoesOn.dt_le (h : GoesOn clock n) (hij : i < j) (hj : j < n) :
    (clock i).dtRealtime.nanos ≤ (clock j).realtime.nanos := by
  have hnext := h.follows i (by omega)
  rcases Nat.lt_or_eq_of_le (Nat.succ_le_of_lt hij) with hlt | rfl
  · have hlater := @add_le_of_rows (fun k => (clock k).realtime.nanos) 0 _ _ _ (by decide)
      (fun k hk => by
        have hwithin := h.within k (by omega)
        have hfollows := h.follows k hk
        change (clock k).realtime.nanos + 0 ≤ (clock (k + 1)).realtime.nanos
        omega) hlt hj
    change (clock (i + 1)).realtime.nanos + 0 ≤ (clock j).realtime.nanos at hlater
    omega
  · exact hnext

variable {D : DecLib} {gmtimeR localtimeR : Int64 → Tm} {p1 p2 p3 : Int32}
  {interrupts : Nat → Bool} {conn : Option UInt64} {fpSeq : MiFparam IntSeq}
  {fp : MiFparam Xsr256State} {rows : List (Option Int32 × List Char × Datetime)}
  {x : (Nat × MiFparam IntSeq) × MiFparam Xsr256State}

/-- The milliseconds in a row are those of its two readings. -/
theorem millis_row (hD : D.Exact) (h : CountsSeconds gmtimeR)
    (hrun : TimedRows D gmtimeR localtimeR p1 p2 p3 interrupts conn clock fpSeq fp rows x)
    (hclock : GoesOn clock rows.length) {k : Nat} (hk : k < rows.length) :
    (timeField rows[k].2.1 : Int) = (clock k).realtime.nanos / 1000000 ∧
      dtMillis rows[k].2.2 = (clock k).dtRealtime.nanos / 1000000 := by
  obtain ⟨t, t', hvalue⟩ := hrun.value (List.getElem?_eq_getElem hk)
  obtain ⟨hread, hread'⟩ := hclock.read k hk
  cases huuid : uuidv7 conn (clock k).realtime (clock k).seed t with
  | returned r =>
      rw [huuid, Outcome.map_returned, Outcome.returned.injEq, Prod.mk.injEq] at hvalue
      obtain ⟨p, hp⟩ := uuidv7_returned huuid
      rw [← hvalue.1]
      refine ⟨?_, dtMillis_utc hD h hread'⟩
      rw [hp]
      exact timeField_of_lt hread (hclock.bound k hk)
  | raised _ | overrun _ =>
      rw [huuid] at hvalue
      cases hvalue

end Columns

/-- In a session `prng` has an id for, `uuidv7` returns a text that tells the same milliseconds as
`utc_realtime_dt` on the same reading of the clock, exactly if its nanoseconds have 64 bits. In
every run of a query with both, on a clock that does not go back, the milliseconds of the two
columns do not go back either, from column to column and from row to row, and in a session every
number of `seq` gets its row. -/
theorem uuidv7_beside_datetime (D : DecLib) (hD : D.Exact) (gmtimeR localtimeR : Int64 → Tm)
    (h : CountsSeconds gmtimeR) :
    (∀ (conn : Option UInt64) (ts : Timespec) (r : SeedReadings) (fp : MiFparam Xsr256State),
      sessionId conn fp ≠ 0 → ts.ReadAt InEra → ∃ s fp', uuidv7 conn ts r fp = .returned (s, fp') ∧
        ((timeField s : Int) = dtMillis (utcRealtimeDt D gmtimeR localtimeR ts) ↔
          ts.nanos < 2 ^ 64)) ∧
    ∀ (p1 p2 p3 : Int32) (interrupts : Nat → Bool) (conn : Option UInt64)
      (clock : Nat → ColumnRow) (fpSeq : MiFparam IntSeq) (fp : MiFparam Xsr256State),
      (∀ rows x, TimedRows D gmtimeR localtimeR p1 p2 p3 interrupts conn clock fpSeq fp rows x →
        GoesOn clock rows.length →
          (∀ row ∈ rows, timeField row.2.1 ≤ dtMillis row.2.2) ∧
            rows.Pairwise fun row row' => dtMillis row.2.2 ≤ timeField row'.2.1) ∧
      (sessionId conn fp ≠ 0 → ∀ ns s,
        RowsTo (seqInt p1 p2 p3) interrupts fpSeq ns s → ∃ rows fp',
          TimedRows D gmtimeR localtimeR p1 p2 p3 interrupts conn clock fpSeq fp rows (s, fp') ∧
            rows.map Prod.fst = ns) := by
  refine ⟨fun conn ts r fp hsid hts => ?_,
    fun p1 p2 p3 interrupts conn clock fpSeq fp => ⟨?_, ?_⟩⟩
  · obtain ⟨fp', hcall, -⟩ := uuidv7_session hsid ts r
    refine ⟨_, fp', hcall, ?_⟩
    rw [dtMillis_utc hD h hts]
    exact timeField_eq_iff hts
  · intro rows x hrun hclock
    constructor
    · intro row hrow
      obtain ⟨k, hk, rfl⟩ := List.mem_iff_getElem.mp hrow
      obtain ⟨huuid, hdt⟩ := millis_row hD h hrun hclock hk
      have hwithin := hclock.within k hk
      omega
    · rw [List.pairwise_iff_getElem]
      intro i j hi hj hij
      have hdt := (millis_row hD h hrun hclock hi).2
      have huuid := (millis_row hD h hrun hclock hj).1
      have hle := hclock.dt_le hij hj
      omega
  · intro hsid ns s hns
    refine exists_selectsTo (I := fun fp => sessionId conn fp ≠ 0) (fun k fp hfp => ?_) hns hsid
    obtain ⟨_, fp', hcall, hfp'⟩ := uuidv7_returns hfp (clock k).realtime (clock k).seed
    exact ⟨_, fp', by rw [hcall]; rfl, hfp'⟩

/-- One row a second, the datetime half a second after the UUID. -/
def halfSeconds (k : Nat) : ColumnRow where
  realtime := ⟨Int64.ofNat (1700000000 + k), 0⟩
  seed := readingsAt (Int64.ofNat k)
  dtRealtime := ⟨Int64.ofNat (1700000000 + k), 500000000⟩

theorem halfSeconds_goesOn : GoesOn halfSeconds 2 where
  read := forall_two_rows ⟨⟨by decide, by decide⟩, ⟨by decide, by decide⟩⟩
    ⟨⟨by decide, by decide⟩, ⟨by decide, by decide⟩⟩
  bound := forall_two_rows (by decide) (by decide)
  within := forall_two_rows (by decide) (by decide)
  follows := by
    intro k hk
    obtain rfl : k = 0 := by omega
    decide

theorem uuidv7_beside_datetime_two_rows : ∃ rows x,
    TimedRows exactDecLib gmtimeOf gmtimeOf 2 0 0 (fun _ => false) (some 7) halfSeconds
      (.fresh (· != 0) none) (.fresh (fun _ => true) none) rows x ∧
    rows.map Prod.fst = [some 0, some 1] ∧
    (∀ row ∈ rows, timeField row.2.1 ≤ dtMillis row.2.2) ∧
    rows.Pairwise fun row row' => dtMillis row.2.2 ≤ timeField row'.2.1 := by
  obtain ⟨-, hquery⟩ :=
    uuidv7_beside_datetime exactDecLib exactDecLib_exact gmtimeOf gmtimeOf countsSeconds_gmtimeOf
  obtain ⟨hsorted, hcomplete⟩ := hquery 2 0 0 (fun _ => false) (some 7) halfSeconds
    (.fresh (· != 0) none) (.fresh (fun _ => true) none)
  obtain ⟨rows, fp', hrun, hns⟩ := hcomplete (by decide) [some 0, some 1] _
    ⟨rfl, .row rfl (.row rfl (.refl _))⟩
  have hlength : rows.length = 2 := by
    rw [← List.length_map (f := Prod.fst), hns]
    rfl
  exact ⟨rows, _, hrun, hns, hsorted rows _ hrun (hlength ▸ halfSeconds_goesOn)⟩

end UdrPak.Uuid
