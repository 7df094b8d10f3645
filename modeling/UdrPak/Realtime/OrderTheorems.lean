import UdrPak.Lib.Numeral
import UdrPak.Realtime.Lemmas.Datetime

/-!
# The order of datetimes

The decimals of datetimes are ordered as the fields are, and the fields can be read back from them.
-/

namespace UdrPak.Realtime

open Host Libc

/-- The year, and the digits behind it, of the decimal of a datetime. -/
def readBack (d : ℚ) : List Nat :=
  let (year, lower) := Radix.unpack bases ⌊d * 10 ^ 5⌋.toNat
  year :: lower

section Order

variable {D : DecLib} {t t' : NsTm}

theorem packed_lt_iff (h : t.InRange) (h' : t'.InRange) :
    t.packed < t'.packed ↔ t.fields < t'.fields := by
  rw [NsTm.packed, NsTm.packed, Radix.pack_lt_iff h.digits h'.digits, ← List.cons_lt_cons_iff]
  rfl

theorem packed_inj (h : t.InRange) (h' : t'.InRange) :
    t.packed = t'.packed ↔ t.fields = t'.fields := by
  rw [NsTm.packed, NsTm.packed, Radix.pack_inj h.digits h'.digits, ← List.cons.injEq]
  rfl

theorem val_lt_iff (hD : D.Exact) (h : t.InRange) (h' : t'.InRange) :
    (nsTmToDatetime D t).dtDec.val < (nsTmToDatetime D t').dtDec.val ↔ t.fields < t'.fields := by
  have hscale : (0 : ℚ) < 10 ^ 5 := by norm_num
  rw [val_nsTmToDatetime hD h, val_nsTmToDatetime hD h', div_lt_div_iff_of_pos_right hscale,
    Nat.cast_lt, packed_lt_iff h h']

theorem val_inj (hD : D.Exact) (h : t.InRange) (h' : t'.InRange) :
    (nsTmToDatetime D t).dtDec.val = (nsTmToDatetime D t').dtDec.val ↔ t.fields = t'.fields := by
  have hscale : (10 ^ 5 : ℚ) ≠ 0 := by norm_num
  rw [val_nsTmToDatetime hD h, val_nsTmToDatetime hD h', div_left_inj' hscale, Nat.cast_inj,
    packed_inj h h']

theorem readBack_val (hD : D.Exact) (h : t.InRange) :
    readBack (nsTmToDatetime D t).dtDec.val = t.fields := by
  have hscale : (t.packed / 10 ^ 5 : ℚ) * 10 ^ 5 = (t.packed : ℚ) := by field_simp
  rw [readBack, val_nsTmToDatetime hD h, hscale, Int.floor_natCast, Int.toNat_natCast,
    NsTm.packed, Radix.unpack_pack h.digits]
  rfl

end Order

/-! ## `utc_realtime_dt` -/

/-- On these seconds, `gmtime_r` gives times in range, and orders them as the calendar does. -/
structure OrdersTimestamps (gmtimeR : Int64 → Tm) (secs : Int64 → Prop) : Prop where
  inRange : ∀ sec, secs sec → TmInRange (gmtimeR sec)
  ordered : ∀ sec sec', secs sec → secs sec' → sec < sec' →
    calendar (gmtimeR sec) < calendar (gmtimeR sec')

section Utc

variable {D : DecLib} {gmtimeR localtimeR : Int64 → Tm} {secs : Int64 → Prop} {ts ts' : Timespec}

/-- A reading of the clock at one of the seconds. -/
structure Timespec.ReadAt (ts : Timespec) (secs : Int64 → Prop) : Prop where
  sec : secs ts.tvSec
  nsec : 0 ≤ ts.tvNsec.toInt ∧ ts.tvNsec.toInt ≤ 999999999

theorem inRange_gmt (h : OrdersTimestamps gmtimeR secs) (hts : ts.ReadAt secs) :
    (timespecToNsTm gmtimeR localtimeR ts .gmtTz).InRange :=
  ⟨h.inRange _ hts.sec, hts.nsec⟩

theorem fields_lt_of_sec_lt (h : OrdersTimestamps gmtimeR secs) (hts : ts.ReadAt secs)
    (hts' : ts'.ReadAt secs) (hlt : ts.tvSec < ts'.tvSec) :
    (timespecToNsTm gmtimeR localtimeR ts .gmtTz).fields <
      (timespecToNsTm gmtimeR localtimeR ts' .gmtTz).fields := by
  have hcalendar := h.ordered _ _ hts.sec hts'.sec hlt
  exact Numeral.append_lt_append hcalendar (by simp) _ _

theorem fields_le_of_sec_eq (heq : ts.tvSec = ts'.tvSec)
    (hle : ts.tvNsec.toInt ≤ ts'.tvNsec.toInt) :
    (timespecToNsTm gmtimeR localtimeR ts .gmtTz).fields <
        (timespecToNsTm gmtimeR localtimeR ts' .gmtTz).fields ∨
      (timespecToNsTm gmtimeR localtimeR ts .gmtTz).fields =
        (timespecToNsTm gmtimeR localtimeR ts' .gmtTz).fields := by
  have hfraction : (timespecToNsTm gmtimeR localtimeR ts .gmtTz).fraction ≤
      (timespecToNsTm gmtimeR localtimeR ts' .gmtTz).fraction := by
    change (ts.tvNsec.toInt / 10000).toNat ≤ (ts'.tvNsec.toInt / 10000).toNat
    omega
  have hcalendar : calendar (timespecToNsTm gmtimeR localtimeR ts .gmtTz).tm =
      calendar (timespecToNsTm gmtimeR localtimeR ts' .gmtTz).tm := by
    change calendar (gmtimeR ts.tvSec) = calendar (gmtimeR ts'.tvSec)
    rw [heq]
  unfold NsTm.fields
  rw [hcalendar]
  rcases Nat.lt_or_eq_of_le hfraction with hlt | hsame
  · exact Or.inl (List.append_left_lt (List.cons_lt_cons_iff.mpr (Or.inl hlt)))
  · exact Or.inr (by rw [hsame])

/-- The datetime does not decrease while the clock does not. -/
theorem utcRealtimeDt_mono (hD : D.Exact) (h : OrdersTimestamps gmtimeR secs)
    (hts : ts.ReadAt secs) (hts' : ts'.ReadAt secs) (hle : ts.nanos ≤ ts'.nanos) :
    (utcRealtimeDt D gmtimeR localtimeR ts).dtDec.val ≤
      (utcRealtimeDt D gmtimeR localtimeR ts').dtDec.val := by
  have hin : (timespecToNsTm gmtimeR localtimeR ts .gmtTz).InRange := inRange_gmt h hts
  have hin' : (timespecToNsTm gmtimeR localtimeR ts' .gmtTz).InRange := inRange_gmt h hts'
  have hnsec := hts.nsec
  have hnsec' := hts'.nsec
  unfold Timespec.nanos at hle
  unfold utcRealtimeDt
  rcases Int.lt_trichotomy ts.tvSec.toInt ts'.tvSec.toInt with hlt | heq | hgt
  · exact ((val_lt_iff hD hin hin').mpr
      (fields_lt_of_sec_lt h hts hts' (Int64.lt_iff_toInt_lt.mpr hlt))).le
  · rcases fields_le_of_sec_eq (Int64.toInt_inj.mp heq) (by omega) with hlt | hsame
    · exact ((val_lt_iff hD hin hin').mpr hlt).le
    · exact ((val_inj hD hin hin').mpr hsame).le
  · omega

end Utc

/-- Datetimes are ordered as the tuples of their fields, and each tuple can be read back. No integer
arithmetic overflows. With a `gmtime_r` that orders timestamps, `utc_realtime_dt` follows the
clock. -/
theorem datetime_order (D : DecLib) (hD : D.Exact) :
    (∀ t t' : NsTm, t.InRange → t'.InRange →
      ((nsTmToDatetime D t).dtDec.val < (nsTmToDatetime D t').dtDec.val ↔ t.fields < t'.fields) ∧
      ((nsTmToDatetime D t).dtDec.val = (nsTmToDatetime D t').dtDec.val ↔
        t.fields = t'.fields)) ∧
    (∀ t : NsTm, t.InRange → readBack (nsTmToDatetime D t).dtDec.val = t.fields ∧
      intTime t.tm = (intTimeExpr t.tm).eval ∧ (intTimeExpr t.tm).InRange) ∧
    (∀ gmtimeR localtimeR secs, OrdersTimestamps gmtimeR secs →
      ∀ ts ts' : Timespec, ts.ReadAt secs → ts'.ReadAt secs → ts.nanos ≤ ts'.nanos →
        (utcRealtimeDt D gmtimeR localtimeR ts).dtDec.val ≤
          (utcRealtimeDt D gmtimeR localtimeR ts').dtDec.val) := by
  refine ⟨fun t t' h h' => ⟨val_lt_iff hD h h', val_inj hD h h'⟩, fun t h => ?_, ?_⟩
  · exact ⟨readBack_val hD h, intTime_eq_eval t.tm, intTimeExpr_inRange h.toTmInRange⟩
  · intro gmtimeR localtimeR secs h ts ts' hts hts' hle
    exact utcRealtimeDt_mono hD h hts hts' hle

/-- `gmtime_r` on the first day of the epoch. -/
def firstDay (sec : Int64) : Tm where
  tmSec := .ofInt (sec.toInt % 60)
  tmMin := .ofInt (sec.toInt / 60 % 60)
  tmHour := .ofInt (sec.toInt / 3600)
  tmMday := 1
  tmMon := 0
  tmYear := 70

def InFirstDay (sec : Int64) : Prop := 0 ≤ sec.toInt ∧ sec.toInt < 86400

instance (sec : Int64) : Decidable (InFirstDay sec) := by unfold InFirstDay; infer_instance

theorem firstDay_time {sec : Int64} (h : InFirstDay sec) :
    (firstDay sec).tmSec.toInt = sec.toInt % 60 ∧
      (firstDay sec).tmMin.toInt = sec.toInt / 60 % 60 ∧
        (firstDay sec).tmHour.toInt = sec.toInt / 3600 := by
  unfold InFirstDay at h
  have hsmall : ∀ n : Int, 0 ≤ n → n < 86400 → (Int32.ofInt n).toInt = n := fun n hn hn' =>
    Int32.toInt_ofInt_of_le (by omega) (by omega)
  exact ⟨hsmall _ (by omega) (by omega), hsmall _ (by omega) (by omega),
    hsmall _ (by omega) (by omega)⟩

theorem firstDay_date (sec : Int64) : (firstDay sec).tmYear = 70 ∧ (firstDay sec).tmMon = 0 ∧
    (firstDay sec).tmMday = 1 := ⟨rfl, rfl, rfl⟩

theorem firstDay_inRange {sec : Int64} (h : InFirstDay sec) : TmInRange (firstDay sec) := by
  obtain ⟨hyear, hmon, hmday⟩ := firstDay_date sec
  obtain ⟨hsec, hmin, hhour⟩ := firstDay_time h
  unfold InFirstDay at h
  constructor
  · rw [hyear]; decide
  · rw [hmon]; decide
  · rw [hmday]; decide
  · omega
  · omega
  · omega

theorem firstDay_ordered {sec sec' : Int64} (h : InFirstDay sec) (h' : InFirstDay sec')
    (hlt : sec < sec') : calendar (firstDay sec) < calendar (firstDay sec') := by
  obtain ⟨hyear, hmon, hmday⟩ := firstDay_date sec
  obtain ⟨hyear', hmon', hmday'⟩ := firstDay_date sec'
  obtain ⟨hsec, hmin, hhour⟩ := firstDay_time h
  obtain ⟨hsec', hmin', hhour'⟩ := firstDay_time h'
  rw [Int64.lt_iff_toInt_lt] at hlt
  unfold InFirstDay at h h'
  rw [calendar, calendar, yearOf, yearOf, hyear, hyear', monthToSecond, monthToSecond, hmon, hmon',
    hmday, hmday', hsec, hsec', hmin, hmin', hhour, hhour']
  simp only [List.cons_lt_cons_iff, List.not_lt_nil, true_and, and_false, or_false]
  rcases Int.lt_or_eq_of_le (Int.ediv_le_ediv (by decide : (0 : Int) < 3600) hlt.le) with hlt | heq
  · exact Or.inr (Or.inr (Or.inr (Or.inl (by omega))))
  · rcases Int.lt_or_eq_of_le (Int.ediv_le_ediv (by decide : (0 : Int) < 60) hlt.le) with hlt | heq'
    · exact Or.inr (Or.inr (Or.inr (Or.inr ⟨by rw [heq], Or.inl (by omega)⟩)))
    · exact Or.inr (Or.inr (Or.inr (Or.inr ⟨by rw [heq], Or.inr ⟨by rw [heq'], by omega⟩⟩)))

theorem firstDay_ordersTimestamps : OrdersTimestamps firstDay InFirstDay where
  inRange _ h := firstDay_inRange h
  ordered _ _ h h' hlt := firstDay_ordered h h' hlt

theorem datetime_order_first_day :
    ((nsTmToDatetime exactDecLib ⟨firstDay 59, 999999999⟩).dtDec.val <
        (nsTmToDatetime exactDecLib ⟨firstDay 60, 0⟩).dtDec.val ↔
      NsTm.fields ⟨firstDay 59, 999999999⟩ < NsTm.fields ⟨firstDay 60, 0⟩) ∧
    readBack (nsTmToDatetime exactDecLib ⟨firstDay 60, 0⟩).dtDec.val =
      NsTm.fields ⟨firstDay 60, 0⟩ ∧
    (utcRealtimeDt exactDecLib firstDay firstDay ⟨59, 999999999⟩).dtDec.val ≤
      (utcRealtimeDt exactDecLib firstDay firstDay ⟨60, 0⟩).dtDec.val := by
  have h59 : NsTm.InRange ⟨firstDay 59, 999999999⟩ :=
    ⟨firstDay_ordersTimestamps.inRange 59 (by decide), by decide⟩
  have h60 : NsTm.InRange ⟨firstDay 60, 0⟩ :=
    ⟨firstDay_ordersTimestamps.inRange 60 (by decide), by decide⟩
  obtain ⟨hcompare, hread, hutc⟩ := datetime_order exactDecLib exactDecLib_exact
  exact ⟨(hcompare _ _ h59 h60).1, (hread _ h60).1,
    hutc firstDay firstDay InFirstDay firstDay_ordersTimestamps ⟨59, 999999999⟩ ⟨60, 0⟩
      ⟨by decide, by decide⟩ ⟨by decide, by decide⟩ (by decide)⟩

end UdrPak.Realtime
