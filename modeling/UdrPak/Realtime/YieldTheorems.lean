import UdrPak.Realtime.Lemmas.Clock

/-!
# How long `yield_ms` waits
-/

namespace UdrPak.Realtime

/-! ## The target -/

/-- The product `ms * 1000000` as the 32-bit `int` that the code computes. -/
def wrappedWait (ms : Int16) : Int := (ms.toInt * 1000000).bmod (2 ^ 32)

theorem toNat_yieldTarget (now : UInt64) (ms : Int16) :
    ((yieldTarget now ms).toNat : Int) = (now.toNat + wrappedWait ms) % 2 ^ 64 := by
  have hproduct : (ms.toInt32 * 1000000).toInt64.toInt = wrappedWait ms := by
    rw [Int32.toInt_toInt64, Int32.toInt_mul, Int16.toInt_toInt32]
    rfl
  have hword := Word.toNat_toUInt64 (ms.toInt32 * 1000000).toInt64
  rw [hproduct] at hword
  rw [yieldTarget, UInt64.toNat_add]
  omega

theorem wrappedWait_bounds (ms : Int16) : -2 ^ 31 ≤ wrappedWait ms ∧ wrappedWait ms < 2 ^ 31 := by
  have hlow : -(2 ^ 31 : Int) ≤ wrappedWait ms := Int.le_bmod (by decide)
  have hhigh : wrappedWait ms < 2 ^ 31 := Int.bmod_lt (by decide)
  exact ⟨hlow, hhigh⟩

theorem wrappedWait_le_iff {ms : Int16} (h : 0 ≤ ms.toInt) :
    ms.toInt * 1000000 ≤ wrappedWait ms ↔ ms.toInt ≤ 2147 := by
  have hmod : wrappedWait ms % 2 ^ 32 = ms.toInt * 1000000 % 2 ^ 32 := Int.bmod_emod
  have hbounds := wrappedWait_bounds ms
  have hms := ms.toInt_lt
  omega

/-! ## The loop -/

section Loop

variable {tgt last : UInt64} {turn : Turn} {turns : List Turn}

theorem yieldLoop_cons : yieldLoop tgt (turn :: turns) =
    if getClocktickNs turn.clock < tgt then
      if turn.sleepFails then ⟨.sleepFailed, 1⟩
      else ⟨(yieldLoop tgt turns).exit, (yieldLoop tgt turns).entered + 1⟩
    else ⟨.clock (getClocktickNs turn.clock), 0⟩ := rfl

theorem target_le_of_exit_clock (h : (yieldLoop tgt turns).exit = .clock last) :
    tgt ≤ last ∧ ∃ turn ∈ turns, getClocktickNs turn.clock = last := by
  induction turns with
  | nil => cases h
  | cons turn turns ih =>
      rw [yieldLoop_cons] at h
      split at h
      · split at h
        · cases h
        · obtain ⟨hle, t, ht, hlast⟩ := ih h
          exact ⟨hle, t, List.mem_cons_of_mem _ ht, hlast⟩
      · rename_i hge
        cases h
        exact ⟨UInt64.not_lt.mp hge, turn, List.mem_cons_self, rfl⟩

theorem entered_eq_zero_iff :
    (yieldLoop tgt (turn :: turns)).entered = 0 ↔ tgt ≤ getClocktickNs turn.clock := by
  rw [yieldLoop_cons, ← UInt64.not_lt]
  split
  · rename_i hlt
    split <;> simp [hlt]
  · rename_i hge
    simp [hge]

end Loop

/-! ## The wait -/

/-- A wait that the clock ends lasts at least `ms` milliseconds, and where `ms` is not positive the
body is not entered if the second reading is not before the first. -/
structure Waits (ms : Int16) (first : Timespec) (turns : List Turn) (w : Wait) : Prop where
  long : 0 ≤ ms.toInt → ∀ last, w.exit = .clock last →
    first.nanos + ms.toInt * 1000000 ≤ last.toNat
  skips : ms.toInt ≤ 0 → ∀ turn rest, turns = turn :: rest → first.nanos ≤ turn.clock.nanos →
    w.entered = 0

/-- When the wrapped product does no harm. A product up to `2^31` is not wrapped, and a target below
zero is one that no clock reaches. A negative `ms` must not become positive. -/
def WaitOk (ms : Int16) (first : Timespec) : Prop :=
  if 0 ≤ ms.toInt then ms.toInt ≤ 2147 ∨ first.nanos + wrappedWait ms < 0
  else wrappedWait ms ≤ 0 ∧ 0 ≤ first.nanos + wrappedWait ms

instance (ms : Int16) (first : Timespec) : Decidable (WaitOk ms first) := by
  unfold WaitOk; infer_instance

section Yield

variable {ms : Int16} {first : Timespec} {turns : List Turn}

theorem target_cases (hv : first.Valid) (hb : first.nanos + 32767 * 1000000 < 2 ^ 63) :
    (0 ≤ first.nanos + wrappedWait ms ∧
        ((yieldTarget (getClocktickNs first) ms).toNat : Int) = first.nanos + wrappedWait ms) ∨
      (first.nanos + wrappedWait ms < 0 ∧
        2 ^ 63 ≤ (yieldTarget (getClocktickNs first) ms).toNat) := by
  have htgt := toNat_yieldTarget (getClocktickNs first) ms
  have hnow := hv.toNat_getClocktickNs
  have hbounds := wrappedWait_bounds ms
  rw [hnow] at htgt
  omega

theorem waits_of_waitOk (hv : first.Valid) (hb : first.nanos + 32767 * 1000000 < 2 ^ 63)
    (hok : WaitOk ms first) (hturns : ∀ turn ∈ turns, turn.clock.Valid) :
    Waits ms first turns (yieldLoop (yieldTarget (getClocktickNs first) ms) turns) := by
  have htgt := @target_cases ms first hv hb
  unfold WaitOk at hok
  constructor
  · intro hms last hexit
    obtain ⟨hle, turn, hturn, rfl⟩ := target_le_of_exit_clock hexit
    have hnat := UInt64.le_iff_toNat_le.mp hle
    have hlast := (hturns turn hturn).toNat_getClocktickNs
    have hsmall := (hturns turn hturn).nanos
    have hwrap := wrappedWait_le_iff hms
    rw [if_pos hms] at hok
    omega
  · rintro hms turn rest rfl hsecond
    rw [entered_eq_zero_iff, UInt64.le_iff_toNat_le]
    have hturn := (hturns turn List.mem_cons_self).toNat_getClocktickNs
    have hzero : ms.toInt = 0 → wrappedWait ms = 0 := by
      intro h0
      rw [wrappedWait, h0]
      rfl
    have hfirst := hv.sec
    have hfirst' := hv.nsec
    split at hok
    · have := hzero (by omega)
      unfold Timespec.nanos at htgt hsecond hturn
      omega
    · omega

theorem waitOk_of_waits (hv : first.Valid) (hb : first.nanos + 32767 * 1000000 < 2 ^ 63)
    (h : ∀ turns : List Turn, (∀ turn ∈ turns, turn.clock.Valid) →
      Waits ms first turns (yieldLoop (yieldTarget (getClocktickNs first) ms) turns)) :
    WaitOk ms first := by
  have htgt := @target_cases ms first hv hb
  have hbounds := wrappedWait_bounds ms
  unfold WaitOk
  split
  · rename_i hms
    refine Decidable.byContradiction fun hbad => ?_
    -- the clock shows the target on the first turn
    have hnonneg : 0 ≤ first.nanos + wrappedWait ms := by omega
    obtain ⟨n, hn⟩ := Int.eq_ofNat_of_zero_le hnonneg
    have hlt : n < 2 ^ 63 := by omega
    have hvalid := Timespec.valid_ofNanos hlt
    have hread : getClocktickNs (.ofNanos n) = yieldTarget (getClocktickNs first) ms := by
      apply UInt64.toNat_inj.mp
      have hnow := hvalid.toNat_getClocktickNs
      rw [Timespec.nanos_ofNanos (hlt.trans (by decide))] at hnow
      omega
    have hwaits := h [⟨.ofNanos n, false⟩] (by simpa using hvalid)
    have hexit : (yieldLoop (yieldTarget (getClocktickNs first) ms) [⟨.ofNanos n, false⟩]).exit =
        .clock (yieldTarget (getClocktickNs first) ms) := by
      rw [yieldLoop_cons, if_neg (by rw [hread]; exact UInt64.lt_irrefl _), hread]
    have hlong := hwaits.long hms _ hexit
    have hwrap := wrappedWait_le_iff hms
    omega
  · rename_i hms
    refine Decidable.byContradiction fun hbad => ?_
    -- the clock stands still on the first turn
    have hwaits := h [⟨first, false⟩] (by simpa using hv)
    have hskip := hwaits.skips (by omega) _ _ rfl (Int.le_refl _)
    rw [entered_eq_zero_iff, UInt64.le_iff_toNat_le] at hskip
    change (yieldTarget (getClocktickNs first) ms).toNat ≤ (getClocktickNs first).toNat at hskip
    have hnow := hv.toNat_getClocktickNs
    omega

end Yield

/-- Both functions wait as asked, on every clock, exactly if the wrapped product does no harm. -/
theorem yield_waits_iff (ms : Int16) (first : Timespec) (hv : first.Valid)
    (hb : first.nanos + 32767 * 1000000 < 2 ^ 63) :
    (∀ turns : List Turn, (∀ turn ∈ turns, turn.clock.Valid) →
      Waits ms first turns (yieldMs ms first turns).2 ∧
        Waits ms first turns (yieldMsProc ms first turns)) ↔ WaitOk ms first := by
  constructor
  · intro h
    exact waitOk_of_waits hv hb fun turns hturns => (h turns hturns).1
  · intro hok turns hturns
    have hwaits := waits_of_waitOk hv hb hok hturns
    exact ⟨hwaits, hwaits⟩

def clock2023 : Timespec := ⟨1700000000, 0⟩

theorem clock2023_valid : clock2023.Valid := ⟨by decide, by decide, by decide⟩

theorem yield_waits_iff_100 :
    (∀ turns : List Turn, (∀ turn ∈ turns, turn.clock.Valid) →
      Waits 100 clock2023 turns (yieldMs 100 clock2023 turns).2 ∧
        Waits 100 clock2023 turns (yieldMsProc 100 clock2023 turns)) ↔ WaitOk 100 clock2023 :=
  yield_waits_iff 100 clock2023 clock2023_valid (by decide)

/-- For 4295 milliseconds the product wraps to 32704 nanoseconds, and the wait ends after them. -/
theorem yield_4295_too_short :
    ¬∀ turns : List Turn, (∀ turn ∈ turns, turn.clock.Valid) →
      Waits 4295 clock2023 turns (yieldMs 4295 clock2023 turns).2 ∧
        Waits 4295 clock2023 turns (yieldMsProc 4295 clock2023 turns) := by
  intro h
  have hvalid : (⟨1700000000, 32704⟩ : Timespec).Valid := ⟨by decide, by decide, by decide⟩
  have hwaits := (h [⟨⟨1700000000, 32704⟩, false⟩] (by simpa using hvalid)).1
  have hlong := hwaits.long (by decide) 1700000000000032704 (by decide)
  exact absurd hlong (by decide)

end UdrPak.Realtime
