import UdrPak.Realtime.YieldTheorems
import UdrPak.Seq.RunTheorems
import UdrPak.Uuid.Lemmas.Session
import UdrPak.Uuid.Theorems

/-!
# UUIDs in a slow query

The test of `uuidv7` selects `n, uuidv7()` from `table(__slow_seq(10)) s(n)` and compares the first
13 characters from row to row. The pauses of `slow_seq_int` bring them into the order of the rows.
-/

namespace UdrPak.Uuid

open Host Libc Realtime Prng UdrPak.Seq

/-- What the functions see for one row, in this order: `slow_seq_int` in its pause, and then
`uuidv7`. -/
structure RowReadings where
  first : Timespec
  turns : List Turn
  realtime : Timespec
  seed : SeedReadings

/-- `select n, uuidv7() from table(__slow_seq(p1, p2, p3)) s(n)`, as far as the rows. -/
def SlowUuids (p1 p2 p3 : Int32) (interrupts : Nat → Bool) (conn : Option UInt64)
    (clock : Nat → RowReadings) : MiFparam IntSeq → MiFparam Xsr256State →
      List (Option Int32 × List Char) → (Nat × MiFparam IntSeq) × MiFparam Xsr256State → Prop :=
  PausingSelectsTo (slowUdr p1 p2 p3 fun k => ((clock k).first, (clock k).turns)) interrupts
    fun k fp => uuidv7 conn (clock k).realtime (clock k).seed fp

/-- For the first `n` rows the clock does not go back from one reading to the next, and no pause is
ended by `nanosleep`. -/
structure InStep (clock : Nat → RowReadings) (n : Nat) : Prop where
  valid : ∀ k < n, (clock k).first.Valid ∧ (clock k).realtime.Valid ∧
    ∀ turn ∈ (clock k).turns, turn.clock.Valid
  bound : ∀ k < n, (clock k).first.nanos + 32767 * 1000000 < 2 ^ 63
  paused : ∀ k < n, ∃ last, (yieldMsProc 100 (clock k).first (clock k).turns).exit = .clock last ∧
    (last.toNat : Int) ≤ (clock k).realtime.nanos
  follows : ∀ k, k + 1 < n → (clock k).realtime.nanos ≤ (clock (k + 1)).first.nanos

section Clock

variable {clock : Nat → RowReadings} {n i j : Nat}

theorem InStep.pause (h : InStep clock n) {k : Nat} (hk : k < n) :
    (clock k).first.nanos + 100000000 ≤ (clock k).realtime.nanos := by
  obtain ⟨hfirst, -, hturns⟩ := h.valid k hk
  obtain ⟨last, hexit, hlast⟩ := h.paused k hk
  have hok : WaitOk 100 (clock k).first := Or.inl (by decide)
  have hlong := (waits_of_waitOk hfirst (h.bound k hk) hok hturns).long (by decide) last hexit
  have hms : (100 : Int16).toInt = 100 := rfl
  rw [hms] at hlong
  omega

theorem InStep.realtime_lt (h : InStep clock n) (hij : i < j) (hj : j < n) :
    (clock i).realtime.nanos + 100000000 ≤ (clock j).realtime.nanos := by
  refine @add_le_of_rows (fun k => (clock k).realtime.nanos) _ _ _ _ (by decide) ?_ hij hj
  intro k hk
  have hfollows := h.follows k hk
  have hpause := h.pause hk
  change (clock k).realtime.nanos + 100000000 ≤ (clock (k + 1)).realtime.nanos
  omega

theorem InStep.millis_lt (h : InStep clock n) (hij : i < j) (hj : j < n) :
    (getClocktickNs (clock i).realtime).toNat / 1000000 <
      (getClocktickNs (clock j).realtime).toNat / 1000000 := by
  have hi := (h.valid i (hij.trans hj)).2.1.toNat_getClocktickNs
  have hj' := (h.valid j hj).2.1.toNat_getClocktickNs
  have hlt := h.realtime_lt hij hj
  omega

end Clock

theorem slowUuids_iff {p1 p2 p3 : Int32} {interrupts : Nat → Bool} {conn : Option UInt64}
    {clock : Nat → RowReadings} {fpSeq : MiFparam IntSeq} {fp : MiFparam Xsr256State}
    {rows : List (Option Int32 × List Char)} {x : (Nat × MiFparam IntSeq) × MiFparam Xsr256State} :
    SlowUuids p1 p2 p3 interrupts conn clock fpSeq fp rows x ↔
      SelectsTo (seqInt p1 p2 p3) interrupts
          (fun k fp => uuidv7 conn (clock k).realtime (clock k).seed fp) fpSeq fp rows x ∧
        ∀ k < rows.length, PauseEnds ((clock k).first, (clock k).turns) :=
  (slowUdr_pausesAs p1 p2 p3 _).selectsTo_iff (interruptible_seqInt p1 p2 p3)

/-- In every run of the query the texts ascend from row to row, with their first 13 characters, and
the numbers are those of `seq`. In a session `prng` has an id for, the numbers of `seq` get their
rows exactly if the pauses of these rows end. -/
theorem slowUuids_ascend (p1 p2 p3 : Int32) (argisnull : Nat → Bool) (prior : Option IntSeq)
    (interrupts : Nat → Bool) (conn : Option UInt64) (clock : Nat → RowReadings)
    (fp : MiFparam Xsr256State) :
    (∀ rows x, SlowUuids p1 p2 p3 interrupts conn clock (.fresh argisnull prior) fp rows x →
      InStep clock rows.length →
        rows.Pairwise (fun row row' => row.2.take 13 < row'.2.take 13 ∧ row.2 < row'.2) ∧
        RowsTo (seqInt p1 p2 p3) interrupts (.fresh argisnull prior)
          (rows.map Prod.fst) x.1) ∧
    (sessionId conn fp ≠ 0 → ∀ ns x,
      (∃ rows fp', SlowUuids p1 p2 p3 interrupts conn clock (.fresh argisnull prior) fp rows
          (x, fp') ∧ rows.map Prod.fst = ns) ↔
        RowsTo (seqInt p1 p2 p3) interrupts (.fresh argisnull prior) ns x ∧
          ∀ k < ns.length, PauseEnds ((clock k).first, (clock k).turns)) := by
  constructor
  · intro rows x hslow hclock
    obtain ⟨hrun, -⟩ := slowUuids_iff.mp hslow
    refine ⟨?_, hrun.rowsTo⟩
    rw [List.pairwise_iff_getElem]
    intro i j hi hj hij
    obtain ⟨_, _, hi'⟩ := hrun.value (List.getElem?_eq_getElem hi)
    obtain ⟨_, _, hj'⟩ := hrun.value (List.getElem?_eq_getElem hj)
    obtain ⟨p, hp⟩ := uuidv7_returned hi'
    obtain ⟨q, hq⟩ := uuidv7_returned hj'
    have hearlier := @prefix_lt _ _ p q (hclock.millis_lt hij hj)
    rw [hp, hq]
    exact ⟨hearlier, lt_of_take_lt hearlier (by simp)⟩
  · intro hsid ns x
    constructor
    · rintro ⟨rows, fp', hslow, rfl⟩
      obtain ⟨hrun, hends⟩ := slowUuids_iff.mp hslow
      exact ⟨hrun.rowsTo, by rwa [List.length_map]⟩
    · rintro ⟨hns, hends⟩
      obtain ⟨rows, fp', hrun, rfl⟩ := exists_selectsTo (fun k fp hfp =>
        uuidv7_returns hfp (clock k).realtime (clock k).seed) hns hsid
      rw [List.length_map] at hends
      exact ⟨rows, fp', slowUuids_iff.mpr ⟨hrun, hends⟩, rfl⟩

/-- One row a second. -/
def everySecond (k : Nat) : RowReadings where
  first := ⟨Int64.ofNat (1700000000 + k), 0⟩
  turns := [⟨⟨Int64.ofNat (1700000000 + k), 100000000⟩, false⟩]
  realtime := ⟨Int64.ofNat (1700000000 + k), 200000000⟩
  seed := readingsAt (Int64.ofNat k)

theorem everySecond_inStep : InStep everySecond 2 := by
  constructor
  · refine forall_two_rows
      ⟨⟨by decide, by decide, by decide⟩, ⟨by decide, by decide, by decide⟩, ?_⟩
      ⟨⟨by decide, by decide, by decide⟩, ⟨by decide, by decide, by decide⟩, ?_⟩
    · exact List.forall_mem_singleton.mpr ⟨by decide, by decide, by decide⟩
    · exact List.forall_mem_singleton.mpr ⟨by decide, by decide, by decide⟩
  · exact forall_two_rows (by decide) (by decide)
  · exact forall_two_rows ⟨1700000000100000000, by decide, by decide⟩
      ⟨1700000001100000000, by decide, by decide⟩
  · intro k hk
    obtain rfl : k = 0 := by omega
    decide

theorem slowUuids_ascend_two_rows : ∃ rows x,
    SlowUuids 2 0 0 (fun _ => false) (some 7) everySecond (.fresh (· != 0) none)
      (.fresh (fun _ => true) none) rows x ∧
    rows.map Prod.fst = [some 0, some 1] ∧
    rows.Pairwise fun row row' => row.2.take 13 < row'.2.take 13 ∧ row.2 < row'.2 := by
  obtain ⟨hsorted, hexists⟩ := slowUuids_ascend 2 0 0 (· != 0) none (fun _ => false) (some 7)
    everySecond (.fresh (fun _ => true) none)
  obtain ⟨rows, fp', hrun, hns⟩ := (hexists (by decide) [some 0, some 1] _).mpr
    ⟨⟨rfl, .row rfl (.row rfl (.refl _))⟩, forall_two_rows (by decide) (by decide)⟩
  have hlength : rows.length = 2 := by
    rw [← List.length_map (f := Prod.fst), hns]
    rfl
  exact ⟨rows, _, hrun, hns, (hsorted rows _ hrun (hlength ▸ everySecond_inStep)).1⟩

end UdrPak.Uuid
