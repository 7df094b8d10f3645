import UdrPak.Realtime.YieldTheorems

/-!
# When `yield_ms` returns

The loop is left on the first turn whose clock has reached the target. As every turn before it has
slept for 10 milliseconds, this turn comes.
-/

namespace UdrPak.Realtime

/-- Every clock is a reading, no `nanosleep` fails, and each has taken its 10 milliseconds. -/
structure Steady (first : Timespec) (turns : List Turn) : Prop where
  valid : ∀ turn ∈ turns, turn.clock.Valid
  sleeps : ∀ turn ∈ turns, turn.sleepFails = false
  elapsed : ∀ (i : Nat) (turn : Turn), turns[i]? = some turn →
    first.nanos + i * 10000000 ≤ turn.clock.nanos

/-- The clock ends the loop on the turn with number `k`: the first one that is not before `tgt`
nanoseconds. -/
structure EndsAt (tgt : Int) (turns : List Turn) (k : Nat) (turn : Turn) : Prop where
  at_turn : turns[k]? = some turn
  reached : tgt ≤ turn.clock.nanos
  before : ∀ i < k, ∀ turn, turns[i]? = some turn → turn.clock.nanos < tgt

section Loop

variable {tgt : UInt64} {turns : List Turn}

theorem yieldLoop_of_reached {k : Nat} {turn : Turn} (hturn : turns[k]? = some turn)
    (hreached : tgt ≤ getClocktickNs turn.clock)
    (hbefore : ∀ i < k, ∀ turn, turns[i]? = some turn →
      getClocktickNs turn.clock < tgt ∧ turn.sleepFails = false) :
    yieldLoop tgt turns = ⟨.clock (getClocktickNs turn.clock), k⟩ := by
  induction turns generalizing k with
  | nil => cases hturn
  | cons t turns ih =>
      rw [yieldLoop_cons]
      cases k with
      | zero =>
          cases hturn
          rw [if_neg (UInt64.not_lt.mpr hreached)]
      | succ k =>
          obtain ⟨hlt, hsleeps⟩ := hbefore 0 (Nat.succ_pos k) t rfl
          have hrest := ih hturn fun i hi => hbefore (i + 1) (Nat.succ_lt_succ hi)
          rw [if_pos hlt, hsleeps, hrest]
          rfl

end Loop

section Steady

variable {ms : Int16} {first : Timespec} {turns : List Turn} {tgt : Int}

/-- Among enough turns there is a first one that has reached the target. -/
theorem Steady.exists_endsAt (h : Steady first turns) {n : Nat} (hn : n < turns.length)
    (htgt : tgt ≤ first.nanos + n * 10000000) :
    ∃ k turn, EndsAt tgt turns k turn ∧ k ≤ n := by
  classical
  have hlast : ∃ turn, turns[n]? = some turn ∧ tgt ≤ turn.clock.nanos := by
    refine ⟨turns[n], List.getElem?_eq_getElem hn, ?_⟩
    have helapsed := h.elapsed n turns[n] (List.getElem?_eq_getElem hn)
    omega
  have hexists : ∃ i : Nat, ∃ turn, turns[i]? = some turn ∧ tgt ≤ turn.clock.nanos := ⟨n, hlast⟩
  obtain ⟨turn, hturn, hreached⟩ := Nat.find_spec hexists
  refine ⟨Nat.find hexists, turn, ⟨hturn, hreached, fun i hi t ht => ?_⟩, ?_⟩
  · have hnot := Nat.find_min hexists hi
    exact Int.not_le.mp fun hle => hnot ⟨t, ht, hle⟩
  · exact Nat.find_min' hexists hlast

theorem Steady.yieldLoop_eq (h : Steady first turns) (hv : first.Valid)
    (hb : first.nanos + 32767 * 1000000 < 2 ^ 63) (hpast : 0 ≤ first.nanos + wrappedWait ms)
    {k : Nat} {turn : Turn} (hk : EndsAt (first.nanos + wrappedWait ms) turns k turn) :
    yieldLoop (yieldTarget (getClocktickNs first) ms) turns =
      ⟨.clock (getClocktickNs turn.clock), k⟩ := by
  have htgt : ((yieldTarget (getClocktickNs first) ms).toNat : Int) =
      first.nanos + wrappedWait ms := by
    rcases @target_cases ms first hv hb with ⟨-, htgt⟩ | ⟨hneg, -⟩
    · exact htgt
    · omega
  have hread : ∀ (i : Nat) (t : Turn), turns[i]? = some t →
      ((getClocktickNs t.clock).toNat : Int) = t.clock.nanos := fun _ t ht =>
    (h.valid t (List.mem_of_getElem? ht)).toNat_getClocktickNs
  refine yieldLoop_of_reached hk.at_turn ?_ fun i hi t ht => ⟨?_, ?_⟩
  · have hclock := hread k turn hk.at_turn
    have hreached := hk.reached
    rw [UInt64.le_iff_toNat_le]
    omega
  · have hclock := hread i t ht
    have hbefore := hk.before i hi t ht
    rw [UInt64.lt_iff_toNat_lt]
    omega
  · exact h.sleeps t (List.mem_of_getElem? ht)

end Steady

/-- On a steady clock both functions return, for every `ms`, after at most 215 turns. They return on
the first turn that sees the target, which is the wrapped product later than the first reading. A
clock that could show a target below zero is left out: it shows the first 2.2 seconds of the
epoch. -/
theorem yield_returns (ms : Int16) (first : Timespec) (turns : List Turn) (hv : first.Valid)
    (hb : first.nanos + 32767 * 1000000 < 2 ^ 63) (hpast : 0 ≤ first.nanos + wrappedWait ms)
    (hsteady : Steady first turns) (hlong : 215 < turns.length) :
    ∃ k turn, EndsAt (first.nanos + wrappedWait ms) turns k turn ∧ k ≤ 215 ∧
      k * 10000000 < max (wrappedWait ms) 0 + 10000000 ∧
      yieldMs ms first turns = (0, ⟨.clock (getClocktickNs turn.clock), k⟩) ∧
      yieldMsProc ms first turns = ⟨.clock (getClocktickNs turn.clock), k⟩ := by
  obtain ⟨n, hn⟩ : ∃ n : Nat, (n : Int) = (max (wrappedWait ms) 0 + 9999999) / 10000000 :=
    ⟨((max (wrappedWait ms) 0 + 9999999) / 10000000).toNat, Int.toNat_of_nonneg (by omega)⟩
  have hbounds := wrappedWait_bounds ms
  have htgt : first.nanos + wrappedWait ms ≤ first.nanos + n * 10000000 := by omega
  obtain ⟨k, turn, hk, hle⟩ := hsteady.exists_endsAt (n := n) (by omega) htgt
  have hloop := hsteady.yieldLoop_eq hv hb hpast hk
  refine ⟨k, turn, hk, by omega, by omega, ?_, hloop⟩
  rw [yieldMs, hloop]

/-- Turns of 10 milliseconds each, from a clock on. -/
def everyTenMs (start n : Nat) : List Turn :=
  (List.range n).map fun i => ⟨.ofNanos (start + i * 10000000), false⟩

theorem everyTenMs_steady {start n : Nat} (h : start + n * 10000000 < 2 ^ 63) :
    Steady (.ofNanos start) (everyTenMs start n) := by
  have hsmall : ∀ i ≤ n, start + i * 10000000 < 2 ^ 63 := fun i hi =>
    lt_of_le_of_lt (Nat.add_le_add_left (Nat.mul_le_mul_right _ hi) start) h
  constructor
  · intro turn hturn
    obtain ⟨i, hi, rfl⟩ := List.mem_map.mp hturn
    exact Timespec.valid_ofNanos (hsmall i (List.mem_range.mp hi).le)
  · intro turn hturn
    obtain ⟨i, -, rfl⟩ := List.mem_map.mp hturn
    rfl
  · intro i turn hturn
    rw [everyTenMs, List.getElem?_map, Option.map_eq_some_iff] at hturn
    obtain ⟨j, hj, rfl⟩ := hturn
    obtain ⟨hlt, rfl⟩ := List.getElem?_eq_some_iff.mp hj
    rw [List.length_range] at hlt
    have hzero := hsmall 0 (Nat.zero_le n)
    rw [Nat.zero_mul, Nat.add_zero] at hzero
    rw [List.getElem_range, Timespec.nanos_ofNanos ((hsmall i hlt.le).trans (by decide)),
      Timespec.nanos_ofNanos (hzero.trans (by decide))]
    push_cast
    exact le_rfl

/-- The longest wait, 2147 milliseconds. -/
theorem yield_returns_2147 :
    ∃ k turn, EndsAt ((Timespec.ofNanos 1700000000000000000).nanos + wrappedWait 2147)
        (everyTenMs 1700000000000000000 216) k turn ∧ k ≤ 215 ∧
      k * 10000000 < max (wrappedWait 2147) 0 + 10000000 ∧
      yieldMs 2147 (.ofNanos 1700000000000000000) (everyTenMs 1700000000000000000 216) =
        (0, ⟨.clock (getClocktickNs turn.clock), k⟩) ∧
      yieldMsProc 2147 (.ofNanos 1700000000000000000) (everyTenMs 1700000000000000000 216) =
        ⟨.clock (getClocktickNs turn.clock), k⟩ := by
  have hnanos : (Timespec.ofNanos 1700000000000000000).nanos = 1700000000000000000 :=
    Timespec.nanos_ofNanos (by decide)
  have hlength : (everyTenMs 1700000000000000000 216).length = 216 := by
    rw [everyTenMs, List.length_map, List.length_range]
  exact yield_returns 2147 (.ofNanos 1700000000000000000) (everyTenMs 1700000000000000000 216)
    (Timespec.valid_ofNanos (by decide)) (by omega) (by rw [hnanos]; decide)
    (everyTenMs_steady (by decide)) (by omega)

end UdrPak.Realtime
