import UdrPak.Prng.Lemmas.Period

/-!
# Period and jumps

The generators go through all states but the zero words before they return, and a jump is as many
steps as the comment on it says.
-/

namespace UdrPak.Prng

open BinaryPoly

/-! ## The period -/

/-- A step of the port leaves the seed and the session id as they are. -/
theorem after_advance (x : Xsr256State) (n : Nat) :
    Orbit.after advance x n = { x with xsrS := Orbit.after next x.xsrS n } := by
  have hsemi : Function.Semiconj (fun w => { x with xsrS := w }) stepWords
      fun x : Xsr256State => (advance x).2 := fun _ => rfl
  exact (hsemi.iterate_right n x.xsrS).symm

theorem after_eq_iff {s : Words} (h : s ≠ zeroWords) (a b : Nat) :
    Orbit.after next s a = Orbit.after next s b ↔ a % period = b % period :=
  stepWords_singleCycle.iterate_eq_iff h a b

theorem after_eq_self_iff {s : Words} (h : s ≠ zeroWords) (n : Nat) :
    Orbit.after next s n = s ↔ period ∣ n := by
  have hiff := after_eq_iff h n 0
  rwa [Nat.zero_mod, ← Nat.dvd_iff_mod_eq_zero] at hiff

theorem after_advance_eq_iff (x : Xsr256State) (n : Nat) (w : Words) :
    Orbit.after advance x n = { x with xsrS := w } ↔ Orbit.after next x.xsrS n = w := by
  rw [after_advance]
  constructor
  · exact congrArg Xsr256State.xsrS
  · rintro rfl
    rfl

/-- From any words that are not all zero, both generators and the port return to the state after
`2^256 - 1` steps and not before, and on the way they are once in every state but the zero words. -/
theorem generator_period {s : Words} (h : s ≠ ⟨0, 0, 0, 0⟩) :
    (∀ n, Orbit.after next s n = s ↔ 2 ^ 256 - 1 ∣ n) ∧
    (∀ n, Orbit.after PlusPlus.next s n = s ↔ 2 ^ 256 - 1 ∣ n) ∧
    (∀ x : Xsr256State, x.xsrS = s → ∀ n, Orbit.after advance x n = x ↔ 2 ^ 256 - 1 ∣ n) ∧
    ∀ w, w ≠ ⟨0, 0, 0, 0⟩ → (∃! n, n < 2 ^ 256 - 1 ∧ Orbit.after next s n = w) ∧
      (∃! n, n < 2 ^ 256 - 1 ∧ Orbit.after PlusPlus.next s n = w) ∧
      ∀ x : Xsr256State, x.xsrS = s →
        ∃! n, n < 2 ^ 256 - 1 ∧ Orbit.after advance x n = { x with xsrS := w } := by
  refine ⟨after_eq_self_iff h, after_eq_self_iff h, ?_, fun w hw => ?_⟩
  · rintro x rfl n
    exact (after_advance_eq_iff x n x.xsrS).trans (after_eq_self_iff h n)
  · have hunique : ∃! n, n < 2 ^ 256 - 1 ∧ Orbit.after next s n = w :=
      stepWords_singleCycle.existsUnique h hw
    refine ⟨hunique, hunique, ?_⟩
    rintro x rfl
    simpa only [after_advance_eq_iff] using hunique

theorem generator_period_start :
    (∀ n, Orbit.after next ⟨1, 0, 0, 0⟩ n = ⟨1, 0, 0, 0⟩ ↔ 2 ^ 256 - 1 ∣ n) ∧
    (∀ n, Orbit.after PlusPlus.next ⟨1, 0, 0, 0⟩ n = ⟨1, 0, 0, 0⟩ ↔ 2 ^ 256 - 1 ∣ n) ∧
    (∀ x : Xsr256State, x.xsrS = ⟨1, 0, 0, 0⟩ →
      ∀ n, Orbit.after advance x n = x ↔ 2 ^ 256 - 1 ∣ n) ∧
    ∀ w, w ≠ ⟨0, 0, 0, 0⟩ → (∃! n, n < 2 ^ 256 - 1 ∧ Orbit.after next ⟨1, 0, 0, 0⟩ n = w) ∧
      (∃! n, n < 2 ^ 256 - 1 ∧ Orbit.after PlusPlus.next ⟨1, 0, 0, 0⟩ n = w) ∧
      ∀ x : Xsr256State, x.xsrS = ⟨1, 0, 0, 0⟩ →
        ∃! n, n < 2 ^ 256 - 1 ∧ Orbit.after advance x n = { x with xsrS := w } :=
  generator_period (by decide)

/-! ## Jumps -/

theorem jumpBy_eq_after {step : Words → UInt64 × Words} (hstep : ∀ s, (step s).2 = (next s).2)
    {table : List UInt64} {e : Nat} (he : e < 2 ^ 256)
    (hpow : stepModulus.powMod 256 e = some (ofBits 8 (tableBits table))) (s : Words) :
    jumpBy step table s = Orbit.after next s e := by
  rw [jumpBy_eq hstep 8, ← stepHom_pow_smul]
  by_cases hs : s = zeroWords
  · have hzero : s = 0 := hs
    rw [hzero, smul_zero, smul_zero]
  -- the table was computed on one state, from which every other state is reached
  · obtain ⟨k, -, hk⟩ := stepWords_singleCycle.reaches startWords s (by decide) hs
    have hreach : stepHom ^ k • startWords = s := hk
    have hcomm : Commute (eval 8 stepHom (ofBits 8 (tableBits table))) (stepHom ^ k) :=
      (eval_commute 8 stepHom _).pow_right k
    have hstart := (powMod_represents he hpow).smul
    calc eval 8 stepHom (ofBits 8 (tableBits table)) • s
        = stepHom ^ k • eval 8 stepHom (ofBits 8 (tableBits table)) • startWords := by
          rw [← hreach, ← mul_smul, hcomm.eq, mul_smul]
      _ = stepHom ^ k • stepHom ^ e • startWords := by rw [← hstart]; rfl
      _ = stepHom ^ e • s := by rw [← mul_smul, (Commute.pow_pow_self stepHom k e).eq, mul_smul,
          hreach]

theorem two_pow_lt_two_pow_256 {k : Nat} (h : k < 256) : 2 ^ k < 2 ^ 256 :=
  Nat.pow_lt_pow_right Nat.one_lt_two h

/-- In both generators `jump` is `2^128` steps and `long_jump` is `2^192` steps, from every state. -/
theorem jumps_eq (s : Words) :
    jump s = Orbit.after next s (2 ^ 128) ∧
    longJump s = Orbit.after next s (2 ^ 192) ∧
    PlusPlus.jump s = Orbit.after PlusPlus.next s (2 ^ 128) ∧
    PlusPlus.longJump s = Orbit.after PlusPlus.next s (2 ^ 192) := by
  have hjump : 2 ^ 128 < 2 ^ 256 := two_pow_lt_two_pow_256 (by decide)
  have hlong : 2 ^ 192 < 2 ^ 256 := two_pow_lt_two_pow_256 (by decide)
  have hself : ∀ s, (next s).2 = (next s).2 := fun _ => rfl
  have hplus : ∀ s, (PlusPlus.next s).2 = (next s).2 := fun _ => rfl
  obtain ⟨-, hpow, hpow'⟩ := powMod_table
  exact ⟨jumpBy_eq_after hself hjump hpow s, jumpBy_eq_after hself hlong hpow' s,
    jumpBy_eq_after hplus hjump hpow s, jumpBy_eq_after hplus hlong hpow' s⟩

/-! ## Streams -/

theorem after_add (s : Words) (m n : Nat) :
    Orbit.after next s (m + n) = Orbit.after next (Orbit.after next s n) m :=
  Function.iterate_add_apply _ m n s

theorem iterate_jump (i : Nat) (s : Words) :
    jump^[i] s = Orbit.after next s (2 ^ 128 * i) := by
  have hjump : jump = stepWords^[2 ^ 128] := funext fun s => (jumps_eq s).1
  rw [hjump, ← Function.iterate_mul]
  rfl

theorem iterate_longJump (i : Nat) (s : Words) : longJump^[i] s = jump^[2 ^ 64 * i] s := by
  have hlong : longJump = stepWords^[2 ^ 192] := funext fun s => (jumps_eq s).2.1
  have hsplit : 2 ^ 128 * (2 ^ 64 * i) = 2 ^ 192 * i := by rw [← Nat.mul_assoc, ← pow_add]
  rw [hlong, iterate_jump, hsplit, ← Function.iterate_mul]
  rfl

theorem mod_period_eq_iff {m n : Nat} (hm : m ≤ period) (hn : n ≤ period) :
    m % period = n % period ↔ m = n ∨ m = 0 ∧ n = period ∨ m = period ∧ n = 0 := by
  have hpos := period_pos
  rcases Nat.lt_or_eq_of_le hm with hm | rfl <;> rcases Nat.lt_or_eq_of_le hn with hn | rfl
  · rw [Nat.mod_eq_of_lt hm, Nat.mod_eq_of_lt hn]
    omega
  · rw [Nat.mod_eq_of_lt hm, Nat.mod_self]
    omega
  · rw [Nat.mod_eq_of_lt hn, Nat.mod_self]
    omega
  · simp

theorem jump_stream_eq_iff {s : Words} (h : s ≠ zeroWords) {i a j b : Nat} (hi : i < 2 ^ 128)
    (ha : a < 2 ^ 128) (hj : j < 2 ^ 128) (hb : b < 2 ^ 128) :
    Orbit.after next (jump^[i] s) a = Orbit.after next (jump^[j] s) b ↔
      i = j ∧ a = b ∨ (i = 0 ∧ a = 0) ∧ j = 2 ^ 128 - 1 ∧ b = 2 ^ 128 - 1 ∨
        (i = 2 ^ 128 - 1 ∧ a = 2 ^ 128 - 1) ∧ j = 0 ∧ b = 0 := by
  have hperiod : period = 2 ^ 256 - 1 := rfl
  rw [iterate_jump, iterate_jump, ← after_add, ← after_add, after_eq_iff h,
    mod_period_eq_iff (by omega) (by omega)]
  omega

/-- The streams of `2^128` states that `jump` leads to have no state in common, but for one: the
last of the `2^128` streams ends with the state in which the first began, as the period is one state
short of `2^256`. So do the `2^64` times `2^64` streams that `long_jump` and `jump` lead to. -/
theorem jump_streams {s : Words} (h : s ≠ ⟨0, 0, 0, 0⟩) :
    (∀ i a j b, i < 2 ^ 128 → a < 2 ^ 128 → j < 2 ^ 128 → b < 2 ^ 128 →
      (Orbit.after next (jump^[i] s) a = Orbit.after next (jump^[j] s) b ↔
        (i, a) = (j, b) ∨ (i, a) = (0, 0) ∧ (j, b) = (2 ^ 128 - 1, 2 ^ 128 - 1) ∨
          (i, a) = (2 ^ 128 - 1, 2 ^ 128 - 1) ∧ (j, b) = (0, 0))) ∧
    ∀ i k a j l b, i < 2 ^ 64 → k < 2 ^ 64 → a < 2 ^ 128 → j < 2 ^ 64 → l < 2 ^ 64 → b < 2 ^ 128 →
      (Orbit.after next (jump^[k] (longJump^[i] s)) a =
          Orbit.after next (jump^[l] (longJump^[j] s)) b ↔
        (i, k, a) = (j, l, b) ∨
          (i, k, a) = (0, 0, 0) ∧ (j, l, b) = (2 ^ 64 - 1, 2 ^ 64 - 1, 2 ^ 128 - 1) ∨
          (i, k, a) = (2 ^ 64 - 1, 2 ^ 64 - 1, 2 ^ 128 - 1) ∧ (j, l, b) = (0, 0, 0)) := by
  constructor
  · intro i a j b hi ha hj hb
    simp only [Prod.mk.injEq]
    exact jump_stream_eq_iff h hi ha hj hb
  · intro i k a j l b hi hk ha hj hl hb
    -- a long jump is `2^64` jumps, so the pair numbers a stream of `jump`
    have hsame : k + 2 ^ 64 * i = l + 2 ^ 64 * j ↔ i = j ∧ k = l := by omega
    have hfirst : ∀ i k : Nat, k + 2 ^ 64 * i = 0 ↔ i = 0 ∧ k = 0 := by omega
    have hlast : ∀ i k : Nat, i < 2 ^ 64 → k < 2 ^ 64 →
        (k + 2 ^ 64 * i = 2 ^ 128 - 1 ↔ i = 2 ^ 64 - 1 ∧ k = 2 ^ 64 - 1) := by omega
    rw [iterate_longJump, iterate_longJump, ← Function.iterate_add_apply,
      ← Function.iterate_add_apply,
      jump_stream_eq_iff h (by omega) ha (by omega) hb, hsame, hfirst, hfirst, hlast i k hi hk,
      hlast j l hj hl]
    simp only [Prod.mk.injEq, and_assoc]

theorem jump_streams_start :
    Orbit.after next (jump^[2] ⟨1, 0, 0, 0⟩) 5 ≠ Orbit.after next (jump^[3] ⟨1, 0, 0, 0⟩) 5 := by
  have hlt : ∀ n, n < 6 → n < 2 ^ 128 := fun n hn => Nat.lt_trans hn (by decide)
  have hiff := (jump_streams (s := ⟨1, 0, 0, 0⟩) (by decide)).1 2 5 3 5 (hlt 2 (by decide))
    (hlt 5 (by decide)) (hlt 3 (by decide)) (hlt 5 (by decide))
  rw [ne_eq, hiff]
  simp

end UdrPak.Prng
