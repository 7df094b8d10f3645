import UdrPak.Prng.Theorems
import UdrPak.Realtime.Lemmas.Clock

/-!
# The step of the generator

The step can be undone. So it does not run into the words that are all zero, where it would stay,
and seeded words are not all zero.
-/

namespace UdrPak.Prng

open Host Libc Realtime

/-! ## The step backwards -/

theorem rotl_rotl {k k' : UInt64} (hk : 0 < k.toNat) (hk' : 0 < k'.toNat)
    (hturn : k.toNat + k'.toNat = 64) (x : UInt64) : rotl (rotl x k) k' = x := by
  have hbits : (rotl (rotl x k) k').toBitVec = x.toBitVec := by
    rw [toBitVec_rotl hk' (by omega), toBitVec_rotl hk (by omega),
      Word.rotateLeft_rotateLeft hk hk' hturn]
  exact UInt64.toBitVec_inj.mp hbits

/-- What `x ^ (x << 17)` was made from. -/
def unshift (x : UInt64) : UInt64 := ⟨Word.xorUnshiftLeft 17 2 x.toBitVec⟩

theorem unshift_xorShift (x : UInt64) : unshift (x ^^^ x <<< 17) = x :=
  UInt64.toBitVec_inj.mp (Word.xorUnshiftLeft_xorShiftLeft (by decide) x.toBitVec)

theorem xorShift_unshift (x : UInt64) : unshift x ^^^ unshift x <<< 17 = x :=
  UInt64.toBitVec_inj.mp (Word.xorShiftLeft_xorUnshiftLeft (by decide) x.toBitVec)

/-- The words before a step of `next`. -/
def prev (s : Words) : Words :=
  let s3 := rotl s.s3 19
  let s0 := s.s0 ^^^ s3
  let s1 := unshift (s.s1 ^^^ s.s2)
  ⟨s0, s1, s.s1 ^^^ s1 ^^^ s0, s3 ^^^ s1⟩

theorem next_words (s : Words) :
    (next s).2 = ⟨s.s0 ^^^ (s.s3 ^^^ s.s1), s.s1 ^^^ (s.s2 ^^^ s.s0),
      s.s2 ^^^ s.s0 ^^^ s.s1 <<< 17, rotl (s.s3 ^^^ s.s1) 45⟩ := rfl

theorem prev_next (s : Words) : prev (next s).2 = s := by
  have h3 : rotl (rotl (s.s3 ^^^ s.s1) 45) 19 = s.s3 ^^^ s.s1 :=
    rotl_rotl (by decide) (by decide) rfl _
  have h1 : unshift (s.s1 ^^^ (s.s2 ^^^ s.s0) ^^^ (s.s2 ^^^ s.s0 ^^^ s.s1 <<< 17)) = s.s1 := by
    rw [← UInt64.xor_assoc _ (s.s2 ^^^ s.s0), Word.xor_cancel_right, unshift_xorShift]
  have h2 : s.s1 ^^^ (s.s2 ^^^ s.s0) ^^^ s.s1 = s.s2 ^^^ s.s0 := by
    rw [UInt64.xor_comm s.s1, Word.xor_cancel_right]
  rw [next_words]
  simp only [prev, h3, h1, h2, Word.xor_cancel_right]

theorem next_prev (s : Words) : (next (prev s)).2 = s := by
  have h1 : unshift (s.s1 ^^^ s.s2) ^^^ (s.s1 ^^^ unshift (s.s1 ^^^ s.s2)) = s.s1 := by
    rw [UInt64.xor_comm s.s1 (unshift _), Word.xor_cancel_left]
  have h2 : s.s1 ^^^ unshift (s.s1 ^^^ s.s2) ^^^ unshift (s.s1 ^^^ s.s2) <<< 17 = s.s2 := by
    rw [UInt64.xor_assoc, xorShift_unshift, Word.xor_cancel_left]
  have h3 : rotl (rotl s.s3 19) 45 = s.s3 := rotl_rotl (by decide) (by decide) rfl _
  rw [next_words]
  simp only [prev, Word.xor_cancel_right, h1, h2, h3]

theorem next_bijective : Function.Bijective fun s : Words => (next s).2 :=
  Function.bijective_iff_has_inverse.mpr ⟨prev, prev_next, next_prev⟩

/-! ## Seeded words -/

theorem initXsr256State_inv {conn : Option UInt64} {r : SeedReadings} {s : Xsr256State}
    {fp fp' : MiFparam Xsr256State} (h : initXsr256State conn r fp = .returned (s, fp')) :
    s.xsrS = seedWords s.sid r := by
  obtain ⟨sid, -, hseed⟩ := Outcome.bind_eq_returned h
  split at hseed
  · cases hseed
  · cases hseed
    rw [seed_xsrS, seed_sid]

/-- The words that a step leaves as they are. -/
def zeroWords : Words := ⟨0, 0, 0, 0⟩

theorem seedWords_ne_zero {sid : UInt64} {r : SeedReadings} (hpos : 0 < r.realtime.nanos)
    (hlt : r.realtime.nanos < 2 ^ 64) : seedWords sid r ≠ zeroWords := by
  intro h
  have hclock := toNat_getClocktickNs r.realtime
  have hword : getClocktickNs r.realtime = 0 := congrArg Words.s0 h
  rw [hword, Int.emod_eq_of_lt (Int.le_of_lt hpos) hlt, UInt64.toNat_zero] at hclock
  omega

theorem next_zeroWords : next zeroWords = (0, zeroWords) := by decide

/-- The words of the port's states are an orbit of the reference. -/
theorem xsrS_after_advance (s : Xsr256State) (n : Nat) :
    (Orbit.after advance s n).xsrS = Orbit.after next s.xsrS n :=
  Orbit.view_after (fun _ => rfl) s n

theorem after_seed_ne_zero {conn : Option UInt64} {r : SeedReadings} {s : Xsr256State}
    {fp fp' : MiFparam Xsr256State} (h : initXsr256State conn r fp = .returned (s, fp'))
    (hpos : 0 < r.realtime.nanos) (hlt : r.realtime.nanos < 2 ^ 64) (n : Nat) :
    (Orbit.after advance s n).xsrS ≠ zeroWords := by
  have hfixed : (next zeroWords).2 = zeroWords := congrArg Prod.snd next_zeroWords
  have hseed : s.xsrS ≠ zeroWords := by
    rw [initXsr256State_inv h]
    exact seedWords_ne_zero hpos hlt
  rw [xsrS_after_advance]
  exact Orbit.after_ne_of_fixed next_bijective.injective hfixed hseed n

/-- The port makes the step of the reference, which can be undone. From a state that is seeded while
the real time is a positive 64-bit number, no number of steps leads to the zero words, from which
every output is 0. -/
theorem generator_step :
    (∀ conn r fp s, xoshiro256StarStarOn (some s) conn r fp =
      .returned ((next s.xsrS).1.toInt64, fp.setfuncstate { s with xsrS := (next s.xsrS).2 })) ∧
    (Function.Bijective fun w : Words => (next w).2) ∧
    (∀ conn r fp s fp', initXsr256State conn r fp = .returned (s, fp') →
      0 < r.realtime.nanos → r.realtime.nanos < 2 ^ 64 →
        ∀ n, (Orbit.after advance s n).xsrS ≠ ⟨0, 0, 0, 0⟩) ∧
    ∀ n, Orbit.outputs next ⟨0, 0, 0, 0⟩ n = List.replicate n 0 := by
  refine ⟨fun conn r fp s => ?_, next_bijective, ?_, fun n => ?_⟩
  · simp only [xoshiro256StarStarOn, Outcome.bind_returned, advance_eq]
  · intro conn r fp s fp' hinit hpos hlt n
    exact after_seed_ne_zero hinit hpos hlt n
  · have hfixed : (next zeroWords).2 = zeroWords := congrArg Prod.snd next_zeroWords
    have houtputs := Orbit.outputs_of_fixed hfixed n
    rwa [next_zeroWords] at houtputs

/-- A state that is seeded five seconds after the epoch. -/
theorem generator_step_seeded :
    ∃ s fp', initXsr256State (some 7) (readingsAt 5) (.fresh (fun _ => true) none) =
      .returned (s, fp') ∧ ∀ n, (Orbit.after advance s n).xsrS ≠ ⟨0, 0, 0, 0⟩ := by
  refine ⟨_, _, rfl, ?_⟩
  exact generator_step.2.2.1 (some 7) (readingsAt 5) (.fresh (fun _ => true) none) _ _ rfl
    (by decide) (by decide)

end UdrPak.Prng
