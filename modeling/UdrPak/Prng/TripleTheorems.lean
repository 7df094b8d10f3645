import UdrPak.Lib.Fibers
import UdrPak.Prng.PeriodTheorems

/-!
# Three outputs of xoshiro256++ in a row

Three outputs and one word of the last state determine the state they come from, so every three
outputs have as many states as there are words.
-/

namespace UdrPak.Prng

open Fibers

namespace PlusPlus

/-- The output is computed from the first and the last word. -/
def output (s : Words) : UInt64 := rotl (s.s0 + s.s3) 23 + s.s0

theorem output_inj {s s' : Words} (h : output s = output s') (h0 : s.s0 = s'.s0) :
    s.s3 = s'.s3 := by
  have hrot : rotl (s.s0 + s.s3) 23 = rotl (s'.s0 + s'.s3) 23 := by
    rw [output, output, h0] at h
    rw [h0]
    exact (UInt64.add_left_inj _).mp h
  have hsum := rotl_inj (by decide) (by decide) hrot
  rw [h0] at hsum
  exact (UInt64.add_right_inj _).mp hsum

/-- The last word of a state is the change of the first word, rotated. -/
theorem stepWords_s3 (s : Words) : (stepWords s).s3 = rotl (s.s0 ^^^ (stepWords s).s0) 45 := by
  have hchange : s.s0 ^^^ (stepWords s).s0 = s.s3 ^^^ s.s1 := by
    have hstep : (stepWords s).s0 = s.s0 ^^^ (s.s3 ^^^ s.s1) := rfl
    rw [hstep, ← UInt64.xor_assoc, UInt64.xor_self, UInt64.zero_xor]
  rw [hchange]
  rfl

theorem s0_eq_of_step {s s' : Words} (h0 : (stepWords s).s0 = (stepWords s').s0)
    (h3 : (stepWords s).s3 = (stepWords s').s3) : s.s0 = s'.s0 := by
  rw [stepWords_s3, stepWords_s3, h0] at h3
  exact (UInt64.xor_left_inj _).mp (rotl_inj (by decide) (by decide) h3)

theorem s1_eq_of_step {s s' : Words} (h : s.s0 = s'.s0) (h3 : s.s3 = s'.s3)
    (h0 : (stepWords s).s0 = (stepWords s').s0) : s.s1 = s'.s1 := by
  have hstep : ∀ w : Words, (stepWords w).s0 = w.s0 ^^^ (w.s3 ^^^ w.s1) := fun _ => rfl
  rwa [hstep, hstep, h, h3, UInt64.xor_right_inj, UInt64.xor_right_inj] at h0

theorem s2_eq_of_step {s s' : Words} (h : s.s0 = s'.s0) (h1 : s.s1 = s'.s1)
    (hstep1 : (stepWords s).s1 = (stepWords s').s1) : s.s2 = s'.s2 := by
  have hstep : ∀ w : Words, (stepWords w).s1 = w.s1 ^^^ (w.s2 ^^^ w.s0) := fun _ => rfl
  rwa [hstep, hstep, h, h1, UInt64.xor_right_inj, UInt64.xor_left_inj] at hstep1

/-- Three outputs, and the first word of the third state. -/
def triple (s : Words) : UInt64 × UInt64 × UInt64 × UInt64 :=
  ((stepWords (stepWords s)).s0, output s, output (stepWords s), output (stepWords (stepWords s)))

theorem triple_injective : Function.Injective triple := by
  intro s s' h
  simp only [triple, Prod.mk.injEq] at h
  obtain ⟨hlast, hout, hout', hout''⟩ := h
  -- from the last state back to the first
  have h3'' := output_inj hout'' hlast
  have h0' := s0_eq_of_step hlast h3''
  have h3' := output_inj hout' h0'
  have h0 := s0_eq_of_step h0' h3'
  have h3 := output_inj hout h0
  have h1 := s1_eq_of_step h0 h3 h0'
  have h1' := s1_eq_of_step h0' h3' hlast
  have h2 := s2_eq_of_step h0 h1 h1'
  have heta : ∀ w : Words, w = ⟨w.s0, w.s1, w.s2, w.s3⟩ := fun _ => rfl
  rw [heta s, heta s', h0, h1, h2, h3]

theorem triple_bijective : Function.Bijective triple := by
  refine triple_injective.bijective_of_nat_card_le ?_
  rw [Nat.card_congr Words.toTuple]

theorem outputs_three (s : Words) : Orbit.outputs next s 3 =
    [output s, output (stepWords s), output (stepWords (stepWords s))] := rfl

theorem even_triple : Even (Prod.snd ∘ triple) (2 ^ 64) := by
  have htriples := (@even_snd UInt64 (UInt64 × UInt64 × UInt64)).comp_bijective
    triple_bijective
  rwa [Word.card_uInt64] at htriples

/-- From any words that are not all zero, every three outputs come `2^64` times in a period, but
three zeros once less. -/
theorem three_outputs {s : Words} (h : s ≠ ⟨0, 0, 0, 0⟩) (o0 o1 o2 : UInt64) :
    Nat.card {n : Fin (2 ^ 256 - 1) //
        Orbit.outputs next (Orbit.after next s n) 3 = [o0, o1, o2]} =
      if (o0, o1, o2) = (0, 0, 0) then 2 ^ 64 - 1 else 2 ^ 64 := by
  have hvisits := stepWords_singleCycle.card_visits h fun w => (triple w).2 = (o0, o1, o2)
  have hsurj : Function.Surjective (Prod.snd ∘ triple) :=
    Prod.snd_surjective.comp triple_bijective.surjective
  have hstates := even_triple.card_ne_and hsurj zeroWords (o0, o1, o2)
  have hzero : (triple zeroWords).2 = (0, 0, 0) := by decide
  simp only [Function.comp_apply, hzero] at hstates
  rw [← hstates, ← hvisits]
  refine Nat.card_congr (Equiv.subtypeEquivRight fun n => ?_)
  have hafter : Orbit.after next s n = stepWords^[n] s := rfl
  rw [hafter, outputs_three]
  simp only [triple, List.cons.injEq, and_true, Prod.mk.injEq]

theorem three_outputs_start :
    Nat.card {n : Fin (2 ^ 256 - 1) //
        Orbit.outputs next (Orbit.after next ⟨1, 2, 3, 4⟩ n) 3 = [5, 6, 7]} = 2 ^ 64 :=
  three_outputs (by decide) 5 6 7

end PlusPlus

end UdrPak.Prng
