import UdrPak.Prng.PeriodTheorems

/-!
# Four outputs in a row

Four outputs determine the state they come from, and in a period every four words but the zeros are
given out once.
-/

namespace UdrPak.Prng

section FourStates

variable {s s' : Words}

theorem s2_xor_s0_eq (h0 : s.s1 = s'.s1) (h1 : (next s).2.s1 = (next s').2.s1) :
    s.s2 ^^^ s.s0 = s'.s2 ^^^ s'.s0 := by
  have hstep : ∀ w : Words, (next w).2.s1 = w.s1 ^^^ (w.s2 ^^^ w.s0) := fun _ => rfl
  rw [hstep, hstep, h0, UInt64.xor_right_inj] at h1
  exact h1

theorem next_s2_eq (h0 : s.s1 = s'.s1) (h1 : (next s).2.s1 = (next s').2.s1) :
    (next s).2.s2 = (next s').2.s2 := by
  have hstep : ∀ w : Words, (next w).2.s2 = w.s2 ^^^ w.s0 ^^^ w.s1 <<< 17 := fun _ => rfl
  rw [hstep, hstep, s2_xor_s0_eq h0 h1, h0]

theorem next_s0_eq (h0 : s.s1 = s'.s1) (h1 : (next s).2.s1 = (next s').2.s1)
    (h2 : (next (next s).2).2.s1 = (next (next s').2).2.s1) :
    (next s).2.s0 = (next s').2.s0 := by
  have hxor := s2_xor_s0_eq h1 h2
  rwa [next_s2_eq h0 h1, UInt64.xor_right_inj] at hxor

theorem next_s3_eq (h0 : s.s1 = s'.s1) (h1 : (next s).2.s1 = (next s').2.s1)
    (h2 : (next (next s).2).2.s1 = (next (next s').2).2.s1)
    (h3 : (next (next (next s).2).2).2.s1 = (next (next (next s').2).2).2.s1) :
    (next s).2.s3 = (next s').2.s3 := by
  have hstep : ∀ w : Words, (next w).2.s0 = w.s0 ^^^ (w.s3 ^^^ w.s1) := fun _ => rfl
  have hnext := next_s0_eq h1 h2 h3
  rwa [hstep (next s).2, hstep (next s').2, next_s0_eq h0 h1 h2, h1, UInt64.xor_right_inj,
    UInt64.xor_left_inj] at hnext

/-- Of four states in a row, the words from which the outputs are computed determine the first. -/
theorem words_eq_of_s1 (h0 : s.s1 = s'.s1) (h1 : (next s).2.s1 = (next s').2.s1)
    (h2 : (next (next s).2).2.s1 = (next (next s').2).2.s1)
    (h3 : (next (next (next s).2).2).2.s1 = (next (next (next s').2).2).2.s1) : s = s' := by
  have hwords : (next s).2 = (next s').2 := by
    have heta : ∀ w : Words, w = ⟨w.s0, w.s1, w.s2, w.s3⟩ := fun _ => rfl
    rw [heta (next s).2, heta (next s').2, next_s0_eq h0 h1 h2, h1, next_s2_eq h0 h1,
      next_s3_eq h0 h1 h2 h3]
  exact next_bijective.injective hwords

end FourStates

theorem outputs_four (s : Words) :
    Orbit.outputs next s 4 = [(next s).1, (next (next s).2).1, (next (next (next s).2).2).1,
      (next (next (next (next s).2).2).2).1] := rfl

theorem outputs_four_inj {s s' : Words}
    (h : Orbit.outputs next s 4 = Orbit.outputs next s' 4) : s = s' := by
  simp only [outputs_four, List.cons.injEq, and_true] at h
  obtain ⟨h0, h1, h2, h3⟩ := h
  exact words_eq_of_s1 (next_output_inj h0) (next_output_inj h1) (next_output_inj h2)
    (next_output_inj h3)

/-- There are as many states as there are four words. -/
theorem outputs_four_surj (o0 o1 o2 o3 : UInt64) :
    ∃ s, Orbit.outputs next s 4 = [o0, o1, o2, o3] := by
  have hinj : Function.Injective fun s : Words => (⟨(next s).1, (next (next s).2).1,
      (next (next (next s).2).2).1, (next (next (next (next s).2).2).2).1⟩ : Words) := by
    intro s s' heq
    simp only [Words.mk.injEq] at heq
    obtain ⟨h0, h1, h2, h3⟩ := heq
    refine outputs_four_inj ?_
    rw [outputs_four, outputs_four, h0, h1, h2, h3]
  obtain ⟨s, hs⟩ := Finite.surjective_of_injective hinj ⟨o0, o1, o2, o3⟩
  simp only [Words.mk.injEq] at hs
  obtain ⟨h0, h1, h2, h3⟩ := hs
  exact ⟨s, by rw [outputs_four, h0, h1, h2, h3]⟩

theorem outputs_four_zero : Orbit.outputs next zeroWords 4 = [0, 0, 0, 0] := by decide

/-- Four outputs in a row determine the state. From any words that are not all zero, every four
outputs but four zeros come once in a period, and four zeros never come. -/
theorem four_outputs {s : Words} (h : s ≠ ⟨0, 0, 0, 0⟩) :
    (∀ s', Orbit.outputs next s 4 = Orbit.outputs next s' 4 → s = s') ∧
    (∀ n, Orbit.outputs next (Orbit.after next s n) 4 ≠ [0, 0, 0, 0]) ∧
    ∀ o0 o1 o2 o3, [o0, o1, o2, o3] ≠ [(0 : UInt64), 0, 0, 0] →
      ∃! n, n < 2 ^ 256 - 1 ∧
        Orbit.outputs next (Orbit.after next s n) 4 = [o0, o1, o2, o3] := by
  have hfixed : (next zeroWords).2 = zeroWords := congrArg Prod.snd next_zeroWords
  refine ⟨fun s' => outputs_four_inj, fun n hzero => ?_, fun o0 o1 o2 o3 hne => ?_⟩
  · have hout := outputs_four_inj (hzero.trans outputs_four_zero.symm)
    exact Orbit.after_ne_of_fixed next_bijective.injective hfixed h n hout
  · obtain ⟨w, hw⟩ := outputs_four_surj o0 o1 o2 o3
    have hwne : w ≠ zeroWords := by
      rintro rfl
      exact hne (hw.symm.trans outputs_four_zero)
    obtain ⟨n, ⟨hn, hnw⟩, huniq⟩ := stepWords_singleCycle.existsUnique h hwne
    have hafter : Orbit.after next s n = w := hnw
    refine ⟨n, ⟨hn, by rw [hafter, hw]⟩, fun m hm => huniq m ⟨hm.1, ?_⟩⟩
    exact outputs_four_inj (hm.2.trans hw.symm)

theorem four_outputs_start :
    (∀ s', Orbit.outputs next ⟨1, 2, 3, 4⟩ 4 = Orbit.outputs next s' 4 → ⟨1, 2, 3, 4⟩ = s') ∧
    (∀ n, Orbit.outputs next (Orbit.after next ⟨1, 2, 3, 4⟩ n) 4 ≠ [0, 0, 0, 0]) ∧
    ∀ o0 o1 o2 o3, [o0, o1, o2, o3] ≠ [(0 : UInt64), 0, 0, 0] →
      ∃! n, n < 2 ^ 256 - 1 ∧
        Orbit.outputs next (Orbit.after next ⟨1, 2, 3, 4⟩ n) 4 = [o0, o1, o2, o3] :=
  four_outputs (by decide)

end UdrPak.Prng
