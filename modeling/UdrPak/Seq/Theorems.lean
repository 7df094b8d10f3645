import UdrPak.Seq.Lemmas.Progress

/-!
# The rows of `seq`
-/

namespace UdrPak.Seq

open Host Cursor Progression

/-! ## Three arguments -/

/-- The uninterrupted run of `seq(p1, p2, p3)` ends, and its rows are the terms from `p1` with steps
of size `|p2|` strictly before `p3`. -/
def SeqExact (p1 p2 p3 : Int32) (prior : Option IntSeq) : Prop :=
  ∃ rows, Rows (seqInt p1 p2 p3) (fun _ => false) (.fresh (fun _ => false) prior) rows ∧
    rows.map (Option.map Int32.toInt) = (terms p1.toInt p2.toInt p3.toInt).map some

/-- No 32-bit arithmetic wraps: the step is not the one that has no negation where it has to be
turned, and the term that reaches the end fits. -/
def NoWrap (p1 p2 p3 : Int32) : Prop :=
  ¬(p2 = Int32.minValue ∧ p1 < p3) ∧
    Fits (term p1.toInt p2.toInt p3.toInt (count p1.toInt p2.toInt p3.toInt))

instance (p1 p2 p3 : Int32) : Decidable (NoWrap p1 p2 p3) := by unfold NoWrap; infer_instance

section ThreeArguments

variable {p1 p2 p3 : Int32} {prior : Option IntSeq} {rows : List (Option Int32)}

def startState (p1 p2 p3 : Int32) : IntSeq := IntSeq.turnStep ⟨p1, p1, p2, p3⟩

theorem rows_three_iff :
    Rows (seqInt p1 p2 p3) (fun _ => false) (.fresh (fun _ => false) prior) rows ↔
      if p2 = 0 ∨ p1 = p3 then rows = [] else Fetches IntSeq.next (startState p1 p2 p3) rows := by
  rw [rows_seqInt_iff]
  have hinit : initState (pMapOf fun _ => false) p1 p2 p3 =
      if p2 = 0 ∨ p1 = p3 then none else some (startState p1 p2 p3) := rfl
  rw [hinit]
  by_cases h : p2 = 0 ∨ p1 = p3
  · rw [if_pos h, if_pos h]
  · rw [if_neg h, if_neg h]

theorem startState_step (h13 : p1.toInt ≠ p3.toInt) (hmin : ¬(p2 = Int32.minValue ∧ p1 < p3)) :
    (startState p1 p2 p3).step.toInt = stride p1.toInt p2.toInt p3.toInt :=
  IntSeq.turnStep_step (s := ⟨p1, p1, p2, p3⟩) h13 hmin

theorem startState_starts (h2 : p2 ≠ 0) (h13 : p1 ≠ p3) (hmin : ¬(p2 = Int32.minValue ∧ p1 < p3)) :
    (startState p1 p2 p3).Starts p2.toInt := by
  have hsize : p2.toInt ≠ 0 := fun h => h2 (Int32.toInt_inj.mp h)
  have hapart : p1.toInt ≠ p3.toInt := fun h => h13 (Int32.toInt_inj.mp h)
  refine ⟨?_, hsize, ?_, ?_⟩
  · simp [startState]
  · simpa [startState] using hapart
  · rw [startState_step hapart hmin]
    simp [startState]

/-- The step that has no negation leads away from an end above the start: the run has no rows. -/
theorem rows_minStep (h : p1 < p3)
    (hrows : Rows (seqInt p1 Int32.minValue p3) (fun _ => false)
      (.fresh (fun _ => false) prior) rows) :
    rows = [] := by
  have h2 : ¬(Int32.minValue = 0 ∨ p1 = p3) := by
    rintro (h0 | rfl)
    · exact absurd h0 (by decide)
    · exact Int32.lt_irrefl h
  have hdown : Int32.minValue < 0 := by decide
  have hstart : startState p1 Int32.minValue p3 = ⟨p1, p1, Int32.minValue, p3⟩ :=
    IntSeq.turnStep_minStep rfl h
  rw [rows_three_iff, if_neg h2, hstart] at hrows
  have hend : IntSeq.next ⟨p1, p1, Int32.minValue, p3⟩ = none := by
    rw [IntSeq.next, if_pos]
    exact Or.inr ⟨Int32.lt_iff_toInt_lt.mp hdown, Int.le_of_lt (Int32.lt_iff_toInt_lt.mp h)⟩
  exact hrows.unique (.done hend)

theorem seqExact_of_no_terms (h : p2 = 0 ∨ p1 = p3) : SeqExact p1 p2 p3 prior := by
  have hcount : count p1.toInt p2.toInt p3.toInt = 0 := by
    have hpos := @count_pos_iff p1.toInt p2.toInt p3.toInt
    rcases h with rfl | rfl
    · simp only [Int32.toInt_zero, ne_eq, not_true_eq_false, false_and, iff_false] at hpos
      exact Nat.eq_zero_of_not_pos hpos
    · simp only [ne_eq, not_true_eq_false, and_false, iff_false] at hpos
      exact Nat.eq_zero_of_not_pos hpos
  have hterms : terms p1.toInt p2.toInt p3.toInt = [] := by simp [terms, hcount]
  refine ⟨[], ?_, by rw [hterms]; rfl⟩
  rw [rows_three_iff, if_pos h]

theorem not_seqExact_minStep (h : p1 < p3) : ¬SeqExact p1 Int32.minValue p3 prior := by
  rintro ⟨rows, hrows, hterms⟩
  rw [rows_minStep h hrows] at hterms
  have hcount := congrArg List.length hterms
  simp only [List.length_map, List.length_nil, length_terms] at hcount
  have hapart : p1.toInt ≠ p3.toInt := Int.ne_of_lt (Int32.lt_iff_toInt_lt.mp h)
  have hpos : 0 < count p1.toInt Int32.minValue.toInt p3.toInt :=
    count_pos_iff.mpr ⟨by decide, hapart⟩
  omega

/-- The run is the progression exactly if no arithmetic wraps, or there are no terms. -/
theorem seqExact_iff (p1 p2 p3 : Int32) (prior : Option IntSeq) :
    SeqExact p1 p2 p3 prior ↔ p2 = 0 ∨ p1 = p3 ∨ NoWrap p1 p2 p3 := by
  by_cases htriv : p2 = 0 ∨ p1 = p3
  · rw [← or_assoc]
    exact iff_of_true (seqExact_of_no_terms htriv) (Or.inl htriv)
  · have h2 : p2 ≠ 0 := fun h => htriv (Or.inl h)
    have h13 : p1 ≠ p3 := fun h => htriv (Or.inr h)
    simp only [h2, h13, false_or]
    by_cases hmin : p2 = Int32.minValue ∧ p1 < p3
    · obtain ⟨rfl, hlt⟩ := hmin
      exact iff_of_false (not_seqExact_minStep hlt) (fun h => h.1 ⟨rfl, hlt⟩)
    · have hrun := (startState_starts h2 h13 hmin).fetches_iff (natAbs_toInt_le p2)
      simp only [IntSeq.term, IntSeq.count, startState, IntSeq.turnStep_start,
        IntSeq.turnStep_end] at hrun
      simp only [SeqExact, rows_three_iff, if_neg htriv, NoWrap, hmin, not_false_eq_true, true_and]
      exact hrun

end ThreeArguments

/-- `seq(1, 2147483647, 2)` has three rows, as the addition to the first wraps. -/
theorem seqExact_fails_on_wrap : ¬SeqExact 1 2147483647 2 none := by
  rintro ⟨rows, hrows, hterms⟩
  rw [rows_three_iff, if_neg (by decide)] at hrows
  have hrun : Fetches IntSeq.next (startState 1 2147483647 2)
      [some 1, some (-2147483648), some (-1)] :=
    .row rfl (.row rfl (.row rfl (.done rfl)))
  rw [hrows.unique hrun] at hterms
  exact absurd (congrArg List.length hterms) (by decide)

end UdrPak.Seq
