import UdrPak.Lib.Progression
import UdrPak.Seq.Lemmas.State

/-!
# The progress of a sequence

A state whose step has the size and the direction of an arithmetic progression walks through the
terms of the progression, up to the term that reaches the end. That term need not fit a machine
integer.
-/

namespace UdrPak.Seq

open Host Cursor Progression

/-- The number is one of a machine integer. -/
def Fits (n : Int) : Prop := -2 ^ 31 ≤ n ∧ n < 2 ^ 31

instance (n : Int) : Decidable (Fits n) := by unfold Fits; infer_instance

theorem fits_toInt (v : Int32) : Fits v.toInt := ⟨v.le_toInt, v.toInt_lt⟩

theorem bmod_cases (n : Int) :
    (Fits n → n.bmod (2 ^ 32) = n) ∧
      (2 ^ 31 ≤ n → n < 3 * 2 ^ 31 → n.bmod (2 ^ 32) = n - 2 ^ 32) ∧
      (n < -2 ^ 31 → -3 * 2 ^ 31 ≤ n → n.bmod (2 ^ 32) = n + 2 ^ 32) := by
  simp only [Fits, Int.bmod, Nat.reducePow]
  omega

theorem toInt_ofInt {n : Int} (h : Fits n) : (Int32.ofInt n).toInt = n :=
  Int32.toInt_ofInt_of_le h.1 h.2

/-! ## Turning the step -/

theorem natAbs_toInt_le (v : Int32) : v.toInt.natAbs ≤ 2 ^ 31 := by
  have hlow := v.le_toInt
  have hhigh := v.toInt_lt
  omega

theorem toInt_mul_neg_one {v : Int32} (h : v ≠ Int32.minValue) : (v * -1).toInt = -v.toInt := by
  have hv : v.toInt ≠ -2 ^ 31 := fun hv => h (Int32.toInt_inj.mp hv)
  have hlow := v.le_toInt
  have hhigh := v.toInt_lt
  have hone : (-1 : Int32).toInt = -1 := rfl
  rw [Int32.toInt_mul, hone]
  have hmod := (bmod_cases (v.toInt * -1)).1
  simp only [Fits] at hmod
  omega

/-- The step keeps its size and gets the direction of the end, unless it has to be turned and has no
negation. -/
theorem IntSeq.turnStep_step {s : IntSeq} (hapart : s.start.toInt ≠ s.end_.toInt)
    (hmin : ¬(s.step = Int32.minValue ∧ s.start < s.end_)) :
    s.turnStep.step.toInt = stride s.start.toInt s.step.toInt s.end_.toInt := by
  have hneg : s.step ≠ Int32.minValue → (s.step * -1).toInt = -s.step.toInt := toInt_mul_neg_one
  have hminlt : s.step = Int32.minValue → s.step.toInt < 0 := by
    intro h
    rw [h]
    decide
  simp only [turnStep, gt_iff_lt, Int32.lt_iff_toInt_lt, Int32.toInt_zero] at hmin ⊢
  rcases Int.lt_or_gt_of_ne hapart with hlt | hgt
  · -- upwards: a negative step is turned
    rw [if_neg (by omega), stride_up hlt]
    by_cases hturn : s.step.toInt < 0
    · rw [if_pos ⟨hlt, hturn⟩, hneg fun h => hmin ⟨h, hlt⟩]
      omega
    · rw [if_neg (by omega)]
      omega
  · -- downwards: a positive step is turned, and has a negation
    rw [stride_down hgt]
    by_cases hturn : 0 < s.step.toInt
    · rw [if_pos ⟨hgt, hturn⟩, hneg (by intro h; have := hminlt h; omega)]
      omega
    · rw [if_neg (by omega), if_neg (by omega)]
      omega

theorem IntSeq.turnStep_minStep {s : IntSeq} (hmin : s.step = Int32.minValue)
    (hlt : s.start < s.end_) : s.turnStep = s := by
  have hdown : Int32.minValue < 0 := by decide
  have hneg : Int32.minValue * -1 = Int32.minValue := by decide
  rw [turnStep, if_neg (fun h => Int32.lt_irrefl (Int32.lt_trans h.1 hlt)), hmin,
    if_pos ⟨hlt, hdown⟩, hneg, ← hmin]

/-! ## The terms -/

/-- The state starts a progression with steps of size `|b|`. -/
structure IntSeq.Starts (s : IntSeq) (b : Int) : Prop where
  now : s.now = s.start
  size : b ≠ 0
  apart : s.start.toInt ≠ s.end_.toInt
  step : s.step.toInt = stride s.start.toInt b s.end_.toInt

def IntSeq.term (s : IntSeq) (b : Int) (k : Nat) : Int :=
  Progression.term s.start.toInt b s.end_.toInt k

def IntSeq.count (s : IntSeq) (b : Int) : Nat := Progression.count s.start.toInt b s.end_.toInt

def IntSeq.after (s : IntSeq) (b : Int) (k : Nat) : IntSeq :=
  { s with now := Int32.ofInt (s.term b k) }

namespace IntSeq.Starts

variable {s : IntSeq} {b : Int} {k : Nat}

theorem after_zero (h : s.Starts b) : s.after b 0 = s := by
  have hnow : Int32.ofInt (s.term b 0) = s.now := by
    rw [IntSeq.term, term_zero, Int32.ofInt_toInt, h.now]
  rw [IntSeq.after, hnow]

theorem after_succ (h : s.Starts b) :
    { s.after b k with now := (s.after b k).now + (s.after b k).step } = s.after b (k + 1) := by
  have hnow : Int32.ofInt (s.term b k) + s.step = Int32.ofInt (s.term b (k + 1)) := by
    rw [IntSeq.term, IntSeq.term, term_succ, Int32.ofInt_add, ← h.step, Int32.ofInt_toInt]
  simp only [IntSeq.after, hnow]

theorem fits_term (h : s.Starts b) (hk : k < s.count b) : Fits (s.term b k) := by
  have hbefore := term_before h.size hk
  have hstart := fits_toInt s.start
  have hend := fits_toInt s.end_
  simp only [Fits, IntSeq.term] at hbefore hstart hend ⊢
  omega

theorem atEnd_iff_reached (h : s.Starts b) :
    (s.after b k).AtEnd ↔
      (s.start.toInt < s.end_.toInt ∧ s.end_.toInt ≤ (s.after b k).now.toInt) ∨
        (s.end_.toInt < s.start.toInt ∧ (s.after b k).now.toInt ≤ s.end_.toInt) := by
  have hsize := Int.natAbs_pos.mpr h.size
  have hstep := h.step
  simp only [IntSeq.AtEnd, IntSeq.after]
  rcases Int.lt_or_gt_of_ne h.apart with hlt | hgt
  · rw [stride_up hlt] at hstep
    omega
  · rw [stride_down hgt] at hstep
    omega

theorem next_after (h : s.Starts b) (hk : k < s.count b) :
    (s.after b k).next = some (some (Int32.ofInt (s.term b k)), s.after b (k + 1)) := by
  have hbefore := term_before h.size hk
  have hnow : (s.after b k).now.toInt = s.term b k := toInt_ofInt (h.fits_term hk)
  have hend : ¬(s.after b k).AtEnd := by
    rw [h.atEnd_iff_reached, hnow]
    simp only [IntSeq.term]
    omega
  rw [IntSeq.next, if_neg hend, h.after_succ]
  rfl

/-- The term that reaches the end ends the run if it fits. A term that does not fit wraps to the
far side of the end. -/
theorem next_after_count (h : s.Starts b) (hb : b.natAbs ≤ 2 ^ 31) :
    (s.after b (s.count b)).next = none ↔ Fits (s.term b (s.count b)) := by
  have hreached := term_count h.size h.apart
  have hstart := fits_toInt s.start
  have hend := fits_toInt s.end_
  have hnow : (s.after b (s.count b)).now.toInt = (s.term b (s.count b)).bmod (2 ^ 32) :=
    Int32.toInt_ofInt
  rw [IntSeq.next]
  simp only [ite_eq_left_iff, reduceCtorEq, imp_false, Decidable.not_not, h.atEnd_iff_reached, hnow]
  simp only [IntSeq.term, IntSeq.count]
  generalize Progression.term s.start.toInt b s.end_.toInt
    (Progression.count s.start.toInt b s.end_.toInt) = t at hreached ⊢
  -- a term that does not fit is less than one step past the end, so it wraps once
  have hmod := bmod_cases t
  simp only [Fits] at hstart hend hmod ⊢
  omega

theorem fetches_iff (h : s.Starts b) (hb : b.natAbs ≤ 2 ^ 31) :
    (∃ rows, Fetches IntSeq.next s rows ∧ rows.map (Option.map Int32.toInt) =
      (terms s.start.toInt b s.end_.toInt).map some) ↔ Fits (s.term b (s.count b)) := by
  have hrow : ∀ k < s.count b, (s.after b k).next =
      some (some (Int32.ofInt (s.term b k)), s.after b (k + 1)) := fun k hk => h.next_after hk
  have htrace := fetches_trace_iff hrow
  rw [h.after_zero] at htrace
  rw [← h.next_after_count hb, ← htrace]
  constructor
  · rintro ⟨rows, hrows, hterms⟩
    rw [← h.after_zero] at hrows
    obtain ⟨rest, rfl, hrest⟩ := hrows.along_trace hrow
    have hlen := congrArg List.length hterms
    simp only [List.length_map, List.length_append, List.length_range, length_terms] at hlen
    -- no row is left after the terms, so the state after them is at its end
    have hnil : rest = [] := List.length_eq_zero_iff.mp (by unfold IntSeq.count at hlen; omega)
    rw [h.after_zero] at hrows
    rwa [hnil, List.append_nil] at hrows
  · intro hrows
    refine ⟨_, hrows, ?_⟩
    simp only [terms, List.map_map]
    refine List.map_congr_left fun k hk => ?_
    exact congrArg some (toInt_ofInt (h.fits_term (List.mem_range.mp hk)))

end IntSeq.Starts

end UdrPak.Seq
