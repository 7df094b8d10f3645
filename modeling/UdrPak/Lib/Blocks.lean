import Mathlib.Order.Basic

/-!
# Consecutive blocks

Numbers that are counted off in blocks of different lengths, as days are in months and years. Such
a number has a block and an offset in it, and the numbers are ordered as these are.
-/

namespace Blocks

variable {len : Nat → Nat} {b c i j n : Nat}

/-- How many numbers the blocks before a block have. -/
def start (len : Nat → Nat) : Nat → Nat
  | 0 => 0
  | b + 1 => start len b + len b

theorem start_mono (h : b ≤ c) : start len b ≤ start len c := by
  induction h with
  | refl => exact Nat.le_refl _
  | step _ ih => exact Nat.le_trans ih (Nat.le_add_right _ _)

theorem start_add_le (h : b < c) : start len b + len b ≤ start len c := start_mono h

theorem start_add_lt_iff (hi : i < len b) (hj : j < len c) :
    start len b + i < start len c + j ↔ b < c ∨ b = c ∧ i < j := by
  rcases Nat.lt_trichotomy b c with hlt | rfl | hgt
  · have hle := @start_add_le len _ _ hlt
    exact iff_of_true (by omega) (Or.inl hlt)
  · constructor
    · intro h
      exact Or.inr ⟨rfl, by omega⟩
    · rintro (h | ⟨-, h⟩) <;> omega
  · have hle := @start_add_le len _ _ hgt
    exact iff_of_false (by omega) (by omega)

/-- The block and the offset of the number `n` behind the start of block `b`, if one of the next
blocks has it. -/
def locate (len : Nat → Nat) : Nat → Nat → Nat → Nat × Nat
  | 0, b, n => (b, n)
  | fuel + 1, b, n => if n < len b then (b, n) else locate len fuel (b + 1) (n - len b)

theorem locate_spec {fuel : Nat} (h : start len b + n < start len (b + fuel)) :
    (locate len fuel b n).1 < b + fuel ∧
      (locate len fuel b n).2 < len (locate len fuel b n).1 ∧
      start len (locate len fuel b n).1 + (locate len fuel b n).2 = start len b + n := by
  induction fuel generalizing b n with
  | zero =>
      rw [Nat.add_zero] at h
      omega
  | succ fuel ih =>
      rw [locate]
      split
      · rename_i hlt
        exact ⟨by omega, hlt, rfl⟩
      · rename_i hge
        have hnext : start len (b + 1) = start len b + len b := rfl
        have hfuel : b + 1 + fuel = b + (fuel + 1) := by omega
        have hrest := @ih (b + 1) (n - len b) (by rw [hfuel]; omega)
        rw [hfuel] at hrest
        refine ⟨hrest.1, hrest.2.1, ?_⟩
        rw [hrest.2.2]
        omega

theorem exists_locate {count : Nat} (h : n < start len count) :
    ∃ b i, locate len count 0 n = (b, i) ∧ b < count ∧ i < len b ∧ start len b + i = n := by
  obtain ⟨hb, hi, hn⟩ := @locate_spec len 0 n count (by rwa [start, Nat.zero_add, Nat.zero_add])
  rw [Nat.zero_add] at hb
  rw [start, Nat.zero_add] at hn
  exact ⟨_, _, rfl, hb, hi, hn⟩

end Blocks
