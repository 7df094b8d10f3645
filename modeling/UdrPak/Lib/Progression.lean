import Mathlib.Tactic.Ring

/-!
# Arithmetic progressions

The progression from `a` with steps of size `|b|`, as far as its terms lie strictly before `c`.
-/

namespace Progression

def stride (a b c : Int) : Int := if a ≤ c then b.natAbs else -b.natAbs

def term (a b c : Int) (k : Nat) : Int := a + k * stride a b c

/-- The quotient `|c - a| / |b|`, rounded up. -/
def count (a b c : Int) : Nat := ((c - a).natAbs + b.natAbs - 1) / b.natAbs

def terms (a b c : Int) : List Int := (List.range (count a b c)).map (term a b c)

variable {a b c : Int} {k : Nat}

@[simp] theorem length_terms : (terms a b c).length = count a b c := by simp [terms]

@[simp] theorem term_zero : term a b c 0 = a := by simp [term]

theorem term_succ : term a b c (k + 1) = term a b c k + stride a b c := by
  simp only [term, Int.natCast_add, Int.add_mul, Int.cast_ofNat_Int, Int.one_mul]
  omega

theorem stride_up (h : a < c) : stride a b c = b.natAbs := if_pos (by omega)

theorem stride_down (h : c < a) : stride a b c = -b.natAbs := if_neg (by omega)

theorem natAbs_stride : (stride a b c).natAbs = b.natAbs := by
  unfold stride
  split <;> omega

theorem stride_pos_iff (hb : b ≠ 0) (hac : a ≠ c) : 0 < stride a b c ↔ a < c := by
  have hpos : 0 < b.natAbs := Int.natAbs_pos.mpr hb
  rcases Int.lt_or_gt_of_ne hac with h | h
  · rw [stride_up h]
    omega
  · rw [stride_down h]
    omega

theorem lt_count_iff (hb : b ≠ 0) : k < count a b c ↔ k * b.natAbs < (c - a).natAbs := by
  have hpos : 0 < b.natAbs := Int.natAbs_pos.mpr hb
  rw [count, Nat.lt_iff_add_one_le, Nat.le_div_iff_mul_le hpos, Nat.add_mul]
  omega

theorem count_pos_iff : 0 < count a b c ↔ b ≠ 0 ∧ a ≠ c := by
  by_cases hb : b = 0
  · simp [count, hb]
  · rw [lt_count_iff hb]
    simp only [ne_eq, hb, not_false_eq_true, true_and]
    omega

theorem term_eq :
    term a b c k = if a ≤ c then a + (k * b.natAbs : Nat) else a - (k * b.natAbs : Nat) := by
  rw [term, stride]
  split
  · rw [Int.natCast_mul]
  · rw [Int.mul_neg, Int.natCast_mul]; omega

theorem term_before (hb : b ≠ 0) (h : k < count a b c) :
    (a < c ∧ a ≤ term a b c k ∧ term a b c k < c) ∨
      (c < a ∧ c < term a b c k ∧ term a b c k ≤ a) := by
  rw [lt_count_iff hb] at h
  rw [term_eq]
  split <;> omega

theorem term_count (hb : b ≠ 0) (hac : a ≠ c) :
    (a < c ∧ c ≤ term a b c (count a b c) ∧ term a b c (count a b c) < c + b.natAbs) ∨
      (c < a ∧ term a b c (count a b c) ≤ c ∧ c - b.natAbs < term a b c (count a b c)) := by
  have hpos : 0 < count a b c := count_pos_iff.mpr ⟨hb, hac⟩
  obtain ⟨m, hm⟩ : ∃ m, count a b c = m + 1 := ⟨count a b c - 1, by omega⟩
  have hend : ¬count a b c * b.natAbs < (c - a).natAbs := by
    rw [← lt_count_iff hb]; omega
  have hlast : m * b.natAbs < (c - a).natAbs := by
    rw [← lt_count_iff hb]; omega
  have hmul : (m + 1) * b.natAbs = m * b.natAbs + b.natAbs := Nat.succ_mul m b.natAbs
  rw [term_eq]
  rw [hm] at hend ⊢
  split <;> omega

end Progression
