import Mathlib.Data.Rat.Floor
import Mathlib.Tactic.FieldSimp
import Mathlib.Tactic.Linarith
import Mathlib.Tactic.Positivity
import Mathlib.Tactic.Ring

/-!
# Decimal numbers

Rationals of a limited number of decimal digits, and how digits are cut off.
-/

namespace Decimal

/-- The rational has at most `w` digits, before or after the point. -/
def HasDigits (w : Nat) (q : ℚ) : Prop :=
  ∃ (m : Int) (k : Nat), m.natAbs < 10 ^ w ∧ k ≤ w ∧ q = m / 10 ^ k

/-- The rational, cut off towards zero after `k` digits behind the point. -/
def cut (k : Nat) (q : ℚ) : ℚ :=
  if 0 ≤ q then (⌊q * 10 ^ k⌋ : Int) / 10 ^ k else (⌈q * 10 ^ k⌉ : Int) / 10 ^ k

theorem hasDigits_iff {w : Nat} {q : ℚ} : HasDigits w q ↔
    ∃ k ∈ List.range (w + 1), (q * 10 ^ k).den = 1 ∧ (q * 10 ^ k).num.natAbs < 10 ^ w := by
  constructor
  · rintro ⟨m, k, hm, hk, rfl⟩
    have hscale : (m / 10 ^ k : ℚ) * 10 ^ k = m := by field_simp
    refine ⟨k, List.mem_range.mpr (Nat.lt_succ_of_le hk), ?_⟩
    rw [hscale]
    exact ⟨Rat.den_intCast m, by rwa [Rat.num_intCast]⟩
  · rintro ⟨k, hk, hden, hnum⟩
    refine ⟨(q * 10 ^ k).num, k, hnum, Nat.le_of_lt_succ (List.mem_range.mp hk), ?_⟩
    rw [Rat.coe_int_num_of_den_eq_one hden]
    field_simp

instance (w : Nat) (q : ℚ) : Decidable (HasDigits w q) := decidable_of_iff _ hasDigits_iff.symm

theorem hasDigits_int {w : Nat} {m : Int} (h : m.natAbs < 10 ^ w) : HasDigits w m :=
  ⟨m, 0, h, Nat.zero_le w, by simp⟩

theorem cut_of_digits (k : Nat) (m : Int) : cut k (m / 10 ^ k) = m / 10 ^ k := by
  have hscale : (m / 10 ^ k : ℚ) * 10 ^ k = m := by field_simp
  unfold cut
  split
  · rw [hscale, Int.floor_intCast]
  · rw [hscale, Int.ceil_intCast]

theorem cut_int (m : Int) : cut 0 m = m := by
  simpa using cut_of_digits 0 m

theorem cut_natCast (k j n : Nat) :
    cut k ((n : ℚ) / 10 ^ (k + j)) = ((n / 10 ^ j : Nat) : ℚ) / 10 ^ k := by
  have hnonneg : 0 ≤ (n : ℚ) / 10 ^ (k + j) := by positivity
  have hscale : (n : ℚ) / 10 ^ (k + j) * 10 ^ k = (n : ℚ) / ((10 ^ j : Nat) : ℚ) := by
    push_cast
    field_simp
    ring
  rw [cut, if_pos hnonneg, hscale, Rat.floor_natCast_div_natCast, ← Int.natCast_ediv,
    Int.cast_natCast]

/-! ## Cutting off adds no digits -/

theorem natAbs_cut_le {x : ℚ} {m : Int} {b : ℚ} (hb : 1 ≤ b) (h : x * b = m) :
    (if 0 ≤ x then ⌊x⌋ else ⌈x⌉).natAbs ≤ m.natAbs := by
  have hb0 : (0 : ℚ) < b := by linarith
  split
  · rename_i hx
    have hm : (0 : ℚ) ≤ m := by rw [← h]; positivity
    have hfloor : 0 ≤ ⌊x⌋ := Int.floor_nonneg.mpr hx
    have hle : (⌊x⌋ : ℚ) ≤ m := by
      calc (⌊x⌋ : ℚ) ≤ x := Int.floor_le x
        _ = x * 1 := (mul_one x).symm
        _ ≤ x * b := mul_le_mul_of_nonneg_left hb hx
        _ = m := h
    have hm' : 0 ≤ m := by exact_mod_cast hm
    have hle' : ⌊x⌋ ≤ m := by exact_mod_cast hle
    omega
  · rename_i hx
    have hx' : x ≤ 0 := le_of_lt (not_le.mp hx)
    have hceil : ⌈x⌉ ≤ 0 := Int.ceil_le.mpr (by simpa using hx')
    have hle : (m : ℚ) ≤ (⌈x⌉ : ℚ) := by
      calc (m : ℚ) = x * b := h.symm
        _ ≤ x * 1 := mul_le_mul_of_nonpos_left hb hx'
        _ = x := mul_one x
        _ ≤ ⌈x⌉ := Int.le_ceil x
    have hle' : m ≤ ⌈x⌉ := by exact_mod_cast hle
    omega

theorem hasDigits_cut {w : Nat} {q : ℚ} (k : Nat) (h : HasDigits w q) : HasDigits w (cut k q) := by
  obtain ⟨m, j, hm, hj, rfl⟩ := h
  rcases Nat.le_total j k with hjk | hkj
  · -- no digit is dropped
    obtain ⟨i, rfl⟩ := Nat.exists_eq_add_of_le hjk
    have hscale : (m / 10 ^ j : ℚ) = ((m * 10 ^ i : Int) : ℚ) / 10 ^ (j + i) := by
      push_cast
      field_simp
      ring
    have hcut : cut (j + i) (m / 10 ^ j : ℚ) = m / 10 ^ j := by
      rw [hscale]
      exact cut_of_digits (j + i) (m * 10 ^ i)
    rw [hcut]
    exact ⟨m, j, hm, hj, rfl⟩
  · obtain ⟨i, rfl⟩ := Nat.exists_eq_add_of_le hkj
    have hscale : (m / 10 ^ (k + i) : ℚ) * 10 ^ k * 10 ^ i = m := by
      field_simp
      ring
    have hone : (1 : ℚ) ≤ 10 ^ i := one_le_pow₀ (by norm_num)
    have hsign : 0 ≤ (m / 10 ^ (k + i) : ℚ) ↔ 0 ≤ (m / 10 ^ (k + i) : ℚ) * 10 ^ k :=
      (mul_nonneg_iff_of_pos_right (by positivity)).symm
    have hsmall := natAbs_cut_le hone hscale
    refine ⟨_, k, Nat.lt_of_le_of_lt hsmall hm, by omega, ?_⟩
    unfold cut
    simp only [hsign]
    split <;> rfl

end Decimal
