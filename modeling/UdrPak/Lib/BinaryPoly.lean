import Mathlib.Algebra.Ring.Commute
import Mathlib.Data.Nat.Digits.Lemmas
import Mathlib.Data.Nat.ModEq

/-!
# Polynomials over two elements

A number holds a coefficient in every slot of `w + 1` bits. Only the lowest bit of a slot counts in
a ring where `2` is `0`, the other bits are room for sums. So one multiplication of numbers is a
multiplication of polynomials, as long as no slot overflows.
-/

namespace BinaryPoly

def slot (w : Nat) : Nat := 2 ^ (w + 1)

theorem one_lt_slot (w : Nat) : 1 < slot w := Nat.one_lt_two_pow (by omega)

theorem slot_pos (w : Nat) : 0 < slot w := Nat.two_pow_pos _

theorem two_dvd_slot (w : Nat) : 2 ∣ slot w := ⟨2 ^ w, pow_succ' 2 w⟩

theorem lt_slot_pow (w n : Nat) : n < slot w ^ n := Nat.lt_pow_self (one_lt_slot w)

theorem div_slot_lt {w n k : Nat} (h : n < slot w ^ (k + 1)) : n / slot w < slot w ^ k := by
  rw [pow_succ'] at h
  exact Nat.div_lt_of_lt_mul h

/-! ## Evaluation -/

section Eval

variable {R : Type} [Ring R] (w : Nat) (t : R)

/-- The value of the polynomial at `t`. -/
def eval (n : Nat) : R := Nat.ofDigits t (Nat.digits (slot w) n)

theorem eval_zero : eval w t 0 = 0 := by
  simp [eval, Nat.ofDigits]

theorem eval_eq (n : Nat) :
    eval w t n = ((n % slot w : Nat) : R) + t * eval w t (n / slot w) := by
  rcases Nat.eq_zero_or_pos n with rfl | hpos
  · simp [eval_zero]
  · rw [eval, Nat.digits_def' (one_lt_slot w) hpos]
    rfl

theorem eval_of_lt {n : Nat} (h : n < slot w) : eval w t n = n := by
  rw [eval_eq, Nat.mod_eq_of_lt h, Nat.div_eq_of_lt h, eval_zero, mul_zero, add_zero]

theorem eval_one : eval w t 1 = 1 := by
  rw [eval_of_lt w t (one_lt_slot w), Nat.cast_one]

theorem eval_slot_mul (n : Nat) : eval w t (slot w * n) = t * eval w t n := by
  rw [eval_eq, Nat.mul_mod_right, Nat.mul_div_cancel_left n (slot_pos w), Nat.cast_zero, zero_add]

theorem eval_slot : eval w t (slot w) = t := by
  have hmul := eval_slot_mul w t 1
  rwa [mul_one, eval_one, mul_one] at hmul

theorem eval_commute (n : Nat) : Commute (eval w t n) t := by
  have hlt : ∀ k n, n < slot w ^ k → Commute (eval w t n) t := by
    intro k
    induction k with
    | zero =>
        intro n hn
        rw [pow_zero, Nat.lt_one_iff] at hn
        rw [hn, eval_zero]
        exact Commute.zero_left t
    | succ k ih =>
        intro n hn
        rw [eval_eq]
        exact (Nat.cast_commute _ t).add_left
          ((Commute.refl t).mul_left (ih _ (div_slot_lt hn)))
  exact hlt n n (lt_slot_pow w n)

end Eval

/-! ## Sums and masks -/

/-- The lowest bit of each of the first `k` slots. -/
def mask (w : Nat) : Nat → Nat
  | 0 => 0
  | k + 1 => 1 + slot w * mask w k

section Parity

variable {R : Type} [Ring R] {w : Nat} (t : R)

theorem cast_mod_two (h2 : (2 : R) = 0) (n : Nat) : ((n % 2 : Nat) : R) = n := by
  have hsplit : ((n % 2 + 2 * (n / 2) : Nat) : R) = n := by rw [Nat.mod_add_div]
  rwa [Nat.cast_add, Nat.cast_mul, Nat.cast_two, h2, zero_mul, add_zero] at hsplit

theorem cast_mod_slot (h2 : (2 : R) = 0) (n : Nat) : ((n % slot w : Nat) : R) = n := by
  rw [← cast_mod_two h2, Nat.mod_mod_of_dvd n (two_dvd_slot w), cast_mod_two h2]

theorem cast_xor (h2 : (2 : R) = 0) (m n : Nat) : ((m ^^^ n : Nat) : R) = m + n := by
  have hparity : (m ^^^ n) % 2 = (m + n) % 2 := by
    have hone := Nat.xor_mod_two_eq_one (a := m) (b := n)
    omega
  rw [← cast_mod_two h2, hparity, cast_mod_two h2, Nat.cast_add]

theorem eval_xor (h2 : (2 : R) = 0) (m n : Nat) :
    eval w t (m ^^^ n) = eval w t m + eval w t n := by
  have hlt : ∀ k m n, m < slot w ^ k → n < slot w ^ k →
      eval w t (m ^^^ n) = eval w t m + eval w t n := by
    intro k
    induction k with
    | zero =>
        intro m n hm hn
        rw [pow_zero, Nat.lt_one_iff] at hm hn
        rw [hm, hn, Nat.xor_self, eval_zero, add_zero]
    | succ k ih =>
        intro m n hm hn
        have hdiv : (m ^^^ n) / slot w = m / slot w ^^^ n / slot w := Nat.xor_div_two_pow
        rw [eval_eq w t (m ^^^ n), eval_eq w t m, eval_eq w t n, hdiv,
          ih _ _ (div_slot_lt hm) (div_slot_lt hn), cast_mod_slot h2, cast_mod_slot h2,
          cast_mod_slot h2, cast_xor h2, mul_add, add_add_add_comm]
  have hle : max m n < slot w ^ max m n := lt_slot_pow w _
  exact hlt (max m n) m n (by omega) (by omega)

theorem eval_mask (h2 : (2 : R) = 0) {k n : Nat} (h : n < slot w ^ k) :
    eval w t (n &&& mask w k) = eval w t n := by
  induction k generalizing n with
  | zero =>
      rw [pow_zero, Nat.lt_one_iff] at h
      rw [h, Nat.zero_and]
  | succ k ih =>
      have hodd : mask w (k + 1) % 2 = 1 := by
        obtain ⟨c, hc⟩ := two_dvd_slot w
        rw [mask, hc, Nat.mul_assoc]
        omega
      have hparity : (n &&& mask w (k + 1)) % 2 = n % 2 := by
        have hone := Nat.and_mod_two_eq_one (a := n) (b := mask w (k + 1))
        omega
      have hdiv : (n &&& mask w (k + 1)) / slot w = n / slot w &&& mask w k := by
        have hmask : mask w (k + 1) / slot w = mask w k := by
          rw [mask, Nat.add_mul_div_left _ _ (slot_pos w), Nat.div_eq_of_lt (one_lt_slot w),
            Nat.zero_add]
        have hand : (n &&& mask w (k + 1)) / slot w = n / slot w &&& mask w (k + 1) / slot w :=
          Nat.and_div_two_pow
        rw [hand, hmask]
      rw [eval_eq w t n, eval_eq, hdiv, ih (div_slot_lt h), cast_mod_slot h2, cast_mod_slot h2,
        ← cast_mod_two h2, hparity, cast_mod_two h2]

end Parity

/-! ## Products -/

/-- No slot holds more than `k`. -/
def SlotsLe (w k n : Nat) : Prop := ∀ i, n / slot w ^ i % slot w ≤ k

section SlotsLe

variable {w : Nat}

theorem slotsLe_iff {k n : Nat} :
    SlotsLe w k n ↔ n % slot w ≤ k ∧ SlotsLe w k (n / slot w) := by
  have hsucc : ∀ i, n / slot w ^ (i + 1) = n / slot w / slot w ^ i := fun i => by
    rw [pow_succ', Nat.div_div_eq_div_mul]
  constructor
  · intro h
    refine ⟨by simpa using h 0, fun i => ?_⟩
    rw [← hsucc]
    exact h (i + 1)
  · rintro ⟨hlow, hhigh⟩ i
    cases i with
    | zero => simpa using hlow
    | succ i =>
        rw [hsucc]
        exact hhigh i

theorem slotsLe_zero (k : Nat) : SlotsLe w k 0 := fun i => by simp

theorem SlotsLe.slot_mul {k n : Nat} (h : SlotsLe w k n) : SlotsLe w k (slot w * n) := by
  rw [slotsLe_iff, Nat.mul_mod_right, Nat.mul_div_cancel_left n (slot_pos w)]
  exact ⟨Nat.zero_le k, h⟩

theorem slotsLe_one_iff {n : Nat} :
    SlotsLe w 1 n ↔ (n % slot w = 0 ∨ n % slot w = 1) ∧ SlotsLe w 1 (n / slot w) := by
  rw [slotsLe_iff, Nat.le_one_iff_eq_zero_or_eq_one]

theorem slotsLe_mask (k n : Nat) : SlotsLe w 1 (n &&& mask w k) := by
  induction k generalizing n with
  | zero =>
      rw [mask, Nat.and_zero]
      exact slotsLe_zero 1
  | succ k ih =>
      have hone : mask w (k + 1) % slot w = 1 := by
        rw [mask, Nat.add_mul_mod_self_left, Nat.mod_eq_of_lt (one_lt_slot w)]
      have hrest : mask w (k + 1) / slot w = mask w k := by
        rw [mask, Nat.add_mul_div_left _ _ (slot_pos w), Nat.div_eq_of_lt (one_lt_slot w),
          Nat.zero_add]
      have hlow : (n &&& mask w (k + 1)) % slot w = n % slot w &&& mask w (k + 1) % slot w :=
        Nat.and_mod_two_pow
      have hhigh : (n &&& mask w (k + 1)) / slot w = n / slot w &&& mask w (k + 1) / slot w :=
        Nat.and_div_two_pow
      rw [slotsLe_iff, hlow, hhigh, hone, hrest]
      exact ⟨Nat.and_le_right, ih _⟩

variable {R : Type} [Ring R] (t : R)

/-- Slots that do not overflow are added one by one. -/
theorem eval_add {k l m n : Nat} (hm : SlotsLe w k m) (hn : SlotsLe w l n)
    (hroom : k + l < slot w) :
    eval w t (m + n) = eval w t m + eval w t n ∧ SlotsLe w (k + l) (m + n) := by
  have hlt : ∀ j m n, m < slot w ^ j → n < slot w ^ j → SlotsLe w k m → SlotsLe w l n →
      eval w t (m + n) = eval w t m + eval w t n ∧ SlotsLe w (k + l) (m + n) := by
    intro j
    induction j with
    | zero =>
        intro m n hm hn _ _
        rw [pow_zero, Nat.lt_one_iff] at hm hn
        rw [hm, hn, Nat.add_zero, eval_zero, add_zero]
        exact ⟨rfl, slotsLe_zero _⟩
    | succ j ih =>
        intro m n hm hn hmk hnl
        rw [slotsLe_iff] at hmk hnl
        have hfits : m % slot w + n % slot w < slot w := by omega
        have hmod := Nat.add_mod_of_add_mod_lt hfits
        have hdiv := Nat.add_div_eq_of_add_mod_lt hfits
        obtain ⟨heval, hslots⟩ := ih _ _ (div_slot_lt hm) (div_slot_lt hn) hmk.2 hnl.2
        constructor
        · rw [eval_eq w t (m + n), eval_eq w t m, eval_eq w t n, hmod, hdiv, heval, Nat.cast_add,
            mul_add, add_add_add_comm]
        · rw [slotsLe_iff, hmod, hdiv]
          exact ⟨Nat.add_le_add hmk.1 hnl.1, hslots⟩
  have hle : max m n < slot w ^ max m n := lt_slot_pow w _
  exact hlt (max m n) m n (by omega) (by omega) hm hn

/-- A slot of the product of two numbers with bits in their slots sums up at most as many bits as
the first number has slots. -/
theorem eval_mul {k m n : Nat} (hk : m < slot w ^ k) (hroom : k < slot w) (hm : SlotsLe w 1 m)
    (hn : SlotsLe w 1 n) :
    eval w t (m * n) = eval w t m * eval w t n ∧ SlotsLe w k (m * n) := by
  induction k generalizing m with
  | zero =>
      rw [pow_zero, Nat.lt_one_iff] at hk
      rw [hk, Nat.zero_mul, eval_zero, zero_mul]
      exact ⟨rfl, slotsLe_zero 0⟩
  | succ k ih =>
      obtain ⟨hlow, hhigh⟩ := slotsLe_one_iff.mp hm
      obtain ⟨heval, hslots⟩ := ih (div_slot_lt hk) (by omega) hhigh
      have hsplit : m * n = slot w * (m / slot w * n) + m % slot w * n := by
        conv_lhs => rw [← Nat.div_add_mod m (slot w)]
        rw [Nat.add_mul, Nat.mul_assoc]
      have hdigit : eval w t (m % slot w * n) = ((m % slot w : Nat) : R) * eval w t n ∧
          SlotsLe w 1 (m % slot w * n) := by
        rcases hlow with hlow | hlow
        · rw [hlow, Nat.zero_mul, eval_zero, Nat.cast_zero, zero_mul]
          exact ⟨rfl, slotsLe_zero 1⟩
        · rw [hlow, Nat.one_mul, Nat.cast_one, one_mul]
          exact ⟨rfl, hn⟩
      obtain ⟨hsum, hbound⟩ := eval_add t hslots.slot_mul hdigit.2 hroom
      rw [hsplit]
      refine ⟨?_, hbound⟩
      rw [hsum, eval_slot_mul, heval, hdigit.1, eval_eq w t m, add_mul, mul_assoc, add_comm]

end SlotsLe

end BinaryPoly
