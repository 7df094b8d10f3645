import Mathlib.Tactic.Ring
import Mathlib.Data.List.Forall2

/-!
# Mixed radix

A number with a leading part of any size and lower digits, each in a base of its own. Such numbers
are ordered as their digits are, and the digits can be read back.
-/

namespace Radix

variable {bs ds es : List Nat} {b d e m n : Nat}

/-- The number with the leading part `n` and the digits `ds` in the bases `bs`. -/
def pack : List Nat → Nat → List Nat → Nat
  | b :: bs, n, d :: ds => pack bs (n * b + d) ds
  | _, n, _ => n

/-- The leading part and the digits of a number. -/
def unpack : List Nat → Nat → Nat × List Nat
  | [], n => (n, [])
  | b :: bs, n =>
      let (m, ds) := unpack bs n
      (m / b, m % b :: ds)

/-- There is a digit for each base, and it is below the base. -/
abbrev Digits (bs ds : List Nat) : Prop := List.Forall₂ (fun b d => d < b) bs ds

/-! ## One digit -/

theorem mul_add_lt_iff (hd : d < b) (he : e < b) :
    m * b + d < n * b + e ↔ m < n ∨ m = n ∧ d < e := by
  constructor
  · intro h
    rcases Nat.lt_trichotomy m n with hlt | rfl | hgt
    · exact Or.inl hlt
    · exact Or.inr ⟨rfl, by omega⟩
    · have hmul : (n + 1) * b ≤ m * b := Nat.mul_le_mul_right b hgt
      rw [Nat.succ_mul] at hmul
      omega
  · rintro (hlt | ⟨rfl, hlt⟩)
    · have hmul : (m + 1) * b ≤ n * b := Nat.mul_le_mul_right b hlt
      rw [Nat.succ_mul] at hmul
      omega
    · omega

theorem mul_add_eq_iff (hd : d < b) (he : e < b) : m * b + d = n * b + e ↔ m = n ∧ d = e := by
  constructor
  · intro h
    have hnot := mt (mul_add_lt_iff (m := m) (n := n) hd he).mpr (by omega)
    have hnot' := mt (mul_add_lt_iff (m := n) (n := m) he hd).mpr (by omega)
    omega
  · rintro ⟨rfl, rfl⟩
    rfl

theorem mul_add_div_of_lt (hd : d < b) : (n * b + d) / b = n := by
  rw [Nat.mul_comm, Nat.mul_add_div (Nat.zero_lt_of_lt hd), Nat.div_eq_of_lt hd, Nat.add_zero]

theorem mul_add_mod_of_lt (hd : d < b) : (n * b + d) % b = d := by
  rw [Nat.mul_add_mod_self_right, Nat.mod_eq_of_lt hd]

/-! ## All digits -/

theorem pack_lt_iff (hd : Digits bs ds) (he : Digits bs es) :
    pack bs m ds < pack bs n es ↔ m < n ∨ m = n ∧ ds < es := by
  induction hd generalizing m n es with
  | nil =>
      cases he with
      | nil => simp [pack]
  | cons hd _ ih =>
      cases he with
      | cons he hes =>
          rw [pack, pack, ih hes, mul_add_lt_iff hd he, mul_add_eq_iff hd he,
            List.cons_lt_cons_iff]
          tauto

theorem pack_inj (hd : Digits bs ds) (he : Digits bs es) :
    pack bs m ds = pack bs n es ↔ m = n ∧ ds = es := by
  induction hd generalizing m n es with
  | nil =>
      cases he with
      | nil => simp [pack]
  | cons hd _ ih =>
      cases he with
      | cons he hes =>
          rw [pack, pack, ih hes, mul_add_eq_iff hd he, List.cons.injEq, and_assoc]

theorem unpack_pack (hd : Digits bs ds) : unpack bs (pack bs n ds) = (n, ds) := by
  induction hd generalizing n with
  | nil => rfl
  | cons hd _ ih =>
      rw [pack, unpack, ih]
      simp only [mul_add_div_of_lt hd, mul_add_mod_of_lt hd]

end Radix
