import Mathlib.Algebra.Module.Defs
import UdrPak.Lib.BinaryPoly

/-!
# Powers modulo a polynomial

Where a polynomial in `t` takes a vector to zero, a power of `t` acts on the vector as its remainder
modulo the polynomial does. Repeated squaring computes the remainder.
-/

namespace BinaryPoly

/-! ## Packed polynomials -/

/-- Single bits in `k` slots: a polynomial of a degree below `k`. -/
structure Packed (w k n : Nat) : Prop where
  lt : n < slot w ^ k
  slots : SlotsLe w 1 n

section Packed

variable {w : Nat}

theorem mask_lt (k : Nat) : mask w k < slot w ^ k := by
  induction k with
  | zero => exact Nat.one_pos
  | succ k ih =>
      have hstep : 1 + slot w * mask w k < slot w * (mask w k + 1) := by
        rw [Nat.mul_add, Nat.mul_one, Nat.add_comm]
        exact Nat.add_lt_add_left (one_lt_slot w) _
      rw [mask, pow_succ']
      exact Nat.lt_of_lt_of_le hstep (Nat.mul_le_mul_left _ ih)

theorem packed_and_mask (k n : Nat) : Packed w k (n &&& mask w k) where
  lt := Nat.lt_of_le_of_lt Nat.and_le_right (mask_lt k)
  slots := slotsLe_mask k n

theorem packed_one {k : Nat} (h : 0 < k) : Packed w k 1 where
  lt := Nat.one_lt_pow (Nat.ne_of_gt h) (one_lt_slot w)
  slots := by
    rw [slotsLe_iff, Nat.div_eq_of_lt (one_lt_slot w)]
    exact ⟨Nat.mod_le 1 _, slotsLe_zero 1⟩

theorem packed_slot {k : Nat} (h : 1 < k) : Packed w k (slot w) where
  lt := by
    have hpow : slot w ^ 1 < slot w ^ k := Nat.pow_lt_pow_right (one_lt_slot w) h
    rwa [pow_one] at hpow
  slots := by
    have hmul := (packed_one (w := w) Nat.one_pos).slots.slot_mul
    rwa [Nat.mul_one] at hmul

theorem SlotsLe.xor {m n : Nat} (hm : SlotsLe w 1 m) (hn : SlotsLe w 1 n) :
    SlotsLe w 1 (m ^^^ n) := by
  intro i
  have hdiv : (m ^^^ n) / slot w ^ i = m / slot w ^ i ^^^ n / slot w ^ i := by
    rw [slot, ← pow_mul]
    exact Nat.xor_div_two_pow
  have hmod : (m / slot w ^ i ^^^ n / slot w ^ i) % slot w =
      m / slot w ^ i % slot w ^^^ n / slot w ^ i % slot w := Nat.xor_mod_two_pow
  have hlt : m / slot w ^ i % slot w ^^^ n / slot w ^ i % slot w < 2 ^ 1 :=
    Nat.xor_lt_two_pow (Nat.lt_succ_of_le (hm i)) (Nat.lt_succ_of_le (hn i))
  rw [hdiv, hmod]
  omega

variable {R : Type} [Ring R] {t : R} {k l m n : Nat}

/-- Multiply, and keep the parity of every slot. -/
theorem Packed.eval_mul (h2 : (2 : R) = 0) (hm : Packed w k m) (hn : Packed w l n)
    (hroom : k < slot w) :
    eval w t (m * n &&& mask w (k + l)) = eval w t m * eval w t n := by
  have hlt : m * n < slot w ^ (k + l) := by
    rw [pow_add]
    exact Nat.mul_lt_mul_of_lt_of_le hm.lt (Nat.le_of_lt hn.lt) (Nat.pow_pos (slot_pos w))
  rw [eval_mask t h2 hlt]
  exact (BinaryPoly.eval_mul t hm.lt hroom hm.slots hn.slots).1

end Packed

/-! ## Bits -/

/-- The bits, the lowest first, each in its slot. -/
def ofBits (w : Nat) : List Bool → Nat
  | [] => 0
  | b :: bits => b.toNat + slot w * ofBits w bits

/-- The coefficients of a polynomial that is written as the number of its bits. -/
def bitsOf (k n : Nat) : List Bool := (List.range k).map n.testBit

section Bits

variable {w : Nat}

theorem ofBits_mod (b : Bool) (bits : List Bool) : ofBits w (b :: bits) % slot w = b.toNat := by
  have hlt : b.toNat < slot w := Nat.lt_of_le_of_lt (Bool.toNat_le b) (one_lt_slot w)
  rw [ofBits, Nat.add_mul_mod_self_left, Nat.mod_eq_of_lt hlt]

theorem ofBits_div (b : Bool) (bits : List Bool) :
    ofBits w (b :: bits) / slot w = ofBits w bits := by
  have hlt : b.toNat < slot w := Nat.lt_of_le_of_lt (Bool.toNat_le b) (one_lt_slot w)
  rw [ofBits, Nat.add_mul_div_left _ _ (slot_pos w), Nat.div_eq_of_lt hlt, Nat.zero_add]

theorem packed_ofBits (bits : List Bool) : Packed w bits.length (ofBits w bits) := by
  induction bits with
  | nil => exact ⟨Nat.one_pos, slotsLe_zero 1⟩
  | cons b bits ih =>
      constructor
      · have hstep : b.toNat + slot w * ofBits w bits < slot w * (ofBits w bits + 1) := by
          rw [Nat.mul_add, Nat.mul_one, Nat.add_comm]
          exact Nat.add_lt_add_left (Nat.lt_of_le_of_lt (Bool.toNat_le b) (one_lt_slot w)) _
        rw [ofBits, List.length_cons, pow_succ']
        exact Nat.lt_of_lt_of_le hstep (Nat.mul_le_mul_left _ ih.lt)
      · rw [slotsLe_iff, ofBits_mod, ofBits_div]
        exact ⟨Bool.toNat_le b, ih.slots⟩

theorem packed_bitsOf (k n : Nat) : Packed w k (ofBits w (bitsOf k n)) := by
  have hlen : (bitsOf k n).length = k := by rw [bitsOf, List.length_map, List.length_range]
  have hpacked := packed_ofBits (w := w) (bitsOf k n)
  rwa [hlen] at hpacked

variable {R M : Type} [Ring R] [AddCommGroup M] [Module R M]

/-- One pass over the bits sums up the powers that the set bits stand for. -/
theorem foldl_bits (t : R) (bits : List Bool) (acc v : M) :
    bits.foldl (fun p b => (if b then p.1 + p.2 else p.1, t • p.2)) (acc, v) =
      (acc + eval w t (ofBits w bits) • v, t ^ bits.length • v) := by
  induction bits generalizing acc v with
  | nil => simp [ofBits, eval_zero]
  | cons b bits ih =>
      have hsum : eval w t (ofBits w (b :: bits)) • v =
          (if b then v else 0) + eval w t (ofBits w bits) • t • v := by
        rw [eval_eq, ofBits_mod, ofBits_div, add_smul, ← (eval_commute w t _).eq, mul_smul]
        cases b <;> simp
      rw [List.foldl_cons, ih, hsum, List.length_cons, pow_succ, mul_smul]
      cases b <;> simp [add_assoc]

end Bits

/-! ## Application to a vector -/

/-- The polynomial in `f`, applied by the rule of Horner. -/
def apply {M : Type} [Add M] [Zero M] (w : Nat) (f : M → M) : Nat → Nat → M → M
  | 0, _, _ => 0
  | k + 1, n, v => (if n % 2 = 1 then v else 0) + f (apply w f k (n / slot w) v)

theorem apply_eq {R M : Type} [Ring R] [AddCommGroup M] [Module R M] {w : Nat} {t : R}
    (h2 : (2 : R) = 0) {k n : Nat} (h : n < slot w ^ k) (v : M) :
    apply w (t • ·) k n v = eval w t n • v := by
  induction k generalizing n with
  | zero =>
      rw [pow_zero, Nat.lt_one_iff] at h
      rw [h, apply, eval_zero, zero_smul]
  | succ k ih =>
      have hbit : (if n % 2 = 1 then v else 0) = ((n % slot w : Nat) : R) • v := by
        rw [cast_mod_slot h2, ← cast_mod_two h2]
        rcases Nat.mod_two_eq_zero_or_one n with hn | hn <;> simp [hn]
      rw [apply, ih (div_slot_lt h), hbit, eval_eq w t n, add_smul, mul_smul]

/-! ## Remainders -/

/-- A polynomial of the given degree, and the quotient of `x ^ (2 * degree)` by it. -/
structure Modulus where
  width : Nat
  degree : Nat
  poly : Nat
  recip : Nat

namespace Modulus

structure Valid (m : Modulus) : Prop where
  room : m.degree + 1 < slot m.width
  degree : 1 < m.degree
  poly : Packed m.width (m.degree + 1) m.poly

/-- The product with a multiple of the modulus taken off. Any multiple is right, the reciprocal finds
the one that leaves a remainder. -/
def mulMod (m : Modulus) (a b : Nat) : Option Nat :=
  let p := a * b &&& mask m.width (m.degree + m.degree)
  let q := p / slot m.width ^ m.degree * m.recip / slot m.width ^ m.degree &&&
    mask m.width (m.degree + 1)
  let r := p ^^^ (q * m.poly &&& mask m.width (m.degree + 1 + (m.degree + 1)))
  if r < slot m.width ^ m.degree then some r else none

/-- The remainder of `x ^ e`, where `e` has as many bits as the first argument says. -/
def powMod (m : Modulus) : Nat → Nat → Option Nat
  | 0, _ => some 1
  | k + 1, e => do
      let r ← powMod m k (e / 2)
      let s ← mulMod m r r
      if e % 2 = 1 then mulMod m s (slot m.width) else some s

section Represents

variable {R M : Type} [Ring R] [AddCommGroup M] [Module R M]

/-- On the vector the polynomial acts as the power. -/
structure Represents (m : Modulus) (t : R) (v : M) (e n : Nat) : Prop where
  packed : Packed m.width m.degree n
  smul : eval m.width t n • v = t ^ e • v

variable {m : Modulus} {t : R} {v : M}

theorem represents_one (hm : m.Valid) : m.Represents t v 0 1 where
  packed := packed_one (Nat.lt_of_succ_lt hm.degree)
  smul := by rw [eval_one, pow_zero]

theorem represents_slot (hm : m.Valid) : m.Represents t v 1 (slot m.width) where
  packed := packed_slot hm.degree
  smul := by rw [eval_slot, pow_one]

theorem Represents.mulMod (h2 : (2 : R) = 0) (hm : m.Valid)
    (hzero : eval m.width t m.poly • v = 0) {a b e f r : Nat} (ha : m.Represents t v e a)
    (hb : m.Represents t v f b) (h : m.mulMod a b = some r) : m.Represents t v (e + f) r := by
  simp only [Modulus.mulMod] at h
  generalize hq : (a * b &&& mask m.width (m.degree + m.degree)) / slot m.width ^ m.degree *
    m.recip / slot m.width ^ m.degree &&& mask m.width (m.degree + 1) = q at h
  have hpacked : Packed m.width (m.degree + 1) q := hq ▸ packed_and_mask _ _
  split at h
  · rename_i hlt
    cases h
    have hmul := ha.packed.eval_mul (t := t) h2 hb.packed (Nat.lt_of_succ_lt hm.room)
    have hoff := hpacked.eval_mul (t := t) h2 hm.poly hm.room
    have hcomm : Commute (eval m.width t a) (t ^ f) := (eval_commute m.width t a).pow_right f
    refine ⟨⟨hlt, (packed_and_mask _ _).slots.xor (packed_and_mask _ _).slots⟩, ?_⟩
    rw [eval_xor t h2, hmul, hoff, add_smul, mul_smul, mul_smul, hzero, smul_zero, add_zero,
      hb.smul, ← mul_smul, hcomm.eq, mul_smul, ha.smul, ← mul_smul, ← pow_add, Nat.add_comm f e]
  · cases h

/-- The remainder that is computed acts as the power. -/
theorem powMod_represents (h2 : (2 : R) = 0) (hm : m.Valid)
    (hzero : eval m.width t m.poly • v = 0) {k e n : Nat} (hk : e < 2 ^ k)
    (h : m.powMod k e = some n) : m.Represents t v e n := by
  induction k generalizing e n with
  | zero =>
      rw [pow_zero, Nat.lt_one_iff] at hk
      cases h
      exact hk ▸ represents_one hm
  | succ k ih =>
      simp only [powMod, Option.bind_eq_bind, Option.bind_eq_some_iff] at h
      obtain ⟨r, hr, s, hs, hlast⟩ := h
      have hhalf := ih (Nat.div_lt_of_lt_mul (by rwa [← pow_succ'])) hr
      have hsquare := hhalf.mulMod h2 hm hzero hhalf hs
      split at hlast
      · have hnext := hsquare.mulMod h2 hm hzero (represents_slot hm) hlast
        have he : e / 2 + e / 2 + 1 = e := by omega
        rwa [he] at hnext
      · cases hlast
        have he : e / 2 + e / 2 = e := by omega
        rwa [he] at hsquare

end Represents

end Modulus

end BinaryPoly
