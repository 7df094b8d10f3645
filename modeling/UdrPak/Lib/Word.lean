import Mathlib.Logic.Function.Iterate
import Mathlib.SetTheory.Cardinal.Finite
import Mathlib.Tactic.Ring

/-!
# Words

Operations on machine words that lose nothing.
-/

namespace Word

/-! ## Rotation -/

theorem rotateLeft_inj {w r : Nat} {x y : BitVec w} (h : x.rotateLeft r = y.rotateLeft r) :
    x = y := by
  apply BitVec.eq_of_getLsbD_eq
  intro j hj
  have hr : r % w < w := Nat.mod_lt r (by omega)
  by_cases hwrap : j + r % w < w
  · have hbit := congrArg (fun v => v.getLsbD (j + r % w)) h
    have hi : ¬j + r % w < r % w := by omega
    simpa [hi, hwrap, BitVec.getLsbD_eq_getElem hj] using hbit
  · have hbit := congrArg (fun v => v.getLsbD (j + r % w - w)) h
    have hi : j + r % w - w < r % w := by omega
    have hj' : w - r % w + (j + r % w - w) = j := by omega
    simpa [hi, hj'] using hbit

/-- Two rotations that make a full turn. -/
theorem rotateLeft_rotateLeft {w r s : Nat} (hr : 0 < r) (hs : 0 < s) (hw : r + s = w)
    (x : BitVec w) : (x.rotateLeft r).rotateLeft s = x := by
  apply BitVec.eq_of_getLsbD_eq
  intro i hi
  rw [BitVec.getLsbD_rotateLeft_of_le (by omega), BitVec.getLsbD_rotateLeft_of_le (by omega),
    BitVec.getLsbD_rotateLeft_of_le (by omega)]
  by_cases hwrap : i < s
  · have hge : ¬w - s + i < r := by omega
    have hlt : w - s + i < w := by omega
    have hbit : w - s + i - r = i := by omega
    simp [hwrap, hge, hlt, hbit]
  · have hlt : i - s < r := by omega
    have hbit : w - r + (i - s) = i := by omega
    simp [hwrap, hlt, hbit, hi]

theorem rotateLeft_xor {w r : Nat} (x y : BitVec w) :
    (x ^^^ y).rotateLeft r = x.rotateLeft r ^^^ y.rotateLeft r := by
  apply BitVec.eq_of_getLsbD_eq
  intro i hi
  simp only [BitVec.getLsbD_rotateLeft, BitVec.getLsbD_xor]
  by_cases hwrap : i < r % w <;> simp [hwrap, hi]

/-! ## Multiplication by a unit -/

theorem mul_right_inj_of_unit {a b c d : UInt64} (hunit : c * d = 1) (h : a * c = b * c) :
    a = b := by
  have hd := congrArg (· * d) h
  simpa only [UInt64.mul_assoc, hunit, UInt64.mul_one] using hd

/-! ## Xor -/

theorem xor_cancel_right (a b : UInt64) : a ^^^ b ^^^ b = a := by
  rw [UInt64.xor_assoc, UInt64.xor_self, UInt64.xor_zero]

theorem xor_cancel_left (a b : UInt64) : a ^^^ (a ^^^ b) = b := by
  rw [← UInt64.xor_assoc, UInt64.xor_self, UInt64.zero_xor]

/-! ## Xor with the own upper bits -/

theorem eq_zero_of_eq_shiftRight {x k : UInt64} (hk : 0 < k.toNat % 64) (h : x = x >>> k) :
    x = 0 := by
  have hnat := congrArg UInt64.toNat h
  rw [UInt64.toNat_shiftRight, Nat.shiftRight_eq_div_pow] at hnat
  have htwo : 2 ≤ 2 ^ (k.toNat % 64) := Nat.pow_le_pow_right (n := 2) (by omega) hk
  have hle : x.toNat / 2 ^ (k.toNat % 64) ≤ x.toNat / 2 := Nat.div_le_div_left htwo (by omega)
  exact UInt64.toNat_inj.mp (by rw [UInt64.toNat_zero]; omega)

theorem xorShiftRight_inj {x y k : UInt64} (hk : 0 < k.toNat % 64)
    (h : x ^^^ (x >>> k) = y ^^^ (y >>> k)) : x = y := by
  have hdiff : x ^^^ y = (x ^^^ y) >>> k := by
    rw [UInt64.shiftRight_xor, ← UInt64.xor_eq_zero_iff]
    have hswap : x ^^^ y ^^^ (x >>> k ^^^ y >>> k) = (x ^^^ x >>> k) ^^^ (y ^^^ y >>> k) := by
      ac_rfl
    rw [hswap, h, UInt64.xor_self]
  exact UInt64.xor_eq_zero_iff.mp (eq_zero_of_eq_shiftRight hk hdiff)

/-! ## Xor with the own lower bits -/

def xorShiftLeft {w : Nat} (k : Nat) (x : BitVec w) : BitVec w := x ^^^ (x <<< k)

section XorShiftLeft

variable {w k : Nat}

theorem xorShiftLeft_twice (x : BitVec w) :
    xorShiftLeft k (xorShiftLeft k x) = xorShiftLeft (2 * k) x := by
  simp only [xorShiftLeft, BitVec.shiftLeft_xor_distrib, ← BitVec.shiftLeft_add, ← Nat.two_mul]
  calc x ^^^ x <<< k ^^^ (x <<< k ^^^ x <<< (2 * k))
      = x ^^^ (x <<< k ^^^ x <<< k) ^^^ x <<< (2 * k) := by ac_rfl
    _ = x ^^^ x <<< (2 * k) := by rw [BitVec.xor_self, BitVec.xor_zero]

theorem xorShiftLeft_iterate (m : Nat) (x : BitVec w) :
    (xorShiftLeft k)^[2 ^ m] x = xorShiftLeft (2 ^ m * k) x := by
  induction m generalizing x with
  | zero => simp
  | succ m ih =>
      rw [pow_succ', Nat.two_mul, Function.iterate_add_apply, ih, ih, xorShiftLeft_twice,
        ← Nat.mul_assoc, ← Nat.two_mul]

/-- As many applications of the map as bring every bit out of the word do nothing. -/
theorem xorShiftLeft_iterate_of_le {m : Nat} (h : w ≤ 2 ^ m * k) (x : BitVec w) :
    (xorShiftLeft k)^[2 ^ m] x = x := by
  rw [xorShiftLeft_iterate, xorShiftLeft, BitVec.shiftLeft_eq_zero h, BitVec.xor_zero]

/-- The inverse of the map: one application less. -/
def xorUnshiftLeft (k m : Nat) (x : BitVec w) : BitVec w := (xorShiftLeft k)^[2 ^ m - 1] x

theorem xorUnshiftLeft_xorShiftLeft {m : Nat} (h : w ≤ 2 ^ m * k) (x : BitVec w) :
    xorUnshiftLeft k m (xorShiftLeft k x) = x := by
  have hpos : 2 ^ m - 1 + 1 = 2 ^ m := Nat.sub_add_cancel Nat.one_le_two_pow
  rw [xorUnshiftLeft, ← Function.iterate_succ_apply, Nat.succ_eq_add_one, hpos,
    xorShiftLeft_iterate_of_le h]

theorem xorShiftLeft_xorUnshiftLeft {m : Nat} (h : w ≤ 2 ^ m * k) (x : BitVec w) :
    xorShiftLeft k (xorUnshiftLeft k m x) = x := by
  have hpos : 2 ^ m - 1 + 1 = 2 ^ m := Nat.sub_add_cancel Nat.one_le_two_pow
  rw [xorUnshiftLeft, ← Function.iterate_succ_apply' (xorShiftLeft k), Nat.succ_eq_add_one, hpos,
    xorShiftLeft_iterate_of_le h]

end XorShiftLeft

/-! ## Signed words -/

theorem toNat_toUInt64 (x : Int64) : (x.toUInt64.toNat : Int) = x.toInt % 2 ^ 64 := by
  have hint : x.toInt = x.toBitVec.toInt := rfl
  have hnat : x.toUInt64.toNat = x.toBitVec.toNat := rfl
  have hlt := x.toBitVec.isLt
  rw [hint, hnat, BitVec.toInt_eq_toNat_cond]
  split <;> omega

/-! ## The number of words -/

def equivFin : UInt64 ≃ Fin (2 ^ 64) where
  toFun := UInt64.toFin
  invFun := UInt64.ofFin
  left_inv _ := rfl
  right_inv _ := rfl

instance finiteUInt64 : Finite UInt64 := Finite.of_equiv _ equivFin.symm

theorem card_uInt64 : Nat.card UInt64 = 2 ^ 64 := by
  rw [Nat.card_congr equivFin, Nat.card_fin]

/-! ## Fields -/

theorem shiftLeft_and (a k m : Nat) : a <<< k &&& m = (a &&& m >>> k) <<< k := by
  apply Nat.eq_of_testBit_eq
  intro i
  simp only [Nat.testBit_and, Nat.testBit_shiftLeft, Nat.testBit_shiftRight]
  by_cases h : k ≤ i
  · simp [h]
  · simp [h]

theorem shiftLeft_or {a b k : Nat} (h : b < 2 ^ k) : a <<< k ||| b = a * 2 ^ k + b := by
  rw [Nat.shiftLeft_eq, Nat.mul_comm, Nat.two_pow_add_eq_or_of_lt h]

theorem toNat_and_mask {x m : UInt64} {k : Nat} (h : m.toNat = 2 ^ k - 1) :
    (x &&& m).toNat = x.toNat % 2 ^ k := by
  rw [UInt64.toNat_and, h, Nat.and_two_pow_sub_one_eq_mod]

end Word
