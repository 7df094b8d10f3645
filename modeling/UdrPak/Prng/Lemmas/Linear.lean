import Mathlib.Algebra.Module.Hom
import UdrPak.Lib.BinaryPower
import UdrPak.Lib.Orbit
import UdrPak.Prng.Lemmas.Words

/-!
# The step as a linear map

The words form a group under xor in which everything is its own negative, and the step of the
generators respects it. A jump applies a polynomial in the step.
-/

namespace UdrPak.Prng

open BinaryPoly

/-! ## The group of the words -/

section Group

theorem Words.xor_assoc (a b c : Words) : (a.xor b).xor c = a.xor (b.xor c) := by
  simp only [Words.xor, UInt64.xor_assoc]

theorem Words.xor_comm (a b : Words) : a.xor b = b.xor a := by
  simp only [Words.xor, UInt64.xor_comm]

theorem Words.xor_self (a : Words) : a.xor a = ⟨0, 0, 0, 0⟩ := by
  simp only [Words.xor, UInt64.xor_self]

theorem Words.xor_zero (a : Words) : a.xor ⟨0, 0, 0, 0⟩ = a := by
  simp only [Words.xor, UInt64.xor_zero]

theorem Words.zero_xor (a : Words) : Words.xor ⟨0, 0, 0, 0⟩ a = a := by
  simp only [Words.xor, UInt64.zero_xor]

instance : Zero Words := ⟨⟨0, 0, 0, 0⟩⟩

instance : Add Words := ⟨Words.xor⟩

instance : Neg Words := ⟨id⟩

instance : AddCommGroup Words where
  add_assoc := Words.xor_assoc
  zero_add := Words.zero_xor
  add_zero := Words.xor_zero
  nsmul := nsmulRec
  zsmul := zsmulRec
  neg_add_cancel := Words.xor_self
  add_comm := Words.xor_comm

theorem Words.add_self (a : Words) : a + a = 0 := Words.xor_self a

end Group

/-! ## The step -/

theorem rotl_xor {k : UInt64} (hk : 0 < k.toNat) (hk' : k.toNat < 64) (x y : UInt64) :
    rotl (x ^^^ y) k = rotl x k ^^^ rotl y k := by
  have hbits : (rotl (x ^^^ y) k).toBitVec = (rotl x k ^^^ rotl y k).toBitVec := by
    rw [UInt64.toBitVec_xor, toBitVec_rotl hk hk', toBitVec_rotl hk hk', toBitVec_rotl hk hk',
      UInt64.toBitVec_xor, Word.rotateLeft_xor]
  exact UInt64.toBitVec_inj.mp hbits

theorem next_xor (a b : Words) : (next (a.xor b)).2 = (next a).2.xor (next b).2 := by
  have hswap : a.s3 ^^^ b.s3 ^^^ (a.s1 ^^^ b.s1) = a.s3 ^^^ a.s1 ^^^ (b.s3 ^^^ b.s1) := by
    ac_rfl
  have hrotl : rotl (a.s3 ^^^ b.s3 ^^^ (a.s1 ^^^ b.s1)) 45 =
      rotl (a.s3 ^^^ a.s1) 45 ^^^ rotl (b.s3 ^^^ b.s1) 45 := by
    rw [hswap, rotl_xor (k := 45) (by decide) (by decide)]
  dsimp only [next, Words.xor]
  congr 1
  · ac_rfl
  · ac_rfl
  · rw [UInt64.shiftLeft_xor]
    -- the shifted words are atoms
    generalize a.s1 <<< 17 = ta, b.s1 <<< 17 = tb
    ac_rfl

/-- The step of both generators. -/
def stepHom : AddMonoid.End Words where
  toFun s := (next s).2
  map_zero' := rfl
  map_add' := next_xor

theorem stepHom_two : (2 : AddMonoid.End Words) = 0 := by
  ext s
  have hsum : (2 : AddMonoid.End Words) = 1 + 1 := one_add_one_eq_two.symm
  rw [hsum]
  exact Words.add_self s

theorem stepHom_pow_smul (n : Nat) (s : Words) : stepHom ^ n • s = Orbit.after next s n := rfl

/-! ## Jumps -/

/-- The bits of a table in the order in which a jump goes through them. -/
def tableBits (table : List UInt64) : List Bool :=
  table.flatMap fun word => (List.range 64).map fun b => decide (word &&& (1 <<< UInt64.ofNat b) ≠ 0)

theorem jumpBy_eq {step : Words → UInt64 × Words} (hstep : ∀ s, (step s).2 = (next s).2)
    (w : Nat) (table : List UInt64) (s : Words) :
    jumpBy step table s = eval w stepHom (ofBits w (tableBits table)) • s := by
  have hfold := foldl_bits (w := w) stepHom (tableBits table) 0 s
  rw [tableBits, List.foldl_flatMap] at hfold
  simp only [List.foldl_map, decide_eq_true_eq] at hfold
  have hpass : jumpBy step table s = (table.foldl (fun p word =>
      (List.range 64).foldl (fun p b =>
        (if word &&& (1 <<< UInt64.ofNat b) ≠ 0 then p.1 + p.2 else p.1, stepHom • p.2)) p)
      ((0 : Words), s)).1 := by
    simp only [jumpBy, hstep]
    rfl
  rw [hpass, hfold, zero_add]
  rfl

end UdrPak.Prng
