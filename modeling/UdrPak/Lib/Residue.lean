import Mathlib.Data.Int.GCD
import Mathlib.Data.Int.ModEq
import Mathlib.Tactic.Ring

/-!
# Steps modulo a number

Steps of one size lead to the residues that differ from the first one by a multiple of the greatest
common divisor of the step and the modulus.
-/

namespace Residue

variable {m : Nat} {a b c : Int}

theorem exists_steps_iff (hm : 0 < m) :
    (∃ k : Nat, a + k * b ≡ c [ZMOD m]) ↔ a ≡ c [ZMOD Int.gcd b m] := by
  constructor
  · rintro ⟨k, hk⟩
    have hsteps : (k : Int) * b ≡ 0 [ZMOD Int.gcd b m] :=
      Int.modEq_zero_iff_dvd.mpr (Dvd.dvd.mul_left (Int.gcd_dvd_left b m) k)
    have hmod : a + k * b ≡ c [ZMOD Int.gcd b m] := hk.of_dvd (Int.gcd_dvd_right b m)
    calc a ≡ a + k * b [ZMOD Int.gcd b m] := by simpa using (hsteps.symm.add_left a)
      _ ≡ c [ZMOD Int.gcd b m] := hmod
  · intro hgcd
    obtain ⟨t, ht⟩ := Int.modEq_iff_dvd.mp hgcd
    -- the coefficient of `b` in the greatest common divisor, made positive
    refine ⟨((t * Int.gcdA b m) % m).toNat, ?_⟩
    have hpos : 0 ≤ (t * Int.gcdA b m) % m := Int.emod_nonneg _ (by omega)
    rw [Int.toNat_of_nonneg hpos]
    have hcoeff : t * Int.gcdA b m * b ≡ c - a [ZMOD m] := by
      rw [Int.modEq_iff_dvd, ht, Int.gcd_eq_gcd_ab]
      exact ⟨t * Int.gcdB b m, by ring⟩
    calc a + (t * Int.gcdA b m) % m * b ≡ a + t * Int.gcdA b m * b [ZMOD m] :=
          ((Int.mod_modEq _ _).mul_right b).add_left a
      _ ≡ a + (c - a) [ZMOD m] := hcoeff.add_left a
      _ = c := by ring

/-- After the quotient of the modulus by the greatest common divisor, the steps begin anew. -/
theorem steps_turn : a + (m / Int.gcd b m : Nat) * b ≡ a [ZMOD m] := by
  obtain ⟨t, ht⟩ := Int.gcd_dvd_left b m
  have hdvd : Int.gcd b m ∣ m := Int.natCast_dvd_natCast.mp (Int.gcd_dvd_right b m)
  have hturn : ((m / Int.gcd b m : Nat) : Int) * b = m * t := by
    calc ((m / Int.gcd b m : Nat) : Int) * b
        = (m / Int.gcd b m : Nat) * (Int.gcd b m * t) := congrArg _ ht
      _ = m * t := by rw [← Int.mul_assoc, ← Int.natCast_mul, Nat.div_mul_cancel hdvd]
  rw [hturn]
  exact Int.modEq_iff_dvd.mpr ⟨-t, by ring⟩

/-! ## The outermost residues -/

/-- Below a multiple of `g`, the numbers of one residue end one turn before it. -/
theorem le_below_multiple {g q v : Int} (hg : 0 < g) (h : v < g * q) :
    v ≤ g * q - g + v % g := by
  have hquot : v / g < q := Int.ediv_lt_of_lt_mul hg (by rwa [Int.mul_comm])
  have hmul : g * (v / g) ≤ g * (q - 1) := Int.mul_le_mul_of_nonneg_left (by omega) (by omega)
  rw [Int.mul_sub, Int.mul_one] at hmul
  have hsplit := Int.mul_ediv_add_emod v g
  omega

theorem le_above_multiple {g q v : Int} (hg : 0 < g) (h : g * q ≤ v) : g * q + v % g ≤ v := by
  have hquot : q ≤ v / g := Int.le_ediv_of_mul_le hg (by rwa [Int.mul_comm])
  have hmul : g * q ≤ g * (v / g) := Int.mul_le_mul_of_nonneg_left hquot (by omega)
  have hsplit := Int.mul_ediv_add_emod v g
  omega

theorem add_multiple_modEq {g : Int} (q n : Int) : n ≡ g * q + n % g [ZMOD g] := by
  calc n ≡ n % g [ZMOD g] := (Int.mod_modEq n g).symm
    _ ≡ g * q + n % g [ZMOD g] := Int.modEq_iff_dvd.mpr ⟨q, by ring⟩

end Residue
