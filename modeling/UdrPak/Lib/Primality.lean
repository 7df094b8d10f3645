import Mathlib.Data.List.Prime
import Mathlib.NumberTheory.LucasPrimality

/-!
# Primality by Lucas's criterion

A large number is prime by the order of one residue, which is known from the prime factors of its
predecessor.
-/

namespace Primality

theorem mem_of_dvd_prod {q n : Nat} {qs : List Nat} (hprod : qs.prod = n)
    (hprime : ∀ r ∈ qs, r.Prime) (hq : q.Prime) (hdvd : q ∣ n) : q ∈ qs := by
  subst hprod
  exact mem_list_primes_of_dvd_prod hq.prime (fun r hr => (hprime r hr).prime) hdvd

/-- `a ^ e % p`, where `e` has as many bits as the third argument says. -/
def powMod (p a : Nat) : Nat → Nat → Nat
  | 0, _ => 1 % p
  | k + 1, e =>
      let r := powMod p a k (e / 2)
      r * r % p * (if e % 2 = 1 then a else 1) % p

theorem cast_powMod {p a k e : Nat} (h : e < 2 ^ k) :
    (powMod p a k e : ZMod p) = (a : ZMod p) ^ e := by
  induction k generalizing e with
  | zero =>
      rw [pow_zero, Nat.lt_one_iff] at h
      rw [h, powMod, ZMod.natCast_mod, Nat.cast_one, pow_zero]
  | succ k ih =>
      have hhalf := ih (e := e / 2) (Nat.div_lt_of_lt_mul (by rwa [← pow_succ']))
      have hbit : ((if e % 2 = 1 then a else 1 : Nat) : ZMod p) = (a : ZMod p) ^ (e % 2) := by
        rcases Nat.mod_two_eq_zero_or_one e with he | he <;> simp [he]
      have hsum : e / 2 + e / 2 + e % 2 = e := by omega
      rw [powMod, ZMod.natCast_mod, Nat.cast_mul, ZMod.natCast_mod, Nat.cast_mul, hhalf, hbit,
        ← pow_add, ← pow_add, hsum]

/-- A number, a residue that has the full order modulo it, and the prime factors of the order. -/
structure Certificate where
  number : Nat
  residue : Nat
  factors : List Nat

def Certificate.power (c : Certificate) (e : Nat) : Nat :=
  powMod c.number c.residue (c.number.log2 + 1) e

structure Certificate.Valid (c : Certificate) : Prop where
  large : 1 < c.number
  prod : c.factors.prod = c.number - 1
  order : c.power (c.number - 1) = 1
  proper : ∀ q ∈ c.factors, c.power ((c.number - 1) / q) ≠ 1

instance (c : Certificate) : Decidable c.Valid :=
  decidable_of_iff (1 < c.number ∧ c.factors.prod = c.number - 1 ∧ c.power (c.number - 1) = 1 ∧
      ∀ q ∈ c.factors, c.power ((c.number - 1) / q) ≠ 1)
    ⟨fun h => ⟨h.1, h.2.1, h.2.2.1, h.2.2.2⟩, fun h => ⟨h.1, h.2, h.3, h.4⟩⟩

theorem powMod_lt {p a k e : Nat} (h : 0 < p) : powMod p a k e < p := by
  cases k with
  | zero => exact Nat.mod_lt _ h
  | succ k => exact Nat.mod_lt _ h

theorem Certificate.Valid.prime {c : Certificate} (h : c.Valid)
    (hprime : ∀ q ∈ c.factors, q.Prime) : c.number.Prime := by
  have hbits : c.number < 2 ^ (c.number.log2 + 1) := Nat.lt_log2_self
  refine lucas_primality c.number c.residue ?_ fun q hq hdvd => ?_
  · rw [← cast_powMod (Nat.lt_of_le_of_lt (Nat.sub_le _ 1) hbits)]
    exact (congrArg Nat.cast h.order).trans Nat.cast_one
  · have hmem := mem_of_dvd_prod h.prod hprime hq hdvd
    have hlt : (c.number - 1) / q < 2 ^ (c.number.log2 + 1) :=
      Nat.lt_of_le_of_lt (Nat.div_le_self _ q) (Nat.lt_of_le_of_lt (Nat.sub_le _ 1) hbits)
    rw [← cast_powMod hlt, ← Nat.cast_one (R := ZMod c.number)]
    intro heq
    rw [ZMod.natCast_eq_natCast_iff', Nat.mod_eq_of_lt (powMod_lt (Nat.lt_of_succ_lt h.large)),
      Nat.mod_eq_of_lt h.large] at heq
    exact h.proper q hmem heq

end Primality
