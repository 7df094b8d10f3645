import UdrPak.Lib.Orbit
import UdrPak.Prng.Lemmas.Words

/-!
# The period of SplitMix64

The state is a counter in steps of an odd constant, and the output a bijective image of it.
-/

namespace UdrPak.Prng

theorem after_splitmixNext (x : UInt64) (n : Nat) :
    Orbit.after splitmixNext x n = x + UInt64.ofNat n * 0x9e3779b97f4a7c15 := by
  have hstep : ∀ y, (splitmixNext y).2 = y + 0x9e3779b97f4a7c15 := fun _ => rfl
  have hsucc : ∀ n, Orbit.after splitmixNext x (n + 1) =
      (splitmixNext (Orbit.after splitmixNext x n)).2 := fun n =>
    Function.iterate_succ_apply' (fun y => (splitmixNext y).2) n x
  induction n with
  | zero =>
      have hzero : UInt64.ofNat 0 = 0 := rfl
      rw [hzero, UInt64.zero_mul, UInt64.add_zero]
      rfl
  | succ n ih =>
      have hone : UInt64.ofNat 1 = 1 := rfl
      rw [hsucc, ih, hstep, UInt64.ofNat_add, hone, UInt64.add_mul, UInt64.one_mul,
        UInt64.add_assoc]

theorem after_splitmixNext_inj {x : UInt64} {m n : Nat} :
    Orbit.after splitmixNext x m = Orbit.after splitmixNext x n ↔ m % 2 ^ 64 = n % 2 ^ 64 := by
  rw [after_splitmixNext, after_splitmixNext, UInt64.add_right_inj]
  constructor
  · intro h
    have hcount : UInt64.ofNat m = UInt64.ofNat n :=
      Word.mul_right_inj_of_unit (d := 0xf1de83e19937733d) (by decide) h
    have hnat := congrArg UInt64.toNat hcount
    rwa [UInt64.toNat_ofNat', UInt64.toNat_ofNat'] at hnat
  · intro h
    have hcount : UInt64.ofNat m = UInt64.ofNat n := by
      rw [← UInt64.toNat_inj, UInt64.toNat_ofNat', UInt64.toNat_ofNat', h]
    rw [hcount]

/-- From every state the generator returns after `2^64` steps and not before, and gives out every
word once on the way. -/
theorem splitmix_period (x : UInt64) :
    (∀ n, Orbit.after splitmixNext x n = x ↔ 2 ^ 64 ∣ n) ∧
      ∀ v, ∃! n, n < 2 ^ 64 ∧ (splitmixNext (Orbit.after splitmixNext x n)).1 = v := by
  constructor
  · intro n
    have hback : Orbit.after splitmixNext x n = Orbit.after splitmixNext x 0 ↔ _ :=
      after_splitmixNext_inj
    rw [Nat.zero_mod, ← Nat.dvd_iff_mod_eq_zero] at hback
    exact hback
  · intro v
    have hinj : Function.Injective fun n : Fin (2 ^ 64) =>
        (splitmixNext (Orbit.after splitmixNext x n)).1 := by
      intro m n h
      have hmod := after_splitmixNext_inj.mp (splitmixNext_output_inj h)
      rw [Nat.mod_eq_of_lt m.isLt, Nat.mod_eq_of_lt n.isLt] at hmod
      exact Fin.ext hmod
    have hcard : Nat.card UInt64 ≤ Nat.card (Fin (2 ^ 64)) := by
      rw [Word.card_uInt64, Nat.card_fin]
    obtain ⟨n, hn⟩ := (hinj.bijective_of_nat_card_le hcard).surjective v
    refine ⟨n, ⟨n.isLt, hn⟩, fun m hm => ?_⟩
    exact congrArg Fin.val (@hinj ⟨m, hm.1⟩ n (hm.2.trans hn.symm))

end UdrPak.Prng
