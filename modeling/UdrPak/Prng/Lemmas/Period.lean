import Mathlib.Tactic.NormNum.Prime
import UdrPak.Prng.Lemmas.Linear
import UdrPak.Prng.StepTheorems

/-!
# The period of the step

The step takes its characteristic polynomial to zero on one state. Modulo this polynomial the powers
of the step are computed, and they show that the orbit of the state has all states but the zero
words.
-/

namespace UdrPak.Prng

open BinaryPoly Primality

/-! ## The factors of the period -/

def period : Nat := 2 ^ 256 - 1

def periodFactors : List Nat :=
  [3, 5, 17, 257, 65537, 641, 6700417, 274177, 67280421310721, 59649589127497217,
    5704689200685129054721]

theorem period_lt : period < 2 ^ 256 := Nat.sub_lt (Nat.two_pow_pos 256) Nat.one_pos

theorem period_pos : 0 < period := Nat.sub_pos_of_lt (Nat.one_lt_two_pow (by decide))

theorem prod_periodFactors : periodFactors.prod = period := by
  norm_num [periodFactors, period]

/-- Certificates for the large factors, each with those for the factors in it before it. -/
def certificates : List Certificate :=
  [⟨67280421310721, 3, [2, 2, 2, 2, 2, 2, 2, 2, 5, 47, 373, 2998279]⟩,
    ⟨18533742247, 6, [2, 3, 3, 3, 181, 1896229]⟩,
    ⟨116503103764643, 2, [2, 7, 449, 18533742247]⟩,
    ⟨59649589127497217, 3, [2, 2, 2, 2, 2, 2, 2, 2, 2, 116503103764643]⟩,
    ⟨733803839347, 2, [2, 3, 2203, 55515497]⟩,
    ⟨5704689200685129054721, 21,
      [2, 2, 2, 2, 2, 2, 2, 2, 2, 3, 3, 3, 3, 3, 5, 12497, 733803839347]⟩]

theorem certificates_valid : ∀ c ∈ certificates, c.Valid := by decide +kernel

theorem certificates_prime : ∀ c ∈ certificates, c.number.Prime := by
  have hvalid := certificates_valid
  simp only [certificates, List.forall_mem_cons] at hvalid ⊢
  obtain ⟨h1, h2, h3, h4, h5, h6, -⟩ := hvalid
  have hp2 := h2.prime (by simp only [List.forall_mem_cons]; norm_num)
  have hp3 := h3.prime (by simp only [List.forall_mem_cons, hp2]; norm_num)
  have hp5 := h5.prime (by simp only [List.forall_mem_cons]; norm_num)
  refine ⟨h1.prime ?_, hp2, hp3, h4.prime ?_, hp5, h6.prime ?_, ?_⟩
  · simp only [List.forall_mem_cons]
    norm_num
  · simp only [List.forall_mem_cons, hp3]
    norm_num
  · simp only [List.forall_mem_cons, hp5]
    norm_num
  · simp

theorem prime_of_mem_periodFactors : ∀ q ∈ periodFactors, q.Prime := by
  have hlarge := certificates_prime
  simp only [certificates, List.forall_mem_cons] at hlarge
  obtain ⟨h1, -, -, h4, -, h6, -⟩ := hlarge
  simp only [periodFactors, List.forall_mem_cons, h1, h4, h6]
  norm_num

/-! ## Powers of the step -/

/-- The characteristic polynomial of the step. -/
def stepPoly : Nat := 0x10003c03c3f3ecb1904b4edcf26259f850280002bcefd1a5e9d116f2bb0f0f001

/-- The quotient of `x ^ 512` by it. -/
def stepRecip : Nat := 0x10003c0396f32c298132b61f2778b69e1aa1297eadd5e76b793a906d956fbc489

def stepModulus : Modulus where
  width := 8
  degree := 256
  poly := ofBits 8 (bitsOf 257 stepPoly)
  recip := ofBits 8 (bitsOf 257 stepRecip)

theorem packed_stepPoly : Packed 8 257 stepModulus.poly := packed_bitsOf 257 stepPoly

theorem stepModulus_valid : stepModulus.Valid where
  room := by decide
  degree := by decide
  poly := packed_stepPoly

/-- The state whose orbit is followed. -/
def startWords : Words := ⟨1, 0, 0, 0⟩

def stepWords (s : Words) : Words := (next s).2

theorem apply_stepPoly : apply 8 stepWords 257 stepModulus.poly startWords = 0 := by
  decide +kernel

theorem stepPoly_smul : eval 8 stepHom stepModulus.poly • startWords = 0 := by
  have happly := apply_eq stepHom_two packed_stepPoly.lt startWords (t := stepHom)
  rw [← apply_stepPoly]
  exact happly.symm

/-- A period of steps does nothing, and the tables of the jumps are powers of the step. -/
theorem powMod_table :
    stepModulus.powMod 256 period = some 1 ∧
    stepModulus.powMod 256 (2 ^ 128) = some (ofBits 8 (tableBits jumpTable)) ∧
    stepModulus.powMod 256 (2 ^ 192) = some (ofBits 8 (tableBits longJumpTable)) := by
  decide +kernel

theorem powMod_represents {e n : Nat} (he : e < 2 ^ 256) (h : stepModulus.powMod 256 e = some n) :
    stepModulus.Represents stepHom startWords e n :=
  Modulus.powMod_represents stepHom_two stepModulus_valid stepPoly_smul he h

theorem after_startWords {e n : Nat} (he : e < 2 ^ 256)
    (h : stepModulus.powMod 256 e = some n) :
    Orbit.after next startWords e = apply 8 stepWords 256 n startWords := by
  have hrep := powMod_represents he h
  have happly := apply_eq stepHom_two hrep.packed.lt startWords (t := stepHom)
  rw [← stepHom_pow_smul, ← hrep.smul]
  exact happly.symm

/-! ## The cycle -/

theorem after_of_powMod_one {e : Nat} (he : e < 2 ^ 256)
    (h : stepModulus.powMod 256 e = some 1) : Orbit.after next startWords e = startWords := by
  have hone : eval stepModulus.width stepHom 1 • startWords = startWords := by
    rw [eval_one, one_smul]
  rw [← stepHom_pow_smul, ← (powMod_represents he h).smul, hone]

theorem after_period : Orbit.after next startWords period = startWords :=
  after_of_powMod_one period_lt powMod_table.1

/-- Whether the remainder of the power moves the state. -/
def moves (e : Nat) : Bool :=
  (stepModulus.powMod 256 e).any fun n => apply 8 stepWords 256 n startWords ≠ startWords

theorem after_ne_of_moves {e : Nat} (he : e < 2 ^ 256) (h : moves e = true) :
    Orbit.after next startWords e ≠ startWords := by
  obtain ⟨n, hn, hne⟩ := (Option.any_eq_true _ _).mp h
  rw [after_startWords he hn]
  exact of_decide_eq_true hne

theorem all_moves : periodFactors.all (fun q => moves (period / q)) = true := by decide +kernel

theorem after_period_div {q : Nat} (hq : q ∈ periodFactors) :
    Orbit.after next startWords (period / q) ≠ startWords :=
  after_ne_of_moves (Nat.lt_of_le_of_lt (Nat.div_le_self _ q) period_lt)
    (List.all_eq_true.mp all_moves q hq)

theorem minimalPeriod_startWords : Function.minimalPeriod stepWords startWords = period :=
  Orbit.minimalPeriod_eq prod_periodFactors prime_of_mem_periodFactors after_period
    fun _ hq => after_period_div hq

/-! ## The states -/

def Words.toTuple : Words ≃ UInt64 × UInt64 × UInt64 × UInt64 where
  toFun s := (s.s0, s.s1, s.s2, s.s3)
  invFun p := ⟨p.1, p.2.1, p.2.2.1, p.2.2.2⟩
  left_inv _ := rfl
  right_inv _ := rfl

instance : Finite Words := Finite.of_equiv _ Words.toTuple.symm

theorem card_words : Nat.card Words = period + 1 := by
  have hperiod : period + 1 = 2 ^ 256 := Nat.sub_add_cancel Nat.one_le_two_pow
  rw [Nat.card_congr Words.toTuple, Nat.card_prod, Nat.card_prod, Nat.card_prod, Word.card_uInt64,
    hperiod, ← pow_add, ← pow_add, ← pow_add]

theorem stepWords_singleCycle : Orbit.SingleCycle stepWords zeroWords period := by
  have hinj : Function.Injective stepWords := next_bijective.injective
  have hfixed : stepWords zeroWords = zeroWords := congrArg Prod.snd next_zeroWords
  have hstart : startWords ≠ zeroWords := by decide
  have hperiod := minimalPeriod_startWords
  have hpos : 0 < Function.minimalPeriod stepWords startWords := by
    rw [hperiod]
    exact period_pos
  have hcard : Nat.card Words = Function.minimalPeriod stepWords startWords + 1 := by
    rw [hperiod, card_words]
  rw [← hperiod]
  exact Orbit.singleCycle_of_card hinj hfixed hstart hpos hcard

end UdrPak.Prng
