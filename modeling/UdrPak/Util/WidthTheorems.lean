import UdrPak.Util.Lemmas.Hex

/-!
# Hexadecimal texts in different widths

The texts of one number in two types differ by the sign: in the wider type a negative number has
more `f`s in front.
-/

namespace UdrPak.Util

open Libc Numeral UdrPak.Any

/-- What a negative number of `w` bits has in front when it is extended to `w'` bits. -/
def signDigits (w w' : Nat) (n : Int) : List Char :=
  if n < 0 then List.replicate ((w' - w) / 4) 'f' else []

section Widths

variable {w w' k k' : Nat} {n : Int} {ty : OrigType}

theorem twosComplement_mod (h : w ≤ w') :
    twosComplement w' n % 2 ^ w = twosComplement w n := by
  have hdvd : (2 : Int) ^ w ∣ 2 ^ w' := pow_dvd_pow 2 h
  have hcast : ((twosComplement w' n % 2 ^ w : Nat) : Int) = n % 2 ^ w := by
    have hpos : (2 : Int) ^ w' ≠ 0 := by positivity
    push_cast
    rw [twosComplement, Int.toNat_of_nonneg (Int.emod_nonneg n hpos), Int.emod_emod_of_dvd n hdvd]
  conv_rhs => rw [twosComplement, ← hcast, Int.toNat_natCast]

theorem twosComplement_div (h : w ≤ w') (hlow : -2 ^ w ≤ n) (hn : n < 0) :
    twosComplement w' n / 2 ^ w = 2 ^ (w' - w) - 1 := by
  obtain ⟨d, rfl⟩ := Nat.exists_eq_add_of_le h
  have hpow : (2 : Int) ^ (w + d) = 2 ^ w * 2 ^ d := pow_add 2 w d
  have hd : (1 : Int) ≤ 2 ^ d := one_le_pow₀ (by norm_num)
  have hle : (2 : Int) ^ w ≤ 2 ^ w * 2 ^ d := le_mul_of_one_le_right (by positivity) hd
  have hval := twosComplement_neg (w := w + d) (n := n) (by omega) hn
  have hdiv : (n + 2 ^ (w + d)) / 2 ^ w = (2 : Int) ^ d - 1 := by
    rw [Int.ediv_eq_iff_of_pos (by positivity), hpow]
    constructor <;> nlinarith
  rw [Nat.add_sub_cancel_left]
  have hcast : ((twosComplement (w + d) n / 2 ^ w : Nat) : Int) = 2 ^ d - 1 := by
    push_cast
    rw [hval, hdiv]
  have hsub : ((2 ^ d - 1 : Nat) : Int) = 2 ^ d - 1 := by
    push_cast [Nat.one_le_two_pow]
    rfl
  omega

theorem pow_sixteen (k : Nat) : (16 : Nat) ^ k = 2 ^ (4 * k) := by
  rw [pow_mul]
  rfl

theorem toDigits_of_neg (hk : 0 < k) (h : -2 ^ (4 * k - 1) ≤ n) (hn : n < 0) :
    Nat.toDigits 16 (twosComplement (4 * k) n) = fixed 16 k (twosComplement (4 * k) n) := by
  obtain ⟨j, rfl⟩ := Nat.exists_eq_succ_of_ne_zero hk.ne'
  have hlow := twosComplement_of_neg (by omega) h hn
  have hle : 2 ^ (4 * j) ≤ 2 ^ (4 * (j + 1) - 1) := Nat.pow_le_pow_right (by decide) (by omega)
  refine toDigits_eq_fixed base16 ?_ ?_
  · rw [pow_sixteen]
    exact hle.trans hlow
  · rw [pow_sixteen]
    exact twosComplement_lt _ _

/-- In a wider type a negative number has the same digits, with `f`s in front. -/
theorem toDigits_widened (hk : 0 < k) (hkk : k ≤ k') (h : -2 ^ (4 * k - 1) ≤ n) (hn : n < 0) :
    Nat.toDigits 16 (twosComplement (4 * k') n) =
      List.replicate (k' - k) 'f' ++ Nat.toDigits 16 (twosComplement (4 * k) n) := by
  obtain ⟨d, rfl⟩ := Nat.exists_eq_add_of_le' hkk
  have hbits : 4 * k - 1 ≤ 4 * k := Nat.sub_le _ _
  have hpow : (2 : Int) ^ (4 * k - 1) ≤ 2 ^ (4 * k) := pow_le_pow_right₀ (by norm_num) hbits
  have hwide : (2 : Int) ^ (4 * k - 1) ≤ 2 ^ (4 * (d + k) - 1) :=
    pow_le_pow_right₀ (by norm_num) (by omega)
  have hwidth : 4 * k ≤ 4 * (d + k) := by omega
  have hfront : 4 * (d + k) - 4 * k = 4 * d := by omega
  have hmod := @twosComplement_mod (4 * k) (4 * (d + k)) n hwidth
  have hdiv := @twosComplement_div (4 * k) (4 * (d + k)) n hwidth (by omega) hn
  rw [hfront, ← pow_sixteen, ← pow_sixteen] at hdiv
  rw [← pow_sixteen] at hmod
  rw [toDigits_of_neg (by omega) (by omega) hn, toDigits_of_neg hk h hn, fixed_add, hdiv,
    fixed_last (by decide), ← fixed_mod 16 k, hmod, Nat.add_sub_cancel]
  rfl

theorem hexBits_eq (ty : OrigType) : ∃ j, 0 < j ∧ j ≤ 4 ∧ hexBits ty = 4 * (4 * j) := by
  cases ty with
  | cBoolType | cShortType => exact ⟨1, by decide, by decide, rfl⟩
  | cIntType => exact ⟨2, by decide, by decide, rfl⟩
  | cBigintType | other => exact ⟨4, by decide, by decide, rfl⟩

end Widths

/-- The texts of a typed number, by the digits of its two's complement. -/
theorem hex_toAny (a : TypedInt) :
    anyToHex (some a.toAny) =
        .returned (some (Nat.toDigits 16 (twosComplement (hexBits a.orig) a.num))) ∧
      anyToHex4 (some a.toAny) =
        (hex4 (Nat.toDigits 16 (twosComplement (hexBits a.orig) a.num))).map some := by
  have hother : ∀ code, a.toAny.origType ≠ .other code := by
    intro code h
    have hholds := a.holds
    rw [← a.toAny_origType, h] at hholds
    exact hholds
  have hhex := anyToHex_eq a.toAny hother
  have hprinted := (printed_eq a.toAny hother).2
  rw [a.toAny_origType, a.toAny_val] at hhex hprinted
  exact ⟨hhex, hprinted⟩

/-- The digits of a negative number are whole groups, and `to_hex4` prints them as they are. -/
theorem hex4_of_neg {j : Nat} {n : Int} (hj : 0 < j) (hj' : j ≤ 4) (h : -2 ^ (4 * (4 * j) - 1) ≤ n)
    (hn : n < 0) : hex4 (Nat.toDigits 16 (twosComplement (4 * (4 * j)) n)) =
      .returned (Nat.toDigits 16 (twosComplement (4 * (4 * j)) n)) := by
  have hlt : twosComplement (4 * (4 * j)) n < 2 ^ 64 :=
    (twosComplement_lt _ n).trans_le (Nat.pow_le_pow_right (by decide) (by omega))
  have hlen := length_hex_of_neg (k := 4 * j) (by omega) h hn
  have hdrop : (3 + 4 * j) % 4 = 3 := by omega
  rw [hex4_eq hlt, hlen, hdrop, List.drop_left' List.length_replicate]

/-- Both functions return a text for a typed number. -/
theorem exists_hex (a : TypedInt) : ∃ ds ps, anyToHex (some a.toAny) = .returned (some ds) ∧
    anyToHex4 (some a.toAny) = .returned (some ps) := by
  obtain ⟨hhex, hhex4⟩ := hex_toAny a
  obtain ⟨ps, hps, -⟩ := hex4_padded (twosComplement_hexBits_lt a.orig a.num)
  rw [hps] at hhex4
  exact ⟨_, ps, hhex, hhex4⟩

theorem hex_eq_of_width (a b : TypedInt) (hnum : a.num = b.num)
    (hwidth : hexBits a.orig ≤ hexBits b.orig) :
    anyToHex (some b.toAny) = (anyToHex (some a.toAny)).map
        (Option.map (signDigits (hexBits a.orig) (hexBits b.orig) a.num ++ ·)) ∧
      anyToHex4 (some b.toAny) = (anyToHex4 (some a.toAny)).map
        (Option.map (signDigits (hexBits a.orig) (hexBits b.orig) a.num ++ ·)) := by
  obtain ⟨hhex, hhex4⟩ := hex_toAny a
  obtain ⟨hhex', hhex4'⟩ := hex_toAny b
  have ha := bits_of_holds a.holds
  have hb := bits_of_holds b.holds
  rw [← hnum] at hhex' hhex4' hb
  rw [hhex, hhex4, hhex', hhex4', signDigits]
  rcases Int.lt_or_le a.num 0 with hn | hn
  · obtain ⟨i, hi, hi', hbits⟩ := hexBits_eq a.orig
    obtain ⟨j, hj, hj', hbits'⟩ := hexBits_eq b.orig
    rw [hbits] at ha hwidth ⊢
    rw [hbits'] at hb hwidth ⊢
    have hfront : (4 * (4 * j) - 4 * (4 * i)) / 4 = 4 * j - 4 * i := by omega
    have hwider := @toDigits_widened (4 * i) (4 * j) a.num (by omega) (by omega) ha.1 hn
    rw [if_pos hn, hfront, hex4_of_neg hi hi' ha.1 hn, hex4_of_neg hj hj' hb.1 hn, hwider]
    exact ⟨rfl, rfl⟩
  · have hsame : twosComplement (hexBits b.orig) a.num = twosComplement (hexBits a.orig) a.num := by
      have hpow : ∀ w : Nat, (2 : Int) ^ (w - 1) ≤ 2 ^ w := fun w =>
        pow_le_pow_right₀ (by norm_num) (Nat.sub_le w 1)
      have hval := twosComplement_nonneg hn (ha.2.trans_le (hpow _))
      have hval' := twosComplement_nonneg hn (hb.2.trans_le (hpow _))
      omega
    obtain ⟨ps, hps, -⟩ := hex4_padded (twosComplement_hexBits_lt a.orig a.num)
    rw [if_neg (Int.not_lt.mpr hn), hsame, hps]
    exact ⟨rfl, rfl⟩

/-- For one number in two types, the texts of the wider type are those of the other one, behind an
`f` for every four more bits if the number is negative. -/
theorem hex_widened (a b : TypedInt) (hnum : a.num = b.num)
    (hwidth : hexBits a.orig ≤ hexBits b.orig) :
    ∃ ds ps, anyToHex (some a.toAny) = .returned (some ds) ∧
      anyToHex4 (some a.toAny) = .returned (some ps) ∧
      anyToHex (some b.toAny) =
        .returned (some (signDigits (hexBits a.orig) (hexBits b.orig) a.num ++ ds)) ∧
      anyToHex4 (some b.toAny) =
        .returned (some (signDigits (hexBits a.orig) (hexBits b.orig) a.num ++ ps)) := by
  obtain ⟨ds, ps, hds, hps⟩ := exists_hex a
  obtain ⟨hhex, hhex4⟩ := hex_eq_of_width a b hnum hwidth
  rw [hds] at hhex
  rw [hps] at hhex4
  exact ⟨ds, ps, hds, hps, hhex, hhex4⟩

def minusOneSmallint : TypedInt := ⟨.cShortType, -1, by decide, by decide⟩

def minusOneInteger : TypedInt := ⟨.cIntType, -1, by decide, by decide⟩

/-- `-1` is `ffff` as a `smallint`, and has four `f`s more as an `integer`. -/
theorem hex_widened_minus_one :
    ∃ ds ps, anyToHex (some minusOneSmallint.toAny) = .returned (some ds) ∧
      anyToHex4 (some minusOneSmallint.toAny) = .returned (some ps) ∧
      anyToHex (some minusOneInteger.toAny) = .returned (some (signDigits 16 32 (-1) ++ ds)) ∧
      anyToHex4 (some minusOneInteger.toAny) = .returned (some (signDigits 16 32 (-1) ++ ps)) :=
  hex_widened minusOneSmallint minusOneInteger rfl (by decide)

end UdrPak.Util
