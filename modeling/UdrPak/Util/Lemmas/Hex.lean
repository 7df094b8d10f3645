import UdrPak.Any.Lemmas.TypedInt
import UdrPak.Libc.Lemmas.Buffer
import UdrPak.Util.Hex

/-!
# Hexadecimal texts are two's complement

`to_hex` of a typed integer is the shortest hexadecimal text of the two's complement in the width of
its type.
-/

namespace UdrPak.Util

open Libc Numeral UdrPak.Any

def hexBits : OrigType → Nat
  | .cBoolType | .cShortType => 16
  | .cIntType => 32
  | .cBigintType | .other _ => 64

def twosComplement (w : Nat) (n : Int) : Nat := (n % 2 ^ w).toNat

theorem twosComplement_lt (w : Nat) (n : Int) : twosComplement w n < 2 ^ w := by
  have hpos : (0 : Int) < 2 ^ w := by positivity
  have h0 := Int.emod_nonneg n hpos.ne'
  have h1 := Int.emod_lt_of_pos n hpos
  have h2 : ((2 ^ w : Nat) : Int) = 2 ^ w := by push_cast; rfl
  unfold twosComplement
  omega

theorem twosComplement_hexBits_lt (ty : OrigType) (n : Int) :
    twosComplement (hexBits ty) n < 2 ^ 64 := by
  have hw : hexBits ty ≤ 64 := by
    unfold hexBits
    split <;> omega
  exact lt_of_lt_of_le (twosComplement_lt _ n) (Nat.pow_le_pow_right (by decide) hw)

theorem twosComplement_nonneg {w : Nat} {n : Int} (hn : 0 ≤ n) (h : n < 2 ^ w) :
    (twosComplement w n : Int) = n := by
  rw [twosComplement, Int.emod_eq_of_lt hn h, Int.toNat_of_nonneg hn]

theorem twosComplement_neg {w : Nat} {n : Int} (h : -2 ^ w ≤ n) (hn : n < 0) :
    (twosComplement w n : Int) = n + 2 ^ w := by
  have hval : n % 2 ^ w = n + 2 ^ w := by
    rw [← Int.add_emod_right]
    apply Int.emod_eq_of_lt <;> omega
  rw [twosComplement, hval, Int.toNat_of_nonneg (by omega)]

theorem twosComplement_of_neg {w : Nat} {n : Int} (hw : 0 < w) (h : -2 ^ (w - 1) ≤ n) (hn : n < 0) :
    2 ^ (w - 1) ≤ twosComplement w n := by
  obtain ⟨k, rfl⟩ : ∃ k, w = k + 1 := ⟨w - 1, by omega⟩
  simp only [Nat.add_sub_cancel] at h ⊢
  have hcast : ((2 ^ k : Nat) : Int) = 2 ^ k := by push_cast; rfl
  have hpow : (2 : Int) ^ (k + 1) = 2 * 2 ^ k := pow_succ' 2 k
  have hval := twosComplement_neg (w := k + 1) (by omega) hn
  omega

/-- The number that a word of `w` bits has in two's complement. -/
def signed (w n : Nat) : Int := if n < 2 ^ (w - 1) then n else n - 2 ^ w

theorem signed_twosComplement {w : Nat} {n : Int} (hw : 0 < w) (h : -2 ^ (w - 1) ≤ n)
    (h' : n < 2 ^ (w - 1)) : signed w (twosComplement w n) = n := by
  have hcast : ((2 ^ (w - 1) : Nat) : Int) = 2 ^ (w - 1) := by push_cast; rfl
  have hpow : (2 : Int) ^ (w - 1) ≤ 2 ^ w := pow_le_pow_right₀ (by norm_num) (Nat.sub_le w 1)
  rcases Int.lt_or_le n 0 with hn | hn
  · have hge := twosComplement_of_neg hw h hn
    have hval := twosComplement_neg (w := w) (by omega) hn
    rw [signed, if_neg (by omega), hval]
    omega
  · have hval := twosComplement_nonneg (w := w) hn (by omega)
    rw [signed, if_pos (by omega), hval]

theorem bits_of_holds {ty : OrigType} {n : Int} (h : ty.Holds n) :
    -2 ^ (hexBits ty - 1) ≤ n ∧ n < 2 ^ (hexBits ty - 1) := by
  cases ty <;> simp only [OrigType.Holds, hexBits] at h ⊢ <;> omega

/-! ## Machine words -/

theorem twosComplement_bmod (w : Nat) (n : Int) :
    twosComplement w (n.bmod (2 ^ w)) = twosComplement w n := by
  have h : n.bmod (2 ^ w) % ((2 ^ w : Nat) : Int) = n % ((2 ^ w : Nat) : Int) := Int.bmod_emod
  push_cast at h
  rw [twosComplement, h, twosComplement]

theorem toNat_bitVec {w : Nat} (x : BitVec w) : x.toNat = twosComplement w x.toInt := by
  have hcast : ((2 ^ w : Nat) : Int) = 2 ^ w := by push_cast; rfl
  have h := x.isLt
  rw [BitVec.toInt_eq_toNat_bmod, twosComplement_bmod, twosComplement, Int.emod_eq_of_lt] <;> omega

theorem toNat_uint64 (v : Int64) : v.toUInt64.toNat = twosComplement 64 v.toInt :=
  toNat_bitVec v.toBitVec

theorem toNat_uint32 (v : Int64) : v.toInt32.toUInt32.toNat = twosComplement 32 v.toInt := by
  have h := toNat_bitVec v.toInt32.toBitVec
  have h32 : v.toInt32.toBitVec.toInt = v.toInt.bmod (2 ^ 32) := Int64.toInt_toInt32 v
  rwa [h32, twosComplement_bmod] at h

theorem toNat_uint16 (v : Int64) :
    v.toInt32.toUInt32.toUInt16.toNat = twosComplement 16 v.toInt := by
  rw [UInt32.toNat_toUInt16, toNat_uint32, twosComplement, twosComplement]
  omega

/-! ## The text -/

theorem length_hex_le {n : Nat} (h : n < 2 ^ 64) : (Nat.toDigits 16 n).length ≤ 16 :=
  (Nat.length_toDigits_le_iff (by decide) (by decide)).mpr (by omega)

theorem snprintf_hex {n : Nat} (h : n < 2 ^ 64) :
    snprintf maxVcLen (Nat.toDigits 16 n) = Nat.toDigits 16 n := by
  have hl := length_hex_le h
  exact List.take_of_length_le (by simp only [maxVcLen]; omega)

/-- Both routines print the two's complement, in the width of the type. -/
theorem printed_eq (a : AnyInt) (h : ∀ code, a.origType ≠ .other code) :
    anyToHex (some a) = .returned (some (snprintf maxVcLen
        (Nat.toDigits 16 (twosComplement (hexBits a.origType) a.val.toInt)))) ∧
      anyToHex4 (some a) =
        (hex4 (Nat.toDigits 16 (twosComplement (hexBits a.origType) a.val.toInt))).map some := by
  obtain ⟨val, orig⟩ := a
  cases orig with
  | cBoolType | cShortType =>
      simp only [anyToHex, anyToHex4, hexBits, fmtHx, toNat_uint16, and_self]
  | cIntType => simp only [anyToHex, anyToHex4, hexBits, fmtX, toNat_uint32, and_self]
  | cBigintType => simp only [anyToHex, anyToHex4, hexBits, fmtLx, toNat_uint64, and_self]
  | other code => exact absurd rfl (h code)

theorem anyToHex_eq (a : AnyInt) (h : ∀ code, a.origType ≠ .other code) :
    anyToHex (some a) =
      .returned (some (Nat.toDigits 16 (twosComplement (hexBits a.origType) a.val.toInt))) := by
  rw [(printed_eq a h).1, snprintf_hex (twosComplement_hexBits_lt _ _)]

theorem length_hex_of_neg {k : Nat} {n : Int} (hk : 0 < k) (h : -2 ^ (4 * k - 1) ≤ n) (hn : n < 0) :
    (Nat.toDigits 16 (twosComplement (4 * k) n)).length = k := by
  have hlt := twosComplement_lt (4 * k) n
  have hge := twosComplement_of_neg (by omega) h hn
  apply Nat.le_antisymm
  · rw [Nat.length_toDigits_le_iff (by decide) hk]
    rwa [pow_mul] at hlt
  · rcases Nat.lt_or_ge 1 k with h1 | h1
    · by_contra hshort
      have hle : (Nat.toDigits 16 (twosComplement (4 * k) n)).length ≤ k - 1 := by omega
      rw [Nat.length_toDigits_le_iff (by decide) (by omega)] at hle
      have hpow : 16 ^ (k - 1) ≤ 2 ^ (4 * k - 1) := by
        rw [show (16 : Nat) = 2 ^ 4 from rfl, ← pow_mul]
        exact Nat.pow_le_pow_right (by decide) (by omega)
      omega
    · have hpos := @Nat.length_toDigits_pos 16 (twosComplement (4 * k) n)
      omega

theorem length_hex_smallest {n : Int} (h : -2 ^ 63 ≤ n) (hn : n < 0) :
    4 * (Nat.toDigits 16 (twosComplement (hexBits (smallest n)) n)).length =
      hexBits (smallest n) := by
  unfold smallest
  split_ifs with h1 h2
  · rw [hexBits, length_hex_of_neg (k := 4) (by decide) h1.1 hn]
  · rw [hexBits, length_hex_of_neg (k := 8) (by decide) h2.1 hn]
  · rw [hexBits, length_hex_of_neg (k := 16) (by decide) h hn]

/-! ## Groups of four digits -/

theorem nul_notMem_hex (n : Nat) : '\x00' ∉ Nat.toDigits 16 n := by
  intro h
  obtain ⟨d, hd, hc⟩ := mem_toDigits base16 h
  have table : ∀ k < 16, '\x00' ≠ k.digitChar := by decide
  exact table d hd hc

/-- Of the three zeros and the digits, `hex4` drops what exceeds a multiple of four. -/
theorem hex4_eq {n : Nat} (h : n < 2 ^ 64) :
    hex4 (Nat.toDigits 16 n) =
      .returned ((List.replicate 3 '0' ++ Nat.toDigits 16 n).drop
        ((3 + (Nat.toDigits 16 n).length) % 4)) := by
  have hl := length_hex_le h
  generalize hds : Nat.toDigits 16 n = ds at hl ⊢
  have hfit : 3 + ds.length + 1 ≤ maxVcLen := by simp only [maxVcLen]; omega
  have hzeros : (Vector.replicate maxVcLen '0').toList.take 3 = List.replicate 3 '0' := by
    rw [Vector.toList_replicate, List.take_replicate]
    rfl
  have hstr := CharArray.str_storeAt hfit (by rw [hzeros]; decide) (hds ▸ nul_notMem_hex n)
  have htake := @take_storeAt maxVcLen 3 (Vector.replicate maxVcLen '0') ds hfit
  have hlen : (UInt16.ofNat (3 + ds.length)).toNat = 3 + ds.length :=
    UInt16.toNat_ofNat_of_lt' (lt_of_le_of_lt (Nat.add_le_add_left hl 3) (by decide))
  rw [hzeros] at hstr htake
  simp only [hex4, hds ▸ snprintf_hex h, dif_pos hfit, hstr, List.length_append,
    List.length_replicate, UInt16.toNat_mod, hlen, ← List.drop_take, htake]
  rfl

theorem hex4_padded {n : Nat} (h : n < 2 ^ 64) :
    ∃ ps, hex4 (Nat.toDigits 16 n) = .returned ps ∧ PaddedTo 4 (Nat.toDigits 16 n) ps :=
  ⟨_, hex4_eq h, paddedTo_drop (m := 4) (by decide) _⟩

theorem anyToHex4_integerToAny (v : Int32) :
    anyToHex4 (some (integerToAny v)) = (integerToHex4 v).map some := by
  simp [anyToHex4, integerToAny, integerToHex4]

theorem anyToHex4_smallintToAny (v : Int16) :
    anyToHex4 (some (smallintToAny v)) = (smallintToHex4 v).map some := by
  simp [anyToHex4, smallintToAny, smallintToHex4]

end UdrPak.Util
