import UdrPak.Any.Lemmas.Values
import UdrPak.Util.Lemmas.Hex

/-!
# Values as hexadecimal texts
-/

namespace UdrPak.Util

open Libc Numeral UdrPak.Any

/-! ## `to_hex` -/

theorem anyToHex_toAny (v : SqlValue) :
    anyToHex (some v.toAny) =
      .returned (some (Nat.toDigits 16 (twosComplement (hexBits v.toAny.origType) v.num))) := by
  rw [anyToHex_eq v.toAny v.origType_ne_other, v.val_toAny]

theorem signed_hex (v : SqlValue) :
    signed (hexBits v.toAny.origType)
      (value 16 (Nat.toDigits 16 (twosComplement (hexBits v.toAny.origType) v.num))) = v.num := by
  have hbits := bits_of_holds v.holds
  have hw : 0 < hexBits v.toAny.origType := by
    unfold hexBits
    split <;> omega
  rw [value_toDigits base16, signed_twosComplement hw hbits.1 hbits.2]

/-- A value is printed as the shortest text of its two's complement, in the width of its type. The
text can be read back, so that no two values of a type have the same. -/
theorem anyToHex_lossless (v : SqlValue) :
    ∃ ds, anyToHex (some v.toAny) = .returned (some ds) ∧ Shortest 16 ds ∧
      value 16 ds = (v.num % 2 ^ hexBits v.toAny.origType).toNat ∧
      signed (hexBits v.toAny.origType) (value 16 ds) = v.num ∧
      ∀ v' : SqlValue, v = v' ↔
        v.toAny.origType = v'.toAny.origType ∧
          anyToHex (some v.toAny) = anyToHex (some v'.toAny) := by
  refine ⟨_, anyToHex_toAny v, shortest_toDigits base16 _,
    value_toDigits base16 _, ?_, fun v' => ⟨?_, ?_⟩⟩
  · exact signed_hex v
  · rintro rfl
    exact ⟨rfl, rfl⟩
  · rintro ⟨hty, heq⟩
    rw [anyToHex_toAny, anyToHex_toAny] at heq
    injection heq with heq
    injection heq with hds
    apply SqlValue.eq_of_toAny hty
    rw [← signed_hex v, hds, hty, signed_hex v']

example : anyToHex (some (SqlValue.smallint (-1)).toAny) = .returned (some "ffff".toList) := by
  decide

/-! ## `to_hex4` -/

/-- `to_hex4` puts as few zeros as possible before the text of `to_hex`, and the routines for one
type do the same as the one for `any_int`. -/
theorem anyToHex4_padded :
    (∀ a : AnyInt, (∀ code, a.origType ≠ .other code) →
      ∃ ds ps, anyToHex (some a) = .returned (some ds) ∧
        anyToHex4 (some a) = .returned (some ps) ∧ PaddedTo 4 ds ps) ∧
    (∀ v : Int32, ∃ ps, integerToHex4 v = .returned ps ∧
      anyToHex4 (some (integerToAny v)) = .returned (some ps)) ∧
    ∀ v : Int16, ∃ ps, smallintToHex4 v = .returned ps ∧
      anyToHex4 (some (smallintToAny v)) = .returned (some ps) := by
  refine ⟨fun a h => ?_, fun v => ?_, fun v => ?_⟩
  · obtain ⟨ps, hps, hpad⟩ := hex4_padded (twosComplement_hexBits_lt a.origType a.val.toInt)
    refine ⟨_, ps, anyToHex_eq a h, ?_, hpad⟩
    rw [(printed_eq a h).2, hps, Outcome.map_returned]
  · obtain ⟨ps, hps, -⟩ := hex4_padded (lt_trans v.toUInt32.toNat_lt (by norm_num))
    refine ⟨ps, hps, ?_⟩
    rw [anyToHex4_integerToAny]
    exact congrArg (Outcome.map some) hps
  · obtain ⟨ps, hps, -⟩ :=
      hex4_padded (lt_trans v.toInt32.toUInt32.toUInt16.toNat_lt (by norm_num))
    refine ⟨ps, hps, ?_⟩
    rw [anyToHex4_smallintToAny]
    exact congrArg (Outcome.map some) hps

theorem anyToHex4_padded_five_digits :
    ∃ ds ps, anyToHex (some ⟨0x12345, .cBigintType⟩) = .returned (some ds) ∧
      anyToHex4 (some ⟨0x12345, .cBigintType⟩) = .returned (some ps) ∧ PaddedTo 4 ds ps :=
  anyToHex4_padded.1 ⟨0x12345, .cBigintType⟩ (by simp)

end UdrPak.Util
