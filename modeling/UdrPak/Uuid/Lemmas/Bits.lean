import UdrPak.Uuid.Lemmas.Format

/-!
# The bits of a UUID

The 128 bits as sums of their fields.
-/

namespace UdrPak.Uuid

open Libc Numeral

section Bits

variable {ts : UInt64} {p p1 p2 : Int64}

theorem toNat_low12 (x : UInt64) : (x &&& 0xfff).toNat = x.toNat % 4096 :=
  Word.toNat_and_mask (k := 12) (by decide)

theorem toNat_version (x v : UInt64) (hv : v.toNat + 4096 ≤ 2 ^ 16) :
    (v + (x &&& 0xfff)).toNat = v.toNat + x.toNat % 4096 := by
  have hmod : x.toNat % 4096 < 4096 := Nat.mod_lt _ (by decide)
  rw [UInt64.toNat_add, toNat_low12, Nat.mod_eq_of_lt (by omega)]

theorem toNat_qw1 (p : Int64) :
    ((0x2 : UInt64) <<< 62 + (p.toUInt64 &&& 0x3fffffffffffffff)).toNat =
      2 ^ 63 + p.toUInt64.toNat % 2 ^ 62 := by
  have hvariant : ((0x2 : UInt64) <<< 62).toNat = 2 ^ 63 := by decide
  have hmod : p.toUInt64.toNat % 2 ^ 62 < 2 ^ 62 := Nat.mod_lt _ (by decide)
  rw [UInt64.toNat_add, hvariant, Word.toNat_and_mask (k := 62) (by decide),
    Nat.mod_eq_of_lt (by omega)]

theorem uuidv7_qw1 : (uuidv7Num ts p2).qw1.toNat = 2 ^ 63 + p2.toUInt64.toNat % 2 ^ 62 :=
  toNat_qw1 p2

theorem uuidv4_qw1 : (uuidv4Num p1 p2).qw1.toNat = 2 ^ 63 + p2.toUInt64.toNat % 2 ^ 62 :=
  toNat_qw1 p2

theorem millis_lt (ts : UInt64) : ts.toNat / 1000000 < 2 ^ 45 := by
  have hlt := ts.toNat_lt
  omega

theorem uuidv7_qw0 : (uuidv7Num ts p2).qw0.toNat =
    ts.toNat / 1000000 * 2 ^ 16 + (0x7000 + ts.toNat % 4096) := by
  have hmillis := millis_lt ts
  have hlow : ts.toNat % 4096 < 4096 := Nat.mod_lt _ (by decide)
  have hmask : (~~~(0xf000 : Int32)).toInt64.toUInt64.toNat = 0xffffffffffff0fff := by decide
  have hshift : ((ts / 1000000) <<< 16).toNat = (ts.toNat / 1000000) <<< 16 := by
    rw [UInt64.toNat_shiftLeft, UInt64.toNat_div]
    change (ts.toNat / 1000000) <<< 16 % 2 ^ 64 = _
    rw [Nat.shiftLeft_eq, Nat.mod_eq_of_lt (by omega)]
  have hversion : (0x7000 + (ts &&& 0xfff)).toNat = 0x7000 + ts.toNat % 4096 :=
    toNat_version ts 0x7000 (by decide)
  simp only [uuidv7Num]
  rw [UInt64.toNat_or, UInt64.toNat_and, hmask, hshift, hversion, Word.shiftLeft_and]
  change (ts.toNat / 1000000 &&& (2 ^ 48 - 1)) <<< 16 ||| _ = _
  rw [Nat.and_two_pow_sub_one_eq_mod, Nat.mod_eq_of_lt (by omega), Word.shiftLeft_or (by omega)]

theorem uuidv4_qw0 : (uuidv4Num p1 p2).qw0.toNat =
    p1.toUInt64.toNat % 2 ^ 48 * 2 ^ 16 + (0x4000 + p1.toUInt64.toNat % 4096) := by
  have hlow : p1.toUInt64.toNat % 4096 < 4096 := Nat.mod_lt _ (by decide)
  have hshift : (p1 <<< 16).toUInt64.toNat = p1.toUInt64.toNat % 2 ^ 48 * 2 ^ 16 := by
    have hcast : (p1 <<< 16).toUInt64 = p1.toUInt64 <<< 16 := rfl
    rw [hcast, UInt64.toNat_shiftLeft, Nat.shiftLeft_eq]
    change p1.toUInt64.toNat * 2 ^ 16 % 2 ^ 64 = _
    omega
  have hversion : (0x4000 + (p1.toUInt64 &&& 0xfff)).toNat = 0x4000 + p1.toUInt64.toNat % 4096 :=
    toNat_version p1.toUInt64 0x4000 (by decide)
  have hhigh : p1.toUInt64.toNat % 2 ^ 48 < 2 ^ 48 := Nat.mod_lt _ (by decide)
  simp only [uuidv4Num]
  rw [UInt64.toNat_add, hshift, hversion, Nat.mod_eq_of_lt (by omega)]

end Bits

end UdrPak.Uuid
