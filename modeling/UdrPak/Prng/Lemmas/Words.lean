import UdrPak.Lib.Word
import UdrPak.Prng.Prng

/-!
# The words of the generators

The port makes the step of the reference, and an output of either generator determines the word it
is computed from.
-/

namespace UdrPak.Prng

open Realtime

/-! ## Outputs -/

theorem toBitVec_rotl {x k : UInt64} (hk : 0 < k.toNat) (hk' : k.toNat < 64) :
    (rotl x k).toBitVec = x.toBitVec.rotateLeft k.toNat := by
  have hle : k ≤ 64 := UInt64.le_iff_toNat_le.mpr (Nat.le_of_lt hk')
  have hsub : (64 - k).toNat = 64 - k.toNat := UInt64.toNat_sub_of_le _ _ hle
  rw [BitVec.rotateLeft_def, Nat.mod_eq_of_lt hk', rotl, UInt64.toBitVec_or,
    UInt64.toBitVec_shiftLeft, UInt64.toBitVec_shiftRight, BitVec.shiftLeft_eq',
    BitVec.ushiftRight_eq']
  congr 2
  · rw [BitVec.toNat_umod, UInt64.toNat_toBitVec]
    exact Nat.mod_eq_of_lt hk'
  · rw [BitVec.toNat_umod, UInt64.toNat_toBitVec, hsub]
    exact Nat.mod_eq_of_lt (by omega : 64 - k.toNat < 64)

theorem rotl_inj {x y k : UInt64} (hk : 0 < k.toNat) (hk' : k.toNat < 64)
    (h : rotl x k = rotl y k) : x = y := by
  have hbits := congrArg UInt64.toBitVec h
  rw [toBitVec_rotl hk hk', toBitVec_rotl hk hk'] at hbits
  exact UInt64.toBitVec_inj.mp (Word.rotateLeft_inj hbits)

theorem next_output_inj {s s' : Words} (h : (next s).1 = (next s').1) : s.s1 = s'.s1 := by
  have hrot : rotl (s.s1 * 5) 7 = rotl (s'.s1 * 5) 7 :=
    Word.mul_right_inj_of_unit (c := 9) (d := 0x8e38e38e38e38e39) (by decide) h
  have hmul : s.s1 * 5 = s'.s1 * 5 := rotl_inj (by decide) (by decide) hrot
  exact Word.mul_right_inj_of_unit (c := 5) (d := 0xcccccccccccccccd) (by decide) hmul

theorem splitmixNext_output_inj {x y : UInt64} (h : (splitmixNext x).1 = (splitmixNext y).1) :
    x = y := by
  have h31 := Word.xorShiftRight_inj (by decide) h
  have h27 := Word.xorShiftRight_inj (by decide)
    (Word.mul_right_inj_of_unit (d := 0x319642b2d24d8ec3) (by decide) h31)
  have h30 := Word.xorShiftRight_inj (by decide)
    (Word.mul_right_inj_of_unit (d := 0x96de1b173f119089) (by decide) h27)
  exact (UInt64.add_left_inj _).mp h30

/-! ## The port -/

theorem advance_eq (s : Xsr256State) :
    advance s = ((next s.xsrS).1.toInt64, { s with xsrS := (next s.xsrS).2 }) := rfl

/-- The word that a pass of the seeding loop stores. -/
def seedWord (sid ns : UInt64) : UInt64 :=
  (splitmixNext (ns ^^^ ((sid &&& 0xffffffff) <<< 32))).1

theorem seedWord_inj {sid m n : UInt64} (h : seedWord sid m = seedWord sid n) : m = n :=
  (UInt64.xor_left_inj _).mp (splitmixNext_output_inj h)

def seedWords (sid : UInt64) (r : SeedReadings) : Words where
  s0 := getClocktickNs r.realtime
  s1 := seedWord sid (getClocktickNs r.monotonic)
  s2 := seedWord sid (getClocktickNs r.threadCputime)
  s3 := seedWord sid (getClocktickNs r.realtimeAgain)

theorem seed_xsrS (r : SeedReadings) (s : Xsr256State) :
    (seed r s).xsrS = seedWords s.sid r := by
  simp only [seed, seedPass, seedWords, seedWord, splitmixNext]

theorem seed_sid (r : SeedReadings) (s : Xsr256State) : (seed r s).sid = s.sid := by
  cases s with
  | mk w x sid => rfl

end UdrPak.Prng
