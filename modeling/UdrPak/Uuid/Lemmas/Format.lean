import UdrPak.Lib.Word
import UdrPak.Uuid.Uuid

/-!
# The text of a UUID

The five fields of the format are numerals of a fixed width, so the text has 36 characters and fits
its array.
-/

namespace UdrPak.Uuid

open Libc Numeral Host Realtime Prng

/-- The text with the given digits: 8-4-4-4-12. -/
def grouped (g1 g2 g3 g4 g5 : List Char) : List Char :=
  g1 ++ '-' :: g2 ++ '-' :: g3 ++ '-' :: g4 ++ '-' :: g5

/-- The text of 128 bits. -/
def UuidNum.text (uuid : UuidNum) : List Char :=
  grouped (fixed 16 8 (uuid.qw0.toNat / 2 ^ 32)) (fixed 16 4 (uuid.qw0.toNat / 2 ^ 16))
    (fixed 16 4 uuid.qw0.toNat) (fixed 16 4 (uuid.qw1.toNat / 2 ^ 48)) (fixed 16 12 uuid.qw1.toNat)

section Fields

variable {x : UInt64}

theorem zeroPad_fixed {w m n : Nat} (hw : 0 < w) (h : m = n % 16 ^ w) :
    zeroPad w (Nat.toDigits 16 m) = fixed 16 w n := by
  have hlt : n % 16 ^ w < 16 ^ w := Nat.mod_lt n (by positivity)
  rw [zeroPad, h, leftpad_toDigits base16 hw hlt, fixed_mod]

theorem field32 (k : UInt64) :
    zeroPad 8 (fmtX ((x >>> k) &&& bitMask32).toUInt32) =
      fixed 16 8 (x.toNat / 2 ^ (k.toNat % 64)) := by
  apply zeroPad_fixed (by decide)
  rw [UInt64.toNat_toUInt32, Word.toNat_and_mask (k := 32) (by decide), UInt64.toNat_shiftRight,
    Nat.shiftRight_eq_div_pow]
  exact Nat.mod_mod _ _

theorem field16 : zeroPad 4 (fmtX (x &&& bitMask16).toUInt16.toUInt32) = fixed 16 4 x.toNat := by
  apply zeroPad_fixed (by decide)
  rw [UInt16.toNat_toUInt32, UInt64.toNat_toUInt16, Word.toNat_and_mask (k := 16) (by decide)]
  exact Nat.mod_mod _ _

theorem field48 : zeroPad 12 (fmtLx (x &&& bitMask48)) = fixed 16 12 x.toNat := by
  apply zeroPad_fixed (by decide)
  exact Word.toNat_and_mask (k := 48) (by decide)

end Fields

theorem UuidNum.format_eq (uuid : UuidNum) : uuid.format = uuid.text := by
  rw [UuidNum.format, field32, field16, field16, field16, field48]
  simp only [UInt64.toNat_shiftRight, Nat.shiftRight_eq_div_pow]
  rfl

@[simp] theorem UuidNum.length_text (uuid : UuidNum) : uuid.text.length = 36 := by
  simp [UuidNum.text, grouped]

/-- The text is printed whole, and with its NUL it fits the array. -/
theorem UuidNum.print_eq (uuid : UuidNum) : uuid.print = .returned uuid.text := by
  have hshort : snprintf 40 uuid.format = uuid.text := by
    rw [snprintf, UuidNum.format_eq, List.take_of_length_le (by simp)]
  have hlen := uuid.length_text
  rw [UuidNum.print, hshort, if_pos (by rw [hlen]; decide),
    List.take_of_length_le (by rw [hlen]; decide)]

/-! ## The functions

The text of a UUID is that of its bits, whatever `prng` and the clock have given. -/

section Functions

variable {conn : Option UInt64} {r r' : SeedReadings} {fp fp1 fp2 : MiFparam Xsr256State}
  {p1 p2 : Int64}

theorem uuidv7_eq (realtime : Timespec) (h : xoshiro256StarStar conn r fp = .returned (p2, fp2)) :
    uuidv7 conn realtime r fp =
      .returned ((uuidv7Num (getClocktickNs realtime) p2).text, fp2) := by
  have hprint := (uuidv7Num (getClocktickNs realtime) p2).print_eq
  rw [uuidv7, h, Outcome.bind_returned]
  change ((uuidv7Num (getClocktickNs realtime) p2).print).map (·, fp2) = _
  rw [hprint, Outcome.map_returned]

theorem uuidv4_eq (h1 : xoshiro256StarStar conn r fp = .returned (p1, fp1))
    (h2 : xoshiro256StarStar conn r' fp1 = .returned (p2, fp2)) :
    uuidv4 conn r r' fp = .returned ((uuidv4Num p1 p2).text, fp2) := by
  have hprint := (uuidv4Num p1 p2).print_eq
  rw [uuidv4, h1, Outcome.bind_returned]
  change (xoshiro256StarStar conn r' fp1).bind _ = _
  rw [h2, Outcome.bind_returned]
  change ((uuidv4Num p1 p2).print).map (·, fp2) = _
  rw [hprint, Outcome.map_returned]

end Functions

end UdrPak.Uuid
