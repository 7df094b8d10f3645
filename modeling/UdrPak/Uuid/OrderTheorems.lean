import UdrPak.Uuid.Theorems

/-!
# The order of UUIDs

Texts of UUIDs are ordered as their 128 bits. For `uuidv7` these are the milliseconds, the low 12
bits of the nanoseconds and 62 random bits.
-/

namespace UdrPak.Uuid

open Libc Numeral

def UuidNum.number (uuid : UuidNum) : Nat := uuid.qw0.toNat * 2 ^ 64 + uuid.qw1.toNat

theorem text_lt_iff (u v : UuidNum) : u.text < v.text ↔ u.number < v.number := by
  have hu := u.qw1.toNat_lt
  have hv := v.qw1.toNat_lt
  have hu' := u.qw0.toNat_lt
  have hv' := v.qw0.toNat_lt
  have hdash : ¬ ('-' < '-') := by decide
  simp only [UuidNum.text, grouped, List.append_assoc, List.cons_append, fixed_append_lt_iff base16,
    fixed_lt_iff base16, List.cons_lt_cons_iff, hdash, false_or, true_and]
  unfold UuidNum.number
  omega

section Fields

variable {ts ts' : UInt64} {p p' p1 p2 q1 q2 : Int64}

theorem uuidv7_number_lt_iff : (uuidv7Num ts p).number < (uuidv7Num ts' p').number ↔
    [ts.toNat / 1000000, ts.toNat % 4096, p.toUInt64.toNat % 2 ^ 62] <
      [ts'.toNat / 1000000, ts'.toNat % 4096, p'.toUInt64.toNat % 2 ^ 62] := by
  simp only [List.cons_lt_cons_iff, List.not_lt_nil, and_false, or_false]
  rw [UuidNum.number, UuidNum.number, uuidv7_qw0, uuidv7_qw0, uuidv7_qw1, uuidv7_qw1]
  omega

theorem uuidv4_number_lt_iff : (uuidv4Num p1 p2).number < (uuidv4Num q1 q2).number ↔
    [p1.toUInt64.toNat % 2 ^ 48, p2.toUInt64.toNat % 2 ^ 62] <
      [q1.toUInt64.toNat % 2 ^ 48, q2.toUInt64.toNat % 2 ^ 62] := by
  simp only [List.cons_lt_cons_iff, List.not_lt_nil, and_false, or_false]
  rw [UuidNum.number, UuidNum.number, uuidv4_qw0, uuidv4_qw0, uuidv4_qw1, uuidv4_qw1]
  omega

end Fields

/-- Texts that calls of `uuidv7` return are ordered by their milliseconds, then by the low 12 bits
of the nanoseconds and then by the random bits, so not by the times within one millisecond. Texts
that calls of `uuidv4` return are ordered by the bits that are taken from the two random numbers. -/
theorem uuid_order :
    (∀ (ts ts' : UInt64) (p p' : Int64), ∃ s t, (∀ o, Uuidv7Call ts p o ↔ o = .returned s) ∧
      (∀ o, Uuidv7Call ts' p' o ↔ o = .returned t) ∧
      (s < t ↔ [ts.toNat / 1000000, ts.toNat % 4096, p.toUInt64.toNat % 2 ^ 62] <
        [ts'.toNat / 1000000, ts'.toNat % 4096, p'.toUInt64.toNat % 2 ^ 62])) ∧
    ∀ p1 p2 q1 q2 : Int64, ∃ s t, (∀ o, Uuidv4Call p1 p2 o ↔ o = .returned s) ∧
      (∀ o, Uuidv4Call q1 q2 o ↔ o = .returned t) ∧
      (s < t ↔ [p1.toUInt64.toNat % 2 ^ 48, p2.toUInt64.toNat % 2 ^ 62] <
        [q1.toUInt64.toNat % 2 ^ 48, q2.toUInt64.toNat % 2 ^ 62]) := by
  constructor
  · intro ts ts' p p'
    refine ⟨_, _, fun _ => uuidv7Call_iff, fun _ => uuidv7Call_iff, ?_⟩
    rw [text_lt_iff, uuidv7_number_lt_iff]
  · intro p1 p2 q1 q2
    refine ⟨_, _, fun _ => uuidv4Call_iff, fun _ => uuidv4Call_iff, ?_⟩
    rw [text_lt_iff, uuidv4_number_lt_iff]

/-- The later text comes first where the low 12 bits of the nanoseconds turn over. -/
example : (uuidv7Num 4096 0).text < (uuidv7Num 4095 0).text :=
  (text_lt_iff _ _).mpr (by decide)

end UdrPak.Uuid
