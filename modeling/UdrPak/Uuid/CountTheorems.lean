import UdrPak.Lib.Fibers
import UdrPak.Uuid.Lemmas.Session
import UdrPak.Uuid.OrderTheorems

/-!
# How many UUIDs `uuidv4` has

A random number of `prng` is a bijective image of the clock that seeds it, so `uuidv4` spreads the
pairs of clock readings evenly over its texts.
-/

namespace UdrPak.Uuid

open Host Libc Realtime Prng Fibers

/-! ## The words of `prng` -/

theorem even_residue {k : Nat} (hk : k ≤ 64) :
    Even (fun x : UInt64 => x.toNat % 2 ^ k) (2 ^ (64 - k)) := by
  have hsplit : 2 ^ 64 = 2 ^ (64 - k) * 2 ^ k := by
    rw [← pow_add, Nat.sub_add_cancel hk]
  exact even_mod.comp_bijective (Word.equivFin.trans (finCongr hsplit)).bijective

/-! ## The texts -/

section Texts

variable {p1 p2 q1 q2 : Int64}

theorem text_inj {u v : UuidNum} : u.text = v.text ↔ u.number = v.number := by
  constructor
  · intro h
    rcases Nat.lt_trichotomy u.number v.number with hlt | heq | hgt
    · exact absurd ((text_lt_iff u v).mpr hlt) (h ▸ List.lt_irrefl _)
    · exact heq
    · exact absurd ((text_lt_iff v u).mpr hgt) (h ▸ List.lt_irrefl _)
  · intro h
    have hu := u.qw1.toNat_lt
    have hv := v.qw1.toNat_lt
    unfold UuidNum.number at h
    have h0 : u.qw0.toNat = v.qw0.toNat := by omega
    have h1 : u.qw1.toNat = v.qw1.toNat := by omega
    rw [UuidNum.text, UuidNum.text, h0, h1]

theorem uuidv4_text_inj : (uuidv4Num p1 p2).text = (uuidv4Num q1 q2).text ↔
    (p1.toUInt64.toNat % 2 ^ 48, p2.toUInt64.toNat % 2 ^ 62) =
      (q1.toUInt64.toNat % 2 ^ 48, q2.toUInt64.toNat % 2 ^ 62) := by
  rw [text_inj, UuidNum.number, UuidNum.number, uuidv4_qw0, uuidv4_qw0, uuidv4_qw1, uuidv4_qw1,
    Prod.mk.injEq]
  omega

end Texts

/-- The text that `uuidv4` makes in a session when the monotonic clock shows `x` and then `y`. -/
def textAt (sid x y : UInt64) : List Char :=
  (uuidv4Num (firstOutput sid x).toInt64 (firstOutput sid y).toInt64).text

theorem even_textAt (sid : UInt64) :
    Even (fun z : UInt64 × UInt64 => textAt sid z.1 z.2) (2 ^ 18) := by
  have hwords := (even_residue (k := 48) (by decide)).prodMap (even_residue (k := 62) (by decide))
  have hclocks := hwords.comp_bijective
    ((firstOutput_bijective sid).prodMap (firstOutput_bijective sid))
  exact hclocks.congr fun _ _ => uuidv4_text_inj.symm

/-- `uuidv4` makes `2^110` different texts in a session, each for as many pairs of readings of the
monotonic clock as every other. -/
theorem uuidv4_even (conn : Option UInt64) (fp : MiFparam Xsr256State)
    (h : sessionId conn fp ≠ 0) :
    ∃ text : UInt64 → UInt64 → List Char,
      (∀ r r' : SeedReadings, ∃ fp', uuidv4 conn r r' fp = .returned
        (text (getClocktickNs r.monotonic) (getClocktickNs r'.monotonic), fp')) ∧
      (∀ x y, Nat.card {z : UInt64 × UInt64 // text z.1 z.2 = text x y} = 2 ^ 18) ∧
      Nat.card (Set.range fun z : UInt64 × UInt64 => text z.1 z.2) = 2 ^ 110 := by
  refine ⟨textAt (sessionId conn fp), fun r r' => ?_, fun x y => even_textAt _ (x, y), ?_⟩
  · obtain ⟨fp', hcall, -⟩ := uuidv4_session h r r'
    exact ⟨fp', hcall⟩
  have hcount := (even_textAt (sessionId conn fp)).card_range
  rw [Nat.card_prod, Word.card_uInt64] at hcount
  omega

theorem uuidv4_even_session :
    ∃ text : UInt64 → UInt64 → List Char,
      (∀ r r' : SeedReadings, ∃ fp', uuidv4 (some 7) r r' (.fresh (fun _ => true) none) = .returned
        (text (getClocktickNs r.monotonic) (getClocktickNs r'.monotonic), fp')) ∧
      (∀ x y, Nat.card {z : UInt64 × UInt64 // text z.1 z.2 = text x y} = 2 ^ 18) ∧
      Nat.card (Set.range fun z : UInt64 × UInt64 => text z.1 z.2) = 2 ^ 110 :=
  uuidv4_even (some 7) (.fresh (fun _ => true) none) (by decide)

end UdrPak.Uuid
