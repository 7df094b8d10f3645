import UdrPak.Lib.Decimal

/-!
# The decimals of the host

A `dec_t` is a rational of at most 32 digits. Its arithmetic belongs to the server, and is a
parameter here.
-/

namespace UdrPak.Host

open Decimal

structure Dec where
  val : ℚ
  digits : HasDigits 32 val
  deriving DecidableEq

@[ext] theorem Dec.ext {a b : Dec} (h : a.val = b.val) : a = b := by
  cases a with
  | mk a _ => cases b with
    | mk b _ => cases h; rfl

/-- The routines of the server on decimals, as far as they are called. -/
structure DecLib where
  biginttodec : Int64 → Dec
  decadd : Dec → Dec → Dec
  decmul : Dec → Dec → Dec
  decdiv : Dec → Dec → Dec
  dectrunc : Dec → Nat → Dec

/-- The routines are exact where the result has at most 32 digits, and `dectrunc` cuts off. -/
structure DecLib.Exact (D : DecLib) : Prop where
  biginttodec : ∀ n, (D.biginttodec n).val = n.toInt
  decadd : ∀ a b, HasDigits 32 (a.val + b.val) → (D.decadd a b).val = a.val + b.val
  decmul : ∀ a b, HasDigits 32 (a.val * b.val) → (D.decmul a b).val = a.val * b.val
  decdiv : ∀ a b, b.val ≠ 0 → HasDigits 32 (a.val / b.val) → (D.decdiv a b).val = a.val / b.val
  dectrunc : ∀ a k, (D.dectrunc a k).val = cut k a.val

/-- A decimal, or 0 where the rational has too many digits. -/
def Dec.ofRat (q : ℚ) : Dec :=
  if h : HasDigits 32 q then ⟨q, h⟩ else ⟨0, 0, 0, by decide, by decide, by simp⟩

theorem Dec.val_ofRat {q : ℚ} (h : HasDigits 32 q) : (ofRat q).val = q := by
  rw [ofRat, dif_pos h]

/-- Arithmetic that is exact wherever it can be. -/
def exactDecLib : DecLib where
  biginttodec n := .ofRat n.toInt
  decadd a b := .ofRat (a.val + b.val)
  decmul a b := .ofRat (a.val * b.val)
  decdiv a b := .ofRat (a.val / b.val)
  dectrunc a k := .ofRat (cut k a.val)

theorem hasDigits_int64 (n : Int64) : HasDigits 32 n.toInt := by
  have hlow := n.le_toInt
  have hhigh := n.toInt_lt
  exact hasDigits_int (by omega)

theorem exactDecLib_exact : exactDecLib.Exact where
  biginttodec n := Dec.val_ofRat (hasDigits_int64 n)
  decadd _ _ h := Dec.val_ofRat h
  decmul _ _ h := Dec.val_ofRat h
  decdiv _ _ _ h := Dec.val_ofRat h
  dectrunc a k := Dec.val_ofRat (hasDigits_cut k a.digits)

end UdrPak.Host
