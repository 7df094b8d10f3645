import Mathlib.Tactic.Ring

/-!
# Arithmetic of signed 64-bit integers

An expression, what a machine computes for it, and its value over the integers. The two are the
same if no subexpression leaves the range.
-/

namespace Long

inductive Expr where
  | lit (n : Int64)
  | add (a b : Expr)
  | mul (a b : Expr)
  | div (a b : Expr)
  deriving DecidableEq

def Fits (n : Int) : Prop := -2 ^ 63 ≤ n ∧ n < 2 ^ 63

instance (n : Int) : Decidable (Fits n) := by unfold Fits; infer_instance

namespace Expr

def eval : Expr → Int64
  | lit n => n
  | add a b => a.eval + b.eval
  | mul a b => a.eval * b.eval
  | div a b => a.eval / b.eval

/-- The value over the integers. A quotient is rounded towards zero. -/
def exact : Expr → Int
  | lit n => n.toInt
  | add a b => a.exact + b.exact
  | mul a b => a.exact * b.exact
  | div a b => a.exact.tdiv b.exact

/-- No subexpression leaves the range. -/
def InRange : Expr → Prop
  | lit _ => True
  | add a b => a.InRange ∧ b.InRange ∧ Fits (a.exact + b.exact)
  | mul a b => a.InRange ∧ b.InRange ∧ Fits (a.exact * b.exact)
  | div a b => a.InRange ∧ b.InRange ∧ b.exact ≠ 0 ∧ Fits (a.exact.tdiv b.exact)

theorem bmod_of_fits {n : Int} (h : Fits n) : n.bmod (2 ^ 64) = n := by
  have h' := h
  unfold Fits at h'
  exact Int.bmod_eq_of_le (by omega) (by omega)

theorem toInt_eval {e : Expr} (h : e.InRange) : e.eval.toInt = e.exact := by
  induction e with
  | lit n => rfl
  | add a b iha ihb =>
      rw [eval, Int64.toInt_add, iha h.1, ihb h.2.1, bmod_of_fits h.2.2, exact]
  | mul a b iha ihb =>
      rw [eval, Int64.toInt_mul, iha h.1, ihb h.2.1, bmod_of_fits h.2.2, exact]
  | div a b iha ihb =>
      rw [eval, Int64.toInt_div, iha h.1, ihb h.2.1, bmod_of_fits h.2.2.2, exact]

end Expr

end Long
