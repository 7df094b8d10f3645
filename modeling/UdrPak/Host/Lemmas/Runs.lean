import UdrPak.Host.Fparam

/-!
# Runs of an iterator function

The rows of a run that is watched before its end, and what an interrupt does to a run.
-/

namespace UdrPak.Host

open Cursor

variable {σ α : Type} {udr : Udr σ α} {interrupts : Nat → Bool} {fp : MiFparam σ}
  {rows : List (Option α)} {s t : Nat × MiFparam σ}

theorem rows_iff : Rows udr interrupts fp rows ↔
    if (udr false (fp.call .setInit)).2.isdone then rows = []
    else Fetches (fetch udr interrupts) (0, (udr false (fp.call .setInit)).2) rows := Iff.rfl

theorem rowsTo_iff : RowsTo udr interrupts fp rows s ↔
    (udr false (fp.call .setInit)).2.isdone = false ∧
      Reaches (fetch udr interrupts) (0, (udr false (fp.call .setInit)).2) rows s := Iff.rfl

theorem rows_iff_rowsTo :
    Rows udr interrupts fp rows ↔
      ((udr false (fp.call .setInit)).2.isdone = true ∧ rows = []) ∨
        ∃ s, RowsTo udr interrupts fp rows s ∧ fetch udr interrupts s = none := by
  simp only [rows_iff, rowsTo_iff]
  cases hd : (udr false (fp.call .setInit)).2.isdone with
  | true => simp
  | false =>
      simp only [Bool.false_eq_true, if_false, false_and, false_or, true_and]
      exact fetches_iff_reaches

theorem RowsTo.isPrefix {all : List (Option α)} (h : RowsTo udr interrupts fp rows s)
    (hall : Rows udr interrupts fp all) : rows <+: all := by
  obtain ⟨hdone, hreach⟩ := rowsTo_iff.mp h
  rw [rows_iff, hdone, if_neg Bool.false_ne_true] at hall
  exact hreach.isPrefix hall

/-! ## Interrupts -/

/-- A call for a row that is interrupted is done. -/
def Interruptible (udr : Udr σ α) : Prop :=
  ∀ fp : MiFparam σ, (udr true (fp.call .setRetone)).2.isdone = true

theorem Interruptible.fetch_eq_none (h : Interruptible udr) (hs : interrupts s.1 = true) :
    fetch udr interrupts s = none := by
  rw [fetch, hs]
  exact if_pos (h s.2)

theorem fetch_some {a : Option α} (h : fetch udr interrupts s = some (a, t)) :
    t.1 = s.1 + 1 := by
  simp only [fetch, Option.ite_none_left_eq_some, Option.some.injEq, Prod.mk.injEq] at h
  rw [← h.2.2]

theorem Interruptible.fetch_some_iff (h : Interruptible udr) {a : Option α} :
    fetch udr interrupts s = some (a, t) ↔
      fetch udr (fun _ => false) s = some (a, t) ∧ interrupts s.1 = false := by
  cases hi : interrupts s.1 with
  | true => simp [h.fetch_eq_none hi]
  | false => simp [fetch, hi]

/-- What is fetched under interrupts is fetched without them, as long as none has come. -/
theorem Interruptible.reaches_iff (h : Interruptible udr) :
    Reaches (fetch udr interrupts) s rows t ↔
      Reaches (fetch udr fun _ => false) s rows t ∧
        ∀ k < rows.length, interrupts (s.1 + k) = false :=
  @reaches_guarded_iff _ _ _ _ Prod.fst (interrupts · = false) _ _ _ (fun _ _ _ => fetch_some)
    fun _ _ _ => h.fetch_some_iff

theorem Interruptible.rowsTo (h : Interruptible udr) (hrun : RowsTo udr interrupts fp rows s) :
    RowsTo udr (fun _ => false) fp rows s := by
  obtain ⟨hdone, hreach⟩ := rowsTo_iff.mp hrun
  exact rowsTo_iff.mpr ⟨hdone, (h.reaches_iff.mp hreach).1⟩

/-- An interrupt ends the run after the rows that were fetched before it. -/
theorem Interruptible.rows_of_interrupt (h : Interruptible udr)
    (hrun : RowsTo udr (fun _ => false) fp rows s) (hno : ∀ k < rows.length, interrupts k = false)
    (hyes : interrupts rows.length = true) : Rows udr interrupts fp rows := by
  obtain ⟨hdone, hfree⟩ := rowsTo_iff.mp hrun
  have hreach : Reaches (fetch udr interrupts) (0, (udr false (fp.call .setInit)).2) rows s := by
    refine h.reaches_iff.mpr ⟨hfree, fun k hk => ?_⟩
    rw [Nat.zero_add]
    exact hno k hk
  have hlast : s.1 = 0 + rows.length := hfree.count_eq fun _ _ _ => fetch_some
  refine rows_iff_rowsTo.mpr (Or.inr ⟨s, rowsTo_iff.mpr ⟨hdone, hreach⟩, h.fetch_eq_none ?_⟩)
  rw [hlast, Nat.zero_add]
  exact hyes

end UdrPak.Host
