import UdrPak.Host.Pauses
import UdrPak.Seq.Lemmas.State

/-!
# What a run of `seq` depends on

A run is decided by its arguments. A state that an earlier run has left does not show, an interrupt
only ends the run, and so does a pause of `slow_seq_int` that does not end. Pauses change nothing
else.
-/

namespace UdrPak.Seq

open Host Cursor Realtime

variable {p1 p2 p3 : Int32} {argisnull : Nat → Bool} {prior prior' : Option IntSeq}
  {interrupts : Nat → Bool} {rows : List (Option Int32)} {x : Nat × MiFparam IntSeq}

/-! ## The state of an earlier run -/

theorem seqInt_init_prior :
    ((seqInt p1 p2 p3 false ((MiFparam.fresh argisnull prior).call .setInit)).2.isdone = true ∧
        (seqInt p1 p2 p3 false ((MiFparam.fresh argisnull prior').call .setInit)).2.isdone = true) ∨
      seqInt p1 p2 p3 false ((MiFparam.fresh argisnull prior).call .setInit) =
        seqInt p1 p2 p3 false ((MiFparam.fresh argisnull prior').call .setInit) := by
  rcases seqInt_init p1 p2 p3 argisnull prior with ⟨hnone, hdone⟩ | ⟨s, hs, hinit⟩
  · rcases seqInt_init p1 p2 p3 argisnull prior' with ⟨_, hdone'⟩ | ⟨s', hs', _⟩
    · exact Or.inl ⟨hdone, hdone'⟩
    · rw [hnone] at hs'
      cases hs'
  · rcases seqInt_init p1 p2 p3 argisnull prior' with ⟨hnone', _⟩ | ⟨s', hs', hinit'⟩
    · rw [hs] at hnone'
      cases hnone'
    · rw [hs] at hs'
      cases hs'
      exact Or.inr (hinit.trans hinit'.symm)

theorem rows_prior :
    Rows (seqInt p1 p2 p3) interrupts (.fresh argisnull prior) rows ↔
      Rows (seqInt p1 p2 p3) interrupts (.fresh argisnull prior') rows := by
  rw [rows_iff, rows_iff]
  rcases @seqInt_init_prior p1 p2 p3 argisnull prior prior' with ⟨hdone, hdone'⟩ | hsame
  · rw [if_pos hdone, if_pos hdone']
  · rw [hsame]

theorem rowsTo_prior :
    RowsTo (seqInt p1 p2 p3) interrupts (.fresh argisnull prior) rows x ↔
      RowsTo (seqInt p1 p2 p3) interrupts (.fresh argisnull prior') rows x := by
  rw [rowsTo_iff, rowsTo_iff]
  rcases @seqInt_init_prior p1 p2 p3 argisnull prior prior' with ⟨hdone, hdone'⟩ | hsame
  · rw [hdone, hdone']
    exact iff_of_false (fun h => Bool.noConfusion h.1) (fun h => Bool.noConfusion h.1)
  · rw [hsame]

/-! ## Interrupts -/

theorem seqInt_interrupted (fp : MiFparam IntSeq) :
    seqInt p1 p2 p3 true (fp.call .setRetone) =
      (0, { fp.call .setRetone with isdone := true, returnisnull := true }) := rfl

theorem interruptible_seqInt (p1 p2 p3 : Int32) : Interruptible (seqInt p1 p2 p3) :=
  fun _ => rfl

/-! ## Pauses -/

/-- The value and the state are those of `seq_int`. Only a call for a row pauses, if it is not
interrupted. -/
theorem slowSeqInt_eq (first : Timespec) (turns : List Turn) (interrupted : Bool)
    (fp : MiFparam IntSeq) : slowSeqInt p1 p2 p3 first turns interrupted fp =
      (seqInt p1 p2 p3 interrupted fp,
        if fp.request = .setRetone ∧ interrupted = false then some (yieldMsProc 100 first turns)
        else none) := by
  unfold slowSeqInt seqInt
  cases fp.request with
  | setInit =>
      simp only
      split <;> rfl
  | setRetone =>
      cases interrupted with
      | true => rfl
      | false =>
          simp only [Bool.false_eq_true, if_false]
          split
          · rfl
          · split <;> rfl
  | setEnd => rfl
  | setInvalid => rfl

/-- What a call of `slow_seq_int` gives back, which is nothing as long as its pause goes on. -/
def slowAnswer (p1 p2 p3 : Int32) (clock : Timespec × List Turn) : PausingUdr IntSeq Int32 :=
  fun interrupted fp =>
    let (answer, wait) := slowSeqInt p1 p2 p3 clock.1 clock.2 interrupted fp
    if wait.any (·.exit = .waiting) then none else some answer

/-- The pause of a call that sees this of the clock comes to its end. -/
def PauseEnds (clock : Timespec × List Turn) : Prop :=
  (yieldMsProc 100 clock.1 clock.2).exit ≠ .waiting

instance (clock : Timespec × List Turn) : Decidable (PauseEnds clock) := by
  unfold PauseEnds; infer_instance

theorem slowAnswer_eq (clock : Timespec × List Turn) (interrupted : Bool) (fp : MiFparam IntSeq) :
    slowAnswer p1 p2 p3 clock interrupted fp =
      if fp.request = .setRetone → interrupted = false → PauseEnds clock then
        some (seqInt p1 p2 p3 interrupted fp)
      else none := by
  simp only [slowAnswer, slowSeqInt_eq]
  by_cases hrow : fp.request = .setRetone ∧ interrupted = false
  · simp [hrow, PauseEnds]
  · have hback : fp.request = .setRetone → interrupted = false → PauseEnds clock :=
      fun hrequest hrun => absurd ⟨hrequest, hrun⟩ hrow
    rw [if_neg hrow, if_pos hback]
    rfl

/-- `slow_seq_int` at each call for a row, by what the clock shows at the call. -/
def slowUdr (p1 p2 p3 : Int32) (clock : Nat → Timespec × List Turn) (k : Nat) :
    PausingUdr IntSeq Int32 := slowAnswer p1 p2 p3 (clock k)

theorem slowUdr_pausesAs (p1 p2 p3 : Int32) (clock : Nat → Timespec × List Turn) :
    PausesAs (slowUdr p1 p2 p3 clock) (seqInt p1 p2 p3) fun k => PauseEnds (clock k) where
  init fp := by rw [slowUdr, slowAnswer_eq, if_pos nofun]
  interrupted k fp := by rw [slowUdr, slowAnswer_eq, if_pos fun _ => nofun]
  ended k fp hend := by rw [slowUdr, slowAnswer_eq, if_pos fun _ _ => hend]
  waiting k fp hwait := by rw [slowUdr, slowAnswer_eq, if_neg fun h => hwait (h rfl rfl)]

/-! ## Runs -/

/-- What decides a run that is asked for with the arguments, and met by the interrupts. -/
structure RunDecided (p1 p2 p3 : Int32) (argisnull : Nat → Bool) (interrupts : Nat → Bool) :
    Prop where
  /-- The rows, and the states from row to row, are those of a run without a prior state. -/
  rows_fresh : ∀ prior rows, Rows (seqInt p1 p2 p3) interrupts (.fresh argisnull prior) rows ↔
    Rows (seqInt p1 p2 p3) interrupts (.fresh argisnull none) rows
  rowsTo_fresh : ∀ prior rows x,
    RowsTo (seqInt p1 p2 p3) interrupts (.fresh argisnull prior) rows x ↔
      RowsTo (seqInt p1 p2 p3) interrupts (.fresh argisnull none) rows x
  /-- The rows are a prefix of those without interrupts, of which there may be no end. -/
  rows_prefix : ∀ prior rows all, Rows (seqInt p1 p2 p3) interrupts (.fresh argisnull prior) rows →
    Rows (seqInt p1 p2 p3) (fun _ => false) (.fresh argisnull prior) all → rows <+: all
  rowsTo_prefix : ∀ prior rows x,
    RowsTo (seqInt p1 p2 p3) interrupts (.fresh argisnull prior) rows x →
      RowsTo (seqInt p1 p2 p3) (fun _ => false) (.fresh argisnull prior) rows x
  rows_interrupted : ∀ prior rows x,
    RowsTo (seqInt p1 p2 p3) (fun _ => false) (.fresh argisnull prior) rows x →
      (∀ k < rows.length, interrupts k = false) → interrupts rows.length = true →
        Rows (seqInt p1 p2 p3) interrupts (.fresh argisnull prior) rows
  /-- The call that is interrupted is done, has no value, and leaves the state. -/
  interrupted : ∀ fp : MiFparam IntSeq, seqInt p1 p2 p3 true (fp.call .setRetone) =
    (0, { fp.call .setRetone with isdone := true, returnisnull := true })
  /-- `slow_seq_int` has the same values and states, whatever the clock shows to its pauses. Its
  rows are the same as far as the pauses end. -/
  slow : ∀ first turns i fp, (slowSeqInt p1 p2 p3 first turns i fp).1 = seqInt p1 p2 p3 i fp
  rowsTo_slow : ∀ clock prior rows x,
    PausingRowsTo (slowUdr p1 p2 p3 clock) interrupts (.fresh argisnull prior) rows x ↔
      RowsTo (seqInt p1 p2 p3) interrupts (.fresh argisnull prior) rows x ∧
        ∀ k < rows.length, PauseEnds (clock k)

theorem seqInt_runDecided (p1 p2 p3 : Int32) (argisnull : Nat → Bool) (interrupts : Nat → Bool) :
    RunDecided p1 p2 p3 argisnull interrupts where
  rows_fresh _ _ := rows_prior
  rowsTo_fresh _ _ _ := rowsTo_prior
  rows_prefix _ _ _ hrows hall := by
    rcases rows_iff_rowsTo.mp hrows with ⟨_, rfl⟩ | ⟨_, hto, _⟩
    · exact List.nil_prefix
    · exact ((interruptible_seqInt p1 p2 p3).rowsTo hto).isPrefix hall
  rowsTo_prefix _ _ _ hto := (interruptible_seqInt p1 p2 p3).rowsTo hto
  rows_interrupted _ _ _ hto hno hyes :=
    (interruptible_seqInt p1 p2 p3).rows_of_interrupt hto hno hyes
  interrupted := seqInt_interrupted
  slow first turns i fp := congrArg Prod.fst (slowSeqInt_eq first turns i fp)
  rowsTo_slow clock _ _ _ :=
    (slowUdr_pausesAs p1 p2 p3 clock).rowsTo_iff (interruptible_seqInt p1 p2 p3)

end UdrPak.Seq
