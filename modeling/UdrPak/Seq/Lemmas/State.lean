import UdrPak.Host.Lemmas.Runs
import UdrPak.Seq.SeqInt

/-!
# The state of a sequence

What `SET_INIT` and `SET_RETONE` do, said of the state alone. A run of the host gives the same rows
as the state does by itself.
-/

namespace UdrPak.Seq

open Host Cursor

/-- The state has reached its end, in the direction of its step. -/
def IntSeq.AtEnd (s : IntSeq) : Prop :=
  (0 < s.step.toInt ∧ s.end_.toInt ≤ s.now.toInt) ∨ (s.step.toInt < 0 ∧ s.now.toInt ≤ s.end_.toInt)

instance (s : IntSeq) : Decidable s.AtEnd := by unfold IntSeq.AtEnd; infer_instance

/-- A row that is not null, unless the state has reached its end. -/
def IntSeq.next (s : IntSeq) : Option (Option Int32 × IntSeq) :=
  if s.AtEnd then none else some (some s.now, { s with now := s.now + s.step })

theorem IntSeq.turnStep_eq (s : IntSeq) : s.turnStep = { s with step := s.turnStep.step } := by
  unfold turnStep
  split
  · rfl
  · split
    · rfl
    · rfl

@[simp] theorem IntSeq.turnStep_start (s : IntSeq) : s.turnStep.start = s.start := by
  rw [turnStep_eq]

@[simp] theorem IntSeq.turnStep_now (s : IntSeq) : s.turnStep.now = s.now := by
  rw [turnStep_eq]

@[simp] theorem IntSeq.turnStep_end (s : IntSeq) : s.turnStep.end_ = s.end_ := by
  rw [turnStep_eq]

/-! ## `SET_RETONE` -/

section Retone

variable {p1 p2 p3 : Int32} {s : IntSeq} {fp : MiFparam IntSeq}

theorem atEnd_iff : s.AtEnd ↔ (s.step > 0 ∧ s.now ≥ s.end_) ∨ (s.step < 0 ∧ s.now ≤ s.end_) := by
  simp only [IntSeq.AtEnd, gt_iff_lt, ge_iff_le, Int32.lt_iff_toInt_lt, Int32.le_iff_toInt_le,
    Int32.toInt_zero]

theorem seqInt_retone (h : fp.funcstate = some s) :
    seqInt p1 p2 p3 false (fp.call .setRetone) =
      if s.AtEnd then (s.now, (fp.call .setRetone).setisdone)
      else (s.now, (fp.call .setRetone).setfuncstate { s with now := s.now + s.step }) := by
  have hptr : getFuncStatePtr IntSeq.zeroed (fp.call .setRetone) = (s, fp.call .setRetone) :=
    getFuncStatePtr_some h
  simp only [seqInt, MiFparam.call_request, hptr, Bool.false_eq_true, if_false, atEnd_iff]
  by_cases hup : s.step > 0 ∧ s.now ≥ s.end_
  · rw [if_pos hup, if_pos (Or.inl hup)]
  · by_cases hdown : s.step < 0 ∧ s.now ≤ s.end_
    · rw [if_neg hup, if_pos hdown, if_pos (Or.inr hdown)]
    · rw [if_neg hup, if_neg hdown, if_neg (not_or.mpr ⟨hup, hdown⟩)]

/-- The host's fetches from `seq_int` are those from its state. -/
theorem fetch_simulates (p1 p2 p3 : Int32) :
    Simulates (fetch (seqInt p1 p2 p3) (fun _ => false)) IntSeq.next
      (fun x s => x.2.funcstate = some s) := by
  intro x s hx
  rw [fetch, seqInt_retone hx, IntSeq.next]
  by_cases hs : s.AtEnd
  · left
    rw [if_pos hs, if_pos hs]
    exact ⟨rfl, rfl⟩
  · right
    rw [if_neg hs, if_neg hs]
    exact ⟨_, _, _, rfl, rfl, rfl⟩

end Retone

/-! ## `SET_INIT` -/

/-- The state that `seq_int_init` leaves where it returns 0. -/
def initState (pMap : PMap) (p1 p2 p3 : Int32) : Option IntSeq :=
  let s := seqArgs pMap p1 p2 p3 IntSeq.zeroed
  if s.step = 0 ∨ s.start = s.end_ then none else some s.turnStep

def pMapOf (argisnull : Nat → Bool) : PMap := (!argisnull 0, !argisnull 1, !argisnull 2)

/-- Every field that is read later is overwritten. -/
theorem seqArgs_overwrites {pMap : PMap} (h : pMap ≠ (false, false, false)) (p1 p2 p3 : Int32)
    (s s' : IntSeq) : seqArgs pMap p1 p2 p3 s = seqArgs pMap p1 p2 p3 s' := by
  obtain ⟨b1, b2, b3⟩ := pMap
  cases b1 <;> cases b2 <;> cases b3 <;> first | rfl | exact absurd rfl h

section Init

variable {p1 p2 p3 : Int32} {argisnull : Nat → Bool} {prior : Option IntSeq}

/-- `seq_int_init` fails, or stores its state whatever was there before. -/
theorem seqIntInit_eq (p1 p2 p3 : Int32) (fp : MiFparam IntSeq) :
    (initState (pMapOf fp.argisnull) p1 p2 p3 = none ∧
        ∃ fp', seqIntInit p1 p2 p3 fp = (-1, fp')) ∨
      ∃ s, initState (pMapOf fp.argisnull) p1 p2 p3 = some s ∧
        seqIntInit p1 p2 p3 fp = (0, fp.setfuncstate s) := by
  obtain ⟨s₀, fp', hptr, hset⟩ := getFuncStatePtr_setfuncstate IntSeq.zeroed fp
  have hmap : (notArgNull fp 0, notArgNull fp 1, notArgNull fp 2) = pMapOf fp.argisnull := rfl
  simp only [seqIntInit, hmap, hptr]
  by_cases hp : pMapOf fp.argisnull = (false, false, false)
  · rw [if_pos hp, hp]
    exact Or.inl ⟨rfl, _, rfl⟩
  · rw [if_neg hp, seqArgs_overwrites hp p1 p2 p3 s₀ IntSeq.zeroed, initState]
    by_cases hnone : (seqArgs (pMapOf fp.argisnull) p1 p2 p3 IntSeq.zeroed).step = 0 ∨
        (seqArgs (pMapOf fp.argisnull) p1 p2 p3 IntSeq.zeroed).start =
          (seqArgs (pMapOf fp.argisnull) p1 p2 p3 IntSeq.zeroed).end_
    · rw [if_pos hnone, if_pos hnone]
      exact Or.inl ⟨rfl, _, rfl⟩
    · rw [if_neg hnone, if_neg hnone, hset]
      exact Or.inr ⟨_, rfl, rfl⟩

theorem seqInt_init (p1 p2 p3 : Int32) (argisnull : Nat → Bool) (prior : Option IntSeq) :
    (initState (pMapOf argisnull) p1 p2 p3 = none ∧
        (seqInt p1 p2 p3 false ((MiFparam.fresh argisnull prior).call .setInit)).2.isdone = true) ∨
      ∃ s, initState (pMapOf argisnull) p1 p2 p3 = some s ∧
        seqInt p1 p2 p3 false ((MiFparam.fresh argisnull prior).call .setInit) =
          (-1, (MiFparam.fresh argisnull (some s)).call .setInit) := by
  rw [seqInt, MiFparam.call_request]
  rcases seqIntInit_eq p1 p2 p3 ((MiFparam.fresh argisnull prior).call .setInit) with
    ⟨hnone, fp, hinit⟩ | ⟨s, hs, hinit⟩
  · rw [hinit]
    exact Or.inl ⟨hnone, rfl⟩
  · rw [hinit]
    exact Or.inr ⟨s, hs, rfl⟩

/-- A run gives the rows of the state that `seq_int_init` leaves, whatever was there before. -/
theorem rows_seqInt_iff {rows : List (Option Int32)} :
    Rows (seqInt p1 p2 p3) (fun _ => false) (.fresh argisnull prior) rows ↔
      match initState (pMapOf argisnull) p1 p2 p3 with
      | none => rows = []
      | some s => Fetches IntSeq.next s rows := by
  rw [rows_iff]
  rcases seqInt_init p1 p2 p3 argisnull prior with ⟨hnone, hdone⟩ | ⟨s, hs, hinit⟩
  · rw [hnone, if_pos hdone]
  · have hrun : Fetches (fetch (seqInt p1 p2 p3) fun _ => false)
        (0, (MiFparam.fresh argisnull (some s)).call .setInit) rows ↔
          Fetches IntSeq.next s rows := (fetch_simulates p1 p2 p3).fetches_iff rfl
    rw [hs, hinit]
    exact hrun

theorem rowsTo_seqInt {rows : List (Option Int32)} {x : Nat × MiFparam IntSeq}
    (h : RowsTo (seqInt p1 p2 p3) (fun _ => false) (.fresh argisnull prior) rows x) :
    ∃ s t, initState (pMapOf argisnull) p1 p2 p3 = some s ∧ Reaches IntSeq.next s rows t ∧
      x.2.funcstate = some t := by
  obtain ⟨hdone, hreach⟩ := rowsTo_iff.mp h
  rcases seqInt_init p1 p2 p3 argisnull prior with ⟨_, hdone'⟩ | ⟨s, hs, hinit⟩
  · rw [hdone] at hdone'
    cases hdone'
  · rw [hinit] at hreach
    obtain ⟨t, hst, hx⟩ := (fetch_simulates p1 p2 p3).reaches rfl hreach
    exact ⟨s, t, hs, hst, hx⟩

end Init

end UdrPak.Seq
