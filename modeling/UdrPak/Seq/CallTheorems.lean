import UdrPak.Seq.EndTheorems
import UdrPak.Seq.RunTheorems

/-!
# Calls of `seq` in any order

The calls since the last `SET_INIT` that had an argument decide what the next one answers: they
count the numbers of a sequence, up to the first one at the end.
-/

namespace UdrPak.Seq

open Host Realtime

abbrev SeqArgs := Int32 × Int32 × Int32

def seqUdr (args : SeqArgs) : Udr IntSeq Int32 := seqInt args.1 args.2.1 args.2.2

/-- `slow_seq_int`, with what the clock shows to its pause. -/
def slowSeqUdr (args : SeqArgs × Timespec × List Turn) : PausingUdr IntSeq Int32 :=
  slowAnswer args.1.1 args.1.2.1 args.1.2.2 args.2

/-- A call of `slow_seq_int` for a row that is not interrupted comes back where its pause ends. -/
def ComesBack (c : HostCall (SeqArgs × Timespec × List Turn)) : Prop :=
  c.request = .setRetone → c.interrupted = false → PauseEnds c.args.2

instance : DecidablePred ComesBack := fun _ => by unfold ComesBack; infer_instance

/-! ## The abstract sequence -/

/-- The state that `SET_INIT` leaves where an argument is not null, also where it fails. -/
def setUp (pMap : PMap) (args : SeqArgs) : IntSeq :=
  let s := seqArgs pMap args.1 args.2.1 args.2.2 IntSeq.zeroed
  if s.step = 0 ∨ s.start = s.end_ then s else s.turnStep

/-- A sequence, and how many of its numbers have been asked for. -/
structure Position where
  seq : IntSeq
  asked : Nat

/-- A `SET_INIT` without arguments leaves the sequence of an earlier one in place. -/
def Position.after (pos : Position) (c : HostCall SeqArgs) : Position :=
  match c.request with
  | .setInit =>
      if pMapOf c.argisnull = (false, false, false) then pos
      else ⟨setUp (pMapOf c.argisnull) c.args, 0⟩
  | .setRetone => if c.interrupted then pos else { pos with asked := pos.asked + 1 }
  | .setEnd => pos
  | .setInvalid => pos

def position (calls : List (HostCall SeqArgs)) : Position :=
  calls.foldl Position.after ⟨IntSeq.zeroed, 0⟩

/-- The next number is the `j`-th: the first one at the end, if that many have been asked for. -/
structure Position.At (pos : Position) (j : Nat) : Prop where
  le_asked : j ≤ pos.asked
  goes_on : ∀ i < j, ¬(pos.seq.walk i).AtEnd
  stays : j = pos.asked ∨ (pos.seq.walk j).AtEnd

/-- What `seq` answers at the position. -/
def Position.Answers (pos : Position) (c : HostCall SeqArgs) (a : Answer Int32) : Prop :=
  match c.request with
  | .setInit =>
      a = if (initState (pMapOf c.argisnull) c.args.1 c.args.2.1 c.args.2.2).isSome then
        ⟨-1, false, false⟩ else ⟨0, true, true⟩
  | .setRetone =>
      if c.interrupted then a = ⟨0, true, true⟩
      else ∃ j, (∀ j', pos.At j' ↔ j' = j) ∧
        a = ⟨(pos.seq.walk j).now, decide (pos.seq.walk j).AtEnd, false⟩
  | .setEnd => a = ⟨-1, false, false⟩
  | .setInvalid => a = ⟨-1, false, false⟩

namespace Position

variable {pos : Position} {j j' : Nat}

theorem At.unique (h : pos.At j) (h' : pos.At j') : j = j' := by
  rcases Nat.lt_trichotomy j j' with hlt | heq | hlt
  · rcases h.stays with hall | hend
    · have := h'.le_asked
      omega
    · exact absurd hend (h'.goes_on j hlt)
  · exact heq
  · rcases h'.stays with hall | hend
    · have := h.le_asked
      omega
    · exact absurd hend (h.goes_on j' hlt)

theorem At.iff_eq (h : pos.At j) : pos.At j' ↔ j' = j :=
  ⟨fun h' => h'.unique h, fun heq => heq ▸ h⟩

theorem at_zero (s : IntSeq) : (⟨s, 0⟩ : Position).At 0 where
  le_asked := Nat.le_refl 0
  goes_on := fun i hi => absurd hi (Nat.not_lt_zero i)
  stays := Or.inl rfl

/-- A number at the end stays the next one, any other is followed by its successor. -/
theorem At.succ (h : pos.At j) :
    ({ pos with asked := pos.asked + 1 } : Position).At
      (if (pos.seq.walk j).AtEnd then j else j + 1) := by
  split
  · rename_i hend
    exact ⟨Nat.le_succ_of_le h.le_asked, h.goes_on, Or.inr hend⟩
  · rename_i hgoes
    have hall : j = pos.asked := h.stays.resolve_right hgoes
    refine ⟨Nat.succ_le_succ h.le_asked, fun i hi => ?_, Or.inl (congrArg (· + 1) hall)⟩
    rcases Nat.lt_succ_iff_lt_or_eq.mp hi with hlt | rfl
    · exact h.goes_on i hlt
    · exact hgoes

theorem Answers.unique {c : HostCall SeqArgs} {a a' : Answer Int32} (h : pos.Answers c a)
    (h' : pos.Answers c a') : a = a' := by
  cases hc : c.request with
  | setRetone =>
      simp only [Answers, hc] at h h'
      cases hi : c.interrupted with
      | true =>
          rw [hi, if_pos rfl] at h h'
          rw [h, h']
      | false =>
          rw [hi, if_neg Bool.false_ne_true] at h h'
          obtain ⟨j, hj, rfl⟩ := h
          obtain ⟨j', hj', rfl⟩ := h'
          rw [(hj' j).mp ((hj j).mpr rfl)]
  | setInit | setEnd | setInvalid =>
      simp only [Answers, hc] at h h'
      rw [h, h']

end Position

/-! ## The code refines it -/

/-- The function state, zeroed where it is missing, is the place that the sequence is at. -/
def Refines (fp : MiFparam IntSeq) (pos : Position) : Prop :=
  ∃ j, pos.At j ∧ fp.funcstate.getD IntSeq.zeroed = pos.seq.walk j

theorem refines_fresh (argisnull : Nat → Bool) :
    Refines (.fresh argisnull none) ⟨IntSeq.zeroed, 0⟩ :=
  ⟨0, Position.at_zero _, IntSeq.walk_zero.symm⟩

theorem seqIntInit_setUp (args : SeqArgs) (fp : MiFparam IntSeq) :
    seqIntInit args.1 args.2.1 args.2.2 fp =
      if pMapOf fp.argisnull = (false, false, false) then (-1, fp)
      else
        (if (initState (pMapOf fp.argisnull) args.1 args.2.1 args.2.2).isSome then 0 else -1,
          fp.setfuncstate (setUp (pMapOf fp.argisnull) args)) := by
  obtain ⟨s₀, fp', hptr, hset⟩ := getFuncStatePtr_setfuncstate IntSeq.zeroed fp
  have hmap : (notArgNull fp 0, notArgNull fp 1, notArgNull fp 2) = pMapOf fp.argisnull := rfl
  simp only [seqIntInit, hmap, hptr]
  by_cases hp : pMapOf fp.argisnull = (false, false, false)
  · rw [if_pos hp, if_pos hp]
  · rw [if_neg hp, if_neg hp, seqArgs_overwrites hp _ _ _ s₀ IntSeq.zeroed, hset, hset, initState,
      setUp]
    split <;> rfl

section Step

variable {fp : MiFparam IntSeq} {pos : Position} {c : HostCall SeqArgs}

theorem run_setInit (h : Refines fp pos) (hc : c.request = .setInit) :
    pos.Answers c (c.run seqUdr fp).1 ∧ Refines (c.run seqUdr fp).2 (pos.after c) := by
  have hnull : (c.fparam fp).argisnull = c.argisnull := rfl
  have hrequest : (c.fparam fp).request = .setInit := hc
  simp only [HostCall.run, seqUdr, seqInt, hrequest, seqIntInit_setUp, hnull, Position.Answers,
    Position.after, hc]
  by_cases hp : pMapOf c.argisnull = (false, false, false)
  · rw [if_pos hp, if_pos hp, hp]
    exact ⟨rfl, h⟩
  · rw [if_neg hp, if_neg hp]
    cases initState (pMapOf c.argisnull) c.args.1 c.args.2.1 c.args.2.2 with
    | none => exact ⟨rfl, 0, Position.at_zero _, IntSeq.walk_zero.symm⟩
    | some s => exact ⟨rfl, 0, Position.at_zero _, IntSeq.walk_zero.symm⟩

/-- A missing function state is allocated and zeroed before it is read. -/
theorem seqInt_retone_getD (p1 p2 p3 : Int32) (fp : MiFparam IntSeq) :
    seqInt p1 p2 p3 false (fp.call .setRetone) =
      seqInt p1 p2 p3 false
        ((fp.setfuncstate (fp.funcstate.getD IntSeq.zeroed)).call .setRetone) := by
  obtain ⟨argisnull, request, isdone, returnisnull, funcstate⟩ := fp
  cases funcstate with
  | none => rfl
  | some s => rfl

theorem run_setRetone (h : Refines fp pos) (hc : c.request = .setRetone) :
    pos.Answers c (c.run seqUdr fp).1 ∧ Refines (c.run seqUdr fp).2 (pos.after c) := by
  have hfparam : c.fparam fp = { fp with argisnull := c.argisnull }.call .setRetone := by
    rw [HostCall.fparam, hc]
  simp only [HostCall.run, seqUdr, hfparam, Position.Answers, Position.after, hc]
  cases c.interrupted with
  | true => exact ⟨rfl, h⟩
  | false =>
      obtain ⟨j, hj, hstate⟩ := h
      have hnext := hj.succ
      rw [seqInt_retone_getD, seqInt_retone rfl, hstate]
      by_cases hend : (pos.seq.walk j).AtEnd
      · rw [if_pos hend] at hnext ⊢
        exact ⟨⟨j, fun _ => hj.iff_eq, by rw [decide_eq_true hend]; rfl⟩, j, hnext, rfl⟩
      · rw [if_neg hend] at hnext ⊢
        refine ⟨⟨j, fun _ => hj.iff_eq, by rw [decide_eq_false hend]; rfl⟩, j + 1, hnext, ?_⟩
        exact IntSeq.walk_succ

/-- One call answers as the position says, and leaves the position after it. -/
theorem run_answers (h : Refines fp pos) :
    pos.Answers c (c.run seqUdr fp).1 ∧ Refines (c.run seqUdr fp).2 (pos.after c) := by
  cases hc : c.request with
  | setInit => exact run_setInit h hc
  | setRetone => exact run_setRetone h hc
  | setEnd | setInvalid =>
      have hrequest : (c.fparam fp).request = c.request := rfl
      simp only [HostCall.run, seqUdr, seqInt, hrequest, Position.Answers, Position.after, hc]
      exact ⟨rfl, h⟩

end Step

theorem refines_serve (argisnull : Nat → Bool) (calls : List (HostCall SeqArgs)) :
    Refines (serve seqUdr calls (.fresh argisnull none)) (position calls) := by
  rw [position]
  exact serve_invariant (I := Refines) (fun _ _ _ h => (run_answers h).2) (refines_fresh argisnull)

theorem pausingRun_slowSeqUdr (c : HostCall (SeqArgs × Timespec × List Turn))
    (fp : MiFparam IntSeq) : c.pausingRun slowSeqUdr fp =
      if ComesBack c then some ((c.map Prod.fst).run seqUdr fp) else none := by
  have hanswer : slowSeqUdr c.args c.interrupted (c.fparam fp) =
      if ComesBack c then some (seqUdr c.args.1 c.interrupted (c.fparam fp)) else none :=
    slowAnswer_eq c.args.2 c.interrupted (c.fparam fp)
  rw [HostCall.pausingRun, hanswer]
  split <;> rfl

/-- After any calls in any order, `seq` answers a call as the position says that the calls before it
have led to, and `slow_seq` does so exactly if every call comes back. -/
theorem seqInt_anyCalls (argisnull : Nat → Bool) :
    (∀ calls c, (position calls).Answers c
      (c.run seqUdr (serve seqUdr calls (.fresh argisnull none))).1) ∧
    ∀ (calls : List (HostCall (SeqArgs × Timespec × List Turn)))
      (c : HostCall (SeqArgs × Timespec × List Turn)) (a : Answer Int32),
      (∃ fp, (pausingServe slowSeqUdr calls (.fresh argisnull none)).bind
          (c.pausingRun slowSeqUdr) = some (a, fp)) ↔
        (∀ call ∈ c :: calls, ComesBack call) ∧
          (position (calls.map (HostCall.map Prod.fst))).Answers (c.map Prod.fst) a := by
  constructor
  · exact fun calls c => (run_answers (refines_serve argisnull calls)).1
  · intro calls c a
    have hanswers := (run_answers (c := c.map Prod.fst)
      (refines_serve argisnull (calls.map (HostCall.map Prod.fst)))).1
    rw [pausingServe_eq pausingRun_slowSeqUdr, List.forall_mem_cons]
    by_cases hcalls : ∀ call ∈ calls, ComesBack call
    · rw [if_pos hcalls, Option.bind_some, pausingRun_slowSeqUdr]
      by_cases hc : ComesBack c
      · rw [if_pos hc]
        constructor
        · rintro ⟨fp, heq⟩
          rw [Option.some.injEq] at heq
          rw [heq] at hanswers
          exact ⟨⟨hc, hcalls⟩, hanswers⟩
        · rintro ⟨-, ha⟩
          exact ⟨_, congrArg some (Prod.ext (hanswers.unique ha) rfl)⟩
      · rw [if_neg hc]
        exact iff_of_false nofun fun h => hc h.1.1
    · rw [if_neg hcalls]
      exact iff_of_false nofun fun h => hcalls h.1.2

/-- A row of `seq(3)`, a `SET_INIT` that has no arguments, and the next row of `seq(3)`. -/
example :
    let row : HostCall SeqArgs := ⟨.setRetone, fun _ => true, (0, 0, 0), false⟩
    (row.run seqUdr (serve seqUdr [⟨.setInit, fun k => k != 0, (3, 0, 0), false⟩, row,
      ⟨.setInit, fun _ => true, (0, 0, 0), false⟩] (.fresh (fun _ => true) none))).1 =
        ⟨1, false, false⟩ := by decide

end UdrPak.Seq
