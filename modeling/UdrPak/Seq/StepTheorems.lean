import UdrPak.Seq.Lemmas.Progress

/-!
# The step that `seq_int_init` leaves

The step leads to the end, unless it has to be turned and has no negation.
-/

namespace UdrPak.Seq

open Host Progression

/-- A state with a step that leads to the end. With three arguments it has the size of the second. -/
structure LeadsToEnd (pMap : PMap) (p2 : Int32) (s : IntSeq) : Prop where
  now : s.now = s.start
  apart : s.start ≠ s.end_
  step : s.step ≠ 0
  direction : s.step > 0 ↔ s.end_ > s.start
  size : pMap = (true, true, true) → s.step.toInt.natAbs = p2.toInt.natAbs

section Init

variable {pMap : PMap} {p1 p2 p3 : Int32} {s : IntSeq}

/-! ## The mapped arguments -/

theorem seqArgs_now :
    (seqArgs pMap p1 p2 p3 .zeroed).now = (seqArgs pMap p1 p2 p3 .zeroed).start := by
  obtain ⟨b1, b2, b3⟩ := pMap
  cases b1 <;> cases b2 <;> cases b3 <;> rfl

theorem seqArgs_minStep (h : (seqArgs pMap p1 p2 p3 .zeroed).step = Int32.minValue) :
    pMap = (true, true, true) := by
  have hunit : ∀ {c : Prop} [Decidable c], (if c then 1 else -1 : Int32) ≠ Int32.minValue := by
    intro c _
    split <;> decide
  obtain ⟨b1, b2, b3⟩ := pMap
  cases b1 <;> cases b2 <;> cases b3 <;> first | rfl | exact absurd h hunit | cases h

/-! ## The turned step -/

theorem leadsToEnd_turnStep (hnow : s.now = s.start) (hstep : s.step ≠ 0)
    (hapart : s.start ≠ s.end_) (hmin : ¬(s.step = Int32.minValue ∧ s.start < s.end_))
    (hsize : pMap = (true, true, true) → s.step = p2) : LeadsToEnd pMap p2 s.turnStep := by
  have hapart' : s.start.toInt ≠ s.end_.toInt := fun h => hapart (Int32.toInt_inj.mp h)
  have hstep' : s.step.toInt ≠ 0 := fun h => hstep (Int32.toInt_inj.mp h)
  have hstride := IntSeq.turnStep_step hapart' hmin
  have habs : s.turnStep.step.toInt.natAbs = s.step.toInt.natAbs := by
    rw [hstride, natAbs_stride]
  refine ⟨?_, ?_, ?_, ?_, ?_⟩
  · rw [IntSeq.turnStep_now, IntSeq.turnStep_start, hnow]
  · rwa [IntSeq.turnStep_start, IntSeq.turnStep_end]
  · intro h
    rw [h] at habs
    exact hstep' (Int.natAbs_eq_zero.mp habs.symm)
  · rw [gt_iff_lt, gt_iff_lt, Int32.lt_iff_toInt_lt, Int32.lt_iff_toInt_lt, hstride,
      IntSeq.turnStep_start, IntSeq.turnStep_end]
    exact stride_pos_iff hstep' hapart'
  · intro h
    rw [habs, hsize h]

/-! ## The stored state -/

theorem leadsToEnd_of_initState (h : initState pMap p1 p2 p3 = some s)
    (hmin : ¬(pMap = (true, true, true) ∧ p2 = Int32.minValue ∧ p1 < p3)) :
    LeadsToEnd pMap p2 s := by
  simp only [initState] at h
  split at h
  · cases h
  · rename_i hgoes
    cases h
    obtain ⟨hstep, hapart⟩ := not_or.mp hgoes
    refine leadsToEnd_turnStep seqArgs_now hstep hapart ?_ ?_
    · rintro ⟨hminStep, hlt⟩
      have hmap := seqArgs_minStep hminStep
      subst hmap
      exact hmin ⟨rfl, hminStep, hlt⟩
    · rintro rfl
      rfl

/-- The step that has no negation is left as it is, and leads away from an end above the start. -/
theorem initState_minStep (h : p1 < p3) :
    initState (true, true, true) p1 Int32.minValue p3 = some ⟨p1, p1, Int32.minValue, p3⟩ := by
  have hargs : seqArgs (true, true, true) p1 Int32.minValue p3 .zeroed =
      ⟨p1, p1, Int32.minValue, p3⟩ := rfl
  have hturn : IntSeq.turnStep ⟨p1, p1, Int32.minValue, p3⟩ = ⟨p1, p1, Int32.minValue, p3⟩ :=
    IntSeq.turnStep_minStep rfl h
  have hgoes : ¬(Int32.minValue = 0 ∨ p1 = p3) := by
    rintro (h0 | rfl)
    · exact absurd h0 (by decide)
    · exact Int32.lt_irrefl h
  rw [initState, hargs, hturn]
  exact if_neg hgoes

theorem not_leadsToEnd_minStep (h : p1 < p3) :
    ¬LeadsToEnd pMap p2 ⟨p1, p1, Int32.minValue, p3⟩ := by
  intro hleads
  have hup : 0 < Int32.minValue := hleads.direction.mpr h
  exact absurd hup (by decide)

/-! ## Runs -/

theorem leadsToEnd_next {r : Option Int32} {s' : IntSeq}
    (h : LeadsToEnd pMap p2 { s with now := s.start }) (hnext : s.next = some (r, s')) :
    LeadsToEnd pMap p2 { s' with now := s'.start } := by
  unfold IntSeq.next at hnext
  split at hnext
  · cases hnext
  · cases hnext
    exact h

/-- A run moves `now` only. -/
theorem leadsToEnd_of_rowsTo {argisnull : Nat → Bool} {prior : Option IntSeq}
    {rows : List (Option Int32)} {x : Nat × MiFparam IntSeq}
    (hmin : ¬(pMapOf argisnull = (true, true, true) ∧ p2 = Int32.minValue ∧ p1 < p3))
    (hrun : RowsTo (seqInt p1 p2 p3) (fun _ => false) (.fresh argisnull prior) rows x) :
    ∃ t, x.2.funcstate = some t ∧ LeadsToEnd (pMapOf argisnull) p2 { t with now := t.start } := by
  obtain ⟨s, t, hs, hreach, hx⟩ := rowsTo_seqInt hrun
  have hinit := leadsToEnd_of_initState hs hmin
  have hstart : { s with now := s.start } = s :=
    congrArg (fun n => { s with now := n }) hinit.now.symm
  refine ⟨t, hx, ?_⟩
  refine hreach.invariant (I := fun s => LeadsToEnd (pMapOf argisnull) p2 { s with now := s.start })
    (fun _ _ _ hleads hnext => leadsToEnd_next hleads hnext) ?_
  rwa [hstart]

end Init

/-- Where `seq_int_init` returns 0, the step it leaves leads to the end, unless three arguments ask
for steps of -2147483648 to an end above the start. -/
theorem seqIntInit_leadsToEnd_iff (p1 p2 p3 : Int32) (fp : MiFparam IntSeq) :
    (∀ fp', seqIntInit p1 p2 p3 fp = (0, fp') →
        ∃ s, fp'.funcstate = some s ∧ LeadsToEnd (pMapOf fp.argisnull) p2 s) ↔
      ¬(pMapOf fp.argisnull = (true, true, true) ∧ p2 = Int32.minValue ∧ p1 < p3) := by
  constructor
  · rintro h ⟨hmap, rfl, hlt⟩
    rcases seqIntInit_eq p1 Int32.minValue p3 fp with ⟨hnone, _⟩ | ⟨s, hs, hinit⟩
    · rw [hmap, initState_minStep hlt] at hnone
      cases hnone
    · rw [hmap, initState_minStep hlt] at hs
      cases hs
      obtain ⟨s', hs', hleads⟩ := h _ hinit
      cases hs'
      exact not_leadsToEnd_minStep hlt hleads
  · intro hmin fp' hzero
    rcases seqIntInit_eq p1 p2 p3 fp with ⟨_, _, hinit⟩ | ⟨s, hs, hinit⟩
    · rw [hinit] at hzero
      cases hzero
    · rw [hinit] at hzero
      cases hzero
      exact ⟨s, rfl, leadsToEnd_of_initState hs hmin⟩

/-- `seq(0, -2147483648, 5)` is left with the step -2147483648. -/
theorem seqIntInit_wraps_minStep :
    ¬∀ fp', seqIntInit 0 (-2147483648) 5 (.fresh (fun _ => false) none) = (0, fp') →
      ∃ s, fp'.funcstate = some s ∧ LeadsToEnd (pMapOf fun _ => false) (-2147483648) s := by
  intro h
  obtain ⟨s, hs, hleads⟩ := h _ rfl
  cases hs
  exact absurd hleads.direction (by decide)

end UdrPak.Seq
