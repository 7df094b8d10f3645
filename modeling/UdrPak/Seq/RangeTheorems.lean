import UdrPak.Seq.Theorems

/-!
# One and two arguments

With one or two arguments, `seq` counts from the start to the end in steps of one.
-/

namespace UdrPak.Seq

open Host Cursor Progression

/-- The arguments that are not null, in their order. -/
def given (argisnull : Nat → Bool) (p1 p2 p3 : Int32) : List Int32 :=
  ([(argisnull 0, p1), (argisnull 1, p2), (argisnull 2, p3)].filter (!·.1)).map (·.2)

/-- The direction of a count from `a` to `b`. -/
def direction (a b : Int32) : Int := if a < b then 1 else -1

/-- The run counts from `a` up or down to `b`, as `seq(a, 1, b)` and `seq(a, -1, b)` do. -/
structure Counts (p1 p2 p3 : Int32) (argisnull : Nat → Bool) (prior : Option IntSeq)
    (a b : Int32) : Prop where
  rows : ∃ rows, Rows (seqInt p1 p2 p3) (fun _ => false) (.fresh argisnull prior) rows ∧
    rows.map (Option.map Int32.toInt) = (List.range (b.toInt - a.toInt).natAbs).map
      fun k : Nat => some (a.toInt + k * direction a b)
  now : ∀ rows x, RowsTo (seqInt p1 p2 p3) (fun _ => false) (.fresh argisnull prior)
    rows x → ∃ s, x.2.funcstate = some s ∧ min a.toInt b.toInt ≤ s.now.toInt ∧
      s.now.toInt ≤ max a.toInt b.toInt ∧
      (¬s.AtEnd → (s.now + s.step).toInt = s.now.toInt + s.step.toInt)
  up : ∀ prior' rows,
    Rows (seqInt p1 p2 p3) (fun _ => false) (.fresh argisnull prior) rows ↔
      Rows (seqInt a 1 b) (fun _ => false) (.fresh (fun _ => false) prior') rows
  down : ∀ prior' rows,
    Rows (seqInt p1 p2 p3) (fun _ => false) (.fresh argisnull prior) rows ↔
      Rows (seqInt a (-1) b) (fun _ => false) (.fresh (fun _ => false) prior') rows

section Counts

variable {p1 p2 p3 a b : Int32} {argisnull : Nat → Bool} {prior : Option IntSeq}

/-- The state of a count from `a` to `b`. -/
def countState (a b : Int32) : IntSeq := ⟨a, a, if b > a then 1 else -1, b⟩

/-! ## The state -/

theorem countState_step : (countState a b).step.toInt = direction a b := by
  unfold countState direction
  by_cases h : a < b
  · rw [if_pos h, if_pos h]; rfl
  · rw [if_neg h, if_neg h]; rfl

theorem stride_one (h : a ≠ b) : stride a.toInt 1 b.toInt = direction a b := by
  have hapart : a.toInt ≠ b.toInt := fun h' => h (Int32.toInt_inj.mp h')
  unfold stride direction
  by_cases hlt : a < b
  · rw [if_pos hlt, if_pos (Int.le_of_lt (Int32.lt_iff_toInt_lt.mp hlt))]
    rfl
  · have hgt : ¬a.toInt ≤ b.toInt := by
      rw [Int32.lt_iff_toInt_lt] at hlt
      omega
    rw [if_neg hlt, if_neg hgt]
    rfl

/-- A step of one is turned into the direction of the end. -/
theorem turnStep_one {s : IntSeq} (hnow : s.now = s.start) (hapart : s.start ≠ s.end_)
    (hone : s.step = 1 ∨ s.step = -1) : s.turnStep = countState s.start s.end_ := by
  have hapart' : s.start.toInt ≠ s.end_.toInt := fun h => hapart (Int32.toInt_inj.mp h)
  have hmin : ¬(s.step = Int32.minValue ∧ s.start < s.end_) := by
    rintro ⟨hmin, -⟩
    rw [hmin] at hone
    revert hone
    decide
  have hsize : stride s.start.toInt s.step.toInt s.end_.toInt =
      stride s.start.toInt 1 s.end_.toInt := by
    rcases hone with h | h
    · rw [h]; rfl
    · rw [h]; rfl
  have hstep : s.turnStep.step = (countState s.start s.end_).step := by
    rw [← Int32.toInt_inj, IntSeq.turnStep_step hapart' hmin, hsize, stride_one hapart,
      countState_step]
  rw [IntSeq.turnStep_eq, hstep]
  simp only [countState, hnow]

theorem turnStep_countState (h : a ≠ b) : (countState a b).turnStep = countState a b := by
  have hone : (countState a b).step = 1 ∨ (countState a b).step = -1 := by
    unfold countState
    by_cases hlt : b > a
    · exact Or.inl (if_pos hlt)
    · exact Or.inr (if_neg hlt)
  exact turnStep_one rfl h hone

theorem count_one (a b : Int32) : (countState a b).count 1 = (b.toInt - a.toInt).natAbs := by
  simp [IntSeq.count, countState, Progression.count]

theorem countState_starts (h : a ≠ b) : (countState a b).Starts 1 where
  now := rfl
  size := by decide
  apart := fun h' => h (Int32.toInt_inj.mp h')
  step := by rw [countState_step, ← stride_one h]; rfl

theorem term_between {k : Nat} (h : a ≠ b) (hk : k ≤ (countState a b).count 1) :
    min a.toInt b.toInt ≤ (countState a b).term 1 k ∧
      (countState a b).term 1 k ≤ max a.toInt b.toInt := by
  have hstart := countState_starts h
  rcases Nat.lt_or_eq_of_le hk with hlt | rfl
  · have hbefore := term_before hstart.size hlt
    simp only [countState, IntSeq.term] at hbefore ⊢
    omega
  · -- steps of one reach the end exactly
    have hreached := term_count hstart.size hstart.apart
    simp only [countState, IntSeq.term, IntSeq.count] at hreached ⊢
    omega

theorem fits_between {n : Int} (h : min a.toInt b.toInt ≤ n ∧ n ≤ max a.toInt b.toInt) :
    Fits n := by
  have ha := fits_toInt a
  have hb := fits_toInt b
  unfold Fits at *
  omega

theorem fetches_countState (h : a ≠ b) :
    ∃ rows, Fetches IntSeq.next (countState a b) rows ∧
      rows.map (Option.map Int32.toInt) = (List.range (b.toInt - a.toInt).natAbs).map
        fun k : Nat => some (a.toInt + k * direction a b) := by
  have hstart := countState_starts h
  have hend := fits_between (term_between h (Nat.le_refl _))
  obtain ⟨rows, hrows, hterms⟩ := (hstart.fetches_iff (by decide)).mpr hend
  refine ⟨rows, hrows, ?_⟩
  rw [hterms, terms, List.map_map, ← count_one, ← stride_one h]
  rfl

/-- No state of a count lies outside of its range, so no step leaves the machine integers. -/
theorem reaches_countState {rows : List (Option Int32)} {t : IntSeq} (h : a ≠ b)
    (hreach : Reaches IntSeq.next (countState a b) rows t) :
    min a.toInt b.toInt ≤ t.now.toInt ∧ t.now.toInt ≤ max a.toInt b.toInt ∧
      (¬t.AtEnd → (t.now + t.step).toInt = t.now.toInt + t.step.toInt) := by
  have hstart := countState_starts h
  have hrow := fun k (hk : k < (countState a b).count 1) => hstart.next_after hk
  have hend := (hstart.next_after_count (by decide)).mpr
    (fits_between (term_between h (Nat.le_refl _)))
  rw [← hstart.after_zero] at hreach
  obtain ⟨k, hk, rfl⟩ := hreach.on_trace hrow hend
  have hbetween := term_between h hk
  have hnow : ((countState a b).after 1 k).now.toInt = (countState a b).term 1 k :=
    toInt_ofInt (fits_between hbetween)
  refine ⟨by rw [hnow]; exact hbetween.1, by rw [hnow]; exact hbetween.2, fun hgoes => ?_⟩
  have hlt : k < (countState a b).count 1 := by
    rcases Nat.lt_or_eq_of_le hk with hlt | rfl
    · exact hlt
    · rw [IntSeq.next, if_neg hgoes] at hend
      cases hend
  have hsucc := congrArg IntSeq.now (hstart.after_succ (k := k))
  have hfits := fits_between (term_between h hlt)
  have hstep : ((countState a b).after 1 k).step.toInt =
      stride (countState a b).start.toInt 1 (countState a b).end_.toInt := hstart.step
  rw [hnow, hstep]
  calc (((countState a b).after 1 k).now + ((countState a b).after 1 k).step).toInt
      = ((countState a b).after 1 (k + 1)).now.toInt := congrArg Int32.toInt hsucc
    _ = (countState a b).term 1 (k + 1) := toInt_ofInt hfits
    _ = _ := term_succ

/-! ## The start of a count -/

/-- The run starts the count, unless the end is the start. -/
def StartsCount (start : Option IntSeq) (a b : Int32) : Prop :=
  start = if a = b then none else some (countState a b)

theorem initState_countState {pMap : PMap}
    (h : seqArgs pMap p1 p2 p3 IntSeq.zeroed = countState a b) :
    StartsCount (initState pMap p1 p2 p3) a b := by
  have hstep : (countState a b).step ≠ 0 := by
    intro h0
    have hint := @countState_step a b
    rw [h0] at hint
    unfold direction at hint
    split at hint <;> cases hint
  unfold StartsCount initState
  simp only [h]
  by_cases hab : a = b
  · have hstop : (countState a b).start = (countState a b).end_ := hab
    rw [if_pos (Or.inr hstop), if_pos hab]
  · have hgo : ¬((countState a b).step = 0 ∨ (countState a b).start = (countState a b).end_) :=
      not_or.mpr ⟨hstep, hab⟩
    rw [if_neg hgo, if_neg hab, turnStep_countState hab]

/-- One argument is the end of a count from 0, two are its start and its end. -/
theorem seqArgs_given
    (h : (a = 0 ∧ given argisnull p1 p2 p3 = [b]) ∨ given argisnull p1 p2 p3 = [a, b]) :
    seqArgs (pMapOf argisnull) p1 p2 p3 IntSeq.zeroed = countState a b := by
  unfold given at h
  unfold pMapOf
  rcases h with ⟨rfl, h⟩ | h
  all_goals
    cases h0 : argisnull 0 <;> cases h1 : argisnull 1 <;> cases h2 : argisnull 2 <;>
      simp only [h0, h1, h2] at h <;> cases h <;> rfl

theorem rows_of_startsCount {rows : List (Option Int32)}
    (h : StartsCount (initState (pMapOf argisnull) p1 p2 p3) a b) :
    Rows (seqInt p1 p2 p3) (fun _ => false) (.fresh argisnull prior) rows ↔
      if a = b then rows = [] else Fetches IntSeq.next (countState a b) rows := by
  rw [rows_seqInt_iff, h]
  by_cases hab : a = b
  · rw [if_pos hab, if_pos hab]
  · rw [if_neg hab, if_neg hab]

theorem rows_one {rows : List (Option Int32)} {step : Int32} (hstep : step = 1 ∨ step = -1) :
    Rows (seqInt a step b) (fun _ => false) (.fresh (fun _ => false) prior) rows ↔
      if a = b then rows = [] else Fetches IntSeq.next (countState a b) rows := by
  have hne : step ≠ 0 := by rcases hstep with rfl | rfl <;> decide
  rw [rows_three_iff]
  by_cases hab : a = b
  · rw [if_pos (Or.inr hab), if_pos hab]
  · have hturn : startState a step b = countState a b := turnStep_one rfl hab hstep
    rw [if_neg (not_or.mpr ⟨hne, hab⟩), if_neg hab, hturn]

theorem counts_of_startsCount (h : StartsCount (initState (pMapOf argisnull) p1 p2 p3) a b) :
    Counts p1 p2 p3 argisnull prior a b where
  rows := by
    simp only [rows_of_startsCount h]
    by_cases hab : a = b
    · exact ⟨[], by rw [if_pos hab], by simp [hab]⟩
    · simpa only [if_neg hab] using fetches_countState hab
  now := by
    intro rows x hx
    obtain ⟨s, t, hs, hreach, hfuncstate⟩ := rowsTo_seqInt hx
    rw [h] at hs
    by_cases hab : a = b
    · rw [if_pos hab] at hs
      cases hs
    · rw [if_neg hab] at hs
      cases hs
      exact ⟨t, hfuncstate, reaches_countState hab hreach⟩
  up prior' rows := by rw [rows_of_startsCount h, rows_one (Or.inl rfl)]
  down prior' rows := by rw [rows_of_startsCount h, rows_one (Or.inr rfl)]

end Counts

/-- Without arguments there are no rows. One argument is the end of a count from 0, two are its
start and its end, wherever the nulls stand. -/
theorem seqInt_counts (p1 p2 p3 : Int32) (argisnull : Nat → Bool) (prior : Option IntSeq) :
    (given argisnull p1 p2 p3 = [] →
      Rows (seqInt p1 p2 p3) (fun _ => false) (.fresh argisnull prior) []) ∧
    (∀ b, given argisnull p1 p2 p3 = [b] → Counts p1 p2 p3 argisnull prior 0 b) ∧
    (∀ a b, given argisnull p1 p2 p3 = [a, b] → Counts p1 p2 p3 argisnull prior a b) := by
  refine ⟨fun h => ?_, fun b h => ?_, fun a b h => ?_⟩
  · have hnone : pMapOf argisnull = (false, false, false) := by
      revert h
      unfold given pMapOf
      cases argisnull 0 <;> cases argisnull 1 <;> cases argisnull 2 <;> simp
    rw [rows_seqInt_iff, hnone]
    rfl
  · exact counts_of_startsCount (initState_countState (seqArgs_given (Or.inl ⟨rfl, h⟩)))
  · exact counts_of_startsCount (initState_countState (seqArgs_given (Or.inr h)))

/-- The counts of `seq(null, null, null)`, `seq(null, -3, null)` and
`seq(null, 2147483647, -2147483648)`, with other numbers at the nulls. -/
theorem seqInt_counts_at :
    Rows (seqInt 5 6 7) (fun _ => false) (.fresh (fun _ => true) none) [] ∧
      Counts 5 (-3) 7 (fun k => k != 1) none 0 (-3) ∧
      Counts 5 2147483647 (-2147483648) (fun k => k == 0) none 2147483647 (-2147483648) :=
  ⟨(seqInt_counts 5 6 7 (fun _ => true) none).1 (by decide),
    (seqInt_counts 5 (-3) 7 (fun k => k != 1) none).2.1 _ (by decide),
    (seqInt_counts 5 2147483647 (-2147483648) (fun k => k == 0) none).2.2 _ _ (by decide)⟩

end UdrPak.Seq
