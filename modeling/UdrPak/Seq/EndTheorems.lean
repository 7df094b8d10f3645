import Mathlib.Data.List.Nodup
import Mathlib.Data.Nat.Prime.Basic
import UdrPak.Lib.Residue
import UdrPak.Seq.StepTheorems
import UdrPak.Seq.Theorems

/-!
# The end of `seq`

The numbers of a run go around the 32-bit integers by the step. The run ends if one of them is past
the end, and a run that ends has no number twice.
-/

namespace UdrPak.Seq

open Host Cursor Progression

/-! ## The numbers of a run -/

/-- The state after `k` additions, each of which may wrap. -/
def IntSeq.walk (s : IntSeq) (k : Nat) : IntSeq :=
  { s with now := Int32.ofInt (s.now.toInt + k * s.step.toInt) }

/-- The greatest common divisor of the step and the number of 32-bit integers. -/
def IntSeq.grain (s : IntSeq) : Nat := Int.gcd s.step.toInt (2 ^ 32 : Nat)

namespace IntSeq

variable {s : IntSeq} {k : Nat}

theorem walk_zero : s.walk 0 = s := by
  have hnow : Int32.ofInt (s.now.toInt + (0 : Nat) * s.step.toInt) = s.now := by
    rw [Int.natCast_zero, Int.zero_mul, Int.add_zero, Int32.ofInt_toInt]
  rw [walk, hnow]

theorem walk_succ :
    { s.walk k with now := (s.walk k).now + (s.walk k).step } = s.walk (k + 1) := by
  have hnow : Int32.ofInt (s.now.toInt + k * s.step.toInt) + s.step =
      Int32.ofInt (s.now.toInt + (k + 1 : Nat) * s.step.toInt) := by
    have hsum : s.now.toInt + (k + 1 : Nat) * s.step.toInt =
        s.now.toInt + k * s.step.toInt + s.step.toInt := by
      rw [Int.natCast_succ, Int.add_mul, Int.one_mul, Int.add_assoc]
    rw [hsum, Int32.ofInt_add (_ + _), Int32.ofInt_toInt]
  simp only [walk, hnow]

theorem walks (s : IntSeq) :
    Walks IntSeq.next s.walk fun k => some (Int32.ofInt (s.now.toInt + k * s.step.toInt)) := by
  intro k
  rw [IntSeq.next]
  by_cases hend : (s.walk k).AtEnd
  · exact Or.inl (if_pos hend)
  · right
    rw [if_neg hend, walk_succ]
    rfl

theorem fetches_iff_atEnd : (∃ rows, Fetches IntSeq.next s rows) ↔ ∃ k, (s.walk k).AtEnd := by
  have hexists := s.walks.exists_fetches_iff
  rw [walk_zero] at hexists
  rw [hexists]
  refine exists_congr fun k => ?_
  rw [IntSeq.next, ite_eq_left_iff]
  simp

theorem toInt_walk : ((s.walk k).now).toInt = (s.now.toInt + k * s.step.toInt).bmod (2 ^ 32) :=
  Int32.toInt_ofInt

/-- The numbers that a run comes to are those that differ from the first by a multiple of the
grain. -/
theorem exists_walk_iff (v : Int) :
    (∃ k, (s.walk k).now.toInt = v) ↔ Fits v ∧ s.now.toInt ≡ v [ZMOD s.grain] := by
  rw [grain, ← Residue.exists_steps_iff (by decide)]
  constructor
  · rintro ⟨k, rfl⟩
    refine ⟨fits_toInt _, k, ?_⟩
    rw [toInt_walk]
    exact (Int.bmod_emod).symm
  · rintro ⟨hfits, k, hk⟩
    refine ⟨k, ?_⟩
    have hmod : (s.now.toInt + k * s.step.toInt) % (2 ^ 32 : Nat) = v % (2 ^ 32 : Nat) := hk
    rw [toInt_walk, ← Int.emod_bmod, hmod, Int.emod_bmod, (bmod_cases v).1 hfits]

/-! ## The last numbers before a wrap -/

theorem grain_dvd (hstep : s.step.toInt ≠ 0) : s.grain ∣ 2 ^ 31 := by
  have hdvd : s.grain ∣ 2 ^ 32 := Int.natCast_dvd_natCast.mp (Int.gcd_dvd_right _ _)
  obtain ⟨j, hj, hgrain⟩ := (Nat.dvd_prime_pow Nat.prime_two).mp hdvd
  have hle : s.grain ≤ s.step.toInt.natAbs :=
    Nat.le_of_dvd (Int.natAbs_pos.mpr hstep) (Int.natCast_dvd.mp (Int.gcd_dvd_left _ _))
  have hlt : 2 ^ j < 2 ^ 32 := by
    rw [← hgrain]
    exact Nat.lt_of_le_of_lt (Nat.le_trans hle (natAbs_toInt_le s.step)) (by decide)
  have hj' : j < 32 := (Nat.pow_lt_pow_iff_right Nat.one_lt_two).mp hlt
  rw [hgrain]
  exact Nat.pow_dvd_pow 2 (by omega)

/-- The numbers of a run lie between two outermost ones, and it comes to both. -/
theorem exists_walk_between (hstep : s.step.toInt ≠ 0) (v : Int) :
    ((∃ k, v ≤ (s.walk k).now.toInt) ↔ v ≤ 2 ^ 31 - s.grain + s.now.toInt % s.grain) ∧
      ((∃ k, (s.walk k).now.toInt ≤ v) ↔ -2 ^ 31 + s.now.toInt % s.grain ≤ v) := by
  obtain ⟨q, hq⟩ := grain_dvd hstep
  have hq' : (2 : Int) ^ 31 = s.grain * q := by exact_mod_cast hq
  have hpos : 0 < (s.grain : Int) := by
    have hne : s.grain ≠ 0 := fun h => by rw [h] at hq; simp at hq
    omega
  have hle : (s.grain : Int) ≤ 2 ^ 31 := by
    have hnat := Nat.le_of_dvd (Nat.two_pow_pos 31) (grain_dvd hstep)
    omega
  have hlow := Int.emod_nonneg s.now.toInt (Int.ne_of_gt hpos)
  have hhigh := Int.emod_lt_of_pos s.now.toInt hpos
  have hclass : ∀ k, (s.walk k).now.toInt % s.grain = s.now.toInt % s.grain := fun k =>
    ((exists_walk_iff _).mp ⟨k, rfl⟩).2.symm
  constructor
  · constructor
    · rintro ⟨k, hk⟩
      have hfits := (fits_toInt (s.walk k).now).2
      have hbelow := Residue.le_below_multiple hpos (hq' ▸ hfits)
      rw [hclass, ← hq'] at hbelow
      omega
    · intro hv
      obtain ⟨k, hk⟩ := (exists_walk_iff (s := s) (2 ^ 31 - s.grain + s.now.toInt % s.grain)).mpr
        ⟨⟨by omega, by omega⟩, by
          have hmod := Residue.add_multiple_modEq (g := s.grain) (q - 1) s.now.toInt
          rwa [Int.mul_sub, Int.mul_one, ← hq'] at hmod⟩
      exact ⟨k, by omega⟩
  · constructor
    · rintro ⟨k, hk⟩
      have hfits := (fits_toInt (s.walk k).now).1
      have hneg : (-2 ^ 31 : Int) = s.grain * -q := by rw [Int.mul_neg, ← hq']
      have habove := Residue.le_above_multiple hpos (hneg ▸ hfits)
      rw [hclass, ← hneg] at habove
      omega
    · intro hv
      obtain ⟨k, hk⟩ := (exists_walk_iff (s := s) (-2 ^ 31 + s.now.toInt % s.grain)).mpr
        ⟨⟨by omega, by omega⟩, by
          have hmod := Residue.add_multiple_modEq (g := s.grain) (-q) s.now.toInt
          rwa [Int.mul_neg, ← hq'] at hmod⟩
      exact ⟨k, by omega⟩

theorem fetches_iff (hstep : s.step.toInt ≠ 0) :
    (∃ rows, Fetches IntSeq.next s rows) ↔
      (0 < s.step.toInt ∧ s.end_.toInt ≤ 2 ^ 31 - s.grain + s.now.toInt % s.grain) ∨
        (s.step.toInt < 0 ∧ -2 ^ 31 + s.now.toInt % s.grain ≤ s.end_.toInt) := by
  have hend : ∀ k, (s.walk k).AtEnd ↔ (0 < s.step.toInt ∧ s.end_.toInt ≤ (s.walk k).now.toInt) ∨
      (s.step.toInt < 0 ∧ (s.walk k).now.toInt ≤ s.end_.toInt) := fun _ => Iff.rfl
  rw [fetches_iff_atEnd, ← (exists_walk_between hstep _).1, ← (exists_walk_between hstep _).2]
  simp only [hend, exists_or, exists_and_left]

end IntSeq

/-! ## Runs -/

section Runs

variable {p1 p2 p3 : Int32} {argisnull : Nat → Bool} {prior : Option IntSeq}
  {pMap : PMap} {s : IntSeq}

/-- With less than three arguments, the step is one. -/
theorem seqArgs_unit (h : pMap ≠ (true, true, true)) (h0 : pMap ≠ (false, false, false)) :
    (seqArgs pMap p1 p2 p3 .zeroed).step = 1 ∨ (seqArgs pMap p1 p2 p3 .zeroed).step = -1 := by
  have hunit : ∀ {c : Prop} [Decidable c],
      (if c then 1 else -1 : Int32) = 1 ∨ (if c then 1 else -1 : Int32) = -1 := by
    intro c _
    split
    · exact Or.inl rfl
    · exact Or.inr rfl
  obtain ⟨b1, b2, b3⟩ := pMap
  cases b1 <;> cases b2 <;> cases b3 <;>
    first | exact hunit | exact absurd rfl h | exact absurd rfl h0

theorem ends_of_unit (h : s.step.toInt.natAbs = 1) : ∃ rows, Fetches IntSeq.next s rows := by
  have hgrain : s.grain = 1 := by
    rw [IntSeq.grain, Int.gcd, h, Nat.gcd_one_left]
  have hend := fits_toInt s.end_
  unfold Fits at hend
  rw [IntSeq.fetches_iff (by omega), hgrain]
  omega

theorem ends_of_few (h : pMap ≠ (true, true, true)) (hs : initState pMap p1 p2 p3 = some s) :
    ∃ rows, Fetches IntSeq.next s rows := by
  have h0 : pMap ≠ (false, false, false) := by
    rintro rfl
    cases hs
  have hunit : (seqArgs pMap p1 p2 p3 .zeroed).step.toInt.natAbs = 1 := by
    rcases @seqArgs_unit p1 p2 p3 pMap h h0 with hstep | hstep
    · rw [hstep]
      rfl
    · rw [hstep]
      rfl
  simp only [initState] at hs
  split at hs
  · cases hs
  · rename_i hgoes
    cases hs
    obtain ⟨-, hapart⟩ := not_or.mp hgoes
    refine ends_of_unit ?_
    rw [IntSeq.turnStep_step (fun heq => hapart (Int32.toInt_inj.mp heq))
      (fun hmin => h (seqArgs_minStep hmin.1)), natAbs_stride, hunit]

/-- With a step that has a negation where it needs one, `seq` ends if the last number of its class
before the wrap is not before the end. -/
theorem ends_three_iff (h2 : p2 ≠ 0) (h13 : p1 ≠ p3) (hmin : ¬(p2 = Int32.minValue ∧ p1 < p3)) :
    (∃ rows, Fetches IntSeq.next (startState p1 p2 p3) rows) ↔
      ¬((p1 < p3 ∧ 2 ^ 31 - Int.gcd p2.toInt (2 ^ 32 : Nat) +
            p1.toInt % Int.gcd p2.toInt (2 ^ 32 : Nat) < p3.toInt) ∨
        (p3 < p1 ∧ p3.toInt <
          -2 ^ 31 + p1.toInt % Int.gcd p2.toInt (2 ^ 32 : Nat))) := by
  have h2' : p2.toInt ≠ 0 := fun h => h2 (Int32.toInt_inj.mp h)
  have hapart : p1.toInt ≠ p3.toInt := fun h => h13 (Int32.toInt_inj.mp h)
  have hstep := startState_step hapart hmin
  have hpos := stride_pos_iff h2' hapart
  have hgrain : (startState p1 p2 p3).grain = Int.gcd p2.toInt (2 ^ 32 : Nat) := by
    rw [IntSeq.grain, Int.gcd, hstep, natAbs_stride, Int.gcd]
  have hne : stride p1.toInt p2.toInt p3.toInt ≠ 0 := fun h0 => by
    have habs := @natAbs_stride p1.toInt p2.toInt p3.toInt
    rw [h0] at habs
    exact h2' (Int.natAbs_eq_zero.mp habs.symm)
  have hnow : (startState p1 p2 p3).now = p1 := IntSeq.turnStep_now _
  have hend : (startState p1 p2 p3).end_ = p3 := IntSeq.turnStep_end _
  rw [IntSeq.fetches_iff (hstep ▸ hne), hgrain, hstep, hnow, hend, Int32.lt_iff_toInt_lt,
    Int32.lt_iff_toInt_lt]
  omega

end Runs

/-- A run of `seq` that is not interrupted ends, unless three arguments ask for steps of `|p2|` and
no number that differs from `p1` by such steps lies between `p3` and the last 32-bit integer in its
direction. -/
theorem seqInt_ends_iff (p1 p2 p3 : Int32) (argisnull : Nat → Bool) (prior : Option IntSeq) :
    (∃ rows, Rows (seqInt p1 p2 p3) (fun _ => false) (.fresh argisnull prior) rows) ↔
      ¬(pMapOf argisnull = (true, true, true) ∧ p2 ≠ 0 ∧
        ((p1 < p3 ∧ p2 ≠ Int32.minValue ∧ 2 ^ 31 - Int.gcd p2.toInt (2 ^ 32 : Nat) +
            p1.toInt % Int.gcd p2.toInt (2 ^ 32 : Nat) < p3.toInt) ∨
          (p3 < p1 ∧ p3.toInt <
            -2 ^ 31 + p1.toInt % Int.gcd p2.toInt (2 ^ 32 : Nat)))) := by
  simp only [rows_seqInt_iff]
  by_cases hthree : pMapOf argisnull = (true, true, true)
  · have hinit : initState (pMapOf argisnull) p1 p2 p3 =
        if p2 = 0 ∨ p1 = p3 then none else some (startState p1 p2 p3) := by
      rw [hthree]
      rfl
    rw [hinit]
    by_cases htriv : p2 = 0 ∨ p1 = p3
    · rw [if_pos htriv]
      refine iff_of_true ⟨[], rfl⟩ ?_
      rintro ⟨-, h2, hlt⟩
      rcases htriv with h0 | rfl
      · exact h2 h0
      · rcases hlt with ⟨hlt, -⟩ | ⟨hlt, -⟩ <;> exact Int32.lt_irrefl hlt
    · rw [if_neg htriv]
      obtain ⟨h2, h13⟩ := not_or.mp htriv
      by_cases hmin : p2 = Int32.minValue ∧ p1 < p3
      · obtain ⟨rfl, hlt⟩ := hmin
        have hend : (startState p1 Int32.minValue p3).next = none := by
          have hstart : startState p1 Int32.minValue p3 = ⟨p1, p1, Int32.minValue, p3⟩ :=
            IntSeq.turnStep_minStep rfl hlt
          have hdown : Int32.minValue < 0 := by decide
          rw [hstart, IntSeq.next, if_pos]
          exact Or.inr ⟨Int32.lt_iff_toInt_lt.mp hdown, Int.le_of_lt (Int32.lt_iff_toInt_lt.mp hlt)⟩
        refine iff_of_true ⟨[], .done hend⟩ ?_
        rintro ⟨-, -, ⟨-, hne, -⟩ | ⟨hgt, -⟩⟩
        · exact hne rfl
        · exact Int32.lt_irrefl (Int32.lt_trans hlt hgt)
      · have hne : p1 < p3 → p2 ≠ Int32.minValue := fun hlt h => hmin ⟨h, hlt⟩
        rw [ends_three_iff h2 h13 hmin]
        refine not_congr ⟨?_, ?_⟩
        · rintro (⟨hlt, hlast⟩ | hdown)
          · exact ⟨hthree, h2, Or.inl ⟨hlt, hne hlt, hlast⟩⟩
          · exact ⟨hthree, h2, Or.inr hdown⟩
        · rintro ⟨-, -, ⟨hlt, -, hlast⟩ | hdown⟩
          · exact Or.inl ⟨hlt, hlast⟩
          · exact Or.inr hdown
  · refine iff_of_true ?_ fun h => hthree h.1
    cases hs : initState (pMapOf argisnull) p1 p2 p3 with
    | none => exact ⟨[], rfl⟩
    | some s => exact ends_of_few hthree hs

/-! ## Rows -/

/-- The first rows of a run, if it does not end before them. -/
def IntSeq.wrapped (s : IntSeq) (n : Nat) : List (Option Int32) :=
  (List.range n).map fun k : Nat => some (Int32.ofInt (s.now.toInt + k * s.step.toInt))

namespace IntSeq

variable {s : IntSeq} {rows : List (Option Int32)}

theorem walk_turn : s.walk (2 ^ 32 / s.grain) = s.walk 0 := by
  have hturn : s.now.toInt + (2 ^ 32 / s.grain : Nat) * s.step.toInt ≡
      s.now.toInt [ZMOD (2 ^ 32 : Nat)] := Residue.steps_turn
  have hmod : (s.now.toInt + (2 ^ 32 / s.grain : Nat) * s.step.toInt) % (2 ^ 32 : Nat) =
      s.now.toInt % (2 ^ 32 : Nat) := hturn
  have hnow : (s.walk (2 ^ 32 / s.grain)).now = (s.walk 0).now := by
    rw [← Int32.toInt_inj, toInt_walk, ← Int.emod_bmod, hmod, Int.emod_bmod, toInt_walk,
      Int.natCast_zero, Int.zero_mul, Int.add_zero]
  exact congrArg (fun n => { s with now := n }) hnow

theorem rows_eq_wrapped (h : Fetches IntSeq.next s rows) : rows = s.wrapped rows.length := by
  rw [← walk_zero (s := s)] at h
  have hrows := s.walks.eq_map h
  simp only [Nat.zero_add] at hrows
  exact hrows

theorem nodup_of_fetches (h : Fetches IntSeq.next s rows) :
    rows.Nodup ∧ rows.length ≤ 2 ^ 32 / s.grain := by
  have hwalk : Fetches IntSeq.next (s.walk 0) rows := by rwa [walk_zero]
  constructor
  · rw [rows_eq_wrapped h, wrapped]
    refine List.Nodup.map_on (fun i hi j hj heq => ?_) List.nodup_range
    have hnow : (s.walk i).now = (s.walk j).now := Option.some.inj heq
    exact s.walks.injective_of_fetches hwalk (Nat.le_of_lt (List.mem_range.mp hi))
      (Nat.le_of_lt (List.mem_range.mp hj)) (congrArg (fun n => { s with now := n }) hnow)
  · by_contra hlong
    have hzero := s.walks.injective_of_fetches hwalk (Nat.le_of_lt (Nat.lt_of_not_le hlong))
      (Nat.zero_le _) walk_turn
    have hdvd : s.grain ∣ 2 ^ 32 := Int.natCast_dvd_natCast.mp (Int.gcd_dvd_right _ _)
    have hpos : 0 < 2 ^ 32 / s.grain :=
      Nat.div_pos (Nat.le_of_dvd (by decide) hdvd) (Nat.pos_of_dvd_of_pos hdvd (by decide))
    omega

theorem reaches_wrapped (h : ¬∃ rows, Fetches IntSeq.next s rows) (n : Nat) :
    Reaches IntSeq.next s (s.wrapped n) (s.walk n) := by
  have hgo : ∀ i < n, IntSeq.next (s.walk (0 + i)) ≠ none := by
    intro i _ hnone
    have hexists := s.walks.exists_fetches_iff
    rw [walk_zero] at hexists
    exact h (hexists.mpr ⟨0 + i, hnone⟩)
  have hreach := s.walks.reaches hgo
  rw [walk_zero] at hreach
  simp only [Nat.zero_add] at hreach
  exact hreach

end IntSeq

theorem rowsTo_of_reaches {p1 p2 p3 : Int32} {argisnull : Nat → Bool} {prior : Option IntSeq}
    {s t : IntSeq} {rows : List (Option Int32)}
    (hs : initState (pMapOf argisnull) p1 p2 p3 = some s) (h : Reaches IntSeq.next s rows t) :
    ∃ x, RowsTo (seqInt p1 p2 p3) (fun _ => false) (.fresh argisnull prior) rows x := by
  rcases seqInt_init p1 p2 p3 argisnull prior with ⟨hnone, _⟩ | ⟨s', hs', hinit⟩
  · rw [hs] at hnone
    cases hnone
  · rw [hs] at hs'
    cases hs'
    have hsim : Simulates IntSeq.next (fetch (seqInt p1 p2 p3) fun _ => false)
        fun s x => x.2.funcstate = some s := (fetch_simulates p1 p2 p3).symm
    obtain ⟨x, hx, -⟩ := hsim.reaches
      (t := (0, (MiFparam.fresh argisnull (some s)).call .setInit)) rfl h
    refine ⟨x, rowsTo_iff.mpr ?_⟩
    rw [hinit]
    exact ⟨rfl, hx⟩

/-- The rows of a run are the wrapped sums of the start and multiples of the step. A run that ends
has no row twice, and so not more than there are numbers of its class. A run that does not end gives
any number of rows. -/
theorem seqInt_rows_wrapped (p1 p2 p3 : Int32) (argisnull : Nat → Bool) (prior : Option IntSeq) :
    (∀ rows, Rows (seqInt p1 p2 p3) (fun _ => false) (.fresh argisnull prior) rows →
      rows = [] ∨ ∃ s, initState (pMapOf argisnull) p1 p2 p3 = some s ∧
        rows = s.wrapped rows.length ∧ rows.Nodup ∧
          rows.length ≤ 2 ^ 32 / Int.gcd s.step.toInt (2 ^ 32 : Nat)) ∧
    ((¬∃ rows, Rows (seqInt p1 p2 p3) (fun _ => false) (.fresh argisnull prior) rows) →
      ∃ s, initState (pMapOf argisnull) p1 p2 p3 = some s ∧ ∀ n, ∃ x,
        RowsTo (seqInt p1 p2 p3) (fun _ => false) (.fresh argisnull prior)
          (s.wrapped n) x) := by
  simp only [rows_seqInt_iff]
  cases hs : initState (pMapOf argisnull) p1 p2 p3 with
  | none => exact ⟨fun rows hrows => Or.inl hrows, fun hno => absurd ⟨[], rfl⟩ hno⟩
  | some s =>
      refine ⟨fun rows hrows => Or.inr ⟨s, rfl, IntSeq.rows_eq_wrapped hrows,
        (IntSeq.nodup_of_fetches hrows).1, (IntSeq.nodup_of_fetches hrows).2⟩,
        fun hno => ⟨s, rfl, fun n => ?_⟩⟩
      exact rowsTo_of_reaches hs (IntSeq.reaches_wrapped hno n)

end UdrPak.Seq
