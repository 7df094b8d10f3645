import UdrPak.Host.Select
import UdrPak.Seq.SeqInt
import UdrPak.Uuid.CountTheorems

/-!
# Which random values of a query are different

The tests count the different values of `prng()`, `uuidv4()` and `uuidv7()` in a select from
`table(seq(n))`. How many there are is decided by the clocks alone.
-/

namespace UdrPak.Uuid

open Host Libc Realtime Prng UdrPak.Seq

/-- What the function sees for one row. `uuidv4` seeds twice, and `uuidv7` reads the time first. -/
structure SeedRow where
  realtime : Timespec
  seed : SeedReadings
  seedAgain : SeedReadings

/-- `select e() from table(seq(p1, p2, p3))` has a row for every number of `seq`, and its values are
different from each other exactly if the keys of the rows are. -/
structure DistinctBy {β γ : Type}
    (expr : Nat → MiFparam Xsr256State → Outcome (β × MiFparam Xsr256State))
    (fp : MiFparam Xsr256State) (key : Nat → γ) : Prop where
  complete : ∀ (p1 p2 p3 : Int32) (interrupts : Nat → Bool) (fpSeq : MiFparam IntSeq) ns s,
    RowsTo (seqInt p1 p2 p3) interrupts fpSeq ns s →
      ∃ rows fp', SelectsTo (seqInt p1 p2 p3) interrupts expr fpSeq fp rows (s, fp') ∧
        rows.map Prod.fst = ns
  distinct : ∀ (p1 p2 p3 : Int32) (interrupts : Nat → Bool) (fpSeq : MiFparam IntSeq) rows x,
    SelectsTo (seqInt p1 p2 p3) interrupts expr fpSeq fp rows x →
      ((rows.map Prod.snd).Nodup ↔ ((List.range rows.length).map key).Nodup)

section Keys

variable {β γ : Type} {expr : Nat → MiFparam Xsr256State → Outcome (β × MiFparam Xsr256State)}
  {I : MiFparam Xsr256State → Prop} {g : Nat → β} {key : Nat → γ} {fp : MiFparam Xsr256State}

theorem distinctBy_of_valuedBy (hexpr : ValuedBy expr I g)
    (hkey : ∀ i j, g i = g j ↔ key i = key j) (h : I fp) : DistinctBy expr fp key where
  complete := by
    intro p1 p2 p3 interrupts fpSeq ns s hns
    refine exists_selectsTo (fun k t ht => ?_) hns h
    obtain ⟨t', hvalue, ht'⟩ := hexpr k t ht
    exact ⟨g k, t', hvalue, ht'⟩
  distinct := by
    intro p1 p2 p3 interrupts fpSeq rows x hrun
    rw [hexpr.values hrun h]
    simp only [List.Nodup, List.pairwise_map, ne_eq, hkey]

end Keys

/-! ## The three functions -/

section Functions

variable {conn : Option UInt64} {sid : UInt64} {clock : Nat → SeedRow}

theorem valuedBy_prng (hsid : sid ≠ 0) :
    ValuedBy (fun k => xoshiro256StarStar conn (clock k).seed) (fun fp => sessionId conn fp = sid)
      fun k => (reseededCall sid (clock k).seed).value := by
  rintro k fp rfl
  exact xoshiro256StarStar_session hsid _

theorem valuedBy_uuidv4 (hsid : sid ≠ 0) :
    ValuedBy (fun k => uuidv4 conn (clock k).seed (clock k).seedAgain)
      (fun fp => sessionId conn fp = sid)
      fun k => (uuidv4Num (reseededCall sid (clock k).seed).value
        (reseededCall sid (clock k).seedAgain).value).text := by
  rintro k fp rfl
  exact uuidv4_session hsid _ _

theorem valuedBy_uuidv7 (hsid : sid ≠ 0) :
    ValuedBy (fun k => uuidv7 conn (clock k).realtime (clock k).seed)
      (fun fp => sessionId conn fp = sid)
      fun k => (uuidv7Num (getClocktickNs (clock k).realtime)
        (reseededCall sid (clock k).seed).value).text := by
  rintro k fp rfl
  exact uuidv7_session hsid _ _

end Functions

/-- The random number that `prng` makes in the session, as `uuidv4` and `uuidv7` take it. -/
def randomBits (sid : UInt64) (r : SeedReadings) : Nat :=
  (reseededCall sid r).value.toUInt64.toNat

/-- In a session, the values of `prng` in a query are different from each other exactly if the
readings of the monotonic clock are. Two texts of `uuidv7` are the same where the milliseconds, the
low 12 bits of the nanoseconds and 62 random bits are, and two of `uuidv4` where 48 bits of the one
random number and 62 of the other are. -/
theorem random_rows_distinct_iff (conn : Option UInt64) (fp : MiFparam Xsr256State)
    (clock : Nat → SeedRow) (h : sessionId conn fp ≠ 0) :
    DistinctBy (fun k => xoshiro256StarStar conn (clock k).seed) fp
        (fun k => getClocktickNs (clock k).seed.monotonic) ∧
      DistinctBy (fun k => uuidv7 conn (clock k).realtime (clock k).seed) fp
        (fun k => ((getClocktickNs (clock k).realtime).toNat / 1000000,
          (getClocktickNs (clock k).realtime).toNat % 4096,
          randomBits (sessionId conn fp) (clock k).seed % 2 ^ 62)) ∧
      DistinctBy (fun k => uuidv4 conn (clock k).seed (clock k).seedAgain) fp
        (fun k => (randomBits (sessionId conn fp) (clock k).seed % 2 ^ 48,
          randomBits (sessionId conn fp) (clock k).seedAgain % 2 ^ 62)) := by
  refine ⟨distinctBy_of_valuedBy (valuedBy_prng h) (fun i j => ?_) rfl,
    distinctBy_of_valuedBy (valuedBy_uuidv7 h) (fun i j => ?_) rfl,
    distinctBy_of_valuedBy (valuedBy_uuidv4 h) (fun i j => ?_) rfl⟩
  · constructor
    · exact reseededCall_value_inj
    · intro hclock
      rw [value_reseededCall, value_reseededCall, hclock]
  · rw [text_eq_iff, Prod.mk.injEq, Prod.mk.injEq]
    rfl
  · exact uuidv4_text_inj

/-- One row a second. -/
def ticking (k : Nat) : SeedRow :=
  ⟨⟨Int64.ofNat k, 0⟩, readingsAt (Int64.ofNat k), readingsAt (Int64.ofNat k)⟩

theorem random_rows_distinct_two_rows : ∃ rows x,
    SelectsTo (seqInt 2 0 0) (fun _ => false)
      (fun k => xoshiro256StarStar (some 7) (ticking k).seed) (.fresh (· != 0) none)
      (.fresh (fun _ => true) none) rows x ∧
    rows.map Prod.fst = [some 0, some 1] ∧ (rows.map Prod.snd).Nodup := by
  obtain ⟨⟨hcomplete, hdistinct⟩, -, -⟩ :=
    random_rows_distinct_iff (some 7) (.fresh (fun _ => true) none) ticking (by decide)
  obtain ⟨rows, fp', hrun, hns⟩ := hcomplete 2 0 0 (fun _ => false) (.fresh (· != 0) none)
    [some 0, some 1] _ ⟨rfl, .row rfl (.row rfl (.refl _))⟩
  have hlength : rows.length = 2 := by
    rw [← List.length_map (f := Prod.fst), hns]
    rfl
  refine ⟨rows, _, hrun, hns, (hdistinct _ _ _ _ _ _ _ hrun).mpr ?_⟩
  rw [hlength]
  decide

end UdrPak.Uuid
