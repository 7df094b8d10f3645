import UdrPak.Host.Lemmas.Runs
import UdrPak.Libc.Stdio

/-!
# Queries over an iterator function

In `select n, e from table(f(..)) s(n)` the host fetches a row from the iterator function and
evaluates the expression for it, before it fetches the next one.
-/

namespace UdrPak.Host

open Cursor Libc

variable {σ τ α β : Type}

/-- One row of the query, given the fetch of a row. What the expression sees besides its state is
numbered by the rows. An error that it raises ends the query. -/
def select (next : Nat × MiFparam σ → Option (Option α × (Nat × MiFparam σ)))
    (expr : Nat → τ → Outcome (β × τ)) (x : (Nat × MiFparam σ) × τ) :
    Option ((Option α × β) × ((Nat × MiFparam σ) × τ)) :=
  match next x.1, expr x.1.1 x.2 with
  | some (a, s), .returned (b, t) => some ((a, b), (s, t))
  | _, _ => none

/-- After `SET_INIT` and the rows, the query finds the states. -/
def SelectsTo (udr : Udr σ α) (interrupts : Nat → Bool) (expr : Nat → τ → Outcome (β × τ))
    (fp : MiFparam σ) (t : τ) (rows : List (Option α × β)) (x : (Nat × MiFparam σ) × τ) : Prop :=
  let (_, fp) := udr false (fp.call .setInit)
  fp.isdone = false ∧ Reaches (select (fetch udr interrupts) expr) ((0, fp), t) rows x

theorem select_some_iff {next : Nat × MiFparam σ → Option (Option α × (Nat × MiFparam σ))}
    {expr : Nat → τ → Outcome (β × τ)} {x y : (Nat × MiFparam σ) × τ} {row : Option α × β} :
    select next expr x = some (row, y) ↔
      next x.1 = some (row.1, y.1) ∧ expr x.1.1 x.2 = .returned (row.2, y.2) := by
  rw [select]
  split
  · rename_i hfetch hexpr
    rw [hfetch, hexpr]
    simp only [Option.some.injEq, Outcome.returned.injEq, Prod.ext_iff]
    constructor
    · rintro ⟨⟨ha, hb⟩, hs, ht⟩
      exact ⟨⟨ha, hs⟩, hb, ht⟩
    · rintro ⟨⟨ha, hs⟩, hb, ht⟩
      exact ⟨⟨ha, hb⟩, hs, ht⟩
  · rename_i hnone
    constructor
    · intro h
      cases h
    · rintro ⟨hfetch, hexpr⟩
      exact absurd hexpr (hnone _ _ _ _ hfetch)

section Select

variable {udr : Udr σ α} {interrupts : Nat → Bool} {expr : Nat → τ → Outcome (β × τ)}
  {fp : MiFparam σ} {t : τ} {rows : List (Option α × β)} {s s' : Nat × MiFparam σ}
  {x y : (Nat × MiFparam σ) × τ}

theorem reaches_fst (h : Reaches (select (fetch udr interrupts) expr) x rows y) :
    Reaches (fetch udr interrupts) x.1 (rows.map Prod.fst) y.1 := by
  induction h with
  | refl _ => exact .refl _
  | row hrow _ ih => exact .row (select_some_iff.mp hrow).1 ih

/-- The numbers in the rows are those that the iterator function gives by itself. -/
theorem SelectsTo.rowsTo (h : SelectsTo udr interrupts expr fp t rows x) :
    RowsTo udr interrupts fp (rows.map Prod.fst) x.1 := ⟨h.1, reaches_fst h.2⟩

theorem reaches_value (h : Reaches (select (fetch udr interrupts) expr) x rows y) {k : Nat}
    {row : Option α × β} (hk : rows[k]? = some row) :
    ∃ t t', expr (x.1.1 + k) t = .returned (row.2, t') := by
  induction h generalizing k with
  | refl _ => cases hk
  | row hrow _ ih =>
      obtain ⟨hfetch, hexpr⟩ := select_some_iff.mp hrow
      cases k with
      | zero =>
          cases hk
          exact ⟨_, _, hexpr⟩
      | succ k =>
          have hrest := ih hk
          rw [fetch_some hfetch, Nat.add_assoc, Nat.add_comm 1 k] at hrest
          exact hrest

theorem SelectsTo.value (h : SelectsTo udr interrupts expr fp t rows x) {k : Nat}
    {row : Option α × β} (hk : rows[k]? = some row) :
    ∃ t t', expr k t = .returned (row.2, t') := by
  have hvalue := reaches_value h.2 hk
  rwa [Nat.zero_add] at hvalue

/-- An expression whose value only depends on the row, in the states that an invariant admits. -/
def ValuedBy (expr : Nat → τ → Outcome (β × τ)) (I : τ → Prop) (g : Nat → β) : Prop :=
  ∀ k t, I t → ∃ t', expr k t = .returned (g k, t') ∧ I t'

theorem ValuedBy.reaches {I : τ → Prop} {g : Nat → β} (hexpr : ValuedBy expr I g)
    (h : Reaches (select (fetch udr interrupts) expr) x rows y) (hx : I x.2) :
    rows.map Prod.snd = (List.range' x.1.1 rows.length).map g := by
  induction h with
  | refl _ => rfl
  | @row x _ _ row rows hrow _ ih =>
      obtain ⟨hfetch, hvalue⟩ := select_some_iff.mp hrow
      obtain ⟨t', ht', hI⟩ := hexpr x.1.1 x.2 hx
      rw [hvalue, Outcome.returned.injEq, Prod.mk.injEq] at ht'
      have hrest := ih (ht'.2 ▸ hI)
      rw [fetch_some hfetch] at hrest
      rw [List.map_cons, List.length_cons, List.range'_succ, List.map_cons, hrest, ht'.1]

/-- The values in the rows. -/
theorem ValuedBy.values {I : τ → Prop} {g : Nat → β} (hexpr : ValuedBy expr I g)
    (h : SelectsTo udr interrupts expr fp t rows x) (ht : I t) :
    rows.map Prod.snd = (List.range rows.length).map g := by
  rw [List.range_eq_range']
  exact hexpr.reaches h.2 ht

/-- With an expression that raises no error, the query has a row for every number. -/
theorem exists_reaches {I : τ → Prop}
    (hexpr : ∀ k t, I t → ∃ b t', expr k t = .returned (b, t') ∧ I t') {ns : List (Option α)}
    (h : Reaches (fetch udr interrupts) s ns s') (ht : I t) :
    ∃ rows t', Reaches (select (fetch udr interrupts) expr) (s, t) rows (s', t') ∧
      rows.map Prod.fst = ns := by
  induction h generalizing t with
  | refl s => exact ⟨[], t, .refl _, rfl⟩
  | @row s _ _ a _ hfetch _ ih =>
      obtain ⟨b, t', hb, ht'⟩ := hexpr s.1 t ht
      obtain ⟨rows, t'', hrest, hrows⟩ := ih ht'
      have hrow : select (fetch udr interrupts) expr (s, t) = some ((a, b), (_, t')) :=
        select_some_iff.mpr ⟨hfetch, hb⟩
      exact ⟨(a, b) :: rows, t'', .row hrow hrest, by rw [List.map_cons, hrows]⟩

theorem exists_selectsTo {I : τ → Prop}
    (hexpr : ∀ k t, I t → ∃ b t', expr k t = .returned (b, t') ∧ I t') {ns : List (Option α)}
    (h : RowsTo udr interrupts fp ns s) (ht : I t) :
    ∃ rows t', SelectsTo udr interrupts expr fp t rows (s, t') ∧ rows.map Prod.fst = ns := by
  obtain ⟨hdone, hreach⟩ := h
  obtain ⟨rows, t', hselect, hrows⟩ := exists_reaches hexpr hreach ht
  exact ⟨rows, t', ⟨hdone, hselect⟩, hrows⟩

end Select

/-- What moves on by `d` from each row to the next does so between any two rows. -/
theorem add_le_of_rows {f : Nat → Int} {d : Int} {i j n : Nat} (hd : 0 ≤ d)
    (hstep : ∀ k, k + 1 < n → f k + d ≤ f (k + 1)) (hij : i < j) (hj : j < n) :
    f i + d ≤ f j := by
  induction j with
  | zero => exact absurd hij (Nat.not_lt_zero i)
  | succ j ih =>
      have hlast := hstep j hj
      rcases Nat.lt_succ_iff_lt_or_eq.mp hij with hlt | rfl
      · have hbefore := ih hlt (Nat.lt_of_succ_lt hj)
        omega
      · exact hlast

theorem forall_two_rows {P : Nat → Prop} (h0 : P 0) (h1 : P 1) : ∀ k < 2, P k :=
  Nat.forall_lt_succ_right.mpr ⟨Nat.forall_lt_succ_right.mpr ⟨fun _ => nofun, h0⟩, h1⟩

end UdrPak.Host
