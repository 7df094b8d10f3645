import Mathlib.Data.Nat.Find

/-!
# Cursors

A fetch returns a row and the next state of the cursor, or the end of the rows.
-/

namespace Cursor

variable {σ α : Type} {next : σ → Option (α × σ)}

/-- From the state, the cursor gives the rows and then the end. -/
inductive Fetches (next : σ → Option (α × σ)) : σ → List α → Prop where
  | done {s : σ} (h : next s = none) : Fetches next s []
  | row {s s' : σ} {a : α} {rows : List α} (h : next s = some (a, s'))
      (rest : Fetches next s' rows) : Fetches next s (a :: rows)

theorem Fetches.unique {s : σ} {rows rows' : List α} (h : Fetches next s rows)
    (h' : Fetches next s rows') : rows = rows' := by
  induction h generalizing rows' with
  | done hs =>
      cases h' with
      | done _ => rfl
      | row hs' _ => rw [hs] at hs'; cases hs'
  | row hs _ ih =>
      cases h' with
      | done hs' => rw [hs] at hs'; cases hs'
      | row hs' rest' =>
          rw [hs] at hs'; cases hs'
          rw [ih rest']

/-! ## Runs that go on

A run may be watched before its end, or have none. -/

/-- From the state, the cursor has given the rows and stands in the other state. -/
inductive Reaches (next : σ → Option (α × σ)) : σ → List α → σ → Prop where
  | refl (s : σ) : Reaches next s [] s
  | row {s s' t : σ} {a : α} {rows : List α} (h : next s = some (a, s'))
      (rest : Reaches next s' rows t) : Reaches next s (a :: rows) t

section Reaches

variable {s t : σ} {rows all : List α}

theorem fetches_iff_reaches : Fetches next s rows ↔ ∃ t, Reaches next s rows t ∧ next t = none := by
  constructor
  · intro h
    induction h with
    | done hs => exact ⟨_, .refl _, hs⟩
    | row hs _ ih =>
        obtain ⟨t, hr, ht⟩ := ih
        exact ⟨t, .row hs hr, ht⟩
  · rintro ⟨t, hr, ht⟩
    induction hr with
    | refl _ => exact .done ht
    | row hs _ ih => exact .row hs (ih ht)

theorem Reaches.rest (h : Reaches next s rows t) (hall : Fetches next s all) :
    ∃ rest, all = rows ++ rest ∧ Fetches next t rest := by
  induction h generalizing all with
  | refl _ => exact ⟨all, rfl, hall⟩
  | row hs _ ih =>
      cases hall with
      | done hs' => rw [hs] at hs'; cases hs'
      | row hs' hall' =>
          rw [hs] at hs'; cases hs'
          obtain ⟨rest, rfl, hrest⟩ := ih hall'
          exact ⟨rest, rfl, hrest⟩

theorem Reaches.isPrefix (h : Reaches next s rows t) (hall : Fetches next s all) :
    rows <+: all := by
  obtain ⟨rest, rfl, _⟩ := h.rest hall
  exact List.prefix_append rows rest

theorem Reaches.invariant {I : σ → Prop}
    (hstep : ∀ s a s', I s → next s = some (a, s') → I s') (h : Reaches next s rows t)
    (hs : I s) : I t := by
  induction h with
  | refl _ => exact hs
  | row hrow _ ih => exact ih (hstep _ _ _ hs hrow)

end Reaches

/-! ## Counted rows

The states count the rows that were given before them. -/

section Counted

variable {next' : σ → Option (α × σ)} {count : σ → Nat} {P : Nat → Prop} {s t : σ} {rows : List α}

theorem Reaches.count_eq (hcount : ∀ s a s', next s = some (a, s') → count s' = count s + 1)
    (h : Reaches next s rows t) : count t = count s + rows.length := by
  induction h with
  | refl s => rfl
  | row hs _ ih =>
      rw [ih, hcount _ _ _ hs, List.length_cons]
      omega

/-- A cursor that gives the rows of another, as far as their counts are admitted. -/
theorem reaches_guarded_iff (hcount : ∀ s a s', next s = some (a, s') → count s' = count s + 1)
    (hguard : ∀ s a s', next' s = some (a, s') ↔ next s = some (a, s') ∧ P (count s)) :
    Reaches next' s rows t ↔ Reaches next s rows t ∧ ∀ k < rows.length, P (count s + k) := by
  have hmove : ∀ n k : Nat, n + 1 + k = n + (k + 1) := by omega
  constructor
  · intro h
    induction h with
    | refl s => exact ⟨.refl s, fun k hk => absurd hk (Nat.not_lt_zero k)⟩
    | row hs _ ih =>
        obtain ⟨hnext, hfirst⟩ := (hguard _ _ _).mp hs
        obtain ⟨hreach, hrest⟩ := ih
        refine ⟨.row hnext hreach, fun k hk => ?_⟩
        cases k with
        | zero => exact hfirst
        | succ k =>
            have hadmitted := hrest k (Nat.lt_of_succ_lt_succ hk)
            rwa [hcount _ _ _ hnext, hmove] at hadmitted
  · rintro ⟨h, hP⟩
    induction h with
    | refl s => exact .refl s
    | row hnext _ ih =>
        refine .row ((hguard _ _ _).mpr ⟨hnext, hP 0 (Nat.zero_lt_succ _)⟩) (ih fun k hk => ?_)
        rw [hcount _ _ _ hnext, hmove]
        exact hP (k + 1) (Nat.succ_lt_succ hk)

end Counted

/-! ## Simulation -/

/-- Related states are both at the end, or give the same row and are related again. -/
def Simulates {τ : Type} (next : σ → Option (α × σ)) (next' : τ → Option (α × τ))
    (rel : σ → τ → Prop) : Prop :=
  ∀ s t, rel s t → (next s = none ∧ next' t = none) ∨
    ∃ a s' t', next s = some (a, s') ∧ next' t = some (a, t') ∧ rel s' t'

section Simulation

variable {τ : Type} {next' : τ → Option (α × τ)} {rel : σ → τ → Prop}

theorem Simulates.symm (h : Simulates next next' rel) :
    Simulates next' next (fun t s => rel s t) := by
  intro t s hr
  rcases h s t hr with ⟨hs, ht⟩ | ⟨a, s', t', hs, ht, hr'⟩
  · exact Or.inl ⟨ht, hs⟩
  · exact Or.inr ⟨a, t', s', ht, hs, hr'⟩

theorem Simulates.fetches (h : Simulates next next' rel) {s : σ} {t : τ} (hr : rel s t)
    {rows : List α} (hf : Fetches next s rows) : Fetches next' t rows := by
  induction hf generalizing t with
  | done hs =>
      rcases h _ t hr with ⟨_, ht⟩ | ⟨a, s', t', hs', _, _⟩
      · exact .done ht
      · rw [hs] at hs'; cases hs'
  | row hs _ ih =>
      rcases h _ t hr with ⟨hs', _⟩ | ⟨a, s', t', hs', ht, hr'⟩
      · rw [hs] at hs'; cases hs'
      · rw [hs] at hs'; cases hs'
        exact .row ht (ih hr')

theorem Simulates.reaches (h : Simulates next next' rel) {s s' : σ} {t : τ} (hr : rel s t)
    {rows : List α} (hs : Reaches next s rows s') : ∃ t', Reaches next' t rows t' ∧ rel s' t' := by
  induction hs generalizing t with
  | refl _ => exact ⟨t, .refl t, hr⟩
  | row hs _ ih =>
      rcases h _ t hr with ⟨hs', _⟩ | ⟨a, s', t', hs', ht, hr'⟩
      · rw [hs] at hs'; cases hs'
      · rw [hs] at hs'; cases hs'
        obtain ⟨t'', hreach, hrel⟩ := ih hr'
        exact ⟨t'', .row ht hreach, hrel⟩

theorem Simulates.fetches_iff (h : Simulates next next' rel) {s : σ} {t : τ} (hr : rel s t)
    {rows : List α} : Fetches next s rows ↔ Fetches next' t rows :=
  ⟨h.fetches hr, h.symm.fetches hr⟩

end Simulation

/-! ## Traces

A trace names the state before each of the first `n` fetches. -/

section Trace

variable {trace : Nat → σ} {row : Nat → α} {n : Nat}

theorem Fetches.of_trace {rows : List α}
    (hrow : ∀ k < n, next (trace k) = some (row k, trace (k + 1)))
    (h : Fetches next (trace n) rows) :
    Fetches next (trace 0) ((List.range n).map row ++ rows) := by
  induction n generalizing rows with
  | zero => exact h
  | succ n ih =>
      have hlast := Fetches.row (hrow n (by omega)) h
      have := ih (fun k hk => hrow k (by omega)) hlast
      simpa [List.range_succ] using this

theorem Fetches.along_trace {rows : List α}
    (hrow : ∀ k < n, next (trace k) = some (row k, trace (k + 1)))
    (h : Fetches next (trace 0) rows) :
    ∃ rest, rows = (List.range n).map row ++ rest ∧ Fetches next (trace n) rest := by
  induction n with
  | zero => exact ⟨rows, rfl, h⟩
  | succ n ih =>
      obtain ⟨rest, hrows, hrest⟩ := ih (fun k hk => hrow k (by omega))
      have hn := hrow n (by omega)
      cases hrest with
      | done hs => rw [hs] at hn; cases hn
      | row hs hrest =>
          rw [hs] at hn; cases hn
          exact ⟨_, by simp [hrows, List.range_succ], hrest⟩

/-- A run does not leave a trace that ends. -/
theorem Reaches.on_trace {rows : List α} {t : σ}
    (hrow : ∀ k < n, next (trace k) = some (row k, trace (k + 1))) (hend : next (trace n) = none)
    (h : Reaches next (trace 0) rows t) : ∃ k ≤ n, t = trace k := by
  refine h.invariant (I := fun s => ∃ k ≤ n, s = trace k) ?_ ⟨0, Nat.zero_le n, rfl⟩
  rintro s a s' ⟨k, hk, rfl⟩ hs
  rcases Nat.lt_or_eq_of_le hk with hlt | rfl
  · rw [hrow k hlt] at hs
    cases hs
    exact ⟨k + 1, hlt, rfl⟩
  · rw [hend] at hs
    cases hs

theorem fetches_trace_iff (hrow : ∀ k < n, next (trace k) = some (row k, trace (k + 1))) :
    Fetches next (trace 0) ((List.range n).map row) ↔ next (trace n) = none := by
  constructor
  · intro h
    obtain ⟨rest, hrows, hrest⟩ := h.along_trace hrow
    have hnil : rest = [] := List.self_eq_append_right.mp hrows
    subst hnil
    cases hrest with
    | done hs => exact hs
  · intro h
    simpa using Fetches.of_trace hrow (.done h)

end Trace

/-! ## Walks

A walk names all states that a cursor would go through. It goes on beyond the first state at the
end, where the cursor stops. -/

def Walks (next : σ → Option (α × σ)) (trace : Nat → σ) (row : Nat → α) : Prop :=
  ∀ k, next (trace k) = none ∨ next (trace k) = some (row k, trace (k + 1))

namespace Walks

variable {trace : Nat → σ} {row : Nat → α} {rows : List α} {k n : Nat}

theorem reaches (h : Walks next trace row) (hgo : ∀ i < n, next (trace (k + i)) ≠ none) :
    Reaches next (trace k) ((List.range n).map fun i => row (k + i)) (trace (k + n)) := by
  induction n generalizing k with
  | zero => exact .refl _
  | succ n ih =>
      have hfirst : next (trace k) = some (row k, trace (k + 1)) :=
        (h k).resolve_left (hgo 0 (Nat.succ_pos n))
      have hmove : ∀ i, k + 1 + i = k + (i + 1) := fun i => by omega
      have hrest := ih (k := k + 1) fun i hi => by
        rw [hmove]
        exact hgo (i + 1) (Nat.succ_lt_succ hi)
      simp only [hmove] at hrest
      rw [List.range_succ_eq_map, List.map_cons, List.map_map]
      exact .row hfirst hrest

/-- The first row of a run that is not at its end. -/
theorem fetches_cons (h : Walks next trace row) {a : α} (hf : Fetches next (trace k) (a :: rows)) :
    a = row k ∧ Fetches next (trace (k + 1)) rows := by
  cases hf with
  | row hs hrest =>
      rcases h k with hnone | hsome
      · rw [hnone] at hs
        cases hs
      · rw [hsome] at hs
        cases hs
        exact ⟨rfl, hrest⟩

theorem drop (h : Walks next trace row) (hf : Fetches next (trace k) rows) {i : Nat}
    (hi : i ≤ rows.length) : Fetches next (trace (k + i)) (rows.drop i) := by
  induction i with
  | zero => exact hf
  | succ i ih =>
      have hrest := ih (by omega)
      rw [List.drop_eq_getElem_cons hi] at hrest
      exact (h.fetches_cons hrest).2

theorem eq_map (h : Walks next trace row) (hf : Fetches next (trace k) rows) :
    rows = (List.range rows.length).map fun i => row (k + i) := by
  refine List.ext_getElem (by simp) fun i hi hi' => ?_
  have hrest := h.drop hf (Nat.le_of_lt hi)
  rw [List.drop_eq_getElem_cons hi] at hrest
  rw [List.getElem_map, List.getElem_range]
  exact (h.fetches_cons hrest).1

theorem exists_fetches_iff (h : Walks next trace row) :
    (∃ rows, Fetches next (trace 0) rows) ↔ ∃ n, next (trace n) = none := by
  constructor
  · rintro ⟨rows, hf⟩
    have hend := h.drop hf (Nat.le_refl rows.length)
    rw [List.drop_length, Nat.zero_add] at hend
    cases hend with
    | done hs => exact ⟨rows.length, hs⟩
  · intro hend
    classical
    have hgo : ∀ i < Nat.find hend, next (trace (0 + i)) ≠ none := fun i hi => by
      rw [Nat.zero_add]
      exact Nat.find_min hend hi
    have hreach := h.reaches hgo
    rw [Nat.zero_add] at hreach
    exact ⟨_, fetches_iff_reaches.mpr ⟨_, hreach, Nat.find_spec hend⟩⟩

/-- A run that ends is in no state twice. -/
theorem injective_of_fetches (h : Walks next trace row) (hf : Fetches next (trace 0) rows)
    {i j : Nat} (hi : i ≤ rows.length) (hj : j ≤ rows.length) (hij : trace i = trace j) :
    i = j := by
  have hdi := h.drop hf hi
  have hdj := h.drop hf hj
  rw [Nat.zero_add] at hdi hdj
  rw [hij] at hdi
  have hlen := congrArg List.length (hdi.unique hdj)
  rw [List.length_drop, List.length_drop] at hlen
  omega

end Walks

end Cursor
