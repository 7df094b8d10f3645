import UdrPak.Host.Lemmas.Runs
import UdrPak.Lib.Cross

/-!
# Cross joins

In `from table(f(..)) cross join table(g(..))` the host goes through the rows of `g` once for every
row of `f`. Each time it starts `g` again with `SET_INIT`, on the `MI_FPARAM` that the rows before
have left. An interrupt is there for every call after it.
-/

namespace UdrPak.Host

open Cross Cursor

variable {σ τ α : Type}

/-- What the host makes of a call for a row, and the `MI_FPARAM` that the call has left. -/
def scanRow (udr : Udr σ α) (interrupted : Bool) (fp : MiFparam σ) :
    Option (Option α) × MiFparam σ :=
  let (v, fp) := udr interrupted (fp.call .setRetone)
  (if fp.isdone then none else some (if fp.returnisnull then none else some v), fp)

/-- For every row the inner tables are gone through, from the states they were left in. The calls
for a row are numbered over all tables. -/
inductive Loop (udr : Udr σ α) (interrupts : Nat → Bool)
    (inner : Nat → τ → List (List (Option α)) → Nat → τ → Prop) :
    Nat → MiFparam σ → τ → List (List (Option α)) → Nat → MiFparam σ → τ → Prop where
  | empty {k fp t} (hfp : fp.isdone = true) : Loop udr interrupts inner k fp t [] k fp t
  | done {k fp fp' t} (hfp : fp.isdone = false)
      (h : scanRow udr (interrupts k) fp = (none, fp')) :
      Loop udr interrupts inner k fp t [] (k + 1) fp' t
  | row {k k' k'' fp fp' fp'' t t' t'' a inners rows} (hfp : fp.isdone = false)
      (h : scanRow udr (interrupts k) fp = (some a, fp'))
      (hinner : inner (k + 1) t inners k' t')
      (rest : Loop udr interrupts inner k' fp' t' rows k'' fp'' t'') :
      Loop udr interrupts inner k fp t (inners.map (a :: ·) ++ rows) k'' fp'' t''

/-- The rows of a cross join, from the outermost function to the innermost one. -/
def Join (interrupts : Nat → Bool) : List (Udr σ α) → Nat → List (MiFparam σ) →
    List (List (Option α)) → Nat → List (MiFparam σ) → Prop
  | [], k, fps, rows, k', fps' => fps = [] ∧ fps' = [] ∧ k' = k ∧ rows = [[]]
  | udr :: udrs, k, fps, rows, k', fps' => ∃ fp rest fp' rest', fps = fp :: rest ∧
      fps' = fp' :: rest' ∧ Loop udr interrupts (Join interrupts udrs) k
        (udr false (fp.call .setInit)).2 rest rows k' fp' rest'

/-! ## Scans -/

/-- From every `MI_FPARAM` that the invariant admits, the function gives the same rows. -/
structure Scans (udr : Udr σ α) (I : MiFparam σ → Prop) (vals : List (Option α)) : Prop where
  rows : ∀ fp, I fp → Rows udr (fun _ => false) fp vals
  keeps : ∀ fp r i, I fp → I (udr i (fp.call r)).2
  interruptible : Interruptible udr

/-- From every state that the invariant admits, the inner tables give the same rows, or the first of
them up to an interrupt. -/
structure Yields (interrupts : Nat → Bool)
    (inner : Nat → τ → List (List (Option α)) → Nat → τ → Prop) (J : τ → Prop)
    (inners : List (List (Option α))) : Prop where
  total : ∀ k t, J t → ∃ rows k' t', inner k t rows k' t'
  only : ∀ k t rows k' t', J t → inner k t rows k' t' →
    J t' ∧ rows <+: inners ∧ (rows = inners ∨ interrupts k' = true)

def Lasting (interrupts : Nat → Bool) : Prop :=
  ∀ k, interrupts k = true → interrupts (k + 1) = true

section Loop

variable {udr : Udr σ α} {interrupts : Nat → Bool}
  {inner : Nat → τ → List (List (Option α)) → Nat → τ → Prop}
  {I : MiFparam σ → Prop} {J : τ → Prop} {inners rows : List (List (Option α))}
  {vals : List (Option α)} {fp fp' : MiFparam σ} {t t' : τ} {s s' : Nat × MiFparam σ}
  {a : Option α} {k k' : Nat}

theorem scanRow_of_none (h : fetch udr (fun _ => false) s = none) :
    scanRow udr false s.2 = (none, (udr false (s.2.call .setRetone)).2) := by
  have hend : (udr false (s.2.call .setRetone)).2.isdone = true := by
    simpa [fetch] using h
  simp only [scanRow, hend, if_true]

theorem scanRow_of_some (h : fetch udr (fun _ => false) s = some (a, s')) :
    scanRow udr false s.2 = (some a, s'.2) ∧ s'.2.isdone = false := by
  simp only [fetch, Option.ite_none_left_eq_some, Option.some.injEq, Prod.mk.injEq] at h
  obtain ⟨hgoes, rfl, rfl⟩ := h
  rw [Bool.not_eq_true] at hgoes
  exact ⟨by simp only [scanRow, hgoes, Bool.false_eq_true, if_false], hgoes⟩

theorem scanRow_interrupted (h : Interruptible udr) :
    scanRow udr true fp = (none, (udr true (fp.call .setRetone)).2) := by
  simp only [scanRow, h fp, if_true]

theorem scanRow_keeps (hkeeps : ∀ fp r i, I fp → I (udr i (fp.call r)).2) (hI : I fp) {i : Bool}
    {o : Option (Option α)} (h : scanRow udr i fp = (o, fp')) : I fp' := by
  have hleft : (scanRow udr i fp).2 = (udr i (fp.call .setRetone)).2 := rfl
  rw [h] at hleft
  have hcall := hkeeps fp .setRetone i hI
  rwa [← hleft] at hcall

/-- A loop that is interrupted has no more rows. -/
theorem Loop.interrupted (hudr : Interruptible udr) (hlast : Lasting interrupts)
    (h : Loop udr interrupts inner k fp t rows k' fp' t') (hk : interrupts k = true)
    (hfp : fp.isdone = false) : rows = [] ∧ interrupts k' = true := by
  cases h with
  | empty hdone =>
      rw [hfp] at hdone
      cases hdone
  | done _ _ => exact ⟨rfl, hlast k hk⟩
  | row _ hrow _ _ =>
      rw [hk, scanRow_interrupted hudr] at hrow
      cases hrow

theorem exists_loop (hinner : Yields interrupts inner J inners) (hudr : Interruptible udr)
    (hvals : Fetches (fetch udr fun _ => false) s vals) (hfp : s.2.isdone = false) (ht : J t) :
    ∃ rows k' fp' t', Loop udr interrupts inner k s.2 t rows k' fp' t' := by
  induction hvals generalizing k t with
  | @done s h =>
      refine ⟨[], k + 1, (scanRow udr (interrupts k) s.2).2, t, .done hfp (Prod.ext ?_ rfl)⟩
      cases interrupts k with
      | true => rw [scanRow_interrupted hudr]
      | false => rw [scanRow_of_none h]
  | row h _ ih =>
      cases hk : interrupts k with
      | true =>
          exact ⟨[], k + 1, _, t, .done hfp (by rw [hk]; exact scanRow_interrupted hudr)⟩
      | false =>
          obtain ⟨hrow, hfp'⟩ := scanRow_of_some h
          obtain ⟨ins, k', t', hin⟩ := hinner.total (k + 1) t ht
          obtain ⟨rows, k'', fp'', t'', hrest⟩ :=
            ih (k := k') hfp' (hinner.only _ t _ k' t' ht hin).1
          exact ⟨_, k'', fp'', t'', .row hfp (by rw [hk]; exact hrow) hin hrest⟩

theorem Loop.sound (hlast : Lasting interrupts) (hinner : Yields interrupts inner J inners)
    (hudr : Interruptible udr) (hkeeps : ∀ fp r i, I fp → I (udr i (fp.call r)).2)
    (h : Loop udr interrupts inner k fp t rows k' fp' t') (hI : I fp) (ht : J t) {n : Nat}
    (hvals : Fetches (fetch udr fun _ => false) (n, fp) vals) (hfp : fp.isdone = false) :
    I fp' ∧ J t' ∧ rows <+: (vals.flatMap fun a => inners.map (a :: ·)) ∧
      (rows = (vals.flatMap fun a => inners.map (a :: ·)) ∨ interrupts k' = true) := by
  induction h generalizing n vals with
  | empty hdone =>
      rw [hfp] at hdone
      cases hdone
  | @done k _ _ _ _ hrow =>
      refine ⟨scanRow_keeps hkeeps hI hrow, ht, List.nil_prefix, ?_⟩
      cases hk : interrupts k with
      | true => exact Or.inr (hlast k hk)
      | false =>
          rw [hk] at hrow
          cases hvals with
          | done _ => exact Or.inl rfl
          | row hsome _ =>
              rw [(scanRow_of_some hsome).1] at hrow
              cases hrow
  | @row k k' _ _ _ _ _ _ _ _ _ _ _ hrow hin hrest ih =>
      cases hk : interrupts k with
      | true =>
          rw [hk, scanRow_interrupted hudr] at hrow
          cases hrow
      | false =>
          have hleft := scanRow_keeps hkeeps hI hrow
          rw [hk] at hrow
          cases hvals with
          | done hnone =>
              rw [scanRow_of_none hnone] at hrow
              cases hrow
          | row hsome hvals =>
              obtain ⟨hrow', hfp'⟩ := scanRow_of_some hsome
              rw [hrow'] at hrow
              cases hrow
              obtain ⟨ht', hpre, hall⟩ := hinner.only _ _ _ _ _ ht hin
              obtain ⟨hI', ht'', hprefix', hall'⟩ := ih hleft ht' hvals hfp'
              refine ⟨hI', ht'', ?_⟩
              rw [List.flatMap_cons]
              rcases hall with rfl | hk'
              · refine ⟨(List.prefix_append_right_inj _).mpr hprefix', hall'.imp_left fun heq => ?_⟩
                rw [heq]
              · obtain ⟨rfl, hend⟩ := hrest.interrupted hudr hlast hk' hfp'
                rw [List.append_nil]
                exact ⟨(hpre.map _).trans (List.prefix_append _ _), Or.inr hend⟩

theorem Scans.exists_loop (hscans : Scans udr I vals) (hinner : Yields interrupts inner J inners)
    (hI : I fp) (ht : J t) :
    ∃ rows k' fp' t', Loop udr interrupts inner k (udr false (fp.call .setInit)).2 t rows k' fp'
      t' := by
  have hrows := rows_iff.mp (hscans.rows fp hI)
  cases hfp : (udr false (fp.call .setInit)).2.isdone with
  | true => exact ⟨[], k, _, t, .empty hfp⟩
  | false =>
      rw [hfp, if_neg Bool.false_ne_true] at hrows
      exact Host.exists_loop hinner hscans.interruptible hrows hfp ht

theorem Scans.loop_sound (hscans : Scans udr I vals) (hlast : Lasting interrupts)
    (hinner : Yields interrupts inner J inners) (hI : I fp) (ht : J t)
    (h : Loop udr interrupts inner k (udr false (fp.call .setInit)).2 t rows k' fp' t') :
    I fp' ∧ J t' ∧ rows <+: (vals.flatMap fun a => inners.map (a :: ·)) ∧
      (rows = (vals.flatMap fun a => inners.map (a :: ·)) ∨ interrupts k' = true) := by
  have hrows := rows_iff.mp (hscans.rows fp hI)
  have hinit : I (udr false (fp.call .setInit)).2 := hscans.keeps fp .setInit false hI
  cases hfp : (udr false (fp.call .setInit)).2.isdone with
  | true =>
      rw [hfp, if_pos rfl] at hrows
      subst hrows
      cases h with
      | empty _ => exact ⟨hinit, ht, List.prefix_rfl, Or.inl rfl⟩
      | done hgoes _ | row hgoes _ _ _ =>
          rw [hfp] at hgoes
          cases hgoes
  | false =>
      rw [hfp, if_neg Bool.false_ne_true] at hrows
      exact h.sound hlast hinner hscans.interruptible hscans.keeps hinit ht hrows hfp

end Loop

/-! ## Joins -/

/-- A function of a cross join, and the `MI_FPARAM` that its scans may start from. -/
structure Table (σ α : Type) where
  udr : Udr σ α
  admits : MiFparam σ → Prop

def Table.Gives (t : Table σ α) (vals : List (Option α)) : Prop := Scans t.udr t.admits vals

/-- A cross join gives the product of the rows of its functions. -/
theorem join_yields {interrupts : Nat → Bool} (hlast : Lasting interrupts)
    {tables : List (Table σ α)} {rowss : List (List (Option α))}
    (h : List.Forall₂ Table.Gives tables rowss) :
    Yields interrupts (Join interrupts (tables.map Table.udr)) (List.Forall₂ Table.admits tables)
      (cross rowss) := by
  induction h with
  | nil =>
      refine ⟨fun k fps hfps => ?_, fun k fps rows k' fps' hfps hjoin => ?_⟩
      · exact ⟨[[]], k, [], List.forall₂_nil_left_iff.mp hfps, rfl, rfl, rfl⟩
      · obtain ⟨-, rfl, -, rfl⟩ := hjoin
        exact ⟨.nil, List.prefix_rfl, Or.inl rfl⟩
  | cons hscans _ ih =>
      refine ⟨fun k fps hfps => ?_, fun k fps rows k' fps' hfps hjoin => ?_⟩
      · obtain ⟨fp, rest, hfp, hrest, rfl⟩ := List.forall₂_cons_left_iff.mp hfps
        obtain ⟨rows, k', fp', rest', hloop⟩ := Scans.exists_loop hscans ih hfp hrest
        exact ⟨rows, k', fp' :: rest', fp, rest, fp', rest', rfl, rfl, hloop⟩
      · obtain ⟨fp, rest, fp', rest', rfl, rfl, hloop⟩ := hjoin
        obtain ⟨hfp, hrest⟩ := List.forall₂_cons.mp hfps
        obtain ⟨hfp', hrest', hrows⟩ := Scans.loop_sound hscans hlast ih hfp hrest hloop
        exact ⟨.cons hfp' hrest', hrows⟩

end UdrPak.Host
