import UdrPak.Host.Calls
import UdrPak.Host.Select

/-!
# Functions that pause

A call of a function that pauses only comes back where its pause ends. So a run has no rows behind a
pause that does not end, and the calls of a session no answers.
-/

namespace UdrPak.Host

open Cursor Libc

variable {ι κ σ τ α β : Type}

/-- An iterator function of which a call may not come back. -/
abbrev PausingUdr (σ α : Type) := Bool → MiFparam σ → Option (α × MiFparam σ)

/-! ## Runs -/

/-- The row that `fetch` makes of the answer, where there is one. -/
def pausingFetch (udr : PausingUdr σ α) (interrupts : Nat → Bool) (s : Nat × MiFparam σ) :
    Option (Option α × (Nat × MiFparam σ)) :=
  (udr (interrupts s.1) (s.2.call .setRetone)).bind fun answer =>
    fetch (fun _ _ => answer) interrupts s

/-- `RowsTo`, where what the function sees besides its arguments is numbered by the calls for a
row. -/
def PausingRowsTo (udr : Nat → PausingUdr σ α) (interrupts : Nat → Bool) (fp : MiFparam σ)
    (rows : List (Option α)) (s : Nat × MiFparam σ) : Prop :=
  ∃ v fp', udr 0 false (fp.call .setInit) = some (v, fp') ∧ fp'.isdone = false ∧
    Reaches (fun s => pausingFetch (udr s.1) interrupts s) (0, fp') rows s

/-- `SelectsTo` of such a function. -/
def PausingSelectsTo (udr : Nat → PausingUdr σ α) (interrupts : Nat → Bool)
    (expr : Nat → τ → Outcome (β × τ)) (fp : MiFparam σ) (t : τ) (rows : List (Option α × β))
    (x : (Nat × MiFparam σ) × τ) : Prop :=
  ∃ v fp', udr 0 false (fp.call .setInit) = some (v, fp') ∧ fp'.isdone = false ∧
    Reaches (select (fun s => pausingFetch (udr s.1) interrupts s) expr) ((0, fp'), t) rows x

/-- The calls come back as those of the other function, except that a call for a row that is not
interrupted does so only where its pause ends. -/
structure PausesAs (udr : Nat → PausingUdr σ α) (udr' : Udr σ α) (ends : Nat → Prop) : Prop where
  init : ∀ fp : MiFparam σ,
    udr 0 false (fp.call .setInit) = some (udr' false (fp.call .setInit))
  interrupted : ∀ k (fp : MiFparam σ),
    udr k true (fp.call .setRetone) = some (udr' true (fp.call .setRetone))
  ended : ∀ k (fp : MiFparam σ), ends k →
    udr k false (fp.call .setRetone) = some (udr' false (fp.call .setRetone))
  waiting : ∀ k (fp : MiFparam σ), ¬ends k → udr k false (fp.call .setRetone) = none

namespace PausesAs

variable {udr : Nat → PausingUdr σ α} {udr' : Udr σ α} {ends : Nat → Prop}
  {interrupts : Nat → Bool} {fp : MiFparam σ} {s t : Nat × MiFparam σ}

/-- A row is fetched where the other function gives it and the pause ends. -/
theorem pausingFetch_some_iff (h : PausesAs udr udr' ends) (hudr : Interruptible udr')
    {a : Option α} : pausingFetch (udr s.1) interrupts s = some (a, t) ↔
      fetch udr' interrupts s = some (a, t) ∧ ends s.1 := by
  cases hi : interrupts s.1 with
  | true =>
      have hnone := hudr.fetch_eq_none hi
      have hsame : pausingFetch (udr s.1) interrupts s = fetch udr' interrupts s := by
        rw [pausingFetch, hi, h.interrupted, Option.bind_some, fetch, fetch, hi]
      rw [hsame, hnone]
      simp
  | false =>
      by_cases hend : ends s.1
      · rw [pausingFetch, hi, h.ended _ _ hend, Option.bind_some, fetch, fetch, hi]
        exact (and_iff_left hend).symm
      · rw [pausingFetch, hi, h.waiting _ _ hend, Option.bind_none]
        exact iff_of_false (Option.some_ne_none _).symm fun hrow => hend hrow.2

theorem exists_init (h : PausesAs udr udr' ends) {P : MiFparam σ → Prop} :
    (∃ v fp', udr 0 false (fp.call .setInit) = some (v, fp') ∧ P fp') ↔
      P (udr' false (fp.call .setInit)).2 := by
  rw [h.init]
  constructor
  · rintro ⟨v, fp', heq, hP⟩
    rw [Option.some.injEq] at heq
    rwa [heq]
  · exact fun hP => ⟨_, _, rfl, hP⟩

/-- The rows are those of the other function, as far as the pauses end. -/
theorem rowsTo_iff (h : PausesAs udr udr' ends) (hudr : Interruptible udr')
    {rows : List (Option α)} : PausingRowsTo udr interrupts fp rows s ↔
      RowsTo udr' interrupts fp rows s ∧ ∀ k < rows.length, ends k := by
  have hreach := @reaches_guarded_iff _ _ (fetch udr' interrupts)
    (fun s => pausingFetch (udr s.1) interrupts s) Prod.fst ends
    (0, (udr' false (fp.call .setInit)).2) s rows (fun _ _ _ => fetch_some)
    fun _ _ _ => h.pausingFetch_some_iff hudr
  simp only [Nat.zero_add] at hreach
  rw [PausingRowsTo, h.exists_init, Host.rowsTo_iff, hreach, and_assoc]

theorem selectsTo_iff (h : PausesAs udr udr' ends) (hudr : Interruptible udr')
    {expr : Nat → τ → Outcome (β × τ)} {t : τ} {rows : List (Option α × β)}
    {x : (Nat × MiFparam σ) × τ} : PausingSelectsTo udr interrupts expr fp t rows x ↔
      SelectsTo udr' interrupts expr fp t rows x ∧ ∀ k < rows.length, ends k := by
  have hreach := @reaches_guarded_iff _ _ (select (fetch udr' interrupts) expr)
    (select (fun s => pausingFetch (udr s.1) interrupts s) expr) (fun x => x.1.1) ends
    ((0, (udr' false (fp.call .setInit)).2), t) x rows
    (fun _ _ _ hrow => fetch_some (select_some_iff.mp hrow).1) fun _ _ _ => by
      rw [select_some_iff, select_some_iff, h.pausingFetch_some_iff hudr, and_right_comm]
  simp only [Nat.zero_add] at hreach
  rw [PausingSelectsTo, h.exists_init, hreach, ← and_assoc]
  rfl

end PausesAs

/-! ## Calls in any order -/

/-- `HostCall.run` of a function that pauses. -/
def HostCall.pausingRun (c : HostCall ι) (udr : ι → PausingUdr σ α) (fp : MiFparam σ) :
    Option (Answer α × MiFparam σ) :=
  (udr c.args c.interrupted (c.fparam fp)).map fun (v, fp) => (⟨v, fp.isdone, fp.returnisnull⟩, fp)

/-- `serve` of a function that pauses. The calls end with the first one that does not come back. -/
def pausingServe (udr : ι → PausingUdr σ α) (calls : List (HostCall ι)) (fp : MiFparam σ) :
    Option (MiFparam σ) :=
  calls.foldlM (fun fp c => (c.pausingRun udr fp).map Prod.snd) fp

/-- Calls that all come back leave what those of the other function leave. -/
theorem pausingServe_eq {udr : ι → PausingUdr σ α} {udr' : κ → Udr σ α} {f : ι → κ}
    {ends : HostCall ι → Prop} [DecidablePred ends]
    (hrun : ∀ c fp, c.pausingRun udr fp = if ends c then some ((c.map f).run udr' fp) else none)
    (calls : List (HostCall ι)) (fp : MiFparam σ) : pausingServe udr calls fp =
      if ∀ c ∈ calls, ends c then some (serve udr' (calls.map (HostCall.map f)) fp) else none := by
  induction calls generalizing fp with
  | nil => simp [pausingServe, serve]
  | cons c calls ih =>
      have hstep : pausingServe udr (c :: calls) fp =
          ((c.pausingRun udr fp).map Prod.snd).bind (pausingServe udr calls) := rfl
      rw [hstep, hrun]
      by_cases hc : ends c
      · rw [if_pos hc, Option.map_some, Option.bind_some, ih]
        simp only [List.forall_mem_cons, hc, true_and]
        rfl
      · simp [hc]

end UdrPak.Host
