import UdrPak.Lib.Cursor

/-!
# The call interface of the host

The server passes every routine an `MI_FPARAM`. It tells the routine which arguments are null and
what is asked of an iterator, takes back whether it is done and whether the value is null, and keeps
the function state from one call to the next.
-/

namespace UdrPak.Host

/-- What `mi_fp_request` asks of an iterator function. -/
inductive MiRequest where
  | setInit
  | setRetone
  | setEnd
  | setInvalid
  deriving DecidableEq

structure MiFparam (σ : Type) where
  argisnull : Nat → Bool
  request : MiRequest
  isdone : Bool
  returnisnull : Bool
  funcstate : Option σ

variable {σ α : Type}

def notArgNull (fp : MiFparam σ) (argNum : Nat) : Bool := !fp.argisnull argNum

def MiFparam.setisdone (fp : MiFparam σ) : MiFparam σ := { fp with isdone := true }

/-- `return_SQLnull`, less the return. -/
def MiFparam.setreturnisnull (fp : MiFparam σ) : MiFparam σ := { fp with returnisnull := true }

def MiFparam.setfuncstate (fp : MiFparam σ) (s : σ) : MiFparam σ := { fp with funcstate := some s }

/-- The function state. A missing one is allocated and zeroed. -/
def getFuncStatePtr (zeroed : σ) (fp : MiFparam σ) : σ × MiFparam σ :=
  match fp.funcstate with
  | some s => (s, fp)
  | none => (zeroed, fp.setfuncstate zeroed)

theorem getFuncStatePtr_some {zeroed s : σ} {fp : MiFparam σ} (h : fp.funcstate = some s) :
    getFuncStatePtr zeroed fp = (s, fp) := by
  rw [getFuncStatePtr, h]

theorem getFuncStatePtr_setfuncstate (zeroed : σ) (fp : MiFparam σ) :
    ∃ s₀ fp', getFuncStatePtr zeroed fp = (s₀, fp') ∧
      ∀ s, fp'.setfuncstate s = fp.setfuncstate s := by
  unfold getFuncStatePtr
  cases fp.funcstate with
  | none => exact ⟨_, _, rfl, fun _ => rfl⟩
  | some s => exact ⟨_, _, rfl, fun _ => rfl⟩

/-! ## Iterator functions

The host calls the function once with `SET_INIT`, and then with `SET_RETONE` until a call sets
`isdone`. The value of a call that sets it is dropped. -/

def MiFparam.call (fp : MiFparam σ) (r : MiRequest) : MiFparam σ :=
  { fp with request := r, isdone := false, returnisnull := false }

@[simp] theorem MiFparam.call_request (fp : MiFparam σ) (r : MiRequest) :
    (fp.call r).request = r := rfl

/-- The first call of a statement, with what an earlier one left in the function state. -/
def MiFparam.fresh (argisnull : Nat → Bool) (funcstate : Option σ) : MiFparam σ where
  argisnull
  request := .setInvalid
  isdone := false
  returnisnull := false
  funcstate

/-- An iterator function, given the answer of `mi_interrupt_check`. -/
abbrev Udr (σ α : Type) := Bool → MiFparam σ → α × MiFparam σ

/-- One row of the host, an SQL null as `none`. The answers of `mi_interrupt_check` are numbered by
the calls for a row. -/
def fetch (udr : Udr σ α) (interrupts : Nat → Bool) (s : Nat × MiFparam σ) :
    Option (Option α × (Nat × MiFparam σ)) :=
  let (v, fp) := udr (interrupts s.1) (s.2.call .setRetone)
  if fp.isdone then none
  else some (if fp.returnisnull then none else some v, (s.1 + 1, fp))

def Rows (udr : Udr σ α) (interrupts : Nat → Bool) (fp : MiFparam σ) (rows : List (Option α)) :
    Prop :=
  let (_, fp) := udr false (fp.call .setInit)
  if fp.isdone then rows = [] else Cursor.Fetches (fetch udr interrupts) (0, fp) rows

/-- After `SET_INIT` and the calls for the rows, the next call finds the state. -/
def RowsTo (udr : Udr σ α) (interrupts : Nat → Bool) (fp : MiFparam σ) (rows : List (Option α))
    (s : Nat × MiFparam σ) : Prop :=
  let (_, fp) := udr false (fp.call .setInit)
  fp.isdone = false ∧ Cursor.Reaches (fetch udr interrupts) (0, fp) rows s

theorem Rows.unique {udr : Udr σ α} {interrupts : Nat → Bool} {fp : MiFparam σ}
    {rows rows' : List (Option α)} (h : Rows udr interrupts fp rows)
    (h' : Rows udr interrupts fp rows') : rows = rows' := by
  unfold Rows at h h'
  generalize udr false (fp.call .setInit) = init at h h'
  obtain ⟨_, fp'⟩ := init
  by_cases hd : fp'.isdone
  · simp only [hd, if_true] at h h'
    rw [h, h']
  · simp only [hd, Bool.false_eq_true, if_false] at h h'
    exact h.unique h'

end UdrPak.Host
