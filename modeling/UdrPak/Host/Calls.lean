import UdrPak.Host.Fparam

/-!
# Calls in any order

A routine answers each call by the function state that the calls before it have left. Nothing is
said of the order in which the host makes them.
-/

namespace UdrPak.Host

variable {ι κ σ α : Type}

/-- One call: what is asked for, the arguments, and the answer of `mi_interrupt_check`. -/
structure HostCall (ι : Type) where
  request : MiRequest
  argisnull : Nat → Bool
  args : ι
  interrupted : Bool

def HostCall.map (f : ι → κ) (c : HostCall ι) : HostCall κ := { c with args := f c.args }

structure Answer (α : Type) where
  value : α
  isdone : Bool
  returnisnull : Bool
  deriving DecidableEq

/-- The `MI_FPARAM` of the call, with the function state of the calls before. -/
def HostCall.fparam (c : HostCall ι) (fp : MiFparam σ) : MiFparam σ :=
  { fp with argisnull := c.argisnull }.call c.request

def HostCall.run (c : HostCall ι) (udr : ι → Udr σ α) (fp : MiFparam σ) : Answer α × MiFparam σ :=
  let (v, fp) := udr c.args c.interrupted (c.fparam fp)
  (⟨v, fp.isdone, fp.returnisnull⟩, fp)

/-- What the calls leave, one after the other. -/
def serve (udr : ι → Udr σ α) (calls : List (HostCall ι)) (fp : MiFparam σ) : MiFparam σ :=
  calls.foldl (fun fp c => (c.run udr fp).2) fp

/-- What each call preserves, along with the state of an abstract machine, holds after all. -/
theorem serve_invariant {τ : Type} {udr : ι → Udr σ α} {next : τ → HostCall ι → τ}
    {I : MiFparam σ → τ → Prop} (hstep : ∀ fp t c, I fp t → I (c.run udr fp).2 (next t c))
    {calls : List (HostCall ι)} {fp : MiFparam σ} {t : τ} (h : I fp t) :
    I (serve udr calls fp) (calls.foldl next t) := by
  induction calls generalizing fp t with
  | nil => exact h
  | cons c calls ih => exact ih (hstep fp t c h)

end UdrPak.Host
