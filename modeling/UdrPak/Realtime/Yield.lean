import UdrPak.Realtime.Clock

/-!
# Waiting

`yield_ms` and `yield_ms_proc` sleep in steps of 10 milliseconds until the clock has reached a
target.
-/

namespace UdrPak.Realtime

/-- What one turn of the loop sees: the clock in its condition, and whether `nanosleep` in its body
fails. -/
structure Turn where
  clock : Timespec
  sleepFails : Bool
  deriving DecidableEq, Repr

/-- How far the loop has come: it was left because of the clock or of `nanosleep`, or is waiting for
another turn. -/
inductive Exit where
  | clock (last : UInt64)
  | sleepFailed
  | waiting
  deriving DecidableEq, Repr

structure Wait where
  exit : Exit
  entered : Nat
  deriving DecidableEq, Repr

def yieldLoop (tgt : UInt64) : List Turn → Wait
  | [] => ⟨.waiting, 0⟩
  | turn :: turns =>
      let now := getClocktickNs turn.clock
      if now < tgt then
        if turn.sleepFails then ⟨.sleepFailed, 1⟩
        else
          let w := yieldLoop tgt turns
          { w with entered := w.entered + 1 }
      else ⟨.clock now, 0⟩

/-- The target. The product is an `int`, which is extended to 64 bits with its sign. -/
def yieldTarget (now : UInt64) (ms : Int16) : UInt64 :=
  now + (ms.toInt32 * 1000000).toInt64.toUInt64

/-- `yield_ms`, which returns 0 wherever it returns, and the wait it does. -/
def yieldMs (ms : Int16) (first : Timespec) (turns : List Turn) : Int16 × Wait :=
  let now := getClocktickNs first
  let tgt := yieldTarget now ms
  (0, yieldLoop tgt turns)

def yieldMsProc (ms : Int16) (first : Timespec) (turns : List Turn) : Wait :=
  let now := getClocktickNs first
  let tgt := yieldTarget now ms
  yieldLoop tgt turns

end UdrPak.Realtime
