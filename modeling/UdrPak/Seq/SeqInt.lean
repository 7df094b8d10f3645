import UdrPak.Host.Fparam
import UdrPak.Realtime.Yield

/-!
# The integer sequence

The iterator function `seq` of one, two or three integers, and its variant that pauses after each
of them.
-/

namespace UdrPak.Seq

open Host Realtime

structure IntSeq where
  start : Int32
  now : Int32
  step : Int32
  end_ : Int32
  deriving DecidableEq, Repr

def IntSeq.zeroed : IntSeq := ⟨0, 0, 0, 0⟩

/-- The arguments that are not null, from left to right. -/
abbrev PMap := Bool × Bool × Bool

/-- The mapping of the arguments, by which of them are not null. -/
def seqArgs (pMap : PMap) (p1 p2 p3 : Int32) (s : IntSeq) : IntSeq :=
  match pMap with
  | (false, false, false) => s
  | (false, false, true) =>
      { s with now := 0, start := 0, step := if p3 > 0 then 1 else -1, end_ := p3 }
  | (false, true, false) =>
      { s with now := 0, start := 0, step := if p2 > 0 then 1 else -1, end_ := p2 }
  | (true, false, false) =>
      { s with now := 0, start := 0, step := if p1 > 0 then 1 else -1, end_ := p1 }
  | (true, false, true) =>
      { s with now := p1, start := p1, step := if p3 > p1 then 1 else -1, end_ := p3 }
  | (true, true, false) =>
      { s with now := p1, start := p1, step := if p2 > p1 then 1 else -1, end_ := p2 }
  | (false, true, true) =>
      { s with now := p2, start := p2, step := if p3 > p2 then 1 else -1, end_ := p3 }
  | (true, true, true) => { s with now := p1, start := p1, step := p2, end_ := p3 }

def IntSeq.turnStep (s : IntSeq) : IntSeq :=
  if s.end_ < s.start ∧ s.step > 0 then { s with step := s.step * -1 }
  else if s.end_ > s.start ∧ s.step < 0 then { s with step := s.step * -1 }
  else s

def seqIntInit (p1 p2 p3 : Int32) (fp : MiFparam IntSeq) : Int32 × MiFparam IntSeq :=
  let pMap : PMap := (notArgNull fp 0, notArgNull fp 1, notArgNull fp 2)
  if pMap = (false, false, false) then (-1, fp)
  else
    let (s, fp) := getFuncStatePtr IntSeq.zeroed fp
    let s := seqArgs pMap p1 p2 p3 s
    if s.step = 0 ∨ s.start = s.end_ then (-1, fp.setfuncstate s)
    else (0, fp.setfuncstate s.turnStep)

def seqInt (p1 p2 p3 : Int32) (interrupted : Bool) (fp : MiFparam IntSeq) :
    Int32 × MiFparam IntSeq :=
  match fp.request with
  | .setInit =>
      let (r, fp) := seqIntInit p1 p2 p3 fp
      if r < 0 then (0, fp.setisdone.setreturnisnull) else (-1, fp)
  | .setRetone =>
      if interrupted then (0, fp.setisdone.setreturnisnull)
      else
        let (s, fp) := getFuncStatePtr IntSeq.zeroed fp
        if s.step > 0 ∧ s.now ≥ s.end_ then (s.now, fp.setisdone)
        else if s.step < 0 ∧ s.now ≤ s.end_ then (s.now, fp.setisdone)
        else (s.now, fp.setfuncstate { s with now := s.now + s.step })
  | .setInvalid => (-1, fp)
  | .setEnd => (-1, fp)

/-- `slow_seq_int`, and the wait it does. `first` and `turns` are what the clock shows to it. -/
def slowSeqInt (p1 p2 p3 : Int32) (first : Timespec) (turns : List Turn) (interrupted : Bool)
    (fp : MiFparam IntSeq) : (Int32 × MiFparam IntSeq) × Option Wait :=
  match fp.request with
  | .setInit =>
      let (r, fp) := seqIntInit p1 p2 p3 fp
      if r < 0 then ((0, fp.setisdone.setreturnisnull), none) else ((-1, fp), none)
  | .setRetone =>
      if interrupted then ((0, fp.setisdone.setreturnisnull), none)
      else
        let (s, fp) := getFuncStatePtr IntSeq.zeroed fp
        let ret := s.now
        let fp :=
          if s.step > 0 ∧ s.now ≥ s.end_ then fp.setisdone
          else if s.step < 0 ∧ s.now ≤ s.end_ then fp.setisdone
          else fp.setfuncstate { s with now := s.now + s.step }
        let wait := yieldMsProc 100 first turns
        ((ret, fp), some wait)
  | .setInvalid => ((-1, fp), none)
  | .setEnd => ((-1, fp), none)

end UdrPak.Seq
