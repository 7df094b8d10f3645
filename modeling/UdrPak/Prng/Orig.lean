/-!
# The reference generators

`xoshiro256starstar.c` and `splitmix64.c`, from which the `prng` function is ported, and
`xoshiro256plusplus.c`, which makes the same steps with another output.
-/

namespace UdrPak.Prng

def rotl (x k : UInt64) : UInt64 := (x <<< k) ||| (x >>> (64 - k))

structure Words where
  s0 : UInt64
  s1 : UInt64
  s2 : UInt64
  s3 : UInt64
  deriving DecidableEq, Repr

/-- `next` of `xoshiro256starstar.c`. -/
def next (s : Words) : UInt64 × Words :=
  let result := rotl (s.s1 * 5) 7 * 9
  let t := s.s1 <<< 17
  let s := { s with s2 := s.s2 ^^^ s.s0 }
  let s := { s with s3 := s.s3 ^^^ s.s1 }
  let s := { s with s1 := s.s1 ^^^ s.s2 }
  let s := { s with s0 := s.s0 ^^^ s.s3 }
  let s := { s with s2 := s.s2 ^^^ t }
  let s := { s with s3 := rotl s.s3 45 }
  (result, s)

def Words.xor (a b : Words) : Words :=
  ⟨a.s0 ^^^ b.s0, a.s1 ^^^ b.s1, a.s2 ^^^ b.s2, a.s3 ^^^ b.s3⟩

/-- The loops of `jump` and `long_jump`. Every bit of the table makes a step, a set bit adds the
words before it to the sum that takes their place in the end. -/
def jumpBy (next : Words → UInt64 × Words) (table : List UInt64) (s : Words) : Words :=
  (table.foldl (fun p word =>
    (List.range 64).foldl (fun p b =>
      (if word &&& (1 <<< UInt64.ofNat b) ≠ 0 then p.1.xor p.2 else p.1, (next p.2).2)) p)
    ((⟨0, 0, 0, 0⟩ : Words), s)).1

/-- `JUMP`, the same in both generators. -/
def jumpTable : List UInt64 :=
  [0x180ec6d33cfd0aba, 0xd5a61266f0c9392c, 0xa9582618e03fc9aa, 0x39abdc4529b1661c]

/-- `LONG_JUMP`, the same in both generators. -/
def longJumpTable : List UInt64 :=
  [0x76e15d3efefdcbbf, 0xc5004e441c522fb3, 0x77710069854ee241, 0x39109bb02acbe635]

/-- `jump` of `xoshiro256starstar.c`. -/
def jump : Words → Words := jumpBy next jumpTable

/-- `long_jump` of `xoshiro256starstar.c`. -/
def longJump : Words → Words := jumpBy next longJumpTable

namespace PlusPlus

/-- `next` of `xoshiro256plusplus.c`. -/
def next (s : Words) : UInt64 × Words :=
  let result := rotl (s.s0 + s.s3) 23 + s.s0
  let t := s.s1 <<< 17
  let s := { s with s2 := s.s2 ^^^ s.s0 }
  let s := { s with s3 := s.s3 ^^^ s.s1 }
  let s := { s with s1 := s.s1 ^^^ s.s2 }
  let s := { s with s0 := s.s0 ^^^ s.s3 }
  let s := { s with s2 := s.s2 ^^^ t }
  let s := { s with s3 := rotl s.s3 45 }
  (result, s)

/-- `jump` of `xoshiro256plusplus.c`. -/
def jump : Words → Words := jumpBy next jumpTable

/-- `long_jump` of `xoshiro256plusplus.c`. -/
def longJump : Words → Words := jumpBy next longJumpTable

end PlusPlus

/-- `next` of `splitmix64.c`. -/
def splitmixNext (x : UInt64) : UInt64 × UInt64 :=
  let x := x + 0x9e3779b97f4a7c15
  let z := x
  let z := (z ^^^ (z >>> 30)) * 0xbf58476d1ce4e5b9
  let z := (z ^^^ (z >>> 27)) * 0x94d049bb133111eb
  (z ^^^ (z >>> 31), x)

end UdrPak.Prng
