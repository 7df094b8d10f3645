import UdrPak.Host.Decimal
import UdrPak.Lib.Word
import UdrPak.Realtime.Yield

/-!
# The clock in nanoseconds
-/

namespace UdrPak.Realtime

def Timespec.nanos (ts : Timespec) : Int := ts.tvSec.toInt * 1000000000 + ts.tvNsec.toInt

/-- A reading of a clock: not negative, with less than a second of nanoseconds, and below `2^63`
nanoseconds. -/
structure Timespec.Valid (ts : Timespec) : Prop where
  sec : 0 ≤ ts.tvSec.toInt
  nsec : 0 ≤ ts.tvNsec.toInt ∧ ts.tvNsec.toInt < 1000000000
  nanos : ts.nanos < 2 ^ 63

theorem toNat_getClocktickNs (ts : Timespec) :
    ((getClocktickNs ts).toNat : Int) = ts.nanos % 2 ^ 64 := by
  have hscale : (nsec.toUInt64.toNat : Int) = 1000000000 := rfl
  have hsec := Word.toNat_toUInt64 ts.tvSec
  have hnsec := Word.toNat_toUInt64 ts.tvNsec
  rw [getClocktickNs, Int64.toUInt64_mul, UInt64.toNat_add, UInt64.toNat_mul, Timespec.nanos]
  have hscale' : nsec.toUInt64.toNat = 1000000000 := by omega
  rw [hscale']
  omega

theorem Timespec.Valid.toNat_getClocktickNs {ts : Timespec} (h : ts.Valid) :
    ((getClocktickNs ts).toNat : Int) = ts.nanos := by
  have hsec := h.sec
  have hnsec := h.nsec
  have hlt := h.nanos
  rw [Realtime.toNat_getClocktickNs, Int.emod_eq_of_lt] <;> unfold Timespec.nanos at * <;> omega

def Timespec.ofNanos (n : Nat) : Timespec :=
  ⟨Int64.ofNat (n / 1000000000), Int64.ofNat (n % 1000000000)⟩

theorem Timespec.nanos_ofNanos {n : Nat} (h : n < 2 ^ 64) : (ofNanos n).nanos = n := by
  have hsec : (Int64.ofNat (n / 1000000000)).toInt = ((n / 1000000000 : Nat) : Int) :=
    Int64.toInt_ofNat_of_lt (by omega)
  have hnsec : (Int64.ofNat (n % 1000000000)).toInt = ((n % 1000000000 : Nat) : Int) :=
    Int64.toInt_ofNat_of_lt (by omega)
  rw [nanos, ofNanos, hsec, hnsec]
  omega

theorem Timespec.valid_ofNanos {n : Nat} (h : n < 2 ^ 63) : (ofNanos n).Valid := by
  have hsec : (ofNanos n).tvSec.toInt = ((n / 1000000000 : Nat) : Int) :=
    Int64.toInt_ofNat_of_lt (by omega)
  have hnsec : (ofNanos n).tvNsec.toInt = ((n % 1000000000 : Nat) : Int) :=
    Int64.toInt_ofNat_of_lt (by omega)
  refine ⟨by omega, by omega, ?_⟩
  rw [nanos_ofNanos (h.trans (by decide))]
  omega

/-- The clock may show every number of 64 bits. -/
theorem getClocktickNs_ofNanos (ns : UInt64) : getClocktickNs (.ofNanos ns.toNat) = ns := by
  have hlt := ns.toNat_lt
  have hclock := toNat_getClocktickNs (.ofNanos ns.toNat)
  rw [Timespec.nanos_ofNanos hlt] at hclock
  apply UInt64.toNat_inj.mp
  omega

/-! ## Nanoseconds as decimals -/

section Decimals

open Host Decimal

variable {D : DecLib} {n : Int64}

theorem val_nsec (hD : D.Exact) : (D.biginttodec nsec).val = 10 ^ 9 := by
  have hscale : (10 ^ 9 : ℚ) = (1000000000 : Int) := by norm_num
  rw [hD.biginttodec, hscale]
  rfl

theorem val_decdiv_nsec (hD : D.Exact) (h : 0 ≤ n.toInt ∧ n.toInt < 1000000000) :
    (D.decdiv (D.biginttodec n) (D.biginttodec nsec)).val = n.toInt / 10 ^ 9 := by
  have hnsec := val_nsec hD
  have hdigits : HasDigits 32 ((n.toInt : ℚ) / 10 ^ 9) := ⟨n.toInt, 9, by omega, by decide, rfl⟩
  rw [hD.decdiv _ _ (by rw [hnsec]; positivity) (by rwa [hnsec, hD.biginttodec]), hnsec,
    hD.biginttodec]

end Decimals

end UdrPak.Realtime
