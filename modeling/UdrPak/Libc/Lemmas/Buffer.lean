import UdrPak.Libc.Lemmas.Scan
import UdrPak.Libc.Time

/-!
# Strings in arrays

A string that is written at some place of an array continues what stands before it.
-/

namespace Libc

open Numeral

variable {n i : Nat} {buf : CharArray n} {w : List Char}

theorem toList_store (h : w.length + 1 ≤ n) :
    (buf.store w h).toList = w ++ '\x00' :: buf.toList.drop (w.length + 1) := rfl

theorem take_store (h : w.length + 1 ≤ n) : (buf.store w h).toList.take w.length = w := by
  rw [toList_store, List.take_left]

theorem CharArray.str_storeAt (h : i + w.length + 1 ≤ n) (hbuf : '\x00' ∉ buf.toList.take i)
    (hw : '\x00' ∉ w) : (buf.storeAt i w h).str = buf.toList.take i ++ w := by
  have hmem : '\x00' ∉ buf.toList.take i ++ w := by
    rw [List.mem_append]
    exact not_or.mpr ⟨hbuf, hw⟩
  change cString (buf.toList.take i ++ w ++ '\x00' :: buf.toList.drop (i + w.length + 1)) = _
  rw [cString_append hmem]
  simp [cString]

theorem take_storeAt (h : i + w.length + 1 ≤ n) :
    (buf.storeAt i w h).toList.take (i + w.length) = buf.toList.take i ++ w := by
  have hlen : (buf.toList.take i ++ w).length = i + w.length := by simp; omega
  change (buf.toList.take i ++ w ++ '\x00' :: buf.toList.drop (i + w.length + 1)).take _ = _
  rw [← hlen, List.take_left]

/-! ## Dates and times -/

theorem twoDigits_eq {m : Int} (h : 0 ≤ m) (h' : m < 100) : twoDigits m = fixed 10 2 m.toNat := by
  have hneg : ¬m < 0 := by omega
  have habs : m.natAbs = m.toNat := by omega
  rw [twoDigits, decimal, if_neg hneg, habs, leftpad_toDigits base10 (by decide) (by omega)]

theorem decimal_four {m : Int} (h : 1000 ≤ m) (h' : m < 10000) :
    decimal m = fixed 10 4 m.toNat := by
  have hneg : ¬m < 0 := by omega
  have habs : m.natAbs = m.toNat := by omega
  rw [decimal, if_neg hneg, habs, toDigits_eq_fixed (w := 3) base10 (by omega) (by omega)]

theorem fmt0Ld_eq {k : Nat} {v : Int64} (hk : 0 < k) (h : 0 ≤ v.toInt) (h' : v.toInt < 10 ^ k) :
    fmt0Ld k v = fixed 10 k v.toInt.toNat := by
  have hneg : ¬v < 0 := by
    rw [Int64.lt_iff_toInt_lt, Int64.toInt_zero]
    omega
  have habs : v.toInt.natAbs = v.toInt.toNat := by omega
  have hlt : v.toInt.toNat < 10 ^ k := by
    rw [Int.toNat_lt h]
    exact_mod_cast h'
  rw [fmt0Ld, if_neg hneg, habs, leftpad_toDigits base10 hk hlt]

end Libc
