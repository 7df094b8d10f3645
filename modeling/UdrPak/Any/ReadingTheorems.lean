import UdrPak.Any.Lemmas.Input
import UdrPak.Libc.Lemmas.Reading

/-!
# What `any_int_input` makes of any text
-/

namespace UdrPak.Any

open Libc Numeral

/-- The `int64` number nearest to `n`. -/
def nearest (n : Int) : Int := max (-2 ^ 63) (min n (2 ^ 63 - 1))

theorem toInt_saturate_eq (n : Int) : (saturate n).toInt = nearest n := by
  have hmin : Int64.minValue.toInt = -2 ^ 63 := rfl
  have hmax : Int64.maxValue.toInt = 2 ^ 63 - 1 := rfl
  unfold saturate nearest
  split_ifs with hlow hhigh
  · rw [hmin] at hlow ⊢
    omega
  · rw [hmax] at hhigh ⊢
    omega
  · rw [hmin] at hlow
    rw [hmax] at hhigh
    rw [Int64.toInt_ofInt_of_le (by omega) (by omega)]
    omega

/-- The call returns the number nearest to `n`, with the type that `name` gives it. -/
def ReturnsTyped (name : List Char) (n : Int) (o : Outcome AnyInt) : Prop :=
  ∃ a, o = .returned a ∧ a.val.toInt = nearest n ∧ GivesType name (nearest n) a.origType

/-- What becomes of a text, given what its front reads as. Without a number the memory `ret` comes
back as it was, without a word the type is the one that `typename` held before. -/
def Answers (typename : CharArray 32) (ret : AnyInt) : Reading → Outcome AnyInt → Prop
  | .nothing, o => o = .returned ret
  | .number n, o => ReturnsTyped typename.str n o
  | .word n w, o => if w.length ≤ 31 then ReturnsTyped w n o else o = .overrun (w.length + 1)

theorem nul_notMem_of_reads {sep text w : List Char} {n : Int}
    (h : Reads sep (cString text) (.word n w)) : '\x00' ∉ w := by
  obtain ⟨tail, ⟨ws, num, htext, -⟩, blanks, rest, htail, -⟩ := h
  intro hm
  apply nul_notMem_cString text
  rw [htext, htail]
  simp [hm]

section Answers

variable {text : List Char} (typename : CharArray 32) (ret : AnyInt)

theorem anyIntInput_nothing (h : Reads [':', ':'] (cString text) .nothing) :
    anyIntInput text typename ret = .returned ret := by
  obtain ⟨hcount, hlong, hstring⟩ := sscanf_nothing h
  have hle : ¬(sscanfLdSepS [':', ':'] (cString text)).count > 0 := by omega
  simp only [anyIntInput, hlong, hstring, setOrigType, if_neg hle, Option.getD_none]

theorem anyIntInput_number {n : Int} (h : Reads [':', ':'] (cString text) (.number n)) :
    anyIntInput text typename ret =
      .returned ⟨saturate n, (namedType typename.str).getD (smallestType (saturate n))⟩ := by
  simp [anyIntInput, sscanf_reads_number h, setOrigType]

theorem anyIntInput_word {n : Int} {w : List Char}
    (h : Reads [':', ':'] (cString text) (.word n w)) :
    anyIntInput text typename ret =
      if w.length ≤ 31 then
        .returned ⟨saturate n, (namedType w).getD (smallestType (saturate n))⟩
      else .overrun (w.length + 1) := by
  simp only [anyIntInput, sscanf_reads_word h]
  by_cases hlen : w.length ≤ 31
  · have hfit : w.length + 1 ≤ 32 := by omega
    rw [dif_pos hfit, if_pos hlen, typename.str_store hfit (nul_notMem_of_reads h)]
    simp [setOrigType]
  · have hfit : ¬w.length + 1 ≤ 32 := by omega
    rw [dif_neg hfit, if_neg hlen]

theorem returnsTyped_saturate {name : List Char} (hnul : '\x00' ∉ name) (n : Int) :
    ReturnsTyped name n
      (.returned ⟨saturate n, (namedType name).getD (smallestType (saturate n))⟩) := by
  refine ⟨_, rfl, toInt_saturate_eq n, ?_⟩
  rw [givesType_iff hnul, smallestType_eq, toInt_saturate_eq]

theorem answers_of_reads {r : Reading} (h : Reads [':', ':'] (cString text) r) :
    Answers typename ret r (anyIntInput text typename ret) := by
  cases r with
  | nothing => exact anyIntInput_nothing typename ret h
  | number n =>
      rw [anyIntInput_number typename ret h]
      exact returnsTyped_saturate (nul_notMem_cString _) n
  | word n w =>
      rw [anyIntInput_word typename ret h, Answers]
      split
      · exact returnsTyped_saturate (nul_notMem_of_reads h) n
      · rfl

end Answers

/-- Every text reads in one way, and the reading decides what the call does: with no number it
returns the memory as it was, with a number the nearest `int64`, with a type name the named type,
and with a long type name it writes past the array. -/
theorem anyIntInput_reads (text : List Char) :
    ∃ r, (∀ r', Reads [':', ':'] (cString text) r' ↔ r' = r) ∧
      ∀ typename ret, Answers typename ret r (anyIntInput text typename ret) := by
  obtain ⟨r, hr⟩ := exists_reads [':', ':'] (cString text)
  refine ⟨r, fun r' => ⟨fun h => h.unique hr, ?_⟩, fun typename ret => ?_⟩
  · rintro rfl
    exact hr
  · exact answers_of_reads typename ret hr

example : anyIntInput " -7:: BigInt money".toList (Vector.replicate 32 '\x00') ⟨0, .cShortType⟩ =
    .returned ⟨-7, .cBigintType⟩ := by decide

end UdrPak.Any
