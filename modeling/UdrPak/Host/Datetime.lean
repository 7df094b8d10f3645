import UdrPak.Host.Decimal
import UdrPak.Lib.Numeral
import Mathlib.Tactic.Ring

/-!
# The datetimes of the host

A `mi_datetime` is a decimal with a qualifier. The year is to the left of its digits, the fraction
of the second behind the point.
-/

namespace UdrPak.Host

open Numeral

/-- The `TU_` units. -/
inductive TimeUnit where
  | year | month | day | hour | minute | second | f1 | f2 | f3 | f4 | f5
  deriving DecidableEq, Repr

/-- `TU_DTENCODE`. -/
structure Qualifier where
  first : TimeUnit
  last : TimeUnit
  deriving DecidableEq, Repr

structure Datetime where
  dtDec : Dec
  dtQual : Qualifier
  deriving DecidableEq

/-! ## Datetimes as texts -/

def isLeap (year : Nat) : Bool := year % 4 == 0 && (year % 100 != 0 || year % 400 == 0)

def daysIn (year month : Nat) : Nat :=
  match month with
  | 2 => if isLeap year then 29 else 28
  | 4 | 6 | 9 | 11 => 30
  | _ => 31

/-- The digits of a date and a time that exist. -/
structure Stamp where
  year : List Char
  month : List Char
  day : List Char
  hour : List Char
  minute : List Char
  second : List Char
  fraction : List Char
  digits : ∀ c ∈ year ++ month ++ day ++ hour ++ minute ++ second ++ fraction, IsDigitOf 10 c
  lengths : [year, month, day, hour, minute, second, fraction].map List.length =
    [4, 2, 2, 2, 2, 2, 5]
  hasYear : 1 ≤ value 10 year
  hasMonth : 1 ≤ value 10 month ∧ value 10 month ≤ 12
  hasDay : 1 ≤ value 10 day ∧ value 10 day ≤ daysIn (value 10 year) (value 10 month)
  hasTime : value 10 hour < 24 ∧ value 10 minute < 60 ∧ value 10 second < 60

def Stamp.text (s : Stamp) : List Char :=
  s.year ++ '-' :: s.month ++ '-' :: s.day ++ ' ' :: s.hour ++ ':' :: s.minute ++
    ':' :: s.second ++ '.' :: s.fraction

/-- The number of a datetime year to fraction(5) that is written so. -/
def Stamp.number (s : Stamp) : ℚ :=
  (value 10 (s.year ++ s.month ++ s.day ++ s.hour ++ s.minute ++ s.second) : ℚ) +
    (value 10 s.fraction : ℚ) / 10 ^ 5

/-- `mi_string_to_datetime` belongs to the server. It gives no datetime where it fails. -/
abbrev StringToDatetime := List Char → String → Option Datetime

/-- A text of a date and a time that exist is read as it is written. -/
def ReadsAsWritten (miStringToDatetime : StringToDatetime) : Prop :=
  ∀ s : Stamp, ∃ dt, miStringToDatetime s.text "datetime year to fraction(5)" = some dt ∧
    dt.dtDec.val = s.number ∧ dt.dtQual = ⟨.year, .f5⟩

/-- A reader that takes the digits of a text, whatever stands between them. -/
def readDigits : StringToDatetime := fun text _ =>
  some ⟨Dec.ofRat ((value 10 (text.filter Char.isDigit) : ℚ) / 10 ^ 5), ⟨.year, .f5⟩⟩

section Stamp

variable (s : Stamp)

theorem Stamp.filter_text : s.text.filter Char.isDigit =
    s.year ++ s.month ++ s.day ++ s.hour ++ s.minute ++ s.second ++ s.fraction := by
  have hdigit : ∀ d < 10, d.digitChar.isDigit = true := by decide
  have hall := List.filter_eq_self.mpr fun c hc => by
    obtain ⟨d, hd, rfl⟩ := s.digits c hc
    exact hdigit d hd
  rw [← hall]
  simp [Stamp.text, Char.isDigit]

theorem Stamp.number_eq : s.number = (value 10 (s.text.filter Char.isDigit) : ℚ) / 10 ^ 5 := by
  have hlen : s.fraction.length = 5 := by
    have h := s.lengths
    simp only [List.map_cons, List.map_nil, List.cons.injEq] at h
    exact h.2.2.2.2.2.2.1
  rw [filter_text, value_append, hlen, number]
  push_cast
  ring

theorem Stamp.hasDigits_number : Decimal.HasDigits 32 s.number := by
  have hlt := value_lt base10 s.digits
  have h := s.lengths
  simp only [List.map_cons, List.map_nil, List.cons.injEq] at h
  obtain ⟨h1, h2, h3, h4, h5, h6, h7, -⟩ := h
  simp only [List.length_append, h1, h2, h3, h4, h5, h6, h7] at hlt
  refine ⟨value 10 (s.text.filter Char.isDigit), 5, ?_, by decide, by rw [number_eq]; simp⟩
  rw [filter_text]
  omega

theorem readsAsWritten_readDigits : ReadsAsWritten readDigits := by
  intro s
  have hdigits := s.hasDigits_number
  rw [s.number_eq] at hdigits
  exact ⟨_, rfl, by rw [s.number_eq]; exact Dec.val_ofRat hdigits, rfl⟩

end Stamp

end UdrPak.Host
