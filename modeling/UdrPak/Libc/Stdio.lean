import UdrPak.Lib.Numeral

/-!
# The C library

Strings, `printf` conversions and `sscanf` conversions as the C standard and glibc have them. A text
is taken byte by byte: a C `char`, which is one byte, is a `Char`, a C string is the list of its
bytes without the NUL, and every length counts bytes. Machine integers are Lean's fixed-width types,
whose operations wrap.
-/

namespace Libc

/-- How a routine ends: it returns, it raises an error that does not come back to it, or it has
written `bytes` bytes into a smaller array, after which C says nothing. -/
inductive Outcome (α : Type) where
  | returned (a : α)
  | raised (message : String)
  | overrun (bytes : Nat)
  deriving DecidableEq

def Outcome.map {α β : Type} (f : α → β) : Outcome α → Outcome β
  | .returned a => .returned (f a)
  | .raised message => .raised message
  | .overrun bytes => .overrun bytes

def Outcome.bind {α β : Type} (o : Outcome α) (f : α → Outcome β) : Outcome β :=
  match o with
  | .returned a => f a
  | .raised message => .raised message
  | .overrun bytes => .overrun bytes

section Outcome

variable {α β : Type} (a : α)

@[simp] theorem Outcome.map_returned (f : α → β) :
    (Outcome.returned a).map f = .returned (f a) := rfl

@[simp] theorem Outcome.bind_returned (f : α → Outcome β) : (Outcome.returned a).bind f = f a := rfl

theorem Outcome.bind_eq_returned {o : Outcome α} {f : α → Outcome β} {b : β}
    (h : o.bind f = .returned b) : ∃ a, o = .returned a ∧ f a = .returned b := by
  cases o with
  | returned a => exact ⟨a, rfl, h⟩
  | raised message => cases h
  | overrun bytes => cases h

end Outcome

/-! ## Strings -/

/-- The C string stored at the start of `cs`: what precedes the first NUL. -/
def cString (cs : List Char) : List Char := cs.takeWhile (· != '\x00')

/-- `isspace` in the C locale: the blank and the characters 9 to 13. -/
def isspace (c : Char) : Bool := c == ' ' || ('\t' ≤ c && c ≤ '\r')

/-- `strcasecmp`: the difference of the first two characters that differ in lower case. -/
def strcasecmp : List Char → List Char → Int
  | [], [] => 0
  | [], d :: _ => -d.toLower.toNat
  | c :: _, [] => c.toLower.toNat
  | c :: cs, d :: ds =>
      if c.toLower = d.toLower then strcasecmp cs ds else (c.toLower.toNat : Int) - d.toLower.toNat

abbrev CharArray (n : Nat) := Vector Char n

def CharArray.str {n : Nat} (buf : CharArray n) : List Char := cString buf.toList

/-- Writing the string `w` and its NUL at the start of an array they fit in. -/
def CharArray.store {n : Nat} (buf : CharArray n) (w : List Char) (h : w.length + 1 ≤ n) :
    CharArray n :=
  ⟨(w ++ '\x00' :: buf.toList.drop (w.length + 1)).toArray, by simp; omega⟩

/-- Writing the string `w` and its NUL from the place `i` on. -/
def CharArray.storeAt {n : Nat} (buf : CharArray n) (i : Nat) (w : List Char)
    (h : i + w.length + 1 ≤ n) : CharArray n :=
  ⟨(buf.toList.take i ++ w ++ '\x00' :: buf.toList.drop (i + w.length + 1)).toArray, by
    simp; omega⟩

/-! ## `printf` -/

/-- The characters `snprintf` leaves in a buffer of `size` bytes. -/
def snprintf (size : Nat) (text : List Char) : List Char := text.take (size - 1)

def fmtD (n : Int32) : List Char := Numeral.decimal n.toInt

/-- `%hd` of an `int`, which is converted to `short` first. -/
def fmtHd (n : Int32) : List Char := Numeral.decimal n.toInt16.toInt

def fmtLd (n : Int64) : List Char := Numeral.decimal n.toInt

def fmtX (n : UInt32) : List Char := Nat.toDigits 16 n.toNat

/-- `%hx` of an `unsigned int`, which is converted to `unsigned short` first. -/
def fmtHx (n : UInt32) : List Char := Nat.toDigits 16 n.toUInt16.toNat

def fmtLx (n : UInt64) : List Char := Nat.toDigits 16 n.toNat

/-- `%0wld`: the sign stands before the zeros. -/
def fmt0Ld (w : Nat) (n : Int64) : List Char :=
  let digits := Nat.toDigits 10 n.toInt.natAbs
  if n < 0 then '-' :: digits.leftpad (w - 1) '0' else digits.leftpad w '0'

def zeroPad (w : Nat) (digits : List Char) : List Char := digits.leftpad w '0'

/-! ## `sscanf` -/

/-- What one conversion does with the input. -/
inductive Conv (α : Type) where
  | eof
  | mismatch
  | matched (a : α) (rest : List Char)
  deriving DecidableEq

/-- `strtol` saturates at the limits of `long`. -/
def saturate (n : Int) : Int64 :=
  if n < Int64.minValue.toInt then Int64.minValue
  else if Int64.maxValue.toInt < n then Int64.maxValue
  else Int64.ofInt n

def scanDigits (negative : Bool) (cs : List Char) : Conv Int64 :=
  let digits := cs.takeWhile Char.isDigit
  if digits = [] then .mismatch
  else
    let n : Int := Numeral.value 10 digits
    .matched (saturate (if negative then -n else n)) (cs.dropWhile Char.isDigit)

/-- `%ld`: leading white space, an optional sign and at least one digit. -/
def scanLd (cs : List Char) : Conv Int64 :=
  match cs.dropWhile isspace with
  | [] => .eof
  | '-' :: cs => scanDigits true cs
  | '+' :: cs => scanDigits false cs
  | cs => scanDigits false cs

/-- Ordinary characters of a format match themselves. -/
def scanLit : List Char → List Char → Conv Unit
  | [], cs => .matched () cs
  | _ :: _, [] => .eof
  | l :: ls, c :: cs => if l = c then scanLit ls cs else .mismatch

/-- `%s`: leading white space is skipped, the longest run of other characters is stored. -/
def scanS (cs : List Char) : Conv (List Char) :=
  match cs.dropWhile isspace with
  | [] => .eof
  | c :: cs => .matched ((c :: cs).takeWhile (!isspace ·)) ((c :: cs).dropWhile (!isspace ·))

structure Scanned where
  count : Int
  long : Option Int64
  string : Option (List Char)
  deriving DecidableEq

/-- `sscanf(cp, "%ld<sep>%s", &long, string)`. The end of the input before the first conversion
gives `EOF`; afterwards it only ends the call. -/
def sscanfLdSepS (sep cp : List Char) : Scanned :=
  match scanLd cp with
  | .eof => ⟨-1, none, none⟩
  | .mismatch => ⟨0, none, none⟩
  | .matched v rest =>
      match scanLit sep rest with
      | .matched () rest =>
          match scanS rest with
          | .matched w _ => ⟨2, some v, some w⟩
          | _ => ⟨1, some v, none⟩
      | _ => ⟨1, some v, none⟩

end Libc
