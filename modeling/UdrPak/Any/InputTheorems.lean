import UdrPak.Any.Lemmas.Input
import UdrPak.Any.Lemmas.Values
import UdrPak.Util.Lemmas.Hex

/-!
# What `any_int_input` accepts
-/

namespace UdrPak.Any

open Libc Numeral UdrPak.Util

/-! ## A text without a suffix gets the smallest type -/

/-- The decimal of `v` becomes `v` with its smallest type, and `to_hex` of it is the two's
complement in the width of this type: all of its digits when `v` is negative. -/
def PicksSmallest (typename : CharArray 32) (ret : AnyInt) (v : Int64) : Prop :=
  ∃ a, anyIntInput (decimal v.toInt) typename ret = .returned a ∧
    a.val = v ∧ a.origType = smallest v.toInt ∧
    ∃ hex, anyToHex (some a) = .returned (some hex) ∧
      hex = Nat.toDigits 16 (twosComplement (hexBits (smallest v.toInt)) v.toInt) ∧
      (v < 0 → 4 * hex.length = hexBits (smallest v.toInt))

/-- The array holds no name of a type other than the smallest one. -/
def NamesNoOtherType (typename : CharArray 32) (v : Int64) : Prop :=
  ∀ ty : OrigType, ty.Names typename.str → ty = smallest v.toInt

theorem anyIntInput_decimal (typename : CharArray 32) (ret : AnyInt) (v : Int64) :
    anyIntInput (decimal v.toInt) typename ret =
      .returned ⟨v, (namedType typename.str).getD (smallest v.toInt)⟩ := by
  rw [anyIntInput_plain typename ret (literal_decimal v.toInt), saturate_toInt, smallestType_eq]

theorem namesNoOtherType_iff {typename : CharArray 32} {v : Int64} :
    NamesNoOtherType typename v ↔
      (namedType typename.str).getD (smallest v.toInt) = smallest v.toInt := by
  simp only [NamesNoOtherType, ← namedType_str_some_iff]
  cases namedType typename.str with
  | none => simp
  | some ty => simp

/-- A decimal gets its smallest type exactly when the array `typename`, which the call does not
write, names no other type; two calls agree exactly when the arrays give the number the same
type. -/
theorem anyIntInput_decimal_smallest_iff (v : Int64) (typename typename' : CharArray 32)
    (ret : AnyInt) :
    (PicksSmallest typename ret v ↔ NamesNoOtherType typename v) ∧
      (anyIntInput (decimal v.toInt) typename ret = anyIntInput (decimal v.toInt) typename' ret ↔
        ∃ ty, GivesType typename.str v.toInt ty ∧ GivesType typename'.str v.toInt ty) := by
  constructor
  · rw [namesNoOtherType_iff, PicksSmallest, anyIntInput_decimal]
    constructor
    · rintro ⟨a, ha, -, hty, -⟩
      simp only [Outcome.returned.injEq] at ha
      subst a
      exact hty
    · intro h
      rw [h]
      have hv : -2 ^ 63 ≤ v.toInt := v.le_toInt
      refine ⟨_, rfl, rfl, rfl, _, anyToHex_eq _ (smallest_ne_other _), rfl, ?_⟩
      intro hneg
      exact length_hex_smallest hv (Int64.lt_iff_toInt_lt.mp hneg)
  · have hgives : ∀ (buf : CharArray 32) ty, GivesType buf.str v.toInt ty ↔
        ty = (namedType buf.str).getD (smallest v.toInt) :=
      fun _ _ => givesType_iff (nul_notMem_cString _)
    simp only [anyIntInput_decimal, hgives, exists_eq_left, Outcome.returned.injEq,
      AnyInt.mk.injEq, true_and]

/-- An array whose bytes are all NUL, and one that an earlier call on `1::bigint` has written to. -/
def blankTypename : CharArray 32 := Vector.replicate 32 '\x00'

def staleTypename : CharArray 32 := blankTypename.store "bigint".toList (by decide)

/-- After `1::bigint` the text `5` becomes a `bigint`, on a blank array it becomes a `smallint`. -/
theorem anyIntInput_stale_bigint :
    ¬PicksSmallest staleTypename ⟨0, .cShortType⟩ 5 ∧
      anyIntInput (decimal 5) staleTypename ⟨0, .cShortType⟩ ≠
        anyIntInput (decimal 5) blankTypename ⟨0, .cShortType⟩ := by
  have hstale : anyIntInput (decimal (5 : Int64).toInt) staleTypename ⟨0, .cShortType⟩ =
      .returned ⟨5, .cBigintType⟩ := by decide
  constructor
  · rintro ⟨a, ha, -, hty, -⟩
    rw [hstale] at ha
    cases ha
    revert hty
    decide
  · decide

/-! ## A text with a suffix gets the named type -/

theorem anyIntInput_suffix (v : Int64) {w : List Char} (hw : IsWord w) (hlen : w.length ≤ 31)
    (typename : CharArray 32) (ret : AnyInt) :
    anyIntInput (decimal v.toInt ++ ([':', ':'] ++ w)) typename ret =
      .returned ⟨v, (namedType w).getD (smallest v.toInt)⟩ := by
  rw [anyIntInput_typed typename ret (literal_decimal_typed v.toInt hw) hlen, saturate_toInt,
    smallestType_eq]

/-- Behind a decimal and `::`, a word that fits in `typename` gives the type that it names in any
letter case, and the smallest type where it names none. What the array held plays no part. -/
theorem anyIntInput_suffix_type (v : Int64) (w : List Char) (hw : IsWord w)
    (hlen : w.length ≤ 31) :
    ∃ ty, (∀ typename ret, anyIntInput (decimal v.toInt ++ ([':', ':'] ++ w)) typename ret =
        .returned ⟨v, ty⟩) ∧
      (∀ ty' : OrigType, ty'.Names w → ty = ty') ∧
      ((∀ ty' : OrigType, ¬ty'.Names w) → ty = smallest v.toInt) := by
  refine ⟨(namedType w).getD (smallest v.toInt), anyIntInput_suffix v hw hlen, ?_, ?_⟩
  · intro ty' hnames
    rw [(namedType_eq_some_iff hw).mpr hnames, Option.getD_some]
  · intro hnone
    rw [(namedType_eq_none_iff hw).mpr hnone, Option.getD_none]

/-- `5::BigInt` becomes a `bigint`, `-32769::money` an `integer`. -/
theorem anyIntInput_suffix_type_named :
    (∀ typename ret, anyIntInput (decimal (5 : Int64).toInt ++ ([':', ':'] ++ "BigInt".toList))
      typename ret = .returned ⟨5, .cBigintType⟩) ∧
    (∀ typename ret, anyIntInput (decimal (-32769 : Int64).toInt ++ ([':', ':'] ++ "money".toList))
      typename ret = .returned ⟨-32769, .cIntType⟩) := by
  constructor
  · obtain ⟨ty, hinput, hnamed, _⟩ := anyIntInput_suffix_type 5 "BigInt".toList
      ⟨by decide, forall_mem_of_all (by decide)⟩ (by decide)
    rwa [hnamed .cBigintType (by decide)] at hinput
  · obtain ⟨ty, hinput, _, hother⟩ := anyIntInput_suffix_type (-32769) "money".toList
      ⟨by decide, forall_mem_of_all (by decide)⟩ (by decide)
    have hmoney : ∀ ty : OrigType, ¬ty.Names "money".toList := by
      intro ty
      cases ty with
      | other code => simp [OrigType.Names, OrigType.names]
      | _ => decide
    rwa [hother hmoney] at hinput

/-! ## The text of a value is read as the value -/

/-- A value is printed as its decimal, and the decimal is read as the value, whatever the arrays of
`any_int_input` held. -/
theorem anyInt_text_roundTrip (v : SqlValue) (typename : CharArray 32) (ret : AnyInt) :
    anyIntOutput v.toAny = .returned (decimal v.num) ∧
      ∃ a, anyIntInput (decimal v.num) typename ret = .returned a ∧ a.val = v.toAny.val ∧
        a.val.toInt = v.num := by
  constructor
  · rw [v.toAny_eq, anyIntOutput_toAny, v.typed_num]
  · have hinput := anyIntInput_decimal typename ret v.toAny.val
    rw [v.val_toAny] at hinput
    exact ⟨_, hinput, rfl, v.val_toAny⟩

example : anyIntOutput (SqlValue.bigint Int64.minValue).toAny =
    .returned "-9223372036854775808".toList := by decide

/-! ## The accepted texts -/

/-- On this text `any_int_input` returns a number only if the text denotes it, and raises an error
if the text denotes nothing. -/
def AcceptsExactly (text : List Char) (typename : CharArray 32) (ret : AnyInt) : Prop :=
  match anyIntInput text typename ret with
  | .returned a => Denotes text a.val.toInt
  | .raised _ => ∀ n, ¬Denotes text n
  | .overrun _ => False

/-- The text is a literal of an `int64` number, and a type name in it has at most 31 characters. -/
def IsShortLiteral (text : List Char) : Prop :=
  ∃ n name, Literal text n name ∧ (-2 ^ 63 ≤ n ∧ n < 2 ^ 63) ∧ ∀ w ∈ name, w.length ≤ 31

section Accepts

variable {text : List Char} {typename : CharArray 32} {ret : AnyInt}

/-- Nothing is ever raised, so a text on which the call is right denotes the number it returns. -/
theorem isShortLiteral_of_acceptsExactly (h : AcceptsExactly text typename ret) :
    IsShortLiteral text := by
  unfold AcceptsExactly at h
  split at h
  · rename_i a ha
    obtain ⟨⟨name, hl⟩, hn⟩ := h
    refine ⟨_, name, hl, hn, ?_⟩
    intro w hw
    rw [Option.mem_def] at hw
    subst hw
    by_contra hlen
    rw [anyIntInput_overrun typename ret hl (by omega)] at ha
    cases ha
  · rename_i message hr
    exact absurd hr (anyIntInput_ne_raised typename ret text message)
  · exact h.elim

theorem acceptsExactly_of_isShortLiteral (h : IsShortLiteral text) :
    AcceptsExactly text typename ret := by
  obtain ⟨n, name, hl, hn, hlen⟩ := h
  have hv : (saturate n).toInt = n := toInt_saturate hn.1 hn.2
  have hdenotes : Denotes text (saturate n).toInt := by
    rw [hv]
    exact ⟨⟨name, hl⟩, hn⟩
  cases name with
  | none =>
      rw [AcceptsExactly, anyIntInput_plain typename ret hl]
      exact hdenotes
  | some w =>
      rw [AcceptsExactly, anyIntInput_typed typename ret hl (hlen w rfl)]
      exact hdenotes

end Accepts

/-- `any_int_input` never raises: it is right on the literals and on no other text. -/
theorem anyIntInput_acceptsExactly_iff (text : List Char) (typename : CharArray 32) (ret : AnyInt) :
    AcceptsExactly text typename ret ↔ IsShortLiteral text :=
  ⟨isShortLiteral_of_acceptsExactly, acceptsExactly_of_isShortLiteral⟩

/-- `abc` returns the memory as it was allocated, `12abc` returns 12. -/
theorem anyIntInput_accepts_junk :
    ¬AcceptsExactly "abc".toList blankTypename ⟨77, .cShortType⟩ ∧
      ¬AcceptsExactly "12abc".toList blankTypename ⟨77, .cShortType⟩ := by
  -- A literal has a colon or ends in a digit.
  have notLiteral : ∀ {text n name}, ':' ∉ text → text.getLast?.any Char.isDigit = false →
      ¬Literal text n name := by
    intro text n name hcolon hlast h
    cases h with
    | plain hws hnum =>
        obtain ⟨c, hc, hd⟩ := getLast_isDigit hnum _
        rw [Option.mem_def.mp hc, Option.any_some, hd] at hlast
        cases hlast
    | typed hws hnum hw => simp at hcolon
  have habc : anyIntInput "abc".toList blankTypename ⟨77, .cShortType⟩ =
      .returned ⟨77, .cShortType⟩ := by decide
  have h12abc : anyIntInput "12abc".toList blankTypename ⟨77, .cShortType⟩ =
      .returned ⟨12, .cShortType⟩ := by decide
  constructor
  · rw [AcceptsExactly, habc]
    rintro ⟨⟨name, hl⟩, -⟩
    exact notLiteral (by decide) (by decide) hl
  · rw [AcceptsExactly, h12abc]
    rintro ⟨⟨name, hl⟩, -⟩
    exact notLiteral (by decide) (by decide) hl

/-! ## The room for a type name -/

/-- The bytes that `%s` writes to `typename`, its NUL included. -/
def storedBytes (text : List Char) : Nat :=
  match (sscanfLdSepS [':', ':'] (cString text)).string with
  | none => 0
  | some w => w.length + 1

/-- Behind a number, `::` and white space the text has a word of at least 32 characters. -/
def HasLongWord (text : List Char) : Prop :=
  ∃ ws num n blanks w rest, text = ws ++ (num ++ ([':', ':'] ++ (blanks ++ (w ++ rest)))) ∧
    (∀ c ∈ ws, isspace c) ∧ SignedDecimal num n ∧ (∀ c ∈ blanks, isspace c) ∧ IsWord w ∧
    32 ≤ w.length

theorem storedBytes_of_hasLongWord {text : List Char} (h : HasLongWord text) :
    32 < storedBytes text := by
  obtain ⟨ws, num, n, blanks, w, rest, rfl, hws, hnum, hb, hw, hlen⟩ := h
  have hc : cString (ws ++ (num ++ ([':', ':'] ++ (blanks ++ (w ++ rest))))) =
      ws ++ (num ++ ([':', ':'] ++ (blanks ++ (w ++ cString rest)))) := by
    rw [cString_append (nul_notMem_spaces hws), cString_append (nul_notMem_signedDecimal hnum),
      cString_append (by decide), cString_append (nul_notMem_spaces hb),
      cString_append hw.nul_notMem]
  have hstops : Stops isspace (w ++ cString rest) := by
    intro c hc
    rw [List.head?_append_of_ne_nil _ hw.1] at hc
    exact hw.stops c hc
  have hs := sscanf_word stops_colons hws hnum hb (by simp [hw.1]) hstops
  have htake : (w ++ cString rest).takeWhile (!isspace ·) =
      w ++ (cString rest).takeWhile (!isspace ·) :=
    List.takeWhile_append_of_pos fun c hc => by simp [(hw.2 c hc).1]
  rw [storedBytes, hc, hs, htake]
  simp only [List.length_append]
  omega

theorem hasLongWord_of_storedBytes {text : List Char} (h : 32 < storedBytes text) :
    HasLongWord text := by
  unfold storedBytes at h
  split at h
  · omega
  · rename_i w hs
    obtain ⟨ws, num, n, blanks, rest, hcp, hws, hnum, hb, hw⟩ := sscanf_string_inv hs
    obtain ⟨tail, htail⟩ := exists_eq_cString_append text
    have hnul : '\x00' ∉ w := by
      intro hm
      exact nul_notMem_cString text (by simp [hcp, hm])
    refine ⟨ws, num, n, blanks, w, rest ++ tail, ?_, hws, hnum, hb, ⟨?_, ?_⟩, by omega⟩
    · rw [htail, hcp]; simp
    · rintro rfl; simp at h
    · exact fun c hc => ⟨hw c hc, fun h0 => hnul (h0 ▸ hc)⟩

/-- The type name and its NUL fit in the 32 bytes of `typename` exactly when the text has no long
word behind `::`, and when they do not fit, the call writes past the array. -/
theorem storedBytes_le_iff (text : List Char) :
    (storedBytes text ≤ 32 ↔ ¬HasLongWord text) ∧
      ∀ typename ret,
        (∃ bytes, anyIntInput text typename ret = .overrun bytes) ↔ ¬storedBytes text ≤ 32 := by
  constructor
  · constructor
    · intro h hl
      have := storedBytes_of_hasLongWord hl
      omega
    · intro h
      by_contra hlong
      exact h (hasLongWord_of_storedBytes (by omega))
  · intro typename ret
    simp only [anyIntInput, storedBytes]
    cases (sscanfLdSepS [':', ':'] (cString text)).string with
    | none => simp
    | some w =>
        by_cases hfit : w.length + 1 ≤ 32
        · simp [hfit]
        · simp only [dif_neg hfit]
          exact iff_of_true ⟨_, rfl⟩ hfit

/-- `1::` and 32 letters fit in an `lvarchar(128)` but not in `typename`. -/
theorem storedBytes_long_name :
    ("1::".toList ++ List.replicate 32 'a').length ≤ 128 ∧
      ¬storedBytes ("1::".toList ++ List.replicate 32 'a') ≤ 32 := by
  decide

end UdrPak.Any
