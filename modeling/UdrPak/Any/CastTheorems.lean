import UdrPak.Any.Casts
import UdrPak.Any.InputTheorems

/-!
# What a chain of casts does to a number

On numbers a cast is simple: the target type has the number, or the cast raises the overflow error.
The routines do this along every chain, as long as `any_int_input` finds no type name in its memory
that is too narrow for the number.
-/

namespace UdrPak.Any

open Libc Numeral

/-! ## Casts of numbers -/

def SqlType.Has : SqlType → Int → Prop
  | .lvarchar, n => -2 ^ 63 ≤ n ∧ n < 2 ^ 63
  | .smallint, n => -2 ^ 15 ≤ n ∧ n < 2 ^ 15
  | .integer, n => -2 ^ 31 ≤ n ∧ n < 2 ^ 31
  | .bigint, n => -2 ^ 63 ≤ n ∧ n < 2 ^ 63
  | .boolean, n => n = 0 ∨ n = 1

instance (t : SqlType) (n : Int) : Decidable (t.Has n) := by
  cases t <;> unfold SqlType.Has <;> infer_instance

def SqlType.datum : SqlType → Int → SqlDatum
  | .lvarchar, n => .lvarchar (decimal n)
  | .smallint, n => .smallint (Int16.ofInt n)
  | .integer, n => .integer (Int32.ofInt n)
  | .bigint, n => .bigint (Int64.ofInt n)
  | .boolean, n => .boolean (Int8.ofInt n)

/-- A number in a type that has it. -/
structure SqlNum where
  type : SqlType
  num : Int
  has : type.Has num

/-- A `boolean` keeps whether the number is zero. -/
def SqlType.image (t : SqlType) (n : Int) : Int :=
  match t with
  | .boolean => if n = 0 then 0 else 1
  | _ => n

/-- The ends of its range, which a checked cast takes for an overflow. -/
def SqlType.Excludes (ty : OrigType) : SqlType → Int → Prop
  | .smallint, n => (ty = .cIntType ∨ ty = .cBigintType) ∧ (n = -32768 ∨ n = 32767)
  | .integer, n => ty = .cBigintType ∧ (n = -2147483648 ∨ n = 2147483647)
  | _, _ => False

instance (ty : OrigType) (t : SqlType) (n : Int) : Decidable (t.Excludes ty n) := by
  cases t <;> unfold SqlType.Excludes <;> infer_instance

def SqlType.Takes (ty : OrigType) (t : SqlType) (n : Int) : Prop :=
  t.Has (t.image n) ∧ ¬t.Excludes ty n

instance (ty : OrigType) (t : SqlType) (n : Int) : Decidable (t.Takes ty n) := by
  unfold SqlType.Takes; infer_instance

namespace SqlNum

/-- The type code of the `any_int`. A text has the code that the memory names, or the smallest. -/
def origType (m : Memory) (x : SqlNum) : OrigType :=
  match x.type with
  | .lvarchar => (namedType m.typename.str).getD (smallest x.num)
  | .smallint => .cShortType
  | .integer => .cIntType
  | .bigint => .cBigintType
  | .boolean => .cBoolType

def cast (m : Memory) (t : SqlType) (x : SqlNum) : Option SqlNum :=
  if h : t.Takes (x.origType m) x.num then some ⟨t, t.image x.num, h.1⟩ else none

def casts : SqlNum → List (Memory × SqlType) → Option SqlNum
  | x, [] => some x
  | x, (m, t) :: rest => (x.cast m t).bind (·.casts rest)

def datum (x : SqlNum) : SqlDatum := x.type.datum x.num

end SqlNum

def outcomeOf : Option SqlNum → Outcome SqlDatum
  | some x => .returned x.datum
  | none => .raised overflowMessage

/-! ## One cast -/

/-- The routines read the number right off an `any_int` of the type. A `boolean` is read as a
`smallint` is. -/
def OrigType.Keeps : OrigType → Int → Prop
  | .cBoolType, n => OrigType.cShortType.Holds n
  | ty, n => ty.Holds n

/-- The memory does not name a type that is too narrow for the number. -/
def Memory.Spares (m : Memory) (n : Int) : Prop :=
  ∀ ty : OrigType, ty.Names m.typename.str → ty.Keeps n

section Cast

variable {m : Memory} {t : SqlType} {x : SqlNum} {n : Int}

theorem keeps_of_holds {ty : OrigType} (h : ty.Holds n) : ty.Keeps n := by
  cases ty with
  | cBoolType =>
      simp only [OrigType.Keeps, OrigType.Holds] at h ⊢
      omega
  | _ => exact h

theorem Memory.Spares.image (h : m.Spares n) : m.Spares (t.image n) := by
  intro ty hty
  have hkeeps := h ty hty
  cases t with
  | boolean =>
      simp only [SqlType.image]
      cases ty <;> simp only [OrigType.Keeps, OrigType.Holds] at hkeeps ⊢ <;> split <;> omega
  | _ => exact hkeeps

theorem SqlNum.int64 (x : SqlNum) : -2 ^ 63 ≤ x.num ∧ x.num < 2 ^ 63 := by
  have h := x.has
  cases ht : x.type <;> simp only [ht, SqlType.Has] at h <;> omega

theorem SqlNum.keeps (h : m.Spares x.num) : (x.origType m).Keeps x.num := by
  have hhas := x.has
  unfold SqlNum.origType
  cases ht : x.type with
  | lvarchar =>
      cases hname : namedType m.typename.str with
      | none => exact keeps_of_holds (smallest_holds x.int64)
      | some ty => exact h ty (namedType_str_some_iff.mp hname)
  | smallint | integer | bigint | boolean =>
      rw [ht] at hhas
      exact keeps_of_holds hhas

theorem SqlNum.toAny_datum (x : SqlNum) (m : Memory) :
    x.datum.toAny m = .returned ⟨Int64.ofInt x.num, x.origType m⟩ := by
  have hhas := x.has
  unfold SqlNum.datum SqlNum.origType
  cases ht : x.type with
  | lvarchar =>
      have hnum : (Int64.ofInt x.num).toInt = x.num :=
        Int64.toInt_ofInt_of_le x.int64.1 x.int64.2
      have hinput := anyIntInput_decimal m.typename m.ret (Int64.ofInt x.num)
      rw [hnum] at hinput
      exact hinput
  | smallint =>
      rw [ht] at hhas
      have hnum : (Int16.ofInt x.num).toInt = x.num := Int16.toInt_ofInt_of_le hhas.1 hhas.2
      rw [SqlType.datum, SqlDatum.toAny, smallintToAny_eq, TypedInt.toAny]
      simp only [hnum]
  | integer =>
      rw [ht] at hhas
      have hnum : (Int32.ofInt x.num).toInt = x.num := Int32.toInt_ofInt_of_le hhas.1 hhas.2
      rw [SqlType.datum, SqlDatum.toAny, integerToAny_eq, TypedInt.toAny]
      simp only [hnum]
  | bigint => rfl
  | boolean =>
      rw [ht] at hhas
      rcases hhas with h0 | h1
      · rw [h0]; rfl
      · rw [h1]; rfl

/-- A cast from an `any_int` whose type holds its number. -/
theorem ofAny_toAny (t : SqlType) (y : TypedInt) :
    t.ofAny y.toAny = if t.Takes y.orig y.num then .returned (t.datum (t.image y.num))
      else .raised overflowMessage := by
  have h64 := y.holds.int64
  have hy := y.holds
  cases t with
  | lvarchar =>
      have htakes : SqlType.lvarchar.Takes y.orig y.num := ⟨h64, not_false⟩
      rw [if_pos htakes, SqlType.ofAny, anyIntOutput_toAny]
      rfl
  | smallint =>
      have htakes : SqlType.smallint.Takes y.orig y.num ↔
          ¬((y.orig = .cIntType ∨ y.orig = .cBigintType) ∧ ¬(-32768 < y.num ∧ y.num < 32767)) := by
        cases ho : y.orig <;>
          simp only [ho, OrigType.Holds, SqlType.Takes, SqlType.Has, SqlType.image,
            SqlType.Excludes, reduceCtorEq, or_false, or_true, true_and, false_and,
            not_false_eq_true, and_true, iff_true] at hy ⊢ <;> omega
      rw [SqlType.ofAny, anyToSmallint_toAny]
      simp only [htakes, ite_not]
      split <;> rfl
  | integer =>
      have htakes : SqlType.integer.Takes y.orig y.num ↔
          ¬(y.orig = .cBigintType ∧ ¬(-2147483648 < y.num ∧ y.num < 2147483647)) := by
        cases ho : y.orig <;>
          simp only [ho, OrigType.Holds, SqlType.Takes, SqlType.Has, SqlType.image,
            SqlType.Excludes, reduceCtorEq, true_and, false_and, not_false_eq_true, and_true,
            iff_true] at hy ⊢ <;> omega
      rw [SqlType.ofAny, anyToInteger_toAny]
      simp only [htakes, ite_not]
      split <;> rfl
  | bigint =>
      have htakes : SqlType.bigint.Takes y.orig y.num := ⟨h64, not_false⟩
      rw [if_pos htakes, SqlType.ofAny, anyToBigint_toAny]
      rfl
  | boolean =>
      have htakes : SqlType.boolean.Takes y.orig y.num := by
        refine ⟨?_, not_false⟩
        simp only [SqlType.image, SqlType.Has]
        split <;> omega
      rw [if_pos htakes, SqlType.ofAny, anyToBoolean_toAny]
      simp only [SqlType.datum, SqlType.image]
      split <;> rfl

theorem ofAny_keeps {ty : OrigType} (t : SqlType) (h : ty.Keeps n) :
    t.ofAny ⟨Int64.ofInt n, ty⟩ = if t.Takes ty n then .returned (t.datum (t.image n))
      else .raised overflowMessage := by
  cases ty with
  | cBoolType =>
      -- no cast from `any_int` makes a difference between the two codes
      have hsame : t.ofAny ⟨Int64.ofInt n, .cBoolType⟩ = t.ofAny ⟨Int64.ofInt n, .cShortType⟩ := by
        cases t <;> rfl
      have htakes : t.Takes .cBoolType n ↔ t.Takes .cShortType n := by
        cases t <;> simp [SqlType.Takes, SqlType.Excludes]
      rw [hsame]
      simp only [htakes]
      exact ofAny_toAny t ⟨.cShortType, n, h⟩
  | cShortType => exact ofAny_toAny t ⟨.cShortType, n, h⟩
  | cIntType => exact ofAny_toAny t ⟨.cIntType, n, h⟩
  | cBigintType => exact ofAny_toAny t ⟨.cBigintType, n, h⟩
  | other code => exact h.elim

theorem cast_eq (h : m.Spares x.num) : x.datum.cast m t = outcomeOf (x.cast m t) := by
  rw [SqlDatum.cast, x.toAny_datum, Outcome.bind_returned, ofAny_keeps t (SqlNum.keeps h),
    SqlNum.cast]
  split <;> rfl

theorem SqlNum.num_cast {y : SqlNum} (h : x.cast m t = some y) : y.num = t.image x.num := by
  rw [SqlNum.cast] at h
  split at h
  · cases h
    rfl
  · cases h

end Cast

/-- Only for a type that is wide enough the text of an `any_int` is that of its number. -/
theorem keeps_of_ofAny {n : Int} {ty : OrigType} (hn : -2 ^ 63 ≤ n ∧ n < 2 ^ 63)
    (h : SqlType.lvarchar.ofAny ⟨Int64.ofInt n, ty⟩ = .returned (.lvarchar (decimal n))) :
    ty.Keeps n := by
  have hshort : ∀ v : Int16, snprintf maxVcLen (decimal v.toInt) = decimal n →
      -2 ^ 15 ≤ n ∧ n < 2 ^ 15 := by
    intro v hv
    have hlow := v.le_toInt
    have hhigh := v.toInt_lt
    rw [snprintf_decimal (by omega), decimal_inj] at hv
    omega
  have hint : ∀ v : Int32, snprintf maxVcLen (decimal v.toInt) = decimal n →
      -2 ^ 31 ≤ n ∧ n < 2 ^ 31 := by
    intro v hv
    have hlow := v.le_toInt
    have hhigh := v.toInt_lt
    rw [snprintf_decimal (by omega), decimal_inj] at hv
    omega
  cases ty with
  | cBoolType | cShortType =>
      simp only [SqlType.ofAny, anyIntOutput, Outcome.map_returned, Outcome.returned.injEq,
        SqlDatum.lvarchar.injEq] at h
      exact hshort _ h
  | cIntType =>
      simp only [SqlType.ofAny, anyIntOutput, Outcome.map_returned, Outcome.returned.injEq,
        SqlDatum.lvarchar.injEq] at h
      exact hint _ h
  | cBigintType => exact hn
  | other code => cases h

/-! ## Chains -/

theorem casts_eq {x : SqlNum} {chain : List (Memory × SqlType)}
    (h : ∀ c ∈ chain, c.1.Spares x.num) : x.datum.casts chain = outcomeOf (x.casts chain) := by
  induction chain generalizing x with
  | nil => rfl
  | cons c rest ih =>
      obtain ⟨m, t⟩ := c
      rw [SqlDatum.casts, SqlNum.casts, cast_eq (h _ List.mem_cons_self)]
      cases hcast : x.cast m t with
      | none => rfl
      | some y =>
          have hnum := SqlNum.num_cast hcast
          refine ih fun c hc => ?_
          rw [hnum]
          exact (h c (List.mem_cons_of_mem _ hc)).image

theorem spares_of_casts {x : SqlNum} {M : Set Memory}
    (h : ∀ chain : List (Memory × SqlType), (∀ c ∈ chain, c.1 ∈ M) →
      x.datum.casts chain = outcomeOf (x.casts chain)) {m : Memory} (hm : m ∈ M) :
    m.Spares x.num := by
  intro ty hty
  -- to a text, and from the text to a text again
  let y : SqlNum := ⟨.lvarchar, x.num, x.int64⟩
  have hcast : ∀ z : SqlNum, z.cast m .lvarchar = some ⟨.lvarchar, z.num, z.int64⟩ := fun z =>
    dif_pos ⟨z.int64, not_false⟩
  have hone : x.datum.casts [(m, .lvarchar)] = .returned y.datum := by
    rw [h _ (by simp [hm]), SqlNum.casts, hcast]
    rfl
  have htwo : x.datum.casts [(m, .lvarchar), (m, .lvarchar)] = .returned y.datum := by
    rw [h _ (by simp [hm]), SqlNum.casts, hcast, Option.bind_some, SqlNum.casts, hcast]
    rfl
  obtain ⟨d, hd, hnil⟩ := Outcome.bind_eq_returned hone
  obtain ⟨d', hd', hrest⟩ := Outcome.bind_eq_returned htwo
  rw [hd, Outcome.returned.injEq] at hd'
  obtain ⟨e, he, hnil'⟩ := Outcome.bind_eq_returned hrest
  rw [SqlDatum.casts, Outcome.returned.injEq] at hnil hnil'
  rw [← hd', hnil, SqlDatum.cast, y.toAny_datum, hnil', Outcome.bind_returned] at he
  have horig : y.origType m = ty := by
    change (namedType m.typename.str).getD (smallest x.num) = ty
    rw [namedType_str_some_iff.mpr hty, Option.getD_some]
  rw [horig] at he
  exact keeps_of_ofAny x.int64 he

theorem image_image {t : SqlType} {n : Int} :
    SqlType.boolean.image (t.image n) = SqlType.boolean.image n := by
  cases t with
  | boolean =>
      simp only [SqlType.image]
      split <;> simp
  | _ => rfl

/-- Along a chain of casts the number stays, except that behind a cast to `boolean` it is 0 or 1. -/
theorem SqlNum.num_casts {x y : SqlNum} {chain : List (Memory × SqlType)}
    (h : x.casts chain = some y) : y.num =
      if .boolean ∈ chain.map Prod.snd then SqlType.boolean.image x.num else x.num := by
  induction chain generalizing x with
  | nil =>
      cases h
      rfl
  | cons c rest ih =>
      obtain ⟨m, t⟩ := c
      rw [SqlNum.casts] at h
      cases hcast : x.cast m t with
      | none =>
          rw [hcast] at h
          cases h
      | some z =>
          rw [hcast] at h
          rw [ih h, SqlNum.num_cast hcast, List.map_cons]
          cases t with
          | boolean =>
              rw [if_pos List.mem_cons_self, image_image]
              exact ite_self _
          | _ =>
              refine if_congr ?_ rfl rfl
              simp only [List.mem_cons, reduceCtorEq, false_or]

/-- Along every chain the routines cast the number, exactly if no memory that `any_int_input` may
find names a type that is too narrow for it. The number is then kept, or becomes 0 or 1 with a cast
to `boolean`. -/
theorem casts_number_iff (x : SqlNum) (M : Set Memory) :
    ((∀ chain : List (Memory × SqlType), (∀ c ∈ chain, c.1 ∈ M) →
        x.datum.casts chain = outcomeOf (x.casts chain)) ↔ ∀ m ∈ M, m.Spares x.num) ∧
      ∀ (chain : List (Memory × SqlType)) (y : SqlNum), x.casts chain = some y →
        y.num = if .boolean ∈ chain.map Prod.snd then SqlType.boolean.image x.num else x.num :=
  ⟨⟨fun h _ hm => spares_of_casts h hm, fun h _ hchain => casts_eq fun c hc => h _ (hchain c hc)⟩,
    fun _ _ => SqlNum.num_casts⟩

end UdrPak.Any
