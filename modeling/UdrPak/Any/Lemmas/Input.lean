import UdrPak.Any.Lemmas.TypedInt
import UdrPak.Libc.Lemmas.Scan

/-!
# Literals and what `any_int_input` makes of them
-/

namespace UdrPak.Any

open Libc Numeral

/-! ## Literals -/

/-- A word has at least one character, and none of them is white space or NUL. -/
def IsWord (w : List Char) : Prop := w ≠ [] ∧ ∀ c ∈ w, isspace c = false ∧ c ≠ '\x00'

/-- The texts of `any_int`: a number and, behind `::`, the name of a type. -/
inductive Literal : List Char → Int → Option (List Char) → Prop where
  | plain {ws num n} : (∀ c ∈ ws, isspace c) → SignedDecimal num n → Literal (ws ++ num) n none
  | typed {ws num n w} : (∀ c ∈ ws, isspace c) → SignedDecimal num n → IsWord w →
      Literal (ws ++ (num ++ ([':', ':'] ++ w))) n (some w)

def Denotes (text : List Char) (n : Int) : Prop :=
  (∃ name, Literal text n name) ∧ -2 ^ 63 ≤ n ∧ n < 2 ^ 63

theorem literal_decimal (n : Int) : Literal (decimal n) n none := by
  have h : Literal ([] ++ decimal n) n none := .plain (by simp) (signedDecimal_decimal n)
  rwa [List.nil_append] at h

theorem literal_decimal_typed (n : Int) {w : List Char} (hw : IsWord w) :
    Literal (decimal n ++ ([':', ':'] ++ w)) n (some w) := by
  have h : Literal ([] ++ (decimal n ++ ([':', ':'] ++ w))) n (some w) :=
    .typed (by simp) (signedDecimal_decimal n) hw
  rwa [List.nil_append] at h

theorem Literal.isWord {text : List Char} {n : Int} {w : List Char}
    (h : Literal text n (some w)) : IsWord w := by
  cases h with
  | typed _ _ hw => exact hw

theorem IsWord.nul_notMem {w : List Char} (h : IsWord w) : '\x00' ∉ w :=
  fun hm => (h.2 _ hm).2 rfl

theorem IsWord.stops {w : List Char} (h : IsWord w) : Stops isspace w := by
  intro c hc
  exact (h.2 c (List.mem_of_mem_head? hc)).1

theorem IsWord.takeWhile_eq {w : List Char} (h : IsWord w) : w.takeWhile (!isspace ·) = w := by
  have hw : (w ++ []).takeWhile (!isspace ·) = w :=
    takeWhile_append_stop (fun c hc => by simp [(h.2 c hc).1]) .nil
  rwa [List.append_nil] at hw

theorem stops_colons (rest : List Char) : Stops Char.isDigit ([':', ':'] ++ rest) := by
  simp [Stops, Char.isDigit]

theorem getLast_isDigit {num : List Char} {n : Int} (h : SignedDecimal num n) (ws : List Char) :
    ∃ c ∈ (ws ++ num).getLast?, c.isDigit := by
  have digits : ∀ {ds : List Char} (as : List Char), ds ≠ [] → (∀ c ∈ ds, c.isDigit) →
      ∃ c ∈ (as ++ ds).getLast?, c.isDigit := by
    intro ds as hne hd
    refine ⟨ds.getLast hne, ?_, hd _ (List.getLast_mem hne)⟩
    rw [List.getLast?_append_of_ne_nil as hne]
    exact List.getLast?_eq_some_getLast hne
  cases h with
  | plain hne hd => exact digits ws hne hd
  | @plus ds hne hd => simpa using digits (ws ++ ['+']) hne hd
  | @minus ds hne hd => simpa using digits (ws ++ ['-']) hne hd

/-! ## No part of a literal is NUL -/

theorem nul_notMem_spaces {ws : List Char} (h : ∀ c ∈ ws, isspace c) : '\x00' ∉ ws :=
  fun hn => by have := h _ hn; simp [isspace] at this

theorem nul_notMem_signedDecimal {num : List Char} {n : Int} (h : SignedDecimal num n) :
    '\x00' ∉ num := by
  have digits : ∀ {ds : List Char}, (∀ c ∈ ds, c.isDigit) → '\x00' ∉ ds :=
    fun hd hn => by have := hd _ hn; simp [Char.isDigit] at this
  cases h with
  | plain _ hd => exact digits hd
  | plus _ hd | minus _ hd => simpa using digits hd

theorem Literal.cString_eq {text : List Char} {n : Int} {name : Option (List Char)}
    (h : Literal text n name) : cString text = text := by
  apply cString_eq_self
  cases h with
  | plain hws hnum => simp [nul_notMem_spaces hws, nul_notMem_signedDecimal hnum]
  | typed hws hnum hw =>
      simp [nul_notMem_spaces hws, nul_notMem_signedDecimal hnum, hw.nul_notMem]

/-! ## Type names -/

theorem smallestType_eq (v : Int64) : smallestType v = smallest v.toInt := by
  have h0 : (0 : Int64).toInt = 0 := rfl
  have h1 : (-2147483648 : Int64).toInt = -2147483648 := rfl
  have h2 : (-32768 : Int64).toInt = -32768 := rfl
  have h3 : (2147483647 : Int64).toInt = 2147483647 := rfl
  have h4 : (32767 : Int64).toInt = 32767 := rfl
  simp only [smallestType, smallest, gt_iff_lt, Int64.lt_iff_toInt_lt, h0, h1, h2, h3, h4]
  split_ifs <;> first | rfl | omega

/-- The names of a type behind `::`, in lower case. -/
def OrigType.names : OrigType → List String
  | .cBoolType => ["boolean"]
  | .cShortType => ["smallint"]
  | .cIntType => ["integer", "serial"]
  | .cBigintType => ["bigint", "int8", "bigserial", "serial8"]
  | .other _ => []

/-- The word is a name of the type, in any letter case. -/
def OrigType.Names (ty : OrigType) (w : List Char) : Prop :=
  ∃ name ∈ ty.names, w.map Char.toLower = name.toList

instance (ty : OrigType) (w : List Char) : Decidable (ty.Names w) := by
  unfold OrigType.Names
  infer_instance

/-- A name is a short text in lower case, and it names its type. -/
theorem of_mem_names {ty : OrigType} {name : String} (h : name ∈ ty.names) :
    name.toList.map Char.toLower = name.toList ∧ '\x00' ∉ name.toList ∧
      name.toList.length ≤ 9 ∧ namedType name.toList = some ty := by
  cases ty with
  | cBoolType | cShortType | cIntType | cBigintType =>
      simp only [OrigType.names, List.mem_cons, List.not_mem_nil, or_false] at h
      rcases h with rfl | rfl | rfl | rfl <;> decide
  | other code => simp [OrigType.names] at h

theorem namedType_congr {w w' : List Char} (h : w.map Char.toLower = w'.map Char.toLower) :
    namedType w = namedType w' := by
  simp only [namedType, strcasecmp_congr h]

theorem namedType_some_iff {w : List Char} (hnul : '\x00' ∉ w) {ty : OrigType} :
    namedType w = some ty ↔ ty.Names w := by
  have named : ∀ {name : String}, name ∈ ty.names → strcasecmp w name.toList = 0 →
      ty.Names w := by
    intro name hmem he
    obtain ⟨hlower, hname, _, _⟩ := of_mem_names hmem
    exact ⟨name, hmem, ((strcasecmp_eq_zero hnul hname).mp he).trans hlower⟩
  constructor
  · intro h
    simp only [namedType, Bool.or_eq_true, decide_eq_true_eq] at h
    split_ifs at h with h1 h2 h3 h4 <;> cases h
    · rcases h1 with h1 | h1
      · exact named (by decide) h1
      · exact named (by decide) h1
    · rcases h2 with ((h2 | h2) | h2) | h2
      · exact named (by decide) h2
      · exact named (by decide) h2
      · exact named (by decide) h2
      · exact named (by decide) h2
    · exact named (by decide) h3
    · exact named (by decide) h4
  · rintro ⟨name, hmem, hname⟩
    obtain ⟨hlower, _, _, hty⟩ := of_mem_names hmem
    rw [namedType_congr (hname.trans hlower.symm), hty]

theorem namedType_none_iff {w : List Char} (hnul : '\x00' ∉ w) :
    namedType w = none ↔ ∀ ty : OrigType, ¬ty.Names w := by
  rw [Option.eq_none_iff_forall_ne_some]
  exact forall_congr' fun ty => not_congr (namedType_some_iff hnul)

theorem namedType_str_some_iff {k : Nat} {buf : CharArray k} {ty : OrigType} :
    namedType buf.str = some ty ↔ ty.Names buf.str :=
  namedType_some_iff (nul_notMem_cString _)

theorem namedType_str_none_iff {k : Nat} {buf : CharArray k} :
    namedType buf.str = none ↔ ∀ ty : OrigType, ¬ty.Names buf.str :=
  namedType_none_iff (nul_notMem_cString _)

/-- `name` gives `n` the type `ty`: the type it names in any letter case or, where it names none,
the smallest type of the number. -/
def GivesType (name : List Char) (n : Int) (ty : OrigType) : Prop :=
  ty.Names name ∨ (∀ ty' : OrigType, ¬ty'.Names name) ∧ ty = smallest n

theorem givesType_iff {name : List Char} (hnul : '\x00' ∉ name) {n : Int} {ty : OrigType} :
    GivesType name n ty ↔ ty = (namedType name).getD (smallest n) := by
  unfold GivesType
  rw [← namedType_some_iff hnul, ← namedType_none_iff hnul]
  cases namedType name with
  | none => simp
  | some ty' => simp [eq_comm]

theorem namedType_eq_some_iff {w : List Char} (hw : IsWord w) {ty : OrigType} :
    namedType w = some ty ↔ ty.Names w :=
  namedType_some_iff hw.nul_notMem

theorem namedType_eq_none_iff {w : List Char} (hw : IsWord w) :
    namedType w = none ↔ ∀ ty : OrigType, ¬ty.Names w :=
  namedType_none_iff hw.nul_notMem

variable (typename : CharArray 32) (ret : AnyInt)

/-- Without a suffix the type is read from what the array `typename` held before the call. -/
theorem anyIntInput_plain {text : List Char} {n : Int} (h : Literal text n none) :
    anyIntInput text typename ret =
      .returned ⟨saturate n, (namedType typename.str).getD (smallestType (saturate n))⟩ := by
  have hc := h.cString_eq
  cases h with
  | plain hws hnum =>
      have hs := @sscanf_number [':', ':'] _ _ _ (by simp) hws hnum
      simp [anyIntInput, hc, hs, setOrigType]

theorem sscanf_typed {text : List Char} {n : Int} {w : List Char} (h : Literal text n (some w)) :
    sscanfLdSepS [':', ':'] text = ⟨2, some (saturate n), some w⟩ := by
  cases h with
  | typed hws hnum hw =>
      have hs := @sscanf_word _ _ _ [] _ _ stops_colons hws hnum (by simp) hw.1 hw.stops
      rw [hw.takeWhile_eq] at hs
      exact hs

theorem anyIntInput_typed {text : List Char} {n : Int} {w : List Char}
    (h : Literal text n (some w)) (hlen : w.length ≤ 31) :
    anyIntInput text typename ret =
      .returned ⟨saturate n, (namedType w).getD (smallestType (saturate n))⟩ := by
  have hfit : w.length + 1 ≤ 32 := by omega
  have hstr := typename.str_store hfit h.isWord.nul_notMem
  simp only [anyIntInput, h.cString_eq, sscanf_typed h]
  rw [dif_pos hfit, hstr]
  simp [setOrigType]

theorem anyIntInput_overrun {text : List Char} {n : Int} {w : List Char}
    (h : Literal text n (some w)) (hlen : 31 < w.length) :
    anyIntInput text typename ret = .overrun (w.length + 1) := by
  have hfit : ¬w.length + 1 ≤ 32 := by omega
  simp only [anyIntInput, h.cString_eq, sscanf_typed h]
  rw [dif_neg hfit]

theorem anyIntInput_ne_raised (text : List Char) (message : String) :
    anyIntInput text typename ret ≠ .raised message := by
  simp only [anyIntInput]
  split
  · simp
  · split <;> simp

end UdrPak.Any
