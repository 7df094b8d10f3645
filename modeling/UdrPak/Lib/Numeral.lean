import Mathlib.Data.List.Induction
import Mathlib.Data.List.Lex
import Mathlib.Order.Bounds.Defs
import Mathlib.Tactic.Ring
import Mathlib.Tactic.Linarith

/-!
# Positional numerals

Texts of natural numbers in a base up to 16, most significant digit first: the shortest numeral
(`Nat.toDigits`) and the numeral of a fixed width, how they are read back, and the order of texts
of equal width.
-/

namespace Numeral

/-! ## Digits -/

/-- A base whose digits are `0` to `9` and `a` to `f`. -/
structure Base (b : Nat) : Prop where
  one_lt : 1 < b
  le : b ≤ 16

theorem Base.pos {b : Nat} (h : Base b) : 0 < b := Nat.zero_lt_of_lt h.one_lt

theorem base10 : Base 10 := ⟨by decide, by decide⟩

theorem base16 : Base 16 := ⟨by decide, by decide⟩

def digitVal (c : Char) : Nat := if c.isDigit then c.toNat - '0'.toNat else c.toNat - 'a'.toNat + 10

theorem digitVal_digitChar {d : Nat} (h : d < 16) : digitVal d.digitChar = d := by
  have table : ∀ k < 16, digitVal k.digitChar = k := by decide
  exact table d h

theorem digitChar_lt {d e : Nat} (h : d < e) (he : e < 16) : d.digitChar < e.digitChar := by
  have table : ∀ k < 16, ∀ j < k, j.digitChar < k.digitChar := by decide
  exact table e he d h

def IsDigitOf (b : Nat) (c : Char) : Prop := ∃ d, d < b ∧ c = d.digitChar

instance (b : Nat) (c : Char) : Decidable (IsDigitOf b c) :=
  decidable_of_iff (∃ d ∈ List.range b, c = d.digitChar) (by simp [IsDigitOf])

theorem forall_mem_of_all {p : Char → Prop} [DecidablePred p] {cs : List Char}
    (h : cs.all (fun c => decide (p c)) = true) : ∀ c ∈ cs, p c := fun c hc =>
  of_decide_eq_true (List.all_eq_true.mp h c hc)

theorem IsDigitOf.val_lt {b : Nat} {c : Char} (hb : Base b) (h : IsDigitOf b c) :
    digitVal c < b := by
  obtain ⟨d, hd, rfl⟩ := h
  rwa [digitVal_digitChar (hd.trans_le hb.le)]

theorem IsDigitOf.digitChar_val {b : Nat} {c : Char} (hb : Base b) (h : IsDigitOf b c) :
    (digitVal c).digitChar = c := by
  obtain ⟨d, hd, rfl⟩ := h
  rw [digitVal_digitChar (hd.trans_le hb.le)]

/-! ## The value of a text -/

/-- The value of a text of base `b` digits. -/
def value (b : Nat) (cs : List Char) : Nat := cs.foldl (fun n c => b * n + digitVal c) 0

@[simp] theorem value_nil (b : Nat) : value b [] = 0 := rfl

theorem value_concat (b : Nat) (cs : List Char) (c : Char) :
    value b (cs ++ [c]) = b * value b cs + digitVal c := by
  simp [value, List.foldl_append]

theorem value_append (b : Nat) (cs ds : List Char) :
    value b (cs ++ ds) = value b cs * b ^ ds.length + value b ds := by
  induction ds using List.reverseRecOn with
  | nil => simp
  | append_singleton ds c ih =>
      rw [← List.append_assoc, value_concat, ih, value_concat, List.length_append,
        List.length_singleton, pow_succ]
      ring

theorem value_lt {b : Nat} (hb : Base b) {cs : List Char} (h : ∀ c ∈ cs, IsDigitOf b c) :
    value b cs < b ^ cs.length := by
  induction cs using List.reverseRecOn with
  | nil => simp
  | append_singleton cs c ih =>
      have hc := (h c (by simp)).val_lt hb
      have hcs := ih (fun x hx => h x (by simp [hx]))
      rw [value_concat, List.length_append, List.length_singleton, pow_succ']
      calc b * value b cs + digitVal c < b * value b cs + b := by omega
        _ = b * (value b cs + 1) := by ring
        _ ≤ b * b ^ cs.length := Nat.mul_le_mul_left b hcs

theorem value_toDigits {b : Nat} (hb : Base b) (n : Nat) : value b (Nat.toDigits b n) = n := by
  induction n using Nat.strong_induction_on with
  | _ n ih =>
      rw [Nat.toDigits_eq_if hb.one_lt]
      split
      · rename_i hn
        simp [value, digitVal_digitChar (hn.trans_le hb.le)]
      · rename_i hn
        have hlt : n / b < n := Nat.div_lt_self (hb.pos.trans_le (Nat.le_of_not_lt hn)) hb.one_lt
        have hmod : n % b < b := Nat.mod_lt n hb.pos
        rw [value_concat, ih _ hlt, digitVal_digitChar (hmod.trans_le hb.le)]
        exact Nat.div_add_mod n b

theorem mem_toDigits {b : Nat} (hb : Base b) {n : Nat} {c : Char} (h : c ∈ Nat.toDigits b n) :
    IsDigitOf b c := by
  induction n using Nat.strong_induction_on with
  | _ n ih =>
      rw [Nat.toDigits_eq_if hb.one_lt] at h
      split at h
      · rename_i hn
        exact ⟨n, hn, List.mem_singleton.mp h⟩
      · rename_i hn
        have hlt : n / b < n := Nat.div_lt_self (hb.pos.trans_le (Nat.le_of_not_lt hn)) hb.one_lt
        rcases List.mem_append.mp h with h | h
        · exact ih _ hlt h
        · exact ⟨n % b, Nat.mod_lt n hb.pos, List.mem_singleton.mp h⟩

theorem eq_zero_of_head?_toDigits {b : Nat} (hb : Base b) {n : Nat}
    (h : (Nat.toDigits b n).head? = some '0') : n = 0 := by
  induction n using Nat.strong_induction_on with
  | _ n ih =>
      rw [Nat.toDigits_eq_if hb.one_lt] at h
      split at h
      · rename_i hn
        have hc : n.digitChar = '0' := Option.some.inj h
        rw [← digitVal_digitChar (hn.trans_le hb.le), hc]
        rfl
      · rename_i hn
        have hlt : n / b < n := Nat.div_lt_self (hb.pos.trans_le (Nat.le_of_not_lt hn)) hb.one_lt
        rw [List.head?_append_of_ne_nil _ Nat.toDigits_ne_nil] at h
        rcases Nat.div_eq_zero_iff.mp (ih _ hlt h) with h0 | hsmall
        · exact absurd h0 hb.pos.ne'
        · exact absurd hsmall hn

/-- A text of digits, not empty and without superfluous leading zeros. -/
structure Shortest (b : Nat) (cs : List Char) : Prop where
  digits : ∀ c ∈ cs, IsDigitOf b c
  ne_nil : cs ≠ []
  no_leading_zero : cs.head? = some '0' → cs = ['0']

theorem shortest_toDigits {b : Nat} (hb : Base b) (n : Nat) : Shortest b (Nat.toDigits b n) where
  digits _ hc := mem_toDigits hb hc
  ne_nil := Nat.toDigits_ne_nil
  no_leading_zero h := by
    rw [eq_zero_of_head?_toDigits hb h, Nat.toDigits_of_lt_base hb.pos]
    rfl

/-! ## Numerals of a fixed width -/

/-- The lowest `w` base `b` digits of `n`. -/
def fixed (b : Nat) : Nat → Nat → List Char
  | 0, _ => []
  | w + 1, n => fixed b w (n / b) ++ [(n % b).digitChar]

@[simp] theorem length_fixed (b w n : Nat) : (fixed b w n).length = w := by
  induction w generalizing n with
  | zero => rfl
  | succ w ih => simp [fixed, ih]

theorem mem_fixed {b : Nat} (hb : Base b) {w n : Nat} {c : Char} (h : c ∈ fixed b w n) :
    IsDigitOf b c := by
  induction w generalizing n with
  | zero => simp [fixed] at h
  | succ w ih =>
      rcases List.mem_append.mp h with h | h
      · exact ih h
      · exact ⟨n % b, Nat.mod_lt n hb.pos, List.mem_singleton.mp h⟩

theorem value_fixed {b : Nat} (hb : Base b) (w n : Nat) :
    value b (fixed b w n) = n % b ^ w := by
  induction w generalizing n with
  | zero => simp [fixed, Nat.mod_one]
  | succ w ih =>
      have hmod : n % b < b := Nat.mod_lt n hb.pos
      rw [fixed, value_concat, ih, digitVal_digitChar (hmod.trans_le hb.le), pow_succ', Nat.mod_mul]
      ring

theorem value_fixed_of_lt {b : Nat} (hb : Base b) {w n : Nat} (h : n < b ^ w) :
    value b (fixed b w n) = n := by
  rw [value_fixed hb, Nat.mod_eq_of_lt h]

theorem fixed_add (b v w n : Nat) : fixed b (v + w) n = fixed b v (n / b ^ w) ++ fixed b w n := by
  induction w generalizing n with
  | zero => simp [fixed]
  | succ w ih =>
      rw [← Nat.add_assoc, fixed, ih, fixed, Nat.div_div_eq_div_mul, pow_succ', List.append_assoc]

theorem fixed_mod (b w n : Nat) : fixed b w (n % b ^ w) = fixed b w n := by
  induction w generalizing n with
  | zero => rfl
  | succ w ih =>
      have hlow : n % b ^ (w + 1) % b = n % b := Nat.mod_mod_of_dvd n (Dvd.intro_left (b ^ w) rfl)
      have hhigh : n % b ^ (w + 1) / b = n / b % b ^ w := by
        rw [pow_succ', Nat.mod_mul_right_div_self]
      rw [fixed, fixed, hlow, hhigh, ih]

theorem fixed_inj {b : Nat} (hb : Base b) {w m n : Nat} :
    fixed b w m = fixed b w n ↔ m % b ^ w = n % b ^ w := by
  constructor
  · intro h
    rw [← value_fixed hb, ← value_fixed hb, h]
  · intro h
    rw [← fixed_mod, h, fixed_mod]

theorem fixed_value {b : Nat} (hb : Base b) {cs : List Char} (h : ∀ c ∈ cs, IsDigitOf b c) :
    fixed b cs.length (value b cs) = cs := by
  induction cs using List.reverseRecOn with
  | nil => rfl
  | append_singleton cs c ih =>
      have hc := h c (by simp)
      have hlt := hc.val_lt hb
      have hdiv : (b * value b cs + digitVal c) / b = value b cs := by
        rw [Nat.mul_add_div hb.pos, Nat.div_eq_of_lt hlt, Nat.add_zero]
      have hmod : (b * value b cs + digitVal c) % b = digitVal c := by
        rw [Nat.mul_add_mod, Nat.mod_eq_of_lt hlt]
      rw [List.length_append, List.length_singleton, value_concat, fixed, hdiv, hmod,
        ih (fun x hx => h x (by simp [hx])), hc.digitChar_val hb]

theorem fixed_zero (b w : Nat) : fixed b w 0 = List.replicate w '0' := by
  induction w with
  | zero => rfl
  | succ w ih => rw [fixed, Nat.zero_div, Nat.zero_mod, ih, List.replicate_succ']; rfl

/-- The largest number of `w` digits has the largest digit in every place. -/
theorem fixed_last {b : Nat} (hb : 0 < b) (w : Nat) :
    fixed b w (b ^ w - 1) = List.replicate w (b - 1).digitChar := by
  induction w with
  | zero => rfl
  | succ w ih =>
      have hpow : 0 < b ^ w := Nat.pow_pos hb
      have hsplit : b ^ (w + 1) - 1 = b * (b ^ w - 1) + (b - 1) := by
        rw [pow_succ', Nat.mul_sub_one]
        have hle : b ≤ b * b ^ w := Nat.le_mul_of_pos_right b hpow
        omega
      have hlt : b - 1 < b := by omega
      rw [fixed, hsplit, Nat.mul_add_div hb, Nat.div_eq_of_lt hlt, Nat.add_zero, Nat.mul_add_mod,
        Nat.mod_eq_of_lt hlt, ih, List.replicate_succ']

theorem leftpad_toDigits {b : Nat} (hb : Base b) {w n : Nat} (hw : 0 < w) (hn : n < b ^ w) :
    (Nat.toDigits b n).leftpad w '0' = fixed b w n := by
  induction w generalizing n with
  | zero => omega
  | succ w ih =>
      rw [Nat.toDigits_eq_if hb.one_lt, fixed]
      split
      · rename_i hlt
        simp [List.leftpad, Nat.div_eq_of_lt hlt, Nat.mod_eq_of_lt hlt, fixed_zero]
      · rename_i hge
        have hdiv : n / b < b ^ w := by
          rw [Nat.div_lt_iff_lt_mul hb.pos, ← pow_succ]; exact hn
        have hw' : 0 < w := by
          rcases Nat.eq_zero_or_pos w with rfl | h
          · simp at hn; omega
          · exact h
        rw [← ih hw' hdiv]
        simp [List.leftpad, Nat.add_sub_add_right, List.append_assoc]

/-- A number that needs all the digits is printed with them. -/
theorem toDigits_eq_fixed {b : Nat} (hb : Base b) {w n : Nat} (hlow : b ^ w ≤ n)
    (hn : n < b ^ (w + 1)) : Nat.toDigits b n = fixed b (w + 1) n := by
  induction w generalizing n with
  | zero =>
      have hlt : n < b := by simpa using hn
      rw [Nat.toDigits_of_lt_base hlt, fixed, fixed, Nat.mod_eq_of_lt hlt]
      rfl
  | succ w ih =>
      have hpow : b ≤ b ^ (w + 1) := Nat.le_self_pow (Nat.succ_ne_zero w) b
      have hge : ¬n < b := by omega
      have hdiv : n / b < b ^ (w + 1) := by
        rw [Nat.div_lt_iff_lt_mul hb.pos, ← pow_succ]
        exact hn
      have hdivLow : b ^ w ≤ n / b := by
        rw [Nat.le_div_iff_mul_le hb.pos, ← pow_succ]
        exact hlow
      rw [Nat.toDigits_eq_if hb.one_lt, if_neg hge, ih hdivLow hdiv]
      rfl

/-! ## Padding -/

/-- `ps` is `ds` after the least number of zeros that makes its length a multiple of `m`. -/
def PaddedTo (m : Nat) (ds ps : List Char) : Prop :=
  ∃ k < m, IsLeast {k | m ∣ k + ds.length} k ∧ ps = List.replicate k '0' ++ ds

/-- Of `m - 1` zeros and the digits, what exceeds a multiple of `m` is dropped in front. -/
theorem paddedTo_drop {m : Nat} (hm : 0 < m) (ds : List Char) :
    PaddedTo m ds ((List.replicate (m - 1) '0' ++ ds).drop ((m - 1 + ds.length) % m)) := by
  have hmod := Nat.mod_lt (m - 1 + ds.length) hm
  have hdvd := Nat.dvd_sub_mod (n := m) (m - 1 + ds.length)
  refine ⟨m - 1 - (m - 1 + ds.length) % m, by omega, ⟨?_, ?_⟩, ?_⟩
  · change m ∣ m - 1 - (m - 1 + ds.length) % m + ds.length
    rwa [Nat.sub_add_comm (by omega)] at hdvd
  · intro j hj
    by_contra hlt
    -- two multiples of `m` that are less than `m` apart
    have hsub := Nat.dvd_sub hdvd hj
    have hle := Nat.le_of_dvd (by omega) hsub
    omega
  · rw [List.drop_append_of_le_length (by rw [List.length_replicate]; omega), List.drop_replicate]

/-! ## Signed numerals -/

/-- The shortest decimal text of an integer. -/
def decimal (n : Int) : List Char :=
  if n < 0 then '-' :: Nat.toDigits 10 n.natAbs else Nat.toDigits 10 n.natAbs

/-- A text is an optional sign and at least one decimal digit, and denotes the integer. -/
inductive SignedDecimal : List Char → Int → Prop where
  | plain {ds} : ds ≠ [] → (∀ c ∈ ds, c.isDigit) → SignedDecimal ds (value 10 ds)
  | plus {ds} : ds ≠ [] → (∀ c ∈ ds, c.isDigit) → SignedDecimal ('+' :: ds) (value 10 ds)
  | minus {ds} : ds ≠ [] → (∀ c ∈ ds, c.isDigit) → SignedDecimal ('-' :: ds) (-value 10 ds)

theorem isDigit_of_mem_toDigits_ten {n : Nat} : ∀ c ∈ Nat.toDigits 10 n, c.isDigit :=
  fun _ hc => Nat.isDigit_of_mem_toDigits (by decide) (by decide) hc

theorem signedDecimal_decimal (n : Int) : SignedDecimal (decimal n) n := by
  have hv : value 10 (Nat.toDigits 10 n.natAbs) = n.natAbs :=
    value_toDigits base10 n.natAbs
  unfold decimal
  split
  · rename_i hn
    have h := SignedDecimal.minus (Nat.toDigits_ne_nil (n := n.natAbs)) isDigit_of_mem_toDigits_ten
    rwa [hv, show -(n.natAbs : Int) = n by omega] at h
  · rename_i hn
    have h := SignedDecimal.plain (Nat.toDigits_ne_nil (n := n.natAbs)) isDigit_of_mem_toDigits_ten
    rwa [hv, show (n.natAbs : Int) = n by omega] at h

theorem decimal_inj {m n : Int} : decimal m = decimal n ↔ m = n := by
  have hsign : ∀ {k l : Nat}, '-' :: Nat.toDigits 10 k ≠ Nat.toDigits 10 l := by
    intro k l h
    have hdigit := isDigit_of_mem_toDigits_ten '-' (h ▸ List.mem_cons_self)
    revert hdigit
    decide
  have hdigits : ∀ {k l : Nat}, Nat.toDigits 10 k = Nat.toDigits 10 l → k = l := by
    intro k l h
    rw [← value_toDigits base10 k, h, value_toDigits base10]
  refine ⟨fun h => ?_, fun h => h ▸ rfl⟩
  unfold decimal at h
  split at h <;> split at h
  · have habs := hdigits (List.cons.inj h).2
    omega
  · exact absurd h hsign
  · exact absurd h.symm hsign
  · have habs := hdigits h
    omega

/-! ## The order of texts -/

theorem append_lt_append {α : Type} [LT α] {as bs : List α} (h : as < bs)
    (hl : as.length = bs.length) (cs ds : List α) : as ++ cs < bs ++ ds := by
  induction as generalizing bs with
  | nil =>
      have : bs = [] := List.length_eq_zero_iff.mp hl.symm
      subst this; simp at h
  | cons a as ih =>
      cases bs with
      | nil => simp at hl
      | cons b bs =>
          rw [List.cons_append, List.cons_append, List.cons_lt_cons_iff]
          rcases List.cons_lt_cons_iff.mp h with h | ⟨rfl, _⟩
          · exact Or.inl h
          · exact Or.inr ⟨rfl, ih ‹as < bs› (by simpa using hl)⟩

theorem fixed_lt {b : Nat} (hb : Base b) {w m n : Nat} (h : m < n) (hn : n < b ^ w) :
    fixed b w m < fixed b w n := by
  induction w generalizing m n with
  | zero => simp at hn; omega
  | succ w ih =>
      have hdn : n / b < b ^ w := by
        rw [Nat.div_lt_iff_lt_mul hb.pos, ← pow_succ]; exact hn
      have hmn := Nat.div_add_mod m b
      have hnn := Nat.div_add_mod n b
      have hmod : n % b < b := Nat.mod_lt n hb.pos
      rcases Nat.lt_or_eq_of_le (Nat.div_le_div_right (c := b) h.le) with hd | hd
      · exact append_lt_append (ih hd hdn) (by simp) _ _
      · rw [fixed, fixed, hd]
        rw [hd] at hmn
        apply List.append_left_lt
        rw [List.cons_lt_cons_iff]
        exact Or.inl (digitChar_lt (by omega) (hmod.trans_le hb.le))

theorem append_left_lt_iff {as s t : List Char} : as ++ s < as ++ t ↔ s < t := by
  induction as with
  | nil => rfl
  | cons c as ih => simp [ih]

/-- Texts that begin with numerals of one width are ordered by the numerals, and then by what
follows. -/
theorem fixed_append_lt_iff {b : Nat} (hb : Base b) {w m n : Nat} {s t : List Char} :
    fixed b w m ++ s < fixed b w n ++ t ↔
      m % b ^ w < n % b ^ w ∨ m % b ^ w = n % b ^ w ∧ s < t := by
  have hlt : ∀ {m n : Nat} {s t : List Char}, m % b ^ w < n % b ^ w →
      fixed b w m ++ s < fixed b w n ++ t := by
    intro m n s t h
    rw [← fixed_mod b w m, ← fixed_mod b w n]
    exact append_lt_append (fixed_lt hb h (Nat.mod_lt n (Nat.pow_pos hb.pos))) (by simp) s t
  rcases Nat.lt_trichotomy (m % b ^ w) (n % b ^ w) with h | h | h
  · exact iff_of_true (hlt h) (Or.inl h)
  · rw [(fixed_inj hb).mpr h, append_left_lt_iff]
    simp [h]
  · refine iff_of_false (List.lt_asymm (hlt h)) ?_
    omega

theorem fixed_lt_iff {b : Nat} (hb : Base b) {w m n : Nat} :
    fixed b w m < fixed b w n ↔ m % b ^ w < n % b ^ w := by
  have h := fixed_append_lt_iff hb (w := w) (m := m) (n := n) (s := []) (t := [])
  simpa using h

end Numeral
