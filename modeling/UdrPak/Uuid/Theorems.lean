import UdrPak.Uuid.Lemmas.Bits
import UdrPak.Uuid.Lemmas.Calls

/-!
# What the texts of UUIDs carry
-/

namespace UdrPak.Uuid

open Libc Numeral

/-! ## Reading a text -/

section Grouped

variable {g1 g2 g3 g4 g5 : List Char}

theorem take_grouped (h1 : g1.length = 8) : (grouped g1 g2 g3 g4 g5).take 8 = g1 := by
  simp [grouped, h1]

theorem prefix_grouped (h1 : g1.length = 8) (h2 : g2.length = 4) :
    (grouped g1 g2 g3 g4 g5).take 13 = g1 ++ '-' :: g2 := by
  simp (disch := omega) [grouped, List.take_append, List.take_of_length_le, h1]

theorem group2_grouped (h1 : g1.length = 8) (h2 : g2.length = 4) :
    ((grouped g1 g2 g3 g4 g5).drop 9).take 4 = g2 := by
  simp (disch := omega) [grouped, List.drop_append, List.drop_of_length_le, h1, h2]

theorem group3_grouped (h1 : g1.length = 8) (h2 : g2.length = 4) (h3 : g3.length = 4) :
    ((grouped g1 g2 g3 g4 g5).drop 14).take 4 = g3 := by
  simp (disch := omega) [grouped, List.drop_append, List.drop_of_length_le, h1, h2, h3]

theorem group4_grouped (h1 : g1.length = 8) (h2 : g2.length = 4) (h3 : g3.length = 4)
    (h4 : g4.length = 4) : ((grouped g1 g2 g3 g4 g5).drop 19).take 4 = g4 := by
  simp (disch := omega) [grouped, List.drop_append, List.drop_of_length_le, h1, h2, h3, h4]

theorem group5_grouped (h1 : g1.length = 8) (h2 : g2.length = 4) (h3 : g3.length = 4)
    (h4 : g4.length = 4) (h5 : g5.length = 12) :
    ((grouped g1 g2 g3 g4 g5).drop 24).take 12 = g5 := by
  simp (disch := omega) [grouped, List.drop_append, List.drop_of_length_le,
    List.take_of_length_le, h1, h2, h3, h4]

end Grouped

/-! ## `uuidv7` -/

/-- The number in the 48-bit field of a text. -/
def timeField (s : List Char) : Nat := value 16 (s.take 8 ++ (s.drop 9).take 4)

def subField (s : List Char) : Nat := value 16 ((s.drop 14).take 4) % 2 ^ 12

def randomField (s : List Char) : Nat :=
  value 16 ((s.drop 19).take 4 ++ (s.drop 24).take 12) % 2 ^ 62

section Text

variable (uuid : UuidNum)

theorem timeField_text : timeField uuid.text = uuid.qw0.toNat / 2 ^ 16 := by
  have hlt := uuid.qw0.toNat_lt
  rw [timeField, UuidNum.text, take_grouped (by simp), group2_grouped (by simp) (by simp),
    value_append, value_fixed base16, value_fixed base16,
    length_fixed]
  omega

theorem subField_text : subField uuid.text = uuid.qw0.toNat % 2 ^ 12 := by
  rw [subField, UuidNum.text, group3_grouped (by simp) (by simp) (by simp),
    value_fixed base16]
  omega

theorem randomField_text : randomField uuid.text = uuid.qw1.toNat % 2 ^ 62 := by
  have hlt := uuid.qw1.toNat_lt
  rw [randomField, UuidNum.text, group4_grouped (by simp) (by simp) (by simp) (by simp),
    group5_grouped (by simp) (by simp) (by simp) (by simp) (by simp), value_append,
    value_fixed base16, value_fixed base16, length_fixed]
  omega

theorem prefix_text : uuid.text.take 13 =
    fixed 16 8 (uuid.qw0.toNat / 2 ^ 32) ++ '-' :: fixed 16 4 (uuid.qw0.toNat / 2 ^ 16) :=
  prefix_grouped (by simp) (by simp)

end Text

section V7

variable {ts1 ts2 ts : UInt64} {p q : Int64}

theorem timeField_uuidv7 : timeField (uuidv7Num ts p).text = ts.toNat / 1000000 := by
  have hlow : ts.toNat % 4096 < 4096 := Nat.mod_lt _ (by decide)
  rw [timeField_text, uuidv7_qw0]
  omega

theorem subField_uuidv7 : subField (uuidv7Num ts p).text = ts.toNat % 4096 := by
  rw [subField_text, uuidv7_qw0]
  omega

theorem randomField_uuidv7 : randomField (uuidv7Num ts p).text = p.toUInt64.toNat % 2 ^ 62 := by
  rw [randomField_text, uuidv7_qw1]
  omega

theorem groups_lt {m n : Nat} (h : m < n) (hn : n < 2 ^ 48) :
    fixed 16 8 (m / 2 ^ 16) ++ '-' :: fixed 16 4 m <
      fixed 16 8 (n / 2 ^ 16) ++ '-' :: fixed 16 4 n := by
  -- either the first group decides, or it is the same and the second one does
  rcases Nat.lt_or_eq_of_le (Nat.div_le_div_right (c := 2 ^ 16) h.le) with hd | hd
  · exact append_lt_append (fixed_lt base16 hd (by omega)) (by simp) _ _
  · rw [hd]
    apply List.append_left_lt
    rw [List.cons_lt_cons_iff, ← fixed_mod 16 4 m, ← fixed_mod 16 4 n]
    exact Or.inr ⟨rfl, fixed_lt base16 (by omega) (Nat.mod_lt _ (by decide))⟩

theorem prefix_lt (h : ts1.toNat / 1000000 < ts2.toNat / 1000000) :
    (uuidv7Num ts1 p).text.take 13 < (uuidv7Num ts2 q).text.take 13 := by
  have h1 := @timeField_uuidv7 ts1 p
  have h2 := @timeField_uuidv7 ts2 q
  have hsmall := millis_lt ts2
  rw [timeField_text] at h1 h2
  have hdiv : ∀ n : Nat, n / 2 ^ 32 = n / 2 ^ 16 / 2 ^ 16 := fun n => by omega
  rw [prefix_text, prefix_text, hdiv, hdiv, h1, h2]
  exact groups_lt h (by omega)

theorem text_eq_iff : (uuidv7Num ts1 p).text = (uuidv7Num ts2 q).text ↔
    ts1.toNat / 1000000 = ts2.toNat / 1000000 ∧ ts1.toNat % 4096 = ts2.toNat % 4096 ∧
      p.toUInt64.toNat % 2 ^ 62 = q.toUInt64.toNat % 2 ^ 62 := by
  constructor
  · intro h
    refine ⟨?_, ?_, ?_⟩
    · rw [← @timeField_uuidv7 ts1 p, h, timeField_uuidv7]
    · rw [← @subField_uuidv7 ts1 p, h, subField_uuidv7]
    · rw [← @randomField_uuidv7 ts1 p, h, randomField_uuidv7]
  · rintro ⟨htime, hsub, hrandom⟩
    have h0 : (uuidv7Num ts1 p).qw0.toNat = (uuidv7Num ts2 q).qw0.toNat := by
      rw [uuidv7_qw0, uuidv7_qw0, htime, hsub]
    have h1 : (uuidv7Num ts1 p).qw1.toNat = (uuidv7Num ts2 q).qw1.toNat := by
      rw [uuidv7_qw1, uuidv7_qw1, hrandom]
    rw [UuidNum.text, UuidNum.text, h0, h1]

theorem lt_of_take_lt {s t : List Char} {n : Nat} (h : s.take n < t.take n)
    (hl : s.length = t.length) : s < t := by
  rw [← List.take_append_drop n s, ← List.take_append_drop n t]
  exact append_lt_append h (by simp [hl]) _ _

end V7

/-- Every call of `uuidv7` returns the one text that its reading of the clock and its random number
have. Texts of different milliseconds are ordered as the times, within their first 13 characters.
The milliseconds, the low 12 bits of the nanoseconds and the low 62 bits of the random number can be
read back, and determine the text. -/
theorem uuidv7_ordered_and_decodable (ts1 ts2 : UInt64) (p q : Int64) :
    ∃ s t, (∀ o, Uuidv7Call ts1 p o ↔ o = .returned s) ∧
      (∀ o, Uuidv7Call ts2 q o ↔ o = .returned t) ∧ s.length = 36 ∧ t.length = 36 ∧
      (ts1.toNat / 1000000 < ts2.toNat / 1000000 → s < t ∧ s.take 13 < t.take 13) ∧
      (timeField s = ts1.toNat / 1000000 ∧ subField s = ts1.toNat % 4096 ∧
        randomField s = p.toUInt64.toNat % 2 ^ 62) ∧
      (s = t ↔ ts1.toNat / 1000000 = ts2.toNat / 1000000 ∧ ts1.toNat % 4096 = ts2.toNat % 4096 ∧
        p.toUInt64.toNat % 2 ^ 62 = q.toUInt64.toNat % 2 ^ 62) := by
  refine ⟨_, _, fun _ => uuidv7Call_iff, fun _ => uuidv7Call_iff, UuidNum.length_text _,
    UuidNum.length_text _, ?_, ⟨timeField_uuidv7, subField_uuidv7, randomField_uuidv7⟩, text_eq_iff⟩
  intro h
  exact ⟨lt_of_take_lt (prefix_lt h) (by simp), prefix_lt h⟩

theorem uuidv7_ordered_next_milli :
    ∃ s t, Uuidv7Call 1999999 (-1) (.returned s) ∧ Uuidv7Call 2000000 0 (.returned t) ∧
      s < t ∧ s.take 13 < t.take 13 := by
  obtain ⟨s, t, hs, ht, -, -, hlt, -⟩ := uuidv7_ordered_and_decodable 1999999 2000000 (-1) 0
  exact ⟨s, t, (hs _).mpr rfl, (ht _).mpr rfl, hlt (by decide)⟩

/-! ## `uuidv4` -/

/-- A well-formed text of version 4: the digits of its groups, less the version. -/
structure UuidV4 where
  g1 : List Char
  g2 : List Char
  g3 : List Char
  variant : Char
  g4 : List Char
  g5 : List Char
  hex : ∀ c ∈ g1 ++ g2 ++ g3 ++ variant :: g4 ++ g5, IsDigitOf 16 c
  isVariant : variant ∈ ['8', '9', 'a', 'b']
  length_g1 : g1.length = 8
  length_g2 : g2.length = 4
  length_g3 : g3.length = 3
  length_g4 : g4.length = 3
  length_g5 : g5.length = 12

def UuidV4.text (u : UuidV4) : List Char := grouped u.g1 u.g2 ('4' :: u.g3) (u.variant :: u.g4) u.g5

/-- The last three digits of the second group are those of the third. -/
def UuidV4.Repeats (u : UuidV4) : Prop := u.g2.drop 1 = u.g3

instance (u : UuidV4) : Decidable u.Repeats := by unfold UuidV4.Repeats; infer_instance

section V4

variable {p1 p2 : Int64}

theorem fixed_four (n : Nat) : fixed 16 4 n = (n / 16 ^ 3 % 16).digitChar :: fixed 16 3 n := by
  rw [fixed_add 16 1 3 n]
  rfl

theorem fields_qw0 (h : Nat) {low : Nat} (hlow : low < 4096) :
    (h * 2 ^ 16 + (0x4000 + low)) / 2 ^ 16 = h ∧
      (h * 2 ^ 16 + (0x4000 + low)) / 16 ^ 3 % 16 = 4 ∧
      (h * 2 ^ 16 + (0x4000 + low)) % 16 ^ 3 = low := by
  omega

theorem group2_uuidv4 :
    fixed 16 4 ((uuidv4Num p1 p2).qw0.toNat / 2 ^ 16) = fixed 16 4 p1.toUInt64.toNat := by
  have hlow : p1.toUInt64.toNat % 4096 < 4096 := Nat.mod_lt _ (by decide)
  rw [uuidv4_qw0, (fields_qw0 _ hlow).1, fixed_inj base16]
  exact Nat.mod_mod_of_dvd _ (by decide)

theorem group3_uuidv4 :
    fixed 16 4 (uuidv4Num p1 p2).qw0.toNat = '4' :: fixed 16 3 p1.toUInt64.toNat := by
  have hlow : p1.toUInt64.toNat % 4096 < 4096 := Nat.mod_lt _ (by decide)
  have hrest : fixed 16 3 (uuidv4Num p1 p2).qw0.toNat = fixed 16 3 p1.toUInt64.toNat := by
    rw [fixed_inj base16, uuidv4_qw0]
    exact (fields_qw0 _ hlow).2.2
  rw [fixed_four, hrest, uuidv4_qw0, (fields_qw0 _ hlow).2.1]
  rfl

end V4

namespace UuidV4

variable (u : UuidV4)

def random1 : Nat := value 16 u.g1 * 2 ^ 16 + value 16 u.g2

def random2 : Nat := value 16 (u.variant :: u.g4) % 2 ^ 14 * 2 ^ 48 + value 16 u.g5

theorem hex_g1 : ∀ c ∈ u.g1, IsDigitOf 16 c := fun c hc => u.hex c (by simp [hc])

theorem hex_g2 : ∀ c ∈ u.g2, IsDigitOf 16 c := fun c hc => u.hex c (by simp [hc])

theorem hex_g4 : ∀ c ∈ u.variant :: u.g4, IsDigitOf 16 c := by
  intro c hc
  exact u.hex c (List.mem_append_left _ (List.mem_append_right _ hc))

theorem hex_g5 : ∀ c ∈ u.g5, IsDigitOf 16 c := fun c hc => u.hex c (by simp [hc])

theorem value_g1_lt : value 16 u.g1 < 2 ^ 32 := by
  have h := value_lt base16 u.hex_g1
  rwa [u.length_g1] at h

theorem value_g2_lt : value 16 u.g2 < 2 ^ 16 := by
  have h := value_lt base16 u.hex_g2
  rwa [u.length_g2] at h

theorem value_g5_lt : value 16 u.g5 < 2 ^ 48 := by
  have h := value_lt base16 u.hex_g5
  rwa [u.length_g5] at h

theorem value_g4 : 2 ^ 15 ≤ value 16 (u.variant :: u.g4) ∧
    value 16 (u.variant :: u.g4) < 2 ^ 15 + 2 ^ 14 := by
  have htable : ∀ c ∈ ['8', '9', 'a', 'b'], 8 ≤ digitVal c ∧ digitVal c < 12 :=
    forall_mem_of_all (by decide)
  have hvariant := htable u.variant u.isVariant
  have hrest := value_lt base16 fun c hc => u.hex_g4 c (List.mem_cons_of_mem _ hc)
  have happend := value_append 16 [u.variant] u.g4
  have hone : value 16 [u.variant] = digitVal u.variant := by simp [value]
  rw [u.length_g4] at hrest happend
  rw [hone] at happend
  change value 16 (u.variant :: u.g4) = _ at happend
  omega

theorem random1_lt : u.random1 < 2 ^ 48 := by
  have h1 := u.value_g1_lt
  have h2 := u.value_g2_lt
  unfold random1
  omega

theorem random2_lt : u.random2 < 2 ^ 62 := by
  have h5 := u.value_g5_lt
  have h4 : value 16 (u.variant :: u.g4) % 2 ^ 14 < 2 ^ 14 := Nat.mod_lt _ (by decide)
  unfold random2
  omega

theorem g3_eq (h : u.Repeats) : fixed 16 3 u.random1 = u.g3 := by
  have hg2 := fixed_value base16 u.hex_g2
  rw [u.length_g2, fixed_four] at hg2
  have hlow : fixed 16 3 u.random1 = fixed 16 3 (value 16 u.g2) := by
    rw [fixed_inj base16, random1]
    omega
  rw [hlow, ← h]
  exact congrArg (List.drop 1) hg2

theorem repeats_of_call {p1 p2 : Int64} (hcall : Uuidv4Call p1 p2 (.returned u.text)) :
    u.Repeats := by
  rw [uuidv4Call_iff, Outcome.returned.injEq, text] at hcall
  have h2 := congrArg (fun s => (s.drop 9).take 4) hcall.symm
  have h3 := congrArg (fun s => (s.drop 14).take 4) hcall.symm
  have hlen : ('4' :: u.g3).length = 4 := by simp [u.length_g3]
  simp only [UuidNum.text] at h2 h3
  rw [group2_grouped (by simp) (by simp), group2_grouped u.length_g1 u.length_g2, group2_uuidv4,
    fixed_four] at h2
  rw [group3_grouped (by simp) (by simp) (by simp), group3_grouped u.length_g1 u.length_g2 hlen,
    group3_uuidv4] at h3
  rw [Repeats, ← h2]
  exact (List.cons.inj h3).2

theorem text_of_randoms (h : u.Repeats) {p1 p2 : Int64} (h1 : p1.toUInt64.toNat = u.random1)
    (h2 : p2.toUInt64.toNat = u.random2) : (uuidv4Num p1 p2).text = u.text := by
  have hg1 := fixed_value base16 u.hex_g1
  have hg2 := fixed_value base16 u.hex_g2
  have hg4 := fixed_value base16 u.hex_g4
  have hg5 := fixed_value base16 u.hex_g5
  have h1lt := u.random1_lt
  have h2lt := u.random2_lt
  have hvariant := u.value_g4
  have hlast := u.value_g5_lt
  have hfirst : (uuidv4Num p1 p2).qw0.toNat / 2 ^ 32 = value 16 u.g1 := by
    have := u.value_g2_lt
    rw [uuidv4_qw0, h1]
    unfold random1 at h1lt ⊢
    omega
  have hsecond : fixed 16 4 p1.toUInt64.toNat = fixed 16 4 (value 16 u.g2) := by
    rw [fixed_inj base16, h1, random1]
    omega
  have hfourth : (uuidv4Num p1 p2).qw1.toNat / 2 ^ 48 = value 16 (u.variant :: u.g4) := by
    rw [uuidv4_qw1, h2]
    unfold random2 at h2lt ⊢
    omega
  have hfifth : fixed 16 12 (uuidv4Num p1 p2).qw1.toNat = fixed 16 12 (value 16 u.g5) := by
    rw [fixed_inj base16, uuidv4_qw1, h2]
    unfold random2 at h2lt ⊢
    omega
  rw [u.length_g1] at hg1
  rw [u.length_g2] at hg2
  rw [List.length_cons, u.length_g4] at hg4
  rw [u.length_g5] at hg5
  rw [UuidNum.text, group2_uuidv4, group3_uuidv4, hfirst, hsecond, hfourth, hfifth, hg1, hg2, hg4,
    hg5, h1, u.g3_eq h, text]

end UuidV4

/-- A text of version 4 is returned by a call of `uuidv4` exactly if its second group ends as its
third does. -/
theorem uuidv4_generates_iff (u : UuidV4) :
    (∃ p1 p2, Uuidv4Call p1 p2 (.returned u.text)) ↔ u.Repeats := by
  constructor
  · rintro ⟨p1, p2, hcall⟩
    exact u.repeats_of_call hcall
  · intro h
    have h1 : (UInt64.ofNat u.random1).toNat = u.random1 :=
      UInt64.toNat_ofNat_of_lt' (lt_trans u.random1_lt (by decide))
    have h2 : (UInt64.ofNat u.random2).toNat = u.random2 :=
      UInt64.toNat_ofNat_of_lt' (lt_trans u.random2_lt (by decide))
    have htext := (u.text_of_randoms h h1 h2).symm
    exact ⟨_, _, uuidv4Call_iff.mpr (congrArg Outcome.returned htext)⟩

/-- `00000000-0001-4000-8000-000000000000`: the second group ends with `001`, the third with `000`. -/
def unrepeated : UuidV4 where
  g1 := "00000000".toList
  g2 := "0001".toList
  g3 := "000".toList
  variant := '8'
  g4 := "000".toList
  g5 := "000000000000".toList
  hex := forall_mem_of_all (by decide)
  isVariant := by decide
  length_g1 := by decide
  length_g2 := by decide
  length_g3 := by decide
  length_g4 := by decide
  length_g5 := by decide

theorem uuidv4_not_generated : ¬∃ p1 p2, Uuidv4Call p1 p2 (.returned unrepeated.text) := by
  rintro ⟨p1, p2, hcall⟩
  have hrepeats := unrepeated.repeats_of_call hcall
  exact absurd hrepeats (by decide)

end UdrPak.Uuid
