import UdrPak.Uuid.Theorems

/-!
# The form of UUIDs

Every text that is printed has the form of a UUID, and carries the 128 bits.
-/

namespace UdrPak.Uuid

open Libc Numeral

/-- 36 characters, grouped 8-4-4-4-12, of the version and of the variant that is written `10` in
binary. -/
structure WellFormed (version : Char) (s : List Char) : Prop where
  length : s.length = 36
  dashes : ∀ i ∈ [8, 13, 18, 23], s[i]? = some '-'
  hex : ∀ i < 36, i ∉ [8, 13, 18, 23] → ∃ c, s[i]? = some c ∧ IsDigitOf 16 c
  version : s[14]? = some version
  variant : ∃ c ∈ ['8', '9', 'a', 'b'], s[19]? = some c

/-- The number of a text, read past its dashes. -/
def bits (s : List Char) : Nat := value 16 (s.filter (· ≠ '-'))

/-! ## Groups -/

theorem getElem?_group {s g : List Char} {m n i : Nat} (hg : (s.drop m).take n = g) (hm : m ≤ i)
    (hi : i < m + n) : s[i]? = g[i - m]? := by
  rw [← hg, List.getElem?_take_of_lt (by omega), List.getElem?_drop, Nat.add_sub_cancel' hm]

theorem exists_of_group {s g : List Char} {m n i : Nat} {P : Char → Prop}
    (hg : (s.drop m).take n = g) (hlen : g.length = n) (hP : ∀ c ∈ g, P c) (hm : m ≤ i)
    (hi : i < m + n) : ∃ c, s[i]? = some c ∧ P c := by
  have hlt : i - m < g.length := by omega
  rw [getElem?_group hg hm hi, List.getElem?_eq_getElem hlt]
  exact ⟨_, rfl, hP _ (List.getElem_mem hlt)⟩

section Grouped

variable {g1 g2 g3 g4 g5 : List Char} (h1 : g1.length = 8) (h2 : g2.length = 4)
  (h3 : g3.length = 4) (h4 : g4.length = 4) (h5 : g5.length = 12)

include h1 h2 h3 h4 in
theorem dashes_grouped : ∀ i ∈ [8, 13, 18, 23], (grouped g1 g2 g3 g4 g5)[i]? = some '-' := by
  intro i hi
  simp only [List.mem_cons, List.not_mem_nil, or_false] at hi
  rcases hi with rfl | rfl | rfl | rfl <;> simp [grouped, List.getElem?_append, h1, h2, h3, h4]

include h1 h2 h3 h4 h5 in
theorem hex_grouped (hex : ∀ c ∈ g1 ++ g2 ++ g3 ++ g4 ++ g5, IsDigitOf 16 c) :
    ∀ i < 36, i ∉ [8, 13, 18, 23] → ∃ c, (grouped g1 g2 g3 g4 g5)[i]? = some c ∧ IsDigitOf 16 c := by
  intro i hi hdash
  simp only [List.mem_cons, List.not_mem_nil, or_false, not_or] at hdash
  simp only [List.mem_append] at hex
  have hcases : i < 8 ∨ (9 ≤ i ∧ i < 13) ∨ (14 ≤ i ∧ i < 18) ∨ (19 ≤ i ∧ i < 23) ∨ 24 ≤ i := by
    omega
  rcases hcases with h | ⟨h, h'⟩ | ⟨h, h'⟩ | ⟨h, h'⟩ | h
  · exact exists_of_group (m := 0) (take_grouped h1) h1 (fun c hc => hex c (by simp [hc]))
      (Nat.zero_le i) (by omega)
  · exact exists_of_group (group2_grouped h1 h2) h2 (fun c hc => hex c (by simp [hc])) h h'
  · exact exists_of_group (group3_grouped h1 h2 h3) h3 (fun c hc => hex c (by simp [hc])) h h'
  · exact exists_of_group (group4_grouped h1 h2 h3 h4) h4 (fun c hc => hex c (by simp [hc])) h h'
  · exact exists_of_group (group5_grouped h1 h2 h3 h4 h5) h5 (fun c hc => hex c (by simp [hc])) h
      (by omega)

theorem filter_grouped (hex : ∀ c ∈ g1 ++ g2 ++ g3 ++ g4 ++ g5, IsDigitOf 16 c) :
    (grouped g1 g2 g3 g4 g5).filter (· ≠ '-') = g1 ++ g2 ++ g3 ++ g4 ++ g5 := by
  have hdash : ∀ d < 16, d.digitChar ≠ '-' := by decide
  have hdigits : ∀ c ∈ g1 ++ g2 ++ g3 ++ g4 ++ g5, c ≠ '-' := by
    intro c hc
    obtain ⟨d, hd, rfl⟩ := hex c hc
    exact hdash d hd
  have hall := List.filter_eq_self (p := fun c => decide (c ≠ '-')).mpr
    (fun c hc => decide_eq_true (hdigits c hc))
  rw [← hall]
  simp [grouped]

end Grouped

/-! ## Texts -/

section Text

variable (uuid : UuidNum)

theorem hex_text : ∀ c ∈ fixed 16 8 (uuid.qw0.toNat / 2 ^ 32) ++
    fixed 16 4 (uuid.qw0.toNat / 2 ^ 16) ++ fixed 16 4 uuid.qw0.toNat ++
      fixed 16 4 (uuid.qw1.toNat / 2 ^ 48) ++ fixed 16 12 uuid.qw1.toNat, IsDigitOf 16 c := by
  intro c hc
  simp only [List.mem_append, or_assoc] at hc
  rcases hc with h | h | h | h | h <;> exact mem_fixed base16 h

theorem bits_text : bits uuid.text = uuid.qw0.toNat * 2 ^ 64 + uuid.qw1.toNat := by
  have h0 := uuid.qw0.toNat_lt
  have h1 := uuid.qw1.toNat_lt
  have hdigits : ∀ w n, value 16 (fixed 16 w n) = n % 16 ^ w :=
    value_fixed base16
  rw [bits, UuidNum.text, filter_grouped (hex_text uuid)]
  simp only [value_append, length_fixed, hdigits]
  omega

theorem group3_text : (uuid.text.drop 14).take 4 = fixed 16 4 uuid.qw0.toNat :=
  group3_grouped (by simp) (by simp) (by simp)

theorem group4_text : (uuid.text.drop 19).take 4 = fixed 16 4 (uuid.qw1.toNat / 2 ^ 48) :=
  group4_grouped (by simp) (by simp) (by simp) (by simp)

/-- A text is well formed if its two words have the version and the variant in their places. -/
theorem wellFormed_text {v : Nat} (hversion : uuid.qw0.toNat / 16 ^ 3 % 16 = v)
    (hvariant : uuid.qw1.toNat / 2 ^ 62 = 2) : WellFormed v.digitChar uuid.text where
  length := uuid.length_text
  dashes := dashes_grouped (by simp) (by simp) (by simp) (by simp)
  hex := hex_grouped (by simp) (by simp) (by simp) (by simp) (by simp) (hex_text uuid)
  version := by
    rw [getElem?_group (group3_text uuid) (by decide) (by decide), fixed_four, hversion]
    rfl
  variant := by
    have htable : ∀ d < 12, 8 ≤ d → d.digitChar ∈ ['8', '9', 'a', 'b'] := by decide
    have hd : 8 ≤ uuid.qw1.toNat / 2 ^ 48 / 16 ^ 3 % 16 ∧
        uuid.qw1.toNat / 2 ^ 48 / 16 ^ 3 % 16 < 12 := by omega
    refine ⟨_, htable _ hd.2 hd.1, ?_⟩
    rw [getElem?_group (group4_text uuid) (by decide) (by decide), fixed_four]
    rfl

end Text

/-! ## The functions -/

section Words

variable {ts : UInt64} {p1 p2 : Int64}

theorem version_uuidv7 : (uuidv7Num ts p2).qw0.toNat / 16 ^ 3 % 16 = 7 := by
  have hlow : ts.toNat % 4096 < 4096 := Nat.mod_lt _ (by decide)
  rw [uuidv7_qw0]
  omega

theorem version_uuidv4 : (uuidv4Num p1 p2).qw0.toNat / 16 ^ 3 % 16 = 4 := by
  have hlow : p1.toUInt64.toNat % 4096 < 4096 := Nat.mod_lt _ (by decide)
  rw [uuidv4_qw0]
  exact (fields_qw0 _ hlow).2.1

theorem variant_qw1 (p : Int64) : (2 ^ 63 + p.toUInt64.toNat % 2 ^ 62) / 2 ^ 62 = 2 := by
  have hlow : p.toUInt64.toNat % 2 ^ 62 < 2 ^ 62 := Nat.mod_lt _ (by decide)
  omega

end Words

/-- What `print` makes of 128 bits fills the array to its last byte, and is their well-formed
text. -/
structure Renders (uuid : UuidNum) (version : Char) (s : List Char) : Prop where
  print : uuid.print = .returned s
  array : (snprintf 40 uuid.format).length + 1 = uuidStr + 1
  wellFormed : WellFormed version s
  bits : bits s = uuid.qw0.toNat * 2 ^ 64 + uuid.qw1.toNat

theorem renders_text {uuid : UuidNum} {v : Nat} (hversion : uuid.qw0.toNat / 16 ^ 3 % 16 = v)
    (hvariant : uuid.qw1.toNat / 2 ^ 62 = 2) : Renders uuid v.digitChar uuid.text where
  print := uuid.print_eq
  array := by
    have hlen := uuid.length_text
    rw [UuidNum.format_eq, snprintf, List.length_take, hlen]
    rfl
  wellFormed := wellFormed_text uuid hversion hvariant
  bits := bits_text uuid

/-- Every call of `uuidv7` and of `uuidv4` returns a well-formed UUID of its version, whatever the
clock and `prng` have given to it. -/
theorem uuid_renders (ts : UInt64) (p1 p2 : Int64) :
    (∃ s, (∀ o, Uuidv7Call ts p2 o ↔ o = .returned s) ∧ Renders (uuidv7Num ts p2) '7' s) ∧
      ∃ s, (∀ o, Uuidv4Call p1 p2 o ↔ o = .returned s) ∧ Renders (uuidv4Num p1 p2) '4' s := by
  refine ⟨⟨_, fun _ => uuidv7Call_iff, renders_text version_uuidv7 ?_⟩,
    ⟨_, fun _ => uuidv4Call_iff, renders_text version_uuidv4 ?_⟩⟩
  · rw [uuidv7_qw1, variant_qw1]
  · rw [uuidv4_qw1, variant_qw1]

end UdrPak.Uuid
