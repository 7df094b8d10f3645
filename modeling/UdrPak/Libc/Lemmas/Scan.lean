import UdrPak.Libc.Stdio

/-!
# What `sscanf` reads

Each conversion has a lemma that runs it on a text of the shape it accepts, and a lemma that gives
that shape back from a successful run.
-/

namespace Libc

open Numeral

/-! ## Prefixes of a text -/

/-- The text does not start with a character of the class. -/
def Stops (p : Char → Bool) (cs : List Char) : Prop := ∀ c ∈ cs.head?, p c = false

theorem Stops.nil {p : Char → Bool} : Stops p [] := by simp [Stops]

theorem Stops.takeWhile_eq {p : Char → Bool} {cs : List Char} (h : Stops p cs) :
    cs.takeWhile p = [] := by
  cases cs with
  | nil => rfl
  | cons c cs => simp [h c (by simp)]

theorem Stops.dropWhile_eq {p : Char → Bool} {cs : List Char} (h : Stops p cs) :
    cs.dropWhile p = cs := by
  cases cs with
  | nil => rfl
  | cons c cs => simp [h c (by simp)]

theorem stops_dropWhile (p : Char → Bool) (cs : List Char) : Stops p (cs.dropWhile p) := by
  intro c hc
  have h := List.head?_dropWhile_not p cs
  rwa [hc] at h

theorem takeWhile_append_stop {p : Char → Bool} {as bs : List Char} (ha : ∀ c ∈ as, p c)
    (hb : Stops p bs) : (as ++ bs).takeWhile p = as := by
  rw [List.takeWhile_append_of_pos ha, hb.takeWhile_eq, List.append_nil]

theorem dropWhile_append_stop {p : Char → Bool} {as bs : List Char} (ha : ∀ c ∈ as, p c)
    (hb : Stops p bs) : (as ++ bs).dropWhile p = bs := by
  rw [List.dropWhile_append_of_pos ha, hb.dropWhile_eq]

theorem mem_takeWhile_pos {p : Char → Bool} {cs : List Char} {c : Char}
    (h : c ∈ cs.takeWhile p) : p c = true :=
  List.all_eq_true.mp List.all_takeWhile c h

/-! ## C strings -/

theorem nul_notMem_cString (cs : List Char) : '\x00' ∉ cString cs := by
  intro h
  have := mem_takeWhile_pos h
  simp at this

theorem cString_append {as : List Char} (h : '\x00' ∉ as) (bs : List Char) :
    cString (as ++ bs) = as ++ cString bs := by
  apply List.takeWhile_append_of_pos
  intro c hc
  simp only [bne_iff_ne]
  rintro rfl
  exact h hc

theorem cString_eq_self {cs : List Char} (h : '\x00' ∉ cs) : cString cs = cs := by
  have := cString_append h []
  simpa [cString] using this

theorem exists_eq_cString_append (cs : List Char) : ∃ tail, cs = cString cs ++ tail :=
  ⟨cs.dropWhile (· != '\x00'), List.takeWhile_append_dropWhile.symm⟩

theorem CharArray.str_store {n : Nat} (buf : CharArray n) {w : List Char} (h : w.length + 1 ≤ n)
    (hw : '\x00' ∉ w) : (buf.store w h).str = w := by
  show cString (w ++ '\x00' :: buf.toList.drop (w.length + 1)) = w
  rw [cString_append hw]
  simp [cString]

theorem toLower_toNat_ne_zero {c : Char} (h : c ≠ '\x00') : c.toLower.toNat ≠ 0 := by
  intro h0
  have h1 : c.toLower = '\x00' := Char.toNat_inj.mp h0
  unfold Char.toLower at h1
  split at h1
  · rename_i hr
    have hlow : 65 ≤ c.val.toNat := UInt32.le_iff_toNat_le.mp hr.1
    have hhigh : c.val.toNat ≤ 90 := UInt32.le_iff_toNat_le.mp hr.2
    have hv : (c.val + 32).toNat = 0 := congrArg (fun d => d.val.toNat) h1
    rw [UInt32.toNat_add, show (32 : UInt32).toNat = 32 from rfl] at hv
    omega
  · exact h h1

theorem strcasecmp_congr {cs cs' : List Char} (h : cs.map Char.toLower = cs'.map Char.toLower)
    (ds : List Char) : strcasecmp cs ds = strcasecmp cs' ds := by
  induction cs generalizing cs' ds with
  | nil =>
      rw [List.map_nil, eq_comm, List.map_eq_nil_iff] at h
      rw [h]
  | cons c cs ih =>
      cases cs' with
      | nil => cases h
      | cons c' cs' =>
          simp only [List.map_cons, List.cons.injEq] at h
          cases ds with
          | nil => simp only [strcasecmp, h.1]
          | cons d ds => simp only [strcasecmp, h.1, ih h.2]

theorem strcasecmp_eq_zero {cs ds : List Char} (hc : '\x00' ∉ cs) (hd : '\x00' ∉ ds) :
    strcasecmp cs ds = 0 ↔ cs.map Char.toLower = ds.map Char.toLower := by
  induction cs generalizing ds with
  | nil =>
      cases ds with
      | nil => simp [strcasecmp]
      | cons d ds =>
          have := toLower_toNat_ne_zero (c := d) (by rintro rfl; simp at hd)
          simp [strcasecmp]; omega
  | cons c cs ih =>
      cases ds with
      | nil =>
          have := toLower_toNat_ne_zero (c := c) (by rintro rfl; simp at hc)
          simp [strcasecmp]; omega
      | cons d ds =>
          simp only [List.mem_cons, not_or] at hc hd
          simp only [strcasecmp, List.map_cons, List.cons.injEq]
          split
          · rename_i h; simp [h, ih hc.2 hd.2]
          · rename_i h
            simp only [h, false_and, iff_false]
            intro he
            exact h (Char.toNat_inj.mp (by omega))

/-! ## `%ld` -/

theorem toInt_saturate {n : Int} (hlow : -2 ^ 63 ≤ n) (hhigh : n < 2 ^ 63) :
    (saturate n).toInt = n := by
  have hmin : Int64.minValue.toInt = -2 ^ 63 := rfl
  have hmax : Int64.maxValue.toInt = 2 ^ 63 - 1 := rfl
  rw [saturate, if_neg (by omega), if_neg (by omega), Int64.toInt_ofInt_of_le hlow hhigh]

theorem saturate_toInt (v : Int64) : saturate v.toInt = v :=
  Int64.toInt_inj.mp (toInt_saturate v.le_toInt v.toInt_lt)

theorem isDigit_not_isspace {c : Char} (h : c.isDigit) : isspace c = false := by
  have hlow : 48 ≤ c.toNat := (Char.isDigit_iff_toNat.mp h).1
  have hblank : c ≠ ' ' := by rintro rfl; simp at hlow
  have hcontrol : ¬ c ≤ '\r' := by
    intro hle
    have : c.toNat ≤ 13 := UInt32.le_iff_toNat_le.mp hle
    omega
  simp [isspace, hblank, hcontrol]

theorem scanDigits_matched {ds rest : List Char} (neg : Bool) (hne : ds ≠ [])
    (hds : ∀ c ∈ ds, c.isDigit) (hrest : Stops Char.isDigit rest) :
    scanDigits neg (ds ++ rest) =
      .matched (saturate (if neg then -(value 10 ds : Int) else value 10 ds)) rest := by
  unfold scanDigits
  rw [takeWhile_append_stop hds hrest, dropWhile_append_stop hds hrest]
  simp [hne]

theorem scanDigits_inv {cs rest : List Char} {neg : Bool} {v : Int64}
    (h : scanDigits neg cs = .matched v rest) :
    ∃ ds, cs = ds ++ rest ∧ ds ≠ [] ∧ (∀ c ∈ ds, c.isDigit) ∧ Stops Char.isDigit rest ∧
      v = saturate (if neg then -(value 10 ds : Int) else value 10 ds) := by
  simp only [scanDigits] at h
  split at h
  · cases h
  · rename_i hne
    simp only [Conv.matched.injEq] at h
    obtain ⟨rfl, rfl⟩ := h
    exact ⟨_, List.takeWhile_append_dropWhile.symm, hne, fun c hc => mem_takeWhile_pos hc,
      stops_dropWhile _ _, rfl⟩

theorem stops_isspace_signedDecimal {num : List Char} {n : Int} (h : SignedDecimal num n)
    (rest : List Char) : Stops isspace (num ++ rest) := by
  cases h with
  | plain hne hds =>
      cases num with
      | nil => exact absurd rfl hne
      | cons c cs => simpa [Stops] using isDigit_not_isspace (hds c (by simp))
  | plus _ _ => simp [Stops, isspace]
  | minus _ _ => simp [Stops, isspace]

theorem scanLd_matched {ws num rest : List Char} {n : Int} (hws : ∀ c ∈ ws, isspace c)
    (hnum : SignedDecimal num n) (hrest : Stops Char.isDigit rest) :
    scanLd (ws ++ (num ++ rest)) = .matched (saturate n) rest := by
  unfold scanLd
  rw [dropWhile_append_stop hws (stops_isspace_signedDecimal hnum rest)]
  cases hnum with
  | plain hne hds =>
      have hm := scanDigits_matched false hne hds hrest
      cases num with
      | nil => exact absurd rfl hne
      | cons c cs =>
          have hc := hds c (by simp)
          split
          · simp_all
          · rename_i he; simp only [List.cons_append, List.cons.injEq] at he
            rw [he.1] at hc; simp at hc
          · rename_i he; simp only [List.cons_append, List.cons.injEq] at he
            rw [he.1] at hc; simp at hc
          · simpa using hm
  | plus hne hds => simpa using scanDigits_matched false hne hds hrest
  | minus hne hds => simpa using scanDigits_matched true hne hds hrest

theorem scanLd_inv {cs rest : List Char} {v : Int64} (h : scanLd cs = .matched v rest) :
    ∃ ws num n, cs = ws ++ (num ++ rest) ∧ (∀ c ∈ ws, isspace c) ∧ SignedDecimal num n ∧
      Stops Char.isDigit rest ∧ v = saturate n := by
  have hcs : cs = cs.takeWhile isspace ++ cs.dropWhile isspace :=
    List.takeWhile_append_dropWhile.symm
  have hws : ∀ c ∈ cs.takeWhile isspace, isspace c := fun c hc => mem_takeWhile_pos hc
  unfold scanLd at h
  split at h
  · cases h
  · rename_i tl hd
    obtain ⟨ds, rfl, hne, hds, hrest, hv⟩ := scanDigits_inv h
    exact ⟨_, '-' :: ds, _, by simpa [hd] using hcs, hws, .minus hne hds, hrest, by simpa using hv⟩
  · rename_i tl hd
    obtain ⟨ds, rfl, hne, hds, hrest, hv⟩ := scanDigits_inv h
    exact ⟨_, '+' :: ds, _, by simpa [hd] using hcs, hws, .plus hne hds, hrest, by simpa using hv⟩
  · obtain ⟨ds, hd, hne, hds, hrest, hv⟩ := scanDigits_inv h
    exact ⟨_, ds, _, by rw [← hd]; exact hcs, hws, .plain hne hds, hrest, by simpa using hv⟩

/-! ## Ordinary characters and `%s` -/

theorem scanLit_matched (lit rest : List Char) : scanLit lit (lit ++ rest) = .matched () rest := by
  induction lit with
  | nil => rfl
  | cons l ls ih => simpa [scanLit] using ih

theorem scanLit_inv {lit cs rest : List Char} (h : scanLit lit cs = .matched () rest) :
    cs = lit ++ rest := by
  induction lit generalizing cs with
  | nil => simp only [scanLit, Conv.matched.injEq] at h; simp [h.2]
  | cons l ls ih =>
      cases cs with
      | nil => simp [scanLit] at h
      | cons c cs =>
          simp only [scanLit] at h
          split at h
          · rename_i he; simp [he, ih h]
          · cases h

theorem scanS_matched {blanks t : List Char} (hb : ∀ c ∈ blanks, isspace c) (hne : t ≠ [])
    (ht : Stops isspace t) :
    scanS (blanks ++ t) = .matched (t.takeWhile (!isspace ·)) (t.dropWhile (!isspace ·)) := by
  unfold scanS
  rw [dropWhile_append_stop hb ht]
  cases t with
  | nil => exact absurd rfl hne
  | cons c t => rfl

theorem scanS_inv {cs w rest : List Char} (h : scanS cs = .matched w rest) :
    ∃ blanks, cs = blanks ++ (w ++ rest) ∧ (∀ c ∈ blanks, isspace c) ∧
      (∀ c ∈ w, isspace c = false) := by
  have hcs : cs = cs.takeWhile isspace ++ cs.dropWhile isspace :=
    List.takeWhile_append_dropWhile.symm
  unfold scanS at h
  split at h
  · cases h
  · rename_i c tl hd
    simp only [Conv.matched.injEq] at h
    obtain ⟨rfl, rfl⟩ := h
    refine ⟨cs.takeWhile isspace, ?_, fun c hc => mem_takeWhile_pos hc, ?_⟩
    · rw [List.takeWhile_append_dropWhile, ← hd]; exact hcs
    · intro c hc
      simpa using mem_takeWhile_pos hc

/-! ## The whole format -/

variable {sep : List Char}

theorem sscanf_number {ws num : List Char} {n : Int} (hsep : sep ≠ []) (hws : ∀ c ∈ ws, isspace c)
    (hnum : SignedDecimal num n) :
    sscanfLdSepS sep (ws ++ num) = ⟨1, some (saturate n), none⟩ := by
  have h := scanLd_matched hws hnum .nil
  rw [List.append_nil] at h
  cases sep with
  | nil => exact absurd rfl hsep
  | cons l ls => simp only [sscanfLdSepS, h, scanLit]

theorem sscanf_word {ws num blanks t : List Char} {n : Int} (hsep : ∀ r, Stops Char.isDigit (sep ++ r))
    (hws : ∀ c ∈ ws, isspace c) (hnum : SignedDecimal num n) (hb : ∀ c ∈ blanks, isspace c)
    (hne : t ≠ []) (ht : Stops isspace t) :
    sscanfLdSepS sep (ws ++ (num ++ (sep ++ (blanks ++ t)))) =
      ⟨2, some (saturate n), some (t.takeWhile (!isspace ·))⟩ := by
  simp only [sscanfLdSepS, scanLd_matched hws hnum (hsep _), scanLit_matched,
    scanS_matched hb hne ht]

theorem sscanf_string_inv {cp w : List Char} (h : (sscanfLdSepS sep cp).string = some w) :
    ∃ ws num n blanks rest, cp = ws ++ (num ++ (sep ++ (blanks ++ (w ++ rest)))) ∧
      (∀ c ∈ ws, isspace c) ∧ SignedDecimal num n ∧ (∀ c ∈ blanks, isspace c) ∧
      (∀ c ∈ w, isspace c = false) := by
  unfold sscanfLdSepS at h
  split at h
  · cases h
  · cases h
  · rename_i v rest hld
    split at h
    · rename_i rest' hlit
      split at h
      · rename_i w' rest'' hs
        simp only [Option.some.injEq] at h
        subst h
        obtain ⟨ws, num, n, rfl, hws, hnum, -, -⟩ := scanLd_inv hld
        obtain rfl := scanLit_inv hlit
        obtain ⟨blanks, rfl, hb, hw⟩ := scanS_inv hs
        exact ⟨ws, num, n, blanks, rest'', rfl, hws, hnum, hb, hw⟩
      · cases h
    · cases h

end Libc
