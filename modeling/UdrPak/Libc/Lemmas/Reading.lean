import UdrPak.Libc.Lemmas.Scan

/-!
# What the conversions read

`%ld` and `%s` read the front of a text as far as a number or a word goes.
-/

namespace Libc

open Numeral

/-- Behind white space the text has a number, and `rest` follows it. -/
def Front (text : List Char) (n : Int) (rest : List Char) : Prop :=
  ∃ ws num, text = ws ++ (num ++ rest) ∧ (∀ c ∈ ws, isspace c) ∧ SignedDecimal num n ∧
    Stops Char.isDigit rest

/-- Behind white space the text has a word, up to its end or to the next white space. -/
def FrontWord (text w : List Char) : Prop :=
  ∃ blanks rest, text = blanks ++ (w ++ rest) ∧ (∀ c ∈ blanks, isspace c) ∧ w ≠ [] ∧
    (∀ c ∈ w, isspace c = false) ∧ Stops (!isspace ·) rest

/-! ## A text has one number and one word at its front -/

/-- The number at the start of a text, and what follows its digits. -/
def signedFront : List Char → Int × List Char
  | '-' :: cs => (-value 10 (cs.takeWhile Char.isDigit), cs.dropWhile Char.isDigit)
  | '+' :: cs => (value 10 (cs.takeWhile Char.isDigit), cs.dropWhile Char.isDigit)
  | cs => (value 10 (cs.takeWhile Char.isDigit), cs.dropWhile Char.isDigit)

theorem signedFront_append {num rest : List Char} {n : Int} (hnum : SignedDecimal num n)
    (hrest : Stops Char.isDigit rest) : signedFront (num ++ rest) = (n, rest) := by
  cases hnum with
  | plain hne hds =>
      have htake := takeWhile_append_stop hds hrest
      have hdrop := dropWhile_append_stop hds hrest
      cases num with
      | nil => exact absurd rfl hne
      | cons c cs =>
          -- The first character is a digit, hence no sign.
          have hc := hds c (by simp)
          unfold signedFront
          split
          · rename_i he
            simp only [List.cons_append, List.cons.injEq] at he
            rw [he.1] at hc
            simp at hc
          · rename_i he
            simp only [List.cons_append, List.cons.injEq] at he
            rw [he.1] at hc
            simp at hc
          · rw [htake, hdrop]
  | plus hne hds =>
      simp only [List.cons_append, signedFront, takeWhile_append_stop hds hrest,
        dropWhile_append_stop hds hrest]
  | minus hne hds =>
      simp only [List.cons_append, signedFront, takeWhile_append_stop hds hrest,
        dropWhile_append_stop hds hrest]

theorem Front.eq {text rest : List Char} {n : Int} (h : Front text n rest) :
    signedFront (text.dropWhile isspace) = (n, rest) := by
  obtain ⟨ws, num, rfl, hws, hnum, hrest⟩ := h
  rw [dropWhile_append_stop hws (stops_isspace_signedDecimal hnum rest),
    signedFront_append hnum hrest]

theorem Front.unique {text rest rest' : List Char} {n n' : Int} (h : Front text n rest)
    (h' : Front text n' rest') : n = n' ∧ rest = rest' := by
  simpa using h.eq.symm.trans h'.eq

theorem stops_word_append {w : List Char} (hne : w ≠ []) (hw : ∀ c ∈ w, isspace c = false)
    (rest : List Char) : Stops isspace (w ++ rest) := by
  intro c hc
  rw [List.head?_append_of_ne_nil _ hne] at hc
  exact hw c (List.mem_of_mem_head? hc)

theorem FrontWord.eq {text w : List Char} (h : FrontWord text w) :
    (text.dropWhile isspace).takeWhile (!isspace ·) = w := by
  obtain ⟨blanks, rest, rfl, hblanks, hne, hw, hrest⟩ := h
  rw [dropWhile_append_stop hblanks (stops_word_append hne hw rest)]
  exact takeWhile_append_stop (fun c hc => by simp [hw c hc]) hrest

theorem FrontWord.unique {text w w' : List Char} (h : FrontWord text w) (h' : FrontWord text w') :
    w = w' :=
  h.eq.symm.trans h'.eq

section Conversions

variable {cs w rest : List Char} {v : Int64}

theorem scanLd_iff : scanLd cs = .matched v rest ↔ ∃ n, Front cs n rest ∧ v = saturate n := by
  constructor
  · intro h
    obtain ⟨ws, num, n, hcs, hws, hnum, hrest, hv⟩ := scanLd_inv h
    exact ⟨n, ⟨ws, num, hcs, hws, hnum, hrest⟩, hv⟩
  · rintro ⟨n, ⟨ws, num, rfl, hws, hnum, hrest⟩, rfl⟩
    exact scanLd_matched hws hnum hrest

theorem scanLit_iff {lit : List Char} :
    scanLit lit cs = .matched () rest ↔ cs = lit ++ rest := by
  constructor
  · exact scanLit_inv
  · rintro rfl
    exact scanLit_matched lit rest

theorem exists_scanS_iff : (∃ rest, scanS cs = .matched w rest) ↔ FrontWord cs w := by
  constructor
  · rintro ⟨rest, h⟩
    have hcs : cs = cs.takeWhile isspace ++ cs.dropWhile isspace :=
      List.takeWhile_append_dropWhile.symm
    unfold scanS at h
    split at h
    · cases h
    · rename_i c tl hd
      have hc : isspace c = false := by
        have hstops := stops_dropWhile isspace cs
        rw [hd] at hstops
        exact hstops c rfl
      simp only [Conv.matched.injEq] at h
      obtain ⟨rfl, rfl⟩ := h
      refine ⟨cs.takeWhile isspace, (c :: tl).dropWhile (!isspace ·), ?_,
        fun c hc => mem_takeWhile_pos hc, ?_, ?_, stops_dropWhile _ _⟩
      · rw [List.takeWhile_append_dropWhile, ← hd]
        exact hcs
      · simp [hc]
      · intro c hc
        simpa using mem_takeWhile_pos hc
  · rintro ⟨blanks, rest, rfl, hblanks, hne, hw, hrest⟩
    have htake : (w ++ rest).takeWhile (!isspace ·) = w :=
      takeWhile_append_stop (fun c hc => by simp [hw c hc]) hrest
    refine ⟨(w ++ rest).dropWhile (!isspace ·), ?_⟩
    rw [scanS_matched hblanks (by simp [hne]) (stops_word_append hne hw rest), htake]

end Conversions

/-! ## The whole format -/

/-- What a text holds: no number, a number, or a number and a word behind the separator. -/
inductive Reading where
  | nothing
  | number (n : Int)
  | word (n : Int) (w : List Char)

def Reads (sep text : List Char) : Reading → Prop
  | .nothing => ∀ n rest, ¬Front text n rest
  | .number n => ∃ rest, Front text n rest ∧ ∀ tail w, rest = sep ++ tail → ¬FrontWord tail w
  | .word n w => ∃ tail, Front text n (sep ++ tail) ∧ FrontWord tail w

theorem exists_reads (sep text : List Char) : ∃ r, Reads sep text r := by
  classical
  by_cases hfront : ∃ n rest, Front text n rest
  · obtain ⟨n, rest, hn⟩ := hfront
    by_cases hword : ∃ tail w, rest = sep ++ tail ∧ FrontWord tail w
    · obtain ⟨tail, w, rfl, hw⟩ := hword
      exact ⟨.word n w, tail, hn, hw⟩
    · exact ⟨.number n, rest, hn, fun tail w hrest hw => hword ⟨tail, w, hrest, hw⟩⟩
  · exact ⟨.nothing, fun n rest hn => hfront ⟨n, rest, hn⟩⟩

theorem Reads.unique {sep text : List Char} {r r' : Reading} (h : Reads sep text r)
    (h' : Reads sep text r') : r = r' := by
  cases r with
  | nothing =>
      cases r' with
      | nothing => rfl
      | number n =>
          obtain ⟨rest, hn, -⟩ := h'
          exact absurd hn (h n rest)
      | word n w =>
          obtain ⟨tail, hn, -⟩ := h'
          exact absurd hn (h n _)
  | number n =>
      obtain ⟨rest, hn, hnone⟩ := h
      cases r' with
      | nothing => exact absurd hn (h' n rest)
      | number n' =>
          obtain ⟨rest', hn', -⟩ := h'
          rw [(hn.unique hn').1]
      | word n' w' =>
          obtain ⟨tail', hn', hw'⟩ := h'
          exact absurd hw' (hnone tail' w' (hn.unique hn').2)
  | word n w =>
      obtain ⟨tail, hn, hw⟩ := h
      cases r' with
      | nothing => exact absurd hn (h' n _)
      | number n' =>
          obtain ⟨rest', hn', hnone'⟩ := h'
          exact absurd hw (hnone' tail w (hn'.unique hn).2)
      | word n' w' =>
          obtain ⟨tail', hn', hw'⟩ := h'
          obtain ⟨rfl, htail⟩ := hn.unique hn'
          obtain rfl := List.append_cancel_left htail
          rw [hw.unique hw']

section Sscanf

variable {sep cp : List Char}

theorem sscanf_nothing (h : Reads sep cp .nothing) :
    (sscanfLdSepS sep cp).count ≤ 0 ∧ (sscanfLdSepS sep cp).long = none ∧
      (sscanfLdSepS sep cp).string = none := by
  unfold sscanfLdSepS
  split
  · exact ⟨by decide, rfl, rfl⟩
  · exact ⟨by decide, rfl, rfl⟩
  · rename_i v rest hld
    obtain ⟨n, hn, -⟩ := scanLd_iff.mp hld
    exact absurd hn (h n rest)

theorem sscanf_reads_number {n : Int} (h : Reads sep cp (.number n)) :
    sscanfLdSepS sep cp = ⟨1, some (saturate n), none⟩ := by
  obtain ⟨rest, hn, hnone⟩ := h
  have hld := scanLd_iff.mpr ⟨n, hn, rfl⟩
  simp only [sscanfLdSepS, hld]
  split
  · rename_i tail hlit
    split
    · rename_i w _ hs
      exact absurd (exists_scanS_iff.mp ⟨_, hs⟩) (hnone tail w (scanLit_iff.mp hlit))
    · rfl
  · rfl

theorem sscanf_reads_word {n : Int} {w : List Char} (h : Reads sep cp (.word n w)) :
    sscanfLdSepS sep cp = ⟨2, some (saturate n), some w⟩ := by
  obtain ⟨tail, hn, hw⟩ := h
  have hld := scanLd_iff.mpr ⟨n, hn, rfl⟩
  obtain ⟨rest, hs⟩ := exists_scanS_iff.mpr hw
  simp only [sscanfLdSepS, hld, scanLit_matched, hs]

end Sscanf

end Libc
