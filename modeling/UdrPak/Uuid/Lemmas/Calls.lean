import UdrPak.Realtime.Lemmas.Clock
import UdrPak.Uuid.Lemmas.Session

/-!
# Calls of the UUID functions

The outcome of a call follows from its reading of the clock and from what `prng` gives to it, and
calls meet every reading and every random number.
-/

namespace UdrPak.Uuid

open Host Libc Realtime Prng

/-- A call of `uuidv7`: what it reads from the clock, what `prng` gives to it, and its outcome. -/
inductive Uuidv7Call : UInt64 → Int64 → Outcome (List Char) → Prop where
  | call {conn r fp p fp'} (realtime : Timespec)
      (hprng : xoshiro256StarStar conn r fp = .returned (p, fp')) :
      Uuidv7Call (getClocktickNs realtime) p ((uuidv7 conn realtime r fp).map Prod.fst)

/-- A call of `uuidv4`: what `prng` gives to it first and then, and its outcome. -/
inductive Uuidv4Call : Int64 → Int64 → Outcome (List Char) → Prop where
  | call {conn r r' fp p1 fp1 p2 fp2}
      (hfirst : xoshiro256StarStar conn r fp = .returned (p1, fp1))
      (hsecond : xoshiro256StarStar conn r' fp1 = .returned (p2, fp2)) :
      Uuidv4Call p1 p2 ((uuidv4 conn r r' fp).map Prod.fst)

section Calls

variable {ts : UInt64} {p p1 p2 : Int64} {o : Outcome (List Char)}

theorem exists_seedReadings (sid : UInt64) (p : Int64) :
    ∃ r, (reseededCall sid r).value = p := by
  obtain ⟨ns, hns⟩ := (firstOutput_bijective sid).surjective p.toUInt64
  refine ⟨⟨⟨0, 0⟩, .ofNanos ns.toNat, ⟨0, 0⟩, ⟨0, 0⟩⟩, ?_⟩
  rw [value_reseededCall, getClocktickNs_ofNanos, hns]
  exact p.toInt64_toUInt64

/-- In a session `prng` may give every number, and the next call is in the same session. -/
theorem exists_prng {conn : Option UInt64} {fp : MiFparam Xsr256State} (h : sessionId conn fp ≠ 0)
    (p : Int64) : ∃ r fp', xoshiro256StarStar conn r fp = .returned (p, fp') ∧
      sessionId conn fp' = sessionId conn fp := by
  obtain ⟨r, rfl⟩ := exists_seedReadings (sessionId conn fp) p
  exact ⟨r, xoshiro256StarStar_session h r⟩

theorem uuidv7Call_iff : Uuidv7Call ts p o ↔ o = .returned (uuidv7Num ts p).text := by
  constructor
  · rintro ⟨realtime, hprng⟩
    rw [uuidv7_eq realtime hprng]
    rfl
  · rintro rfl
    have hsession : sessionId (some 7) (.fresh (fun _ => true) none) ≠ 0 := by decide
    obtain ⟨r, fp', hprng, -⟩ := exists_prng hsession p
    have hcall := Uuidv7Call.call (.ofNanos ts.toNat) hprng
    rwa [uuidv7_eq _ hprng, getClocktickNs_ofNanos] at hcall

theorem uuidv4Call_iff : Uuidv4Call p1 p2 o ↔ o = .returned (uuidv4Num p1 p2).text := by
  constructor
  · rintro ⟨hfirst, hsecond⟩
    rw [uuidv4_eq hfirst hsecond]
    rfl
  · rintro rfl
    have hsession : sessionId (some 7) (.fresh (fun _ => true) none) ≠ 0 := by decide
    obtain ⟨r, fp1, hfirst, hsid⟩ := exists_prng hsession p1
    obtain ⟨r', fp2, hsecond, -⟩ := exists_prng (hsid ▸ hsession) p2
    have hcall := Uuidv4Call.call hfirst hsecond
    rwa [uuidv4_eq hfirst hsecond] at hcall

end Calls

end UdrPak.Uuid
