import UdrPak.Prng.Theorems
import UdrPak.Uuid.Lemmas.Format

/-!
# UUIDs in a session

With a session id the functions return, and the next call is in the same session.
-/

namespace UdrPak.Uuid

open Host Libc Realtime Prng

section Session

variable {conn : Option UInt64} {fp : MiFparam Xsr256State}

theorem uuidv7_session (h : sessionId conn fp ≠ 0) (realtime : Timespec) (r : SeedReadings) :
    ∃ fp', uuidv7 conn realtime r fp = .returned ((uuidv7Num (getClocktickNs realtime)
        (reseededCall (sessionId conn fp) r).value).text, fp') ∧
      sessionId conn fp' = sessionId conn fp := by
  obtain ⟨fp', hprng, hsid⟩ := xoshiro256StarStar_session h r
  exact ⟨fp', uuidv7_eq realtime hprng, hsid⟩

theorem uuidv7_returns (h : sessionId conn fp ≠ 0) (realtime : Timespec) (r : SeedReadings) :
    ∃ s fp', uuidv7 conn realtime r fp = .returned (s, fp') ∧ sessionId conn fp' ≠ 0 := by
  obtain ⟨fp', hcall, hsid⟩ := uuidv7_session h realtime r
  exact ⟨_, fp', hcall, hsid ▸ h⟩

theorem uuidv4_session (h : sessionId conn fp ≠ 0) (r r' : SeedReadings) :
    ∃ fp', uuidv4 conn r r' fp = .returned ((uuidv4Num (reseededCall (sessionId conn fp) r).value
        (reseededCall (sessionId conn fp) r').value).text, fp') ∧
      sessionId conn fp' = sessionId conn fp := by
  obtain ⟨fp1, hfirst, hsid⟩ := xoshiro256StarStar_session h r
  obtain ⟨fp2, hsecond, hsid'⟩ := @xoshiro256StarStar_session conn fp1 (hsid ▸ h) r'
  rw [hsid] at hsecond
  exact ⟨fp2, uuidv4_eq hfirst hsecond, hsid'.trans hsid⟩

theorem uuidv7_returned {realtime : Timespec} {r : SeedReadings} {fp' : MiFparam Xsr256State}
    {s : List Char} (h : uuidv7 conn realtime r fp = .returned (s, fp')) :
    ∃ p, s = (uuidv7Num (getClocktickNs realtime) p).text := by
  obtain ⟨⟨p, fp1⟩, hprng, -⟩ := Outcome.bind_eq_returned h
  rw [uuidv7_eq realtime hprng] at h
  cases h
  exact ⟨p, rfl⟩

end Session

end UdrPak.Uuid
