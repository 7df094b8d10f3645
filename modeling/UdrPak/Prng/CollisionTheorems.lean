import UdrPak.Prng.Theorems
import UdrPak.Realtime.Lemmas.Clock

/-!
# Collisions of `prng`

Two calls return the same value exactly if the words that seed them are the same. Each step from
that word to the value is injective.
-/

namespace UdrPak.Prng

open Host Libc Realtime

/-- The number that seeds a call: the monotonic clock, with the session id in the upper half. -/
def seedNumber (sid : UInt64) (r : SeedReadings) : Nat :=
  (r.monotonic.nanos % 2 ^ 64).toNat ^^^ (sid.toNat % 2 ^ 32 * 2 ^ 32)

section Collisions

variable {conn conn' : Option UInt64} {fp fp' : MiFparam Xsr256State} {r r' : SeedReadings}

theorem toNat_upperSid (sid : UInt64) :
    ((sid &&& 0xffffffff) <<< 32).toNat = sid.toNat % 2 ^ 32 * 2 ^ 32 := by
  have hlow : (sid &&& 0xffffffff).toNat = sid.toNat % 2 ^ 32 :=
    Word.toNat_and_mask (k := 32) rfl
  have hlt : sid.toNat % 2 ^ 32 < 2 ^ 32 := Nat.mod_lt _ (by decide)
  have hshift : (32 : UInt64).toNat % 64 = 32 := rfl
  rw [UInt64.toNat_shiftLeft, hlow, hshift, Nat.shiftLeft_eq]
  exact Nat.mod_eq_of_lt (by omega)

theorem toNat_seed (sid : UInt64) (r : SeedReadings) :
    (getClocktickNs r.monotonic ^^^ ((sid &&& 0xffffffff) <<< 32)).toNat = seedNumber sid r := by
  have hclock := toNat_getClocktickNs r.monotonic
  have hnat : (getClocktickNs r.monotonic).toNat = (r.monotonic.nanos % 2 ^ 64).toNat := by omega
  rw [UInt64.toNat_xor, toNat_upperSid, hnat, seedNumber]

theorem seedNumber_inj {sid : UInt64} :
    seedNumber sid r = seedNumber sid r' ↔
      r.monotonic.nanos % 2 ^ 64 = r'.monotonic.nanos % 2 ^ 64 := by
  have hclock := toNat_getClocktickNs r.monotonic
  have hclock' := toNat_getClocktickNs r'.monotonic
  rw [← toNat_seed, ← toNat_seed, UInt64.toNat_inj, UInt64.xor_left_inj, ← UInt64.toNat_inj]
  omega

theorem reseededCall_value_eq_iff {sid sid' : UInt64} :
    (reseededCall sid r).value = (reseededCall sid' r').value ↔
      seedNumber sid r = seedNumber sid' r' := by
  constructor
  · intro h
    have hout : (next (seedWords sid r)).1 = (next (seedWords sid' r')).1 :=
      congrArg Int64.toUInt64 h
    have hword : seedWord sid (getClocktickNs r.monotonic) =
        seedWord sid' (getClocktickNs r'.monotonic) := next_output_inj hout
    have hseed := congrArg UInt64.toNat (splitmixNext_output_inj hword)
    rwa [toNat_seed, toNat_seed] at hseed
  · intro h
    rw [← toNat_seed, ← toNat_seed, UInt64.toNat_inj] at h
    have hword : (seedWords sid r).s1 = (seedWords sid' r').s1 :=
      congrArg (fun x => (splitmixNext x).1) h
    have hvalue : ∀ w : Words, (next w).1 = rotl (w.s1 * 5) 7 * 9 := fun _ => rfl
    rw [reseededCall, reseededCall, hvalue, hvalue, hword]

end Collisions

/-- Two calls return the same value exactly if the numbers that seed them are equal, and in one
session exactly if the monotonic clock reads the same. Nothing else that the calls see plays a
part. -/
theorem xoshiro256StarStar_eq_iff (conn conn' : Option UInt64) (fp fp' : MiFparam Xsr256State)
    (r r' : SeedReadings) (h : sessionId conn fp ≠ 0) (h' : sessionId conn' fp' ≠ 0) :
    ∃ v v' left left', xoshiro256StarStar conn r fp = .returned (v, left) ∧
      xoshiro256StarStar conn' r' fp' = .returned (v', left') ∧
      (v = v' ↔ seedNumber (sessionId conn fp) r = seedNumber (sessionId conn' fp') r') ∧
      (sessionId conn fp = sessionId conn' fp' →
        (v = v' ↔ r.monotonic.nanos % 2 ^ 64 = r'.monotonic.nanos % 2 ^ 64)) := by
  obtain ⟨_, _, hcall, _⟩ := xoshiro256StarStar_eq h r
  obtain ⟨_, _, hcall', _⟩ := xoshiro256StarStar_eq h' r'
  refine ⟨_, _, _, _, hcall, hcall', reseededCall_value_eq_iff, fun hsid => ?_⟩
  rw [reseededCall_value_eq_iff, hsid, seedNumber_inj]

/-- Two sessions collide where the one's clock makes up for the other's session id. -/
theorem xoshiro256StarStar_eq_iff_other_session :
    ∃ v v' left left',
      xoshiro256StarStar (some 1) ⟨⟨5, 0⟩, ⟨0, 0⟩, ⟨6, 0⟩, ⟨7, 0⟩⟩ (.fresh (fun _ => true) none) =
        .returned (v, left) ∧
      xoshiro256StarStar (some 2) ⟨⟨8, 0⟩, ⟨12, 884901888⟩, ⟨9, 0⟩, ⟨10, 0⟩⟩
        (.fresh (fun _ => true) none) = .returned (v', left') ∧
      (v = v' ↔ seedNumber 1 ⟨⟨5, 0⟩, ⟨0, 0⟩, ⟨6, 0⟩, ⟨7, 0⟩⟩ =
        seedNumber 2 ⟨⟨8, 0⟩, ⟨12, 884901888⟩, ⟨9, 0⟩, ⟨10, 0⟩⟩) ∧
      ((1 : UInt64) = 2 → (v = v' ↔
        (⟨0, 0⟩ : Timespec).nanos % 2 ^ 64 = (⟨12, 884901888⟩ : Timespec).nanos % 2 ^ 64)) :=
  xoshiro256StarStar_eq_iff (some 1) (some 2) (.fresh (fun _ => true) none)
    (.fresh (fun _ => true) none) ⟨⟨5, 0⟩, ⟨0, 0⟩, ⟨6, 0⟩, ⟨7, 0⟩⟩
    ⟨⟨8, 0⟩, ⟨12, 884901888⟩, ⟨9, 0⟩, ⟨10, 0⟩⟩ (by decide) (by decide)

end UdrPak.Prng
