import UdrPak.Lib.Orbit
import UdrPak.Prng.Lemmas.Words

/-!
# The stream of `prng`
-/

namespace UdrPak.Prng

open Host Libc Realtime

/-! ## Calls through one function state -/

/-- A call of `prng`: the words after seeding, the value, and the words left behind. -/
structure Call where
  started : Words
  value : Int64
  left : Option Words
  deriving DecidableEq

def call (conn : Option UInt64) (r : SeedReadings) (fp : MiFparam Xsr256State) :
    Outcome (Call × MiFparam Xsr256State) :=
  (initXsr256State conn r fp).bind fun (s, _) =>
    (xoshiro256StarStar conn r fp).map fun (v, fp) => (⟨s.xsrS, v, fp.funcstate.map (·.xsrS)⟩, fp)

def calls (conn : Option UInt64) : List SeedReadings → MiFparam Xsr256State → Outcome (List Call)
  | [], _ => .returned []
  | r :: rs, fp => (call conn r fp).bind fun (c, fp) => (calls conn rs fp).map (c :: ·)

/-- The session id of the calls: the one in the function state, or the one of the connection. -/
def sessionId (conn : Option UInt64) (fp : MiFparam Xsr256State) : UInt64 :=
  match fp.funcstate with
  | some s => if s.sid = 0 then conn.getD 0 else s.sid
  | none => conn.getD 0

/-- What a call does, whatever the calls before it did. -/
def reseededCall (sid : UInt64) (r : SeedReadings) : Call where
  started := seedWords sid r
  value := (next (seedWords sid r)).1.toInt64
  left := some (next (seedWords sid r)).2

section Calls

variable {conn : Option UInt64} {fp : MiFparam Xsr256State}

theorem getFuncStatePtr_sid :
    ∃ s fp', getFuncStatePtr Xsr256State.zeroed fp = (s, fp') ∧
      sessionId conn fp = if s.sid = 0 then conn.getD 0 else s.sid := by
  unfold getFuncStatePtr sessionId
  cases fp.funcstate with
  | none => exact ⟨_, _, rfl, rfl⟩
  | some s => exact ⟨_, _, rfl, rfl⟩

theorem initXsr256State_eq (h : sessionId conn fp ≠ 0) (r : SeedReadings) :
    ∃ s fp', initXsr256State conn r fp = .returned (s, fp') ∧
      s.xsrS = seedWords (sessionId conn fp) r ∧ s.sid = sessionId conn fp := by
  obtain ⟨s, fp', hptr, hsid⟩ := @getFuncStatePtr_sid conn fp
  have hget : (if s.sid = 0 then getSessionId conn else .returned s.sid) =
      .returned (sessionId conn fp) := by
    rw [hsid] at h ⊢
    by_cases h0 : s.sid = 0
    · rw [if_pos h0] at h ⊢
      cases conn with
      | none => exact absurd rfl h
      | some id => simp [getSessionId, h0]
    · rw [if_neg h0, if_neg h0]
  rw [initXsr256State, hptr]
  simp only [hget, Outcome.bind_returned, if_neg h]
  exact ⟨_, _, rfl, seed_xsrS _ _, seed_sid _ _⟩

/-- The value is the first output of the seeded words, and the next words are left behind. -/
theorem xoshiro256StarStar_eq (h : sessionId conn fp ≠ 0) (r : SeedReadings) :
    ∃ (left : Xsr256State) (fp' : MiFparam Xsr256State), xoshiro256StarStar conn r fp =
        .returned ((reseededCall (sessionId conn fp) r).value, fp'.setfuncstate left) ∧
      left.xsrS = (next (seedWords (sessionId conn fp) r)).2 ∧ left.sid = sessionId conn fp := by
  obtain ⟨s, fp', hinit, hwords, hsid⟩ := initXsr256State_eq h r
  refine ⟨(advance s).2, fp', ?_, ?_, ?_⟩
  · rw [xoshiro256StarStar, hinit]
    simp [xoshiro256StarStarOn, advance_eq, hwords, reseededCall]
  · rw [advance_eq, hwords]
  · rw [advance_eq, hsid]

/-- A call keeps the session id. -/
theorem xoshiro256StarStar_session (h : sessionId conn fp ≠ 0) (r : SeedReadings) :
    ∃ fp', xoshiro256StarStar conn r fp =
        .returned ((reseededCall (sessionId conn fp) r).value, fp') ∧
      sessionId conn fp' = sessionId conn fp := by
  obtain ⟨left, fp', hcall, -, hsid⟩ := xoshiro256StarStar_eq h r
  refine ⟨_, hcall, ?_⟩
  change (if left.sid = 0 then conn.getD 0 else left.sid) = _
  rw [hsid, if_neg h]

theorem call_eq (h : sessionId conn fp ≠ 0) (r : SeedReadings) :
    ∃ fp', call conn r fp = .returned (reseededCall (sessionId conn fp) r, fp') ∧
      sessionId conn fp' = sessionId conn fp := by
  obtain ⟨s, _, hinit, hwords, _⟩ := initXsr256State_eq h r
  obtain ⟨left, fp', hcall, hleft, hsid⟩ := xoshiro256StarStar_eq h r
  refine ⟨fp'.setfuncstate left, ?_, ?_⟩
  · rw [call, hinit, Outcome.bind_returned, hcall]
    simp [hwords, hleft, reseededCall, MiFparam.setfuncstate]
  · change (if left.sid = 0 then conn.getD 0 else left.sid) = _
    rw [hsid, if_neg h]

theorem calls_eq (h : sessionId conn fp ≠ 0) (rs : List SeedReadings) :
    calls conn rs fp = .returned (rs.map (reseededCall (sessionId conn fp))) := by
  induction rs generalizing fp with
  | nil => rfl
  | cons r rs ih =>
      obtain ⟨fp', hcall, hsid⟩ := call_eq h r
      have hrest := ih (hsid ▸ h)
      rw [calls, hcall]
      simp only [Outcome.bind_returned, hrest, hsid, Outcome.map_returned, List.map_cons]

end Calls

/-! ## One stream -/

/-- The calls are one stream of the reference generator: their values are its outputs from the words
of the first call, a call starts from the words the call before it left, and with other readings
after the first call the values are the same. -/
structure OneStream (conn : Option UInt64) (fp : MiFparam Xsr256State) (rs : List SeedReadings)
    (cs : List Call) : Prop where
  outputs : ∀ c, cs.head? = some c →
    cs.map (fun c => c.value.toUInt64) = Orbit.outputs next c.started rs.length
  carried : ∀ i c c', cs[i]? = some c → cs[i + 1]? = some c' → c.left = some c'.started
  independent : ∀ rs', rs'.length = rs.length → rs'.head? = rs.head? →
    (calls conn rs' fp).map (List.map Call.value) = .returned (cs.map Call.value)

/-- The first output of a state that is seeded when the monotonic clock shows `ns`. -/
def firstOutput (sid ns : UInt64) : UInt64 := rotl (seedWord sid ns * 5) 7 * 9

theorem value_reseededCall (sid : UInt64) (r : SeedReadings) :
    (reseededCall sid r).value = (firstOutput sid (getClocktickNs r.monotonic)).toInt64 := rfl

theorem firstOutput_bijective (sid : UInt64) : Function.Bijective (firstOutput sid) := by
  refine Finite.injective_iff_bijective.mp fun m n h => ?_
  have hword : (⟨0, seedWord sid m, 0, 0⟩ : Words).s1 = (⟨0, seedWord sid n, 0, 0⟩ : Words).s1 :=
    next_output_inj h
  exact seedWord_inj hword

theorem reseededCall_value_inj {sid : UInt64} {r r' : SeedReadings}
    (h : (reseededCall sid r).value = (reseededCall sid r').value) :
    getClocktickNs r.monotonic = getClocktickNs r'.monotonic :=
  (firstOutput_bijective sid).injective (congrArg Int64.toUInt64 h)

def otherMonotonic (r : SeedReadings) : SeedReadings :=
  { r with monotonic := ⟨0, if getClocktickNs r.monotonic = 0 then 1 else 0⟩ }

theorem otherMonotonic_ne (r : SeedReadings) :
    getClocktickNs (otherMonotonic r).monotonic ≠ getClocktickNs r.monotonic := by
  have hother : getClocktickNs (otherMonotonic r).monotonic =
      getClocktickNs ⟨0, if getClocktickNs r.monotonic = 0 then 1 else 0⟩ := rfl
  rw [hother]
  by_cases h : getClocktickNs r.monotonic = 0
  · rw [h, if_pos rfl]
    decide
  · rw [if_neg h]
    exact fun h0 => h (h0.symm.trans (by decide))

section Stream

variable {conn : Option UInt64} {fp : MiFparam Xsr256State}

/-- The value of a second call follows its own reading of the monotonic clock. -/
theorem not_oneStream (h : sessionId conn fp ≠ 0) (r r' : SeedReadings) (rest : List SeedReadings) :
    ¬OneStream conn fp (r :: r' :: rest)
      ((r :: r' :: rest).map (reseededCall (sessionId conn fp))) := by
  intro hone
  have hvalues := hone.independent (r :: otherMonotonic r' :: rest) rfl rfl
  rw [calls_eq h] at hvalues
  simp only [Outcome.map_returned, List.map_cons, Outcome.returned.injEq,
    List.cons.injEq] at hvalues
  exact otherMonotonic_ne r' (reseededCall_value_inj hvalues.2.1)

theorem oneStream_nil (h : sessionId conn fp ≠ 0) : OneStream conn fp [] [] where
  outputs := by
    intro c hc
    cases hc
  carried := by
    intro i c c' hc
    simp at hc
  independent := by
    intro rs' hlen _
    rw [List.length_eq_zero_iff.mp hlen, calls_eq h]
    rfl

theorem oneStream_singleton (h : sessionId conn fp ≠ 0) (r : SeedReadings) :
    OneStream conn fp [r] [reseededCall (sessionId conn fp) r] where
  outputs := by
    intro c hc
    simp only [List.head?_cons, Option.some.injEq] at hc
    subst hc
    rfl
  carried := by
    intro i c c' _ hc'
    simp at hc'
  independent := by
    intro rs' hlen hhead
    obtain ⟨r', rfl⟩ := List.length_eq_one_iff.mp hlen
    simp only [List.head?_cons, Option.some.injEq] at hhead
    rw [hhead, calls_eq h]
    rfl

end Stream

/-- The calls are one stream exactly if there is at most one: every further call is seeded anew. -/
theorem oneStream_iff (conn : Option UInt64) (fp : MiFparam Xsr256State) (rs : List SeedReadings)
    (h : sessionId conn fp ≠ 0) :
    (∃ cs, calls conn rs fp = .returned cs ∧ OneStream conn fp rs cs) ↔ rs.length ≤ 1 := by
  match rs with
  | [] => exact iff_of_true ⟨[], rfl, oneStream_nil h⟩ (by simp)
  | [r] => exact iff_of_true ⟨_, calls_eq h [r], oneStream_singleton h r⟩ (by simp)
  | r :: r' :: rest =>
      refine iff_of_false ?_ (by simp)
      rintro ⟨cs, hcs, hone⟩
      rw [calls_eq h, Outcome.returned.injEq] at hcs
      exact not_oneStream h r r' rest (hcs ▸ hone)

def readingsAt (s : Int64) : SeedReadings := ⟨⟨s, 0⟩, ⟨s, 0⟩, ⟨s, 0⟩, ⟨s, 0⟩⟩

theorem oneStream_iff_first_call :
    (∃ cs, calls (some 7) [readingsAt 5] (.fresh (fun _ => true) none) = .returned cs ∧
      OneStream (some 7) (.fresh (fun _ => true) none) [readingsAt 5] cs) ↔
        [readingsAt 5].length ≤ 1 :=
  oneStream_iff (some 7) (.fresh (fun _ => true) none) [readingsAt 5] (by decide)

/-- Two calls in which no clock moves return the same value twice. -/
theorem oneStream_fails_on_two_calls :
    ¬∃ cs, calls (some 7) [readingsAt 5, readingsAt 5] (.fresh (fun _ => true) none) =
      .returned cs ∧
        OneStream (some 7) (.fresh (fun _ => true) none) [readingsAt 5, readingsAt 5] cs := by
  rintro ⟨cs, hcs, hone⟩
  rw [calls_eq (by decide)] at hcs
  cases hcs
  have houtputs := hone.outputs _ rfl
  revert houtputs
  decide

end UdrPak.Prng
