import Mathlib.Dynamics.PeriodicPts.Lemmas
import UdrPak.Lib.Primality

/-!
# Orbits

A step returns an output and the next state. The outputs of `n` steps are one stream if every step
starts from the state the step before it left.
-/

namespace Orbit

variable {σ α : Type} (step : σ → α × σ)

def outputs (s : σ) : Nat → List α
  | 0 => []
  | n + 1 => (step s).1 :: outputs (step s).2 n

/-- The state after `n` steps. -/
def after (s : σ) (n : Nat) : σ := (fun s => (step s).2)^[n] s

variable {step}

/-- A view of the states that follows the steps follows the orbit. -/
theorem view_after {τ β : Type} {step' : τ → β × τ} {view : σ → τ}
    (h : ∀ s, view (step s).2 = (step' (view s)).2) (s : σ) (n : Nat) :
    view (after step s n) = after step' (view s) n := by
  have hsemi : Function.Semiconj view (fun s => (step s).2) fun t => (step' t).2 := h
  exact hsemi.iterate_right n s

/-- If no two states have the same next state, no orbit runs into a state that is its own next
state. -/
theorem after_ne_of_fixed (hinj : Function.Injective fun s => (step s).2) {z s : σ}
    (hz : (step z).2 = z) (h : s ≠ z) (n : Nat) : after step s n ≠ z := by
  intro heq
  have hstays : after step z n = z := Function.iterate_fixed hz n
  exact h (hinj.iterate n (heq.trans hstays.symm))

theorem outputs_of_fixed {z : σ} (hz : (step z).2 = z) (n : Nat) :
    outputs step z n = List.replicate n (step z).1 := by
  induction n with
  | zero => rfl
  | succ n ih => rw [outputs, hz, ih, List.replicate_succ]

/-! ## Cycles -/

section Cycle

open Function

variable {f : σ → σ}

/-- A number of steps that leads back is the least one if no prime factor can be left out of it. -/
theorem minimalPeriod_eq {x : σ} {n : Nat} {qs : List Nat} (hprod : qs.prod = n)
    (hprime : ∀ q ∈ qs, q.Prime) (hback : f^[n] x = x) (hfactor : ∀ q ∈ qs, f^[n / q] x ≠ x) :
    minimalPeriod f x = n := by
  have hperiodic : IsPeriodicPt f n x := hback
  obtain ⟨c, hc⟩ := hperiodic.minimalPeriod_dvd
  by_contra hne
  have hc1 : c ≠ 1 := by
    rintro rfl
    exact hne (by omega)
  obtain ⟨q, hq, d, rfl⟩ := Nat.exists_prime_and_dvd hc1
  have hn : n = minimalPeriod f x * d * q := by
    rw [hc]
    ring
  have hmem : q ∈ qs := Primality.mem_of_dvd_prod hprod hprime hq ⟨_, hn.trans (Nat.mul_comm _ _)⟩
  have hquot : n / q = minimalPeriod f x * d := Nat.div_eq_of_eq_mul_left hq.pos hn
  have hleft : IsPeriodicPt f (n / q) x := by
    rw [isPeriodicPt_iff_minimalPeriod_dvd, hquot]
    exact Nat.dvd_mul_right _ _
  exact hfactor q hmem hleft

/-- Apart from one fixed state, all states are on one cycle. -/
structure SingleCycle (f : σ → σ) (z : σ) (n : Nat) : Prop where
  fixed : f z = z
  pos : 0 < n
  period : ∀ x, x ≠ z → minimalPeriod f x = n
  reaches : ∀ x y, x ≠ z → y ≠ z → ∃ k < n, f^[k] x = y

/-- The orbit of one state is the cycle if only the fixed state is missing in it. -/
theorem singleCycle_of_card [Finite σ] {z x : σ} (hinj : Injective f) (hz : f z = z) (hx : x ≠ z)
    (hpos : 0 < minimalPeriod f x) (hcard : Nat.card σ = minimalPeriod f x + 1) :
    SingleCycle f z (minimalPeriod f x) := by
  classical
  have := Fintype.ofFinite σ
  have havoids : ∀ k, f^[k] x ≠ z := by
    intro k heq
    have hstays : f^[k] z = z := iterate_fixed hz k
    exact hx (hinj.iterate k (heq.trans hstays.symm))
  have hfrom : ∀ y, y ≠ z → ∃ k < minimalPeriod f x, f^[k] x = y := by
    have hsub : (Finset.range (minimalPeriod f x)).image (f^[·] x) ⊆ Finset.univ.erase z := by
      intro y hy
      obtain ⟨k, -, rfl⟩ := Finset.mem_image.mp hy
      exact Finset.mem_erase.mpr ⟨havoids k, Finset.mem_univ _⟩
    have hinjOn : Set.InjOn (f^[·] x) (Finset.range (minimalPeriod f x)) := by
      rw [Finset.coe_range]
      exact iterate_injOn_Iio_minimalPeriod
    have hle : (Finset.univ.erase z).card ≤
        ((Finset.range (minimalPeriod f x)).image (f^[·] x)).card := by
      rw [Finset.card_image_of_injOn hinjOn, Finset.card_range,
        Finset.card_erase_of_mem (Finset.mem_univ z), Finset.card_univ, ← Nat.card_eq_fintype_card,
        hcard, Nat.add_sub_cancel]
    intro y hy
    have hmem : y ∈ (Finset.range (minimalPeriod f x)).image (f^[·] x) := by
      rw [Finset.eq_of_subset_of_card_le hsub hle]
      exact Finset.mem_erase.mpr ⟨hy, Finset.mem_univ y⟩
    obtain ⟨k, hk, hky⟩ := Finset.mem_image.mp hmem
    exact ⟨k, Finset.mem_range.mp hk, hky⟩
  have hperiodic : x ∈ periodicPts f := minimalPeriod_pos_iff_mem_periodicPts.mp hpos
  refine ⟨hz, hpos, fun y hy => ?_, fun y y' hy hy' => ?_⟩
  · obtain ⟨k, -, rfl⟩ := hfrom y hy
    exact minimalPeriod_apply_iterate hperiodic k
  · obtain ⟨k, hk, rfl⟩ := hfrom y hy
    obtain ⟨k', hk', rfl⟩ := hfrom y' hy'
    -- the rest of the turn leads from the one state back to the start
    refine ⟨(minimalPeriod f x - k + k') % minimalPeriod f x, Nat.mod_lt _ hpos, ?_⟩
    have hturn : minimalPeriod f x - k + k' + k = k' + minimalPeriod f x := by omega
    rw [← minimalPeriod_apply_iterate hperiodic k, iterate_mod_minimalPeriod_eq,
      minimalPeriod_apply_iterate hperiodic k, ← iterate_add_apply, hturn,
      iterate_add_minimalPeriod_eq]

section SingleCycle

variable {z : σ} {n : Nat}

theorem SingleCycle.iterate_eq_iff (h : SingleCycle f z n) {x : σ} (hx : x ≠ z) (a b : Nat) :
    f^[a] x = f^[b] x ↔ a % n = b % n := by
  have hperiod := h.period x hx
  have hmod : ∀ k, f^[k % n] x = f^[k] x := fun k => by
    rw [← hperiod]
    exact iterate_mod_minimalPeriod_eq
  have hlt : ∀ k, k % n < minimalPeriod f x := fun k => by
    rw [hperiod]
    exact Nat.mod_lt k h.pos
  rw [← hmod a, ← hmod b]
  exact iterate_eq_iterate_iff_of_lt_minimalPeriod (hlt a) (hlt b)

theorem SingleCycle.existsUnique (h : SingleCycle f z n) {x y : σ} (hx : x ≠ z) (hy : y ≠ z) :
    ∃! k, k < n ∧ f^[k] x = y := by
  obtain ⟨k, hk, hky⟩ := h.reaches x y hx hy
  refine ⟨k, ⟨hk, hky⟩, fun l hl => ?_⟩
  have hmod := (h.iterate_eq_iff hx l k).mp (hl.2.trans hky.symm)
  rwa [Nat.mod_eq_of_lt hl.1, Nat.mod_eq_of_lt hk] at hmod

theorem SingleCycle.iterate_ne (h : SingleCycle f z n) {x : σ} (hx : x ≠ z) (k : Nat) :
    f^[k] x ≠ z := by
  intro hk
  have hle : k ≤ (k + 1) * n := by
    calc k ≤ k + 1 := Nat.le_succ k
      _ ≤ (k + 1) * n := Nat.le_mul_of_pos_right _ h.pos
  have hback : f^[(k + 1) * n] x = x := by
    have hmod := (h.iterate_eq_iff hx ((k + 1) * n) 0).mpr
      (by rw [Nat.mul_mod_left, Nat.zero_mod])
    exact hmod
  rw [← Nat.sub_add_cancel hle, iterate_add_apply, hk, iterate_fixed h.fixed] at hback
  exact hx hback.symm

/-- In one turn of the cycle, a property is met as often as there are states with it. -/
theorem SingleCycle.card_visits (h : SingleCycle f z n) {x : σ} (hx : x ≠ z) (p : σ → Prop) :
    Nat.card {k : Fin n // p (f^[k] x)} = Nat.card {y // y ≠ z ∧ p y} := by
  refine Nat.card_eq_of_bijective
    (fun k => (⟨f^[k.1] x, h.iterate_ne hx k.1, k.2⟩ : {y // y ≠ z ∧ p y})) ⟨?_, ?_⟩
  · intro a b hab
    have hmod := (h.iterate_eq_iff hx a.1 b.1).mp (congrArg Subtype.val hab)
    rw [Nat.mod_eq_of_lt a.1.isLt, Nat.mod_eq_of_lt b.1.isLt] at hmod
    exact Subtype.ext (Fin.ext hmod)
  · rintro ⟨y, hy, hpy⟩
    obtain ⟨k, hk, rfl⟩ := h.reaches x y hx hy
    exact ⟨⟨⟨k, hk⟩, hpy⟩, rfl⟩

end SingleCycle

end Cycle

end Orbit
