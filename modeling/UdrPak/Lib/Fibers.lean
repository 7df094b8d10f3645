import Mathlib.Data.Set.Card
import Mathlib.Data.Set.Finite.Range
import Mathlib.Logic.Equiv.Fin.Basic
import Mathlib.SetTheory.Cardinal.Finite

/-!
# Maps with fibres of one size

Such a map spreads its arguments evenly over its values. Maps are even together, and behind a
bijection.
-/

namespace Fibers

variable {α β γ δ : Type} {f : α → β} {g : γ → δ} {c d : Nat}

/-- Each value has `c` arguments. -/
def Even (f : α → β) (c : Nat) : Prop := ∀ a, Nat.card {x // f x = f a} = c

namespace Even

/-- The fibres only depend on which arguments have the same value. -/
theorem congr (h : Even f c) {f' : α → δ} (hker : ∀ a b, f a = f b ↔ f' a = f' b) :
    Even f' c := by
  intro a
  rw [← h a]
  exact Nat.card_congr (Equiv.subtypeEquivRight fun x => (hker x a).symm)

theorem comp_bijective (h : Even f c) {e : γ → α} (he : Function.Bijective e) :
    Even (f ∘ e) c := by
  intro a
  rw [← h (e a)]
  exact Nat.card_congr
    ((Equiv.ofBijective e he).subtypeEquiv (p := fun x => f (e x) = f (e a)) fun _ => Iff.rfl)

theorem prodMap (h : Even f c) (h' : Even g d) : Even (Prod.map f g) (c * d) := by
  rintro ⟨a, b⟩
  have hpair : ∀ x : α × γ, Prod.map f g x = Prod.map f g (a, b) ↔ f x.1 = f a ∧ g x.2 = g b :=
    fun _ => Prod.ext_iff
  rw [← h a, ← h' b, ← Nat.card_prod]
  exact Nat.card_congr ((Equiv.subtypeEquivRight hpair).trans
    (Equiv.subtypeProdEquivProd (p := fun x => f x = f a) (q := fun x => g x = g b)))

/-- The arguments of a value, with one argument left out. -/
theorem card_ne_and [Finite α] [DecidableEq β] (h : Even f c) (hsurj : Function.Surjective f)
    (z : α) (v : β) :
    Nat.card {x // x ≠ z ∧ f x = v} = if v = f z then c - 1 else c := by
  obtain ⟨a, rfl⟩ := hsurj v
  have hset : {x | x ≠ z ∧ f x = f a} = {x | f x = f a} \ {z} := by
    ext x
    simp [and_comm]
  have hcount : {x | f x = f a}.ncard = c := h a
  change Set.ncard {x | x ≠ z ∧ f x = f a} = _
  rw [hset]
  split
  · rename_i heq
    have hmem : z ∈ {x | f x = f a} := heq.symm
    rw [Set.ncard_sdiff_singleton_of_mem hmem, hcount]
  · rename_i hne
    have hmem : z ∉ {x | f x = f a} := fun hz => hne hz.symm
    rw [Set.sdiff_singleton_eq_self hmem, hcount]

theorem card_range [Finite α] (h : Even f c) : Nat.card α = Nat.card (Set.range f) * c := by
  classical
  have := Fintype.ofFinite (Set.range f)
  have hfibre : ∀ y : Set.range f, Nat.card {x // Set.rangeFactorization f x = y} = c := by
    rintro ⟨-, a, rfl⟩
    rw [← h a]
    exact Nat.card_congr (Equiv.subtypeEquivRight fun x => Subtype.ext_iff)
  rw [← Nat.card_congr (Equiv.sigmaFiberEquiv (Set.rangeFactorization f)), Nat.card_sigma]
  simp [hfibre, Nat.card_eq_fintype_card]

end Even

/-! ## Projections -/

theorem even_snd {α β : Type} : Even (Prod.snd : α × β → β) (Nat.card α) := by
  intro a
  let e : {x : α × β // x.2 = a.2} ≃ α :=
    ⟨fun x => x.1.1, fun b => ⟨(b, a.2), rfl⟩, fun x => Subtype.ext (Prod.ext rfl x.2.symm),
      fun _ => rfl⟩
  exact Nat.card_congr e

/-! ## Residues -/

theorem even_mod {m n : Nat} : Even (fun x : Fin (n * m) => x.val % m) n := by
  have hsnd : Even (Prod.snd : Fin n × Fin m → Fin m) n := by
    simpa using @even_snd (Fin n) (Fin m)
  refine (hsnd.comp_bijective finProdFinEquiv.symm.bijective).congr fun a b => ?_
  simp only [Function.comp_apply, finProdFinEquiv_symm_apply, Fin.ext_iff, Fin.coe_modNat]

end Fibers
