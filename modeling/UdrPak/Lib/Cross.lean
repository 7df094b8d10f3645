import Mathlib.Algebra.BigOperators.Group.List.Basic
import Mathlib.Algebra.Group.Action.Defs
import Mathlib.Data.List.Nodup

/-!
# Products of lists

All the ways to take one element from each of several lists, in the order of nested loops.
-/

namespace Cross

variable {α : Type}

def cross : List (List α) → List (List α)
  | [] => [[]]
  | as :: rest => as.flatMap fun a => (cross rest).map (a :: ·)

variable {as : List α} {rest rows : List (List α)} {row : List α}

theorem mem_cross_iff : row ∈ cross rows ↔ List.Forall₂ (· ∈ ·) row rows := by
  induction rows generalizing row with
  | nil => simp [cross]
  | cons as rest ih =>
      simp only [cross, List.mem_flatMap, List.mem_map, ih, List.forall₂_cons_right_iff]
      constructor
      · rintro ⟨a, ha, row, hrow, rfl⟩
        exact ⟨a, row, ha, hrow, rfl⟩
      · rintro ⟨a, row, ha, hrow, rfl⟩
        exact ⟨a, ha, row, hrow, rfl⟩

theorem length_cross : (cross rows).length = (rows.map List.length).prod := by
  induction rows with
  | nil => rfl
  | cons as rest ih =>
      simp only [cross, List.length_flatMap, List.length_map, ih, List.map_const', List.map_cons,
        List.prod_cons, List.sum_replicate, smul_eq_mul]

theorem nodup_cross (h : ∀ as ∈ rows, as.Nodup) : (cross rows).Nodup := by
  induction rows with
  | nil => simp [cross]
  | cons as rest ih =>
      obtain ⟨has, hrest⟩ := List.forall_mem_cons.mp h
      rw [cross, List.nodup_flatMap]
      constructor
      · intro a _
        exact (ih hrest).map (List.cons_injective)
      · refine has.imp fun hne => List.disjoint_left.mpr fun row hrow hrow' => ?_
        obtain ⟨_, _, rfl⟩ := List.mem_map.mp hrow
        obtain ⟨_, _, heq⟩ := List.mem_map.mp hrow'
        exact hne (List.cons.inj heq).1.symm

end Cross
