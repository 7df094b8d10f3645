import UdrPak.Host.Join
import UdrPak.Seq.CallTheorems

/-!
# Cross joins of `seq`

A sequence that is gone through again gives the same numbers, so that a cross join gives every
combination once.
-/

namespace UdrPak.Seq

open Cross Host

/-- One `table(seq(..))` of a query. -/
structure SeqTable where
  argisnull : Nat → Bool
  args : SeqArgs

def SeqTable.udr (t : SeqTable) : Udr IntSeq Int32 := seqUdr t.args

/-- The numbers of the table by itself. -/
def SeqTable.Gives (t : SeqTable) (rows : List (Option Int32)) : Prop :=
  Rows t.udr (fun _ => false) (.fresh t.argisnull none) rows

/-- The `MI_FPARAM` of the table, whatever an earlier scan has left in it. -/
def SeqTable.Owns (t : SeqTable) (fp : MiFparam IntSeq) : Prop := fp.argisnull = t.argisnull

def SeqTable.table (t : SeqTable) : Table IntSeq Int32 := ⟨t.udr, t.Owns⟩

theorem argisnull_getFuncStatePtr (fp : MiFparam IntSeq) :
    (getFuncStatePtr IntSeq.zeroed fp).2.argisnull = fp.argisnull := by
  rw [getFuncStatePtr]
  split <;> rfl

theorem argisnull_seqInt (args : SeqArgs) (interrupted : Bool) (fp : MiFparam IntSeq) :
    (seqUdr args interrupted fp).2.argisnull = fp.argisnull := by
  rw [seqUdr, seqInt]
  cases fp.request with
  | setInit =>
      simp only [seqIntInit_setUp]
      split_ifs <;> rfl
  | setRetone =>
      simp only
      split_ifs
      · rfl
      · exact argisnull_getFuncStatePtr fp
      · exact argisnull_getFuncStatePtr fp
      · exact argisnull_getFuncStatePtr fp
  | setEnd => rfl
  | setInvalid => rfl

theorem SeqTable.Gives.table {t : SeqTable} {rows : List (Option Int32)} (h : t.Gives rows) :
    t.table.Gives rows where
  rows fp hfp := by
    have hfresh : Rows (seqUdr t.args) (fun _ => false) (.fresh fp.argisnull fp.funcstate) rows := by
      rw [hfp]
      exact rows_prior.mp h
    exact hfresh
  keeps fp r i hfp := (argisnull_seqInt t.args i (fp.call r)).trans hfp
  interruptible := interruptible_seqInt _ _ _

theorem SeqTable.Gives.nodup {t : SeqTable} {rows : List (Option Int32)} (h : t.Gives rows) :
    rows.Nodup := by
  have hrows := rows_seqInt_iff.mp h
  split at hrows
  · rw [hrows]
    exact .nil
  · exact (IntSeq.nodup_of_fetches hrows).1

theorem nodup_of_gives {tables : List SeqTable} {rowss : List (List (Option Int32))}
    (h : List.Forall₂ SeqTable.Gives tables rowss) : ∀ rows ∈ rowss, rows.Nodup := by
  induction h with
  | nil => exact fun rows hrows => nomatch hrows
  | cons hgives _ ih => exact List.forall_mem_cons.mpr ⟨hgives.nodup, ih⟩

theorem join_seq_yields {interrupts : Nat → Bool} (hlast : Lasting interrupts)
    {tables : List SeqTable} {rowss : List (List (Option Int32))}
    (h : List.Forall₂ SeqTable.Gives tables rowss) :
    Yields interrupts (Join interrupts (tables.map SeqTable.udr))
      (List.Forall₂ SeqTable.Owns tables) (cross rowss) := by
  have hjoin := @join_yields _ _ _ hlast (tables.map SeqTable.table) rowss
    (List.forall₂_map_left_iff.mpr (h.imp fun _ _ hgives => hgives.table))
  have hadmits : List.Forall₂ Table.admits (tables.map SeqTable.table) =
      List.Forall₂ SeqTable.Owns tables :=
    funext fun _ => propext List.forall₂_map_left_iff
  rw [List.map_map, hadmits] at hjoin
  exact hjoin

/-- Whatever earlier scans have left, a cross join of tables of `seq` that end gives the product of
their numbers: every combination once, in the order of nested loops. An interrupt that lasts cuts
these rows off. -/
theorem crossJoin_rows (tables : List SeqTable) (rowss : List (List (Option Int32)))
    (h : List.Forall₂ SeqTable.Gives tables rowss) :
    (∀ k fps, List.Forall₂ SeqTable.Owns tables fps → ∀ rows,
      (∃ k' fps', Join (fun _ => false) (tables.map SeqTable.udr) k fps rows k' fps') ↔
        rows = cross rowss) ∧
    (∀ interrupts, Lasting interrupts → ∀ k fps, List.Forall₂ SeqTable.Owns tables fps →
      (∃ rows k' fps', Join interrupts (tables.map SeqTable.udr) k fps rows k' fps') ∧
        ∀ rows k' fps', Join interrupts (tables.map SeqTable.udr) k fps rows k' fps' →
          rows <+: cross rowss ∧ (rows = cross rowss ∨ interrupts k' = true)) ∧
    (cross rowss).Nodup ∧ (cross rowss).length = (rowss.map List.length).prod ∧
      ∀ row, row ∈ cross rowss ↔ List.Forall₂ (· ∈ ·) row rowss := by
  refine ⟨fun k fps hfps rows => ?_, fun interrupts hlast k fps hfps => ⟨?_, ?_⟩,
    nodup_cross (nodup_of_gives h), length_cross, fun _ => mem_cross_iff⟩
  · have hnone : Lasting fun _ => false := fun _ hk => hk
    have hyields := join_seq_yields hnone h
    have honly : ∀ rows k' fps',
        Join (fun _ => false) (tables.map SeqTable.udr) k fps rows k' fps' → rows = cross rowss :=
      fun rows k' fps' hjoin =>
        (hyields.only k fps rows k' fps' hfps hjoin).2.2.resolve_right Bool.false_ne_true
    constructor
    · rintro ⟨k', fps', hjoin⟩
      exact honly rows k' fps' hjoin
    · rintro rfl
      obtain ⟨rows, k', fps', hjoin⟩ := hyields.total k fps hfps
      obtain rfl := honly rows k' fps' hjoin
      exact ⟨k', fps', hjoin⟩
  · exact (join_seq_yields hlast h).total k fps hfps
  · exact fun rows k' fps' hjoin =>
      ((join_seq_yields hlast h).only k fps rows k' fps' hfps hjoin).2

/-- `seq(1, 1, 3)` and `seq(-2)`: four combinations, also after other scans. -/
theorem crossJoin_rows_two :
    let tables : List SeqTable := [⟨fun _ => false, 1, 1, 3⟩, ⟨fun k => k != 0, -2, 0, 0⟩]
    let rowss : List (List (Option Int32)) := [[some 1, some 2], [some 0, some (-1)]]
    (∀ k fps, List.Forall₂ SeqTable.Owns tables fps → ∀ rows,
      (∃ k' fps', Join (fun _ => false) (tables.map SeqTable.udr) k fps rows k' fps') ↔
        rows = cross rowss) ∧
    (∀ interrupts, Lasting interrupts → ∀ k fps, List.Forall₂ SeqTable.Owns tables fps →
      (∃ rows k' fps', Join interrupts (tables.map SeqTable.udr) k fps rows k' fps') ∧
        ∀ rows k' fps', Join interrupts (tables.map SeqTable.udr) k fps rows k' fps' →
          rows <+: cross rowss ∧ (rows = cross rowss ∨ interrupts k' = true)) ∧
    (cross rowss).Nodup ∧ (cross rowss).length = (rowss.map List.length).prod ∧
      ∀ row, row ∈ cross rowss ↔ List.Forall₂ (· ∈ ·) row rowss := by
  refine crossJoin_rows _ _ (.cons ?_ (.cons ?_ .nil))
  · exact rows_seqInt_iff.mpr (.row rfl (.row rfl (.done rfl)))
  · exact rows_seqInt_iff.mpr (.row rfl (.row rfl (.done rfl)))

end UdrPak.Seq
