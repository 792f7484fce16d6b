import Mathlib.Data.List.Dedup
import TableReplica.Proofs.CanonicalSet
import TableReplica.Proofs.Fallible
import TableReplica.Model.Codec

/-!
# Sorted lists without repeats

What is read from the set of some items is what would be read from the items themselves, sorted and without repeats
(`Value.mapM_canonicalItems`).
-/

namespace TableReplica

section SortedDistinct

variable {α : Type} [DecidableEq α] [LE α] [LT α] [DecidableLE α] [Std.IsLinearOrder α] [Std.LawfulOrderLT α]

/-- The items in ascending order, each of them once. -/
def sortedDistinct {α : Type} [DecidableEq α] [LE α] [DecidableLE α] (items : List α) : List α :=
  items.dedup.mergeSort (fun a b => decide (a ≤ b))

omit [LT α] [Std.IsLinearOrder α] [Std.LawfulOrderLT α] in
/-- Sorting and dropping repeats loses no item. -/
theorem mem_sortedDistinct (items : List α) (a : α) : a ∈ sortedDistinct items ↔ a ∈ items := by
  rw [sortedDistinct, List.mem_mergeSort, List.mem_dedup]

omit [LT α] [Std.IsLinearOrder α] [Std.LawfulOrderLT α] in
theorem nodup_sortedDistinct (items : List α) : (sortedDistinct items).Nodup :=
  (List.mergeSort_perm _ _).nodup_iff.mpr (List.nodup_dedup items)

omit [LT α] [Std.LawfulOrderLT α] in
/-- What is sorted ascends. -/
theorem pairwise_sortedDistinct (items : List α) : (sortedDistinct items).Pairwise (· ≤ ·) := by
  have htrans : ∀ a b c : α, decide (a ≤ b) = true → decide (b ≤ c) = true → decide (a ≤ c) = true := by
    intro a b c hab hbc
    exact decide_eq_true (Std.le_trans (of_decide_eq_true hab) (of_decide_eq_true hbc))
  have htotal : ∀ a b : α, (decide (a ≤ b) || decide (b ≤ a)) = true := by
    intro a b
    rcases Std.le_total (a := a) (b := b) with h | h <;> simp [h]
  exact (List.pairwise_mergeSort htrans htotal items.dedup).imp of_decide_eq_true

/-- There is one strictly ascending list of given members. -/
theorem eq_sortedDistinct {ascending items : List α} (hlt : ascending.Pairwise (· < ·)) (hmem : ∀ a, a ∈ ascending ↔ a ∈ items) :
    ascending = sortedDistinct items := by
  have hnodup : ascending.Nodup := hlt.imp Std.ne_of_lt
  have hperm : ascending.Perm (sortedDistinct items) :=
    (List.perm_ext_iff_of_nodup hnodup (nodup_sortedDistinct items)).mpr (fun a => (hmem a).trans (mem_sortedDistinct items a).symm)
  exact hperm.eq_of_pairwise (fun _ _ _ _ hab hba => Std.le_antisymm hab hba) (hlt.imp Std.le_of_lt) (pairwise_sortedDistinct items)

omit [DecidableEq α] [LE α] [DecidableLE α] [Std.IsLinearOrder α] [Std.LawfulOrderLT α] in
/-- What is read from ascending items ascends, if reading respects the order. -/
theorem Value.pairwise_mapM {read : Value → Option α}
    (horder : ∀ v w a b, read v = some a → read w = some b → order v w = .lt → a < b) {items : List Value} {results : List α}
    (hasc : Ascending items) (h : items.mapM read = some results) : results.Pairwise (· < ·) := by
  have hread : (items.map read).Pairwise (fun x y => ∀ a b, x = some a → y = some b → a < b) := by
    rw [List.pairwise_map]
    exact hasc.imp (fun {v w} hvw a b ha hb => horder v w a b ha hb hvw)
  rw [mapM_eq_some_iff.mp h, List.pairwise_map] at hread
  exact hread.imp (fun {a b} hab => hab a b rfl rfl)

/-- From the set of some items is read what would be read from the items, sorted and without repeats. -/
theorem Value.mapM_canonicalItems {read : Value → Option α}
    (horder : ∀ v w a b, read v = some a → read w = some b → order v w = .lt → a < b) {items : List Value} {results : List α}
    (hd : ∀ item ∈ items, item.Definite) (h : items.mapM read = some results) :
    (canonicalItems items).mapM read = some (sortedDistinct results) := by
  have hsome : ∀ v ∈ canonicalItems items, ∃ a, read v = some a := by
    intro v hv
    have hmem : read v ∈ items.map read := List.mem_map_of_mem ((mem_canonicalItems hd v).mp hv)
    rw [mapM_eq_some_iff.mp h, List.mem_map] at hmem
    obtain ⟨a, -, ha⟩ := hmem
    exact ⟨a, ha.symm⟩
  obtain ⟨ascending, hascending⟩ := exists_mapM_eq_some hsome
  rw [hascending]
  congr 1
  apply eq_sortedDistinct (Value.pairwise_mapM horder (ascending_canonicalItems hd) hascending)
  intro a
  rw [mem_of_mapM_eq_some hascending, mem_of_mapM_eq_some h]
  simp only [mem_canonicalItems hd]

end SortedDistinct

end TableReplica
