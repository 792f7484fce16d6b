import TableReplica.Proofs.Told

/-!
# Replicas that mirror tables

A replica mirrors the tables of a server when each table it knows holds what it keeps of the server's rows, up to the signs of zeros
(`Replica.Mirrors`). A replica that has heard of nothing mirrors a server without tables, and taking in what a commit tells leads
from the tables before the commit to those after it (`Replica.Mirrors.takeIn`).
-/

namespace TableReplica

/-- The known tables hold what is kept of the rows, up to the signs of zeros. -/
def Replica.Mirrors (r : Replica) (tables : Tables) : Prop :=
  ∀ table id, r.cache.knows table = true →
    (r.cache.row? table id).map Row.positiveZeros =
      (((tables.rows table).get? id).bind (r.schema.kept table)).map Row.positiveZeros

/-- The cache in which tables are subscribed and nothing has been heard of. -/
def Cache.awaiting (tables : List String) : Cache := tables.foldl subscribe empty

/-- The same tables have the same rows, one by one. -/
theorem Tables.Same.get? {a b : Tables} (h : Same a b) (table : String) (id : RowId) :
    ((a.rows table).get? id).map Row.positiveZeros = ((b.rows table).get? id).map Row.positiveZeros := by
  rw [← RowMap.get?_positiveZeros, h table, RowMap.get?_positiveZeros]

/-- What is kept in the place of a row is settled, up to the signs of zeros, by what stands there up to the signs of its zeros. -/
theorem Schema.bind_kept_congr (s : Schema) (table : String) {old new : Option Row}
    (h : old.map Row.positiveZeros = new.map Row.positiveZeros) :
    (old.bind (s.kept table)).map Row.positiveZeros = (new.bind (s.kept table)).map Row.positiveZeros := by
  cases old with
  | none =>
    cases new with
    | none => rfl
    | some new => cases h
  | some old =>
    cases new with
    | none => cases h
    | some new => exact kept_congr s table (Option.some.inj h)

namespace Cache

/-- After some subscriptions their tables are known, and those that were. -/
theorem knows_foldl_subscribe (c : Cache) (tables : List String) (table : String) :
    (tables.foldl subscribe c).knows table = (decide (table ∈ tables) || c.knows table) := by
  induction tables generalizing c with
  | nil => simp
  | cons t rest ih =>
    rw [List.foldl_cons, ih, knows_subscribe]
    by_cases ht : t = table
    · subst ht
      simp
    · simp [ht, Ne.symm ht]

theorem row?_foldl_subscribe (c : Cache) (tables : List String) (table : String) (id : RowId) :
    (tables.foldl subscribe c).row? table id = c.row? table id := by
  induction tables generalizing c with
  | nil => rfl
  | cons t rest ih => rw [List.foldl_cons, ih, row?_subscribe]

/-- Before anything is told, the subscribed tables are known, and no other. -/
theorem knows_awaiting (tables : List String) (table : String) : (awaiting tables).knows table = decide (table ∈ tables) := by
  rw [awaiting, knows_foldl_subscribe]
  exact Bool.or_false _

/-- Before anything is told, there are no rows. -/
theorem row?_awaiting (tables : List String) (table : String) (id : RowId) : (awaiting tables).row? table id = none :=
  row?_foldl_subscribe empty tables table id

end Cache

namespace Replica

/-- A replica that has been told nothing mirrors tables without rows. -/
theorem mirrors_awaiting (notifier : Notifier) (tables : List String) : Mirrors ⟨notifier, .awaiting tables⟩ ∅ := by
  intro table id _
  rw [Cache.row?_awaiting]
  rfl

theorem schema_takeIn (r : Replica) (batch : ChangeBatch) : (r.takeIn batch).replica.schema = r.schema := by
  rw [schema, schema, notifier_takeIn]

/-- The tables that are mirrored may be exchanged for the same ones. -/
theorem Mirrors.congr {r : Replica} {a b : Tables} (h : r.Mirrors a) (hab : Tables.Same a b) : r.Mirrors b := by
  intro table id hk
  rw [h table id hk]
  exact r.schema.bind_kept_congr table (hab.get? table id)

/-- What a commit tells leads from the tables before it to those after it. -/
theorem Mirrors.takeIn {r : Replica} {before after : Tables} (h : r.Mirrors before) :
    (r.takeIn (.between before after)).replica.Mirrors after := by
  intro table id hk
  rw [knows_takeIn] at hk
  rw [schema_takeIn, row?_takeIn_between r before after hk]
  split
  · rfl
  · rename_i huntold
    have hunchanged := RowChange.positiveZeros_eq_of_told_eq_none (Option.not_isSome_iff_eq_none.mp huntold)
    rw [h table id hk]
    exact r.schema.bind_kept_congr table hunchanged

/-- A mirror shows every known table whole. -/
theorem Mirrors.rows {r : Replica} {tables : Tables} (h : r.Mirrors tables) (table : String) :
    (r.cache.tables.get? table).map RowMap.positiveZeros =
      if r.cache.knows table = true then some (r.schema.keptRows table (tables.rows table)).positiveZeros else none := by
  cases hc : r.cache.tables.get? table with
  | none =>
    have hk : r.cache.knows table = false := by rw [Cache.knows, SortedMap.contains, hc]; rfl
    rw [hk]
    rfl
  | some rows =>
    have hk : r.cache.knows table = true := (Cache.knows_iff r.cache table).mpr ⟨rows, hc⟩
    rw [if_pos hk, Option.map_some]
    congr 1
    apply SortedMap.ext_get?
    intro id
    have hrow : r.cache.row? table id = rows.get? id := by rw [Cache.row?_eq_bind, hc, Option.bind_some]
    rw [RowMap.get?_positiveZeros, RowMap.get?_positiveZeros, Schema.get?_keptRows, ← hrow]
    exact h table id hk

end Replica

end TableReplica
