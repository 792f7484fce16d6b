import TableReplica.Proofs.CacheChanges
import TableReplica.Server.Basic

/-!
# What a commit tells

Of each row a commit tells at most one change, and what it tells is settled by the states of the row before and after it
(`RowChange.lastOf_between`). A replica that takes the batch in keeps the new state of every row of which something was told
(`Replica.row?_takeIn_between`); a commit that tells nothing turned no more than signs of zeros (`Tables.same_of_isEmpty_between`).
-/

namespace TableReplica

namespace Tables

theorem rows_insert (tables : Tables) (table table' : String) (rows : RowMap) :
    Tables.rows (tables.insert table rows) table' = if table = table' then rows else tables.rows table' :=
  SortedMap.getD_insert tables table table' rows ∅

/-- The rows of all tables are the same up to the signs of zeros. -/
def Same (a b : Tables) : Prop := ∀ table, (a.rows table).positiveZeros = (b.rows table).positiveZeros

theorem Same.refl (a : Tables) : Same a a := fun _ => rfl

theorem Same.trans {a b c : Tables} (hab : Same a b) (hbc : Same b c) : Same a c :=
  fun table => (hab table).trans (hbc table)

end Tables

namespace RowChange

/-- What a commit tells of a row with the given states before and after it. -/
def told (id : RowId) : Option Row → Option Row → Option RowChange
  | none, none => none
  | some old, none => some (.ofStates id (some old) none)
  | some old, some new => if new.agrees old then none else some (.ofStates id (some old) (some new))
  | none, some new => some (.ofStates id none (some new))

/-- What is told of a row that changed is about that row. -/
theorem id_ofChange? {after : RowMap} {id : RowId} {row : Row} {change : RowChange} (h : ofChange? after id row = some change) :
    change.id = id := by
  rw [ofChange?] at h
  split at h
  · cases h
    rfl
  · split at h <;> cases h
    rfl

/-- What is told of a row that arrived is about that row. -/
theorem id_ofArrival? {before : RowMap} {id : RowId} {row : Row} {change : RowChange}
    (h : ofArrival? before id row = some change) : change.id = id := by
  rw [ofArrival?] at h
  split at h <;> cases h
  rfl

/-- Between two states of a table, what is told of a row depends on that row alone. -/
theorem filter_between (before after : RowMap) (id : RowId) :
    (between before after).filter (fun change => decide (change.id = id)) = (told id (before.get? id) (after.get? id)).toList := by
  have hchange : (before.entries.filterMap (fun e => ofChange? after e.1 e.2)).filter (fun change => decide (change.id = id)) =
      ((before.get? id).bind (ofChange? after id)).toList :=
    SortedMap.filter_filterMap_entries (f := ofChange? after) (fun _ _ _ h => id_ofChange? h) before id
  have harrival : (after.entries.filterMap (fun e => ofArrival? before e.1 e.2)).filter (fun change => decide (change.id = id)) =
      ((after.get? id).bind (ofArrival? before id)).toList :=
    SortedMap.filter_filterMap_entries (f := ofArrival? before) (fun _ _ _ h => id_ofArrival? h) after id
  rw [between, List.filter_append, hchange, harrival]
  cases hb : before.get? id with
  | none =>
    cases ha : after.get? id with
    | none => rfl
    | some new => simp [ofArrival?, SortedMap.contains, hb, told]
  | some old =>
    cases ha : after.get? id with
    | none => simp [ofChange?, ha, told]
    | some new => simp [ofChange?, ofArrival?, SortedMap.contains, ha, hb, told]

/-- The last entry about a row, between two states of a table, tells the row before and after. -/
theorem lastOf_between (before after : RowMap) (id : RowId) :
    lastOf id (between before after) = told id (before.get? id) (after.get? id) := by
  rw [lastOf, filter_between]
  cases told id (before.get? id) (after.get? id) <;> rfl

/-- A row of which nothing is told is the same as before. -/
theorem positiveZeros_eq_of_told_eq_none {id : RowId} {old new : Option Row} (h : told id old new = none) :
    old.map Row.positiveZeros = new.map Row.positiveZeros := by
  cases old with
  | none =>
    cases new with
    | none => rfl
    | some new => simp [told] at h
  | some old =>
    cases new with
    | none => simp [told] at h
    | some new =>
      rw [told] at h
      split at h
      · rename_i hagree
        exact congrArg some (Row.positiveZeros_eq_of_agrees hagree).symm
      · cases h

end RowChange

namespace ChangeBatch

/-- The batch of a commit has the changes of each table. -/
theorem changes_between (before after : Tables) (table : String) :
    (between before after).changes table = RowChange.between (before.rows table) (after.rows table) := by
  rw [changes, SortedMap.getD, between, SortedMap.get?_filterMap, SortedMap.get?_insertAll, SortedMap.get?_map]
  cases ha : after.get? table with
  | none =>
    have hrows : after.rows table = ∅ := by rw [Tables.rows, SortedMap.getD, ha]; rfl
    cases hb : before.get? table with
    | none =>
      have hrows' : before.rows table = ∅ := by rw [Tables.rows, SortedMap.getD, hb]; rfl
      rw [hrows, hrows']
      rfl
    | some rows =>
      rw [hrows]
      simp only [Option.none_or, Option.map_some, Option.bind_some]
      split <;> simp_all
  | some rows =>
    have hrows : after.rows table = rows := by rw [Tables.rows, SortedMap.getD, ha]; rfl
    rw [hrows]
    simp only [Option.some_or, Option.bind_some]
    split <;> simp_all

/-- An empty batch tells nothing of any table. -/
theorem changes_of_isEmpty {batch : ChangeBatch} (h : batch.isEmpty = true) (table : String) : batch.changes table = [] := by
  rw [changes, SortedMap.getD]
  cases ht : batch.tables.get? table with
  | none => rfl
  | some changes =>
    have hmem : changes ∈ batch.tables.values := SortedMap.mem_values_iff.mpr ⟨table, ht⟩
    exact List.isEmpty_iff.mp (List.all_eq_true.mp h changes hmem)

end ChangeBatch

/-- In an empty batch nothing is told of any row. -/
theorem RowChange.told_eq_none_of_isEmpty {before after : Tables} (h : (ChangeBatch.between before after).isEmpty = true)
    (table : String) (id : RowId) : told id ((before.rows table).get? id) ((after.rows table).get? id) = none := by
  rw [← lastOf_between, ← ChangeBatch.changes_between, ChangeBatch.changes_of_isEmpty h]
  rfl

/-- A commit of which nothing is told turned no more than the signs of zeros. -/
theorem Tables.same_of_isEmpty_between {before after : Tables} (h : (ChangeBatch.between before after).isEmpty = true) :
    Same before after := by
  intro table
  apply SortedMap.ext_get?
  intro id
  rw [RowMap.get?_positiveZeros, RowMap.get?_positiveZeros]
  exact RowChange.positiveZeros_eq_of_told_eq_none (RowChange.told_eq_none_of_isEmpty h table id)

/-! ## Taking a commit in -/

namespace Schema

/-- Nothing is kept of an empty row. -/
theorem kept_of_isEmpty (s : Schema) (table : String) {row : Row} (h : row.isEmpty = true) : s.kept table row = none := by
  have hempty : (s.normalize table row).1.isEmpty = true := by
    rw [SortedMap.isEmpty_iff] at h ⊢
    intro column
    rw [get?_normalize, h, Option.bind_none]
  rw [kept, Row.nonempty?, if_pos hempty]

/-- The next state that an entry says is what is kept of its new state. -/
theorem next?_ofStates (s : Schema) (table : String) (id : RowId) (before after : Option Row) :
    s.next? table (.ofStates id before after) = after.bind (s.kept table) := by
  rw [next?, RowChange.ofStates]
  cases after with
  | none => rfl
  | some row =>
    simp only [Option.bind_some, Row.nonempty?]
    split
    · rename_i h
      exact (kept_of_isEmpty s table h).symm
    · rfl

end Schema

/-- What a replica has in the place of a row after a commit is told: what it keeps of the new state, or what it had if nothing was
told of the row. -/
theorem Replica.row?_takeIn_between (r : Replica) (before after : Tables) {table : String}
    (hk : r.cache.knows table = true) (id : RowId) :
    (r.takeIn (.between before after)).replica.cache.row? table id =
      if (RowChange.told id ((before.rows table).get? id) ((after.rows table).get? id)).isSome then
        ((after.rows table).get? id).bind (r.schema.kept table)
      else r.cache.row? table id := by
  rw [row?_takeIn r _ hk, ChangeBatch.changes_between, RowChange.lastOf_between]
  cases (before.rows table).get? id with
  | none =>
    cases (after.rows table).get? id with
    | none => rfl
    | some new => exact Schema.next?_ofStates r.schema table id none (some new)
  | some old =>
    cases (after.rows table).get? id with
    | none => rfl
    | some new =>
      simp only [RowChange.told]
      by_cases hagree : new.agrees old = true
      · simp [hagree]
      · simp only [hagree]
        exact Schema.next?_ofStates r.schema table id (some old) (some new)

end TableReplica
