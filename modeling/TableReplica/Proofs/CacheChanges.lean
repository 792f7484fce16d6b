import TableReplica.Proofs.KeptRows
import TableReplica.Replica.Intake

/-!
# What a batch does to the cache

An entry of a batch does one thing to the cache whatever is told about it: it puts what is kept of the new state in the place of the
row (`Intake.cache_entry`). Of several entries about one row the last decides (`Replica.row?_takeIn`), and the states before
that the entries claim decide nothing.
-/

namespace TableReplica

namespace Cache

theorem row?_eq_bind (c : Cache) (table : String) (id : RowId) : c.row? table id = (c.tables.get? table).bind (·.get? id) := rfl

/-- A cache knows the tables that it has rows of, be there none in them. -/
theorem knows_iff (c : Cache) (table : String) : c.knows table = true ↔ ∃ rows, c.tables.get? table = some rows :=
  SortedMap.contains_iff c.tables table

/-- No row is found in a table that is not known. -/
theorem row?_of_not_knows {c : Cache} {table : String} (h : c.knows table = false) (id : RowId) : c.row? table id = none := by
  cases hc : c.tables.get? table with
  | none => rw [row?_eq_bind, hc, Option.bind_none]
  | some rows => rw [(knows_iff c table).mpr ⟨rows, hc⟩] at h; cases h

/-- A table that a row is found in is known. -/
theorem knows_of_row?_eq_some {c : Cache} {table : String} {id : RowId} {row : Row} (h : c.row? table id = some row) :
    c.knows table = true := by
  cases hk : c.knows table with
  | true => rfl
  | false =>
    rw [row?_of_not_knows hk] at h
    cases h

/-- A cache is determined by the tables it knows and the rows it has. -/
theorem ext_row? {c c' : Cache} (hk : ∀ table, c.knows table = c'.knows table)
    (hr : ∀ table id, c.row? table id = c'.row? table id) : c = c' := by
  obtain ⟨tables⟩ := c
  obtain ⟨tables'⟩ := c'
  congr 1
  apply SortedMap.ext_get?
  intro table
  have hk := hk table
  have hr := hr table
  simp only [knows, SortedMap.contains, row?] at hk hr
  cases ht : tables.get? table <;> cases ht' : tables'.get? table <;> simp_all
  exact SortedMap.ext_get? hr

/-- A subscription makes its table known, and no other. -/
theorem knows_subscribe (c : Cache) (table table' : String) :
    (c.subscribe table).knows table' = (decide (table = table') || c.knows table') := by
  rw [subscribe]
  split
  · rename_i h
    by_cases ht : table = table'
    · subst ht; simp [h]
    · simp [ht]
  · simp only [knows, SortedMap.contains, SortedMap.get?_insert]
    by_cases ht : table = table' <;> simp [ht]

/-- A subscription brings no row in and takes none away. -/
theorem row?_subscribe (c : Cache) (table table' : String) (id : RowId) :
    (c.subscribe table).row? table' id = c.row? table' id := by
  rw [subscribe]
  split
  · rfl
  · rename_i h
    rw [row?_eq_bind, SortedMap.get?_insert]
    split
    · rename_i ht
      subst ht
      exact (row?_of_not_knows (Bool.eq_false_iff.mpr h) id).symm
    · rfl

/-- What is put into a table that is not known is dropped. -/
theorem put_of_not_knows {c : Cache} {table : String} (h : c.knows table = false) (id : RowId) (next : Option Row) :
    c.put table id next = c := by
  cases hc : c.tables.get? table with
  | none => rw [put, hc]
  | some rows => rw [(knows_iff c table).mpr ⟨rows, hc⟩] at h; cases h

/-- Putting a row makes no table known. -/
@[simp] theorem knows_put (c : Cache) (table table' : String) (id : RowId) (next : Option Row) :
    (c.put table id next).knows table' = c.knows table' := by
  rw [put]
  cases hc : c.tables.get? table with
  | none => rfl
  | some rows =>
    have hknows : ∀ rows', (⟨c.tables.insert table rows'⟩ : Cache).knows table' = c.knows table' := by
      intro rows'
      simp only [knows, SortedMap.contains, SortedMap.get?_insert]
      by_cases ht : table = table'
      · subst ht; simp [hc]
      · simp [ht]
    cases next.bind Row.nonempty? <;> exact hknows _

/-- The row that is put is found in its place when the table is known, unless it is empty; all others stay. -/
theorem row?_put (c : Cache) (table table' : String) (id id' : RowId) (next : Option Row) :
    (c.put table id next).row? table' id' =
      if table = table' ∧ id = id' ∧ c.knows table = true then next.bind Row.nonempty? else c.row? table' id' := by
  cases hc : c.tables.get? table with
  | none =>
    have hk : c.knows table = false := by simp [knows, SortedMap.contains, hc]
    rw [put_of_not_knows hk, if_neg (by simp [hk])]
  | some rows =>
    have hk : c.knows table = true := (knows_iff c table).mpr ⟨rows, hc⟩
    rw [put, hc]
    by_cases ht : table = table'
    · subst ht
      have hrow : c.row? table id' = rows.get? id' := by rw [row?_eq_bind, hc, Option.bind_some]
      cases next.bind Row.nonempty? <;> by_cases hid : id = id' <;>
        simp [row?_eq_bind, SortedMap.get?_erase, SortedMap.get?_insert, hk, hid, hc]
    · cases next.bind Row.nonempty? <;> simp [row?_eq_bind, SortedMap.get?_insert, ht]

/-- Removing a row that is not there changes nothing. -/
theorem put_none_of_row?_eq_none {c : Cache} {table : String} {id : RowId} (h : c.row? table id = none) :
    c.put table id none = c := by
  apply ext_row?
  · intro table'
    exact knows_put c table table' id none
  · intro table' id'
    rw [row?_put]
    split
    · rename_i hsame
      obtain ⟨rfl, rfl, -⟩ := hsame
      exact h.symm
    · rfl

end Cache

/-- The state of a row after a change, as a replica keeps it. -/
def Schema.next? (s : Schema) (table : String) (change : RowChange) : Option Row := change.after.bind (s.kept table)

/-- The changes of a table in a batch. -/
def ChangeBatch.changes (batch : ChangeBatch) (table : String) : List RowChange := batch.tables.getD table []

/-- The last of the changes of a row. -/
def RowChange.lastOf (id : RowId) (changes : List RowChange) : Option RowChange :=
  (changes.filter (fun change => decide (change.id = id))).getLast?

namespace Schema

/-- What is kept of a row is not empty. -/
theorem kept_bind_nonempty? (s : Schema) (table : String) (row : Row) :
    (s.kept table row).bind Row.nonempty? = s.kept table row :=
  Row.nonempty?_bind_nonempty? _

/-- The next state of a row is never empty, so taking empty rows for absent changes nothing. -/
theorem next?_bind_nonempty? (s : Schema) (table : String) (change : RowChange) :
    (s.next? table change).bind Row.nonempty? = s.next? table change := by
  rw [next?]
  cases change.after with
  | none => rfl
  | some row => exact kept_bind_nonempty? s table row

end Schema

/-! ## One entry -/

namespace Cache

/-- The changes of one table, put one after the other. -/
def putChanges (s : Schema) (table : String) (c : Cache) (changes : List RowChange) : Cache :=
  changes.foldl (fun c change => c.put table change.id (s.next? table change)) c

/-- The changes of several tables, table by table. -/
def putTables (s : Schema) (c : Cache) (tables : List (String × List RowChange)) : Cache :=
  tables.foldl (fun c t => c.putChanges s t.1 t.2) c

/-- Changes make no table known. -/
theorem knows_putChanges (s : Schema) (table table' : String) (c : Cache) (changes : List RowChange) :
    (c.putChanges s table changes).knows table' = c.knows table' := by
  induction changes generalizing c with
  | nil => rfl
  | cons change rest ih => exact (ih _).trans (knows_put c table table' change.id _)

theorem knows_putTables (s : Schema) (c : Cache) (tables : List (String × List RowChange)) (table : String) :
    (c.putTables s tables).knows table = c.knows table := by
  induction tables generalizing c with
  | nil => rfl
  | cons t rest ih => exact (ih _).trans (knows_putChanges s t.1 table c t.2)

/-- Changes of a table that is not known are dropped. -/
theorem putChanges_of_not_knows (s : Schema) {table : String} {c : Cache} (h : c.knows table = false)
    (changes : List RowChange) : c.putChanges s table changes = c := by
  induction changes with
  | nil => rfl
  | cons change rest ih => rw [putChanges, List.foldl_cons, put_of_not_knows h]; exact ih

/-- In a table that is known, the last change of a row decides what stands in its place. -/
theorem row?_putChanges (s : Schema) {table : String} {c : Cache} (hk : c.knows table = true) (changes : List RowChange)
    (id : RowId) :
    (c.putChanges s table changes).row? table id =
      match RowChange.lastOf id changes with
      | some change => s.next? table change
      | none => c.row? table id := by
  induction changes generalizing c with
  | nil => rfl
  | cons change rest ih =>
    have hput := ih (c := c.put table change.id (s.next? table change)) (by rw [knows_put]; exact hk)
    rw [putChanges, List.foldl_cons]
    rw [putChanges] at hput
    rw [hput, RowChange.lastOf, RowChange.lastOf, List.filter_cons]
    by_cases hid : change.id = id
    · subst hid
      rw [if_pos (decide_eq_true rfl), List.getLast?_cons, row?_put, if_pos ⟨rfl, rfl, hk⟩, s.next?_bind_nonempty?]
      cases (rest.filter (fun change' => decide (change'.id = change.id))).getLast? <;> rfl
    · rw [if_neg (by simp [hid]), row?_put, if_neg (by simp [hid])]

/-- Changes of one table leave the rows of every other as they are. -/
theorem row?_putChanges_of_ne (s : Schema) {table table' : String} (h : table ≠ table') (c : Cache) (changes : List RowChange)
    (id : RowId) : (c.putChanges s table changes).row? table' id = c.row? table' id := by
  induction changes generalizing c with
  | nil => rfl
  | cons change rest ih =>
    rw [putChanges, List.foldl_cons]
    refine (ih _).trans ?_
    rw [row?_put, if_neg (by simp [h])]

/-- Of several tables only the one asked for matters. -/
theorem row?_putTables (s : Schema) (c : Cache) {tables : List (String × List RowChange)}
    (hord : tables.Pairwise (fun a b => a.1 < b.1)) (table : String) (id : RowId) :
    (c.putTables s tables).row? table id = (c.putChanges s table ((tables.lookup table).getD [])).row? table id := by
  induction tables generalizing c with
  | nil => rfl
  | cons t rest ih =>
    rw [putTables, List.foldl_cons]
    refine (ih _ hord.of_cons).trans ?_
    rw [SortedMap.lookup_cons_eq]
    by_cases ht : table = t.1
    · subst ht
      rw [if_pos rfl, SortedMap.lookup_tail_eq_none hord]
      rfl
    · rw [if_neg ht]
      by_cases hk : c.knows table = true
      · have hk' : (c.putChanges s t.1 t.2).knows table = true := by rw [knows_putChanges, hk]
        rw [row?_putChanges s hk', row?_putChanges s hk, row?_putChanges_of_ne s (Ne.symm ht)]
      · have hk := Bool.eq_false_iff.mpr hk
        have hk' : (c.putChanges s t.1 t.2).knows table = false := by rw [knows_putChanges, hk]
        rw [putChanges_of_not_knows s hk', putChanges_of_not_knows s hk, row?_putChanges_of_ne s (Ne.symm ht)]

end Cache

namespace Intake

/-- A removal takes the row out of the cache, be it counted as deleted or as skipped. -/
theorem cache_remove (i : Intake) (table : String) (id : RowId) :
    (i.remove table id).replica.cache = i.replica.cache.put table id none := by
  rw [remove]
  split
  · rename_i h
    exact (Cache.put_none_of_row?_eq_none h).symm
  · rfl

theorem notifier_remove (i : Intake) (table : String) (id : RowId) :
    (i.remove table id).replica.notifier = i.replica.notifier := by
  rw [remove]
  split <;> rfl

/-- A row is put into the cache, be it counted as created or as modified. -/
theorem cache_put (i : Intake) (table : String) (id : RowId) (row : Row) :
    (i.put table id row).replica.cache = i.replica.cache.put table id (some row) := by
  rw [put]
  split <;> rfl

theorem notifier_put (i : Intake) (table : String) (id : RowId) (row : Row) :
    (i.put table id row).replica.notifier = i.replica.notifier := by
  rw [put]
  split <;> rfl

/-- Whatever an entry does, the row is put as it is kept. -/
theorem cache_entry (i : Intake) (table : String) (change : RowChange) :
    (i.entry table change).replica.cache =
      i.replica.cache.put table change.id (i.replica.notifier.schema.next? table change) := by
  rw [entry, Schema.next?]
  cases change.after with
  | none => exact cache_remove i table change.id
  | some raw =>
    simp only [Option.bind_some, Schema.kept, Row.nonempty?]
    split
    · exact cache_remove i table change.id
    · exact cache_put i table change.id _

theorem notifier_entry (i : Intake) (table : String) (change : RowChange) :
    (i.entry table change).replica.notifier = i.replica.notifier := by
  rw [entry]
  cases change.after with
  | none => exact notifier_remove i table change.id
  | some raw =>
    simp only
    split
    · exact notifier_remove i table change.id
    · exact notifier_put i table change.id _

/-! ## Whole batches -/

theorem notifier_foldl_entry (i : Intake) (table : String) (changes : List RowChange) :
    (changes.foldl (fun i change => i.entry table change) i).replica.notifier = i.replica.notifier := by
  induction changes generalizing i with
  | nil => rfl
  | cons change rest ih => exact (ih _).trans (notifier_entry i table change)

/-- Taking in entries one by one stores what they say, in their order. -/
theorem cache_foldl_entry (i : Intake) (table : String) (changes : List RowChange) :
    (changes.foldl (fun i change => i.entry table change) i).replica.cache =
      i.replica.cache.putChanges i.replica.notifier.schema table changes := by
  induction changes generalizing i with
  | nil => rfl
  | cons change rest ih =>
    rw [List.foldl_cons, ih, cache_entry, notifier_entry]
    rfl

theorem notifier_table (i : Intake) (table : String) (changes : List RowChange) :
    (i.table table changes).replica.notifier = i.replica.notifier := by
  rw [Intake.table]
  split
  · exact notifier_foldl_entry i table changes
  · rfl

/-- Taking in a table stores what its entries say, and nothing if the table is not known. -/
theorem cache_table (i : Intake) (table : String) (changes : List RowChange) :
    (i.table table changes).replica.cache = i.replica.cache.putChanges i.replica.notifier.schema table changes := by
  rw [Intake.table]
  split
  · exact cache_foldl_entry i table changes
  · rename_i h
    exact (Cache.putChanges_of_not_knows _ (Bool.eq_false_iff.mpr h) changes).symm

/-- Taking in several tables stores what they say, and leaves the listeners and models as they are. -/
theorem replica_tables (i : Intake) (tables : List (String × List RowChange)) :
    (tables.foldl (fun i t => i.table t.1 t.2) i).replica =
      ⟨i.replica.notifier, i.replica.cache.putTables i.replica.notifier.schema tables⟩ := by
  induction tables generalizing i with
  | nil => rfl
  | cons t rest ih =>
    rw [List.foldl_cons, ih, notifier_table, cache_table]
    rfl

end Intake

namespace Replica

def schema (r : Replica) : Schema := r.notifier.schema

/-- A batch changes the cache of a replica and nothing else of it. -/
theorem takeIn_replica (r : Replica) (batch : ChangeBatch) :
    (r.takeIn batch).replica = ⟨r.notifier, r.cache.putTables r.schema batch.tables.entries⟩ :=
  Intake.replica_tables (.start r) batch.tables.entries

/-- Taking in a batch leaves the listeners and models as they are. -/
theorem notifier_takeIn (r : Replica) (batch : ChangeBatch) : (r.takeIn batch).replica.notifier = r.notifier := by
  rw [takeIn_replica]

/-- Taking in a batch makes no table known. -/
theorem knows_takeIn (r : Replica) (batch : ChangeBatch) (table : String) :
    (r.takeIn batch).replica.cache.knows table = r.cache.knows table := by
  rw [takeIn_replica]
  exact Cache.knows_putTables r.schema r.cache batch.tables.entries table

/-- After a batch, the last change of a row in it decides what stands in its place, and a row it does not name stays. -/
theorem row?_takeIn (r : Replica) (batch : ChangeBatch) {table : String} (hk : r.cache.knows table = true) (id : RowId) :
    (r.takeIn batch).replica.cache.row? table id =
      match RowChange.lastOf id (batch.changes table) with
      | some change => r.schema.next? table change
      | none => r.cache.row? table id := by
  rw [takeIn_replica]
  exact (Cache.row?_putTables r.schema r.cache batch.tables.ordered table id).trans (Cache.row?_putChanges r.schema hk _ id)

end Replica

end TableReplica
