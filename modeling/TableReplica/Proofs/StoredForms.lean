import TableReplica.Proofs.CacheChanges
import TableReplica.Proofs.KindForms

/-!
# What is stored

Whatever is put into a replica, its cache has the tables that were subscribed and no others, and each row in it is one that the schema
stores (`Schema.Stores`): not empty, and in the form of its table. Every way to change the cache keeps this (`Replica.InForm.take`), so it
holds after any run from a cache without tables (`Replica.inForm_takeAll`). A value that does not fit its column is stored as it came;
that is the one way a declared column is not in the form of its kind.
-/

namespace TableReplica

/-- The row is one that the schema stores for the table. -/
structure Schema.Stores (s : Schema) (table : String) (row : Row) : Prop where
  nonempty : row.isEmpty = false
  inForm : (s.normalize table row).1 = row
  /-- A declared column is in the form of its kind, or it holds a value that has no such form. -/
  columns : ∀ column kind v, (s.kinds table).get? column = some kind → row.get? column = some v →
    kind.Holds v ∨ ∃ violation, v.normalize kind = .error violation
  /-- No empty set stands for a scalar that is absent. -/
  absences : ∀ column base, (s.kinds table).get? column = some (.scalar base) ∨ (s.kinds table).get? column = some (.optional base) →
    row.get? column ≠ some (.set [])

namespace Schema

variable {s : Schema} {table : String} {row stored : Row}

/-- A column of a row in form is taken as it is. -/
theorem normalizeColumn_of_inForm (h : (s.normalize table row).1 = row) {column : String} {v : Value}
    (hv : row.get? column = some v) : normalizeColumn (s.kinds table) column v = some v := by
  have hcolumn := s.get?_normalize table row column
  rw [h, hv, Option.bind_some] at hcolumn
  exact hcolumn.symm

/-- A column that is taken as it is holds what its kind asks for, or what has no form of the kind. -/
theorem holds_of_normalizeColumn {kinds : Kinds} {column : String} {kind : Kind} {v : Value} (hkind : kinds.get? column = some kind)
    (h : normalizeColumn kinds column v = some v) : kind.Holds v ∨ ∃ violation, v.normalize kind = .error violation := by
  unfold normalizeColumn at h
  simp only [hkind] at h
  cases hv : v.normalize kind with
  | error violation => exact Or.inr ⟨violation, rfl⟩
  | ok normal =>
    simp only [hv] at h
    subst h
    exact Or.inl (Value.holds_of_normalize hv)

/-- What is left of a row in the form of its table is stored. -/
theorem stores_of_inForm (hne : row.isEmpty = false) (h : (s.normalize table row).1 = row) : s.Stores table row where
  nonempty := hne
  inForm := h
  columns := by
    intro column kind v hkind hv
    exact holds_of_normalizeColumn hkind (normalizeColumn_of_inForm h hv)
  absences := by
    intro column base hkind hv
    have hcolumn := normalizeColumn_of_inForm h hv
    unfold normalizeColumn at hcolumn
    rcases hkind with hkind | hkind <;> rw [hkind] at hcolumn <;> cases hcolumn

/-- What is kept of a row is a row in form. -/
theorem stores_of_kept (h : s.kept table row = some stored) : s.Stores table stored := by
  unfold kept Row.nonempty? at h
  split at h
  · cases h
  · rename_i hne
    cases h
    exact stores_of_inForm (Bool.eq_false_iff.mpr hne) (s.normalize_idem table row)

/-- What a change leaves of a row is stored. -/
theorem stores_of_next? {change : RowChange} (h : s.next? table change = some stored) : s.Stores table stored := by
  obtain ⟨row, -, hrow⟩ := Option.bind_eq_some_iff.mp h
  exact stores_of_kept hrow

end Schema

namespace Replica

/-- What can be put into a replica. -/
inductive Input where
  | subscription (table : String)
  | batch (batch : ChangeBatch)
  | notification (notification : Json)

/-- The replica after an input. A notification that is refused changes nothing. -/
def take (r : Replica) : Input → Replica
  | .subscription table => r.subscribe table
  | .batch batch => (r.takeIn batch).replica
  | .notification notification =>
    match r.takeInNotification notification with
    | .ok i => i.replica
    | .error _ => r

/-- The replica after some inputs, one after the other. -/
def takeAll (r : Replica) (inputs : List Input) : Replica := inputs.foldl take r

/-- The replica has the schema, its cache has the given tables and no others, and its rows are such as the schema stores. -/
structure InForm (s : Schema) (tables : List String) (r : Replica) : Prop where
  schema : r.schema = s
  tables : ∀ table, r.cache.knows table = true ↔ table ∈ tables
  rows : ∀ table id row, r.cache.row? table id = some row → s.Stores table row

/-- The table an input subscribes to. -/
def Input.table? : Input → Option String
  | .subscription table => some table
  | _ => none

namespace InForm

variable {s : Schema} {tables : List String} {r : Replica}

/-- A replica without rows is in form. -/
theorem empty (notifier : Notifier) : InForm notifier.schema [] ⟨notifier, .empty⟩ where
  schema := rfl
  tables := by
    intro table
    constructor
    · intro h
      cases h
    · intro h
      cases h
  rows := by
    intro table id row hrow
    cases hrow

/-- A subscription keeps a replica in form. -/
theorem subscribe (h : r.InForm s tables) (table : String) : (r.subscribe table).InForm s (tables ++ [table]) where
  schema := h.schema
  tables := by
    intro table'
    have hknows := h.tables table'
    show (r.cache.subscribe table).knows table' = true ↔ _
    rw [Cache.knows_subscribe, Bool.or_eq_true, decide_eq_true_eq, hknows, List.mem_append, List.mem_singleton, eq_comm, or_comm]
  rows := by
    intro table' id row hrow
    have hcached : (r.cache.subscribe table).row? table' id = some row := hrow
    rw [Cache.row?_subscribe] at hcached
    exact h.rows table' id row hcached

/-- After a batch there stands in each place what the last change left of the row, or what stood there before. -/
theorem takeIn (h : r.InForm s tables) (batch : ChangeBatch) : (r.takeIn batch).replica.InForm s tables where
  schema := (congrArg Notifier.schema (r.notifier_takeIn batch)).trans h.schema
  tables := by
    intro table
    rw [knows_takeIn, h.tables]
  rows := by
    intro table id row hrow
    have hk : r.cache.knows table = true := r.knows_takeIn batch table ▸ Cache.knows_of_row?_eq_some hrow
    rw [row?_takeIn r batch hk, h.schema] at hrow
    split at hrow
    · exact Schema.stores_of_next? hrow
    · exact h.rows table id row hrow

/-- Every input keeps the rows in form, and only a subscription adds a table. -/
theorem take (h : r.InForm s tables) (input : Input) : (r.take input).InForm s (tables ++ input.table?.toList) := by
  cases input with
  | subscription table => exact h.subscribe table
  | batch batch =>
    show (r.takeIn batch).replica.InForm s (tables ++ [])
    rw [List.append_nil]
    exact h.takeIn batch
  | notification notification =>
    show (r.take (.notification notification)).InForm s (tables ++ [])
    rw [List.append_nil, Replica.take]
    split
    · rename_i i hi
      obtain ⟨decoded, -, rfl⟩ := map_eq_ok_iff.mp hi
      exact h.takeIn decoded.batch
    · exact h

/-- Whatever inputs are taken, the replica stays in form, with the tables subscribed to. -/
theorem takeAll (h : r.InForm s tables) (inputs : List Input) :
    (r.takeAll inputs).InForm s (tables ++ inputs.filterMap Input.table?) := by
  induction inputs generalizing r tables with
  | nil =>
    rw [List.filterMap_nil, List.append_nil]
    exact h
  | cons input rest ih =>
    have hrest := ih (h.take input)
    rw [List.append_assoc] at hrest
    rw [List.filterMap_cons]
    cases htable : input.table? with
    | none =>
      rw [htable] at hrest
      exact hrest
    | some table =>
      rw [htable] at hrest
      exact hrest

end InForm

/-- Whatever is put into a replica without tables, its cache has the tables that were subscribed, and rows as they are stored. -/
theorem inForm_takeAll (notifier : Notifier) (inputs : List Input) :
    (takeAll ⟨notifier, .empty⟩ inputs).InForm notifier.schema (inputs.filterMap Input.table?) :=
  (InForm.empty notifier).takeAll inputs

end Replica

end TableReplica
