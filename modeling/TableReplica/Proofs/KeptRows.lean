import TableReplica.Proofs.Zeros
import TableReplica.Proofs.Maps
import TableReplica.Server.Basic

/-!
# What a replica keeps of a row

A replica keeps the normal form of a row, unless nothing is left of it (`Schema.kept`). Up to the signs of zeros that is a function of
the row up to the signs of its zeros (`Schema.kept_congr`), which is why a server need not tell a change in which all columns agree.
-/

namespace TableReplica

/-- The row with every zero in it made positive. -/
def Row.positiveZeros (row : Row) : Row := row.map (fun _ v => v.positiveZeros)

/-- The rows with every zero in them made positive. -/
def RowMap.positiveZeros (rows : RowMap) : RowMap := rows.map (fun _ row => Row.positiveZeros row)

/-- What a replica keeps of a row: its normal form, unless that is empty. -/
def Schema.kept (s : Schema) (table : String) (row : Row) : Option Row := Row.nonempty? (s.normalize table row).1

/-- The rows of a table as a replica keeps them. -/
def Schema.keptRows (s : Schema) (table : String) (rows : RowMap) : RowMap := rows.filterMap (fun _ row => s.kept table row)

namespace Row

@[simp] theorem get?_positiveZeros (row : Row) (column : String) :
    row.positiveZeros.get? column = (row.get? column).map Value.positiveZeros :=
  SortedMap.get?_map _ row column

/-- Rows that agree are the same up to the signs of zeros. -/
theorem positiveZeros_eq_of_agrees {a b : Row} (h : a.agrees b = true) : a.positiveZeros = b.positiveZeros :=
  SortedMap.map_eq_of_agrees (fun _ _ hab => Value.positiveZeros_eq_of_agrees hab) h

/-- The signs of zeros have no part in whether a row is empty. -/
theorem isEmpty_positiveZeros (row : Row) : row.positiveZeros.isEmpty = row.isEmpty := by
  obtain ⟨es, _⟩ := row
  cases es <;> rfl

/-- The signs of zeros have no part in whether a row is taken for absent. -/
theorem nonempty?_positiveZeros (row : Row) : row.positiveZeros.nonempty? = row.nonempty?.map positiveZeros := by
  rw [nonempty?, nonempty?, isEmpty_positiveZeros]
  split <;> rfl

/-- Taking empty rows for absent a second time takes nothing away. -/
theorem nonempty?_bind_nonempty? (row : Row) : row.nonempty?.bind nonempty? = row.nonempty? := by
  rw [nonempty?]
  split
  · rfl
  · rename_i h
    rw [Option.bind_some, nonempty?, if_neg h]

end Row

@[simp] theorem RowMap.get?_positiveZeros (rows : RowMap) (id : RowId) :
    rows.positiveZeros.get? id = (rows.get? id).map Row.positiveZeros :=
  SortedMap.get?_map _ rows id

namespace Schema

/-- The kinds of the columns a table declares; a table without a model declares none. -/
def kinds (s : Schema) (table : String) : Kinds := (s.columns? table).getD ∅

/-- A column of a normal form is the normal form of the column. -/
theorem get?_normalize (s : Schema) (table : String) (row : Row) (column : String) :
    (s.normalize table row).1.get? column = (row.get? column).bind (normalizeColumn (s.kinds table) column) :=
  SortedMap.get?_filterMap _ row column

/-- Up to the signs of zeros, the form of a column does not depend on them. -/
theorem normalizeColumn_positiveZeros (kinds : Kinds) (column : String) (v : Value) :
    (normalizeColumn kinds column v.positiveZeros).map Value.positiveZeros =
      (normalizeColumn kinds column v).map Value.positiveZeros := by
  rw [normalizeColumn, normalizeColumn]
  cases kinds.get? column with
  | none => simp [Value.positiveZeros_idem]
  | some kind =>
    have h := Value.normalize_positiveZeros kind v
    cases hv : v.normalize kind <;> cases hv' : v.positiveZeros.normalize kind <;>
      simp_all [Except.map, Value.positiveZeros_idem]

/-- Up to the signs of zeros, the form of a row does not depend on them. -/
theorem normalize_positiveZeros (s : Schema) (table : String) (row : Row) :
    (s.normalize table row.positiveZeros).1.positiveZeros = (s.normalize table row).1.positiveZeros := by
  apply SortedMap.ext_get?
  intro column
  rw [Row.get?_positiveZeros, Row.get?_positiveZeros, get?_normalize, get?_normalize, Row.get?_positiveZeros]
  cases row.get? column with
  | none => rfl
  | some v => exact normalizeColumn_positiveZeros (s.kinds table) column v

/-- Up to the signs of zeros, what is kept of a row does not depend on them. -/
theorem kept_positiveZeros (s : Schema) (table : String) (row : Row) :
    (s.kept table row.positiveZeros).map Row.positiveZeros = (s.kept table row).map Row.positiveZeros := by
  rw [kept, kept, ← Row.nonempty?_positiveZeros, ← Row.nonempty?_positiveZeros, normalize_positiveZeros]

/-- What is kept of a row is settled, up to the signs of zeros, by the row up to the signs of its zeros. -/
theorem kept_congr (s : Schema) (table : String) {row row' : Row} (h : row.positiveZeros = row'.positiveZeros) :
    (s.kept table row).map Row.positiveZeros = (s.kept table row').map Row.positiveZeros := by
  rw [← kept_positiveZeros, h, kept_positiveZeros]

@[simp] theorem get?_keptRows (s : Schema) (table : String) (rows : RowMap) (id : RowId) :
    (s.keptRows table rows).get? id = (rows.get? id).bind (s.kept table) :=
  SortedMap.get?_filterMap _ rows id

end Schema

end TableReplica
