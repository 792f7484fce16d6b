import TableReplica.Proofs.Mirror
import TableReplica.Proofs.Links
import TableReplica.Proofs.TableRows

/-!
# Rows seen in a mirror

A row of a mirroring cache shows the columns of the server's row in the form of their kinds, up to the signs of zeros
(`Schema.Shows`). Definite columns and columns of links are shown exactly, so what is looked up in the cache holds of the server.
-/

namespace TableReplica

/-- The columns of the second row are those of the first in the form of their kinds, up to the signs of zeros. -/
def Schema.Shows (s : Schema) (table : String) (row shown : Row) : Prop :=
  ∀ column, (shown.get? column).map Value.positiveZeros =
    ((row.get? column).bind (normalizeColumn (s.kinds table) column)).map Value.positiveZeros

namespace Schema

/-- What is kept of a row is its form. -/
theorem eq_normalize_of_kept {s : Schema} {table : String} {row kept : Row} (h : s.kept table row = some kept) :
    kept = (s.normalize table row).1 := by
  unfold Schema.kept Row.nonempty? at h
  split at h
  · cases h
  · cases h
    rfl

/-- A row of which a column is kept is kept. -/
theorem exists_kept {s : Schema} {table : String} {row : Row} {column : String} {v : Value}
    (h : (row.get? column).bind (normalizeColumn (s.kinds table) column) = some v) : ∃ kept, s.kept table row = some kept := by
  unfold Schema.kept Row.nonempty?
  split
  · rename_i hempty
    rw [SortedMap.isEmpty_iff] at hempty
    rw [← get?_normalize, hempty column] at h
    cases h
  · exact ⟨_, rfl⟩

namespace Shows

variable {s : Schema} {table : String} {row shown : Row}

/-- A row that is the form of another up to the signs of zeros shows it. -/
theorem of_positiveZeros_eq (h : shown.positiveZeros = (s.normalize table row).1.positiveZeros) : s.Shows table row shown := by
  intro column
  rw [← Row.get?_positiveZeros, h, Row.get?_positiveZeros, get?_normalize]

/-- What is absent from the form of a row is absent from what is shown of it. -/
theorem get?_eq_none (h : s.Shows table row shown) {column : String}
    (hnone : (row.get? column).bind (normalizeColumn (s.kinds table) column) = none) : shown.get? column = none := by
  have hcolumn := h column
  rw [hnone] at hcolumn
  exact Option.map_eq_none_iff.mp hcolumn

/-- A definite column is shown as it is. -/
theorem get?_eq_some (h : s.Shows table row shown) {column : String} {v : Value} (hv : v.Definite)
    (hsome : (row.get? column).bind (normalizeColumn (s.kinds table) column) = some v) : shown.get? column = some v := by
  have hcolumn := h column
  rw [hsome] at hcolumn
  obtain ⟨w, hw, hwv⟩ := Option.map_eq_some_iff.mp hcolumn
  rw [hw, hv.eq_of_positiveZeros_eq hwv]

/-- The links of a column are shown as a set of them. -/
theorem get?_links (h : s.Shows table row shown) {column : String} (hkind : (s.kinds table).get? column = some (.set .uuid))
    (hlinks : row.HoldsLinks column) : shown.get? column = (row.get? column).map (fun _ => .ofRowIds (row.links column)) := by
  have hform := hlinks.bind_normalizeColumn hkind
  cases hc : row.get? column with
  | none => exact h.get?_eq_none (by rw [hform, hc, Option.map_none])
  | some v => exact h.get?_eq_some (Value.definite_ofRowIds _) (by rw [hform, hc, Option.map_some])

/-- A column of links shows the links of the row. -/
theorem mem_links (h : s.Shows table row shown) {column : String} (hkind : (s.kinds table).get? column = some (.set .uuid))
    (hlinks : row.HoldsLinks column) (id : RowId) : id ∈ shown.links column ↔ id ∈ row.links column := by
  have hshown := h.get?_links hkind hlinks
  cases hc : row.get? column with
  | none =>
    rw [hc] at hshown
    rw [Row.links, Row.links, hc, hshown]
    exact Iff.rfl
  | some v =>
    rw [hc] at hshown
    exact Row.mem_links_of_eq_ofRowIds hshown id

end Shows

end Schema

namespace Replica

variable {r : Replica} {tables : Tables}

/-- A row in the cache shows a row of the server. -/
theorem Mirrors.shows_of_cached (h : r.Mirrors tables) {table : String} {id : RowId} {shown : Row}
    (hshown : r.cache.row? table id = some shown) : ∃ row, tables.row? table id = some row ∧ r.schema.Shows table row shown := by
  have hmirror := h table id (Cache.knows_of_row?_eq_some hshown)
  rw [hshown] at hmirror
  obtain ⟨kept, hkept, hzeros⟩ := Option.map_eq_some_iff.mp hmirror.symm
  obtain ⟨row, hrow, hkept⟩ := Option.bind_eq_some_iff.mp hkept
  rw [Schema.eq_normalize_of_kept hkept] at hzeros
  exact ⟨row, hrow, .of_positiveZeros_eq hzeros.symm⟩

/-- Where the server has no row, the cache shows none. -/
theorem Mirrors.row?_eq_none (h : r.Mirrors tables) {table : String} {id : RowId} (hrow : tables.row? table id = none) :
    r.cache.row? table id = none := by
  cases hshown : r.cache.row? table id with
  | none => rfl
  | some shown =>
    obtain ⟨row, hrow', -⟩ := h.shows_of_cached hshown
    rw [hrow] at hrow'
    cases hrow'

/-- A row of the server of which a column is kept is shown in the cache. -/
theorem Mirrors.shows_of_column (h : r.Mirrors tables) {table : String} (hk : r.cache.knows table = true) {id : RowId} {row : Row}
    (hrow : tables.row? table id = some row) {column : String} {v : Value}
    (hv : (row.get? column).bind (Schema.normalizeColumn (r.schema.kinds table) column) = some v) :
    ∃ shown, r.cache.row? table id = some shown ∧ r.schema.Shows table row shown := by
  obtain ⟨kept, hkept⟩ := Schema.exists_kept hv
  have hmirror := h table id hk
  rw [show (tables.rows table).get? id = some row from hrow, Option.bind_some, hkept] at hmirror
  obtain ⟨shown, hshown, hzeros⟩ := Option.map_eq_some_iff.mp hmirror
  rw [Schema.eq_normalize_of_kept hkept] at hzeros
  exact ⟨shown, hshown, .of_positiveZeros_eq hzeros⟩

/-- A row of the server that holds a set of links is shown with the same set. -/
theorem Mirrors.shows_of_links (h : r.Mirrors tables) {table : String} (hk : r.cache.knows table = true) {id : RowId} {row : Row}
    (hrow : tables.row? table id = some row) {column : String} (hkind : (r.schema.kinds table).get? column = some (.set .uuid))
    {links : List RowId} (hcolumn : row.get? column = some (.ofRowIds links)) :
    ∃ shown, r.cache.row? table id = some shown ∧ r.schema.Shows table row shown ∧ shown.get? column = some (.ofRowIds links) := by
  have hform := (Row.holdsLinks_of_eq_ofRowIds hcolumn).bind_normalizeColumn hkind
  rw [hcolumn, Option.map_some, Value.ofRowIds_congr (Row.mem_links_of_eq_ofRowIds hcolumn), ← hcolumn] at hform
  obtain ⟨shown, hshown, hshows⟩ := h.shows_of_column hk hrow (hform.trans hcolumn)
  exact ⟨shown, hshown, hshows, hshows.get?_eq_some (Value.definite_ofRowIds _) (hform.trans hcolumn)⟩

end Replica

end TableReplica
