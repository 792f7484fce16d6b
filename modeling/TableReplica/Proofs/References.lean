import TableReplica.Proofs.Maps
import TableReplica.Server.Basic

/-!
# References between rows

A row names another when a column of it is the identifier of that row or a set that holds it (`Row.Names`). Tables dangle where a row
names one that no table has (`Tables.Dangles`), and the check that comes before a commit finds such a place exactly when there is
one (`Tables.dangling?_eq_none_iff`).
-/

namespace TableReplica

/-- Some column of the row is the identifier, or a set that holds it. -/
def Row.Names (row : Row) (target : RowId) : Prop :=
  ∃ column v, row.get? column = some v ∧ (v = .uuid target ∨ ∃ items, v = .set items ∧ .uuid target ∈ items)

namespace Tables

/-- A table has a row with the identifier. -/
def HasRow (tables : Tables) (id : RowId) : Prop := ∃ table row, (tables.rows table).get? id = some row

/-- A row of a table names one that no table has. -/
def Dangles (tables : Tables) (table : String) (id target : RowId) : Prop :=
  ∃ row, (tables.rows table).get? id = some row ∧ row.Names target ∧ ¬tables.HasRow target

theorem get?_rows (tables : Tables) (table : String) (id : RowId) :
    (tables.rows table).get? id = (SortedMap.get? tables table).bind (·.get? id) := by
  rw [rows, SortedMap.getD]
  cases SortedMap.get? tables table <;> rfl

end Tables

namespace Value

theorem rowId?_eq_some_iff {v : Value} {id : RowId} : v.rowId? = some id ↔ v = .uuid id := by
  cases v <;> simp [rowId?]

/-- A value refers to a row as the identifier itself or as a set that it is in. -/
theorem mem_references_iff (v : Value) (target : RowId) :
    target ∈ v.references ↔ v = .uuid target ∨ ∃ items, v = .set items ∧ .uuid target ∈ items := by
  rw [references, List.mem_filterMap]
  simp only [rowId?_eq_some_iff, exists_eq_right]
  cases v with
  | set items => simp [members]
  | _ => simp [members, eq_comm]

end Value

/-- A row refers to the rows that it names. -/
theorem Row.mem_references_iff (row : Row) (target : RowId) :
    target ∈ row.values.flatMap Value.references ↔ row.Names target := by
  rw [List.mem_flatMap]
  constructor
  · rintro ⟨v, hv, htarget⟩
    obtain ⟨column, hcolumn⟩ := SortedMap.mem_values_iff.mp hv
    exact ⟨column, v, hcolumn, (v.mem_references_iff target).mp htarget⟩
  · rintro ⟨column, v, hcolumn, hv⟩
    exact ⟨v, SortedMap.mem_values_iff.mpr ⟨column, hcolumn⟩, (v.mem_references_iff target).mpr hv⟩

namespace Tables

/-- An identifier is live when some table has its row. -/
theorem live_iff (tables : Tables) (id : RowId) : tables.live id = true ↔ tables.HasRow id := by
  rw [live, List.any_eq_true]
  constructor
  · rintro ⟨rows, hrows, hid⟩
    obtain ⟨table, htable⟩ := SortedMap.mem_values_iff.mp hrows
    obtain ⟨row, hrow⟩ := (SortedMap.contains_iff rows id).mp hid
    exact ⟨table, row, by rw [get?_rows, htable, Option.bind_some, hrow]⟩
  · rintro ⟨table, row, hrow⟩
    rw [get?_rows] at hrow
    obtain ⟨rows, htable, hid⟩ := Option.bind_eq_some_iff.mp hrow
    exact ⟨rows, SortedMap.mem_values_iff.mpr ⟨table, htable⟩, (SortedMap.contains_iff rows id).mpr ⟨row, hid⟩⟩

/-- Nothing is missing for a row when every row that it names is there. -/
theorem missing?_eq_none_iff (tables : Tables) (row : Row) :
    tables.missing? row = none ↔ ∀ target, row.Names target → tables.HasRow target := by
  rw [missing?, List.find?_eq_none]
  simp only [Row.mem_references_iff, Bool.not_eq_true', Bool.not_eq_false, live_iff]

/-- What is missing for a row is named by it and is not there. -/
theorem of_missing?_eq_some {tables : Tables} {row : Row} {target : RowId} (h : tables.missing? row = some target) :
    row.Names target ∧ ¬tables.HasRow target := by
  rw [missing?] at h
  refine ⟨(row.mem_references_iff target).mp (List.mem_of_find?_eq_some h), ?_⟩
  rw [← live_iff]
  have hdead := List.find?_some h
  simpa using hdead

/-- The check finds nothing exactly when every identifier in a row names a row. -/
theorem dangling?_eq_none_iff (tables : Tables) :
    tables.dangling? = none ↔ ∀ table id target, ¬tables.Dangles table id target := by
  rw [dangling?, List.findSome?_eq_none_iff]
  constructor
  · rintro h table id target ⟨row, hrow, hnames, hmissing⟩
    rw [get?_rows] at hrow
    obtain ⟨rows, htable, hid⟩ := Option.bind_eq_some_iff.mp hrow
    have hrows := List.findSome?_eq_none_iff.mp (h (table, rows) (SortedMap.mem_entries_iff.mpr htable))
    have hnone := Option.map_eq_none_iff.mp (hrows (id, row) (SortedMap.mem_entries_iff.mpr hid))
    exact hmissing ((missing?_eq_none_iff tables row).mp hnone target hnames)
  · intro h t ht
    rw [List.findSome?_eq_none_iff]
    intro r hr
    rw [Option.map_eq_none_iff, missing?_eq_none_iff]
    intro target hnames
    by_cases hrow : tables.HasRow target
    · exact hrow
    · have htable : SortedMap.get? tables t.1 = some t.2 := SortedMap.mem_entries_iff.mp ht
      have hid : t.2.get? r.1 = some r.2 := SortedMap.mem_entries_iff.mp hr
      exact absurd ⟨r.2, by rw [get?_rows, htable, Option.bind_some, hid], hnames, hrow⟩ (h t.1 r.1 target)

/-- What the check finds is a place where the tables dangle. -/
theorem of_dangling?_eq_some {tables : Tables} {cause : RefusalCause} (h : tables.dangling? = some cause) :
    ∃ table id target, tables.Dangles table id target ∧ cause = .danglingReference table id target := by
  obtain ⟨t, ht, h⟩ := List.exists_of_findSome?_eq_some h
  obtain ⟨r, hr, h⟩ := List.exists_of_findSome?_eq_some h
  obtain ⟨target, htarget, rfl⟩ := Option.map_eq_some_iff.mp h
  obtain ⟨hnames, hmissing⟩ := of_missing?_eq_some htarget
  have htable : SortedMap.get? tables t.1 = some t.2 := SortedMap.mem_entries_iff.mp ht
  have hid : t.2.get? r.1 = some r.2 := SortedMap.mem_entries_iff.mp hr
  exact ⟨t.1, r.1, target, ⟨r.2, by rw [get?_rows, htable, Option.bind_some, hid], hnames, hmissing⟩, rfl⟩

end Tables

end TableReplica
