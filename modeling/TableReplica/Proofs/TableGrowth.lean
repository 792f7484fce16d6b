import TableReplica.Proofs.Links
import TableReplica.Proofs.References
import TableReplica.Proofs.TableRows

/-!
# What tables gain

A change of tables is bounded by the rows and the links that it may bring (`Tables.Grows`). A new row brings itself and its links, a row
that hangs from a parent one link more, and a row that goes brings nothing. What is asked of all rows or of all links is kept through a
change when it holds of what the change brings.
-/

namespace TableReplica

/-- The links of a row are read from their column alone. -/
theorem Row.links_congr {row row' : Row} {column : String} (h : row.get? column = row'.get? column) :
    row.links column = row'.links column := by
  rw [links, links, h]

/-- What is among the links of a row is named by it. -/
theorem Row.names_of_mem_links {row : Row} {column : String} {link : RowId} (h : link ∈ row.links column) : row.Names link := by
  obtain ⟨member, hmember, hlink⟩ := List.mem_filterMap.mp h
  obtain ⟨v, hv, hmember⟩ := List.mem_flatMap.mp hmember
  refine ⟨column, v, Option.mem_toList.mp hv, ?_⟩
  rw [← Value.mem_references_iff, Value.references, List.mem_filterMap]
  exact ⟨member, hmember, hlink⟩

/-- What became of a row: columns of links are still columns of links, with no links but old ones and the given ones, and all other columns
are as they were. -/
structure Row.GrowsTo (linkColumns : List String) (NewLink : String → RowId → Prop) (old row : Row) : Prop where
  same : ∀ column, column ∉ linkColumns → row.get? column = old.get? column
  shape : ∀ column ∈ linkColumns, old.HoldsLinks column → row.HoldsLinks column
  links : ∀ column ∈ linkColumns, ∀ link ∈ row.links column, link ∈ old.links column ∨ NewLink column link

namespace Tables

/-- A row of a table has a link. -/
def Holds (tables : Tables) (table : String) (holder : RowId) (column : String) (link : RowId) : Prop :=
  ∃ row, tables.row? table holder = some row ∧ link ∈ row.links column

/-- Every row is one of the new rows, with new links only, or has come from an old one. -/
def Grows (linkColumns : List String) (before now : Tables) (NewRow : String → RowId → Row → Prop)
    (NewLink : String → RowId → String → RowId → Prop) : Prop :=
  ∀ table id row, now.row? table id = some row →
    (NewRow table id row ∧ ∀ column ∈ linkColumns, ∀ link ∈ row.links column, NewLink table id column link) ∨
    ∃ old, before.row? table id = some old ∧ old.GrowsTo linkColumns (NewLink table id) row

/-- A link that hangs from a row. -/
def Hangs (parent : Parent) (holder id : RowId) (table : String) (holder' : RowId) (column : String) (link : RowId) : Prop :=
  parent.table = table ∧ holder = holder' ∧ parent.column = column ∧ link = id

/-- The row under an identifier of a table. -/
def IsRow (table : String) (id : RowId) (row : Row) (table' : String) (id' : RowId) (row' : Row) : Prop :=
  table = table' ∧ id = id' ∧ row' = row

/-- A link of the row under an identifier of a table. -/
def IsLinkOf (table : String) (id : RowId) (row : Row) (table' : String) (holder : RowId) (column : String) (link : RowId) : Prop :=
  table = table' ∧ id = holder ∧ link ∈ row.links column

end Tables

/-! ## Links that come and go -/

namespace Row

variable {row : Row} {column : String}

/-- Inserting an identifier into a column of links leaves a column of links, with that one more. -/
theorem HoldsLinks.mutate_insert (h : row.HoldsLinks column) (id : RowId) :
    (row.mutate column .insert (.uuid id)).HoldsLinks column ∧
      ∀ link, link ∈ (row.mutate column .insert (.uuid id)).links column ↔ link ∈ row.links column ∨ link = id := by
  have hcolumn := h.get?_mutate_insert id
  refine ⟨holdsLinks_of_eq_ofRowIds hcolumn, ?_⟩
  intro link
  rw [mem_links_of_eq_ofRowIds hcolumn, List.mem_append, List.mem_singleton]

/-- Deleting an identifier from a column of links leaves a column of links, without that one. -/
theorem HoldsLinks.mutate_delete (h : row.HoldsLinks column) (id : RowId) :
    (row.mutate column .delete (.uuid id)).HoldsLinks column ∧
      ∀ link, link ∈ (row.mutate column .delete (.uuid id)).links column ↔ link ∈ row.links column ∧ link ≠ id := by
  have hcolumn := h.get?_mutate_delete id
  refine ⟨holdsLinks_of_eq_ofRowIds hcolumn, ?_⟩
  intro link
  rw [mem_links_of_eq_ofRowIds hcolumn, List.mem_filter, decide_eq_true_eq]

variable {linkColumns : List String} {NewLink : String → RowId → Prop}

/-- A row that stays as it is gains no links. -/
theorem GrowsTo.refl (row : Row) : row.GrowsTo linkColumns NewLink row where
  same _ _ := rfl
  shape _ _ h := h
  links _ _ _ hlink := Or.inl hlink

/-- A row of which one column of links is changed. -/
theorem GrowsTo.mutate {mutator : Mutator} {value : Value} (hcolumn : column ∈ linkColumns)
    (hshape : (row.mutate column mutator value).HoldsLinks column)
    (hnew : ∀ link ∈ (row.mutate column mutator value).links column, link ∈ row.links column ∨ NewLink column link) :
    row.GrowsTo linkColumns NewLink (row.mutate column mutator value) where
  same := by
    intro column' hcolumn'
    refine get?_mutate_of_ne row ?_ mutator value
    rintro rfl
    exact hcolumn' hcolumn
  shape := by
    intro column' _ hlinks
    by_cases heq : column = column'
    · subst heq
      exact hshape
    · rw [HoldsLinks, get?_mutate_of_ne row heq]
      exact hlinks
  links := by
    intro column' _ link hlink
    by_cases heq : column = column'
    · subst heq
      exact hnew link hlink
    · rw [links_congr (get?_mutate_of_ne row heq mutator value)] at hlink
      exact Or.inl hlink

end Row

namespace Tables

variable {linkColumns : List String} {before now : Tables} {table : String} {id : RowId} {row : Row} {parent : Parent} {holder : RowId}

/-- Every link is an old one or a new one. -/
theorem Grows.holds {NewRow : String → RowId → Row → Prop} {NewLink : String → RowId → String → RowId → Prop}
    (h : Grows linkColumns before now NewRow NewLink) {column : String} (hcolumn : column ∈ linkColumns) {link : RowId}
    (hholds : now.Holds table holder column link) : before.Holds table holder column link ∨ NewLink table holder column link := by
  obtain ⟨row, hrow, hlink⟩ := hholds
  rcases h table holder row hrow with ⟨-, hnew⟩ | ⟨old, hold, hgrows⟩
  · exact Or.inr (hnew column hcolumn link hlink)
  · rcases hgrows.links column hcolumn link hlink with hlink | hlink
    · exact Or.inl ⟨old, hold, hlink⟩
    · exact Or.inr hlink

/-- A new row grows the tables by itself and its links. -/
theorem Gains.grows (h : before.Gains now table id row) :
    Grows linkColumns before now (IsRow table id row) (IsLinkOf table id row) := by
  intro table' id' row' hrow
  rw [h] at hrow
  split at hrow
  · rename_i hnew
    cases hrow
    exact Or.inl ⟨⟨hnew.1, hnew.2, rfl⟩, fun column _ link hlink => ⟨hnew.1, hnew.2, hlink⟩⟩
  · exact Or.inr ⟨row', hrow, .refl row'⟩

/-- A row that hangs from a parent brings itself, its links, and the link to it. -/
theorem GainsUnder.grows (h : before.GainsUnder now table id row parent holder) (hcolumn : parent.column ∈ linkColumns)
    (hlinks : ∀ old, before.row? parent.table holder = some old → old.HoldsLinks parent.column) :
    Grows linkColumns before now (IsRow table id row) (fun table' holder' column link =>
      IsLinkOf table id row table' holder' column link ∨ Hangs parent holder id table' holder' column link) := by
  intro table' id' row' hrow
  rw [h] at hrow
  split at hrow
  · rename_i hnew
    cases hrow
    exact Or.inl ⟨⟨hnew.1, hnew.2, rfl⟩, fun column _ link hlink => Or.inl ⟨hnew.1, hnew.2, hlink⟩⟩
  · split at hrow
    · rename_i hparent
      obtain ⟨rfl, rfl⟩ := hparent
      obtain ⟨old, hold, rfl⟩ := Option.map_eq_some_iff.mp hrow
      obtain ⟨hkept, hmem⟩ := (hlinks old hold).mutate_insert id
      refine Or.inr ⟨old, hold, .mutate hcolumn hkept ?_⟩
      intro link hlink
      rcases (hmem link).mp hlink with hlink | hlink
      · exact Or.inl hlink
      · exact Or.inr (Or.inr ⟨rfl, rfl, rfl, hlink⟩)
    · exact Or.inr ⟨row', hrow, .refl row'⟩

/-- A row that goes grows nothing. -/
theorem Loses.grows (h : before.Loses now table id) :
    Grows linkColumns before now (fun _ _ _ => False) (fun _ _ _ _ => False) := by
  intro table' id' row' hrow
  rw [h] at hrow
  split at hrow
  · cases hrow
  · exact Or.inr ⟨row', hrow, .refl row'⟩

/-- A row that goes from under its parent grows nothing. -/
theorem LosesUnder.grows (h : before.LosesUnder now table id parent holder) (hcolumn : parent.column ∈ linkColumns)
    (hlinks : ∀ old, before.row? parent.table holder = some old → old.HoldsLinks parent.column) :
    Grows linkColumns before now (fun _ _ _ => False) (fun _ _ _ _ => False) := by
  intro table' id' row' hrow
  rw [h] at hrow
  split at hrow
  · cases hrow
  · split at hrow
    · rename_i hparent
      obtain ⟨rfl, rfl⟩ := hparent
      obtain ⟨old, hold, rfl⟩ := Option.map_eq_some_iff.mp hrow
      obtain ⟨hkept, hmem⟩ := (hlinks old hold).mutate_delete id
      refine Or.inr ⟨old, hold, .mutate hcolumn hkept ?_⟩
      intro link hlink
      exact Or.inl ((hmem link).mp hlink).1
    · exact Or.inr ⟨row', hrow, .refl row'⟩

/-- An identifier that names no row is not among any links, when nothing dangles. -/
theorem not_holds_of_not_live (hclosed : ∀ table id target, ¬before.Dangles table id target) (hfresh : before.live id = false)
    (table : String) (holder : RowId) (column : String) : ¬before.Holds table holder column id := by
  rintro ⟨row, hrow, hlink⟩
  refine hclosed table holder id ⟨row, hrow, Row.names_of_mem_links hlink, ?_⟩
  rw [← live_iff, hfresh]
  exact Bool.false_ne_true

end Tables

end TableReplica
