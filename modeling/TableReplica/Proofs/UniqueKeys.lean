import TableReplica.Proofs.TableGrowth
import TableReplica.Proofs.KnownModels

/-!
# Unique keys

No two rows of a table have the same key, or no two that hang from the same row (`Tables.KeyUnique`, `Tables.KeyUniqueUnder`), and a row
hangs from one row at most (`Tables.HeldOnce`). Each is kept when the tables grow by rows and links that have been checked, and a check
in a cache that mirrors the tables finds every row that has the key (`Replica.Mirrors.meets_of_sameKey`).
-/

namespace TableReplica

/-- The rows have the same values in the columns of a key. -/
def Row.SameKey (columns : List String) (row row' : Row) : Prop := ∀ column ∈ columns, row.get? column = row'.get? column

namespace Tables

/-- No two rows of a table have the same key. -/
def KeyUnique (tables : Tables) (table : String) (columns : List String) : Prop :=
  ∀ id id' row row', tables.row? table id = some row → tables.row? table id' = some row' → row.SameKey columns row' → id = id'

/-- No two rows of a table that are among the links of the same row have the same key. -/
def KeyUniqueUnder (tables : Tables) (parents : List String) (column : String) (table : String) (columns : List String) : Prop :=
  ∀ parent ∈ parents, ∀ holder id id' row row', tables.Holds parent holder column id → tables.Holds parent holder column id' →
    tables.row? table id = some row → tables.row? table id' = some row' → row.SameKey columns row' → id = id'

/-- No row is among the links of two rows of the given tables. -/
def HeldOnce (tables : Tables) (parents : List String) (column : String) : Prop :=
  ∀ parent ∈ parents, ∀ parent' ∈ parents, ∀ holder holder' link, tables.Holds parent holder column link →
    tables.Holds parent' holder' column link → parent = parent' ∧ holder = holder'

end Tables

theorem Row.SameKey.symm {columns : List String} {row row' : Row} (h : row.SameKey columns row') : row'.SameKey columns row :=
  fun column hcolumn => (h column hcolumn).symm

/-- A row keeps its key, which is not made of links. -/
theorem Row.GrowsTo.sameKey {linkColumns columns : List String} {NewLink : String → RowId → Prop} {old row : Row}
    (h : old.GrowsTo linkColumns NewLink row) (hcolumns : ∀ column ∈ columns, column ∉ linkColumns) : row.SameKey columns old :=
  fun column hcolumn => h.same column (hcolumns column hcolumn)

theorem Row.SameKey.trans {columns : List String} {row row' row'' : Row} (h : row.SameKey columns row')
    (h' : row'.SameKey columns row'') : row.SameKey columns row'' :=
  fun column hcolumn => (h column hcolumn).trans (h' column hcolumn)

namespace Tables

variable {linkColumns columns parents : List String} {before now : Tables} {NewRow : String → RowId → Row → Prop}
  {NewLink : String → RowId → String → RowId → Prop} {table column : String}

/-- Only the keys of new rows have to be checked. -/
theorem KeyUnique.grows (h : before.KeyUnique table columns) (hgrows : before.Grows linkColumns now NewRow NewLink)
    (hcolumns : ∀ column ∈ columns, column ∉ linkColumns)
    (hnew : ∀ id id' row row', NewRow table id row → now.row? table id' = some row' → row.SameKey columns row' → id = id') :
    now.KeyUnique table columns := by
  intro id id' row row' hrow hrow' hkey
  rcases hgrows table id row hrow with ⟨hadded, -⟩ | ⟨old, hold, hto⟩
  · exact hnew id id' row row' hadded hrow' hkey
  rcases hgrows table id' row' hrow' with ⟨hadded, -⟩ | ⟨old', hold', hto'⟩
  · exact (hnew id' id row' row hadded hrow hkey.symm).symm
  have hkept := (hto.sameKey hcolumns).symm.trans (hkey.trans (hto'.sameKey hcolumns))
  exact h id id' old old' hold hold' hkept

/-- Only the keys of rows that are linked anew have to be checked. New rows must not be linked already, so that two rows that were linked
before are old rows. -/
theorem KeyUniqueUnder.grows (h : before.KeyUniqueUnder parents column table columns)
    (hgrows : before.Grows linkColumns now NewRow NewLink) (hcolumn : column ∈ linkColumns)
    (hcolumns : ∀ column ∈ columns, column ∉ linkColumns)
    (hfresh : ∀ parent ∈ parents, ∀ holder id row, NewRow table id row → ¬before.Holds parent holder column id)
    (hnew : ∀ parent ∈ parents, ∀ holder id id' row row', NewLink parent holder column id → now.Holds parent holder column id' →
      now.row? table id = some row → now.row? table id' = some row' → row.SameKey columns row' → id = id') :
    now.KeyUniqueUnder parents column table columns := by
  intro parent hparent holder id id' row row' hholds hholds' hrow hrow' hkey
  rcases hgrows.holds hcolumn hholds with hheld | hadded
  · rcases hgrows.holds hcolumn hholds' with hheld' | hadded
    · rcases hgrows table id row hrow with ⟨hadded, -⟩ | ⟨old, hold, hto⟩
      · exact absurd hheld (hfresh parent hparent holder id row hadded)
      rcases hgrows table id' row' hrow' with ⟨hadded, -⟩ | ⟨old', hold', hto'⟩
      · exact absurd hheld' (hfresh parent hparent holder id' row' hadded)
      have hkept := (hto.sameKey hcolumns).symm.trans (hkey.trans (hto'.sameKey hcolumns))
      exact h parent hparent holder id id' old old' hheld hheld' hold hold' hkept
    · exact (hnew parent hparent holder id' id row' row hadded hholds hrow' hrow hkey.symm).symm
  · exact hnew parent hparent holder id id' row row' hadded hholds' hrow hrow' hkey

/-- Only the rows that are linked anew have to be checked. -/
theorem HeldOnce.grows (h : before.HeldOnce parents column) (hgrows : before.Grows linkColumns now NewRow NewLink)
    (hcolumn : column ∈ linkColumns)
    (hnew : ∀ parent ∈ parents, ∀ parent' ∈ parents, ∀ holder holder' link, NewLink parent holder column link →
      now.Holds parent' holder' column link → parent = parent' ∧ holder = holder') :
    now.HeldOnce parents column := by
  intro parent hparent parent' hparent' holder holder' link hholds hholds'
  rcases hgrows.holds hcolumn hholds with hheld | hadded
  · rcases hgrows.holds hcolumn hholds' with hheld' | hadded
    · exact h parent hparent parent' hparent' holder holder' link hheld hheld'
    · obtain ⟨htable, hholder⟩ := hnew parent' hparent' parent hparent holder' holder link hadded hholds
      exact ⟨htable.symm, hholder.symm⟩
  · exact hnew parent hparent parent' hparent' holder holder' link hadded hholds'

/-! ### Without new links -/

/-- Where nothing is linked anew, keys stay unique under parents. -/
theorem KeyUniqueUnder.of_bare (h : before.KeyUniqueUnder parents column table columns)
    (hgrows : before.Grows linkColumns now NewRow NewLink) (hcolumn : column ∈ linkColumns)
    (hcolumns : ∀ column ∈ columns, column ∉ linkColumns)
    (hfresh : ∀ parent ∈ parents, ∀ holder id row, NewRow table id row → ¬before.Holds parent holder column id)
    (hbare : ∀ parent ∈ parents, ∀ holder link, ¬NewLink parent holder column link) :
    now.KeyUniqueUnder parents column table columns := by
  refine h.grows hgrows hcolumn hcolumns hfresh ?_
  intro parent hparent holder id _ _ _ hadded
  exact absurd hadded (hbare parent hparent holder id)

/-- Where nothing is linked anew, rows stay held once. -/
theorem HeldOnce.of_bare (h : before.HeldOnce parents column) (hgrows : before.Grows linkColumns now NewRow NewLink)
    (hcolumn : column ∈ linkColumns) (hbare : ∀ parent ∈ parents, ∀ holder link, ¬NewLink parent holder column link) :
    now.HeldOnce parents column := by
  refine h.grows hgrows hcolumn ?_
  intro parent hparent _ _ holder _ link hadded
  exact absurd hadded (hbare parent hparent holder link)

/-! ### With a new row -/

variable {newTable : String} {id : RowId} {row : Row} {parent : Parent} {holder : RowId}

/-- Keys stay unique when no row had the key of the new one. -/
theorem KeyUnique.of_newRow (h : before.KeyUnique table columns)
    (hgrows : before.Grows linkColumns now (IsRow newTable id row) NewLink) (hcolumns : ∀ column ∈ columns, column ∉ linkColumns)
    (hfree : newTable = table → ∀ id' row', before.row? table id' = some row' → ¬row.SameKey columns row') :
    now.KeyUnique table columns := by
  refine h.grows hgrows hcolumns ?_
  rintro _ id' _ row' ⟨htable, rfl, rfl⟩ hrow' hkey
  rcases hgrows table id' row' hrow' with ⟨⟨-, hid, -⟩, -⟩ | ⟨old, hold, hto⟩
  · exact hid
  · exact absurd (hkey.trans (hto.sameKey hcolumns)) (hfree htable id' old hold)

/-- A row that hangs from a parent, when no row of the parent has its key. -/
theorem KeyUniqueUnder.of_hangs (h : before.KeyUniqueUnder parents column table columns)
    (hgrows : before.Grows linkColumns now (IsRow newTable id row) (fun table' holder' column link =>
      IsLinkOf newTable id row table' holder' column link ∨ Hangs parent holder id table' holder' column link))
    (hcolumn : column ∈ linkColumns) (hcolumns : ∀ column ∈ columns, column ∉ linkColumns) (htable : newTable ∉ parents)
    (hfresh : ∀ table' holder', ¬before.Holds table' holder' column id)
    (hfree : parent.column = column → ∀ id' row' row'', before.Holds parent.table holder column id' → now.row? table id = some row' →
      before.row? table id' = some row'' → ¬row'.SameKey columns row'') :
    now.KeyUniqueUnder parents column table columns := by
  refine h.grows hgrows hcolumn hcolumns ?_ ?_
  · rintro parent' - holder' _ _ ⟨-, rfl, -⟩
    exact hfresh parent' holder'
  · intro parent' hparent' holder' id₁ id₂ row₁ row₂ hadded hholds₂ hrow₁ hrow₂ hkey
    rcases hadded with ⟨rfl, -, -⟩ | ⟨rfl, rfl, hsame, rfl⟩
    · exact absurd hparent' htable
    rcases hgrows.holds hcolumn hholds₂ with hheld₂ | ⟨rfl, -, -⟩ | ⟨-, -, -, rfl⟩
    · rcases hgrows table id₂ row₂ hrow₂ with ⟨⟨-, hid, -⟩, -⟩ | ⟨old, hold, hto⟩
      · exact hid
      · exact absurd (hkey.trans (hto.sameKey hcolumns)) (hfree hsame id₂ row₁ old hheld₂ hrow₁ hold)
    · exact absurd hparent' htable
    · rfl

/-- A row that hangs from a parent hangs from no other row. -/
theorem HeldOnce.of_hangs (h : before.HeldOnce parents column)
    (hgrows : before.Grows linkColumns now NewRow (fun table' holder' column link =>
      IsLinkOf newTable id row table' holder' column link ∨ Hangs parent holder id table' holder' column link))
    (hcolumn : column ∈ linkColumns) (htable : newTable ∉ parents) (hfresh : ∀ table' holder', ¬before.Holds table' holder' column id) :
    now.HeldOnce parents column := by
  refine h.grows hgrows hcolumn ?_
  intro parent₁ hparent₁ parent₂ hparent₂ holder₁ holder₂ link hadded hholds₂
  rcases hadded with ⟨rfl, -, -⟩ | ⟨rfl, rfl, -, rfl⟩
  · exact absurd hparent₁ htable
  rcases hgrows.holds hcolumn hholds₂ with hheld₂ | ⟨rfl, -, -⟩ | ⟨htable₂, hholder₂, -, -⟩
  · exact absurd hheld₂ (hfresh parent₂ holder₂)
  · exact absurd hparent₂ htable
  · exact ⟨htable₂, hholder₂⟩

end Tables

/-! ## Keys in a mirror -/

/-- A model shows the columns of a key of the row as they are. -/
def Model.ShowsKey (m : Model) (columns : List String) (row : Row) : Prop :=
  ∀ column ∈ columns, ∃ v, row.get? column = some v ∧ v.Definite ∧ Schema.normalizeColumn m.columns column v = some v

/-- A key of strings and integers is written as it is shown. -/
theorem Model.Regular.showsKey_of_encode {m : Model} (hregular : m.Regular) {columns : List String}
    (hcolumns : ∀ column ∈ columns, ∃ f ∈ m.fields, f.column = column ∧ (f.slot = .string ∨ f.slot = .integer)) {record : Record}
    {row : Row} (hrow : m.encode record = .ok row) : m.ShowsKey columns row := by
  intro column hcolumn
  obtain ⟨f, hf, rfl, hslot⟩ := hcolumns column hcolumn
  have hvalue := (Model.get?_encode hregular.columns hrow).1 f hf
  have hsome : ∃ v, row.get? f.column = some v ∧ v.Definite := by
    rcases hslot with hslot | hslot
    · simp only [Field.value, hslot, Except.ok.injEq] at hvalue
      exact ⟨_, hvalue.symm, Value.definite_string _⟩
    · simp only [Field.value, hslot, Except.ok.injEq] at hvalue
      exact ⟨_, hvalue.symm, Value.definite_integer _⟩
  obtain ⟨v, hv, hdefinite⟩ := hsome
  have hform := hregular.normalizeColumn_of_encode hrow f.column
  rw [hv, Option.bind_some] at hform
  exact ⟨v, hv, hdefinite, hform⟩

/-- A row of which the key stays the same still shows it. -/
theorem Model.ShowsKey.congr {m : Model} {columns : List String} {row row' : Row} (h : m.ShowsKey columns row)
    (hkey : row'.SameKey columns row) : m.ShowsKey columns row' := by
  intro column hcolumn
  rw [hkey column hcolumn]
  exact h column hcolumn

/-- A row of the server that has the key of another row is found in a cache that mirrors the tables. -/
theorem Replica.Mirrors.meets_of_sameKey {r : Replica} {tables : Tables} {models : List Model} (h : r.Mirrors tables)
    (hserves : r.Serves models) {m : Model} (hm : m ∈ models) {key : RowKey} {row row' wanted : Row} {id : RowId}
    (hne : key.columns ≠ []) (hid : idColumn ∉ key.columns) (hwanted : key.extract row = .ok wanted)
    (hrow' : tables.row? m.table id = some row') (hshows : m.ShowsKey key.columns row') (hkey : row.SameKey key.columns row') :
    ∃ shown, r.cache.row? m.table id = some shown ∧ shown.meets id wanted = true := by
  have hform : ∀ column ∈ key.columns, ∃ v, row'.get? column = some v ∧ v.Definite ∧
      (row'.get? column).bind (Schema.normalizeColumn (r.schema.kinds m.table) column) = some v := by
    intro column hcolumn
    obtain ⟨v, hv, hdefinite, hnormal⟩ := hshows column hcolumn
    refine ⟨v, hv, hdefinite, ?_⟩
    rw [hserves.kinds hm, hv, Option.bind_some, hnormal]
  obtain ⟨first, hfirst⟩ := List.exists_mem_of_ne_nil _ hne
  obtain ⟨_, -, -, hkept⟩ := hform first hfirst
  obtain ⟨shown, hshown, hshow⟩ := h.shows_of_column (hserves.knows hm) hrow' hkept
  refine ⟨shown, hshown, Row.meets_of_get?_eq ?_⟩
  intro column v hv
  rw [RowKey.of_extract hwanted] at hv
  split at hv
  · rename_i hcolumn
    obtain ⟨v', hv', hdefinite, hnormal⟩ := hform column hcolumn
    rw [hkey column hcolumn, hv'] at hv
    cases hv
    refine ⟨?_, hshow.get?_eq_some hdefinite hnormal, (hdefinite v).mpr rfl⟩
    rintro rfl
    exact hid hcolumn
  · cases hv

end TableReplica
