import TableReplica.Proofs.Told
import TableReplica.Proofs.References
import TableReplica.Proofs.Scoping
import TableReplica.Intent.Basic

/-!
# Rows under operations

What an operation does, row by row. An insert puts one row (`Workspace.row?_addRow`), and an operation whose filter names a row by its
identifier changes or removes that row and no other (`Workspace.row?_revise_only`). The transactions that are composed
from intents are lists of such operations, and their runs are worked out here.
-/

namespace TableReplica

/-- The row of a table under an identifier, when there is one. -/
def Tables.row? (tables : Tables) (table : String) (id : RowId) : Option Row := (tables.rows table).get? id

namespace Tables

/-- An identifier that is not live has no row. -/
theorem row?_of_not_live {tables : Tables} {id : RowId} (h : tables.live id = false) (table : String) :
    tables.row? table id = none := by
  cases hrow : tables.row? table id with
  | none => rfl
  | some row =>
    rw [(live_iff tables id).mpr ⟨table, row, hrow⟩] at h
    cases h

/-- There is a new row, and all others are as they were. -/
def Gains (before now : Tables) (table : String) (id : RowId) (row : Row) : Prop :=
  ∀ table' id', now.row? table' id' = if table = table' ∧ id = id' then some row else before.row? table' id'

/-- There is a new row, its parent has one link more, and all others are as they were. -/
def GainsUnder (before now : Tables) (table : String) (id : RowId) (row : Row) (parent : Parent) (holder : RowId) : Prop :=
  ∀ table' id', now.row? table' id' =
    if table = table' ∧ id = id' then some row
    else if parent.table = table' ∧ holder = id' then
      (before.row? table' id').map (·.mutate parent.column .insert (.uuid id))
    else before.row? table' id'

namespace GainsUnder

variable {before now : Tables} {table : String} {id : RowId} {row : Row} {parent : Parent} {holder : RowId}

/-- The new row is in its table. -/
theorem row?_new (h : before.GainsUnder now table id row parent holder) : now.row? table id = some row := by
  rw [h, if_pos ⟨rfl, rfl⟩]

/-- The parent has the new row among its links. -/
theorem row?_parent (h : before.GainsUnder now table id row parent holder) (hne : table ≠ parent.table) :
    now.row? parent.table holder =
      (before.row? parent.table holder).map (·.mutate parent.column .insert (.uuid id)) := by
  rw [h, if_neg (fun heq => hne heq.1), if_pos ⟨rfl, rfl⟩]

/-- All other rows are what they were. -/
theorem row?_other (h : before.GainsUnder now table id row parent holder) {table' : String} {id' : RowId}
    (hnew : ¬(table = table' ∧ id = id')) (hparent : ¬(parent.table = table' ∧ holder = id')) :
    now.row? table' id' = before.row? table' id' := by
  rw [h, if_neg hnew, if_neg hparent]

end GainsUnder

/-- A row is gone, and all others are as they were. -/
def Loses (before now : Tables) (table : String) (id : RowId) : Prop :=
  ∀ table' id', now.row? table' id' = if table = table' ∧ id = id' then none else before.row? table' id'

/-- A row is gone, its parent has one link less, and all others are as they were. -/
def LosesUnder (before now : Tables) (table : String) (id : RowId) (parent : Parent) (holder : RowId) : Prop :=
  ∀ table' id', now.row? table' id' =
    if table = table' ∧ id = id' then none
    else if parent.table = table' ∧ holder = id' then
      (before.row? table' id').map (·.mutate parent.column .delete (.uuid id))
    else before.row? table' id'

end Tables

/-- The rows of a table that have the given identifier. -/
def RowMap.only (rows : RowMap) (id : RowId) : RowMap := rows.filter (fun id' _ => decide (id' = id))

namespace RowMap

/-- Of some rows only the one asked for is left. -/
theorem get?_only (rows : RowMap) (id id' : RowId) : (rows.only id).get? id' = if id' = id then rows.get? id' else none := by
  rw [only, SortedMap.get?_filter]
  by_cases h : id' = id <;> cases rows.get? id' <;> simp [h]

/-- Conditions that only the row of an identifier passes are met by that row alone. -/
theorem matching_of_passes {rows : RowMap} {names : Assignment} {filter : List Condition} {id : RowId}
    (h : ∀ e ∈ rows.entries, Row.passes names e.1 e.2 filter = .ok (decide (e.1 = id))) :
    rows.matching names filter = .ok (rows.only id) := by
  rw [matching, SortedMap.filterMapOk_of_forall_ok (g := fun id' row => if id' = id then some row else none)
    (fun e he => by rw [h e he]; simp [Except.map])]
  congr 1
  apply SortedMap.ext_get?
  intro id'
  rw [SortedMap.get?_filterMap, get?_only]
  by_cases hid : id' = id <;> cases rows.get? id' <;> simp [hid]

/-- The filter that names a row by its identifier is met by that row alone. -/
theorem matching_isRow (rows : RowMap) (names : Assignment) (id : RowId) :
    rows.matching names [.isRow (.resolved id)] = .ok (rows.only id) := by
  refine matching_of_passes fun e _ => ?_
  by_cases h : e.1 = id <;>
    simp [Row.passes, Condition.isRow, Operand.resolve, Comparison.test, Row.column?, Value.stored, Value.members,
      Value.membersAgree, Value.agrees, h]

end RowMap

namespace Workspace

/-- An operation on the row of an identifier leaves all other rows alone. -/
theorem row?_revise_only (w : Workspace) (table table' : String) (id id' : RowId) (change : Row → Option Row) :
    (w.revise table ((w.tables.rows table).only id) change).tables.row? table' id' =
      if table = table' ∧ id = id' then (w.tables.row? table' id').bind change else w.tables.row? table' id' := by
  rw [Tables.row?, revise, Tables.rows_insert]
  by_cases ht : table = table'
  · subst ht
    rw [if_pos rfl, SortedMap.get?_filterMap, Tables.row?]
    cases hrow : (w.tables.rows table).get? id' with
    | none => simp
    | some row =>
      by_cases hid : id' = id
      · subst hid
        simp [SortedMap.contains, RowMap.get?_only, hrow]
      · simp [SortedMap.contains, RowMap.get?_only, hid, Ne.symm hid]
  · rw [if_neg ht, if_neg (fun h => ht h.1)]
    rfl

/-- Adding a row changes no other. -/
theorem row?_addRow (w : Workspace) (table table' : String) (id id' : RowId) (row : Row) (name : Option Placeholder) :
    (w.addRow table id row name).tables.row? table' id' =
      if table = table' ∧ id = id' then some row else w.tables.row? table' id' := by
  show (Tables.rows (w.tables.insert table ((w.tables.rows table).insert id row)) table').get? id' = _
  rw [Tables.rows_insert]
  by_cases ht : table = table'
  · subst ht
    rw [if_pos rfl, SortedMap.get?_insert]
    by_cases hid : id = id' <;> simp [hid, Tables.row?]
  · rw [if_neg ht, if_neg (fun h => ht h.1)]
    rfl

variable (supply : RowIdSupply)

/-- A deletion aimed at one row takes that row away, if it is there. -/
theorem apply_delete_isRow (w : Workspace) (table : String) (id : RowId) :
    w.apply supply (.delete table [.isRow (.resolved id)]) =
      .ok (.ofHits ((w.tables.rows table).only id), w.revise table ((w.tables.rows table).only id) (fun _ => none)) := by
  rw [apply, RowMap.matching_isRow]
  rfl

/-- A mutation aimed at one row changes that row, if it is there. -/
theorem apply_mutate_isRow (w : Workspace) (table column : String) (mutator : Mutator) {operand : Operand} {value : Value}
    (hvalue : operand.resolve w.names = .ok value) (id : RowId) :
    w.apply supply (.mutate table column mutator operand [.isRow (.resolved id)]) =
      .ok (.ofHits ((w.tables.rows table).only id),
        w.revise table ((w.tables.rows table).only id) (fun row => some (row.mutate column mutator value))) := by
  rw [apply, hvalue, RowMap.matching_isRow]
  rfl

end Workspace

end TableReplica
