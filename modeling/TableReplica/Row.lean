import TableReplica.Value.Kind
import TableReplica.SortedMap.Lemmas

/-!
# Rows and their changes

A row maps column names to values. The column `_uuid` is never stored: it stands for the identifier of the row wherever a row is
searched for or read back.

The server tells what a commit changed as a batch: for each table a list of rows with their states before and after. An empty state
is no state.
-/

namespace TableReplica

abbrev Row := SortedMap String Value

/-- The rows of a table by identifier. -/
abbrev RowMap := SortedMap RowId Row

/-- The column that stands for the identifier of a row. -/
def idColumn : String := "_uuid"

namespace Row

/-- Equality of the data meant, column by column. -/
def agrees (a b : Row) : Bool := SortedMap.agrees Value.agrees a b

/-- The columns with their values, as messages show them. -/
def describe (row : Row) : String := ",".intercalate (row.entries.map (fun e => e.1 ++ "=" ++ e.2.describe))

/-- A row whose state is worth keeping; an empty row means that there is no row. -/
def nonempty? (row : Row) : Option Row := if row.isEmpty then none else some row

end Row

/-! ## Batches of changes -/

structure RowChange where
  id : RowId
  before : Option Row
  after : Option Row
deriving DecidableEq

namespace RowChange

/-- A change between two states, of which empty ones are none. -/
def ofStates (id : RowId) (before after : Option Row) : RowChange :=
  ⟨id, before.bind Row.nonempty?, after.bind Row.nonempty?⟩

end RowChange

/-- The changes of each table, in order of arrival. -/
structure ChangeBatch where
  tables : SortedMap String (List RowChange)
deriving DecidableEq

namespace ChangeBatch

def empty : ChangeBatch := ⟨∅⟩

def isEmpty (batch : ChangeBatch) : Bool := batch.tables.values.all List.isEmpty

/-- The number of changes in all tables. -/
def size (batch : ChangeBatch) : Nat := batch.tables.values.flatten.length

end ChangeBatch

end TableReplica
