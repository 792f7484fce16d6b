import TableReplica.Cache.Basic

/-!
# Rows and the parents that hold them

Before anything is composed, the rows it is about are looked up in the cache, and each look-up must find exactly one row. A child row
hangs from a parent row: a column of the parent holds the child's identifier. The parent is named by its identifier, by a key, or as
the row that holds the child.
-/

namespace TableReplica

/-- The scope in which the natural key of a new row must be free. -/
inductive Scope where
  | table
  /-- The rows that the parent holds. -/
  | parent
deriving DecidableEq

/-- The columns that tell whether two rows stand for the same thing. -/
structure RowKey where
  columns : List String
  scope : Scope
deriving DecidableEq

namespace RowKey

/-- A key that must be free in the whole table. -/
def inTable (columns : List String) : RowKey := ⟨columns, .table⟩

/-- A key that must be free among the rows of a parent. -/
def inParent (columns : List String) : RowKey := ⟨columns, .parent⟩

/-- The key columns of a row, of which none may be missing. -/
def extract (key : RowKey) (row : Row) : Except Error Row :=
  if key.columns.isEmpty then .error (.badArgument .noKeyColumns)
  else match key.columns.find? (fun column => !row.contains column) with
    | some column => .error (.badArgument (.keyColumnMissing column))
    | none => .ok (row.filter (fun column _ => decide (column ∈ key.columns)))

end RowKey

inductive Selector where
  | id (id : RowId)
  | key (key : Row)
  /-- The row that holds the child, which must exist already. -/
  | holder
deriving DecidableEq

/-- A parent row and the column of its table that holds its children. -/
structure Parent where
  table : String
  column : String
  selector : Selector
deriving DecidableEq

/-- The rows a column names: the members of a set that are identifiers, or the identifier itself. -/
def Row.links (row : Row) (column : String) : List RowId := ((row.get? column).toList.flatMap Value.members).filterMap Value.rowId?

namespace Cache

/-- The only hit of a search for `wanted` in a table. -/
def onlyHit (table : String) (wanted : Row) : List RowId → Except Error RowId
  | [] => .error (.missing [table] (.key wanted))
  | [id] => .ok id
  | hits => .error (.several (some table) wanted (hits.map (table, ·)))

/-- The row with the given columns. -/
def onlyRow (c : Cache) (table : String) (key : Row) : Except Error RowId :=
  (c.idsMeeting table key).bind (onlyHit table key)

/-- The row whose column holds the child. -/
def onlyHolder (c : Cache) (table column : String) (child : RowId) : Except Error RowId :=
  (c.idsHolding table column child).bind (onlyHit table (.singleton column (.uuid child)))

/-- The parent row, where the child may not exist yet. -/
def parentId (c : Cache) (parent : Parent) (child : Option RowId) : Except Error RowId :=
  match parent.selector with
  | .id id => (c.row parent.table id).map (fun _ => id)
  | .key key => c.onlyRow parent.table key
  | .holder =>
    match child with
    | some child => c.onlyHolder parent.table parent.column child
    | none => .error (.badArgument .holderWithoutChild)

/-- The rows with the given columns in a table that may not be known. -/
def idsKnown (c : Cache) (table : String) (key : Row) : Except Error (List RowId) :=
  match c.idsMeeting table key with
  | .error e => if e.isMissing then .ok [] else .error e
  | found => found

/-- The rows with the given columns in any of several tables, each with its table and the column that holds children there. -/
def idsAmong (c : Cache) (key : Row) : List (String × String) → Except Error (List (String × String × RowId))
  | [] => .ok []
  | (table, column) :: rest => do
    let found ← c.idsKnown table key
    let others ← c.idsAmong key rest
    return found.map (fun id => (table, column, id)) ++ others

/-- The only parent with the given columns in any of several tables. -/
def onlyParent (c : Cache) (candidates : List (String × String)) (key : Row) : Except Error Parent :=
  if candidates.isEmpty then .error (.badArgument .noCandidates)
  else (c.idsAmong key candidates).bind fun
    | [] => .error (.missing (candidates.map (·.1)) (.key key))
    | [(table, column, id)] => .ok ⟨table, column, .id id⟩
    | hits => .error (.several none key (hits.map (fun hit => (hit.1, hit.2.2))))

/-- The rows with the given columns that the parent row holds. -/
def childrenMeeting (c : Cache) (parent : Parent) (holder : RowId) (table : String) (key : Row) :
    Except Error (List RowId) := do
  let holding ← c.row parent.table holder
  let found ← c.idsMeeting table key
  return found.filter (fun id => decide (id ∈ holding.links parent.column))

/-- No row is among those found with the key. -/
def requireAbsent (table : String) (key : Row) : List RowId → Except Error Unit
  | [] => .ok ()
  | id :: _ => .error (.duplicate table id key)

end Cache

end TableReplica
