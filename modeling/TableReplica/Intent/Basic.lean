import TableReplica.Intent.Naming
import TableReplica.Intent.Parent

/-!
# Intents

One intent of a caller, such as inserting a row and hanging it from its parent, becomes one transaction. The rows it is about are
looked up first and named by their identifiers, so no operation can meet no row or more than one. Only an insert takes a
placeholder from the supply.
-/

namespace TableReplica

/-- A transaction that inserts a row, and the placeholder of that row. -/
structure Insertion where
  transaction : Transaction
  name : Placeholder
deriving DecidableEq

/-- A list of operations as a transaction. -/
def Transaction.compose (ops : List Operation) : Except Error Transaction := asError (Transaction.ofList ops)

namespace Operation

/-- A child put into the column of its parent that holds it. -/
def attach (parent : Parent) (holder : RowId) (child : RowReference) : Operation :=
  .mutate parent.table parent.column .insert (.reference child) [.isRow (.resolved holder)]

/-- A child taken out of that column. -/
def detach (parent : Parent) (holder child : RowId) : Operation :=
  .mutate parent.table parent.column .delete (.reference (.resolved child)) [.isRow (.resolved holder)]

end Operation

namespace NameSupply

/-- The transaction that inserts a row under the next placeholder, with the operations that name it. The placeholder is taken even
when there is no such transaction. -/
def insertion (names : NameSupply) (table : String) (row : Row) (rest : Placeholder → List Operation) :
    Except Error Insertion × NameSupply :=
  let name := names.placeholder
  ((Transaction.compose (.insert table row (some name) :: rest name)).map (⟨·, name⟩), names.advance)

/-- The key of a new row that hangs from no parent, which must be free. -/
def checkRoot (cache : Cache) (table : String) (row : Row) (key : RowKey) : Except Error Unit := do
  if key.scope = .parent then .error (.badArgument .parentKeyWithoutParent)
  let wanted ← key.extract row
  let found ← cache.idsMeeting table wanted
  Cache.requireAbsent table wanted found

/-- The parent of a new row, once the key of the row is known to be free. -/
def checkChild (cache : Cache) (table : String) (row : Row) (key : RowKey) (parent : Parent) : Except Error RowId := do
  if parent.selector = .holder then .error (.badArgument .holderOfNewRow)
  let holder ← cache.parentId parent none
  let wanted ← key.extract row
  let found ← match key.scope with
    | .table => cache.idsMeeting table wanted
    | .parent => cache.childrenMeeting parent holder table wanted
  Cache.requireAbsent table wanted found
  return holder

/-- Inserts a row that hangs from no parent, unless one with its natural key is there. -/
def insertRoot (names : NameSupply) (cache : Cache) (table : String) (row : Row) (key : RowKey) :
    Except Error Insertion × NameSupply :=
  match checkRoot cache table row key with
  | .error e => (.error e, names)
  | .ok () => names.insertion table row (fun _ => [])

/-- Inserts a row and hangs it from its parent, unless one with its natural key is there. -/
def insertUnder (names : NameSupply) (cache : Cache) (table : String) (row : Row) (key : RowKey) (parent : Parent) :
    Except Error Insertion × NameSupply :=
  match checkChild cache table row key parent with
  | .error e => (.error e, names)
  | .ok holder => names.insertion table row (fun name => [.attach parent holder (.named name)])

end NameSupply

namespace Cache

/-- A child and its parent. A holder is looked up from the child, which its key must tell apart in its whole table; otherwise the key
must tell the child apart among the rows of the parent. -/
def onlyLink (cache : Cache) (table : String) (key : Row) (parent : Parent) : Except Error (RowId × RowId) :=
  match parent.selector with
  | .holder => do
    let child ← cache.onlyRow table key
    let holder ← cache.parentId parent (some child)
    return (child, holder)
  | _ => do
    let holder ← cache.parentId parent none
    let hits ← cache.childrenMeeting parent holder table key
    let child ← onlyHit table key hits
    return (child, holder)

/-- Takes a child out of its parent and deletes it. -/
def removeChild (cache : Cache) (table : String) (key : Row) (parent : Parent) : Except Error Transaction := do
  let (child, holder) ← cache.onlyLink table key parent
  Transaction.compose [.detach parent holder child, .delete table [.isRow (.resolved child)]]

/-- Deletes the row with the given columns. -/
def removeRow (cache : Cache) (table : String) (key : Row) : Except Error Transaction := do
  let id ← cache.onlyRow table key
  Transaction.compose [.delete table [.isRow (.resolved id)]]

/-- Replaces columns of the row with the given columns; its identifier cannot be replaced. -/
def changeRow (cache : Cache) (table : String) (key changes : Row) : Except Error Transaction := do
  if changes.isEmpty then .error (.badArgument .noChanges)
  if changes.contains idColumn then .error (.badArgument .identifierChange)
  let id ← cache.onlyRow table key
  Transaction.compose [.update table changes [.isRow (.resolved id)]]

/-- Adds to or takes from a set column of the row with the given columns. A placeholder would have no insert to define it. -/
def changeSet (cache : Cache) (table : String) (key : Row) (column : String) (mutator : Mutator) (operand : Operand) :
    Except Error Transaction := do
  if operand.placeholder?.isSome then .error (.badArgument .placeholderValue)
  let id ← cache.onlyRow table key
  Transaction.compose [.mutate table column mutator operand [.isRow (.resolved id)]]

end Cache

/-- The condition that a row has a wanted column, where an identifier in its column names the row. -/
def Condition.ofColumn (column : String) (value : Value) : Condition :=
  match value with
  | .uuid id => if column = idColumn then .isRow (.resolved id) else .holds column value
  | _ => .holds column value

/-- Asks the server for the rows with the given columns. Nothing is looked up here. -/
def Transaction.selectWhere (table : String) (key : Row) : Except Error Transaction :=
  if key.isEmpty then .error (.badArgument .noColumns)
  else Transaction.compose [.select table (key.entries.map (fun e => .ofColumn e.1 e.2))]

end TableReplica
