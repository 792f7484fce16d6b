import TableReplica.Operation.Transaction

/-!
# Carrying out operations

The operations of a transaction are carried out one after the other on a copy of the tables. An insert takes the next identifier of
the supply, and gives it to its placeholder; identifiers stay taken when a later operation fails.

An operation acts on the rows of its table that meet all its conditions. Conditions are read from left to right, and a condition
after one that fails is not read, so a placeholder in it may be unknown. A column that is missing is an empty set, and a scalar is the
set that holds it alone.
-/

namespace TableReplica

/-! ## Filters -/

/-- The value an operand stands for. -/
def Operand.resolve (names : Assignment) : Operand → Except RefusalCause Value
  | .plain v => .ok v
  | .reference (.resolved id) => .ok (.uuid id)
  | .reference (.named name) =>
    match names.get? name with
    | some id => .ok (.uuid id)
    | none => .error (.unknownPlaceholder name)

/-- The members of a stored column. -/
def Value.stored (column : Option Value) : List Value := (column.map members).getD []

namespace Comparison

/-- The comparison holds between the members of a stored column and those of the value it is compared with. -/
def test : Comparison → List Value → List Value → Bool
  | .equal, stored, wanted => Value.membersAgree stored wanted
  | .notEqual, stored, wanted => !Value.membersAgree stored wanted
  | .includes, stored, wanted => wanted.all (·.isAmong stored)
  | .excludes, stored, wanted => wanted.all (fun w => !w.isAmong stored)

end Comparison

/-- A column of a row, where the column of the identifier holds the identifier. -/
def Row.column? (id : RowId) (row : Row) (column : String) : Option Value :=
  if column = idColumn then some (.uuid id) else row.get? column

/-- The row meets all the conditions. -/
def Row.passes (names : Assignment) (id : RowId) (row : Row) : List Condition → Except RefusalCause Bool
  | [] => .ok true
  | c :: rest =>
    match c.operand.resolve names with
    | .error cause => .error cause
    | .ok wanted =>
      if c.comparison.test (Value.stored (row.column? id c.column)) wanted.members then row.passes names id rest
      else .ok false

/-- The rows that meet all the conditions. -/
def RowMap.matching (rows : RowMap) (names : Assignment) (filter : List Condition) : Except RefusalCause RowMap :=
  rows.filterMapOk (fun id row => (row.passes names id filter).map (fun hit => if hit then some row else none))

/-! ## Execution -/

/-- The rows of each table. -/
abbrev Tables := SortedMap String RowMap

/-- The rows of a table; a table never heard of has none. -/
def Tables.rows (tables : Tables) (table : String) : RowMap := tables.getD table ∅

/-- A transaction halfway: the tables so far, what the placeholders stand for, and how many identifiers have been taken. -/
structure Workspace where
  tables : Tables
  names : Assignment
  drawn : Nat
deriving DecidableEq

/-- The members of a column as a mutation finds them, where an empty map counts as an empty set. -/
def Value.mutable (column : Option Value) : List Value :=
  match column with
  | some (.map entries) => if entries.isEmpty then [] else [.map entries]
  | column => Value.stored column

/-- The members of a column after a mutation. -/
def Mutator.change : Mutator → List Value → List Value → List Value
  | .insert, current, changes => current ++ changes
  | .delete, current, changes => current.filter (fun v => !v.isAmong changes)

/-- A row with one column mutated. -/
def Row.mutate (row : Row) (column : String) (mutator : Mutator) (value : Value) : Row :=
  row.insert column (.ofList (mutator.change (Value.mutable (row.get? column)) value.members))

/-- A row as it is read back, with its identifier in its column. -/
def Row.withId (id : RowId) (row : Row) : Row := row.insert idColumn (.uuid id)

/-- The number of rows that an operation met. -/
def Effect.ofHits (hits : RowMap) : Effect := .met (.ofNat hits.size)

namespace Workspace

/-- The workspace with the rows of a table that `hits` holds changed, or left out. -/
def revise (w : Workspace) (table : String) (hits : RowMap) (change : Row → Option Row) : Workspace :=
  let rows := (w.tables.rows table).filterMap (fun id row => if hits.contains id then change row else some row)
  { w with tables := w.tables.insert table rows }

/-- The workspace with a new row, under the placeholder if it has one. -/
def addRow (w : Workspace) (table : String) (id : RowId) (row : Row) (name : Option Placeholder) : Workspace where
  tables := w.tables.insert table ((w.tables.rows table).insert id row)
  names := match name with
    | some name => w.names.insert name id
    | none => w.names
  drawn := w.drawn + 1

/-- One operation carried out. -/
def apply (supply : RowIdSupply) (w : Workspace) : Operation → Except RefusalCause (Effect × Workspace)
  | .insert table row name => .ok (.inserted (supply w.drawn), w.addRow table (supply w.drawn) row name)
  | .update table changes filter => do
    if changes.contains idColumn then .error .identifierChange
    let hits ← (w.tables.rows table).matching w.names filter
    return (.ofHits hits, w.revise table hits (fun row => some (row.insertAll changes.entries)))
  | .delete table filter => do
    let hits ← (w.tables.rows table).matching w.names filter
    return (.ofHits hits, w.revise table hits (fun _ => none))
  | .mutate table column mutator operand filter => do
    let value ← operand.resolve w.names
    let hits ← (w.tables.rows table).matching w.names filter
    return (.ofHits hits, w.revise table hits (fun row => some (row.mutate column mutator value)))
  | .select table filter => do
    let hits ← (w.tables.rows table).matching w.names filter
    return (.selected (hits.entries.map (fun e => e.2.withId e.1)), w)

/-- Operations carried out from the given index on, up to the first that fails. -/
def run (supply : RowIdSupply) (w : Workspace) (index : Nat) :
    List Operation → Except Refusal (List Effect) × Workspace
  | [] => (.ok [], w)
  | op :: rest =>
    match w.apply supply op with
    | .error cause => (.error ⟨some index, cause⟩, w)
    | .ok (effect, w') =>
      let (outcome, last) := w'.run supply (index + 1) rest
      (outcome.map (effect :: ·), last)

end Workspace

end TableReplica
