import TableReplica.Operation.Placeholder
import TableReplica.Row

/-!
# Operations

A transaction is a list of operations on tables: rows are inserted, and the rows that pass a filter are updated, deleted, mutated in
one set column, or selected.
-/

namespace TableReplica

/-- A row named inside an operation: by its identifier, or by the placeholder of an earlier insert. -/
inductive RowReference where
  | resolved (id : RowId)
  | named (placeholder : Placeholder)
deriving DecidableEq

/-- What a condition compares with or a mutation adds and removes. -/
inductive Operand where
  | plain (value : Value)
  | reference (ref : RowReference)
deriving DecidableEq

def Operand.placeholder? : Operand → Option Placeholder
  | .reference (.named p) => some p
  | _ => none

inductive Comparison where
  | equal
  | notEqual
  | includes
  | excludes
deriving DecidableEq

structure Condition where
  column : String
  comparison : Comparison
  operand : Operand
deriving DecidableEq

namespace Condition

/-- The row is the one named. -/
def isRow (ref : RowReference) : Condition := ⟨idColumn, .equal, .reference ref⟩

/-- The column holds the value. -/
def holds (column : String) (value : Value) : Condition := ⟨column, .equal, .plain value⟩

end Condition

/-- How a mutation changes a set. -/
inductive Mutator where
  | insert
  | delete
deriving DecidableEq

inductive Operation where
  | insert (table : String) (row : Row) (name : Option Placeholder)
  | update (table : String) (row : Row) (filter : List Condition)
  | delete (table : String) (filter : List Condition)
  | mutate (table column : String) (mutator : Mutator) (operand : Operand) (filter : List Condition)
  | select (table : String) (filter : List Condition)
deriving DecidableEq

namespace Operation

def table : Operation → String
  | .insert table _ _ | .update table _ _ | .delete table _ | .mutate table _ _ _ _ | .select table _ => table

/-- The conditions a row has to meet; an insert has none. -/
def filter : Operation → List Condition
  | .insert _ _ _ => []
  | .update _ _ filter | .delete _ filter | .mutate _ _ _ _ filter | .select _ filter => filter

/-- The placeholder the operation defines. -/
def defined? : Operation → Option Placeholder
  | .insert _ _ name => name
  | _ => none

/-- The placeholders the operation reads: those of its conditions, then that of its mutation. -/
def uses (op : Operation) : List Placeholder :=
  op.filter.filterMap (·.operand.placeholder?) ++
    match op with
    | .mutate _ _ _ operand _ => operand.placeholder?.toList
    | _ => []

/-- The operation changes the rows that pass its filter, and so must have one. -/
def changesMatches : Operation → Bool
  | .update _ _ _ | .delete _ _ | .mutate _ _ _ _ _ => true
  | _ => false

end Operation

end TableReplica
