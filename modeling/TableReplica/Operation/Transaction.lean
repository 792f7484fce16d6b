import TableReplica.Operation.Basic

/-!
# Transactions and their outcomes

A transaction is a list of operations that the server carries out whole or not at all. Its placeholders are scoped: each is defined
by one insert and read only after it. `Transaction.fault?` finds the first fault of a list, and a `Transaction` carries the proof
that there is none.

A transaction that is accepted has one effect per operation and an identifier for each placeholder; one that is refused has a
`Refusal`: the index of the operation to blame, when there is one, and the cause.
-/

namespace TableReplica

namespace Transaction

/-- The first fault of an operation when the given placeholders are defined before it. -/
def operationFault? (defined : List Placeholder) (op : Operation) : Option Fault :=
  if op.table.isEmpty then some .noTable
  else if op.uses.all (fun p => decide (p ∈ defined)) = false then some .undefinedPlaceholder
  else if op.defined?.any (fun p => decide (p ∈ defined)) then some .placeholderDefinedTwice
  else if op.changesMatches && op.filter.isEmpty then some .noCondition
  else none

/-- The first fault of a list of operations, read from the front. -/
def scopeFault? (defined : List Placeholder) : List Operation → Option Fault
  | [] => none
  | op :: rest => (operationFault? defined op).or (scopeFault? (op.defined?.toList ++ defined) rest)

def fault? (ops : List Operation) : Option Fault :=
  if ops.isEmpty then some .noOperations else scopeFault? [] ops

end Transaction

structure Transaction where
  operations : List Operation
  wellScoped : Transaction.fault? operations = none

namespace Transaction

instance : DecidableEq Transaction := fun a b =>
  decidable_of_iff (a.operations = b.operations) ⟨fun h => by cases a; cases b; cases h; rfl, fun h => h ▸ rfl⟩

def ofList (ops : List Operation) : Except Violation Transaction :=
  match h : fault? ops with
  | some f => .error (.malformed f)
  | none => .ok ⟨ops, h⟩

def size (t : Transaction) : Nat := t.operations.length

/-- Several transactions as one, their operations one after the other. -/
def merge (parts : List Transaction) : Except Violation Transaction := ofList (parts.flatMap (·.operations))

/-- The placeholders that are defined, each with the index of its insert. -/
def placeholders (t : Transaction) : SortedMap Placeholder Nat :=
  .ofList (t.operations.zipIdx.filterMap (fun p => p.1.defined?.map (·, p.2)))

end Transaction

/-! ## Outcomes -/

/-- What an operation did. -/
inductive Effect where
  | inserted (id : RowId)
  /-- It met this many rows. -/
  | met (rows : UInt64)
  | selected (rows : List Row)
deriving DecidableEq

/-- What the placeholders of a transaction stand for. -/
abbrev Assignment := SortedMap Placeholder RowId

structure Reply where
  effects : List Effect
  assignment : Assignment
deriving DecidableEq

/-- Why a transaction was not carried out. -/
inductive RefusalCause where
  /-- The server gave this code and these details. -/
  | reported (code details : String)
  | unknownPlaceholder (name : Placeholder)
  | identifierChange
  | danglingReference (table : String) (row target : RowId)
  | replyNotList
  | fewerResults
  | insertWithoutId
  | selectWithoutRows
  | unreadableRow (violation : Violation)
  | effectCount (got expected : Nat)
  | unassigned (name : Placeholder)
  /-- The call to the server failed with this text. -/
  | callFailed (text : String)
deriving DecidableEq

namespace RefusalCause

def code : RefusalCause → String
  | .reported code _ => code
  | .unknownPlaceholder _ => "syntax error"
  | .identifierChange => "constraint violation"
  | .danglingReference _ _ _ => "referential integrity violation"
  | .callFailed _ => "rpc error"
  | .replyNotList | .fewerResults | .insertWithoutId | .selectWithoutRows | .unreadableRow _ | .effectCount _ _
  | .unassigned _ => "malformed reply"

def details : RefusalCause → String
  | .reported _ details => details
  | .unknownPlaceholder name => "unknown named-uuid " ++ name.text
  | .identifierChange => "_uuid is immutable"
  | .danglingReference table row target => table ++ " row " ++ row.text ++ " references missing row " ++ target.text
  | .replyNotList => "result must be an array"
  | .fewerResults => "fewer results than operations"
  | .insertWithoutId => "insert without uuid"
  | .selectWithoutRows => "select without rows"
  | .unreadableRow violation => violation.message
  | .effectCount got expected => toString got ++ " results for " ++ toString expected ++ " operations"
  | .unassigned name => "no identifier assigned to " ++ name.text
  | .callFailed text => text

end RefusalCause

structure Refusal where
  index : Option Nat
  cause : RefusalCause
deriving DecidableEq

end TableReplica
