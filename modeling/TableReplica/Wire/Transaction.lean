import TableReplica.Wire.Value
import TableReplica.Operation.Transaction

/-!
# Transactions and replies on the wire

A transaction is sent as the name of the database followed by one object per operation. A placeholder is `["named-uuid", name]`,
which no plain value is.

The answer to a transaction is a list with one entry per operation. An entry with an error blames its operation; an entry behind the
last operation with an error blames the transaction as a whole.
-/

namespace TableReplica

/-! ## Transactions -/

def Comparison.token : Comparison → String
  | .equal => "=="
  | .notEqual => "!="
  | .includes => "includes"
  | .excludes => "excludes"

def Mutator.token : Mutator → String
  | .insert => "insert"
  | .delete => "delete"

namespace Wire

def writeReference : RowReference → Json
  | .resolved u => writeId u
  | .named p => tagged "named-uuid" (.text p.text)

def writeOperand : Operand → Json
  | .plain v => writeValue v
  | .reference r => writeReference r

def writeCondition (c : Condition) : Json :=
  .array [.text c.column, .text c.comparison.token, writeOperand c.operand]

def writeFilter (filter : List Condition) : Json := .array (filter.map writeCondition)

/-- An operation as an object, members in the order of their names. -/
def writeOperation : Operation → Json
  | .insert table row name =>
    .object ([("op", .text "insert"), ("row", writeRow row), ("table", .text table)] ++
      name.toList.map (fun p => ("uuid-name", .text p.text)))
  | .update table row filter =>
    .object [("op", .text "update"), ("row", writeRow row), ("table", .text table), ("where", writeFilter filter)]
  | .delete table filter =>
    .object [("op", .text "delete"), ("table", .text table), ("where", writeFilter filter)]
  | .mutate table column mutator operand filter =>
    .object [("mutations", .array [.array [.text column, .text mutator.token, writeOperand operand]]),
      ("op", .text "mutate"), ("table", .text table), ("where", writeFilter filter)]
  | .select table filter =>
    .object [("op", .text "select"), ("table", .text table), ("where", writeFilter filter)]

/-- What is sent: the database, then the operations. -/
def writeTransaction (database : String) (txn : Transaction) : Json :=
  .array (.text database :: txn.operations.map writeOperation)

end Wire

end TableReplica

namespace TableReplica.Wire

/-! ## Replies -/

/-- The error an entry carries, if it carries one. -/
def reportedError? (entry : Json) : Option RefusalCause :=
  (entry.member? "error").bind Json.text? |>.map fun code =>
    .reported code (((entry.member? "details").bind Json.text?).getD "")

/-- The identifier an insert was given. -/
def assignedId? (entry : Json) : Option RowId :=
  (entry.member? "uuid").bind fun j => (readScalar j).toOption.bind Value.rowId?

/-- The effect of one operation. -/
def readEffect (op : Operation) (entry : Json) : Except RefusalCause Effect :=
  match reportedError? entry with
  | some cause => .error cause
  | none =>
    match op with
    | .insert _ _ _ =>
      match assignedId? entry with
      | some id => .ok (.inserted id)
      | none => .error .insertWithoutId
    | .select _ _ =>
      match (entry.member? "rows").bind Json.items? with
      | some rows =>
        match rows.mapM (readRow none) with
        | .ok rows => .ok (.selected rows)
        | .error violation => .error (.unreadableRow violation)
      | none => .error .selectWithoutRows
    | _ => .ok (.met (((entry.member? "count").bind Json.count?).getD 0))

/-- A reply with the effect of an operation put in front, and the identifier of its placeholder noted. -/
def prependEffect (op : Operation) (effect : Effect) (reply : Reply) : Reply where
  effects := effect :: reply.effects
  assignment :=
    match op.defined?, effect with
    | some name, .inserted id => reply.assignment.insert name id
    | _, _ => reply.assignment

/-- The reply to the operations from the given index on. -/
def readEffects (index : Nat) : List Operation → List Json → Except Refusal Reply
  | [], [] => .ok ⟨[], ∅⟩
  | [], extra :: _ =>
    match reportedError? extra with
    | some cause => .error ⟨none, cause⟩
    | none => .ok ⟨[], ∅⟩
  | _ :: _, [] => .error ⟨some index, .fewerResults⟩
  | op :: ops, entry :: entries =>
    match readEffect op entry with
    | .error cause => .error ⟨some index, cause⟩
    | .ok effect => (readEffects (index + 1) ops entries).map (prependEffect op effect)

/-- The reply to a transaction. -/
def readReply (txn : Transaction) (reply : Json) : Except Refusal Reply :=
  match reply.items? with
  | some entries => readEffects 0 txn.operations entries
  | none => .error ⟨none, .replyNotList⟩

end TableReplica.Wire
