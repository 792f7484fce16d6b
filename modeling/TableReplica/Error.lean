import TableReplica.Operation.Transaction

/-!
# What a caller is told

Whatever a caller asks for fails with an `Error` of one of six kinds, and nothing is tried again on its own. `Error.message` is the
one place with the wording.
-/

namespace TableReplica

/-- What was looked for and not found. -/
inductive Sought where
  | subscription
  | row (id : RowId)
  | model
  | listenedModel
  /-- A row of the given columns, when the columns are not shown. -/
  | columns
  | key (wanted : Row)
deriving DecidableEq

def Sought.message : Sought → String
  | .subscription => "table is not subscribed"
  | .row id => "_uuid == " ++ id.text
  | .model => "no model registered"
  | .listenedModel => "no model registered for listener"
  | .columns => "no row matches the given columns"
  | .key wanted => wanted.describe

/-- An argument that is malformed or contradicts another, noticed before anything is composed. -/
inductive BadArgument where
  | modelWithoutTable
  | identifierFields (table : String)
  | modelTwice (table : String)
  | listenerTwice (table : String)
  | noColumns
  | noKeyColumns
  | keyColumnMissing (column : String)
  | parentKeyWithoutParent
  | holderWithoutChild
  | holderOfNewRow
  | noCandidates
  | noChanges
  | identifierChange
  | placeholderValue
  | holdsNoRules (table : String)
  | unreadableConfig
deriving DecidableEq

/-- The argument and what is wrong with it. The reason why a configuration cannot be read is not kept. -/
def BadArgument.message : BadArgument → String
  | .modelWithoutTable => "model.table: must not be empty"
  | .identifierFields table => "model.uuid: " ++ table ++ ": exactly one identifier field is required"
  | .modelTwice table => "model.table: " ++ table ++ ": registered twice"
  | .listenerTwice table => "listener.table: " ++ table ++ ": listener already registered"
  | .noColumns => "partial_row: at least one discriminating column is required"
  | .noKeyColumns => "natural_key: at least one key column is required"
  | .keyColumnMissing column => "natural_key: row lacks key column " ++ column
  | .parentKeyWithoutParent => "natural_key.scope: parent-scoped keys need create_and_link"
  | .holderWithoutChild => "parent.selector: containing lookup needs an existing child"
  | .holderOfNewRow => "parent.selector: a new row has no containing parent yet"
  | .noCandidates => "parent.candidates: at least one candidate table is required"
  | .noChanges => "changes: nothing to update"
  | .identifierChange => "changes: _uuid is immutable"
  | .placeholderValue => "value: placeholders are only valid next to their insert"
  | .holdsNoRules table => "acl.attach: " ++ table ++ " does not hold ACLs"
  | .unreadableConfig => "config"

inductive Error where
  /-- No row, or no table, among the given tables. -/
  | missing (tables : List String) (sought : Sought)
  /-- A row with the natural key of a new one is there already. -/
  | duplicate (table : String) (id : RowId) (key : Row)
  /-- Several rows match a key that must match one: rows of the table searched, or of several tables. -/
  | several (table : Option String) (key : Row) (candidates : List (String × RowId))
  | badArgument (argument : BadArgument)
  | contract (violation : Violation)
  /-- The transaction was refused; the operation to blame is shown when there is one. -/
  | refused (refusal : Refusal) (operation : Option Operation)
deriving DecidableEq

namespace Error

def isMissing : Error → Bool
  | .missing _ _ => true
  | _ => false

def isDuplicate : Error → Bool
  | .duplicate _ _ _ => true
  | _ => false

def isSeveral : Error → Bool
  | .several _ _ _ => true
  | _ => false

/-- An index that may be absent, as messages show it. -/
def describeIndex : Option Nat → String
  | some i => Text.labelled "Some" (toString i)
  | none => "None"

/-- The wording of an error. -/
def message : Error → String
  | .missing tables sought => "|".intercalate tables ++ ": nothing matches " ++ sought.message
  | .duplicate table id key => table ++ ": row " ++ id.text ++ " already matches " ++ key.describe
  | .several table key candidates =>
    let place := match table with
      | some table => table ++ " "
      | none => ""
    place ++ key.describe ++ " is ambiguous across " ++
      Text.bracketed (candidates.map (fun c => Text.quote (c.1 ++ ":" ++ c.2.text)))
  | .badArgument argument => "invalid option " ++ argument.message
  | .contract violation => "schema violation: " ++ violation.message
  | .refused refusal _ =>
    "transaction failed at operation " ++ describeIndex refusal.index ++ ": " ++ refusal.cause.code ++ ": " ++
      refusal.cause.details

end Error

/-- A violation met while serving a caller is told as an error. -/
def asError {α : Type} : Except Violation α → Except Error α
  | .ok a => .ok a
  | .error v => .error (.contract v)

end TableReplica
