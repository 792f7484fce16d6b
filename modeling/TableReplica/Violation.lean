import TableReplica.Binary64.Text

/-!
# Violations of the data contract

A `Violation` says which piece of data is not as it must be, and why: it is malformed in one of the ways of `Fault`, lies outside the
range of a `Quantity`, or is not finite at a `NumberPlace`. `Violation.message` is the one place with the wording.
-/

namespace TableReplica

/-- The ways in which data can be malformed. -/
inductive Fault where
  | idLength
  | idLayout
  | placeholderCharacters
  | placeholderLength
  | severalForScalar
  | mapExpected
  | otherBaseKind
  | wireId
  | wireScalar
  | wireSet
  | wireMap
  | wireMapEntry
  | wireNotification
  | wireTable
  | wireRow
  | noOperations
  | noTable
  | undefinedPlaceholder
  | placeholderDefinedTwice
  | noCondition
  | missingColumn (column : String)
  | otherKind (column : String)
  | foreignRecord
  | databaseName
  | switchPortName
  | ruleDirection
  | ruleAction
  | ruleMatch
deriving DecidableEq

/-- The piece of data a fault is about. -/
def Fault.field : Fault → String
  | .idLength | .idLayout => "row_uuid"
  | .placeholderCharacters | .placeholderLength => "placeholder_name"
  | .severalForScalar | .mapExpected | .otherBaseKind => "value"
  | .wireId => "wire.uuid"
  | .wireScalar => "wire.atom"
  | .wireSet => "wire.set"
  | .wireMap | .wireMapEntry => "wire.map"
  | .wireNotification => "wire.updates"
  | .wireTable => "wire.table_update"
  | .wireRow => "wire.row_update"
  | .noOperations => "transaction.operations"
  | .noTable => "operation.table"
  | .undefinedPlaceholder => "operation.placeholder"
  | .placeholderDefinedTwice => "operation.uuid_name"
  | .noCondition => "operation.filter"
  | .missingColumn column | .otherKind column => column
  | .foreignRecord => "record"
  | .databaseName => "client_config.database"
  | .switchPortName => "logical_switch_port.name"
  | .ruleDirection => "acl.direction"
  | .ruleAction => "acl.action"
  | .ruleMatch => "acl.match"

/-- What is wrong with it. -/
def Fault.reason : Fault → String
  | .idLength => "must be 36 chars"
  | .idLayout => "must be 8-4-4-4-12 hex"
  | .placeholderCharacters => "must match [A-Za-z_][A-Za-z0-9_]*"
  | .placeholderLength => "must be <= 64 chars"
  | .severalForScalar => "scalar column received a multi-element set"
  | .mapExpected => "map column received a non-map value"
  | .otherBaseKind => "value does not match the column's scalar kind"
  | .wireId => "uuid payload must be a string"
  | .wireScalar => "unsupported atom encoding"
  | .wireSet => "set payload must be an array"
  | .wireMap => "map payload must be an array"
  | .wireMapEntry => "map entries must be [string, string]"
  | .wireNotification | .wireTable | .wireRow => "must be an object"
  | .noOperations | .noTable | .switchPortName | .ruleMatch => "must not be empty"
  | .undefinedPlaceholder => "must be defined by an earlier insert in the same transaction"
  | .placeholderDefinedTwice => "must be defined at most once per transaction"
  | .noCondition => "update/delete/mutate must carry at least one condition"
  | .missingColumn _ => "required column missing from row"
  | .otherKind _ => "row value does not match the field's declared kind"
  | .foreignRecord => "record type does not belong to this table"
  | .databaseName => "must be a non-empty [A-Za-z_][A-Za-z0-9_]* name"
  | .ruleDirection => "must be from-lport or to-lport"
  | .ruleAction => "unknown action"

/-- The numbers that must lie in a range. -/
inductive Quantity where
  | integerColumn
  | feedCapacity
  | switchPortTag
  | rulePriority
deriving DecidableEq

namespace Quantity

def field : Quantity → String
  | .integerColumn => "value"
  | .feedCapacity => "client_config.feed_buffer"
  | .switchPortTag => "logical_switch_port.tag"
  | .rulePriority => "acl.priority"

/-- The least and the greatest value allowed, both included. The last integer of a column is written as a real, which rounds it up. -/
def bounds : Quantity → Int × Int
  | .integerColumn => (-0x8000000000000000, 0x7FFFFFFFFFFFFFFF)
  | .feedCapacity => (1, 65536)
  | .switchPortTag => (1, 4095)
  | .rulePriority => (0, 32767)

def Holds (q : Quantity) (n : Int) : Prop := q.bounds.1 ≤ n ∧ n ≤ q.bounds.2

instance (q : Quantity) (n : Int) : Decidable (q.Holds n) := by unfold Holds; infer_instance

end Quantity

/-- Where a number stands that must be finite. -/
inductive NumberPlace where
  | value
  | wire
  | column (name : String)
deriving DecidableEq

def NumberPlace.field : NumberPlace → String
  | .value => "value"
  | .wire => "wire.number"
  | .column name => name

inductive Violation where
  | malformed (fault : Fault)
  | outOfRange (quantity : Quantity) (got : Binary64)
  | nonFinite (place : NumberPlace)
deriving DecidableEq

/-- The wording of a violation. -/
def Violation.message : Violation → String
  | .malformed fault => fault.field ++ ": " ++ fault.reason
  | .outOfRange quantity got =>
    let write (x : Binary64) := x.text .plain
    quantity.field ++ ": " ++ write got ++ " outside [" ++ write (.ofInt quantity.bounds.1) ++ ", " ++
      write (.ofInt quantity.bounds.2) ++ "]"
  | .nonFinite place => place.field ++ ": must be finite"

end TableReplica
