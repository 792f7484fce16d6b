import TableReplica.Model.Record
import TableReplica.Row

/-!
# Models

A model describes a record type once: its table, and for each field the column it is read from, the field of the record it fills, and
the slot that says how a column value and a field value correspond. Reading rows, writing rows and the kinds of the columns are all
interpreted from that list.
-/

namespace TableReplica

/-- How a column value and a field value correspond. -/
inductive Slot where
  /-- The identifier of the row, which is no column. -/
  | id
  | string
  | stringOption
  | integer
  | integerOption
  | boolean
  | booleanOption
  | real
  /-- At most one row of another table. -/
  | reference
  | references
  | strings
  | integers
  | map
deriving DecidableEq

namespace Slot

/-- The kind of the column; the identifier has none. -/
def kind? : Slot → Option Kind
  | .id => none
  | .string => some (.scalar .string)
  | .stringOption => some (.optional .string)
  | .integer => some (.scalar .integer)
  | .integerOption => some (.optional .integer)
  | .boolean => some (.scalar .boolean)
  | .booleanOption => some (.optional .boolean)
  | .real => some (.scalar .real)
  | .reference => some (.optional .uuid)
  | .references => some (.set .uuid)
  | .strings => some (.set .string)
  | .integers => some (.set .integer)
  | .map => some .map

/-- What a field holds before anything is read: nothing, zero or no. -/
def zero : Slot → FieldValue
  | .id | .string => .text ""
  | .stringOption | .reference => .textOption none
  | .integer => .integer 0
  | .integerOption => .integerOption none
  | .boolean => .boolean false
  | .booleanOption => .booleanOption none
  | .real => .real .zero
  | .references | .strings => .texts []
  | .integers => .integers []
  | .map => .textMap ∅

end Slot

/-- One field of a model. -/
structure Field where
  column : String
  /-- The field of the record. -/
  name : String
  slot : Slot
  /-- Reading a row without the column fails. -/
  required : Bool
deriving DecidableEq

namespace Field

/-- The field that holds the identifier of the row. -/
def ofId (name : String) : Field := ⟨idColumn, name, .id, false⟩

/-- A field that keeps its value when the row lacks the column. -/
def plain (column : String) (slot : Slot) : Field := ⟨column, column, slot, false⟩

/-- A field whose column a row must have. -/
def mandatory (column : String) (slot : Slot) : Field := ⟨column, column, slot, true⟩

end Field

structure Model where
  /-- The record type. -/
  type : String
  table : String
  fields : List Field
  /-- What a record holds before anything is read. -/
  initial : SortedMap String FieldValue
deriving DecidableEq

namespace Model

/-- A model whose records start from zeros. -/
def ofFields (type table : String) (fields : List Field) : Model where
  type := type
  table := table
  fields := fields
  initial := .ofList (fields.map (fun f => (f.name, f.slot.zero)))

def blank (m : Model) : Record := ⟨m.type, m.table, m.initial⟩

/-- The record is of the type the model describes. -/
def describes (m : Model) (r : Record) : Bool := decide (r.type = m.type)

/-- The number of fields that hold the identifier; a registered model has one. -/
def idFields (m : Model) : Nat := m.fields.countP (fun f => decide (f.slot = .id))

/-- The kinds of the columns; of two fields with one column the later decides. -/
def columns (m : Model) : Kinds := .ofList (m.fields.filterMap (fun f => f.slot.kind?.map (f.column, ·)))

/-- What the first identifier field of a record holds. -/
def idOf? (m : Model) (r : Record) : Option String :=
  (m.fields.find? (fun f => decide (f.slot = .id))).map (fun f => r.text f.name)

end Model

end TableReplica
