import TableReplica.Model.Basic

/-!
# Records and rows

`Model.fill` reads the fields of a record from a row, in the order of the model, and stops at the first column that is missing or
does not fit. Fields read before that keep their new values. A scalar may come bare or as a set of one, a set may come as its only
member, and numbers are converted as in `Value.normalize`; identifiers must already be identifiers.

`Model.encode` writes the fields of a record as columns. The identifier is left out, and so are options that are not set. A real must
be finite and the identifiers of other rows must be identifiers.
-/

namespace TableReplica

/-! ## From rows to records -/

namespace Value

/-- The scalar a value stands for: none for an empty set, and no answer for a set of several. -/
def single? : Value → Option (Option Value)
  | .set [] => some none
  | .set [item] => some (some item)
  | .set _ => none
  | v => some (some v)

/-- The integer a number stands for. -/
def integerOf? : Value → Option Int64
  | .integer n => some n
  | .real x => x.nearestInteger.toOption
  | _ => none

def boolean? : Value → Option Bool
  | .boolean b => some b
  | _ => none

/-- The real a number stands for. -/
def realOf? : Value → Option Binary64
  | .real x => some x
  | .integer n => some (.ofInt n.toInt)
  | _ => none

def idText? (v : Value) : Option String := v.rowId?.map RowId.text

/-- A scalar that may be absent. -/
def readOptional? {α : Type} (read : Value → Option α) (v : Value) : Option (Option α) :=
  match v.single? with
  | none => none
  | some none => some none
  | some (some item) => (read item).map some

/-- A scalar that must be there. -/
def readScalar? {α : Type} (read : Value → Option α) (v : Value) : Option α := (readOptional? read v).join

/-- The members of a set, in the order they stand. -/
def readSet? {α : Type} (read : Value → Option α) (v : Value) : Option (List α) := v.members.mapM read

def readMap? : Value → Option (SortedMap String String)
  | .map entries => some entries
  | .set [] => some ∅
  | _ => none

end Value

/-- The field value a column value stands for, if it fits the slot. -/
def Slot.read? (slot : Slot) (v : Value) : Option FieldValue :=
  match slot with
  | .id => none
  | .string => (v.readScalar? Value.text?).map .text
  | .stringOption => (v.readOptional? Value.text?).map .textOption
  | .integer => (v.readScalar? Value.integerOf?).map .integer
  | .integerOption => (v.readOptional? Value.integerOf?).map .integerOption
  | .boolean => (v.readScalar? Value.boolean?).map .boolean
  | .booleanOption => (v.readOptional? Value.boolean?).map .booleanOption
  | .real => (v.readScalar? Value.realOf?).map .real
  | .reference => (v.readOptional? Value.idText?).map .textOption
  | .references => (v.readSet? Value.idText?).map .texts
  | .strings => (v.readSet? Value.text?).map .texts
  | .integers => (v.readSet? Value.integerOf?).map .integers
  | .map => v.readMap?.map .textMap

/-- What the field is given: the identifier, the value of its column, or nothing when the row lacks a column it may lack. -/
def Field.assignment (f : Field) (id : RowId) (row : Row) : Except Violation (Option FieldValue) :=
  if f.slot = .id then .ok (some (.text id.text))
  else
    match row.get? f.column with
    | none => if f.required then .error (.malformed (.missingColumn f.column)) else .ok none
    | some v =>
      match f.slot.read? v with
      | some value => .ok (some value)
      | none => .error (.malformed (.otherKind f.column))

namespace Model

/-- The record after the given fields are read, up to the first that fails, and that failure. -/
def fillFields (id : RowId) (row : Row) : List Field → Record → Record × Option Violation
  | [], r => (r, none)
  | f :: rest, r =>
    match f.assignment id row with
    | .error v => (r, some v)
    | .ok none => fillFields id row rest r
    | .ok (some value) => fillFields id row rest (r.set f.name value)

def fill (m : Model) (id : RowId) (row : Row) (r : Record) : Record × Option Violation :=
  fillFields id row m.fields r

/-- A new record read from a row. -/
def decode (m : Model) (id : RowId) (row : Row) : Except Violation Record :=
  match m.fill id row m.blank with
  | (r, none) => .ok r
  | (_, some v) => .error v

end Model

/-! ## From records to rows -/

/-- The column value of a field; `none` when the column is left out. -/
def Field.value (f : Field) (r : Record) : Except Violation (Option Value) :=
  match f.slot with
  | .id => .ok none
  | .string => .ok (some (.string (r.text f.name)))
  | .stringOption => .ok ((r.textOption f.name).map .string)
  | .integer => .ok (some (.integer (r.integer f.name)))
  | .integerOption => .ok ((r.integerOption f.name).map .integer)
  | .boolean => .ok (some (.boolean (r.boolean f.name)))
  | .booleanOption => .ok ((r.booleanOption f.name).map .boolean)
  | .real =>
    if (r.real f.name).isFinite then .ok (some (.real (r.real f.name))) else .error (.nonFinite (.column f.column))
  | .reference =>
    match r.textOption f.name with
    | some id => (RowId.parse id).map (fun u => some (.uuid u))
    | none => .ok none
  | .references => ((r.texts f.name).mapM RowId.parse).map (fun ids => some (.ofRowIds ids))
  | .strings => .ok (some (.ofList ((r.texts f.name).map .string)))
  | .integers => .ok (some (.ofList ((r.integers f.name).map .integer)))
  | .map => .ok (some (.map (r.textMap f.name)))

namespace Model

/-- The row with the columns of the given fields added. -/
def addColumns (r : Record) : List Field → Row → Except Violation Row
  | [], row => .ok row
  | f :: rest, row =>
    match f.value r with
    | .error v => .error v
    | .ok none => addColumns r rest row
    | .ok (some value) => addColumns r rest (row.insert f.column value)

def encode (m : Model) (r : Record) : Except Violation Row := addColumns r m.fields ∅

end Model

end TableReplica
