import TableReplica.Model.Codec
import TableReplica.Error

/-!
# Schemas

A client knows a fixed set of models, at most one per table: its schema. The schema decodes a row of any of its tables into a record,
writes records back, and brings rows into the form of the columns its models declare. A record belongs to a model when it is of the
type the model describes.
-/

namespace TableReplica

/-- The models of a client by table. Each has a table and one identifier field. -/
structure Schema where
  models : SortedMap String Model
  valid : ∀ e ∈ models.entries, e.1 = e.2.table ∧ e.2.table ≠ "" ∧ e.2.idFields = 1

namespace Schema

def empty : Schema := ⟨∅, by intro e h; cases h⟩

def contains (s : Schema) (table : String) : Bool := s.models.contains table

/-- The tables with a model, in order. -/
def tables (s : Schema) : List String := s.models.keys

/-- One more model, unless it is unfit or its table is taken. -/
def add (s : Schema) (m : Model) : Except Error Schema :=
  if ht : m.table = "" then .error (.badArgument .modelWithoutTable)
  else if hu : m.idFields ≠ 1 then .error (.badArgument (.identifierFields m.table))
  else if s.contains m.table then .error (.badArgument (.modelTwice m.table))
  else .ok ⟨s.models.insert m.table m, by
    intro e he
    rcases SortedMap.mem_insertEntry he with rfl | he
    · exact ⟨rfl, ht, Decidable.not_not.mp hu⟩
    · exact s.valid e he⟩

/-- The schema of a list of models, added one after the other. -/
def ofModels (models : List Model) : Except Error Schema := models.foldlM add empty

/-- The model of a table. -/
def model (s : Schema) (table : String) : Except Error Model :=
  match s.models.get? table with
  | some m => .ok m
  | none => .error (.missing [table] .model)

/-- The kinds of the columns a table declares; without a model there are none to declare. -/
def columns? (s : Schema) (table : String) : Option Kinds := (s.models.get? table).map Model.columns

def blank (s : Schema) (table : String) : Except Error Record := (s.model table).map Model.blank

/-- The record after the row of a table is read into it, and the failure that cut the reading short. -/
def fill (s : Schema) (table : String) (id : RowId) (row : Row) (record : Record) : Record × Option Error :=
  match s.model table with
  | .error e => (record, some e)
  | .ok m =>
    if m.describes record then
      let (filled, failure) := m.fill id row record
      (filled, failure.map .contract)
    else (record, some (.contract (.malformed .foreignRecord)))

/-- A row of a table as a record of the table's model. -/
def decode (s : Schema) (table : String) (id : RowId) (row : Row) : Except Error Record :=
  match s.model table with
  | .error e => .error e
  | .ok m => asError (m.decode id row)

/-- A row of the table of a model as a record of that model, which must be the one in the schema. -/
def decodeAs (s : Schema) (m : Model) (id : RowId) (row : Row) : Except Error Record :=
  match s.decode m.table id row with
  | .error e => .error e
  | .ok record => if m.describes record then .ok record else .error (.contract (.malformed .foreignRecord))

/-- A record as a row of the table of its type. -/
def encode (s : Schema) (record : Record) : Except Error Row :=
  match s.model record.table with
  | .error e => .error e
  | .ok m => if m.describes record then asError (m.encode record) else .error (.contract (.malformed .foreignRecord))

/-- The identifier a record holds, when it holds one. -/
def idOf? (s : Schema) (record : Record) : Option String :=
  (s.models.get? record.table).bind fun m =>
    if m.describes record then (m.idOf? record).filter (fun id => !id.isEmpty) else none

/-- A column of a row in the form of its kind, if it has one: a value that does not fit stays as it is. -/
def normalizeColumn (kinds : Kinds) (column : String) (v : Value) : Option Value :=
  match kinds.get? column with
  | none => some v
  | some kind =>
    match v.normalize kind with
    | .ok normal => normal
    | .error _ => some v

/-- Why a column does not fit its kind. -/
def columnFault? (kinds : Kinds) (column : String) (v : Value) : Option Violation :=
  match kinds.get? column with
  | none => none
  | some kind =>
    match v.normalize kind with
    | .ok _ => none
    | .error violation => some violation

/-- A row in the form of the columns its table declares, and the columns that do not fit. A table without a model declares none. -/
def normalize (s : Schema) (table : String) (row : Row) : Row × List (String × Violation) :=
  let kinds := (s.columns? table).getD ∅
  (row.filterMap (normalizeColumn kinds), row.entries.filterMap (fun e => (columnFault? kinds e.1 e.2).map (e.1, ·)))

/-- The schema as messages show it. -/
def describe (s : Schema) : String :=
  "ModelRegistry \x7b tables: " ++ Text.bracketed (s.tables.map Text.quote) ++ " \x7d"

end Schema

end TableReplica
