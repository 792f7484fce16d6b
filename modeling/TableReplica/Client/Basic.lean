import TableReplica.Config.Basic
import TableReplica.Replica.Intake
import TableReplica.Cache.Basic

/-!
# The client

A client keeps the rows of all tables it has a model for, and hands them out as records. Reading never fails on a row that does not
decode unless that very row is asked for: lists leave such rows out.
-/

namespace TableReplica

structure Client where
  config : Config
  replica : Replica

namespace Client

/-- A client for a set of models, with listeners for some of their tables. Every table with a model is subscribed. -/
def build (config : Config) (models : List Model) (listeners : List (String × Listener)) : Except Error Client := do
  asError config.check
  let schema ← Schema.ofModels models
  let notifier ← listeners.foldlM (fun d l => d.register l.1 l.2) (Notifier.ofSchema schema)
  return ⟨config, ⟨notifier, schema.tables.foldl Cache.subscribe .empty⟩⟩

def schema (c : Client) : Schema := c.replica.notifier.schema

def cache (c : Client) : Cache := c.replica.cache

/-- The record of a row, which must be there. -/
def record (c : Client) (m : Model) (id : RowId) : Except Error Record := do
  let row ← c.cache.row m.table id
  c.schema.decodeAs m id row

/-- The records of a table, without the rows that do not decode. -/
def records (c : Client) (m : Model) : Except Error (List Record) := do
  let rows ← c.cache.rows m.table
  return rows.entries.filterMap (fun e => (c.schema.decodeAs m e.1 e.2).toOption)

/-- The record of the first row with the given columns. -/
def firstRecord (c : Client) (m : Model) (wanted : Row) : Except Error Record := do
  match ← c.cache.firstMeeting m.table wanted with
  | some id => c.record m id
  | none => .error (.missing [m.table] .columns)

/-- The records of the rows with the given columns, all of which must decode. -/
def recordsMeeting (c : Client) (m : Model) (wanted : Row) : Except Error (List Record) := do
  let ids ← c.cache.idsMeeting m.table wanted
  ids.mapM (c.record m)

/-- The record of a row, of whatever type its table has. -/
def recordAt (c : Client) (table : String) (id : RowId) : Except Error Record := do
  let row ← c.cache.row table id
  c.schema.decode table id row

/-- The records of a table of whatever type, without the rows that do not decode. -/
def recordsAt (c : Client) (table : String) : Except Error (List Record) := do
  let rows ← c.cache.rows table
  return rows.entries.filterMap (fun e => (c.schema.decode table e.1 e.2).toOption)

end Client

end TableReplica
