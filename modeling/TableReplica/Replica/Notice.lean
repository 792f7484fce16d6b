import TableReplica.Cache.Basic
import TableReplica.Model.Schema

/-!
# Listeners and notices

One listener may be registered for each table with a model. It hears of rows that come and go, and on request of rows that change. A
row is heard of as a record: a row that does not decode is dropped. What a listener hears is a `Notice`, which shows the cache as
it stands at that moment.
-/

namespace TableReplica

/-- The records a listener takes. -/
inductive Audience where
  | recordsOf (type : String)
  | allRecords
deriving DecidableEq

structure Listener where
  audience : Audience
  hearsChanges : Bool
deriving DecidableEq

namespace Listener

def takes (l : Listener) (r : Record) : Bool :=
  match l.audience with
  | .allRecords => true
  | .recordsOf type => decide (r.type = type)

/-- A listener as messages show it. -/
def describe (l : Listener) : String :=
  "Listener \x7b on_updated: " ++ (if l.hearsChanges then "true" else "false") ++ ", .. \x7d"

end Listener

inductive Event where
  | created
  | updated
  | deleted
deriving DecidableEq

/-- What a listener hears: the row before and after a change, or the row that came or went. -/
structure Notice where
  event : Event
  table : String
  records : List Record
  /-- The cache when the listener hears of the event. -/
  cache : Cache
deriving DecidableEq

/-- What became of an event. -/
inductive Delivery where
  | delivered
  | unheard
  /-- The row did not decode. -/
  | dropped
deriving DecidableEq

/-- The listeners of a client, by table, with the schema that decodes for them. -/
structure Notifier where
  schema : Schema
  listeners : SortedMap String Listener

namespace Notifier

def ofSchema (schema : Schema) : Notifier := ⟨schema, ∅⟩

def listensTo (d : Notifier) (table : String) : Bool := d.listeners.contains table

/-- One more listener, for a table that has a model and no listener. -/
def register (d : Notifier) (table : String) (listener : Listener) : Except Error Notifier :=
  if !d.schema.contains table then .error (.missing [table] .listenedModel)
  else if d.listensTo table then .error (.badArgument (.listenerTwice table))
  else .ok { d with listeners := d.listeners.insert table listener }

/-- A listener is given records; it hears of them when it takes them all. -/
def deliver (listener : Listener) (event : Event) (table : String) (cache : Cache) (records : List Record) :
    Delivery × List Notice :=
  (.delivered, if records.all listener.takes then [⟨event, table, records, cache⟩] else [])

/-- A row that came or went, decoded for the listener of its table. -/
def notifyOne (d : Notifier) (event : Event) (cache : Cache) (table : String) (id : RowId) (row : Row) :
    Delivery × List Notice :=
  match d.listeners.get? table with
  | none => (.unheard, [])
  | some listener =>
    match d.schema.decode table id row with
    | .ok record => deliver listener event table cache [record]
    | .error _ => (.dropped, [])

def notifyCreated (d : Notifier) : Cache → String → RowId → Row → Delivery × List Notice := d.notifyOne .created

/-- A row that went is heard of as it last stood. -/
def notifyDeleted (d : Notifier) : Cache → String → RowId → Row → Delivery × List Notice := d.notifyOne .deleted

/-- A change is heard of only when the listener asked for changes and both states decode. -/
def notifyUpdated (d : Notifier) (cache : Cache) (table : String) (id : RowId) (before after : Row) :
    Delivery × List Notice :=
  match (d.listeners.get? table).filter (·.hearsChanges) with
  | none => (.unheard, [])
  | some listener =>
    match d.schema.decode table id before, d.schema.decode table id after with
    | .ok first, .ok second => deliver listener .updated table cache [first, second]
    | _, _ => (.dropped, [])

end Notifier

end TableReplica
