import TableReplica.Server.Execution
import TableReplica.Row

/-!
# The in-memory server

A server keeps tables, carries out transactions whole or not at all, and puts the changes of each commit on a feed. It can be armed:
the next transaction is then refused without being looked at.

Tables may be committed when every identifier they hold names a row of some table. What a commit changed is told as a batch: in each
table the rows that went or changed, and then the rows that came. A row counts as changed unless its columns agree, so a row with
something that is not a number always counts.
-/

namespace TableReplica

/-! ## Integrity and changes -/

/-- The identifiers a column names. -/
def Value.references (v : Value) : List RowId := v.members.filterMap rowId?

namespace Tables

/-- Some table has a row with the identifier. -/
def live (tables : Tables) (id : RowId) : Bool := tables.values.any (·.contains id)

/-- The first identifier in a row that names no row. -/
def missing? (tables : Tables) (row : Row) : Option RowId :=
  (row.values.flatMap Value.references).find? (fun target => !tables.live target)

/-- The first reference to a missing row, tables and rows in order. -/
def dangling? (tables : Tables) : Option RefusalCause :=
  tables.entries.findSome? fun t =>
    t.2.entries.findSome? fun r => (tables.missing? r.2).map (.danglingReference t.1 r.1 ·)

end Tables

namespace RowChange

/-- What became of a row: nothing to tell when its columns agree. -/
def ofChange? (after : RowMap) (id : RowId) (row : Row) : Option RowChange :=
  match after.get? id with
  | none => some (.ofStates id (some row) none)
  | some next => if next.agrees row then none else some (.ofStates id (some row) (some next))

/-- A row that was not there before. -/
def ofArrival? (before : RowMap) (id : RowId) (row : Row) : Option RowChange :=
  if before.contains id then none else some (.ofStates id none (some row))

/-- What changed in a table. -/
def between (before after : RowMap) : List RowChange :=
  before.entries.filterMap (fun e => ofChange? after e.1 e.2) ++ after.entries.filterMap (fun e => ofArrival? before e.1 e.2)

end RowChange

/-- What changed between two states, without the tables in which nothing did. -/
def ChangeBatch.between (before after : Tables) : ChangeBatch :=
  let tables := (before.map (fun _ _ => (∅ : RowMap))).insertAll after.entries
  ⟨tables.filterMap fun table rows =>
    match RowChange.between (before.rows table) rows with
    | [] => none
    | changes => some changes⟩

/-! ## The server -/

/-- The batches that wait to be taken from the feed, as long as someone is there to take them. -/
inductive Feed where
  | waiting (batches : List ChangeBatch)
  | closed
deriving DecidableEq

namespace Feed

/-- A batch put on the feed; an empty one is not worth telling. -/
def publish (feed : Feed) (batch : ChangeBatch) : Feed :=
  match feed with
  | .waiting batches => if batch.isEmpty then .waiting batches else .waiting (batches ++ [batch])
  | .closed => .closed

/-- The batches taken from the feed, oldest first, and the feed after that. -/
def drain : Feed → List ChangeBatch × Feed
  | .waiting batches => (batches, .waiting [])
  | .closed => ([], .closed)

end Feed

structure Server where
  tables : Tables
  /-- What the next transaction is refused with, whatever it is. -/
  armed : Option Refusal
  /-- How many identifiers have been taken. -/
  drawn : Nat
  feed : Feed
deriving DecidableEq

namespace Server

def empty : Server := ⟨∅, none, 0, .waiting []⟩

def rows (s : Server) (table : String) : RowMap := s.tables.rows table

/-- The server armed to blame the given operation of its next transaction. -/
def arm (s : Server) (index : Nat) (code details : String) : Server :=
  { s with armed := some ⟨some index, .reported code details⟩ }

/-- The server with new tables, after the changes are put on the feed. -/
def commit (s : Server) (tables : Tables) : Server :=
  { s with tables := tables, feed := s.feed.publish (.between s.tables tables) }

/-- A row put in by someone else. -/
def insertRow (supply : RowIdSupply) (s : Server) (table : String) (row : Row) : RowId × Server :=
  let id := supply s.drawn
  (id, { s with drawn := s.drawn + 1 }.commit (s.tables.insert table ((s.rows table).insert id row)))

/-- A transaction on a server that is not armed. -/
def execute (supply : RowIdSupply) (s : Server) (txn : Transaction) : Except Refusal (List Effect) × Server :=
  let (outcome, last) := Workspace.run supply ⟨s.tables, ∅, s.drawn⟩ 0 txn.operations
  let s := { s with drawn := last.drawn }
  match outcome, last.tables.dangling? with
  | .error refusal, _ => (.error refusal, s)
  | .ok _, some cause => (.error ⟨none, cause⟩, s)
  | .ok effects, none => (.ok effects, s.commit last.tables)

/-- A transaction carried out, or refused without a trace. -/
def transact (supply : RowIdSupply) (s : Server) (txn : Transaction) : Except Refusal (List Effect) × Server :=
  match s.armed with
  | some refusal => (.error refusal, { s with armed := none })
  | none => s.execute supply txn

/-- The changes that wait on the feed, taken from it. -/
def drain (s : Server) : List ChangeBatch × Server := (s.feed.drain.1, { s with feed := s.feed.drain.2 })

/-- The server when nobody takes its changes any more. -/
def closeFeed (s : Server) : Server := { s with feed := .closed }

end Server

end TableReplica
