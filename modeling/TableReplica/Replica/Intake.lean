import TableReplica.Replica.Notice
import TableReplica.Wire.Notification

/-!
# Taking in batches of changes

A replica is a cache with the listeners that hear of its changes. Batches are taken in one at a time, entry by entry. What an
entry does depends on the cache and not on the state before that the entry claims: a new state for an unknown row creates it, for a
known row it modifies it, and an entry without a new state, or with one that says nothing once it has the form of its table,
deletes the row if it is known.
-/

namespace TableReplica

structure Replica where
  notifier : Notifier
  cache : Cache

/-- What the entries of a batch did. -/
structure Summary where
  created : Nat := 0
  modified : Nat := 0
  deleted : Nat := 0
  /-- Changes made of which the listener could not be told. -/
  dropped : Nat := 0
  /-- Entries that could not be read. -/
  unread : Nat := 0
  /-- Entries of tables that are not subscribed, and deletions of unknown rows. -/
  skipped : Nat := 0
deriving DecidableEq

/-- A replica on the way through a batch: the summary and the notices so far. -/
structure Intake where
  replica : Replica
  summary : Summary
  notices : List Notice

namespace Intake

def start (r : Replica) : Intake := ⟨r, {}, []⟩

/-- The cache changed, the change counted, and the listener told. -/
def proceed (i : Intake) (cache : Cache) (summary : Summary) (told : Delivery × List Notice) : Intake where
  replica := { i.replica with cache := cache }
  summary := if told.1 = .dropped then { summary with dropped := summary.dropped + 1 } else summary
  notices := i.notices ++ told.2

/-- A row that is gone. -/
def remove (i : Intake) (table : String) (id : RowId) : Intake :=
  match i.replica.cache.row? table id with
  | none => { i with summary := { i.summary with skipped := i.summary.skipped + 1 } }
  | some last =>
    let cache := i.replica.cache.put table id none
    i.proceed cache { i.summary with deleted := i.summary.deleted + 1 }
      (i.replica.notifier.notifyDeleted cache table id last)

/-- A row in a new state, which is not empty. -/
def put (i : Intake) (table : String) (id : RowId) (row : Row) : Intake :=
  let cache := i.replica.cache.put table id (some row)
  match i.replica.cache.row? table id with
  | none =>
    i.proceed cache { i.summary with created := i.summary.created + 1 }
      (i.replica.notifier.notifyCreated cache table id row)
  | some old =>
    i.proceed cache { i.summary with modified := i.summary.modified + 1 }
      (i.replica.notifier.notifyUpdated cache table id old row)

/-- One entry of a subscribed table. -/
def entry (i : Intake) (table : String) (change : RowChange) : Intake :=
  match change.after with
  | none => i.remove table change.id
  | some raw =>
    let row := (i.replica.notifier.schema.normalize table raw).1
    if row.isEmpty then i.remove table change.id else i.put table change.id row

/-- The entries of one table. -/
def table (i : Intake) (name : String) (changes : List RowChange) : Intake :=
  if i.replica.cache.knows name then changes.foldl (fun i change => i.entry name change) i
  else { i with summary := { i.summary with skipped := i.summary.skipped + changes.length } }

end Intake

namespace Replica

/-- A batch taken in, tables in order and the entries of each in order of arrival. -/
def takeIn (r : Replica) (batch : ChangeBatch) : Intake :=
  batch.tables.entries.foldl (fun i e => i.table e.1 e.2) (.start r)

/-- A notification taken in; the entries that cannot be read are only counted. -/
def takeInNotification (r : Replica) (notification : Json) : Except Error Intake :=
  (asError (Wire.readNotification notification)).map fun decoded =>
    let i := r.takeIn decoded.batch
    { i with summary := { i.summary with unread := decoded.unread.length } }

def subscribe (r : Replica) (table : String) : Replica := { r with cache := r.cache.subscribe table }

end Replica

end TableReplica
