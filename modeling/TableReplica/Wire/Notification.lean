import TableReplica.Wire.Value
import TableReplica.Row

/-!
# Notifications on the wire

A notification is an object of tables, each an object that maps row identifiers to the states before and after. A row that cannot be
read is set aside with its reason, and the rest of the notification is read without it.
-/

namespace TableReplica.Wire

/-- A part of a notification that could not be read: a row, or with an empty key a whole table. -/
structure UnreadRow where
  table : String
  key : String
  violation : Violation
deriving DecidableEq

structure ReadNotification where
  batch : ChangeBatch
  unread : List UnreadRow
deriving DecidableEq

/-- The state of a row under a name, read without column kinds. -/
def readState (states : Json) (name : String) : Except Violation (Option Row) :=
  match states.member? name with
  | some state => (readRow none state).map some
  | none => .ok none

/-- One entry of a table: its identifier is read first, then the state before, then the state after. -/
def readRowChange (key : String) (states : Json) : Except Violation RowChange := do
  let id ← RowId.parse key
  if states.members?.isNone then .error (.malformed .wireRow)
  let before ← readState states "old"
  let after ← readState states "new"
  return .ofStates id before after

/-- The entries of a table that can be read, by their keys. -/
def readableRows (rows : SortedMap String Json) : List RowChange :=
  rows.entries.filterMap (fun e => (readRowChange e.1 e.2).toOption)

/-- The entries of a table that cannot be read. -/
def unreadRows (table : String) (rows : SortedMap String Json) : List UnreadRow :=
  rows.entries.filterMap fun e =>
    match readRowChange e.1 e.2 with
    | .ok _ => none
    | .error violation => some ⟨table, e.1, violation⟩

/-- A notification, which must be an object. -/
def readNotification (j : Json) : Except Violation ReadNotification :=
  match j.members? with
  | none => .error (.malformed .wireNotification)
  | some tables => .ok {
      batch := ⟨tables.filterMap (fun _ rows => rows.members?.map readableRows)⟩
      unread := tables.entries.flatMap fun e =>
        match e.2.members? with
        | some rows => unreadRows e.1 rows
        | none => [⟨e.1, "", .malformed .wireTable⟩] }

end TableReplica.Wire
