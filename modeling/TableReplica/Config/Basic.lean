import TableReplica.Config.Document
import TableReplica.Error

/-!
# The configuration of a client

A client is told the name of its database and how many batches its feed may hold. Both are checked before the client is built, the name
first.
-/

namespace TableReplica

structure Config where
  database : String
  /-- How many batches the feed may hold. -/
  capacity : Nat
deriving DecidableEq

namespace Config

/-- The capacity of a feed about which nothing is said. -/
def usualCapacity : Nat := 64

/-- The configuration that only names a database. -/
def ofDatabase (database : String) : Config := ⟨database, usualCapacity⟩

/-- The name must be an identifier and the capacity in its range. -/
def check (c : Config) : Except Violation Unit :=
  if Text.isIdentifier c.database = false then .error (.malformed .databaseName)
  else if Quantity.feedCapacity.Holds c.capacity then .ok ()
  else .error (.outOfRange .feedCapacity (.ofNat c.capacity))

namespace Document

/-- A text without half of a surrogate pair. -/
def text? : Document → Option String
  | .text s => s
  | _ => none

/-- A natural number that fits sixty-four bits. -/
def count? : Document → Option Nat
  | .number (some n) => if n < 0x10000000000000000 then some n else none
  | _ => none

/-- The names of the members, if all of them are text. -/
def named? (members : List (Option String × Document)) : Option (List (String × Document)) :=
  members.mapM (fun m => m.1.map (·, m.2))

/-- The values of a member; more than one is a repetition. -/
def valuesOf (name : String) (members : List (String × Document)) : List Document :=
  (members.filter (fun m => decide (m.1 = name))).map (·.2)

/-- The capacity that is written, or the usual one; no answer when it is written twice or is no count. -/
def capacity? : List Document → Option Nat
  | [] => some usualCapacity
  | [d] => d.count?
  | _ => none

/-- The configuration that a document describes: its two fields by name, or by position. Other names are ignored. -/
def config? : Document → Option Config
  | .object members => do
    let members ← named? members
    let [database] := valuesOf "database" members | none
    return ⟨← database.text?, ← capacity? (valuesOf "feed_buffer" members)⟩
  | .array (database :: rest) => do return ⟨← database.text?, ← capacity? rest⟩
  | _ => none

end Document

/-- The configuration that a text describes, checked. -/
def read (text : String) : Except Error Config :=
  match (Document.read text).bind Document.config? with
  | none => .error (.badArgument .unreadableConfig)
  | some c => asError (c.check.map (fun _ => c))

end Config

end TableReplica
