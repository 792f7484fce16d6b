import TableReplica.Error

/-!
# The cache

The rows of the subscribed tables, as far as they have been heard of. A table that is subscribed and has no rows differs from one that
is not subscribed: only the latter cannot be read. No empty row is ever stored.

Rows are found by the values of some of their columns, or by a reference that a column holds. Every search goes through the rows in
the order of their identifiers. A missing column is an empty set, and a scalar is the set that holds it alone.
-/

namespace TableReplica

structure Cache where
  tables : SortedMap String RowMap
deriving DecidableEq

namespace Cache

def empty : Cache := ⟨∅⟩

instance : Inhabited Cache := ⟨empty⟩

def knows (c : Cache) (table : String) : Bool := c.tables.contains table

/-- The subscribed tables, in order. -/
def subscribed (c : Cache) : List String := c.tables.keys

/-- The cache with a table subscribed; its rows stay when it was subscribed before. -/
def subscribe (c : Cache) (table : String) : Cache :=
  if c.knows table then c else ⟨c.tables.insert table ∅⟩

/-- The rows of a subscribed table. -/
def rows (c : Cache) (table : String) : Except Error RowMap :=
  match c.tables.get? table with
  | some rows => .ok rows
  | none => .error (.missing [table] .subscription)

/-- The row of a table under an identifier, when there is one. -/
def row? (c : Cache) (table : String) (id : RowId) : Option Row := (c.tables.get? table).bind (·.get? id)

/-- The row under an identifier, which must be there. -/
def row (c : Cache) (table : String) (id : RowId) : Except Error Row :=
  match c.rows table with
  | .error e => .error e
  | .ok rows =>
    match rows.get? id with
    | some row => .ok row
    | none => .error (.missing [table] (.row id))

def countRows (c : Cache) (table : String) : Except Error Nat := (c.rows table).map SortedMap.size

/-- The cache with one row replaced, or removed when there is no new state. Tables that are not subscribed stay as they are. -/
def put (c : Cache) (table : String) (id : RowId) (next : Option Row) : Cache :=
  match c.tables.get? table with
  | none => c
  | some rows =>
    match next.bind Row.nonempty? with
    | some row => ⟨c.tables.insert table (rows.insert id row)⟩
    | none => ⟨c.tables.insert table (rows.erase id)⟩

end Cache

/-! ## Searching a table -/

/-- The stored column, which may be missing, is the wanted value. -/
def Value.meets (stored : Option Value) (wanted : Value) : Bool :=
  match stored with
  | none => wanted.holdsNothing
  | some s =>
    s.agrees wanted ||
      match s, wanted with
      | .set _, .set _ => false
      | .set [item], w => item.agrees w
      | s, .set [item] => item.agrees s
      | _, _ => false

/-- The row has every wanted column; the column of the identifier must be wanted as the identifier itself. -/
def Row.meets (id : RowId) (row wanted : Row) : Bool :=
  wanted.entries.all fun e =>
    if e.1 = idColumn then decide (e.2.rowId? = some id) else Value.meets (row.get? e.1) e.2

namespace Cache

/-- The rows of a table that pass a test, by their identifiers. -/
def search (c : Cache) (table : String) (test : RowId → Row → Bool) : Except Error (List RowId) :=
  (c.rows table).map (fun rows => (rows.filter test).keys)

/-- The rows that have every wanted column. Wanting nothing is refused, since every row would do. -/
def idsMeeting (c : Cache) (table : String) (wanted : Row) : Except Error (List RowId) :=
  if wanted.isEmpty then .error (.badArgument .noColumns)
  else c.search table (fun id row => row.meets id wanted)

/-- The first row that has every wanted column. -/
def firstMeeting (c : Cache) (table : String) (wanted : Row) : Except Error (Option RowId) :=
  (c.idsMeeting table wanted).map List.head?

/-- The rows whose column is the reference or a set that holds it. -/
def idsHolding (c : Cache) (table column : String) (target : RowId) : Except Error (List RowId) :=
  c.search table (fun _ row => (row.get? column).any (·.refersTo target))

/-- The first row whose column is the reference or a set that holds it. -/
def firstHolding (c : Cache) (table column : String) (target : RowId) : Except Error (Option RowId) :=
  (c.idsHolding table column target).map List.head?

end Cache

end TableReplica
