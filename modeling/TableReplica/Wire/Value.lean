import TableReplica.SortedMap.Basic
import TableReplica.Binary64.Basic
import TableReplica.Row

/-!
# Values and rows on the wire

Messages are JSON trees. Numbers are told apart by how they are written, as integers or as reals. An object is a list of members;
it is read through `members?`, in the order of the names, where a later member replaces an earlier one of the same name.

A scalar is a JSON scalar, except an identifier, which is `["uuid", text]`. Sets and maps are `["set", items]` and
`["map", pairs]`. Reading is loose, since the wire does not tell integer columns from real ones; where the kind of a column is
known, `Value.normalize` settles its form.
-/

namespace TableReplica

/-! ## JSON trees -/

inductive Json where
  | null
  | boolean (b : Bool)
  | integer (n : Int)
  | real (x : Binary64)
  | text (s : String)
  | array (items : List Json)
  | object (members : List (String × Json))

namespace Json

instance : Inhabited Json := ⟨.null⟩

def items? : Json → Option (List Json)
  | .array items => some items
  | _ => none

def text? : Json → Option String
  | .text s => some s
  | _ => none

def members? : Json → Option (SortedMap String Json)
  | .object members => some (.ofList members)
  | _ => none

/-- The member of an object with the given name. -/
def member? (j : Json) (name : String) : Option Json := j.members?.bind (·.get? name)

/-- A number without sign that fits sixty-four bits. -/
def count? : Json → Option UInt64
  | .integer n => if 0 ≤ n ∧ n < 0x10000000000000000 then some (.ofNat n.toNat) else none
  | _ => none

end Json

/-! ## Values and rows -/

namespace Wire

/-- A scalar. An integer beyond sixty-four bits is read as the nearest real. -/
def readScalar : Json → Except Violation Value
  | .text s => .ok (.string s)
  | .boolean b => .ok (.boolean b)
  | .integer n =>
    if Quantity.integerColumn.Holds n then .ok (.integer (.ofInt n)) else finiteReal (.ofInt n)
  | .real x => finiteReal x
  | .array [.text tag, payload] =>
    if tag = "uuid" then
      match payload with
      | .text s => (RowId.parse s).map .uuid
      | _ => .error (.malformed .wireId)
    else .error (.malformed .wireScalar)
  | _ => .error (.malformed .wireScalar)
where
  finiteReal (x : Binary64) : Except Violation Value :=
    if x.isFinite then .ok (.real x) else .error (.nonFinite .wire)

/-- A pair of a map. -/
def readPair : Json → Except Violation (String × String)
  | .array [.text k, .text v] => .ok (k, v)
  | _ => .error (.malformed .wireMapEntry)

/-- A value as it is written, of whatever kind. -/
def readLoose (j : Json) : Except Violation Value :=
  match j with
  | .array [.text tag, payload] =>
    if tag = "set" then
      match payload with
      | .array items => (items.mapM readScalar).map .ofList
      | _ => .error (.malformed .wireSet)
    else if tag = "map" then
      match payload with
      | .array pairs => (pairs.mapM readPair).map .ofPairs
      | _ => .error (.malformed .wireMap)
    else readScalar j
  | _ => readScalar j

/-- A value in the form of its kind, if the kind is known; `none` when the column is absent. -/
def readValue (kind : Option Kind) (j : Json) : Except Violation (Option Value) :=
  (readLoose j).bind fun v =>
    match kind with
    | some kind => v.normalize kind
    | none => .ok (some v)

/-- A row from an object of columns; anything else is the empty row. -/
def readRow (kinds : Option Kinds) (j : Json) : Except Violation Row :=
  match j.members? with
  | some columns => columns.filterMapOk (fun column v => readValue (kinds.bind (·.get? column)) v)
  | none => .ok ∅

/-- A pair of a tag and its payload. -/
def tagged (tag : String) (payload : Json) : Json := .array [.text tag, payload]

def writeId (u : RowId) : Json := tagged "uuid" (.text u.text)

mutual

/-- A value as JSON. What is not finite has no JSON number and is written as null. -/
def writeValue : Value → Json
  | .string s => .text s
  | .integer n => .integer n.toInt
  | .boolean b => .boolean b
  | .real x => if x.isFinite then .real x else .null
  | .uuid u => writeId u
  | .set items => tagged "set" (.array (writeMembers items))
  | .map entries => tagged "map" (.array (entries.entries.map (fun e => .array [.text e.1, .text e.2])))

def writeMembers : List Value → List Json
  | [] => []
  | v :: rest => writeValue v :: writeMembers rest

end

def writeRow (row : Row) : Json := .object (row.entries.map (fun e => (e.1, writeValue e.2)))

end Wire

end TableReplica
