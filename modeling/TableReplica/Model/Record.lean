import TableReplica.Value.Kind

/-!
# Records

A record is the typed side of a row: named fields, each of one shape. It knows the record type it belongs to and the table of that
type. Reading a field that is absent or of another shape gives the zero of the shape asked for.
-/

namespace TableReplica

/-- What a field of a record holds. -/
inductive FieldValue where
  | text (s : String)
  | textOption (s : Option String)
  | integer (n : Int64)
  | integerOption (n : Option Int64)
  | boolean (b : Bool)
  | booleanOption (b : Option Bool)
  | real (x : Binary64)
  | texts (items : List String)
  | integers (items : List Int64)
  | textMap (entries : SortedMap String String)
deriving DecidableEq

structure Record where
  /-- The record type. -/
  type : String
  /-- The table of the record type. -/
  table : String
  fields : SortedMap String FieldValue
deriving DecidableEq

namespace Record

def get? (r : Record) (name : String) : Option FieldValue := r.fields.get? name

def set (r : Record) (name : String) (value : FieldValue) : Record := { r with fields := r.fields.insert name value }

def text (r : Record) (name : String) : String :=
  match r.get? name with
  | some (.text s) => s
  | _ => ""

def textOption (r : Record) (name : String) : Option String :=
  match r.get? name with
  | some (.textOption s) => s
  | _ => none

def integer (r : Record) (name : String) : Int64 :=
  match r.get? name with
  | some (.integer n) => n
  | _ => 0

def integerOption (r : Record) (name : String) : Option Int64 :=
  match r.get? name with
  | some (.integerOption n) => n
  | _ => none

def boolean (r : Record) (name : String) : Bool :=
  match r.get? name with
  | some (.boolean b) => b
  | _ => false

def booleanOption (r : Record) (name : String) : Option Bool :=
  match r.get? name with
  | some (.booleanOption b) => b
  | _ => none

def real (r : Record) (name : String) : Binary64 :=
  match r.get? name with
  | some (.real x) => x
  | _ => .zero

def texts (r : Record) (name : String) : List String :=
  match r.get? name with
  | some (.texts items) => items
  | _ => []

def integers (r : Record) (name : String) : List Int64 :=
  match r.get? name with
  | some (.integers items) => items
  | _ => []

def textMap (r : Record) (name : String) : SortedMap String String :=
  match r.get? name with
  | some (.textMap entries) => entries
  | _ => ∅

end Record

end TableReplica
