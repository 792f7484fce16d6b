import TableReplica.Value.Basic

/-!
# Column kinds and the form of a column

A model declares a kind for each of its columns. `Value.normalize` brings a loosely written value into the form of a kind: a number
becomes an integer or a real, text becomes an identifier, a scalar becomes a set, a set of one becomes a scalar, and an empty set
in place of a scalar means that the column is absent.
-/

namespace TableReplica

inductive BaseKind where
  | string
  | integer
  | boolean
  | real
  | uuid
deriving DecidableEq

inductive Kind where
  | scalar (kind : BaseKind)
  /-- A set of at most one member. -/
  | optional (kind : BaseKind)
  | set (kind : BaseKind)
  | map
deriving DecidableEq

/-- The kinds of the columns of a table. -/
abbrev Kinds := SortedMap String Kind

/-- The integer nearest to a real, halves away from zero. It must fit sixty-four bits with sign. -/
def Binary64.nearestInteger (x : Binary64) : Except Violation Int64 :=
  if !x.isFinite then .error (.nonFinite .value)
  else if Quantity.integerColumn.Holds x.roundHalfAway then .ok (.ofInt x.roundHalfAway)
  else .error (.outOfRange .integerColumn x)

namespace Value

/-- A value in the form of a scalar kind. -/
def normalizeBase (kind : BaseKind) (v : Value) : Except Violation Value :=
  match kind, v with
  | .integer, .real x => x.nearestInteger.map .integer
  | .real, .integer n => .ok (.real (.ofInt n.toInt))
  | .real, .real x => if x.isFinite then .ok (.real x) else .error (.nonFinite .value)
  | .uuid, .string s => (RowId.parse s).map .uuid
  | .string, .string s => .ok (.string s)
  | .integer, .integer n => .ok (.integer n)
  | .boolean, .boolean b => .ok (.boolean b)
  | .uuid, .uuid u => .ok (.uuid u)
  | _, _ => .error (.malformed .otherBaseKind)

/-- A value in the form of a column kind; `none` when the column is absent. -/
def normalize (kind : Kind) (v : Value) : Except Violation (Option Value) :=
  match kind with
  | .scalar k | .optional k =>
    match v with
    | .set [] => .ok none
    | .set [item] => (normalizeBase k item).map some
    | .set _ => .error (.malformed .severalForScalar)
    | v => (normalizeBase k v).map some
  | .set k => (v.members.mapM (normalizeBase k)).map (fun items => some (ofList items))
  | .map =>
    match v with
    | .map entries => .ok (some (.map entries))
    | .set [] => .ok (some (.map ∅))
    | _ => .error (.malformed .mapExpected)

end Value

end TableReplica
