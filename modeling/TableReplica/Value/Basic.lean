import TableReplica.RowId
import TableReplica.Text.Quoted

/-!
# Column values

A column holds a scalar, a set of values or a map from text to text. Two relations compare values. `Value.agrees` is equality of the
data meant: numbers are compared as numbers, so zeros of both signs agree and what is not a number agrees with nothing.
`Value.order` is a total order of the values as they are written, used to bring sets into one form; it answers `.eq` only for the
same value (`Value.order_eq_iff`).

`Value.ofList` sorts the members and drops a member that agrees with the one kept before it, so a set has one form whatever order its
members came in.

Messages about keys show the value of each column with its kind: `String("x")`, `Integer(5)`, `Set([Integer(1), Integer(2)])`.
-/

namespace TableReplica

inductive Value where
  | string (s : String)
  | integer (n : Int64)
  | boolean (b : Bool)
  | real (x : Binary64)
  | uuid (u : RowId)
  | set (items : List Value)
  | map (entries : SortedMap String String)

instance : Inhabited Value := ⟨.set []⟩

namespace Value

def kindText : Value → String
  | .string _ => "string"
  | .integer _ => "integer"
  | .boolean _ => "boolean"
  | .real _ => "real"
  | .uuid _ => "uuid"
  | .set _ => "set"
  | .map _ => "map"

def text? : Value → Option String
  | .string s => some s
  | _ => none

def int64? : Value → Option Int64
  | .integer n => some n
  | _ => none

def rowId? : Value → Option RowId
  | .uuid u => some u
  | _ => none

/-- The members of a set; any other value stands for the set that holds it alone. -/
def members : Value → List Value
  | .set items => items
  | v => [v]

/-- The empty set. -/
def holdsNothing : Value → Bool
  | .set items => items.isEmpty
  | _ => false

/-- The value is the identifier itself or a set that holds it. -/
def refersTo (v : Value) (target : RowId) : Bool :=
  match v with
  | .uuid u => decide (u = target)
  | .set items => items.any (fun item => decide (item.rowId? = some target))
  | _ => false

/-! ## Equality of the data meant -/

mutual

/-- Equality of values with numbers compared as numbers; a set agrees only with a set of the same length, member by member. -/
def agrees : Value → Value → Bool
  | .string a, .string b => decide (a = b)
  | .integer a, .integer b => decide (a = b)
  | .boolean a, .boolean b => decide (a = b)
  | .real a, .real b => a.numEq b
  | .uuid a, .uuid b => decide (a = b)
  | .set a, .set b => membersAgree a b
  | .map a, .map b => decide (a = b)
  | _, _ => false

def membersAgree : List Value → List Value → Bool
  | [], [] => true
  | a :: as, b :: bs => agrees a b && membersAgree as bs
  | _, _ => false

end

/-- Some item of the list agrees with the value. -/
def isAmong (v : Value) (items : List Value) : Bool := items.any (fun item => item.agrees v)

/-! ## The total order -/

/-- The place of each kind of value in the order. -/
def rank : Value → Nat
  | .boolean _ => 0
  | .integer _ => 1
  | .real _ => 2
  | .string _ => 3
  | .uuid _ => 4
  | .set _ => 5
  | .map _ => 6

/-- Entries of maps are compared by key, then by value. -/
def orderEntry (a b : String × String) : Ordering := (compare a.1 b.1).then (compare a.2 b.2)

mutual

/-- Values are ordered by kind, and within a kind by content: numbers in the total order of their patterns, text by code point, sets
and maps item by item with the shorter one first. -/
def order : Value → Value → Ordering
  | .boolean a, .boolean b => compare a b
  | .integer a, .integer b => compare a b
  | .real a, .real b => a.order b
  | .string a, .string b => compare a b
  | .uuid a, .uuid b => compare a.text b.text
  | .set a, .set b => orderMembers a b
  | .map a, .map b => List.compareLex orderEntry a.entries b.entries
  | a, b => compare a.rank b.rank

def orderMembers : List Value → List Value → Ordering
  | [], [] => .eq
  | [], _ :: _ => .lt
  | _ :: _, [] => .gt
  | a :: as, b :: bs => (order a b).then (orderMembers as bs)

end

/-- Entries of a map compare as equal only if they are identical. -/
theorem orderEntry_eq_iff (a b : String × String) : orderEntry a b = .eq ↔ a = b := by
  rw [orderEntry, Ordering.then_eq_eq, Std.LawfulEqOrd.compare_eq_iff_eq, Std.LawfulEqOrd.compare_eq_iff_eq]
  exact Prod.ext_iff.symm

instance : Std.LawfulEqCmp orderEntry where
  compare_self := (orderEntry_eq_iff _ _).mpr rfl
  eq_of_compare h := (orderEntry_eq_iff _ _).mp h

mutual

/-- The order tells any two different values apart. -/
theorem order_eq_iff (a b : Value) : order a b = .eq ↔ a = b := by
  cases a with
  | string s => cases b <;> simp [order, rank]
  | integer n => cases b <;> simp [order, rank]
  | boolean x => cases b <;> simp [order, rank]
  | real x => cases b <;> simp [order, rank, Binary64.order_eq_iff]
  | uuid u =>
    cases b <;> simp [order, rank]
    exact ⟨RowId.eq_of_text_eq, fun h => h ▸ rfl⟩
  | set items =>
    cases b with
    | set items' => simp [order, orderMembers_eq_iff items items']
    | _ => simp [order, rank]
  | map es =>
    cases b <;> simp [order, rank, Std.LawfulEqCmp.compare_eq_iff_eq]
    exact ⟨SortedMap.eq_of_entries_eq, fun h => h ▸ rfl⟩

/-- Lists of members compare as equal only if they are identical. -/
theorem orderMembers_eq_iff (as bs : List Value) : orderMembers as bs = .eq ↔ as = bs := by
  cases as with
  | nil => cases bs <;> simp [orderMembers]
  | cons a as =>
    cases bs with
    | nil => simp [orderMembers]
    | cons b bs => rw [orderMembers, Ordering.then_eq_eq, order_eq_iff a b, orderMembers_eq_iff as bs, List.cons.injEq]

end

instance : DecidableEq Value := fun a b => decidable_of_iff (order a b = .eq) (order_eq_iff a b)

end Value

end TableReplica

namespace TableReplica.Value

/-! ## The one form of a set -/

/-- A value put before the first item that does not come before it. -/
def insertInOrder (v : Value) : List Value → List Value
  | [] => [v]
  | item :: rest =>
    match order v item with
    | .gt => item :: insertInOrder v rest
    | _ => v :: item :: rest

/-- The items in ascending order. -/
def sorted (items : List Value) : List Value := items.foldr insertInOrder []

/-- The items that do not agree with the last one kept. -/
def dropRepeatsAfter (kept : Value) : List Value → List Value
  | [] => []
  | item :: rest => if kept.agrees item then dropRepeatsAfter kept rest else item :: dropRepeatsAfter item rest

/-- The items without those that agree with the last one kept. -/
def dropRepeats : List Value → List Value
  | [] => []
  | item :: rest => item :: dropRepeatsAfter item rest

/-- The members of a set in their one form. -/
def canonicalItems (items : List Value) : List Value := dropRepeats (sorted items)

/-- The set of the given members. -/
def ofList (items : List Value) : Value := .set (canonicalItems items)

def ofRowIds (ids : List RowId) : Value := ofList (ids.map .uuid)

/-- The map of the given pairs, where a later pair replaces an earlier one with the same key. -/
def ofPairs (pairs : List (String × String)) : Value := .map (.ofList pairs)

end TableReplica.Value

namespace TableReplica

/-! ## How values are described -/

/-- A call-like description: a name with its content between parentheses. -/
def Text.labelled (label content : String) : String := label ++ "(" ++ content ++ ")"

namespace Value

mutual

def describe : Value → String
  | .string s => Text.labelled "String" (Text.quote s)
  | .integer n => Text.labelled "Integer" (toString n.toInt)
  | .boolean b => Text.labelled "Boolean" (if b then "true" else "false")
  | .real x => Text.labelled "Real" (x.text .key)
  | .uuid u => Text.labelled "Uuid" (Text.labelled "RowUuid" (Text.quote u.text))
  | .set items => Text.labelled "Set" (Text.bracketed (describeMembers items))
  | .map entries =>
    let pairs := entries.entries.map (fun e => Text.quote e.1 ++ ": " ++ Text.quote e.2)
    Text.labelled "Map" ("\x7b" ++ ", ".intercalate pairs ++ "\x7d")

def describeMembers : List Value → List String
  | [] => []
  | item :: rest => describe item :: describeMembers rest

end

end Value

end TableReplica
