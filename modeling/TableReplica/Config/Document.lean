import TableReplica.Config.Lexeme

/-!
# Configuration texts

A configuration is written in JSON. `Document.read` accepts exactly one value between blanks. Members of objects keep the order and
the repetitions of the text.
-/

namespace TableReplica.Config

inductive Document where
  | null
  | boolean (b : Bool)
  /-- A number; its value is kept only when it is written as a natural number. -/
  | number (natural : Option Nat)
  | text (s : Option String)
  | array (items : List Document)
  | object (members : List (Option String × Document))

namespace Document

def isBlank (c : Char) : Bool := c == ' ' || c == '\n' || c == '\t' || c == '\r'

def skipBlanks (cs : List Char) : List Char := cs.dropWhile isBlank

mutual

/-- A value, and what follows it. Every call is given one unit of fuel less. -/
def readValue : Nat → List Char → Option (Document × List Char)
  | 0, _ => none
  | fuel + 1, cs =>
    match skipBlanks cs with
    | 'n' :: 'u' :: 'l' :: 'l' :: rest => some (.null, rest)
    | 't' :: 'r' :: 'u' :: 'e' :: rest => some (.boolean true, rest)
    | 'f' :: 'a' :: 'l' :: 's' :: 'e' :: rest => some (.boolean false, rest)
    | '"' :: rest => (readString rest).map (fun r => (.text r.1, r.2))
    | '[' :: rest =>
      match skipBlanks rest with
      | ']' :: rest => some (.array [], rest)
      | _ => (readItems fuel rest).map (fun r => (.array r.1, r.2))
    | '\x7b' :: rest =>
      match skipBlanks rest with
      | '\x7d' :: rest => some (.object [], rest)
      | _ => (readMembers fuel rest).map (fun r => (.object r.1, r.2))
    | cs => (readNumber cs).map (fun r => (.number r.1, r.2))

/-- The items of an array up to its closing bracket. -/
def readItems : Nat → List Char → Option (List Document × List Char)
  | 0, _ => none
  | fuel + 1, cs => do
    let (item, cs) ← readValue fuel cs
    match skipBlanks cs with
    | ']' :: rest => return ([item], rest)
    | ',' :: rest => do
      let (items, rest) ← readItems fuel rest
      return (item :: items, rest)
    | _ => none

/-- The members of an object up to its closing brace. -/
def readMembers : Nat → List Char → Option (List (Option String × Document) × List Char)
  | 0, _ => none
  | fuel + 1, cs =>
    match skipBlanks cs with
    | '"' :: rest => do
      let (name, cs) ← readString rest
      match skipBlanks cs with
      | ':' :: rest => do
        let (value, cs) ← readValue fuel rest
        match skipBlanks cs with
        | '\x7d' :: rest => return ([(name, value)], rest)
        | ',' :: rest => do
          let (members, rest) ← readMembers fuel rest
          return ((name, value) :: members, rest)
        | _ => none
      | _ => none
    | _ => none

end

/-- The fuel that suffices: a call that calls another has taken a character or is a value at the front of an array. -/
def fuelFor (cs : List Char) : Nat := 2 * cs.length + 2

/-- The document that a whole text writes. -/
def read (text : String) : Option Document :=
  match readValue (fuelFor text.toList) text.toList with
  | some (document, rest) => if (skipBlanks rest).isEmpty then some document else none
  | none => none

end Document

end TableReplica.Config
