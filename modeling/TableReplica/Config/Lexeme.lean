/-!
# Strings and numbers of a configuration text

The readers here take characters from the front of a text and leave the rest. A string with an escape that stands for half of a
surrogate pair is well written and yet no text.
-/

namespace TableReplica.Config

/-- One piece of a string: a character, or a unit of sixteen bits written by its digits. -/
inductive Piece where
  | char (c : Char)
  | unit (n : Nat)
deriving DecidableEq

/-- The value of a hexadecimal digit. -/
def hexDigit? (c : Char) : Option Nat :=
  if '0' ≤ c ∧ c ≤ '9' then some (c.toNat - '0'.toNat)
  else if 'a' ≤ c ∧ c ≤ 'f' then some (c.toNat - 'a'.toNat + 10)
  else if 'A' ≤ c ∧ c ≤ 'F' then some (c.toNat - 'A'.toNat + 10)
  else none

/-- The value of hexadecimal digits. -/
def hexValue? (cs : List Char) : Option Nat := cs.foldlM (fun n c => (hexDigit? c).map (16 * n + ·)) 0

/-- The character that a letter stands for behind a backslash. -/
def escaped? : Char → Option Char
  | '"' => some '"'
  | '\\' => some '\\'
  | '/' => some '/'
  | 'b' => some '\x08'
  | 'f' => some '\x0c'
  | 'n' => some '\n'
  | 'r' => some '\r'
  | 't' => some '\t'
  | _ => none

/-- The pieces of a string up to its closing quote. Controls must be escaped. -/
def readPieces : List Char → Option (List Piece × List Char)
  | [] => none
  | '"' :: rest => some ([], rest)
  | '\\' :: 'u' :: a :: b :: c :: d :: rest => do
    let n ← hexValue? [a, b, c, d]
    let (pieces, rest) ← readPieces rest
    return (.unit n :: pieces, rest)
  | '\\' :: e :: rest => do
    let c ← escaped? e
    let (pieces, rest) ← readPieces rest
    return (.char c :: pieces, rest)
  | c :: rest =>
    if c < ' ' ∨ c = '\\' then none
    else (readPieces rest).map (fun r => (.char c :: r.1, r.2))

/-- The first unit of a surrogate pair. -/
def isLead (n : Nat) : Bool := decide (0xD800 ≤ n) && decide (n < 0xDC00)

/-- The second unit of a surrogate pair. -/
def isTrail (n : Nat) : Bool := decide (0xDC00 ≤ n) && decide (n < 0xE000)

/-- The characters of a string: two units of a pair make one, and no other half of a pair may stand. -/
def joinPieces : List Piece → Option (List Char)
  | [] => some []
  | .char c :: rest => (joinPieces rest).map (c :: ·)
  | .unit n :: .unit m :: rest =>
    if isLead n then
      if isTrail m then (joinPieces rest).map (Char.ofNat (0x10000 + 0x400 * (n - 0xD800) + (m - 0xDC00)) :: ·) else none
    else if isTrail n then none
    else (joinPieces (.unit m :: rest)).map (Char.ofNat n :: ·)
  | .unit n :: rest => if isLead n || isTrail n then none else (joinPieces rest).map (Char.ofNat n :: ·)

/-- The string behind an opening quote; no text when half of a pair stands in it. -/
def readString (cs : List Char) : Option (Option String × List Char) :=
  (readPieces cs).map (fun r => ((joinPieces r.1).map String.ofList, r.2))

/-- One digit or more. -/
def readDigits (cs : List Char) : Option (List Char × List Char) :=
  match cs.span Char.isDigit with
  | ([], _) => none
  | digits => some digits

/-- Digits without a zero in front of others. -/
def readWhole (cs : List Char) : Option (List Char × List Char) :=
  (readDigits cs).bind fun r =>
    match r.1 with
    | '0' :: _ :: _ => none
    | _ => some r

/-- The digits behind a point, if there is one: whether there is one, and the rest. -/
def readFraction : List Char → Option (Bool × List Char)
  | '.' :: rest => (readDigits rest).map (fun r => (true, r.2))
  | cs => some (false, cs)

/-- An exponent, if there is one: whether there is one, and the rest. -/
def readExponent : List Char → Option (Bool × List Char)
  | [] => some (false, [])
  | e :: rest =>
    if e = 'e' ∨ e = 'E' then
      let digits := match rest with
        | '+' :: rest => rest
        | '-' :: rest => rest
        | rest => rest
      (readDigits digits).map (fun r => (true, r.2))
    else some (false, e :: rest)

/-- The number that digits write. -/
def decimalValue (digits : List Char) : Nat := digits.foldl (fun n c => 10 * n + (c.toNat - '0'.toNat)) 0

/-- A number. Only one written without sign, point and exponent counts as a natural number. -/
def readNumber (cs : List Char) : Option (Option Nat × List Char) := do
  let (negative, cs) := match cs with
    | '-' :: rest => (true, rest)
    | cs => (false, cs)
  let (digits, cs) ← readWhole cs
  let (fraction, cs) ← readFraction cs
  let (exponent, cs) ← readExponent cs
  return (if negative || fraction || exponent then none else some (decimalValue digits), cs)

example : readString "\\ud83d\\ude00\" x".toList = some (some "😀", " x".toList) := by cbv

example : readNumber "-1.5e3,".toList = some (none, ",".toList) := by decide

end TableReplica.Config
