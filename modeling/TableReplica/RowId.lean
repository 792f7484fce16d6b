import TableReplica.SortedMap.Basic
import TableReplica.Violation

/-!
# Row identifiers

A row is named by thirty-two hexadecimal digits in groups of 8, 4, 4, 4 and 12. Identifiers are read in any letter case and kept in
lower case, so equal identifiers have equal text. New ones come from 128 random bits, of which six are overwritten by the version
digit `4` and the two variant bits `10`.

The identifiers of new rows and the tags of name supplies come from a source of random numbers. A source is replaced by the sequence of
multiples of one odd constant, modulo 2 ^ 128: different seeds start it at different places, and no number comes twice before all
have come.
-/

namespace TableReplica

namespace RowId

/-- A hexadecimal digit in lower case. -/
def isLowerHex (c : Char) : Bool := c.isDigit || (decide ('a' ≤ c) && decide (c ≤ 'f'))

/-- The positions of the four dashes. -/
def isDash (i : Nat) : Bool := i == 8 || i == 13 || i == 18 || i == 23

/-- Thirty-six characters, dashes at their four positions and lower-case hexadecimal digits elsewhere. -/
def isCanonical (cs : List Char) : Bool :=
  decide (cs.length = 36) && cs.zipIdx.all (fun ci => if isDash ci.2 then ci.1 == '-' else isLowerHex ci.1)

end RowId

/-- The identifier of a row, in canonical form. -/
structure RowId where
  text : String
  canonical : RowId.isCanonical text.toList = true

namespace RowId

instance : DecidableEq RowId := fun a b =>
  decidable_of_iff (a.text = b.text) ⟨fun h => by cases a; cases b; cases h; rfl, fun h => h ▸ rfl⟩

/-- An identifier is determined by its text. -/
theorem eq_of_text_eq {a b : RowId} (h : a.text = b.text) : a = b := by
  cases a
  cases b
  cases h
  rfl

instance : LT RowId := ⟨fun a b => a.text < b.text⟩

instance : DecidableLT RowId := fun a b => inferInstanceAs (Decidable (a.text < b.text))

/-- Identifiers are ordered by their text. -/
instance : KeyOrder RowId := .ofInjective RowId.text (fun _ _ => eq_of_text_eq) (fun _ _ => Iff.rfl)

/-- Reads an identifier in any letter case. The length is measured in bytes and comes first. -/
def parse (s : String) : Except Violation RowId :=
  let cs := s.toList.map Char.toLower
  if s.utf8ByteSize ≠ 36 then .error (.malformed .idLength)
  else if h : isCanonical cs = true then .ok ⟨String.ofList cs, by rw [String.toList_ofList]; exact h⟩
  else .error (.malformed .idLayout)

/-- The digit at a position of a draw, counted from the most significant one, after version and variant are set. -/
def drawnDigit (bits : BitVec 128) (i : Nat) : Nat :=
  let d := (bits.toNat >>> (4 * (31 - i))) % 16
  if i = 12 then 4 else if i = 16 then 8 + d % 4 else d

/-- What is written at a place of a drawn identifier is a hexadecimal digit. -/
theorem drawnDigit_lt (bits : BitVec 128) (i : Nat) : drawnDigit bits i < 16 := by
  unfold drawnDigit
  simp only
  split
  · omega
  · split <;> omega

/-- The character at a position of the text of a draw: the four dashes shift the digits behind them. -/
def drawnChar (bits : BitVec 128) (i : Nat) : Char :=
  if isDash i then '-' else Nat.digitChar (drawnDigit bits (i - ((List.range i).filter isDash).length))

/-- A digit below sixteen is written by a lower-case hexadecimal character. -/
theorem isLowerHex_digitChar {n : Nat} (h : n < 16) : isLowerHex (Nat.digitChar n) = true := by
  revert n
  decide

/-- Digits below sixteen are written by different characters. -/
theorem digitChar_inj {m n : Nat} (hm : m < 16) (hn : n < 16) (h : Nat.digitChar m = Nat.digitChar n) : m = n := by
  have hall : ∀ m < 16, ∀ n < 16, Nat.digitChar m = Nat.digitChar n → m = n := by decide
  exact hall m hm n hn h

/-- The identifier made of 128 random bits. -/
def ofDraw (bits : BitVec 128) : RowId where
  text := String.ofList ((List.range 36).map (drawnChar bits))
  canonical := by
    rw [String.toList_ofList]
    simp only [isCanonical, List.length_map, List.length_range, decide_true, Bool.true_and, List.all_eq_true]
    rintro ⟨c, i⟩ hmem
    obtain ⟨hi, hc⟩ := List.mem_zipIdx' hmem
    have hc : c = drawnChar bits i := by simpa using hc
    simp only [hc, drawnChar]
    split
    · rfl
    · exact isLowerHex_digitChar (drawnDigit_lt _ _)

end RowId

/-! ## Draws -/

/-- Where new identifiers come from: the one that is given to the n-th row, counted from zero. -/
abbrev RowIdSupply := Nat → RowId

namespace Draws

/-- The constant whose multiples are drawn. -/
def step : BitVec 128 := 0x9E3779B97F4A7C15F39CC0605CEDC835

/-- The n-th number, counted from zero. -/
def wide (seed : UInt64) (n : Nat) : BitVec 128 := BitVec.ofNat 128 (seed.toNat + n + 1) * step

/-- The upper quarter of the n-th number, counted from zero. -/
def narrow (seed : UInt64) (n : Nat) : UInt32 := .ofNat (wide seed n >>> 96).toNat

/-- Each number makes one identifier. -/
def rowIds (seed : UInt64) : RowIdSupply := fun n => .ofDraw (wide seed n)

end Draws

end TableReplica
