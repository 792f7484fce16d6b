import TableReplica.Operation.Placeholder

/-!
# Supplies of placeholders

A supply names the rows that are inserted `row_`, its tag in eight digits of base sixteen, an underscore, and the number of the row
in base ten. The tag is drawn at random, so that transactions composed with different supplies can be merged.
-/

namespace TableReplica

namespace Placeholder

/-- The eight digits of a tag, in base sixteen. -/
def tagDigits (tag : UInt32) : List Char :=
  (List.range 8).map (fun i => Nat.digitChar ((tag.toNat >>> (4 * (7 - i))) % 16))

/-- The characters of the placeholder with a tag and a number. -/
def numberedChars (tag number : UInt32) : List Char :=
  'r' :: 'o' :: 'w' :: '_' :: (tagDigits tag ++ '_' :: Nat.toDigits 10 number.toNat)

/-- A hexadecimal digit may stand in an identifier after its first character. -/
theorem isIdentifierRest_digitChar {n : Nat} (h : n < 16) : Text.isIdentifierRest (Nat.digitChar n) = true := by
  revert n
  decide

theorem isIdentifierRest_of_isDigit {c : Char} (h : c.isDigit = true) : Text.isIdentifierRest c = true := by
  simp [Text.isIdentifierRest, h]

/-- Every character of a numbered name may stand in an identifier after its first one. -/
theorem isIdentifierRest_numberedChars (tag number : UInt32) :
    ∀ c ∈ numberedChars tag number, Text.isIdentifierRest c = true := by
  intro c hc
  simp only [numberedChars, tagDigits, List.mem_cons, List.mem_append, List.mem_map] at hc
  rcases hc with rfl | rfl | rfl | rfl | ⟨i, _, rfl⟩ | rfl | hc
  · rfl
  · rfl
  · rfl
  · rfl
  · exact isIdentifierRest_digitChar (Nat.mod_lt _ (by decide))
  · rfl
  · exact isIdentifierRest_of_isDigit (Nat.isDigit_of_mem_toDigits (by decide) (by decide) hc)

/-- A numbered name has a prefix of four characters, eight digits of the tag, a separator and at most ten digits of the number. -/
theorem length_numberedChars_le (tag number : UInt32) : (numberedChars tag number).length ≤ 23 := by
  have hlen : (Nat.toDigits 10 number.toNat).length ≤ 10 :=
    (Nat.length_toDigits_le_iff (by decide) (by decide)).mpr (Nat.lt_of_lt_of_le number.toNat_lt (by decide))
  simp only [numberedChars, tagDigits, List.length_cons, List.length_append, List.length_map, List.length_range]
  omega

/-- A numbered name is a valid placeholder, whatever the tag and the number. -/
theorem fault?_numberedChars (tag number : UInt32) : fault? (String.ofList (numberedChars tag number)) = none := by
  have hrest := isIdentifierRest_numberedChars tag number
  have hid : Text.isIdentifier (String.ofList (numberedChars tag number)) = true := by
    rw [Text.isIdentifier, String.toList_ofList]
    exact Bool.and_eq_true_iff.mpr ⟨rfl, List.all_eq_true.mpr (fun c hc => hrest c (List.mem_cons_of_mem _ hc))⟩
  have hlen := length_numberedChars_le tag number
  have hsize := Text.utf8ByteSize_ofList (fun c hc => Text.utf8Size_of_isIdentifierRest (hrest c hc))
  rw [fault?, hid, hsize, if_neg (by decide), if_neg (by omega)]

/-- The placeholder with a tag and a number. -/
def numbered (tag number : UInt32) : Placeholder :=
  ⟨String.ofList (numberedChars tag number), fault?_numberedChars tag number⟩

end Placeholder

/-- A supply of placeholders: its tag and the number of the next row. -/
structure NameSupply where
  tag : UInt32
  next : UInt32
deriving DecidableEq

namespace NameSupply

def ofTag (tag : UInt32) : NameSupply := ⟨tag, 0⟩

/-- The placeholder of the next row. -/
def placeholder (names : NameSupply) : Placeholder := .numbered names.tag names.next

/-- The supply after its placeholder is taken. -/
def advance (names : NameSupply) : NameSupply := { names with next := names.next + 1 }

end NameSupply

end TableReplica
