import TableReplica.RowId

/-!
# Placeholders

Names of databases and of placeholders are identifiers: a letter or underscore, then letters, digits and underscores, all of them
ASCII.

A row that is inserted gets its identifier only when the insert is carried out. Until then the operations of the same transaction
name it by a placeholder, an identifier of at most sixty-four characters.
-/

namespace TableReplica.Text

/-! ## Identifiers -/

def isIdentifierStart (c : Char) : Bool :=
  (decide ('A' ≤ c) && decide (c ≤ 'Z')) || (decide ('a' ≤ c) && decide (c ≤ 'z')) || c == '_'

def isIdentifierRest (c : Char) : Bool := isIdentifierStart c || c.isDigit

/-- The text is `[A-Za-z_][A-Za-z0-9_]*`. -/
def isIdentifier (s : String) : Bool :=
  match s.toList with
  | [] => false
  | c :: rest => isIdentifierStart c && rest.all isIdentifierRest

/-- The characters of identifiers take one byte each. -/
theorem utf8Size_of_isIdentifierRest {c : Char} (h : isIdentifierRest c = true) : c.utf8Size = 1 := by
  have hle : c ≤ '\x7f' := by
    simp only [isIdentifierRest, isIdentifierStart, Char.isDigit, Bool.or_eq_true, Bool.and_eq_true, decide_eq_true_eq,
      beq_iff_eq] at h
    rcases h with (((⟨_, h⟩ | ⟨_, h⟩) | rfl) | ⟨_, h⟩)
    · exact Char.le_trans h (by decide)
    · exact Char.le_trans h (by decide)
    · decide
    · exact Char.le_trans (b := '9') h (by decide)
  have hle : c.val ≤ 127 := hle
  simp [Char.utf8Size, hle]

/-- Text of characters that take one byte each has as many bytes as characters. -/
theorem utf8ByteSize_ofList {cs : List Char} (h : ∀ c ∈ cs, c.utf8Size = 1) : (String.ofList cs).utf8ByteSize = cs.length := by
  induction cs with
  | nil => rfl
  | cons c cs ih =>
    obtain ⟨hc, hcs⟩ := List.forall_mem_cons.mp h
    rw [String.ofList_cons, String.utf8ByteSize_append, String.utf8ByteSize_singleton, hc, ih hcs, List.length_cons, Nat.add_comm]

end TableReplica.Text

namespace TableReplica

namespace Placeholder

/-- The fault of a text as a placeholder, its characters before its length. -/
def fault? (s : String) : Option Fault :=
  if Text.isIdentifier s = false then some .placeholderCharacters
  else if 64 < s.utf8ByteSize then some .placeholderLength
  else none

end Placeholder

structure Placeholder where
  text : String
  valid : Placeholder.fault? text = none

namespace Placeholder

/-- A placeholder is determined by its text. -/
theorem eq_of_text_eq {a b : Placeholder} (h : a.text = b.text) : a = b := by
  cases a
  cases b
  cases h
  rfl

instance : DecidableEq Placeholder := fun a b =>
  decidable_of_iff (a.text = b.text) ⟨eq_of_text_eq, fun h => h ▸ rfl⟩

instance : LT Placeholder := ⟨fun a b => a.text < b.text⟩

instance : DecidableLT Placeholder := fun a b => inferInstanceAs (Decidable (a.text < b.text))

/-- Placeholders are ordered by their text. -/
instance : KeyOrder Placeholder := .ofInjective Placeholder.text (fun _ _ => eq_of_text_eq) (fun _ _ => Iff.rfl)

def parse (s : String) : Except Violation Placeholder :=
  match h : fault? s with
  | some f => .error (.malformed f)
  | none => .ok ⟨s, h⟩

end Placeholder

end TableReplica
