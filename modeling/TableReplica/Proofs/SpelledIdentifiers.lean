import TableReplica.Proofs.HeldReferences

/-!
# How identifiers are spelled

An identifier is read from hexadecimal digits in groups of 8, 4, 4, 4 and 12, in any letter case, and from nothing else
(`RowId.exists_parse_iff`). The check goes by positions; it is taken to groups by cutting the characters at the dashes. Two texts spell
one identifier exactly when they differ in letter case alone (`RowId.eq_iff_sameButForCase`).
-/

namespace TableReplica

/-! ## Letter case -/

/-- The upper case of a plain letter is thirty-two before it. -/
theorem Char.toNat_toUpper (c : Char) : c.toUpper.toNat = if 97 ≤ c.toNat ∧ c.toNat ≤ 122 then c.toNat - 32 else c.toNat := by
  by_cases h : 'a'.val ≤ c.val ∧ c.val ≤ 'z'.val
  · have hge : 97 ≤ c.toNat := h.1
    have hle : c.toNat ≤ 122 := h.2
    have hsum : (c.val + ('A'.val - 'a'.val)).toNat = (c.toNat + (2 ^ 32 - 32)) % 2 ^ 32 := UInt32.toNat_add _ _
    have hupper : c.toUpper = ⟨c.val + ('A'.val - 'a'.val), _⟩ := dif_pos h
    rw [if_pos ⟨hge, hle⟩, hupper]
    exact hsum.trans (by omega)
  · have hnot : ¬(97 ≤ c.toNat ∧ c.toNat ≤ 122) := h
    have hupper : c.toUpper = c := dif_neg h
    rw [if_neg hnot, hupper]

/-- The characters are the same, or one letter in its two cases. -/
def SameLetter (c d : Char) : Prop := d = c ∨ d = c.toLower ∨ d = c.toUpper

/-- Characters have one lower case exactly when they are the same letter. -/
theorem toLower_eq_iff_sameLetter (c d : Char) : c.toLower = d.toLower ↔ SameLetter c d := by
  have hc := Char.toNat_toLower c
  have hd := Char.toNat_toLower d
  have hup := Char.toNat_toUpper c
  simp only [SameLetter, ← Char.toNat_inj, hc, hd, hup]
  split <;> split <;> split <;> omega

/-- The texts differ in letter case alone. -/
def SameButForCase (s t : String) : Prop := List.Forall₂ SameLetter s.toList t.toList

/-- Texts have one lower case exactly when they are the same but for letter case. -/
theorem lowerCase_eq_iff (s t : String) : lowerCase s = lowerCase t ↔ SameButForCase s t := by
  rw [lowerCase, lowerCase, String.ofList_inj, SameButForCase, ← List.forall₂_eq_eq_eq, List.forall₂_map_left_iff,
    List.forall₂_map_right_iff]
  simp only [toLower_eq_iff_sameLetter]

namespace RowId

/-! ## Groups -/

/-- A hexadecimal digit in either letter case. -/
def isHex (c : Char) : Bool := c.isDigit || (decide ('a' ≤ c) && decide (c ≤ 'f')) || (decide ('A' ≤ c) && decide (c ≤ 'F'))

/-- Hexadecimal digits in groups of 8, 4, 4, 4 and 12, with dashes between the groups. -/
def IsGrouped (s : String) : Prop :=
  ∃ groups : List (List Char), groups.map List.length = [8, 4, 4, 4, 12] ∧ (∀ group ∈ groups, ∀ c ∈ group, isHex c = true) ∧
    s.toList = ['-'].intercalate groups

theorem isHex_iff (c : Char) :
    isHex c = true ↔ 48 ≤ c.toNat ∧ c.toNat ≤ 57 ∨ 97 ≤ c.toNat ∧ c.toNat ≤ 102 ∨ 65 ≤ c.toNat ∧ c.toNat ≤ 70 := by
  rw [isHex, Bool.or_eq_true, ← isLowerHex, isLowerHex_iff, or_assoc, Bool.and_eq_true, decide_eq_true_eq, decide_eq_true_eq]
  exact Iff.rfl

/-- A character is a hexadecimal digit when its lower case is a lower one. -/
theorem isLowerHex_toLower (c : Char) : isLowerHex c.toLower = isHex c := by
  have hlower := Char.toNat_toLower c
  rw [Bool.eq_iff_iff, isLowerHex_iff, isHex_iff, hlower]
  split <;> omega

/-- Only a dash has a dash as its lower case. -/
theorem toLower_eq_dash_iff (c : Char) : c.toLower = '-' ↔ c = '-' := by
  have hlower := Char.toNat_toLower c
  have hdash : '-'.toNat = 45 := rfl
  rw [← Char.toNat_inj, ← Char.toNat_inj, hlower, hdash]
  split <;> omega

/-- Between two dashes the check by positions asks for digits only. -/
theorem all_zipIdx_of_noDash {cs : List Char} {start : Nat} (h : ∀ i, start ≤ i → i < start + cs.length → isDash i = false) :
    (cs.zipIdx start).all (fun ci => if isDash ci.2 then ci.1 == '-' else isLowerHex ci.1) = cs.all isLowerHex := by
  induction cs generalizing start with
  | nil => rfl
  | cons c rest ih =>
    have hfirst : isDash start = false := h start (Nat.le_refl _) (by simp)
    rw [List.zipIdx_cons, List.all_cons, List.all_cons, ih (fun i hle hlt => h i (by omega) (by simp; omega))]
    simp [hfirst]

/-- Where the dashes are to stand the characters must be dashes, and digits between them. -/
theorem isCanonical_groups_iff {a b c d e : List Char} {w x y z : Char} (ha : a.length = 8) (hb : b.length = 4) (hc : c.length = 4)
    (hd : d.length = 4) (he : e.length = 12) :
    isCanonical ((a ++ w :: (b ++ x :: (c ++ y :: (d ++ z :: e)))).map Char.toLower) = true ↔
      (w = '-' ∧ x = '-' ∧ y = '-' ∧ z = '-') ∧ ∀ group ∈ [a, b, c, d, e], ∀ digit ∈ group, isHex digit = true := by
  have hnone : ∀ i, (0 ≤ i ∧ i < 8 ∨ 9 ≤ i ∧ i < 13 ∨ 14 ≤ i ∧ i < 18 ∨ 19 ≤ i ∧ i < 23 ∨ 24 ≤ i ∧ i < 36) → isDash i = false := by
    intro i hi
    simp only [isDash, Bool.or_eq_false_iff, beq_eq_false_iff_ne]
    omega
  have hgroup : ∀ {cs : List Char} {start : Nat}, (∀ i, start ≤ i → i < start + cs.length → isDash i = false) →
      ((cs.map Char.toLower).zipIdx start).all (fun ci => if isDash ci.2 then ci.1 == '-' else isLowerHex ci.1) = cs.all isHex := by
    intro cs start h
    rw [all_zipIdx_of_noDash (by simpa using h), List.all_map]
    exact congrArg cs.all (funext isLowerHex_toLower)
  have hlength : ((a ++ w :: (b ++ x :: (c ++ y :: (d ++ z :: e)))).map Char.toLower).length = 36 := by
    simp only [List.length_map, List.length_append, List.length_cons]
    omega
  rw [isCanonical, hlength]
  simp only [decide_true, Bool.true_and, List.map_append, List.map_cons, List.zipIdx_append, List.zipIdx_cons, List.all_append,
    List.all_cons, List.length_map, ha, hb, hc, hd]
  rw [hgroup (fun i h h' => hnone i (by omega)), hgroup (fun i h h' => hnone i (by omega)), hgroup (fun i h h' => hnone i (by omega)),
    hgroup (fun i h h' => hnone i (by omega)), hgroup (fun i h h' => hnone i (by omega))]
  simp [isDash, List.all_eq_true, toLower_eq_dash_iff]
  tauto

/-- A list of a known length is cut at a place into what comes before, one character and what comes after. -/
theorem exists_cut {cs : List Char} {n m : Nat} (h : cs.length = n + 1 + m) :
    ∃ first c rest, cs = first ++ c :: rest ∧ first.length = n ∧ rest.length = m := by
  refine ⟨cs.take n, cs[n], cs.drop (n + 1), ?_, ?_, ?_⟩
  · rw [← List.drop_eq_getElem_cons, List.take_append_drop]
  · rw [List.length_take]
    omega
  · rw [List.length_drop]
    omega

/-- Text passes the check in lower case exactly when it is grouped. -/
theorem isCanonical_toLower_iff (s : String) : isCanonical (s.toList.map Char.toLower) = true ↔ IsGrouped s := by
  constructor
  · intro h
    have hlength : s.toList.length = 8 + 1 + 27 := by
      rw [isCanonical, Bool.and_eq_true, decide_eq_true_eq, List.length_map] at h
      exact h.1
    obtain ⟨a, w, rest, hs, ha, hrest⟩ := exists_cut hlength
    obtain ⟨b, x, rest', rfl, hb, hrest'⟩ := exists_cut (n := 4) (m := 22) hrest
    obtain ⟨c, y, rest'', rfl, hc, hrest''⟩ := exists_cut (n := 4) (m := 17) hrest'
    obtain ⟨d, z, e, rfl, hd, he⟩ := exists_cut (n := 4) (m := 12) hrest''
    rw [hs, isCanonical_groups_iff ha hb hc hd he] at h
    obtain ⟨⟨rfl, rfl, rfl, rfl⟩, hhex⟩ := h
    exact ⟨[a, b, c, d, e], by simp [ha, hb, hc, hd, he], hhex, hs.trans (by simp [List.intercalate])⟩
  · rintro ⟨groups, hlengths, hhex, hs⟩
    simp only [List.map_eq_cons_iff, List.map_eq_nil_iff] at hlengths
    obtain ⟨a, _, rfl, ha, b, _, rfl, hb, c, _, rfl, hc, d, _, rfl, hd, e, _, rfl, he, rfl⟩ := hlengths
    have hs' : s.toList = a ++ '-' :: (b ++ '-' :: (c ++ '-' :: (d ++ '-' :: e))) := hs.trans (by simp [List.intercalate])
    rw [hs', isCanonical_groups_iff ha hb hc hd he]
    exact ⟨⟨rfl, rfl, rfl, rfl⟩, hhex⟩

/-! ## Reading -/

/-- An identifier is read from grouped text only. -/
theorem exists_parse_iff (s : String) : (∃ id, parse s = .ok id) ↔ IsGrouped s := by
  rw [← isCanonical_toLower_iff]
  constructor
  · rintro ⟨id, h⟩
    have htext : lowerCase s = id.text := parse_eq_ok_iff.mp h
    rw [← String.toList_ofList (l := s.toList.map Char.toLower), ← lowerCase, htext]
    exact id.canonical
  · intro h
    refine ⟨⟨lowerCase s, ?_⟩, parse_eq_ok_iff.mpr rfl⟩
    rw [lowerCase, String.toList_ofList]
    exact h

/-- Two texts are read as one identifier exactly when they differ in letter case alone. -/
theorem eq_iff_sameButForCase {s t : String} {id id' : RowId} (h : parse s = .ok id) (h' : parse t = .ok id') :
    id = id' ↔ SameButForCase s t := by
  rw [← lowerCase_eq_iff, parse_eq_ok_iff.mp h, parse_eq_ok_iff.mp h']
  exact ⟨fun heq => heq ▸ rfl, eq_of_text_eq⟩

end RowId

end TableReplica
