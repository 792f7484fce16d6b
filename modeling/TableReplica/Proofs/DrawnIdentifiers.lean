import TableReplica.Proofs.SpelledIdentifiers

/-!
# Identifiers made of random bits

An identifier is made of 128 random bits by overwriting six of them with version and variant and writing the rest as it is. Each of its
digits stands for four bits of the stamped draw (`RowId.drawnDigit_eq`), so its text is the thirty-two digits of that draw, cut into
groups (`RowId.toList_ofDraw`), and no bit but the six is lost (`RowId.ofDraw_inj`).
-/

namespace TableReplica.RowId

/-! ## The stamped draw -/

/-- The draw with the version `0100` in place of its bits 76 to 79 and the variant `10` in place of its bits 62 and 63. -/
def stamped (draw : BitVec 128) : BitVec 128 :=
  (draw &&& ~~~(0xF#128 <<< 76) ||| 0x4#128 <<< 76) &&& ~~~(0x3#128 <<< 62) ||| 0x2#128 <<< 62

/-- The places of the version and variant bits. -/
def stampedBits : List Nat := [62, 63, 76, 77, 78, 79]

/-- Of the stamped bits two are set, and all other bits are those of the draw. -/
theorem getLsbD_stamped (draw : BitVec 128) {i : Nat} (h : i < 128) :
    (stamped draw).getLsbD i = if i ∈ stampedBits then decide (i = 63 ∨ i = 78) else draw.getLsbD i := by
  have hmasks : ∀ j < 128, (0xF#128 <<< 76).getLsbD j = decide (76 ≤ j ∧ j ≤ 79) ∧ (0x4#128 <<< 76).getLsbD j = decide (j = 78) ∧
      (0x3#128 <<< 62).getLsbD j = decide (62 ≤ j ∧ j ≤ 63) ∧ (0x2#128 <<< 62).getLsbD j = decide (j = 63) := by decide
  obtain ⟨hversionMask, hversion, hvariantMask, hvariant⟩ := hmasks i h
  simp only [stamped, BitVec.getLsbD_or, BitVec.getLsbD_and, BitVec.getLsbD_not, hversionMask, hversion, hvariantMask, hvariant,
    decide_eq_true h, Bool.true_and]
  by_cases hstamped : i ∈ stampedBits
  · rw [if_pos hstamped]
    simp only [stampedBits, List.mem_cons, List.not_mem_nil, or_false] at hstamped
    rcases hstamped with rfl | rfl | rfl | rfl | rfl | rfl <;> simp
  · rw [if_neg hstamped]
    simp only [stampedBits, List.mem_cons, List.not_mem_nil, or_false, not_or] at hstamped
    have hversion' : ¬(76 ≤ i ∧ i ≤ 79) := by omega
    have hvariant' : ¬(62 ≤ i ∧ i ≤ 63) := by omega
    simp [hversion', hvariant', hstamped]

/-- Draws are stamped alike when they agree on all other bits. -/
theorem stamped_eq_iff (draw draw' : BitVec 128) :
    stamped draw = stamped draw' ↔ ∀ i < 128, i ∉ stampedBits → draw.getLsbD i = draw'.getLsbD i := by
  constructor
  · intro h i hi hfree
    have hbit : (stamped draw).getLsbD i = (stamped draw').getLsbD i := by rw [h]
    rwa [getLsbD_stamped draw hi, getLsbD_stamped draw' hi, if_neg hfree, if_neg hfree] at hbit
  · intro h
    apply BitVec.eq_of_getLsbD_eq
    intro i hi
    rw [getLsbD_stamped draw hi, getLsbD_stamped draw' hi]
    split
    · rfl
    · rename_i hfree
      exact h i hi hfree

/-! ## Digits -/

/-- The hexadecimal digit of a word at a place, counted from the most significant one. -/
def hexDigit (word : BitVec 128) (i : Nat) : Nat := (word.toNat >>> (4 * (31 - i))) % 16

theorem hexDigit_lt (word : BitVec 128) (i : Nat) : hexDigit word i < 16 := Nat.mod_lt _ (by decide)

/-- The bits of a digit are four bits of the word. -/
theorem testBit_hexDigit (word : BitVec 128) (i j : Nat) :
    (hexDigit word i).testBit j = (decide (j < 4) && word.getLsbD (4 * (31 - i) + j)) := by
  rw [hexDigit, show 16 = 2 ^ 4 from rfl, Nat.testBit_mod_two_pow, Nat.testBit_shiftRight, BitVec.getLsbD]

/-- A word is determined by its digits. -/
theorem eq_of_hexDigit_eq {word word' : BitVec 128} (h : ∀ i < 32, hexDigit word i = hexDigit word' i) : word = word' := by
  apply BitVec.eq_of_getLsbD_eq
  intro i hi
  have hbit := congrArg (fun digit => digit.testBit (i % 4)) (h (31 - i / 4) (by omega))
  have hplace : 4 * (31 - (31 - i / 4)) + i % 4 = i := by omega
  simpa only [testBit_hexDigit, hplace, decide_eq_true (Nat.mod_lt i (show 0 < 4 by decide)), Bool.true_and] using hbit

/-- The digits of a draw are those of the stamped draw. -/
theorem drawnDigit_eq (draw : BitVec 128) {i : Nat} (h : i < 32) : drawnDigit draw i = hexDigit (stamped draw) i := by
  have hsmall : ∀ digit < 16, ∀ j < 4, Nat.testBit (8 + digit % 4) j = if j < 2 then digit.testBit j else decide (j = 3) := by decide
  apply Nat.eq_of_testBit_eq
  intro j
  by_cases hj : j < 4
  · rw [testBit_hexDigit, decide_eq_true hj, Bool.true_and, getLsbD_stamped draw (by omega), drawnDigit, ← hexDigit]
    have hbit : j = 0 ∨ j = 1 ∨ j = 2 ∨ j = 3 := by omega
    split
    · rename_i hversion
      subst hversion
      rcases hbit with rfl | rfl | rfl | rfl <;> rfl
    · split
      · rename_i hvariant
        subst hvariant
        rw [hsmall _ (hexDigit_lt _ _) j hj, testBit_hexDigit]
        rcases hbit with rfl | rfl | rfl | rfl <;> simp [stampedBits]
      · have hfree : 4 * (31 - i) + j ∉ stampedBits := by
          simp only [stampedBits, List.mem_cons, List.not_mem_nil, or_false, not_or]
          omega
        rw [if_neg hfree, testBit_hexDigit, decide_eq_true hj, Bool.true_and]
  · have hlarge : ∀ digit < 16, digit.testBit j = false := fun digit hdigit =>
      Nat.testBit_lt_two_pow (Nat.lt_of_lt_of_le hdigit (Nat.pow_le_pow_right (show 0 < 2 by decide) (show 4 ≤ j by omega)))
    rw [hlarge _ (drawnDigit_lt draw i), hlarge _ (hexDigit_lt _ i)]

/-! ## Text -/

/-- The thirty-two hexadecimal digits of a word, with zeros in front where it has fewer. -/
def hexDigits (word : BitVec 128) : List Char := (Nat.toDigits 16 word.toNat).leftpad 32 '0'

/-- Digits cut into groups of 8, 4, 4, 4 and 12, with dashes between the groups. -/
def inGroups (digits : List Char) : List Char :=
  ['-'].intercalate [digits.take 8, (digits.drop 8).take 4, (digits.drop 12).take 4, (digits.drop 16).take 4, digits.drop 20]

/-- The last digit of a padded number stands behind those of the number without it. -/
theorem leftpad_toDigits (n length : Nat) :
    (Nat.toDigits 16 n).leftpad (length + 2) '0' = (Nat.toDigits 16 (n / 16)).leftpad (length + 1) '0' ++ [Nat.digitChar (n % 16)] := by
  by_cases h : n < 16
  · rw [Nat.div_eq_of_lt h, Nat.mod_eq_of_lt h, Nat.toDigits_of_lt_base h, Nat.toDigits_of_lt_base (by decide)]
    simp [List.leftpad, List.replicate_succ', show Nat.digitChar 0 = '0' from rfl]
  · rw [Nat.toDigits_of_base_le (by decide) (by omega)]
    simp [List.leftpad]

/-- A padded number is written digit by digit. -/
theorem leftpad_toDigits_eq_map (length : Nat) : ∀ n < 16 ^ (length + 1),
    (Nat.toDigits 16 n).leftpad (length + 1) '0' =
      (List.range (length + 1)).map (fun i => Nat.digitChar ((n >>> (4 * (length - i))) % 16)) := by
  induction length with
  | zero =>
    intro n h
    have hn : n < 16 := by simpa using h
    rw [Nat.toDigits_of_lt_base hn]
    simp [List.leftpad, Nat.mod_eq_of_lt hn]
  | succ length ih =>
    intro n h
    have hquot : n / 16 < 16 ^ (length + 1) := by
      rw [Nat.div_lt_iff_lt_mul (by decide), ← Nat.pow_succ]
      exact h
    rw [leftpad_toDigits, ih _ hquot, List.range_succ (n := length + 1), List.map_append, List.map_singleton, Nat.sub_self]
    congr 1
    apply List.map_congr_left
    intro i hi
    have hplace : 4 * (length + 1 - i) = 4 + 4 * (length - i) := by
      have := List.mem_range.mp hi
      omega
    rw [hplace, Nat.shiftRight_add, Nat.shiftRight_eq_div_pow n 4]

/-- The digits of a word, with zeros in front, are the digits at its thirty-two places. -/
theorem hexDigits_eq_map (word : BitVec 128) : hexDigits word = (List.range 32).map (fun i => Nat.digitChar (hexDigit word i)) :=
  leftpad_toDigits_eq_map 31 _ word.isLt

/-- The text of a drawn identifier: the digits of the stamped draw, in groups. -/
theorem toList_ofDraw (draw : BitVec 128) : (ofDraw draw).text.toList = inGroups (hexDigits (stamped draw)) := by
  have hdigits : (List.range 32).map (fun i => Nat.digitChar (drawnDigit draw i)) = hexDigits (stamped draw) := by
    rw [hexDigits_eq_map]
    exact List.map_congr_left (fun i hi => congrArg Nat.digitChar (drawnDigit_eq draw (List.mem_range.mp hi)))
  rw [← hdigits]
  exact String.toList_ofList

/-- A hexadecimal digit is not a dash. -/
theorem digitChar_ne_dash {n : Nat} (h : n < 16) : Nat.digitChar n ≠ '-' := by
  have hall : ∀ n < 16, Nat.digitChar n ≠ '-' := by decide
  exact hall n h

/-- Without its dashes a text in groups is the text of the digits. -/
theorem filter_inGroups {digits : List Char} (h : ∀ digit ∈ digits, digit ≠ '-') : (inGroups digits).filter (· ≠ '-') = digits := by
  have hkeep : ∀ part : List Char, part ⊆ digits → part.filter (· ≠ '-') = part := fun part hpart =>
    List.filter_eq_self.mpr (fun digit hdigit => decide_eq_true (h digit (hpart hdigit)))
  have hparts : inGroups digits = digits.take 8 ++ '-' :: ((digits.drop 8).take 4 ++ '-' :: ((digits.drop 12).take 4 ++
      '-' :: ((digits.drop 16).take 4 ++ '-' :: digits.drop 20))) := by
    simp [inGroups, List.intercalate]
  have hdrop : ∀ n, digits.drop n ⊆ digits := fun n => List.drop_subset n digits
  have htake : ∀ n, (digits.drop n).take 4 ⊆ digits :=
    fun n _ hdigit => hdrop n (List.take_subset 4 _ hdigit)
  have hjoin : ∀ n, (digits.drop n).take 4 ++ digits.drop (n + 4) = digits.drop n := by
    intro n
    rw [← List.drop_drop, List.take_append_drop]
  rw [hparts]
  simp only [List.filter_append, List.filter_cons, hkeep _ (List.take_subset 8 digits), hkeep _ (htake _), hkeep _ (hdrop _)]
  simp [hjoin 8, hjoin 12, hjoin 16]

/-- Words with the same digits in groups are the same. -/
theorem inGroups_hexDigits_inj {word word' : BitVec 128} (h : inGroups (hexDigits word) = inGroups (hexDigits word')) : word = word' := by
  have hdash : ∀ word, ∀ digit ∈ hexDigits word, digit ≠ '-' := by
    intro word digit hdigit
    rw [hexDigits_eq_map] at hdigit
    obtain ⟨i, -, rfl⟩ := List.mem_map.mp hdigit
    exact digitChar_ne_dash (hexDigit_lt word i)
  have hdigits : hexDigits word = hexDigits word' := by
    rw [← filter_inGroups (hdash word), h, filter_inGroups (hdash word')]
  rw [hexDigits_eq_map, hexDigits_eq_map, List.map_inj_left] at hdigits
  exact eq_of_hexDigit_eq (fun i hi => digitChar_inj (hexDigit_lt _ _) (hexDigit_lt _ _) (hdigits i (List.mem_range.mpr hi)))

/-- Draws make one identifier exactly when they agree on all bits but the stamped ones. -/
theorem ofDraw_inj (draw draw' : BitVec 128) :
    ofDraw draw = ofDraw draw' ↔ ∀ i < 128, i ∉ stampedBits → draw.getLsbD i = draw'.getLsbD i := by
  rw [← stamped_eq_iff]
  constructor
  · intro h
    apply inGroups_hexDigits_inj
    rw [← toList_ofDraw, h, toList_ofDraw]
  · intro h
    apply eq_of_text_eq
    rw [← String.toList_inj, toList_ofDraw, h, toList_ofDraw]

/-- The digit of the version and that of the variant. -/
theorem version_variant_ofDraw (draw : BitVec 128) :
    (ofDraw draw).text.toList[14]? = some '4' ∧ ∃ variant ∈ ['8', '9', 'a', 'b'], (ofDraw draw).text.toList[19]? = some variant := by
  have htext : (ofDraw draw).text.toList = (List.range 36).map (drawnChar draw) := String.toList_ofList
  rw [htext]
  refine ⟨rfl, Nat.digitChar (drawnDigit draw 16), ?_, rfl⟩
  have hvariant : drawnDigit draw 16 = 8 ∨ drawnDigit draw 16 = 9 ∨ drawnDigit draw 16 = 10 ∨ drawnDigit draw 16 = 11 := by
    simp only [drawnDigit, if_pos, if_neg (show ¬16 = 12 by decide)]
    omega
  rcases hvariant with h | h | h | h <;> rw [h] <;> decide

/-- Identifiers have one form. They are read from hexadecimal digits in groups of 8, 4, 4, 4 and 12 in any letter case and from nothing
else, and kept in lower case, so two texts are one identifier exactly when they differ in letter case alone. The text of a draw is the
thirty-two digits of the draw, stamped with version and variant, in groups. It is read as the identifier it is the text of, its version
is `4` and its variant one of `8`, `9`, `a` and `b`, and two draws make one identifier exactly when they agree on the 122 bits that are
not stamped. -/
theorem read_in_one_form :
    (∀ s, (∃ id, parse s = .ok id) ↔ IsGrouped s) ∧
    (∀ s id, parse s = .ok id → id.text = lowerCase s) ∧
    (∀ s t id id', parse s = .ok id → parse t = .ok id' → (id = id' ↔ SameButForCase s t)) ∧
    (∀ draw, (ofDraw draw).text.toList = inGroups (hexDigits (stamped draw)) ∧ parse (ofDraw draw).text = .ok (ofDraw draw) ∧
      (ofDraw draw).text.toList[14]? = some '4' ∧
      ∃ variant ∈ ['8', '9', 'a', 'b'], (ofDraw draw).text.toList[19]? = some variant) ∧
    ∀ draw draw', ofDraw draw = ofDraw draw' ↔ ∀ i < 128, i ∉ [62, 63, 76, 77, 78, 79] → draw.getLsbD i = draw'.getLsbD i := by
  refine ⟨exists_parse_iff, ?_, ?_, ?_, ofDraw_inj⟩
  · intro s id h
    exact (parse_eq_ok_iff.mp h).symm
  · intro s t id id' h h'
    exact eq_iff_sameButForCase h h'
  · intro draw
    exact ⟨toList_ofDraw draw, parse_text _, version_variant_ofDraw draw⟩

/-- A draw of no bits shows the stamped ones. -/
example : (ofDraw 0).text = "00000000-0000-4000-8000-000000000000" := by decide

end TableReplica.RowId
