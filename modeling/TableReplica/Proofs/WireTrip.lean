import TableReplica.Proofs.KindForms
import TableReplica.Proofs.ReadableEntries

/-!
# Values written and read again

What is in the form of its kind comes back from the wire as it was sent, whether or not the reader knows the kinds of the columns
(`Wire.readRow_writeRow`). The wire has no tag for integers and reals, and none for sets of one: it is the form that makes what is read
unambiguous.
-/

namespace TableReplica

/-! ## Identifiers -/

/-- The lower case of a plain capital is thirty-two after it. -/
theorem Char.toNat_toLower (c : Char) : c.toLower.toNat = if 65 ≤ c.toNat ∧ c.toNat ≤ 90 then c.toNat + 32 else c.toNat := by
  by_cases h : c.val ≥ 'A'.val ∧ c.val ≤ 'Z'.val
  · have hge : 65 ≤ c.toNat := h.1
    have hle : c.toNat ≤ 90 := h.2
    have hsum : (c.val + ('a'.val - 'A'.val)).toNat = (c.toNat + 32) % 2 ^ 32 := UInt32.toNat_add _ _
    have hlower : c.toLower = ⟨c.val + ('a'.val - 'A'.val), _⟩ := dif_pos h
    rw [if_pos ⟨hge, hle⟩, hlower]
    exact hsum.trans (Nat.mod_eq_of_lt (by omega))
  · have hnot : ¬(65 ≤ c.toNat ∧ c.toNat ≤ 90) := h
    have hlower : c.toLower = c := dif_neg h
    rw [if_neg hnot, hlower]

namespace RowId

theorem isLowerHex_iff (c : Char) : isLowerHex c = true ↔ 48 ≤ c.toNat ∧ c.toNat ≤ 57 ∨ 97 ≤ c.toNat ∧ c.toNat ≤ 102 := by
  unfold isLowerHex
  rw [Bool.or_eq_true, Bool.and_eq_true, decide_eq_true_eq, decide_eq_true_eq, Char.le_def, Char.le_def, Char.isDigit,
    Bool.and_eq_true, decide_eq_true_eq, decide_eq_true_eq]
  exact Iff.rfl

/-- The characters of an identifier are dashes, digits and lower-case letters. -/
theorem toNat_of_mem (u : RowId) {c : Char} (h : c ∈ u.text.toList) : 45 ≤ c.toNat ∧ c.toNat ≤ 57 ∨ 97 ≤ c.toNat ∧ c.toNat ≤ 102 := by
  have hcanonical := u.canonical
  unfold isCanonical at hcanonical
  rw [Bool.and_eq_true, List.all_eq_true] at hcanonical
  obtain ⟨i, hi, hc⟩ := List.mem_iff_getElem.mp h
  have hchar := hcanonical.2 (c, i) (List.mk_mem_zipIdx_iff_getElem?.mpr (List.getElem?_eq_some_iff.mpr ⟨hi, hc⟩))
  dsimp only at hchar
  split at hchar
  · have hdash : c = '-' := by simpa using hchar
    subst hdash
    decide
  · have hhex := (isLowerHex_iff c).mp hchar
    omega

/-- The text of an identifier is in lower case. -/
theorem toLower_of_mem (u : RowId) {c : Char} (h : c ∈ u.text.toList) : c.toLower = c := by
  have hnat := u.toNat_of_mem h
  rw [← Char.toNat_inj, Char.toNat_toLower, if_neg (by omega)]

/-- The text of an identifier has one byte for each character. -/
theorem utf8Size_of_mem (u : RowId) {c : Char} (h : c ∈ u.text.toList) : c.utf8Size = 1 := by
  have hnat := u.toNat_of_mem h
  have hascii : c.toNat ≤ 127 := by omega
  exact Char.utf8Size_eq_one_iff.mpr hascii

/-- The text of an identifier is read as the identifier. -/
theorem parse_text (u : RowId) : parse u.text = .ok u := by
  have hlower : u.text.toList.map Char.toLower = u.text.toList :=
    List.map_congr_left (fun c hc => u.toLower_of_mem hc) |>.trans (List.map_id _)
  have hsize : u.text.utf8ByteSize = 36 := by
    have hlength := u.canonical
    unfold isCanonical at hlength
    rw [Bool.and_eq_true, decide_eq_true_eq] at hlength
    have hbytes := Text.utf8ByteSize_ofList (fun c hc => u.utf8Size_of_mem hc)
    rw [String.ofList_toList, hlength.1] at hbytes
    exact hbytes
  unfold parse
  simp only [hlower, hsize, ne_eq, not_true_eq_false, if_false, u.canonical, dif_pos, String.ofList_toList]

end RowId

/-! ## Values -/

namespace Value

/-- A scalar of some kind; a real is finite. -/
def IsFiniteScalar (v : Value) : Prop := ∃ kind : BaseKind, kind.Holds v

/-- What a value is like where the kind of its column is not known: a scalar, a set of scalars that ascend strictly and of which no two
agree, or a map. Reals are finite throughout. -/
def InLooseForm : Value → Prop
  | .set items => (∀ item ∈ items, item.IsFiniteScalar) ∧ Canonical items
  | .map _ => True
  | v => v.IsFiniteScalar

theorem IsFiniteScalar.isScalar {v : Value} (h : v.IsFiniteScalar) : v.IsScalar := by
  obtain ⟨kind, hholds⟩ := h
  exact hholds.isScalar

/-- A finite scalar is in the loose form. -/
theorem IsFiniteScalar.inLooseForm {v : Value} (h : v.IsFiniteScalar) : v.InLooseForm := by
  cases v with
  | set items => exact absurd h.isScalar (by simp [IsScalar, rank])
  | map entries => trivial
  | _ => exact h

/-- A value in the form of a kind keeps that form where the kind is not known. -/
theorem inLooseForm_of_holds {kind : Kind} {v : Value} (h : kind.Holds v) : v.InLooseForm := by
  cases kind with
  | scalar base => exact IsFiniteScalar.inLooseForm ⟨base, h⟩
  | optional base => exact IsFiniteScalar.inLooseForm ⟨base, h⟩
  | set base =>
    cases v with
    | set items => exact ⟨fun item hitem => ⟨base, h.1 item hitem⟩, h.2⟩
    | _ => exact h.elim
  | map =>
    cases v with
    | map entries => trivial
    | _ => exact h.elim

end Value

namespace Wire

/-- A finite scalar is read back as it was written. -/
theorem readScalar_writeValue {v : Value} (h : v.IsFiniteScalar) : readScalar (writeValue v) = .ok v := by
  cases v with
  | string s => rfl
  | boolean b => rfl
  | integer n =>
    have hholds : Quantity.integerColumn.Holds n.toInt := by
      have hle := n.le_toInt
      have hlt := n.toInt_lt
      unfold Quantity.Holds Quantity.bounds
      dsimp only
      omega
    rw [writeValue, readScalar, if_pos hholds, Int64.ofInt_toInt]
  | real x =>
    obtain ⟨kind, hholds⟩ := h
    rw [writeValue, if_pos hholds.isFinite, readScalar, readScalar.finiteReal, if_pos hholds.isFinite]
  | uuid u =>
    show (RowId.parse u.text).map Value.uuid = _
    rw [RowId.parse_text]
    rfl
  | set items => exact absurd h.isScalar (by simp [Value.IsScalar, Value.rank])
  | map entries => exact absurd h.isScalar (by simp [Value.IsScalar, Value.rank])

theorem writeMembers_eq (items : List Value) : writeMembers items = items.map writeValue := by
  induction items with
  | nil => rfl
  | cons v rest ih => rw [writeMembers, ih, List.map_cons]

/-- A value in form is read as it was written. -/
theorem readLoose_writeValue {v : Value} (h : v.InLooseForm) : readLoose (writeValue v) = .ok v := by
  cases v with
  | set items =>
    obtain ⟨hscalar, hcanonical⟩ := h
    have hitems : (items.map writeValue).mapM readScalar = .ok items := by
      rw [mapM_eq_ok_iff, List.map_map]
      exact List.map_congr_left (fun item hitem => readScalar_writeValue (hscalar item hitem))
    show ((writeMembers items).mapM readScalar).map Value.ofList = _
    rw [writeMembers_eq, hitems, Except.map, Value.ofList, Value.canonicalItems_of_canonical hcanonical]
  | map entries =>
    have hpairs : (entries.entries.map (fun e => Json.array [.text e.1, .text e.2])).mapM readPair = .ok entries.entries := by
      rw [mapM_eq_ok_iff, List.map_map]
      exact List.map_congr_left (fun e _ => rfl)
    show ((entries.entries.map (fun e => Json.array [.text e.1, .text e.2])).mapM readPair).map Value.ofPairs = _
    rw [hpairs, Except.map, Value.ofPairs, SortedMap.ofList_entries]
  | real x =>
    have hscalar := readScalar_writeValue h
    obtain ⟨kind, hholds⟩ := h
    rw [writeValue, if_pos hholds.isFinite] at hscalar ⊢
    exact hscalar
  | _ => exact readScalar_writeValue h

/-! ## Rows -/

/-- Every column of the row is declared and in the form of its kind. -/
def Fits (kinds : Kinds) (row : Row) : Prop :=
  ∀ column v, row.get? column = some v → ∃ kind, kinds.get? column = some kind ∧ kind.Holds v

theorem members?_writeRow (row : Row) : (writeRow row).members? = some (row.map (fun _ v => writeValue v)) :=
  Json.members?_object (row.map (fun _ v => writeValue v))

/-- A row is read as it was written when each of its columns is. -/
theorem readRow_writeRow_of_values {kinds : Option Kinds} {row : Row}
    (h : ∀ column v, row.get? column = some v → readValue (kinds.bind (·.get? column)) (writeValue v) = .ok (some v)) :
    readRow kinds (writeRow row) = .ok row := by
  have hread : (row.map (fun _ v => writeValue v)).filterMapOk (fun column v => readValue (kinds.bind (·.get? column)) v) =
      .ok ((row.map (fun _ v => writeValue v)).filterMap (fun column _ => row.get? column)) := by
    apply SortedMap.filterMapOk_of_forall_ok
    intro e he
    obtain ⟨e', he', rfl⟩ := List.mem_map.mp he
    have hcolumn : row.get? e'.1 = some e'.2 := SortedMap.mem_entries_iff.mp he'
    rw [h e'.1 e'.2 hcolumn, hcolumn]
  rw [readRow, members?_writeRow]
  dsimp only
  rw [hread]
  congr 1
  apply SortedMap.ext_get?
  intro column
  rw [SortedMap.get?_filterMap, SortedMap.get?_map]
  cases hcolumn : row.get? column <;> rfl

/-- A row that fits its kinds is read as it was written, by readers that know the kinds and by those that do not. -/
theorem readRow_writeRow {kinds : Kinds} {row : Row} (h : Fits kinds row) :
    readRow none (writeRow row) = .ok row ∧ readRow (some kinds) (writeRow row) = .ok row := by
  constructor
  · apply readRow_writeRow_of_values
    intro column v hv
    obtain ⟨kind, -, hholds⟩ := h column v hv
    rw [readValue, readLoose_writeValue (Value.inLooseForm_of_holds hholds)]
    rfl
  · apply readRow_writeRow_of_values
    intro column v hv
    obtain ⟨kind, hkind, hholds⟩ := h column v hv
    rw [readValue, readLoose_writeValue (Value.inLooseForm_of_holds hholds), Option.bind_some, hkind]
    exact Value.normalize_of_holds hholds

end Wire

end TableReplica
