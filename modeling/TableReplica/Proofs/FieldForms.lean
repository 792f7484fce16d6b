import Mathlib.Data.Set.List
import TableReplica.Proofs.RecordTrip
import TableReplica.Proofs.WireTrip

/-!
# Values that fields take

Values are converted twice, by rules of their own: when a column is brought into the form of its kind, and when it is read into a field.
For values whose reals are finite the two draw the same line. What has no form of its kind is not read (`Slot.read?_eq_none`), and what
is in form is read into a field that is written as it was (`Field.exists_read?`).
-/

namespace TableReplica

/-- No real that a column holds, on its own or in a set, is an infinity or no number at all. -/
def Value.HasFiniteReals (v : Value) : Prop := ∀ x, .real x ∈ v.members → x.isFinite = true

/-- The column of a field that holds the zero of its slot; an option that is not set is left out. -/
def Slot.zeroColumn? : Slot → Option Value
  | .id | .stringOption | .integerOption | .booleanOption | .reference => none
  | .string => some (.string "")
  | .integer => some (.integer 0)
  | .boolean => some (.boolean false)
  | .real => some (.real .zero)
  | .references | .strings | .integers => some (.set [])
  | .map => some (.map ∅)

/-- Only the identifier has no column, and so no kind. -/
theorem Slot.exists_kind {slot : Slot} (h : slot ≠ .id) : ∃ kind, slot.kind? = some kind := by
  cases slot with
  | id => exact absurd rfl h
  | _ => exact ⟨_, rfl⟩

/-! ## What is not in form is not read -/

namespace Value

variable {α : Type} {read : Value → Option α} {base : BaseKind} {v : Value} {violation : Violation}

/-- A scalar column that has no form is not read, if its members that have none are not. -/
theorem readOptional?_eq_none (hread : ∀ item ∈ v.members, ∀ e, normalizeBase base item = .error e → read item = none)
    (h : v.normalize (.scalar base) = .error violation) : v.readOptional? read = none := by
  unfold normalize at h
  dsimp only at h
  split at h
  · cases h
  · rename_i item
    cases hitem : normalizeBase base item with
    | ok w =>
      rw [hitem] at h
      cases h
    | error e =>
      have hnone := hread item List.mem_cons_self e hitem
      rw [readOptional?, single?]
      exact Option.map_eq_none_iff.mpr hnone
  · rename_i items hnil hone
    cases items with
    | nil => exact absurd rfl hnil
    | cons a rest =>
      cases rest with
      | nil => exact absurd rfl (hone a)
      | cons b rest => rfl
  · rename_i hnil hone hset
    have hsingle : v.single? = some (some v) ∧ v.members = [v] := by
      cases v with
      | set items => exact absurd rfl (hset items)
      | _ => exact ⟨rfl, rfl⟩
    cases hv : normalizeBase base v with
    | ok w =>
      rw [hv] at h
      cases h
    | error e =>
      have hnone := hread v (hsingle.2 ▸ List.mem_singleton_self v) e hv
      rw [readOptional?, hsingle.1]
      exact Option.map_eq_none_iff.mpr hnone

/-- A set column that has no form is not read, if its members that have none are not. -/
theorem readSet?_eq_none (hread : ∀ item ∈ v.members, ∀ e, normalizeBase base item = .error e → read item = none)
    (h : v.normalize (.set base) = .error violation) : v.readSet? read = none := by
  cases hset : v.readSet? read with
  | none => rfl
  | some results =>
    have hall : ∀ item ∈ v.members, ∃ w, normalizeBase base item = .ok w := by
      intro item hitem
      cases hw : normalizeBase base item with
      | ok w => exact ⟨w, rfl⟩
      | error e =>
        have hmem : read item ∈ v.members.map read := List.mem_map_of_mem hitem
        rw [mapM_eq_some_iff.mp hset, hread item hitem e hw] at hmem
        obtain ⟨a, -, ha⟩ := List.mem_map.mp hmem
        cases ha
    obtain ⟨items, hitems⟩ := exists_mapM_eq_ok hall
    rw [normalize, hitems] at h
    cases h

/-- What has no form as a text is not read as one. -/
theorem text?_eq_none {item : Value} {e : Violation} (h : normalizeBase .string item = .error e) : item.text? = none := by
  cases item with
  | string s => cases h
  | _ => rfl

theorem integerOf?_eq_none {item : Value} {e : Violation} (h : normalizeBase .integer item = .error e) : item.integerOf? = none := by
  cases item with
  | integer n => cases h
  | real x =>
    rw [normalizeBase] at h
    rw [integerOf?]
    cases hx : x.nearestInteger with
    | ok n =>
      rw [hx] at h
      cases h
    | error e => rfl
  | _ => rfl

theorem boolean?_eq_none {item : Value} {e : Violation} (h : normalizeBase .boolean item = .error e) : item.boolean? = none := by
  cases item with
  | boolean b => cases h
  | _ => rfl

/-- Reading takes any real; only a finite one has a form. -/
theorem realOf?_eq_none {item : Value} (hfinite : ∀ x, item = .real x → x.isFinite = true) {e : Violation}
    (h : normalizeBase .real item = .error e) : item.realOf? = none := by
  cases item with
  | integer n => cases h
  | real x =>
    rw [normalizeBase, if_pos (hfinite x rfl)] at h
    cases h
  | _ => rfl

/-- Reading takes no text for an identifier, so it does not matter whether the text is one. -/
theorem idText?_eq_none {item : Value} {e : Violation} (h : normalizeBase .uuid item = .error e) : item.idText? = none := by
  cases item with
  | uuid u => cases h
  | _ => rfl

/-- What has no form as a map is not read as one. -/
theorem readMap?_eq_none (h : v.normalize .map = .error violation) : v.readMap? = none := by
  cases v with
  | map entries => cases h
  | set items =>
    cases items with
    | nil => cases h
    | cons item rest => rfl
  | _ => rfl

end Value

/-- A value that has no form of the kind of a slot does not fit the slot. -/
theorem Slot.read?_eq_none {slot : Slot} {kind : Kind} {v : Value} {violation : Violation} (hkind : slot.kind? = some kind)
    (hfinite : v.HasFiniteReals) (h : v.normalize kind = .error violation) : slot.read? v = none := by
  cases slot <;> cases hkind
  case string => rw [read?, Value.readScalar?, Value.readOptional?_eq_none (fun _ _ _ => Value.text?_eq_none) h]; rfl
  case stringOption => rw [read?, Value.readOptional?_eq_none (fun _ _ _ => Value.text?_eq_none) h]; rfl
  case integer => rw [read?, Value.readScalar?, Value.readOptional?_eq_none (fun _ _ _ => Value.integerOf?_eq_none) h]; rfl
  case integerOption => rw [read?, Value.readOptional?_eq_none (fun _ _ _ => Value.integerOf?_eq_none) h]; rfl
  case boolean => rw [read?, Value.readScalar?, Value.readOptional?_eq_none (fun _ _ _ => Value.boolean?_eq_none) h]; rfl
  case booleanOption => rw [read?, Value.readOptional?_eq_none (fun _ _ _ => Value.boolean?_eq_none) h]; rfl
  case real =>
    have hread : ∀ item ∈ v.members, ∀ e, Value.normalizeBase .real item = .error e → item.realOf? = none :=
      fun item hitem _ => Value.realOf?_eq_none (fun x hx => hfinite x (hx ▸ hitem))
    rw [read?, Value.readScalar?, Value.readOptional?_eq_none hread h]
    rfl
  case reference => rw [read?, Value.readOptional?_eq_none (fun _ _ _ => Value.idText?_eq_none) h]; rfl
  case references => rw [read?, Value.readSet?_eq_none (fun _ _ _ => Value.idText?_eq_none) h]; rfl
  case strings => rw [read?, Value.readSet?_eq_none (fun _ _ _ => Value.text?_eq_none) h]; rfl
  case integers => rw [read?, Value.readSet?_eq_none (fun _ _ _ => Value.integerOf?_eq_none) h]; rfl
  case map => rw [read?, Value.readMap?_eq_none h]; rfl

/-! ## What is in form is read, and written as it was -/

/-- A set in form is what is written of the members that are read of it. -/
theorem Value.exists_readSet? {α : Type} (read : Value → Option α) {make : α → Value} {base : BaseKind} {w : Value}
    (hread : ∀ a, read (make a) = some a) (hmake : ∀ item, base.Holds item → ∃ a, make a = item) (h : (Kind.set base).Holds w) :
    ∃ items, w.readSet? read = some items ∧ ofList (items.map make) = w := by
  cases w with
  | set members =>
    obtain ⟨hbase, hcanonical⟩ := h
    have hrange : members ∈ Set.range (List.map make) := by
      rw [Set.range_list_map]
      exact fun item hitem => hmake item (hbase item hitem)
    obtain ⟨items, rfl⟩ := hrange
    refine ⟨items, ?_, by rw [ofList, canonicalItems_of_canonical hcanonical]⟩
    rw [readSet?, mapM_eq_some_iff, members, List.map_map]
    exact List.map_congr_left (fun a _ => hread a)
  | _ => exact h.elim

namespace BaseKind

variable {v : Value}

theorem exists_of_holds_string (h : BaseKind.string.Holds v) : ∃ s, .string s = v := by
  cases v with
  | string s => exact ⟨s, rfl⟩
  | _ => exact h.elim

theorem exists_of_holds_integer (h : BaseKind.integer.Holds v) : ∃ n, .integer n = v := by
  cases v with
  | integer n => exact ⟨n, rfl⟩
  | _ => exact h.elim

theorem exists_of_holds_boolean (h : BaseKind.boolean.Holds v) : ∃ b, .boolean b = v := by
  cases v with
  | boolean b => exact ⟨b, rfl⟩
  | _ => exact h.elim

theorem exists_of_holds_real (h : BaseKind.real.Holds v) : ∃ x, .real x = v := by
  cases v with
  | real x => exact ⟨x, rfl⟩
  | _ => exact h.elim

theorem exists_of_holds_uuid (h : BaseKind.uuid.Holds v) : ∃ u, .uuid u = v := by
  cases v with
  | uuid u => exact ⟨u, rfl⟩
  | _ => exact h.elim

end BaseKind

namespace Field

variable {f : Field} {r : Record}

/-- The identifiers of other rows are read as their text, and the text is written as the identifiers. -/
theorem exists_read?_references {w : Value} (hslot : f.slot = .references) (h : (Kind.set .uuid).Holds w) :
    ∃ value, f.slot.read? w = some value ∧ ∀ r : Record, r.get? f.name = some value → f.value r = .ok (some w) := by
  obtain ⟨ids, hids, hw⟩ := Value.exists_readSet? Value.rowId? (fun _ => rfl) (fun _ => BaseKind.exists_of_holds_uuid) h
  refine ⟨.texts (ids.map RowId.text), ?_, ?_⟩
  · have htexts : w.members.mapM Value.idText? = some (ids.map RowId.text) := by
      rw [mapM_eq_some_iff, List.map_map]
      have hread := congrArg (List.map (Option.map RowId.text)) (mapM_eq_some_iff.mp hids)
      rwa [List.map_map, List.map_map] at hread
    rw [hslot]
    exact congrArg (Option.map FieldValue.texts) htexts
  · intro r hr
    have hparse : (ids.map RowId.text).mapM RowId.parse = .ok ids := by
      rw [mapM_eq_ok_iff, List.map_map]
      exact List.map_congr_left (fun u _ => RowId.parse_text u)
    simp only [value, hslot, Record.texts, hr, hparse, Except.map, Value.ofRowIds, hw]

/-- A value in the form of the kind of a field is read, and a record that holds what is read is written as the value. -/
theorem exists_read? {kind : Kind} {w : Value} (hkind : f.slot.kind? = some kind) (h : kind.Holds w) :
    ∃ value, f.slot.read? w = some value ∧ ∀ r : Record, r.get? f.name = some value → f.value r = .ok (some w) := by
  cases hslot : f.slot <;> rw [hslot] at hkind <;> cases hkind
  case string =>
    obtain ⟨s, rfl⟩ := BaseKind.exists_of_holds_string h
    exact ⟨.text s, rfl, fun r hr => by simp only [value, hslot, Record.text, hr]⟩
  case stringOption =>
    obtain ⟨s, rfl⟩ := BaseKind.exists_of_holds_string h
    exact ⟨.textOption (some s), rfl, fun r hr => by simp only [value, hslot, Record.textOption, hr, Option.map_some]⟩
  case integer =>
    obtain ⟨n, rfl⟩ := BaseKind.exists_of_holds_integer h
    exact ⟨.integer n, rfl, fun r hr => by simp only [value, hslot, Record.integer, hr]⟩
  case integerOption =>
    obtain ⟨n, rfl⟩ := BaseKind.exists_of_holds_integer h
    exact ⟨.integerOption (some n), rfl, fun r hr => by simp only [value, hslot, Record.integerOption, hr, Option.map_some]⟩
  case boolean =>
    obtain ⟨b, rfl⟩ := BaseKind.exists_of_holds_boolean h
    exact ⟨.boolean b, rfl, fun r hr => by simp only [value, hslot, Record.boolean, hr]⟩
  case booleanOption =>
    obtain ⟨b, rfl⟩ := BaseKind.exists_of_holds_boolean h
    exact ⟨.booleanOption (some b), rfl, fun r hr => by simp only [value, hslot, Record.booleanOption, hr, Option.map_some]⟩
  case real =>
    obtain ⟨x, rfl⟩ := BaseKind.exists_of_holds_real h
    have hfinite : x.isFinite = true := h
    exact ⟨.real x, rfl, fun r hr => by simp only [value, hslot, Record.real, hr, hfinite, if_true]⟩
  case reference =>
    obtain ⟨u, rfl⟩ := BaseKind.exists_of_holds_uuid h
    refine ⟨.textOption (some u.text), rfl, fun r hr => ?_⟩
    simp only [value, hslot, Record.textOption, hr, RowId.parse_text, Except.map]
  case references => exact hslot ▸ exists_read?_references hslot h
  case strings =>
    obtain ⟨items, hitems, hw⟩ := Value.exists_readSet? Value.text? (fun _ => rfl) (fun _ => BaseKind.exists_of_holds_string) h
    refine ⟨.texts items, congrArg (Option.map FieldValue.texts) hitems, fun r hr => ?_⟩
    simp only [value, hslot, Record.texts, hr, hw]
  case integers =>
    obtain ⟨items, hitems, hw⟩ := Value.exists_readSet? Value.integerOf? (fun _ => rfl) (fun _ => BaseKind.exists_of_holds_integer) h
    refine ⟨.integers items, congrArg (Option.map FieldValue.integers) hitems, fun r hr => ?_⟩
    simp only [value, hslot, Record.integers, hr, hw]
  case map =>
    cases w with
    | map entries => exact ⟨.textMap entries, rfl, fun r hr => by simp only [value, hslot, Record.textMap, hr]⟩
    | _ => exact h.elim

/-- A field that holds the zero of its slot is written as the zero of its column. -/
theorem value_of_zero (h : r.get? f.name = some f.slot.zero) : f.value r = .ok f.slot.zeroColumn? := by
  have hsets : Value.ofList [] = .set [] := rfl
  cases hslot : f.slot <;> rw [hslot] at h <;> simp only [Slot.zero] at h
  case real => simp only [value, hslot, Record.real, h, Slot.zeroColumn?, show Binary64.zero.isFinite = true from rfl, if_true]
  all_goals
    simp only [value, hslot, Record.text, Record.textOption, Record.integer, Record.integerOption, Record.boolean, Record.booleanOption,
      Record.texts, Record.integers, Record.textMap, h, Slot.zeroColumn?, Option.map_none, List.map_nil, List.mapM_nil, hsets]
  all_goals rfl

end Field

end TableReplica
