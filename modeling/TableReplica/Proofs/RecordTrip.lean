import TableReplica.Proofs.Links
import TableReplica.Proofs.References
import TableReplica.Proofs.SortedDistinct
import TableReplica.Model.Schema

/-!
# Records written and read again

A record of a regular model, written as a row, is already in the form of its kinds, and what is read of the row is the record with the
identifier of the row in it and with its sets sorted (`Field.settled`, `Model.Regular.decode_of_encode`).
-/

namespace TableReplica

/-- Text in lower case. -/
def lowerCase (s : String) : String := String.ofList (s.toList.map Char.toLower)

/-- What a field of a record holds when the record has been written as the row of an identifier and read again. -/
def Field.settled (f : Field) (id : RowId) (r : Record) : FieldValue :=
  match f.slot with
  | .id => .text id.text
  | .string => .text (r.text f.name)
  | .stringOption => .textOption (r.textOption f.name)
  | .integer => .integer (r.integer f.name)
  | .integerOption => .integerOption (r.integerOption f.name)
  | .boolean => .boolean (r.boolean f.name)
  | .booleanOption => .booleanOption (r.booleanOption f.name)
  | .real => .real (r.real f.name)
  | .reference => .textOption ((r.textOption f.name).map lowerCase)
  | .references => .texts (sortedDistinct ((r.texts f.name).map lowerCase))
  | .strings => .texts (sortedDistinct (r.texts f.name))
  | .integers => .integers (sortedDistinct (r.integers f.name))
  | .map => .textMap (r.textMap f.name)

/-- The column of the slot may be absent. -/
def Slot.mayBeAbsent : Slot → Bool
  | .stringOption | .integerOption | .booleanOption | .reference => true
  | _ => false

/-- The fields of a model are told apart by their columns and by their names, its records start from zeros, and no field that may be
absent is required. -/
structure Model.Regular (m : Model) : Prop where
  columns : (m.fields.map (·.column)).Nodup
  names : (m.fields.map (·.name)).Nodup
  zeros : ∀ f ∈ m.fields, m.initial.get? f.name = some f.slot.zero
  others : ∀ name, (∀ f ∈ m.fields, f.name ≠ name) → m.initial.get? name = none
  present : ∀ f ∈ m.fields, f.required = true → f.slot.mayBeAbsent = false

/-! ## Sets as they are read -/

namespace Value

/-- Only texts are read as texts. -/
theorem text?_eq_some_iff {v : Value} {s : String} : v.text? = some s ↔ v = .string s := by
  cases v <;> simp [text?]

theorem idText?_eq_some_iff {v : Value} {s : String} : v.idText? = some s ↔ ∃ id, v = .uuid id ∧ id.text = s := by
  rw [idText?, Option.map_eq_some_iff]
  simp only [rowId?_eq_some_iff]

/-- The one form of a set of texts is read as the different texts in order. -/
theorem mapM_text?_canonicalItems (items : List String) :
    (canonicalItems (items.map .string)).mapM text? = some (sortedDistinct items) := by
  apply mapM_canonicalItems
  · intro v w a b hv hw h
    rw [text?_eq_some_iff] at hv hw
    subst hv
    subst hw
    exact compareOfLessAndEq_eq_lt.mp h
  · intro item hitem
    obtain ⟨s, -, rfl⟩ := List.mem_map.mp hitem
    exact definite_string s
  · rw [mapM_eq_some_iff, List.map_map]
    rfl

theorem mapM_integerOf?_canonicalItems (items : List Int64) :
    (canonicalItems (items.map .integer)).mapM integerOf? = some (sortedDistinct items) := by
  have hd : ∀ item ∈ items.map Value.integer, item.Definite := by
    intro item hitem
    obtain ⟨n, -, rfl⟩ := List.mem_map.mp hitem
    exact definite_integer n
  have hread : (items.map Value.integer).mapM int64? = some items := by
    rw [mapM_eq_some_iff, List.map_map]
    rfl
  have horder : ∀ v w a b, int64? v = some a → int64? w = some b → order v w = .lt → a < b := by
    intro v w a b hv hw h
    cases v <;> cases hv
    cases w <;> cases hw
    exact compareOfLessAndEq_eq_lt.mp h
  have hsorted := mapM_canonicalItems horder hd hread
  rw [mapM_eq_some_iff] at hsorted ⊢
  rw [← hsorted]
  apply List.map_congr_left
  intro v hv
  obtain ⟨n, -, rfl⟩ := List.mem_map.mp ((mem_canonicalItems hd v).mp hv)
  rfl

/-- The one form of a set of identifiers is read as the different texts in order. -/
theorem mapM_idText?_canonicalItems (ids : List RowId) :
    (canonicalItems (ids.map .uuid)).mapM idText? = some (sortedDistinct (ids.map RowId.text)) := by
  apply mapM_canonicalItems
  · intro v w a b hv hw h
    obtain ⟨id, rfl, rfl⟩ := idText?_eq_some_iff.mp hv
    obtain ⟨id', rfl, rfl⟩ := idText?_eq_some_iff.mp hw
    exact compareOfLessAndEq_eq_lt.mp h
  · exact definite_of_mem_map_uuid
  · rw [mapM_eq_some_iff, List.map_map, List.map_map]
    rfl

/-- A set of definite items of a scalar kind stays as it is in the form of that kind. -/
theorem normalize_ofList {kind : BaseKind} {items : List Value} (hd : ∀ item ∈ items, item.Definite)
    (h : ∀ item ∈ items, normalizeBase kind item = .ok item) :
    normalize (.set kind) (ofList items) = .ok (some (ofList items)) := by
  have hmap : (canonicalItems items).mapM (normalizeBase kind) = .ok (canonicalItems items) := by
    rw [mapM_eq_ok_iff]
    apply List.map_congr_left
    intro item hitem
    exact h item ((mem_canonicalItems hd item).mp hitem)
  rw [normalize]
  show ((canonicalItems items).mapM (normalizeBase kind)).map _ = _
  rw [hmap, Except.map, ofList, ofList, canonicalItems_idem]

end Value

/-- An identifier is written with lower case, however it was spelled. -/
theorem RowId.text_of_parse {s : String} {id : RowId} (h : parse s = .ok id) : id.text = lowerCase s := by
  unfold parse at h
  dsimp only at h
  split at h
  · cases h
  · split at h
    · cases h
      rfl
    · cases h

/-! ## One field -/

namespace Field

variable {f : Field} {r : Record} {v : Value}

/-- The identifier that a field names is written in lower case. -/
theorem exists_of_reference (hslot : f.slot = .reference) (h : f.value r = .ok (some v)) :
    ∃ (s : String) (id : RowId), r.textOption f.name = some s ∧ v = .uuid id ∧ id.text = lowerCase s := by
  simp only [value, hslot] at h
  split at h
  · rename_i s hs
    obtain ⟨id, hid, hv⟩ := map_eq_ok_iff.mp h
    exact ⟨s, id, hs, (Option.some.inj hv).symm, RowId.text_of_parse hid⟩
  · cases h

/-- The identifiers that a field names are written as a set of them, in lower case. -/
theorem exists_of_references (hslot : f.slot = .references) (h : f.value r = .ok (some v)) :
    ∃ ids : List RowId, v = .ofRowIds ids ∧ ids.map RowId.text = (r.texts f.name).map lowerCase := by
  simp only [value, hslot] at h
  obtain ⟨ids, hids, hv⟩ := map_eq_ok_iff.mp h
  refine ⟨ids, (Option.some.inj hv).symm, ?_⟩
  have hparse := congrArg (List.map (fun x => match x with | .ok id => RowId.text id | .error _ => "")) (mapM_eq_ok_iff.mp hids)
  rw [List.map_map, List.map_map] at hparse
  refine hparse.symm.trans (List.map_congr_left ?_)
  intro s hs
  have hmem : RowId.parse s ∈ ids.map Except.ok := mapM_eq_ok_iff.mp hids ▸ List.mem_map_of_mem hs
  obtain ⟨id, -, hid⟩ := List.mem_map.mp hmem
  rw [Function.comp_apply, ← hid]
  exact RowId.text_of_parse hid.symm

/-- What is written of a field is in the form of its kind. -/
theorem normalize_value {kind : Kind} (hkind : f.slot.kind? = some kind) (h : f.value r = .ok (some v)) :
    v.normalize kind = .ok (some v) := by
  cases hslot : f.slot with
  | id =>
    rw [hslot] at hkind
    cases hkind
  | reference =>
    rw [hslot] at hkind
    cases hkind
    obtain ⟨s, id, -, rfl, -⟩ := exists_of_reference hslot h
    rfl
  | references =>
    rw [hslot] at hkind
    cases hkind
    obtain ⟨ids, rfl, -⟩ := exists_of_references hslot h
    refine Value.normalize_ofList Value.definite_of_mem_map_uuid ?_
    intro item hitem
    obtain ⟨id, -, rfl⟩ := List.mem_map.mp hitem
    rfl
  | strings =>
    rw [hslot] at hkind
    simp only [value, hslot] at h
    cases hkind
    cases h
    refine Value.normalize_ofList ?_ ?_ <;> intro item hitem <;> obtain ⟨s, -, rfl⟩ := List.mem_map.mp hitem
    · exact Value.definite_string s
    · rfl
  | integers =>
    rw [hslot] at hkind
    simp only [value, hslot] at h
    cases hkind
    cases h
    refine Value.normalize_ofList ?_ ?_ <;> intro item hitem <;> obtain ⟨n, -, rfl⟩ := List.mem_map.mp hitem
    · exact Value.definite_integer n
    · rfl
  | real =>
    rw [hslot] at hkind
    simp only [value, hslot] at h
    cases hkind
    split at h
    · rename_i hfinite
      cases h
      simp [Value.normalize, Value.normalizeBase, hfinite, Except.map]
    · cases h
  | stringOption | integerOption | booleanOption =>
    rw [hslot] at hkind
    simp only [value, hslot] at h
    cases hkind
    obtain ⟨a, -, rfl⟩ := Option.map_eq_some_iff.mp (Except.ok.inj h)
    rfl
  | _ =>
    rw [hslot] at hkind
    simp only [value, hslot] at h
    cases hkind
    cases h
    rfl

/-- What is read of what was written of a field. -/
theorem read?_value (id : RowId) (h : f.value r = .ok (some v)) : f.slot.read? v = some (f.settled id r) := by
  cases hslot : f.slot with
  | id =>
    simp only [value, hslot] at h
    cases h
  | reference =>
    obtain ⟨s, id, hs, rfl, hid⟩ := exists_of_reference hslot h
    simp only [settled, hslot, hs, Option.map_some, ← hid]
    rfl
  | references =>
    obtain ⟨ids, rfl, hids⟩ := exists_of_references hslot h
    simp only [settled, hslot, ← hids]
    show ((Value.canonicalItems (ids.map .uuid)).mapM Value.idText?).map FieldValue.texts = _
    rw [Value.mapM_idText?_canonicalItems]
    rfl
  | strings =>
    simp only [value, hslot] at h
    cases h
    simp only [settled, hslot]
    show ((Value.canonicalItems ((r.texts f.name).map .string)).mapM Value.text?).map FieldValue.texts = _
    rw [Value.mapM_text?_canonicalItems]
    rfl
  | integers =>
    simp only [value, hslot] at h
    cases h
    simp only [settled, hslot]
    show ((Value.canonicalItems ((r.integers f.name).map .integer)).mapM Value.integerOf?).map FieldValue.integers = _
    rw [Value.mapM_integerOf?_canonicalItems]
    rfl
  | real =>
    simp only [value, hslot] at h
    split at h
    · cases h
      simp only [settled, hslot]
      rfl
    · cases h
  | stringOption | integerOption | booleanOption =>
    simp only [value, hslot] at h
    obtain ⟨a, ha, rfl⟩ := Option.map_eq_some_iff.mp (Except.ok.inj h)
    simp only [settled, hslot, ha]
    rfl
  | _ =>
    simp only [value, hslot] at h
    cases h
    simp only [settled, hslot]
    rfl

/-- A field that is left out holds nothing, and may be left out. -/
theorem settled_of_value_none (id : RowId) (hid : f.slot ≠ .id) (h : f.value r = .ok none) :
    f.settled id r = f.slot.zero ∧ f.slot.mayBeAbsent = true := by
  cases hslot : f.slot with
  | id => exact absurd hslot hid
  | reference =>
    simp only [value, hslot] at h
    split at h
    · obtain ⟨_, -, hv⟩ := map_eq_ok_iff.mp h
      cases hv
    · rename_i hnone
      simp only [settled, hslot, hnone]
      exact ⟨rfl, rfl⟩
  | references =>
    simp only [value, hslot] at h
    obtain ⟨_, -, hv⟩ := map_eq_ok_iff.mp h
    cases hv
  | real =>
    simp only [value, hslot] at h
    split at h <;> cases h
  | stringOption | integerOption | booleanOption =>
    simp only [value, hslot] at h
    simp only [settled, hslot, Option.map_eq_none_iff.mp (Except.ok.inj h)]
    exact ⟨rfl, rfl⟩
  | _ =>
    simp only [value, hslot] at h
    cases h

end Field

/-! ## Whole records -/

namespace Model

/-- The row of a record has the column of a field as the field is written, and no column that no field has. -/
theorem get?_addColumns {r : Record} {fields : List Field} {row written : Row} (hnodup : (fields.map (·.column)).Nodup)
    (h : addColumns r fields row = .ok written) :
    (∀ f ∈ fields, ∃ v?, f.value r = .ok v? ∧ written.get? f.column = v?.or (row.get? f.column)) ∧
      ∀ column, (∀ f ∈ fields, f.column ≠ column) → written.get? column = row.get? column := by
  induction fields generalizing row with
  | nil =>
    cases h
    exact ⟨fun f hf => (List.not_mem_nil hf).elim, fun _ _ => rfl⟩
  | cons f rest ih =>
    rw [List.map_cons, List.nodup_cons] at hnodup
    have hne : ∀ g ∈ rest, g.column ≠ f.column := fun g hg heq => hnodup.1 (heq ▸ List.mem_map_of_mem hg)
    rw [addColumns] at h
    cases hv : f.value r with
    | error e =>
      rw [hv] at h
      cases h
    | ok v? =>
      rw [hv] at h
      cases v? with
      | none =>
        obtain ⟨hfields, hothers⟩ := ih hnodup.2 h
        refine ⟨List.forall_mem_cons.mpr ⟨⟨none, hv, hothers f.column hne⟩, hfields⟩, ?_⟩
        intro column hcolumn
        exact hothers column (List.forall_mem_cons.mp hcolumn).2
      | some v =>
        obtain ⟨hfields, hothers⟩ := ih hnodup.2 h
        refine ⟨List.forall_mem_cons.mpr ⟨⟨some v, hv, ?_⟩, ?_⟩, ?_⟩
        · rw [hothers f.column hne, SortedMap.get?_insert_self]
          rfl
        · intro g hg
          obtain ⟨v?, hv?, hget⟩ := hfields g hg
          rw [SortedMap.get?_insert_of_ne row v (Ne.symm (hne g hg))] at hget
          exact ⟨v?, hv?, hget⟩
        · intro column hcolumn
          obtain ⟨hhead, hrest⟩ := List.forall_mem_cons.mp hcolumn
          rw [hothers column hrest, SortedMap.get?_insert_of_ne row v hhead]

/-- A written row has the value of each field in its column, and no other columns. -/
theorem get?_encode {m : Model} {r : Record} {row : Row} (hnodup : (m.fields.map (·.column)).Nodup) (h : m.encode r = .ok row) :
    (∀ f ∈ m.fields, f.value r = .ok (row.get? f.column)) ∧
      ∀ column, (∀ f ∈ m.fields, f.column ≠ column) → row.get? column = none := by
  obtain ⟨hfields, hothers⟩ := get?_addColumns hnodup h
  refine ⟨?_, hothers⟩
  intro f hf
  obtain ⟨v?, hv?, hget⟩ := hfields f hf
  rw [show SortedMap.get? (∅ : Row) f.column = none from rfl, Option.or_none] at hget
  rw [hget, hv?]

/-- The kind of the column of a field is the kind of its slot. -/
theorem get?_columns {m : Model} (hnodup : (m.fields.map (·.column)).Nodup) {f : Field} (hf : f ∈ m.fields) :
    m.columns.get? f.column = f.slot.kind? := by
  have hkeys : ((m.fields.filterMap (fun f => f.slot.kind?.map (f.column, ·))).map (·.1)).Nodup := by
    rw [List.Nodup, List.pairwise_map]
    refine List.Pairwise.filterMap _ ?_ (List.pairwise_map.mp hnodup)
    intro f g hne e he e' he'
    obtain ⟨_, -, rfl⟩ := Option.map_eq_some_iff.mp he
    obtain ⟨_, -, rfl⟩ := Option.map_eq_some_iff.mp he'
    exact hne
  cases hkind : f.slot.kind? with
  | some kind => exact SortedMap.get?_ofList_of_mem hkeys (List.mem_filterMap.mpr ⟨f, hf, by rw [hkind]; rfl⟩)
  | none =>
    refine SortedMap.get?_ofList_of_not_mem ?_
    intro hmem
    obtain ⟨e, he, hcolumn⟩ := List.mem_map.mp hmem
    obtain ⟨g, hg, hge⟩ := List.mem_filterMap.mp he
    obtain ⟨kind, hgkind, rfl⟩ := Option.map_eq_some_iff.mp hge
    rw [List.inj_on_of_nodup_map hnodup hg hf hcolumn, hkind] at hgkind
    cases hgkind

/-- When every field can be assigned, the record has in each field what it is assigned, or what it had. -/
theorem fillFields_of_assignments {id : RowId} {row : Row} {fields : List Field} (hnodup : (fields.map (·.name)).Nodup)
    {given : Field → Option FieldValue} (h : ∀ f ∈ fields, f.assignment id row = .ok (given f)) (r : Record) :
    ∃ r', fillFields id row fields r = (r', none) ∧ r'.type = r.type ∧ r'.table = r.table ∧
      (∀ f ∈ fields, r'.get? f.name = (given f).or (r.get? f.name)) ∧
      ∀ name, (∀ f ∈ fields, f.name ≠ name) → r'.get? name = r.get? name := by
  induction fields generalizing r with
  | nil => exact ⟨r, rfl, rfl, rfl, fun f hf => (List.not_mem_nil hf).elim, fun _ _ => rfl⟩
  | cons f rest ih =>
    rw [List.map_cons, List.nodup_cons] at hnodup
    obtain ⟨hf, hrest⟩ := List.forall_mem_cons.mp h
    have hne : ∀ g ∈ rest, g.name ≠ f.name := fun g hg heq => hnodup.1 (heq ▸ List.mem_map_of_mem hg)
    rw [fillFields, hf]
    cases hgiven : given f with
    | none =>
      obtain ⟨r', hr', htype, htable, hfields, hothers⟩ := ih hnodup.2 hrest r
      refine ⟨r', hr', htype, htable, List.forall_mem_cons.mpr ⟨?_, hfields⟩, ?_⟩
      · rw [hothers f.name hne, hgiven]
        rfl
      · intro name hname
        exact hothers name (List.forall_mem_cons.mp hname).2
    | some v =>
      obtain ⟨r', hr', htype, htable, hfields, hothers⟩ := ih hnodup.2 hrest (r.set f.name v)
      refine ⟨r', hr', htype, htable, List.forall_mem_cons.mpr ⟨?_, ?_⟩, ?_⟩
      · rw [hothers f.name hne, hgiven]
        exact SortedMap.get?_insert_self r.fields f.name v
      · intro g hg
        rw [hfields g hg]
        congr 1
        exact SortedMap.get?_insert_of_ne r.fields v (Ne.symm (hne g hg))
      · intro name hname
        obtain ⟨hhead, hrest⟩ := List.forall_mem_cons.mp hname
        rw [hothers name hrest]
        exact SortedMap.get?_insert_of_ne r.fields v hhead

namespace Regular

variable {m : Model} {r : Record} {row : Row}

/-- The columns of a written record are in the form of their kinds. -/
theorem normalizeColumn_of_encode (hm : m.Regular) (h : m.encode r = .ok row) (column : String) :
    (row.get? column).bind (Schema.normalizeColumn m.columns column) = row.get? column := by
  obtain ⟨hfields, hothers⟩ := get?_encode hm.columns h
  by_cases hcolumn : ∃ f ∈ m.fields, f.column = column
  · obtain ⟨f, hf, rfl⟩ := hcolumn
    have hvalue := hfields f hf
    cases hget : row.get? f.column with
    | none => rfl
    | some v =>
      rw [hget] at hvalue
      rw [Option.bind_some, Schema.normalizeColumn, get?_columns hm.columns hf]
      cases hkind : f.slot.kind? with
      | none => rfl
      | some kind => simp only [Field.normalize_value hkind hvalue]
  · rw [hothers column (fun f hf heq => hcolumn ⟨f, hf, heq⟩)]
    rfl

/-- What is assigned to the fields when a written record is read. -/
theorem assignment_of_encode (hm : m.Regular) (h : m.encode r = .ok row) (id : RowId) {f : Field} (hf : f ∈ m.fields) :
    ∃ given, f.assignment id row = .ok given ∧ given.or (some f.slot.zero) = some (f.settled id r) := by
  have hvalue := (get?_encode hm.columns h).1 f hf
  unfold Field.assignment
  by_cases hslot : f.slot = .id
  · rw [if_pos hslot]
    refine ⟨_, rfl, ?_⟩
    simp only [Field.settled, hslot]
    rfl
  · rw [if_neg hslot]
    cases hget : row.get? f.column with
    | none =>
      rw [hget] at hvalue
      obtain ⟨hzero, habsent⟩ := Field.settled_of_value_none id hslot hvalue
      have hrequired : f.required = false := by
        cases hrequired : f.required with
        | false => rfl
        | true =>
          rw [hm.present f hf hrequired] at habsent
          cases habsent
      simp only [hrequired]
      exact ⟨none, rfl, by rw [hzero]; rfl⟩
    | some v =>
      rw [hget] at hvalue
      simp only [Field.read?_value id hvalue]
      exact ⟨_, rfl, rfl⟩

/-- A written record is read again as it settles. -/
theorem decode_of_encode (hm : m.Regular) (h : m.encode r = .ok row) (id : RowId) :
    ∃ r', m.decode id row = .ok r' ∧ r'.type = m.type ∧ r'.table = m.table ∧
      (∀ f ∈ m.fields, r'.get? f.name = some (f.settled id r)) ∧
      ∀ name, (∀ f ∈ m.fields, f.name ≠ name) → r'.get? name = none := by
  have hgiven : ∀ f ∈ m.fields, f.assignment id row = .ok ((f.assignment id row).toOption.join) := by
    intro f hf
    obtain ⟨given, hgiven, -⟩ := hm.assignment_of_encode h id hf
    rw [hgiven]
    cases given <;> rfl
  obtain ⟨r', hr', htype, htable, hfields, hothers⟩ := fillFields_of_assignments hm.names hgiven m.blank
  refine ⟨r', ?_, htype, htable, ?_, ?_⟩
  · rw [decode, fill, hr']
  · intro f hf
    obtain ⟨given, hgiven, hsettled⟩ := hm.assignment_of_encode h id hf
    rw [hfields f hf, show m.blank.get? f.name = some f.slot.zero from hm.zeros f hf, hgiven, ← hsettled]
    cases given <;> rfl
  · intro name hname
    rw [hothers name hname]
    exact hm.others name hname

end Regular

end Model

end TableReplica
