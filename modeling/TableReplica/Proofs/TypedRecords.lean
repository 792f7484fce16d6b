import TableReplica.Proofs.NetworkModels
import TableReplica.Proofs.WireTrip

/-!
# The trip of a record

A record of a regular model is written as a row in the form of its table, the row goes over the wire unchanged, and what is read of it is
the record as it settles (`Model.settle`): with the identifier of the row, and with its sets sorted. A record that has settled is
written as the same row again (`Model.Survives`).
-/

namespace TableReplica

/-- The value has the shape of the slot. -/
def Slot.Takes : Slot → FieldValue → Prop
  | .id, .text _ => True
  | .string, .text _ => True
  | .stringOption, .textOption _ => True
  | .integer, .integer _ => True
  | .integerOption, .integerOption _ => True
  | .boolean, .boolean _ => True
  | .booleanOption, .booleanOption _ => True
  | .real, .real _ => True
  | .reference, .textOption _ => True
  | .references, .texts _ => True
  | .strings, .texts _ => True
  | .integers, .integers _ => True
  | .map, .textMap _ => True
  | _, _ => False

/-- The record is one of the model: it has the fields the model describes, each in the shape of its slot, and no others. -/
structure Model.Types (m : Model) (r : Record) : Prop where
  type : r.type = m.type
  table : r.table = m.table
  fields : ∀ f ∈ m.fields, ∃ value, r.get? f.name = some value ∧ f.slot.Takes value
  others : ∀ name, (∀ f ∈ m.fields, f.name ≠ name) → r.get? name = none

/-- A field value after a trip: the identifier is that of the row, identifiers of other rows are in lower case, and sets are sorted,
each of their members once. -/
def FieldValue.settle (slot : Slot) (id : RowId) (value : FieldValue) : FieldValue :=
  match slot, value with
  | .id, _ => .text id.text
  | .reference, .textOption s => .textOption (s.map lowerCase)
  | .references, .texts items => .texts (sortedDistinct (items.map lowerCase))
  | .strings, .texts items => .texts (sortedDistinct items)
  | .integers, .integers items => .integers (sortedDistinct items)
  | _, value => value

/-- A record after a trip as the row of an identifier. -/
def Model.settle (m : Model) (id : RowId) (r : Record) : Record :=
  { r with fields := r.fields.map fun name value =>
      match m.fields.find? (fun f => decide (f.name = name)) with
      | some f => value.settle f.slot id
      | none => value }

/-- A record written as a row comes back as it settles. -/
structure Model.Survives (m : Model) (r : Record) (row : Row) : Prop where
  /-- The row is in the form of its table. -/
  inForm : ∀ s : Schema, s.models.get? m.table = some m → s.normalize m.table row = (row, [])
  /-- The row goes over the wire unchanged, whether or not the reader knows the kinds of its columns. -/
  wire : Wire.readRow none (Wire.writeRow row) = .ok row ∧ Wire.readRow (some m.columns) (Wire.writeRow row) = .ok row
  decoded : ∀ id, m.decode id row = .ok (m.settle id r)
  /-- The record that comes back is written as the same row. -/
  encoded : ∀ id, m.encode (m.settle id r) = .ok row
  /-- A schema that knows the model reads and writes the same. -/
  known : ∀ s : Schema, s.models.get? m.table = some m → ∀ id,
    s.decode m.table id row = .ok (m.settle id r) ∧ s.encode (m.settle id r) = .ok row

/-! ## One field -/

/-- An identifier that can be read can be read in lower case. -/
theorem RowId.parse_lowerCase {s : String} {id : RowId} (h : parse s = .ok id) : parse (lowerCase s) = .ok id := by
  rw [← text_of_parse h, parse_text]

namespace Field

variable {f : Field} {r r' : Record} {id : RowId}

/-- What a field of a typed record settles to. -/
theorem settled_eq_settle {value : FieldValue} (hget : r.get? f.name = some value) (htakes : f.slot.Takes value) (id : RowId) :
    f.settled id r = value.settle f.slot id := by
  unfold settled
  cases hslot : f.slot <;> cases value <;> simp only [hslot, Slot.Takes] at htakes <;>
    simp only [FieldValue.settle, Record.text, Record.textOption, Record.integer, Record.integerOption, Record.boolean,
      Record.booleanOption, Record.real, Record.texts, Record.integers, Record.textMap, hget]

/-- A set of identifiers in lower case, sorted, names the same rows. -/
theorem ofRowIds_of_sortedDistinct {texts : List String} {ids : List RowId} (h : texts.mapM RowId.parse = .ok ids) :
    ∃ ids', (sortedDistinct (texts.map lowerCase)).mapM RowId.parse = .ok ids' ∧ Value.ofRowIds ids' = Value.ofRowIds ids := by
  have hparse : ∀ text id, text ∈ texts → RowId.parse text = .ok id → RowId.parse (lowerCase text) = .ok id :=
    fun text id _ hid => RowId.parse_lowerCase hid
  have hread : ∀ text ∈ texts, ∃ id, RowId.parse text = .ok id := by
    intro text htext
    have hmem : RowId.parse text ∈ ids.map Except.ok := mapM_eq_ok_iff.mp h ▸ List.mem_map_of_mem htext
    obtain ⟨id, -, hid⟩ := List.mem_map.mp hmem
    exact ⟨id, hid.symm⟩
  have hsettled : ∀ text ∈ sortedDistinct (texts.map lowerCase), ∃ id, RowId.parse text = .ok id := by
    intro text htext
    obtain ⟨raw, hraw, rfl⟩ := List.mem_map.mp ((mem_sortedDistinct _ text).mp htext)
    obtain ⟨id, hid⟩ := hread raw hraw
    exact ⟨id, hparse raw id hraw hid⟩
  obtain ⟨ids', hids'⟩ := exists_mapM_eq_ok hsettled
  refine ⟨ids', hids', ?_⟩
  have hmem : ∀ id, id ∈ ids' ↔ id ∈ ids := by
    intro id
    rw [mem_of_mapM_eq_ok hids', mem_of_mapM_eq_ok h]
    constructor
    · rintro ⟨text, htext, hid⟩
      obtain ⟨raw, hraw, rfl⟩ := List.mem_map.mp ((mem_sortedDistinct _ text).mp htext)
      obtain ⟨id', hid'⟩ := hread raw hraw
      rw [hparse raw id' hraw hid'] at hid
      cases hid
      exact ⟨raw, hraw, hid'⟩
    · rintro ⟨raw, hraw, hid⟩
      exact ⟨lowerCase raw, (mem_sortedDistinct _ _).mpr (List.mem_map_of_mem hraw), hparse raw id hraw hid⟩
  rw [Value.ofRowIds, Value.ofRowIds, Value.ofList, Value.ofList]
  congr 1
  apply Value.canonicalItems_eq_of_mem_iff Value.definite_of_mem_map_uuid
  intro v
  simp only [List.mem_map, hmem]

/-- A set does not depend on the order and the repeats of what it is made of. -/
theorem ofList_sortedDistinct {α : Type} [DecidableEq α] [LE α] [DecidableLE α] {make : α → Value}
    (hmake : ∀ a, (make a).Definite) (items : List α) :
    Value.ofList ((sortedDistinct items).map make) = Value.ofList (items.map make) := by
  rw [Value.ofList, Value.ofList]
  congr 1
  apply Value.canonicalItems_eq_of_mem_iff
  · intro v hv
    obtain ⟨a, -, rfl⟩ := List.mem_map.mp hv
    exact hmake a
  · intro v
    simp only [List.mem_map, mem_sortedDistinct]

/-- A field that has settled is written as it was. -/
theorem value_of_settle {value : FieldValue} (hget : r.get? f.name = some value) (htakes : f.slot.Takes value)
    (hget' : r'.get? f.name = some (value.settle f.slot id)) {v : Option Value} (h : f.value r = .ok v) : f.value r' = .ok v := by
  cases hslot : f.slot with
  | reference =>
    cases value <;> simp only [hslot, Slot.Takes] at htakes
    rename_i s
    simp only [Field.value, hslot, Record.textOption, hget, hget', FieldValue.settle] at h ⊢
    cases s with
    | none => exact h
    | some text =>
      obtain ⟨u, hu, hv⟩ := map_eq_ok_iff.mp h
      rw [Option.map_some]
      exact map_eq_ok_iff.mpr ⟨u, RowId.parse_lowerCase hu, hv⟩
  | references =>
    cases value <;> simp only [hslot, Slot.Takes] at htakes
    simp only [Field.value, hslot, Record.texts, hget, hget', FieldValue.settle] at h ⊢
    obtain ⟨ids, hids, hv⟩ := map_eq_ok_iff.mp h
    obtain ⟨ids', hids', hsame⟩ := ofRowIds_of_sortedDistinct hids
    exact map_eq_ok_iff.mpr ⟨ids', hids', by rw [hsame, hv]⟩
  | strings =>
    cases value <;> simp only [hslot, Slot.Takes] at htakes
    simp only [Field.value, hslot, Record.texts, hget, hget', FieldValue.settle] at h ⊢
    rw [ofList_sortedDistinct Value.definite_string]
    exact h
  | integers =>
    cases value <;> simp only [hslot, Slot.Takes] at htakes
    simp only [Field.value, hslot, Record.integers, hget, hget', FieldValue.settle] at h ⊢
    rw [ofList_sortedDistinct Value.definite_integer]
    exact h
  | _ =>
    cases value <;> simp only [hslot, Slot.Takes] at htakes
    all_goals
      simp only [Field.value, hslot, Record.text, Record.textOption, Record.integer, Record.integerOption, Record.boolean,
        Record.booleanOption, Record.real, Record.textMap, hget, hget', FieldValue.settle] at h ⊢
      exact h

end Field

/-! ## Whole records -/

/-- A record is determined by its type, its table and its fields. -/
theorem Record.eq_of_fields {r r' : Record} (htype : r.type = r'.type) (htable : r.table = r'.table) (hfields : r.fields = r'.fields) :
    r = r' := by
  cases r
  cases r'
  simp_all

namespace Model

theorem addColumns_congr {r r' : Record} {fields : List Field} (h : ∀ f ∈ fields, f.value r = f.value r') (row : Row) :
    addColumns r fields row = addColumns r' fields row := by
  induction fields generalizing row with
  | nil => rfl
  | cons f rest ih =>
    obtain ⟨hf, hrest⟩ := List.forall_mem_cons.mp h
    rw [addColumns, addColumns, hf]
    cases f.value r' with
    | error violation => rfl
    | ok v =>
      cases v with
      | none => exact ih hrest row
      | some v => exact ih hrest (row.insert f.column v)

namespace Regular

variable {m : Model} {r : Record} {row : Row} {f : Field}

/-- A field of a regular model is the one found under its name. -/
theorem find?_name (hm : m.Regular) (hf : f ∈ m.fields) : m.fields.find? (fun g => decide (g.name = f.name)) = some f := by
  cases hfind : m.fields.find? (fun g => decide (g.name = f.name)) with
  | none =>
    have hnone := List.find?_eq_none.mp hfind f hf
    simp at hnone
  | some g =>
    have hname : g.name = f.name := by simpa using List.find?_some hfind
    rw [List.inj_on_of_nodup_map hm.names (List.mem_of_find?_eq_some hfind) hf hname]

/-- A field of a settled record is the field, settled for its slot. -/
theorem get?_settle (hm : m.Regular) (hf : f ∈ m.fields) {value : FieldValue} (hget : r.get? f.name = some value) (id : RowId) :
    (m.settle id r).get? f.name = some (value.settle f.slot id) := by
  have hvalue : r.fields.get? f.name = some value := hget
  rw [settle, Record.get?, SortedMap.get?_map, hvalue, Option.map_some, hm.find?_name hf]

/-- A record that has settled is written as the same row. -/
theorem encode_settle (hm : m.Regular) (hr : m.Types r) (h : m.encode r = .ok row) (id : RowId) :
    m.encode (m.settle id r) = .ok row := by
  have hwritten := (get?_encode hm.columns h).1
  rw [← h]
  apply addColumns_congr
  intro f hf
  obtain ⟨value, hget, htakes⟩ := hr.fields f hf
  rw [hwritten f hf]
  exact Field.value_of_settle hget htakes (hm.get?_settle hf hget id) (hwritten f hf)

/-- What is read of a written record is the record as it settles. -/
theorem decode_settle (hm : m.Regular) (hr : m.Types r) (h : m.encode r = .ok row) (id : RowId) :
    m.decode id row = .ok (m.settle id r) := by
  obtain ⟨r', hdecode, htype, htable, hfields, hothers⟩ := hm.decode_of_encode h id
  have hsame : r'.fields = (m.settle id r).fields := by
    apply SortedMap.ext_get?
    intro name
    by_cases hname : ∃ f ∈ m.fields, f.name = name
    · obtain ⟨f, hf, rfl⟩ := hname
      obtain ⟨value, hget, htakes⟩ := hr.fields f hf
      refine (hfields f hf).trans ?_
      rw [Field.settled_eq_settle hget htakes]
      exact (hm.get?_settle hf hget id).symm
    · have hnone : ∀ f ∈ m.fields, f.name ≠ name := fun f hf heq => hname ⟨f, hf, heq⟩
      have hraw : r.fields.get? name = none := hr.others name hnone
      refine (hothers name hnone).trans ?_
      rw [settle, SortedMap.get?_map, hraw, Option.map_none]
  have hsettled : r' = m.settle id r := Record.eq_of_fields (htype.trans hr.type.symm) (htable.trans hr.table.symm) hsame
  rw [hdecode, hsettled]

/-- The row of a record has columns of its model only, each in the form of its kind. -/
theorem fits_of_encode (hm : m.Regular) (h : m.encode r = .ok row) : Wire.Fits m.columns row := by
  obtain ⟨hfields, hothers⟩ := get?_encode hm.columns h
  intro column v hv
  by_cases hcolumn : ∃ f ∈ m.fields, f.column = column
  · obtain ⟨f, hf, rfl⟩ := hcolumn
    have hvalue := hfields f hf
    rw [hv] at hvalue
    cases hkind : f.slot.kind? with
    | none =>
      have hslot : f.slot = .id := by
        cases hslot : f.slot <;> rw [hslot] at hkind <;> cases hkind
      simp only [Field.value, hslot] at hvalue
      cases hvalue
    | some kind =>
      refine ⟨kind, ?_, Value.holds_of_normalize (Field.normalize_value hkind hvalue)⟩
      rw [get?_columns hm.columns hf, hkind]
  · rw [hothers column (fun f hf heq => hcolumn ⟨f, hf, heq⟩)] at hv
    cases hv

end Regular

end Model

/-- A row that fits the kinds of its table is in form, and no column of it is at fault. -/
theorem Schema.normalize_of_fits {s : Schema} {table : String} {row : Row} (h : Wire.Fits (s.kinds table) row) :
    s.normalize table row = (row, []) := by
  have hrow : (s.normalize table row).1 = row := by
    apply SortedMap.ext_get?
    intro column
    rw [get?_normalize]
    cases hv : row.get? column with
    | none => rfl
    | some v =>
      obtain ⟨kind, hkind, hholds⟩ := h column v hv
      simp only [Option.bind_some, normalizeColumn, hkind, Value.normalize_of_holds hholds]
  have hfaults : (s.normalize table row).2 = [] := by
    show row.entries.filterMap _ = []
    rw [List.filterMap_eq_nil_iff]
    intro e he
    obtain ⟨kind, hkind, hholds⟩ := h e.1 e.2 (SortedMap.mem_entries_iff.mp he)
    have hdeclared : ((s.columns? table).getD ∅).get? e.1 = some kind := hkind
    simp only [columnFault?, hdeclared, Value.normalize_of_holds hholds, Option.map_none]
  exact Prod.ext hrow hfaults

/-- The models of a virtual network are regular, and a record of any regular model survives the trip. -/
theorem Model.survives_trip :
    (∀ m ∈ VirtualNetwork.models, m.Regular ∧ m.idFields = 1) ∧
      ∀ (m : Model) (r : Record) (row : Row), m.Regular → m.Types r → m.encode r = .ok row → m.Survives r row := by
  refine ⟨fun m hm => ⟨VirtualNetwork.regular_of_mem hm, ?_⟩, ?_⟩
  · revert m
    decide
  · intro m r row hm hr h
    have hfits := hm.fits_of_encode h
    refine ⟨?_, Wire.readRow_writeRow hfits, hm.decode_settle hr h, hm.encode_settle hr h, ?_⟩
    · intro s hs
      have hkinds : s.kinds m.table = m.columns := by
        rw [Schema.kinds, Schema.columns?, hs]
        rfl
      exact Schema.normalize_of_fits (hkinds ▸ hfits)
    · intro s hs id
      have hmodel : s.model m.table = .ok m := by
        rw [Schema.model, hs]
      have hdescribes : m.describes (m.settle id r) = true := decide_eq_true hr.type
      constructor
      · rw [Schema.decode, hmodel]
        exact congrArg asError (hm.decode_settle hr h id)
      · rw [Schema.encode, show (m.settle id r).table = m.table from hr.table, hmodel]
        dsimp only
        rw [if_pos hdescribes, hm.encode_settle hr h id]
        rfl

namespace VirtualNetwork

theorem SwitchPort.types_toRecord (p : SwitchPort) : switchPortModel.Types p.toRecord where
  type := rfl
  table := rfl
  fields := by
    intro f hf
    simp only [switchPortModel, Model.ofFields, List.mem_cons, List.not_mem_nil, or_false] at hf
    rcases hf with rfl | rfl | rfl | rfl | rfl | rfl | rfl
    · exact ⟨.text p.id, p.get?_toRecord (by simp [Field.ofId]), trivial⟩
    · exact ⟨.text p.name, p.get?_toRecord (by simp [Field.mandatory]), trivial⟩
    · exact ⟨.texts p.addresses, p.get?_toRecord (by simp [Field.plain]), trivial⟩
    · exact ⟨.texts p.allowedAddresses, p.get?_toRecord (by simp [Field.plain]), trivial⟩
    · exact ⟨.integerOption p.tag, p.get?_toRecord (by simp [Field.plain]), trivial⟩
    · exact ⟨.booleanOption p.enabled, p.get?_toRecord (by simp [Field.plain]), trivial⟩
    · exact ⟨.textMap p.labels, p.get?_toRecord (by simp [Field.plain]), trivial⟩
  others := by
    intro name hname
    refine SortedMap.get?_ofList_of_not_mem ?_
    intro hmem
    have hnames : name ∈ switchPortModel.fields.map (·.name) := hmem
    obtain ⟨f, hf, heq⟩ := List.mem_map.mp hnames
    exact hname f hf heq

/-- A port with its addresses out of order survives the trip. -/
theorem SwitchPort.survives_unsorted :
    ∃ row, switchPortModel.encode (SwitchPort.toRecord { name := "p", addresses := ["b", "a", "b"], tag := some 7 }) = .ok row ∧
      switchPortModel.Survives (SwitchPort.toRecord { name := "p", addresses := ["b", "a", "b"], tag := some 7 }) row := by
  have hwritten : (switchPortModel.encode (SwitchPort.toRecord { name := "p", addresses := ["b", "a", "b"], tag := some 7 })).isOk := by
    decide +kernel
  obtain ⟨row, hrow⟩ := Except.isOk_iff.mp hwritten
  exact ⟨row, hrow, Model.survives_trip.2 switchPortModel _ row (regular_of_mem switchPortModel_mem) (SwitchPort.types_toRecord _) hrow⟩

end VirtualNetwork

end TableReplica
