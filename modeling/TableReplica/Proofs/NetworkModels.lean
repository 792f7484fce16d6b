import TableReplica.Proofs.KnownModels

/-!
# The models of a virtual network

The five models are regular. The row of a record has the columns that are written here out, and a rule or a port of a switch that is
written and read again is the one that was given, with its sets sorted.
-/

namespace TableReplica

/-- A model is regular when its columns and its names are different, and no required column may be absent. -/
theorem Model.regular_ofFields {type table : String} {fields : List Field} (hcolumns : (fields.map (·.column)).Nodup)
    (hnames : (fields.map (·.name)).Nodup) (hpresent : ∀ f ∈ fields, f.required = true → f.slot.mayBeAbsent = false) :
    (ofFields type table fields).Regular where
  columns := hcolumns
  names := hnames
  zeros := by
    intro f hf
    have hkeys : ((fields.map (fun f => (f.name, f.slot.zero))).map (·.1)).Nodup := by
      rw [List.map_map]
      exact hnames
    exact SortedMap.get?_ofList_of_mem hkeys (List.mem_map.mpr ⟨f, hf, rfl⟩)
  others := by
    intro name hname
    refine SortedMap.get?_ofList_of_not_mem ?_
    rw [List.map_map, List.mem_map]
    rintro ⟨f, hf, heq⟩
    exact hname f hf heq
  present := hpresent

/-- A record is made of the values of its fields. -/
theorem Record.eq_ofList {m : Model} {r : Record} {entries : List (String × FieldValue)} (htype : r.type = m.type)
    (htable : r.table = m.table) (hnames : entries.map (·.1) = m.fields.map (·.name)) (hnodup : (m.fields.map (·.name)).Nodup)
    (hfields : ∀ f ∈ m.fields, ∃ v, (f.name, v) ∈ entries ∧ r.get? f.name = some v)
    (hothers : ∀ name, (∀ f ∈ m.fields, f.name ≠ name) → r.get? name = none) :
    r = ⟨m.type, m.table, .ofList entries⟩ := by
  obtain ⟨type, table, fields⟩ := r
  cases htype
  cases htable
  congr 1
  apply SortedMap.ext_get?
  intro name
  by_cases hname : ∃ f ∈ m.fields, f.name = name
  · obtain ⟨f, hf, rfl⟩ := hname
    obtain ⟨v, hv, hget⟩ := hfields f hf
    exact hget.trans (SortedMap.get?_ofList_of_mem (hnames ▸ hnodup) hv).symm
  · have hnone : ∀ f ∈ m.fields, f.name ≠ name := fun f hf heq => hname ⟨f, hf, heq⟩
    refine (hothers name hnone).trans (SortedMap.get?_ofList_of_not_mem ?_).symm
    rw [hnames, List.mem_map]
    rintro ⟨f, hf, heq⟩
    exact hnone f hf heq

namespace VirtualNetwork

theorem switchModel_mem : switchModel ∈ models := by decide

theorem switchPortModel_mem : switchPortModel ∈ models := by decide

theorem groupModel_mem : groupModel ∈ models := by decide

theorem ruleModel_mem : ruleModel ∈ models := by decide

/-- The models of the network are regular. -/
theorem regular_of_mem {m : Model} (hm : m ∈ models) : m.Regular := by
  simp only [models, List.mem_cons, List.not_mem_nil, or_false] at hm
  rcases hm with rfl | rfl | rfl | rfl | rfl <;> exact Model.regular_ofFields (by decide) (by decide) (by decide)

namespace AccessRule

/-- A field of a rule is found in its record under its name. -/
theorem get?_toRecord (a : AccessRule) {name : String} {v : FieldValue}
    (h : (name, v) ∈ [("uuid", .text a.id), ("name", .textOption a.name), ("direction", .text a.direction),
      ("priority", .integer a.priority), ("match", .text a.packets), ("action", .text a.action), ("log", .boolean a.log),
      ("severity", .textOption a.severity), ("external_ids", .textMap a.labels)]) : a.toRecord.get? name = some v := by
  refine SortedMap.get?_ofList_of_mem ?_ h
  show ["uuid", "name", "direction", "priority", "match", "action", "log", "severity", "external_ids"].Nodup
  decide

/-- A rule that has been written and read again is the rule with the identifier of its row. -/
theorem eq_toRecord_of_settled (a : AccessRule) {id : RowId} {r : Record} (htype : r.type = ruleModel.type)
    (htable : r.table = ruleModel.table) (hfields : ∀ f ∈ ruleModel.fields, r.get? f.name = some (f.settled id a.toRecord))
    (hothers : ∀ name, (∀ f ∈ ruleModel.fields, f.name ≠ name) → r.get? name = none) :
    r = { a with id := id.text }.toRecord := by
  refine Record.eq_ofList htype htable rfl (regular_of_mem ruleModel_mem).names ?_ hothers
  intro f hf
  refine ⟨f.settled id a.toRecord, ?_, hfields f hf⟩
  simp only [ruleModel, Model.ofFields, List.mem_cons, List.not_mem_nil, or_false] at hf
  rcases hf with rfl | rfl | rfl | rfl | rfl | rfl | rfl | rfl | rfl <;>
    simp [Field.settled, Field.ofId, Field.plain, Field.mandatory, Record.text, Record.textOption, Record.integer, Record.boolean,
      Record.textMap, a.get?_toRecord]

/-- The key columns of the row of a rule. -/
theorem get?_of_encode {a : AccessRule} {row : Row} (h : ruleModel.encode a.toRecord = .ok row) :
    row.get? "direction" = some (.string a.direction) ∧ row.get? "priority" = some (.integer a.priority) ∧
      row.get? "match" = some (.string a.packets) := by
  have hfields := (Model.get?_encode (regular_of_mem ruleModel_mem).columns h).1
  have hdirection : a.toRecord.get? "direction" = some (.text a.direction) := a.get?_toRecord (by simp)
  have hpriority : a.toRecord.get? "priority" = some (.integer a.priority) := a.get?_toRecord (by simp)
  have hmatch : a.toRecord.get? "match" = some (.text a.packets) := a.get?_toRecord (by simp)
  have hvalue := hfields (.mandatory "direction" .string) (by decide)
  have hvalue' := hfields (.mandatory "priority" .integer) (by decide)
  have hvalue'' := hfields (.mandatory "match" .string) (by decide)
  simp only [Field.value, Field.mandatory, Record.text, Record.integer, hdirection, hpriority, hmatch, Except.ok.injEq]
    at hvalue hvalue' hvalue''
  exact ⟨hvalue.symm, hvalue'.symm, hvalue''.symm⟩

end AccessRule

namespace SwitchPort

theorem get?_toRecord (p : SwitchPort) {name : String} {v : FieldValue}
    (h : (name, v) ∈ [("uuid", .text p.id), ("name", .text p.name), ("addresses", .texts p.addresses),
      ("port_security", .texts p.allowedAddresses), ("tag", .integerOption p.tag), ("enabled", .booleanOption p.enabled),
      ("external_ids", .textMap p.labels)]) : p.toRecord.get? name = some v := by
  refine SortedMap.get?_ofList_of_mem ?_ h
  show ["uuid", "name", "addresses", "port_security", "tag", "enabled", "external_ids"].Nodup
  decide

/-- A port that has been written and read again is the one with the identifier of its row and with its sets sorted. -/
theorem eq_toRecord_of_settled (p : SwitchPort) {id : RowId} {r : Record} (htype : r.type = switchPortModel.type)
    (htable : r.table = switchPortModel.table)
    (hfields : ∀ f ∈ switchPortModel.fields, r.get? f.name = some (f.settled id p.toRecord))
    (hothers : ∀ name, (∀ f ∈ switchPortModel.fields, f.name ≠ name) → r.get? name = none) :
    r = { p with id := id.text
                 addresses := sortedDistinct p.addresses
                 allowedAddresses := sortedDistinct p.allowedAddresses }.toRecord := by
  refine Record.eq_ofList htype htable rfl (regular_of_mem switchPortModel_mem).names ?_ hothers
  intro f hf
  refine ⟨f.settled id p.toRecord, ?_, hfields f hf⟩
  simp only [switchPortModel, Model.ofFields, List.mem_cons, List.not_mem_nil, or_false] at hf
  rcases hf with rfl | rfl | rfl | rfl | rfl | rfl | rfl <;>
    simp [Field.settled, Field.ofId, Field.plain, Field.mandatory, Record.text, Record.texts, Record.integerOption,
      Record.booleanOption, Record.textMap, p.get?_toRecord]

end SwitchPort

/-- The columns that hold rules and ports are sets of identifiers. -/
theorem kinds_of_links {r : Replica} (h : r.Serves models) {table : String}
    (htable : table = switchModel.table ∨ table = groupModel.table) :
    (r.schema.kinds table).get? ruleColumn = some (.set .uuid) ∧
      (r.schema.kinds table).get? switchPortColumn = some (.set .uuid) := by
  rcases htable with rfl | rfl
  · rw [h.kinds switchModel_mem]
    decide
  · rw [h.kinds groupModel_mem]
    decide

/-- The name in the row of a record that has one. -/
theorem name_of_encode {m : Model} (hm : m ∈ models) {f : Field} (hf : f ∈ m.fields) (hcolumn : f.column = "name")
    (hslot : f.slot = .string) {r : Record} {row : Row} (h : m.encode r = .ok row) :
    row.get? "name" = some (.string (r.text f.name)) := by
  have hvalue := (Model.get?_encode (regular_of_mem hm).columns h).1 f hf
  simp only [Field.value, hslot, hcolumn, Except.ok.injEq] at hvalue
  exact hvalue.symm

end VirtualNetwork

/-- Every column for rules or ports holds links. -/
def Tables.HoldLinks (tables : Tables) : Prop :=
  ∀ table id row, tables.row? table id = some row →
    row.HoldsLinks VirtualNetwork.ruleColumn ∧ row.HoldsLinks VirtualNetwork.switchPortColumn

end TableReplica
