import TableReplica.Proofs.FieldForms
import TableReplica.Proofs.ReadValues
import TableReplica.Proofs.SearchedForms
import TableReplica.Proofs.TypedRecords

/-!
# Rows that decode

A row whose reals are finite, brought into form, decodes exactly when no column is at fault and no required one is absent, and the record
is written as the row, with zeros in the place of what the row lacks (`Schema.decodes_exactly`). Every row that is read of a
notification is such a row (`Wire.hasFiniteReals_of_readNotification`).
-/

namespace TableReplica

def Row.HasFiniteReals (row : Row) : Prop := ∀ column v, row.get? column = some v → v.HasFiniteReals

/-- The fields of a model are told apart by their columns and by their names, and its records start from zeros. -/
structure Model.StartsFromZeros (m : Model) : Prop where
  columns : (m.fields.map (·.column)).Nodup
  names : (m.fields.map (·.name)).Nodup
  zeros : ∀ f ∈ m.fields, m.initial.get? f.name = some f.slot.zero

/-- A row of the model must have the column. The identifier is no column, so a field that holds it requires none. -/
def Model.Requires (m : Model) (column : String) : Prop := ∃ f ∈ m.fields, f.column = column ∧ f.slot ≠ .id ∧ f.required = true

/-- The second row has the columns of the first that the model declares, zeros in the place of those that the first row lacks, and no
other columns. -/
structure Model.Completes (m : Model) (row written : Row) : Prop where
  declared : ∀ f ∈ m.fields, f.slot ≠ .id → written.get? f.column = (row.get? f.column).or f.slot.zeroColumn?
  others : ∀ column, m.columns.get? column = none → written.get? column = none

/-! ## Rows -/

/-- What is assigned to a field: something whenever the column, if it is there, is in form, and is there, if it is required. The field
is then written as the column that was read, or as its zero. -/
theorem Field.exists_assignment {f : Field} {row : Row} (id : RowId)
    (hform : ∀ kind w, f.slot.kind? = some kind → row.get? f.column = some w → kind.Holds w)
    (hpresent : f.slot ≠ .id → f.required = true → row.contains f.column = true) :
    ∃ given, f.assignment id row = .ok given ∧ (f.slot ≠ .id → ∀ r : Record, r.get? f.name = given.or (some f.slot.zero) →
      f.value r = .ok ((row.get? f.column).or f.slot.zeroColumn?)) := by
  unfold assignment
  by_cases hid : f.slot = .id
  · rw [if_pos hid]
    exact ⟨_, rfl, fun hne => absurd hid hne⟩
  · rw [if_neg hid]
    cases hcolumn : row.get? f.column with
    | none =>
      have hrequired : f.required ≠ true := by
        intro hrequired
        have hcontains := hpresent hid hrequired
        rw [SortedMap.contains, hcolumn] at hcontains
        cases hcontains
      simp only [if_neg hrequired]
      exact ⟨none, rfl, fun _ r hr => value_of_zero hr⟩
    | some w =>
      obtain ⟨kind, hkind⟩ := Slot.exists_kind hid
      obtain ⟨value, hvalue, hwritten⟩ := exists_read? hkind (hform kind w hkind hcolumn)
      simp only [hvalue]
      exact ⟨some value, rfl, fun _ r hr => hwritten r hr⟩

namespace Model

/-- When a record could be filled from a row, each of its fields could be given a value. -/
theorem exists_assignment_of_fillFields {id : RowId} {row : Row} {fields : List Field} {r r' : Record}
    (h : fillFields id row fields r = (r', none)) {f : Field} (hf : f ∈ fields) : ∃ given, f.assignment id row = .ok given := by
  induction fields generalizing r with
  | nil => cases hf
  | cons g rest ih =>
    rw [fillFields] at h
    cases hgiven : g.assignment id row with
    | error violation =>
      rw [hgiven] at h
      cases h
    | ok given =>
      rcases List.mem_cons.mp hf with rfl | hf
      · exact ⟨given, hgiven⟩
      · rw [hgiven] at h
        cases given with
        | none => exact ih h hf
        | some value => exact ih h hf

/-- A record can be written when each of its fields can. -/
theorem exists_addColumns {r : Record} {fields : List Field} (h : ∀ f ∈ fields, ∃ v?, f.value r = .ok v?) (row : Row) :
    ∃ written, addColumns r fields row = .ok written := by
  induction fields generalizing row with
  | nil => exact ⟨row, rfl⟩
  | cons f rest ih =>
    obtain ⟨hf, hrest⟩ := List.forall_mem_cons.mp h
    obtain ⟨v?, hv?⟩ := hf
    rw [addColumns, hv?]
    cases v? with
    | none => exact ih hrest row
    | some v => exact ih hrest (row.insert f.column v)

/-- A column that has a kind is the column of a field. -/
theorem exists_of_get?_columns {m : Model} {column : String} {kind : Kind} (h : m.columns.get? column = some kind) :
    ∃ f ∈ m.fields, f.column = column := by
  by_contra hnone
  have hcolumn : column ∉ (m.fields.filterMap (fun f => f.slot.kind?.map (f.column, ·))).map (·.1) := by
    intro hmem
    obtain ⟨e, he, rfl⟩ := List.mem_map.mp hmem
    obtain ⟨f, hf, hfe⟩ := List.mem_filterMap.mp he
    obtain ⟨_, -, rfl⟩ := Option.map_eq_some_iff.mp hfe
    exact hnone ⟨f, hf, rfl⟩
  rw [columns, SortedMap.get?_ofList_of_not_mem hcolumn] at h
  cases h

namespace StartsFromZeros

variable {m : Model} {row : Row}

/-- A row of which every declared column is in form and every required one is there decodes, and the record is written as the row,
completed. -/
theorem exists_decode (hm : m.StartsFromZeros)
    (hform : ∀ column kind w, m.columns.get? column = some kind → row.get? column = some w → kind.Holds w)
    (hpresent : ∀ column, m.Requires column → row.contains column = true) (id : RowId) :
    ∃ r, m.decode id row = .ok r ∧ r.type = m.type ∧ r.table = m.table ∧
      ∃ written, m.encode r = .ok written ∧ m.Completes row written := by
  have hassigned : ∀ f ∈ m.fields, ∃ given, f.assignment id row = .ok given ∧ (f.slot ≠ .id → ∀ r : Record,
      r.get? f.name = given.or (some f.slot.zero) → f.value r = .ok ((row.get? f.column).or f.slot.zeroColumn?)) := by
    intro f hf
    refine Field.exists_assignment id ?_ (fun hid hrequired => hpresent f.column ⟨f, hf, rfl, hid, hrequired⟩)
    intro kind w hkind hw
    exact hform f.column kind w ((get?_columns hm.columns hf).trans hkind) hw
  have hgiven : ∀ f ∈ m.fields, f.assignment id row = .ok ((f.assignment id row).toOption.join) := by
    intro f hf
    obtain ⟨given, hgiven, -⟩ := hassigned f hf
    rw [hgiven]
    cases given <;> rfl
  obtain ⟨r, hr, htype, htable, hfields, -⟩ := fillFields_of_assignments hm.names hgiven m.blank
  have hvalue : ∀ f ∈ m.fields, f.slot ≠ .id → f.value r = .ok ((row.get? f.column).or f.slot.zeroColumn?) := by
    intro f hf hid
    obtain ⟨given, hgiven', hwritten⟩ := hassigned f hf
    apply hwritten hid
    rw [hfields f hf, hgiven', show m.blank.get? f.name = some f.slot.zero from hm.zeros f hf]
    cases given <;> rfl
  have hid : ∀ f : Field, f.slot = .id → f.value r = .ok none := by
    intro f hslot
    simp only [Field.value, hslot]
  have hwritable : ∀ f ∈ m.fields, ∃ v?, f.value r = .ok v? := by
    intro f hf
    by_cases hslot : f.slot = .id
    · exact ⟨none, hid f hslot⟩
    · exact ⟨_, hvalue f hf hslot⟩
  obtain ⟨written, hwritten⟩ := exists_addColumns hwritable ∅
  obtain ⟨hcolumns, hothers⟩ := get?_encode hm.columns (show m.encode r = .ok written from hwritten)
  refine ⟨r, by rw [decode, fill, hr], htype, htable, written, hwritten, ?_, ?_⟩
  · intro f hf hslot
    exact Except.ok.inj ((hcolumns f hf).symm.trans (hvalue f hf hslot))
  · intro column hnone
    by_cases hcolumn : ∃ f ∈ m.fields, f.column = column
    · obtain ⟨f, hf, rfl⟩ := hcolumn
      have hslot : f.slot = .id := by
        rw [get?_columns hm.columns hf] at hnone
        cases hslot : f.slot <;> rw [hslot] at hnone <;> cases hnone
      exact Except.ok.inj ((hcolumns f hf).symm.trans (hid f hslot))
    · exact hothers column (fun f hf heq => hcolumn ⟨f, hf, heq⟩)

end StartsFromZeros

end Model

namespace Schema

variable {s : Schema} {table : String} {m : Model} {row : Row}

/-- The kinds of the columns of a table are those of its model. -/
theorem kinds_of_get? (h : s.models.get? table = some m) : s.kinds table = m.columns := by
  rw [kinds, columns?, h]
  rfl

/-- A model that is known for a table is found, and is a model of that table. -/
theorem model_of_get? (h : s.models.get? table = some m) : s.model table = .ok m ∧ m.table = table := by
  refine ⟨by rw [model, h], ?_⟩
  exact (s.valid (table, m) (SortedMap.mem_entries_iff.mpr h)).1.symm

/-- Without columns at fault, what is declared is in form. -/
theorem holds_of_normalize (hfaults : (s.normalize table row).2 = []) {column : String} {kind : Kind} {w : Value}
    (hkind : (s.kinds table).get? column = some kind) (hw : (s.normalize table row).1.get? column = some w) : kind.Holds w := by
  rw [get?_normalize] at hw
  obtain ⟨v, hv, hvw⟩ := Option.bind_eq_some_iff.mp hw
  have hfault := columnFault?_eq_none hfaults hv
  rw [columnFault?, hkind] at hfault
  rw [normalizeColumn, hkind] at hvw
  cases hnormal : v.normalize kind with
  | error violation =>
    simp only [hnormal] at hfault
    cases hfault
  | ok normal =>
    simp only [hnormal] at hvw
    exact Value.holds_of_normalize (hvw ▸ hnormal)

/-- A column at fault stays as it is, and has no form of its kind. -/
theorem exists_of_fault {e : String × Violation} (h : e ∈ (s.normalize table row).2) :
    ∃ kind v, (s.kinds table).get? e.1 = some kind ∧ row.get? e.1 = some v ∧ (s.normalize table row).1.get? e.1 = some v ∧
      ∃ violation, v.normalize kind = .error violation := by
  obtain ⟨⟨column, v⟩, he, hfault⟩ := List.mem_filterMap.mp h
  have hv : row.get? column = some v := SortedMap.mem_entries_iff.mp he
  obtain ⟨violation, hviolation, rfl⟩ := Option.map_eq_some_iff.mp hfault
  have hviolation : columnFault? (s.kinds table) column v = some violation := hviolation
  unfold columnFault? at hviolation
  cases hkind : (s.kinds table).get? column with
  | none =>
    simp only [hkind] at hviolation
    cases hviolation
  | some kind =>
    simp only [hkind] at hviolation
    cases hnormal : v.normalize kind with
    | ok normal =>
      simp only [hnormal] at hviolation
      cases hviolation
    | error violation' =>
      refine ⟨kind, v, rfl, hv, ?_, violation', hnormal⟩
      rw [get?_normalize, hv, Option.bind_some, normalizeColumn, hkind]
      simp only [hnormal]

/-- What decodes has no column at fault and every required one. -/
theorem fits_of_decode (hs : s.models.get? table = some m) (hm : m.StartsFromZeros) (hfinite : row.HasFiniteReals) {id : RowId} {r : Record}
    (h : m.decode id (s.normalize table row).1 = .ok r) :
    (s.normalize table row).2 = [] ∧ ∀ column, m.Requires column → (s.normalize table row).1.contains column = true := by
  have hassigned : ∀ f ∈ m.fields, ∃ given, f.assignment id (s.normalize table row).1 = .ok given := by
    intro f hf
    rw [Model.decode, Model.fill] at h
    split at h
    · rename_i r' hfill
      exact Model.exists_assignment_of_fillFields hfill hf
    · cases h
  constructor
  · rw [List.eq_nil_iff_forall_not_mem]
    intro e he
    obtain ⟨kind, v, hkind, hv, hraw, violation, hviolation⟩ := exists_of_fault he
    rw [kinds_of_get? hs] at hkind
    obtain ⟨f, hf, hcolumn⟩ := Model.exists_of_get?_columns hkind
    rw [← hcolumn] at hkind hraw
    rw [Model.get?_columns hm.columns hf] at hkind
    obtain ⟨given, hgiven⟩ := hassigned f hf
    have hid : f.slot ≠ .id := by
      intro hslot
      rw [hslot] at hkind
      cases hkind
    rw [Field.assignment, if_neg hid, hraw] at hgiven
    simp only [Slot.read?_eq_none hkind (hfinite e.1 v hv) hviolation] at hgiven
    cases hgiven
  · rintro column ⟨f, hf, rfl, hid, hrequired⟩
    obtain ⟨given, hgiven⟩ := hassigned f hf
    rw [Field.assignment, if_neg hid] at hgiven
    cases hcolumn : (s.normalize table row).1.get? f.column with
    | some w => rw [SortedMap.contains, hcolumn]; rfl
    | none =>
      simp only [hcolumn, hrequired, if_true] at hgiven
      cases hgiven

end Schema

/-! ## What comes over the wire -/

namespace Wire

/-- A value that was read from the wire has no real that is not finite. -/
theorem hasFiniteReals_of_inLooseForm {v : Value} (h : v.InLooseForm) : v.HasFiniteReals := by
  have hreal : ∀ {x}, (Value.real x).IsFiniteScalar → x.isFinite = true := by
    rintro x ⟨kind, hholds⟩
    exact hholds.isFinite
  intro x hx
  cases v with
  | set items => exact hreal (h.1 _ hx)
  | map entries => cases List.mem_singleton.mp hx
  | _ =>
    rw [← List.mem_singleton.mp hx] at h
    exact hreal h

/-- A row that was read from the wire has no real that is not finite. -/
theorem hasFiniteReals_of_readRow {state : Json} {row : Row} (h : readRow none state = .ok row) : row.HasFiniteReals := by
  unfold readRow at h
  intro column v hv
  split at h
  · obtain ⟨j, -, hj⟩ := SortedMap.exists_of_filterMapOk h hv
    obtain ⟨v', hloose, hsame⟩ := bind_eq_ok_iff.mp hj
    cases hsame
    exact hasFiniteReals_of_inLooseForm (inLooseForm_of_readLoose hloose)
  · cases h
    cases hv

/-- A state of a row that was read from the wire has no real that is not finite. -/
theorem hasFiniteReals_of_readState {states : Json} {name : String} {row : Row} {state : Option Row} (h : readState states name = .ok state)
    (hrow : state.bind Row.nonempty? = some row) : row.HasFiniteReals := by
  obtain ⟨row', hstate, hnonempty⟩ := Option.bind_eq_some_iff.mp hrow
  rw [Row.nonempty?] at hnonempty
  split at hnonempty
  · cases hnonempty
  · cases hnonempty
    unfold readState at h
    split at h
    · obtain ⟨row'', hread, hsame⟩ := map_eq_ok_iff.mp h
      rw [hstate] at hsame
      cases hsame
      exact hasFiniteReals_of_readRow hread
    · cases h
      cases hstate

/-- Every row that is read of a notification has finite reals. -/
theorem hasFiniteReals_of_readNotification {notification : Json} {decoded : ReadNotification}
    (h : readNotification notification = .ok decoded) {table : String} {changes : List RowChange}
    (htable : decoded.batch.tables.get? table = some changes) {change : RowChange} (hchange : change ∈ changes) {row : Row}
    (hrow : change.before = some row ∨ change.after = some row) : row.HasFiniteReals := by
  cases htables : notification.members? with
  | none =>
    rw [readNotification, htables] at h
    cases h
  | some tables =>
    rw [readNotification_eq htables] at h
    cases h
    rw [SortedMap.get?_filterMap] at htable
    obtain ⟨rows, -, hrows⟩ := Option.bind_eq_some_iff.mp htable
    obtain ⟨entries, -, rfl⟩ := Option.map_eq_some_iff.mp hrows
    obtain ⟨e, -, he⟩ := List.mem_filterMap.mp hchange
    have hread : readRowChange e.1 e.2 = .ok change := by
      cases hresult : readRowChange e.1 e.2 with
      | error violation =>
        rw [hresult] at he
        cases he
      | ok result =>
        rw [hresult] at he
        cases he
        rfl
    obtain ⟨id, -, hread⟩ := bind_eq_ok_iff.mp hread
    split at hread
    · cases hread
    · obtain ⟨before, hbefore, hread⟩ := bind_eq_ok_iff.mp hread
      obtain ⟨after, hafter, hread⟩ := bind_eq_ok_iff.mp hread
      cases hread
      rcases hrow with hrow | hrow
      · exact hasFiniteReals_of_readState hbefore hrow
      · exact hasFiniteReals_of_readState hafter hrow

end Wire

/-! ## Decoding -/

/-- A row of finite reals, brought into form, decodes exactly when no column is at fault and no required one is absent. The record is
then written as the row, completed. Every row that is read of a notification is such a row. -/
theorem Schema.decodes_exactly :
    (∀ (notification : Json) (decoded : Wire.ReadNotification), Wire.readNotification notification = .ok decoded →
      ∀ table changes, decoded.batch.tables.get? table = some changes → ∀ change ∈ changes, ∀ row,
        change.before = some row ∨ change.after = some row → row.HasFiniteReals) ∧
      ∀ (s : Schema) (table : String) (m : Model) (id : RowId) (row : Row), s.models.get? table = some m → m.StartsFromZeros →
        row.HasFiniteReals →
        ((∃ r, s.decode table id (s.normalize table row).1 = .ok r) ↔
          (s.normalize table row).2 = [] ∧ ∀ column, m.Requires column → (s.normalize table row).1.contains column = true) ∧
        ∀ r, s.decode table id (s.normalize table row).1 = .ok r →
          ∃ written, s.encode r = .ok written ∧ m.Completes (s.normalize table row).1 written := by
  refine ⟨fun _ _ h _ _ htable _ hchange _ hrow => Wire.hasFiniteReals_of_readNotification h htable hchange hrow, ?_⟩
  intro s table m id row hs hm hfinite
  obtain ⟨hmodel, htable⟩ := model_of_get? hs
  have hdecode : ∀ r, s.decode table id (s.normalize table row).1 = .ok r ↔ m.decode id (s.normalize table row).1 = .ok r := by
    intro r
    simp only [decode, hmodel]
    generalize m.decode id (s.normalize table row).1 = result
    cases result <;> simp [asError]
  have hread : (s.normalize table row).2 = [] ∧ (∀ column, m.Requires column → (s.normalize table row).1.contains column = true) →
      ∃ r, s.decode table id (s.normalize table row).1 = .ok r ∧
        ∃ written, s.encode r = .ok written ∧ m.Completes (s.normalize table row).1 written := by
    rintro ⟨hfaults, hpresent⟩
    obtain ⟨r, hr, htype, hrtable, written, hwritten, hcompletes⟩ := hm.exists_decode
      (fun column kind w hkind hw => holds_of_normalize hfaults (kinds_of_get? hs ▸ hkind) hw) hpresent id
    refine ⟨r, (hdecode r).mpr hr, written, ?_, hcompletes⟩
    rw [encode, hrtable, htable, hmodel]
    dsimp only
    rw [if_pos (show m.describes r = true from decide_eq_true htype), hwritten]
    rfl
  have hfits : ∀ r, s.decode table id (s.normalize table row).1 = .ok r → (s.normalize table row).2 = [] ∧
      ∀ column, m.Requires column → (s.normalize table row).1.contains column = true :=
    fun r hr => fits_of_decode hs hm hfinite ((hdecode r).mp hr)
  refine ⟨⟨?_, ?_⟩, ?_⟩
  · rintro ⟨r, hr⟩
    exact hfits r hr
  · intro hfit
    obtain ⟨r, hr, -⟩ := hread hfit
    exact ⟨r, hr⟩
  · intro r hr
    obtain ⟨r', hr', hwritten⟩ := hread (hfits r hr)
    rw [hr] at hr'
    cases hr'
    exact hwritten

namespace VirtualNetwork

/-- A client that knows ports only. -/
def portSchema : Schema := ⟨.singleton switchPortModel.table switchPortModel, by decide⟩

/-- A port as it may be told: the name in a set of one, the tag as a real, an address on its own. -/
def looseNotice : Json :=
  .object [("Logical_Switch_Port", .object [("1b4e28ba-2fa1-41d2-883f-0016d3cca427", .object [("new", .object [
    ("name", .array [.text "set", .array [.text "p"]]), ("tag", .real (.ofInt 7)), ("addresses", .text "a")])])])]

/-- The port as it is read of the notice. -/
def loosePort : Row := .ofList [("name", .set [.string "p"]), ("tag", .real (.ofInt 7)), ("addresses", .string "a")]

def loosePortId : RowId := ⟨"1b4e28ba-2fa1-41d2-883f-0016d3cca427", by decide +kernel⟩

/-- The port decodes, in a schema that knows ports, and is written as its row with the columns that it lacks as zeros. -/
theorem decodes_loosePort :
    ∃ r written, portSchema.decode "Logical_Switch_Port" loosePortId (portSchema.normalize "Logical_Switch_Port" loosePort).1 = .ok r ∧
      portSchema.encode r = .ok written ∧
      switchPortModel.Completes (portSchema.normalize "Logical_Switch_Port" loosePort).1 written ∧
      written.get? "port_security" = some (.set []) := by
  have hread : Wire.readNotification looseNotice =
      .ok ⟨⟨.singleton "Logical_Switch_Port" [⟨loosePortId, none, some loosePort⟩]⟩, []⟩ := by decide +kernel
  have hfinite : loosePort.HasFiniteReals :=
    Schema.decodes_exactly.1 looseNotice _ hread "Logical_Switch_Port" _ rfl _ List.mem_cons_self loosePort (Or.inr rfl)
  have hregular := regular_of_mem switchPortModel_mem
  obtain ⟨hiff, hwritten⟩ := Schema.decodes_exactly.2 portSchema "Logical_Switch_Port" switchPortModel loosePortId loosePort (by decide)
    ⟨hregular.columns, hregular.names, hregular.zeros⟩ hfinite
  have hpresent : ∀ f ∈ switchPortModel.fields, f.required = true →
      (portSchema.normalize "Logical_Switch_Port" loosePort).1.contains f.column = true := by decide +kernel
  obtain ⟨r, hr⟩ := hiff.mpr ⟨by decide +kernel, fun column ⟨f, hf, hcolumn, _, hrequired⟩ => hcolumn ▸ hpresent f hf hrequired⟩
  obtain ⟨written, hencode, hcompletes⟩ := hwritten r hr
  refine ⟨r, written, hr, hencode, hcompletes, ?_⟩
  have hsecurity := hcompletes.declared (.plain "port_security" .strings) (by decide) (by decide)
  rw [show Field.column (.plain "port_security" .strings) = "port_security" from rfl] at hsecurity
  rw [hsecurity, show (portSchema.normalize "Logical_Switch_Port" loosePort).1.get? "port_security" = none by decide +kernel]
  rfl

end VirtualNetwork

end TableReplica
