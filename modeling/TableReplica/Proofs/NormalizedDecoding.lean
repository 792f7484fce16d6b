import TableReplica.Proofs.DecodableRows

/-!
# Rows decoded as they come and in form

Values are converted by the slot of their field when a row is decoded, and by the kind of their column when the row is brought into
form. A value that can be read settles its form: it is the value that is written of what was read, with sets sorted
(`Value.normalize_of_readOptional?`, `Value.normalize_of_readSet?`). So what is read of the form is what was read of the value, with the
sets in the record sorted (`Slot.reads_of_read?`), and a row that decodes also decodes in form, to the same record with its sets sorted
(`Schema.decodes_alike_in_form`).
-/

namespace TableReplica

/-- A field value with a set sorted, each of its members once. -/
def FieldValue.tidy : FieldValue → FieldValue
  | .texts items => .texts (sortedDistinct items)
  | .integers items => .integers (sortedDistinct items)
  | value => value

/-- A record with all its sets sorted. -/
def Record.tidy (r : Record) : Record := { r with fields := r.fields.map fun _ value => value.tidy }

/-- What becomes of a column from which a value is read, when the column is brought into form: the form is read as the tidy value, or the
column is absent in form and the value is what a field holds without its column, or there is no form and the column stays, and the value
is tidy. -/
inductive Slot.Reads (slot : Slot) (value : FieldValue) : Except Violation (Option Value) → Prop where
  | formed {w : Value} (read : slot.read? w = some value.tidy) : Reads slot value (.ok (some w))
  | absent (may : slot.mayBeAbsent = true) (zero : value = slot.zero) : Reads slot value (.ok none)
  | kept {violation : Violation} (same : value.tidy = value) : Reads slot value (.error violation)

/-- A field of a tidy record is the field, tidied. -/
theorem Record.get?_tidy (r : Record) (name : String) : r.tidy.get? name = (r.get? name).map FieldValue.tidy :=
  SortedMap.get?_map _ r.fields name

/-- The zero of a slot is tidy. -/
theorem Slot.tidy_zero (slot : Slot) : slot.zero.tidy = slot.zero := by
  cases slot <;> first | rfl | exact congrArg _ List.mergeSort_nil

/-! ## Values -/

namespace Value

variable {α : Type} {read : Value → Option α} {make : α → Value} {base : BaseKind} {v : Value}

/-- A scalar column has the form of the scalar that it stands for. -/
theorem normalize_scalar_eq (base : BaseKind) (v : Value) :
    v.normalize (.scalar base) =
      match v.single? with
      | none => .error (.malformed .severalForScalar)
      | some none => .ok none
      | some (some item) => (normalizeBase base item).map some := by
  cases v with
  | set items =>
    match items with
    | [] => rfl
    | [_] => rfl
    | _ :: _ :: _ => rfl
  | _ => rfl

/-- A scalar that may be absent is read of the scalar that its column stands for, if it stands for one. -/
theorem readOptional?_eq_some_iff {a? : Option α} : v.readOptional? read = some a? ↔
    (v.single? = some none ∧ a? = none) ∨ ∃ item a, v.single? = some (some item) ∧ read item = some a ∧ a? = some a := by
  rw [readOptional?]
  cases v.single? with
  | none => simp
  | some item? =>
    cases item? with
    | none => simp [eq_comm]
    | some item => simp [Option.map_eq_some_iff, eq_comm]

/-- A scalar that must be there is read of the scalar that its column stands for. -/
theorem readScalar?_eq_some_iff {a : α} : v.readScalar? read = some a ↔ ∃ item, v.single? = some (some item) ∧ read item = some a := by
  rw [readScalar?, Option.join_eq_some_iff, readOptional?_eq_some_iff]
  simp

/-- The form of a scalar that is read and may be absent is what is written of it. -/
theorem normalize_of_readOptional? (hform : ∀ item a, read item = some a → normalizeBase base item = .ok (make a)) {a? : Option α}
    (h : v.readOptional? read = some a?) : v.normalize (.scalar base) = .ok (a?.map make) := by
  rw [normalize_scalar_eq]
  rcases readOptional?_eq_some_iff.mp h with ⟨hsingle, rfl⟩ | ⟨item, a, hsingle, hread, rfl⟩
  · rw [hsingle]
    rfl
  · simp only [hsingle, hform item a hread]
    rfl

/-- The form of a set that is read is the set of what is written of its members. -/
theorem normalize_of_readSet? (hform : ∀ item a, read item = some a → normalizeBase base item = .ok (make a)) {results : List α}
    (h : v.readSet? read = some results) : v.normalize (.set base) = .ok (some (ofList (results.map make))) := by
  rw [normalize, mapM_eq_ok_of_mapM_eq_some hform h]
  rfl

/-- What is read as a text has a form, and that is the text. -/
theorem normalizeBase_of_text? {item : Value} {s : String} (h : item.text? = some s) : normalizeBase .string item = .ok (.string s) := by
  cases text?_eq_some_iff.mp h
  rfl

theorem normalizeBase_of_integerOf? {item : Value} {n : Int64} (h : item.integerOf? = some n) :
    normalizeBase .integer item = .ok (.integer n) := by
  cases item with
  | integer m =>
    cases h
    rfl
  | real x =>
    rw [normalizeBase, Except.toOption_eq_some_iff.mp h]
    rfl
  | _ => cases h

theorem normalizeBase_of_boolean? {item : Value} {b : Bool} (h : item.boolean? = some b) :
    normalizeBase .boolean item = .ok (.boolean b) := by
  cases item with
  | boolean b' =>
    cases h
    rfl
  | _ => cases h

theorem normalizeBase_of_rowId? {item : Value} {id : RowId} (h : item.rowId? = some id) :
    normalizeBase .uuid item = .ok (.uuid id) := by
  cases rowId?_eq_some_iff.mp h
  rfl

/-- A real that is read has no other form than itself; it has none when it is not finite. -/
theorem normalizeBase_of_realOf? {item : Value} {x : Binary64} (h : item.realOf? = some x) :
    normalizeBase .real item = .ok (.real x) ∨ ∃ violation, normalizeBase .real item = .error violation := by
  cases item with
  | integer n =>
    cases h
    exact Or.inl rfl
  | real y =>
    cases h
    rw [normalizeBase]
    split
    · exact Or.inl rfl
    · exact Or.inr ⟨_, rfl⟩
  | _ => cases h

/-- What is read as a map has a form, and that is the map. -/
theorem normalize_of_readMap? {entries : SortedMap String String} (h : v.readMap? = some entries) :
    v.normalize .map = .ok (some (.map entries)) := by
  cases v with
  | map entries' =>
    cases h
    rfl
  | set items =>
    cases items with
    | nil =>
      cases h
      rfl
    | cons item rest => cases h
  | _ => cases h

/-- The identifier whose text is read of a scalar that may be absent. -/
theorem exists_rowId_of_readOptional? {s? : Option String} (h : v.readOptional? idText? = some s?) :
    ∃ id?, v.readOptional? rowId? = some id? ∧ id?.map RowId.text = s? := by
  rcases readOptional?_eq_some_iff.mp h with ⟨hsingle, rfl⟩ | ⟨item, s, hsingle, hread, rfl⟩
  · exact ⟨none, readOptional?_eq_some_iff.mpr (Or.inl ⟨hsingle, rfl⟩), rfl⟩
  · obtain ⟨id, hid, rfl⟩ := Option.map_eq_some_iff.mp hread
    exact ⟨some id, readOptional?_eq_some_iff.mpr (Or.inr ⟨item, id, hsingle, hid, rfl⟩), rfl⟩

/-- The identifiers whose texts are read of a set. -/
theorem exists_rowIds_of_readSet? {texts : List String} (h : v.readSet? idText? = some texts) :
    ∃ ids, v.readSet? rowId? = some ids ∧ ids.map RowId.text = texts := by
  have hsome : ∀ item ∈ v.members, ∃ id, item.rowId? = some id := by
    intro item hitem
    have hmem := List.mem_map_of_mem (f := idText?) hitem
    rw [mapM_eq_some_iff.mp h] at hmem
    obtain ⟨s, -, hs⟩ := List.mem_map.mp hmem
    obtain ⟨id, hid, -⟩ := Option.map_eq_some_iff.mp hs.symm
    exact ⟨id, hid⟩
  obtain ⟨ids, hids⟩ := exists_mapM_eq_some hsome
  refine ⟨ids, hids, ?_⟩
  have hread := congrArg (List.map (Option.map RowId.text)) (mapM_eq_some_iff.mp hids)
  rw [List.map_map, List.map_map] at hread
  have htexts : (ids.map RowId.text).map some = texts.map some := by
    rw [← mapM_eq_some_iff.mp h, List.map_map]
    exact hread.symm
  exact List.map_injective_iff.mpr (Option.some_injective String) htexts

end Value

/-! ## Columns -/

namespace Slot

variable {slot : Slot} {v : Value} {value : FieldValue}

section Forms

variable {α : Type} {read : Value → Option α} {make : α → Value} {base : BaseKind}

/-- A scalar that must be there is read of its form. -/
theorem reads_of_readScalar? (hform : ∀ item a, read item = some a → Value.normalizeBase base item = .ok (make a)) {a : α}
    (h : v.readScalar? read = some a) (hread : slot.read? (make a) = some value.tidy) :
    slot.Reads value (v.normalize (.scalar base)) := by
  have hoptional : v.readOptional? read = some (some a) := Option.join_eq_some_iff.mp h
  rw [Value.normalize_of_readOptional? hform hoptional]
  exact .formed hread

/-- A scalar that may be absent is read of its form, or is absent in form. -/
theorem reads_of_readOptional? (hform : ∀ item a, read item = some a → Value.normalizeBase base item = .ok (make a)) {a? : Option α}
    (h : v.readOptional? read = some a?) (hmay : slot.mayBeAbsent = true) (hnone : a? = none → value = slot.zero)
    (hread : ∀ a, a? = some a → slot.read? (make a) = some value.tidy) : slot.Reads value (v.normalize (.optional base)) := by
  rw [show v.normalize (.optional base) = v.normalize (.scalar base) from rfl, Value.normalize_of_readOptional? hform h]
  cases a? with
  | none => exact .absent hmay (hnone rfl)
  | some a => exact .formed (hread a rfl)

/-- A set is read of its form. -/
theorem reads_of_readSet? (hform : ∀ item a, read item = some a → Value.normalizeBase base item = .ok (make a)) {results : List α}
    (h : v.readSet? read = some results) (hread : slot.read? (.ofList (results.map make)) = some value.tidy) :
    slot.Reads value (v.normalize (.set base)) := by
  rw [Value.normalize_of_readSet? hform h]
  exact .formed hread

end Forms

/-- What is read of a column is read of its form, up to the order and the repeats of the members of sets. A real that
is not finite is read although it has no form. -/
theorem reads_of_read? {kind : Kind} (hkind : slot.kind? = some kind) (h : slot.read? v = some value) :
    slot.Reads value (v.normalize kind) := by
  cases slot <;> cases hkind <;> obtain ⟨a, ha, rfl⟩ := Option.map_eq_some_iff.mp h
  case string => exact reads_of_readScalar? (fun _ _ => Value.normalizeBase_of_text?) ha rfl
  case integer => exact reads_of_readScalar? (fun _ _ => Value.normalizeBase_of_integerOf?) ha rfl
  case boolean => exact reads_of_readScalar? (fun _ _ => Value.normalizeBase_of_boolean?) ha rfl
  case real =>
    obtain ⟨item, hsingle, hitem⟩ := Value.readScalar?_eq_some_iff.mp ha
    rw [Value.normalize_scalar_eq, hsingle]
    rcases Value.normalizeBase_of_realOf? hitem with hfinite | ⟨violation, hnotFinite⟩
    · simp only [hfinite]
      exact .formed rfl
    · simp only [hnotFinite]
      exact .kept rfl
  case stringOption =>
    refine reads_of_readOptional? (fun _ _ => Value.normalizeBase_of_text?) ha rfl (congrArg _) fun s hs => ?_
    rw [hs]
    rfl
  case integerOption =>
    refine reads_of_readOptional? (fun _ _ => Value.normalizeBase_of_integerOf?) ha rfl (congrArg _) fun n hn => ?_
    rw [hn]
    rfl
  case booleanOption =>
    refine reads_of_readOptional? (fun _ _ => Value.normalizeBase_of_boolean?) ha rfl (congrArg _) fun b hb => ?_
    rw [hb]
    rfl
  case reference =>
    obtain ⟨id?, hid, rfl⟩ := Value.exists_rowId_of_readOptional? ha
    refine reads_of_readOptional? (fun _ _ => Value.normalizeBase_of_rowId?) hid rfl ?_ fun id hid => ?_
    · rintro rfl
      rfl
    · rw [hid]
      rfl
  case references =>
    obtain ⟨ids, hids, rfl⟩ := Value.exists_rowIds_of_readSet? ha
    refine reads_of_readSet? (fun _ _ => Value.normalizeBase_of_rowId?) hids ?_
    exact congrArg (Option.map FieldValue.texts) (Value.mapM_idText?_canonicalItems ids)
  case strings =>
    refine reads_of_readSet? (fun _ _ => Value.normalizeBase_of_text?) ha ?_
    exact congrArg (Option.map FieldValue.texts) (Value.mapM_text?_canonicalItems a)
  case integers =>
    refine reads_of_readSet? (fun _ _ => Value.normalizeBase_of_integerOf?) ha ?_
    exact congrArg (Option.map FieldValue.integers) (Value.mapM_integerOf?_canonicalItems a)
  case map =>
    rw [Value.normalize_of_readMap? ha]
    exact .formed rfl

end Slot

/-! ## Fields -/

namespace Field

variable {f : Field} {id : RowId} {row form : Row} {given : Option FieldValue}

/-- A field is given nothing where the row lacks a column that it may lack, and otherwise what is read of the column. -/
theorem assignment_eq_ok_iff (hid : f.slot ≠ .id) : f.assignment id row = .ok given ↔
    (row.get? f.column = none ∧ f.required = false ∧ given = none) ∨
      ∃ v value, row.get? f.column = some v ∧ f.slot.read? v = some value ∧ given = some value := by
  rw [assignment, if_neg hid]
  cases row.get? f.column with
  | none => cases f.required <;> simp [eq_comm]
  | some v =>
    cases hread : f.slot.read? v with
    | none => simp [hread]
    | some value =>
      simp only [Except.ok.injEq, reduceCtorEq, false_and, false_or, Option.some.injEq, exists_and_left, exists_eq_left', hread]
      exact eq_comm

/-- A field that can be assigned from a row can be assigned from the row in form, and then holds the same up to sorting. -/
theorem exists_assignment_of_form {kinds : Kinds} (hkind : kinds.get? f.column = f.slot.kind?)
    (hform : form.get? f.column = (row.get? f.column).bind (Schema.normalizeColumn kinds f.column))
    (hpresent : f.required = true → f.slot.mayBeAbsent = false) (h : f.assignment id row = .ok given) :
    ∃ given', f.assignment id form = .ok given' ∧ given'.or (some f.slot.zero) = (given.or (some f.slot.zero)).map FieldValue.tidy := by
  have hzero : some f.slot.zero = (some f.slot.zero).map FieldValue.tidy := congrArg some f.slot.tidy_zero.symm
  by_cases hid : f.slot = .id
  · rw [assignment, if_pos hid] at h ⊢
    cases h
    exact ⟨_, rfl, rfl⟩
  · rcases (assignment_eq_ok_iff hid).mp h with ⟨hcolumn, hrequired, rfl⟩ | ⟨v, value, hcolumn, hread, rfl⟩
    · rw [hcolumn, Option.bind_none] at hform
      exact ⟨none, (assignment_eq_ok_iff hid).mpr (Or.inl ⟨hform, hrequired, rfl⟩), hzero⟩
    · obtain ⟨kind, hslot⟩ := Slot.exists_kind hid
      simp only [hcolumn, Option.bind_some, Schema.normalizeColumn, hkind, hslot] at hform
      have hreads := Slot.reads_of_read? hslot hread
      generalize v.normalize kind = normal at hreads hform
      cases hreads with
      | formed hw => exact ⟨_, (assignment_eq_ok_iff hid).mpr (Or.inr ⟨_, _, hform, hw, rfl⟩), rfl⟩
      | absent hmay hvalue =>
        have hrequired : f.required = false := by
          rw [Bool.eq_false_iff]
          intro hrequired
          rw [hpresent hrequired] at hmay
          cases hmay
        exact ⟨none, (assignment_eq_ok_iff hid).mpr (Or.inl ⟨hform, hrequired, rfl⟩), hvalue ▸ hzero⟩
      | kept hsame => exact ⟨_, (assignment_eq_ok_iff hid).mpr (Or.inr ⟨v, value, hform, hread, rfl⟩), congrArg some hsame.symm⟩

end Field

/-! ## Rows -/

/-- The fields of a model are told apart by their columns and by their names, nothing in its records is set before anything is read, and
no field that may be absent is required. -/
structure Model.StartsBlank (m : Model) : Prop extends m.StartsFromZeros where
  blank : ∀ name value, m.initial.get? name = some value → ∃ slot : Slot, value = slot.zero
  present : ∀ f ∈ m.fields, f.required = true → f.slot.mayBeAbsent = false

/-- A regular model starts blank. -/
theorem Model.Regular.startsBlank {m : Model} (hm : m.Regular) : m.StartsBlank where
  columns := hm.columns
  names := hm.names
  zeros := hm.zeros
  blank := by
    intro name value hvalue
    by_cases hname : ∃ f ∈ m.fields, f.name = name
    · obtain ⟨f, hf, rfl⟩ := hname
      rw [hm.zeros f hf] at hvalue
      exact ⟨f.slot, (Option.some.inj hvalue).symm⟩
    · rw [hm.others name fun f hf heq => hname ⟨f, hf, heq⟩] at hvalue
      cases hvalue
  present := hm.present

namespace Model

variable {m : Model} {id : RowId} {row : Row} {r : Record}

/-- A record that is read has in each field what was assigned to it, or what it had. -/
theorem of_decode (hnames : (m.fields.map (·.name)).Nodup) (h : m.decode id row = .ok r) :
    r.type = m.type ∧ r.table = m.table ∧
      (∀ f ∈ m.fields, ∃ given, f.assignment id row = .ok given ∧ r.get? f.name = given.or (m.initial.get? f.name)) ∧
      ∀ name, (∀ f ∈ m.fields, f.name ≠ name) → r.get? name = m.initial.get? name := by
  have hfill : m.fill id row m.blank = (r, none) := by
    rw [decode] at h
    split at h
    · rename_i hfill
      cases h
      exact hfill
    · cases h
  have hgiven : ∀ f ∈ m.fields, f.assignment id row = .ok ((f.assignment id row).toOption.join) := by
    intro f hf
    obtain ⟨given, hgiven⟩ := exists_assignment_of_fillFields hfill hf
    rw [hgiven]
    cases given <;> rfl
  obtain ⟨r', hr', htype, htable, hfields, hothers⟩ := fillFields_of_assignments hnames hgiven m.blank
  cases hfill.symm.trans hr'
  exact ⟨htype, htable, fun f hf => ⟨_, hgiven f hf, hfields f hf⟩, hothers⟩

/-- A row from which every field can be assigned decodes. -/
theorem exists_decode_of_assignments (h : ∀ f ∈ m.fields, ∃ given, f.assignment id row = .ok given) : ∃ r, m.decode id row = .ok r := by
  have hfill : ∀ (fields : List Field) (r : Record), (∀ f ∈ fields, ∃ given, f.assignment id row = .ok given) →
      ∃ r', fillFields id row fields r = (r', none) := by
    intro fields
    induction fields with
    | nil => exact fun r _ => ⟨r, rfl⟩
    | cons f rest ih =>
      intro r hall
      obtain ⟨⟨given, hgiven⟩, hrest⟩ := List.forall_mem_cons.mp hall
      rw [fillFields, hgiven]
      cases given with
      | none => exact ih r hrest
      | some value => exact ih (r.set f.name value) hrest
  obtain ⟨r, hr⟩ := hfill m.fields m.blank h
  exact ⟨r, by rw [decode, fill, hr]⟩

end Model

/-- A row that decodes as it comes decodes in form, to the same record with its sets sorted. -/
theorem Schema.decodes_alike_in_form (s : Schema) (table : String) (m : Model) (hs : s.models.get? table = some m) (hm : m.StartsBlank)
    (id : RowId) (row : Row) (r : Record) (h : m.decode id row = .ok r) : m.decode id (s.normalize table row).1 = .ok r.tidy := by
  obtain ⟨htype, htable, hfields, hothers⟩ := Model.of_decode hm.names h
  have hassigned : ∀ f ∈ m.fields, ∀ given, f.assignment id row = .ok given →
      ∃ given', f.assignment id (s.normalize table row).1 = .ok given' ∧
        given'.or (some f.slot.zero) = (given.or (some f.slot.zero)).map FieldValue.tidy := by
    intro f hf given hgiven
    have hkind : (s.kinds table).get? f.column = f.slot.kind? := by
      rw [kinds_of_get? hs, Model.get?_columns hm.columns hf]
    exact Field.exists_assignment_of_form hkind (s.get?_normalize table row f.column) (hm.present f hf) hgiven
  obtain ⟨r', hr'⟩ : ∃ r', m.decode id (s.normalize table row).1 = .ok r' := by
    refine Model.exists_decode_of_assignments fun f hf => ?_
    obtain ⟨given, hgiven, -⟩ := hfields f hf
    obtain ⟨given', hgiven', -⟩ := hassigned f hf given hgiven
    exact ⟨given', hgiven'⟩
  obtain ⟨htype', htable', hfields', hothers'⟩ := Model.of_decode hm.names hr'
  have hsame : r'.fields = r.tidy.fields := by
    apply SortedMap.ext_get?
    intro name
    show r'.get? name = r.tidy.get? name
    rw [Record.get?_tidy]
    by_cases hname : ∃ f ∈ m.fields, f.name = name
    · obtain ⟨f, hf, rfl⟩ := hname
      obtain ⟨given, hgiven, hget⟩ := hfields f hf
      obtain ⟨given', hgiven', hget'⟩ := hfields' f hf
      obtain ⟨given'', hgiven'', htidy⟩ := hassigned f hf given hgiven
      cases hgiven'.symm.trans hgiven''
      rw [hget, hget', hm.zeros f hf, htidy]
    · have hnone : ∀ f ∈ m.fields, f.name ≠ name := fun f hf heq => hname ⟨f, hf, heq⟩
      rw [hothers name hnone, hothers' name hnone]
      cases hinitial : m.initial.get? name with
      | none => rfl
      | some value =>
        obtain ⟨slot, rfl⟩ := hm.blank name value hinitial
        exact congrArg some slot.tidy_zero.symm
  have htidy : r' = r.tidy := Record.eq_of_fields (htype'.trans htype.symm) (htable'.trans htable.symm) hsame
  rw [hr', htidy]

/-- A port with its tag as a real, and with addresses out of order, as it may come. -/
def VirtualNetwork.loosePorts : Row :=
  .ofList [("name", .set [.string "p"]), ("tag", .real (.ofInt 7)), ("enabled", .set []),
    ("addresses", .set [.string "b", .string "a", .string "b"])]

/-- The port decodes as it comes, and in form to the same record with its addresses sorted. -/
theorem VirtualNetwork.decodes_alike_loosePorts :
    ∃ r, switchPortModel.decode loosePortId loosePorts = .ok r ∧ r.get? "addresses" = some (.texts ["b", "a", "b"]) ∧
      switchPortModel.decode loosePortId (portSchema.normalize "Logical_Switch_Port" loosePorts).1 = .ok r.tidy := by
  have hread : (switchPortModel.decode loosePortId loosePorts).map (·.get? "addresses") = .ok (some (.texts ["b", "a", "b"])) := by
    decide +kernel
  obtain ⟨r, hr, haddresses⟩ := map_eq_ok_iff.mp hread
  exact ⟨r, hr, haddresses, Schema.decodes_alike_in_form portSchema "Logical_Switch_Port" switchPortModel (by decide)
    (regular_of_mem switchPortModel_mem).startsBlank loosePortId loosePorts r hr⟩

end TableReplica
