import TableReplica.Proofs.ComingsAndGoings
import TableReplica.Proofs.KnownModels
import TableReplica.Proofs.Lifetimes
import TableReplica.Proofs.NormalizedDecoding

/-!
# Records that are written back

Whatever a client hands out as a record was decoded from a row that some batch told of (`Client.HandsOut.exists_decode`). Its references
are texts of identifiers, and the one thing that can keep it from being written back is a real that is not finite
(`Client.written_back_when_finite`): a column that holds such a number has no form of its kind, so it is stored as it came, and a field of
reals takes every real. No notification tells of such a number.
-/

namespace TableReplica

/-! ## Fields -/

namespace Field

variable {f : Field} {r r' : Record}

/-- The references that the field holds are texts of identifiers. -/
def HoldsIdentifiers (f : Field) (r : Record) : Prop :=
  match f.slot with
  | .reference => ∀ text ∈ r.textOption f.name, ∃ id, RowId.parse text = .ok id
  | .references => ∀ text ∈ r.texts f.name, ∃ id, RowId.parse text = .ok id
  | _ => True

/-- A real field is written exactly when it is finite. -/
theorem value_of_real (hslot : f.slot = .real) : f.value r =
    if (r.real f.name).isFinite then .ok (some (.real (r.real f.name))) else .error (.nonFinite (.column f.column)) := by
  rw [value, hslot]

/-- What is written of a field depends on what the field holds. -/
theorem value_congr (h : r.get? f.name = r'.get? f.name) : f.value r = f.value r' := by
  cases hslot : f.slot with
  | real =>
    have hreal : r.real f.name = r'.real f.name := by simp only [Record.real, h]
    rw [value_of_real hslot, value_of_real hslot, hreal]
  | _ =>
    simp only [value, hslot, Record.text, Record.textOption, Record.integer, Record.integerOption, Record.boolean, Record.booleanOption,
      Record.texts, Record.integers, Record.textMap, h]

/-- Whether a field holds identifiers depends on that field of the record alone. -/
theorem holdsIdentifiers_congr (h : r.get? f.name = r'.get? f.name) : f.HoldsIdentifiers r ↔ f.HoldsIdentifiers r' := by
  cases hslot : f.slot <;> simp only [HoldsIdentifiers, hslot, Record.textOption, Record.texts, h]

/-- A field that holds no real is written when its references are identifiers. -/
theorem exists_value_iff (hslot : f.slot ≠ .real) : (∃ v?, f.value r = .ok v?) ↔ f.HoldsIdentifiers r := by
  cases hslot' : f.slot with
  | real => exact absurd hslot' hslot
  | reference =>
    simp only [value, HoldsIdentifiers, hslot']
    cases r.textOption f.name with
    | none => simp
    | some text => simp [map_eq_ok_iff]
  | references =>
    simp only [value, HoldsIdentifiers, hslot', map_eq_ok_iff]
    constructor
    · rintro ⟨_, ids, hids, -⟩ text htext
      have hmem := List.mem_map_of_mem (f := RowId.parse) htext
      rw [mapM_eq_ok_iff.mp hids] at hmem
      obtain ⟨id, -, hid⟩ := List.mem_map.mp hmem
      exact ⟨id, hid.symm⟩
    · intro h
      obtain ⟨ids, hids⟩ := exists_mapM_eq_ok h
      exact ⟨_, ids, hids, rfl⟩
  | _ => simp [value, HoldsIdentifiers, hslot']

/-- What is read of a column of references are texts of identifiers. -/
theorem holdsIdentifiers_of_read? {v : Value} {value : FieldValue} (hread : f.slot.read? v = some value)
    (h : r.get? f.name = some value) : f.HoldsIdentifiers r := by
  cases hslot : f.slot with
  | reference =>
    rw [hslot] at hread
    obtain ⟨text?, htext, rfl⟩ := Option.map_eq_some_iff.mp hread
    obtain ⟨id?, -, rfl⟩ := Value.exists_rowId_of_readOptional? htext
    simp only [HoldsIdentifiers, hslot, Record.textOption, h]
    rintro _ htext
    obtain ⟨id, -, rfl⟩ := Option.map_eq_some_iff.mp htext
    exact ⟨id, RowId.parse_text id⟩
  | references =>
    rw [hslot] at hread
    obtain ⟨texts, htexts, rfl⟩ := Option.map_eq_some_iff.mp hread
    obtain ⟨ids, -, rfl⟩ := Value.exists_rowIds_of_readSet? htexts
    simp only [HoldsIdentifiers, hslot, Record.texts, h]
    rintro _ htext
    obtain ⟨id, -, rfl⟩ := List.mem_map.mp htext
    exact ⟨id, RowId.parse_text id⟩
  | _ => simp [HoldsIdentifiers, hslot]

end Field

/-- The value is the real, on its own or as the only member of a set. -/
def Value.IsReal (v : Value) (x : Binary64) : Prop := v = .real x ∨ v = .set [.real x]

theorem Value.IsReal.mem_members {v : Value} {x : Binary64} (h : v.IsReal x) : .real x ∈ v.members := by
  rcases h with rfl | rfl <;> simp [members]

/-- A real that is not finite is read only of a column that holds it. -/
theorem Value.isReal_of_realOf? {v : Value} {x : Binary64} (hread : v.readScalar? realOf? = some x) (hx : x.isFinite = false) :
    v.IsReal x := by
  obtain ⟨item, hsingle, hitem⟩ := readScalar?_eq_some_iff.mp hread
  have hreal : item = .real x := by
    cases item with
    | real y =>
      cases hitem
      rfl
    | integer n =>
      cases hitem
      rw [Binary64.isFinite_ofInt] at hx
      cases hx
    | _ => cases hitem
  subst hreal
  cases v with
  | set items =>
    match items with
    | [_] =>
      cases hsingle
      exact Or.inr rfl
  | real y =>
    cases hsingle
    exact Or.inl rfl
  | _ => cases hsingle

/-! ## Records -/

namespace Model

variable {m : Model} {fields : List Field} {r : Record} {row : Row}

/-- When a record was written, each of its fields could be. -/
theorem exists_value_of_addColumns {written : Row} (h : addColumns r fields row = .ok written) :
    ∀ f ∈ fields, ∃ v?, f.value r = .ok v? := by
  induction fields generalizing row with
  | nil => simp
  | cons f rest ih =>
    rw [addColumns] at h
    cases hv : f.value r with
    | error e => simp [hv] at h
    | ok v? =>
      cases v? with
      | none => exact List.forall_mem_cons.mpr ⟨⟨none, hv⟩, ih (by simpa [hv] using h)⟩
      | some v => exact List.forall_mem_cons.mpr ⟨⟨some v, hv⟩, ih (by simpa [hv] using h)⟩

/-- When a record could not be written, one of its fields could not be. -/
theorem exists_of_addColumns_error {violation : Violation} (h : addColumns r fields row = .error violation) :
    ∃ f ∈ fields, f.value r = .error violation := by
  induction fields generalizing row with
  | nil => cases h
  | cons f rest ih =>
    rw [addColumns] at h
    cases hv : f.value r with
    | error e =>
      simp only [hv] at h
      cases h
      exact ⟨f, List.mem_cons_self, hv⟩
    | ok v? =>
      obtain ⟨g, hg, hgv⟩ : ∃ g ∈ rest, g.value r = .error violation := by
        cases v? <;> exact ih (by simpa [hv] using h)
      exact ⟨g, List.mem_cons_of_mem f hg, hgv⟩

/-- Each field of the model is a field of its records on its own, and a record of which nothing has been read is written. -/
structure WritesBlank (m : Model) : Prop where
  names : (m.fields.map (·.name)).Nodup
  blank : ∃ row, m.encode m.blank = .ok row

/-- A record of zeros is written. -/
theorem StartsFromZeros.writesBlank (hm : m.StartsFromZeros) : m.WritesBlank where
  names := hm.names
  blank := by
    refine exists_addColumns (fun f hf => ?_) ∅
    have hzero : m.blank.get? f.name = some f.slot.zero := hm.zeros f hf
    exact ⟨f.slot.zeroColumn?, Field.value_of_zero hzero⟩

namespace WritesBlank

variable {id : RowId} {f : Field}

/-- Each field of a decoded record holds what was read of its column, or what it held before. -/
theorem cases_of_decode (hm : m.WritesBlank) (h : m.decode id row = .ok r) (hf : f ∈ m.fields) (hslot : f.slot ≠ .id) :
    r.get? f.name = m.blank.get? f.name ∨
      ∃ v value, row.get? f.column = some v ∧ f.slot.read? v = some value ∧ r.get? f.name = some value := by
  obtain ⟨-, -, hfields, -⟩ := of_decode hm.names h
  obtain ⟨given, hgiven, hget⟩ := hfields f hf
  rcases (Field.assignment_eq_ok_iff hslot).mp hgiven with ⟨-, -, rfl⟩ | ⟨v, value, hv, hread, rfl⟩
  · exact Or.inl hget
  · exact Or.inr ⟨v, value, hv, hread, hget⟩

/-- The fields of a record that was read hold identifiers where they should. -/
theorem holdsIdentifiers (hm : m.WritesBlank) (h : m.decode id row = .ok r) (hf : f ∈ m.fields) : f.HoldsIdentifiers r := by
  by_cases hid : f.slot = .id
  · simp [Field.HoldsIdentifiers, hid]
  · rcases hm.cases_of_decode h hf hid with hget | ⟨v, value, -, hread, hget⟩
    · by_cases hreal : f.slot = .real
      · simp [Field.HoldsIdentifiers, hreal]
      · obtain ⟨written, hwritten⟩ := hm.blank
        rw [Field.holdsIdentifiers_congr hget, ← Field.exists_value_iff hreal]
        exact exists_value_of_addColumns hwritten f hf
    · exact Field.holdsIdentifiers_of_read? hread hget

/-- A real of a decoded record that is not finite stands in the row. -/
theorem exists_isReal (hm : m.WritesBlank) (h : m.decode id row = .ok r) (hf : f ∈ m.fields) (hslot : f.slot = .real)
    (hx : (r.real f.name).isFinite = false) : ∃ v, row.get? f.column = some v ∧ v.IsReal (r.real f.name) := by
  have hid : f.slot ≠ .id := by simp [hslot]
  rcases hm.cases_of_decode h hf hid with hget | ⟨v, value, hv, hread, hget⟩
  · obtain ⟨written, hwritten⟩ := hm.blank
    obtain ⟨v?, hvalue⟩ := exists_value_of_addColumns hwritten f hf
    rw [← Field.value_congr hget, Field.value_of_real hslot, hx] at hvalue
    cases hvalue
  · rw [hslot] at hread
    obtain ⟨x, hx', rfl⟩ := Option.map_eq_some_iff.mp hread
    have hreal : r.real f.name = x := by simp [Record.real, hget]
    rw [hreal] at hx ⊢
    exact ⟨v, hv, Value.isReal_of_realOf? hx' hx⟩

/-- A decoded record is written exactly when its reals are finite, and the first that is not is what is wrong with it. -/
theorem exists_encode_iff (hm : m.WritesBlank) (h : m.decode id row = .ok r) :
    ((∃ written, m.encode r = .ok written) ↔ ∀ f ∈ m.fields, f.slot = .real → (r.real f.name).isFinite = true) ∧
      ∀ violation, m.encode r = .error violation →
        ∃ f ∈ m.fields, f.slot = .real ∧ (r.real f.name).isFinite = false ∧ violation = .nonFinite (.column f.column) := by
  have hvalue : ∀ f ∈ m.fields, f.slot ≠ .real → ∃ v?, f.value r = .ok v? := by
    intro f hf hslot
    exact (Field.exists_value_iff hslot).mpr (hm.holdsIdentifiers h hf)
  refine ⟨⟨?_, ?_⟩, ?_⟩
  · rintro ⟨written, hwritten⟩ f hf hslot
    obtain ⟨v?, hv?⟩ := exists_value_of_addColumns hwritten f hf
    rw [Field.value_of_real hslot] at hv?
    by_contra hx
    simp [hx] at hv?
  · intro hfinite
    refine exists_addColumns (fun f hf => ?_) ∅
    by_cases hslot : f.slot = .real
    · exact ⟨_, by rw [Field.value_of_real hslot, if_pos (hfinite f hf hslot)]⟩
    · exact hvalue f hf hslot
  · intro violation hviolation
    obtain ⟨f, hf, hv⟩ := exists_of_addColumns_error hviolation
    by_cases hslot : f.slot = .real
    · rw [Field.value_of_real hslot] at hv
      cases hx : (r.real f.name).isFinite with
      | true => simp [hx] at hv
      | false =>
        simp only [hx] at hv
        cases hv
        exact ⟨f, hf, hslot, hx, rfl⟩
    · obtain ⟨v?, hv?⟩ := hvalue f hf hslot
      rw [hv] at hv?
      cases hv?

end WritesBlank

end Model

/-! ## Columns as they are stored -/

/-- What holds for a kind has no real that is not finite. -/
theorem Kind.Holds.hasFiniteReals {kind : Kind} {v : Value} (h : kind.Holds v) : v.HasFiniteReals := by
  intro x hx
  cases kind with
  | scalar base | optional base =>
    have hmembers : v.members = [v] := by
      cases v with
      | set items => cases base <;> exact h.elim
      | _ => rfl
    rw [hmembers] at hx
    rw [← List.mem_singleton.mp hx] at h
    exact BaseKind.Holds.isFinite h
  | set base =>
    cases v with
    | set items => exact BaseKind.Holds.isFinite (h.1 _ hx)
    | _ => exact h.elim
  | map =>
    cases v with
    | map entries => cases List.mem_singleton.mp hx
    | _ => exact h.elim

/-- A real that is not finite is stored only as it came. -/
theorem Schema.eq_of_normalizeColumn {kinds : Kinds} {column : String} {v w : Value} {x : Binary64}
    (h : normalizeColumn kinds column v = some w) (hw : w.IsReal x) (hx : x.isFinite = false) : v = w := by
  unfold normalizeColumn at h
  cases hkind : kinds.get? column with
  | none =>
    simp only [hkind] at h
    exact Option.some.inj h
  | some kind =>
    simp only [hkind] at h
    cases hnormal : v.normalize kind with
    | error violation =>
      simp only [hnormal] at h
      exact Option.some.inj h
    | ok normal =>
      simp only [hnormal] at h
      subst h
      rw [(Value.holds_of_normalize hnormal).hasFiniteReals x hw.mem_members] at hx
      cases hx

namespace Schema

variable {s : Schema} {table : String} {id : RowId} {row : Row} {record : Record} {change : RowChange}

/-- A record read as one of a model is a record of the table of that model. -/
theorem decode_of_decodeAs {m : Model} (h : s.decodeAs m id row = .ok record) : s.decode m.table id row = .ok record := by
  unfold decodeAs at h
  split at h
  · cases h
  · rename_i r hr
    split at h <;> cases h
    exact hr

/-- What a schema decodes is decoded by the model of the table. -/
theorem exists_model_of_decode (h : s.decode table id row = .ok record) :
    ∃ m, s.models.get? table = some m ∧ m.table = table ∧ m.decode id row = .ok record := by
  cases hm : s.models.get? table with
  | none =>
    rw [decode, model, hm] at h
    cases h
  | some m =>
    obtain ⟨hmodel, htable⟩ := model_of_get? hm
    rw [decode, hmodel] at h
    exact ⟨m, rfl, htable, asError_eq_ok_iff.mp h⟩

/-- A record is written by the model of its table. -/
theorem encode_eq_of_describes {m : Model} (hm : s.models.get? record.table = some m) (h : m.describes record = true) :
    s.encode record = asError (m.encode record) := by
  simp only [encode, (model_of_get? hm).1, h, if_true]

/-- A real that is not finite is kept of a change only when the change gives it. -/
theorem exists_gives_of_next? {column : String} {v : Value} {x : Binary64} (h : s.next? table change = some row)
    (hv : row.get? column = some v) (hreal : v.IsReal x) (hx : x.isFinite = false) :
    ∃ raw, change.after = some raw ∧ raw.get? column = some v := by
  obtain ⟨raw, hafter, hkept⟩ := Option.bind_eq_some_iff.mp h
  rw [eq_normalize_of_kept hkept, get?_normalize] at hv
  obtain ⟨v', hv', hw⟩ := Option.bind_eq_some_iff.mp hv
  exact ⟨raw, hafter, eq_of_normalizeColumn hw hreal hx ▸ hv'⟩

end Schema

/-! ## Runs of batches -/

/-- Some batch has a change of the table after which the row is kept. -/
def Schema.Told (s : Schema) (batches : List ChangeBatch) (table : String) (row : Row) : Prop :=
  ∃ batch ∈ batches, ∃ change ∈ batch.changes table, s.next? table change = some row

/-- Some change of the table gives the column the real, on its own or as the only member of a set. -/
def ChangeBatch.GivesReal (batch : ChangeBatch) (table column : String) (x : Binary64) : Prop :=
  ∃ change ∈ batch.changes table, ∃ row v, change.after = some row ∧ row.get? column = some v ∧ v.IsReal x

/-- What a notification gives is finite. -/
theorem ChangeBatch.GivesReal.isFinite_of_readNotification {notification : Json} {decoded : Wire.ReadNotification} {table column : String}
    {x : Binary64} (h : decoded.batch.GivesReal table column x) (hread : Wire.readNotification notification = .ok decoded) :
    x.isFinite = true := by
  obtain ⟨change, hchange, row, v, hafter, hv, hreal⟩ := h
  rw [ChangeBatch.changes, SortedMap.getD] at hchange
  cases htable : decoded.batch.tables.get? table with
  | none =>
    rw [htable] at hchange
    cases hchange
  | some changes =>
    rw [htable] at hchange
    exact Wire.hasFiniteReals_of_readNotification hread htable hchange (Or.inr hafter) column v hv x hreal.mem_members

/-- The rows of the cache have the property. -/
def Cache.AllRows (c : Cache) (p : String → Row → Prop) : Prop := ∀ table id row, c.row? table id = some row → p table row

/-- An entry of a batch is a change of its table. -/
theorem ChangeBatch.mem_changes_of_mem_inOrder {batch : ChangeBatch} {e : String × RowChange} (h : e ∈ batch.inOrder) :
    e.2 ∈ batch.changes e.1 := by
  rw [← batch.inOrder_of_table e.1]
  exact List.mem_map_of_mem (List.mem_filter.mpr ⟨h, decide_eq_true rfl⟩)

/-- A record that is heard of was decoded from the row as it was before or after the entry. -/
theorem Moment.Lawful.exists_decode {d : Notifier} {m : Moment} (h : m.Lawful d) {n : Notice} (hn : n ∈ m.notices) {record : Record}
    (hrecord : record ∈ n.records) :
    ∃ row, d.schema.decode m.table m.change.id row = .ok record ∧
      (m.before.row? m.table m.change.id = some row ∨ m.after.row? m.table m.change.id = some row) := by
  rw [h.heard] at hn
  cases hbefore : m.before.row? m.table m.change.id with
  | none =>
    cases hafter : m.after.row? m.table m.change.id with
    | none => simp [hbefore, hafter, Notifier.heard] at hn
    | some new =>
      rw [hbefore, hafter] at hn
      obtain ⟨r, hr, rfl⟩ := Notifier.mem_notifyOne hn
      exact ⟨new, List.mem_singleton.mp hrecord ▸ hr, Or.inr rfl⟩
  | some old =>
    cases hafter : m.after.row? m.table m.change.id with
    | none =>
      rw [hbefore, hafter] at hn
      obtain ⟨r, hr, rfl⟩ := Notifier.mem_notifyOne hn
      exact ⟨old, List.mem_singleton.mp hrecord ▸ hr, Or.inl rfl⟩
    | some new =>
      rw [hbefore, hafter] at hn
      obtain ⟨first, second, hfirst, hsecond, rfl⟩ := Notifier.mem_notifyUpdated hn
      rcases List.mem_pair.mp hrecord with rfl | rfl
      · exact ⟨old, hfirst, Or.inl rfl⟩
      · exact ⟨new, hsecond, Or.inr rfl⟩

namespace Replica

variable {r : Replica} {p : String → Row → Prop}

/-- What holds of all rows still does when it holds of the one that an entry brings. -/
theorem allRows_takeEntry (hr : r.cache.AllRows p) {e : String × RowChange} (he : ∀ row, r.schema.next? e.1 e.2 = some row → p e.1 row) :
    (r.takeEntry e).replica.cache.AllRows p := by
  intro table id row hrow
  rw [cache_takeEntry, Cache.row?_put] at hrow
  split at hrow
  · rename_i hplace
    obtain ⟨rfl, -, -⟩ := hplace
    rw [Schema.next?_bind_nonempty?] at hrow
    exact he row hrow
  · exact hr table id row hrow

/-- What holds of the rows at first and of what is kept of the changes holds of the rows at every moment, and at the end. -/
theorem allRows_moments (hr : r.cache.AllRows p) {entries : List (String × RowChange)}
    (hentries : ∀ e ∈ entries, ∀ row, r.schema.next? e.1 e.2 = some row → p e.1 row) :
    (∀ m ∈ r.moments entries, m.before.AllRows p ∧ m.after.AllRows p) ∧ (r.afterEntries entries).cache.AllRows p := by
  induction entries generalizing r with
  | nil => exact ⟨fun m hm => (List.not_mem_nil hm).elim, hr⟩
  | cons e rest ih =>
    obtain ⟨he, hrest⟩ := List.forall_mem_cons.mp hentries
    have hnext := allRows_takeEntry hr he
    obtain ⟨hmoments, hend⟩ := ih hnext (by simpa only [schema_takeEntry] using hrest)
    exact ⟨List.forall_mem_cons.mpr ⟨⟨hr, hnext⟩, hmoments⟩, hend⟩

end Replica

namespace Client

/-- The client after it has taken in some batches. -/
def after (c : Client) (batches : List ChangeBatch) : Client := { c with replica := c.replica.afterAll batches }

/-- The records that a listener of the client hears of while it takes in some batches, or that are read of it after that. -/
inductive HandsOut (c : Client) (batches : List ChangeBatch) (record : Record) : Prop where
  | heard (n : Notice) (notice : n ∈ (c.replica.takeInAll batches).flatMap (·.notices)) (member : record ∈ n.records)
  | record (m : Model) (id : RowId) (read : (c.after batches).record m id = .ok record)
  | records (m : Model) (all : List Record) (read : (c.after batches).records m = .ok all) (member : record ∈ all)
  | firstRecord (m : Model) (wanted : Row) (read : (c.after batches).firstRecord m wanted = .ok record)
  | recordsMeeting (m : Model) (wanted : Row) (all : List Record) (read : (c.after batches).recordsMeeting m wanted = .ok all)
      (member : record ∈ all)
  | recordAt (table : String) (id : RowId) (read : (c.after batches).recordAt table id = .ok record)
  | recordsAt (table : String) (all : List Record) (read : (c.after batches).recordsAt table = .ok all) (member : record ∈ all)

/-- The record was decoded from a row of the cache. -/
def Reads (c : Client) (record : Record) : Prop :=
  ∃ table id row, c.cache.row? table id = some row ∧ c.schema.decode table id row = .ok record

variable {c : Client} {batches : List ChangeBatch} {record : Record}

theorem schema_after (c : Client) (batches : List ChangeBatch) : (c.after batches).schema = c.schema := by
  unfold after schema
  simp only
  induction batches generalizing c with
  | nil => rfl
  | cons batch rest ih =>
    refine (ih { c with replica := (c.replica.takeIn batch).replica }).trans ?_
    exact congrArg Notifier.schema (c.replica.notifier_takeIn batch)

section Reads

variable {m : Model} {table : String} {id : RowId} {all : List Record}

/-- A record decoded from a row of the cache is read. -/
theorem reads_of_row? {row : Row} (hrow : c.cache.row? table id = some row) (h : c.schema.decode table id row = .ok record) :
    c.Reads record :=
  ⟨table, id, row, hrow, h⟩

theorem reads_of_record (h : c.record m id = .ok record) : c.Reads record := by
  obtain ⟨row, hrow, h⟩ := bind_eq_ok_iff.mp h
  exact reads_of_row? (Cache.row_eq_ok_iff.mp hrow) (Schema.decode_of_decodeAs h)

theorem reads_of_recordAt (h : c.recordAt table id = .ok record) : c.Reads record := by
  obtain ⟨row, hrow, h⟩ := bind_eq_ok_iff.mp h
  exact reads_of_row? (Cache.row_eq_ok_iff.mp hrow) h

/-- A list of what decodes of the rows of a table. -/
theorem reads_of_mem_filterMap {rows : RowMap} {decode : RowId → Row → Except Error Record} (hrows : c.cache.rows table = .ok rows)
    (hdecode : ∀ id row, decode id row = .ok record → c.schema.decode table id row = .ok record)
    (h : record ∈ rows.entries.filterMap (fun e => (decode e.1 e.2).toOption)) : c.Reads record := by
  obtain ⟨e, he, hrecord⟩ := List.mem_filterMap.mp h
  have hrow : c.cache.row? table e.1 = some e.2 := by
    rw [Cache.row?_eq_bind, Cache.rows_eq_ok_iff.mp hrows, Option.bind_some, ← SortedMap.mem_entries_iff]
    exact he
  exact reads_of_row? hrow (hdecode _ _ (Except.toOption_eq_some_iff.mp hrecord))

theorem reads_of_records (h : c.records m = .ok all) (hrecord : record ∈ all) : c.Reads record := by
  obtain ⟨rows, hrows, h⟩ := bind_eq_ok_iff.mp h
  cases h
  exact reads_of_mem_filterMap hrows (fun _ _ => Schema.decode_of_decodeAs) hrecord

theorem reads_of_recordsAt (h : c.recordsAt table = .ok all) (hrecord : record ∈ all) : c.Reads record := by
  obtain ⟨rows, hrows, h⟩ := bind_eq_ok_iff.mp h
  cases h
  exact reads_of_mem_filterMap hrows (fun _ _ h => h) hrecord

theorem reads_of_firstRecord {wanted : Row} (h : c.firstRecord m wanted = .ok record) : c.Reads record := by
  obtain ⟨first, -, h⟩ := bind_eq_ok_iff.mp h
  cases first with
  | none => cases h
  | some id => exact reads_of_record h

/-- Each record that is found is read from a row of the cache. -/
theorem reads_of_recordsMeeting {wanted : Row} (h : c.recordsMeeting m wanted = .ok all) (hrecord : record ∈ all) :
    c.Reads record := by
  obtain ⟨ids, -, h⟩ := bind_eq_ok_iff.mp h
  obtain ⟨id, -, hread⟩ := exists_of_mem_mapM h hrecord
  exact reads_of_record hread

end Reads

/-- What a client hands out was decoded from a row that it was told of, when it knew of none before. -/
theorem HandsOut.exists_decode (hempty : ∀ table id, c.cache.row? table id = none) (h : c.HandsOut batches record) :
    ∃ table id row, c.schema.Told batches table row ∧ c.schema.decode table id row = .ok record := by
  have hentries : ∀ e ∈ batches.flatMap ChangeBatch.inOrder, ∀ row, c.replica.schema.next? e.1 e.2 = some row →
      c.schema.Told batches e.1 row := by
    intro e he row hrow
    obtain ⟨batch, hbatch, he⟩ := List.mem_flatMap.mp he
    exact ⟨batch, hbatch, e.2, ChangeBatch.mem_changes_of_mem_inOrder he, hrow⟩
  have hstart : c.replica.cache.AllRows (c.schema.Told batches) := by
    intro table id row hrow
    cases (hempty table id).symm.trans hrow
  obtain ⟨hmoments, hend⟩ := Replica.allRows_moments hstart hentries
  have hreads : (c.after batches).Reads record →
      ∃ table id row, c.schema.Told batches table row ∧ c.schema.decode table id row = .ok record := by
    rintro ⟨table, id, row, hrow, hdecode⟩
    rw [schema_after] at hdecode
    refine ⟨table, id, row, hend table id row ?_, hdecode⟩
    rw [← Replica.afterAll_eq_afterEntries]
    exact hrow
  cases h with
  | heard n hn hrecord =>
    rw [Replica.notices_takeInAll] at hn
    obtain ⟨moment, hmoment, hn⟩ := List.mem_flatMap.mp hn
    obtain ⟨row, hdecode, hrow⟩ := (Replica.lawful_of_mem_moments hmoment).exists_decode hn hrecord
    obtain ⟨hbefore, hafter⟩ := hmoments moment hmoment
    exact ⟨_, _, row, hrow.elim (hbefore _ _ row) (hafter _ _ row), hdecode⟩
  | record m id read => exact hreads (reads_of_record read)
  | records m all read member => exact hreads (reads_of_records read member)
  | firstRecord m wanted read => exact hreads (reads_of_firstRecord read)
  | recordsMeeting m wanted all read member => exact hreads (reads_of_recordsMeeting read member)
  | recordAt table id read => exact hreads (reads_of_recordAt read)
  | recordsAt table all read member => exact hreads (reads_of_recordsAt read member)

/-- Whatever a client hands out is a record of one of its models whose references are texts of identifiers. The client writes it back
exactly when its reals are finite, and otherwise says which column is not; such a real was given to the column by one of the batches, as it
is, and that batch was not read of a notification. -/
theorem written_back_when_finite (c : Client) (hempty : ∀ table id, c.cache.row? table id = none)
    (hmodels : ∀ table m, c.schema.models.get? table = some m → m.WritesBlank) (batches : List ChangeBatch) (record : Record)
    (h : c.HandsOut batches record) :
    ∃ m, c.schema.models.get? record.table = some m ∧ m.describes record = true ∧ (∀ f ∈ m.fields, f.HoldsIdentifiers record) ∧
      ((∃ row, c.schema.encode record = .ok row) ↔ ∀ f ∈ m.fields, f.slot = .real → (record.real f.name).isFinite = true) ∧
      (∀ e, c.schema.encode record = .error e →
        ∃ f ∈ m.fields, f.slot = .real ∧ (record.real f.name).isFinite = false ∧ e = .contract (.nonFinite (.column f.column))) ∧
      ∀ f ∈ m.fields, f.slot = .real → (record.real f.name).isFinite = false →
        ∃ batch ∈ batches, batch.GivesReal record.table f.column (record.real f.name) ∧
          ∀ notification decoded, Wire.readNotification notification = .ok decoded → decoded.batch ≠ batch := by
  obtain ⟨table, id, row, htold, hdecode⟩ := h.exists_decode hempty
  obtain ⟨m, hm, htable, hread⟩ := Schema.exists_model_of_decode hdecode
  have hblank := hmodels table m hm
  obtain ⟨htype, hrecord, -⟩ := Model.of_decode hblank.names hread
  obtain rfl : record.table = table := hrecord.trans htable
  have hdescribes : m.describes record = true := decide_eq_true htype
  obtain ⟨hwritten, herror⟩ := hblank.exists_encode_iff hread
  refine ⟨m, hm, hdescribes, fun f hf => hblank.holdsIdentifiers hread hf, ?_, ?_, ?_⟩
  · rw [← hwritten, Schema.encode_eq_of_describes hm hdescribes]
    exact exists_congr fun written => asError_eq_ok_iff
  · intro e he
    rw [Schema.encode_eq_of_describes hm hdescribes] at he
    cases hencode : m.encode record with
    | ok written =>
      rw [hencode] at he
      cases he
    | error violation =>
      rw [hencode] at he
      cases he
      obtain ⟨f, hf, hslot, hx, rfl⟩ := herror violation hencode
      exact ⟨f, hf, hslot, hx, rfl⟩
  · intro f hf hslot hx
    obtain ⟨v, hv, hreal⟩ := hblank.exists_isReal hread hf hslot hx
    obtain ⟨batch, hbatch, change, hchange, hnext⟩ := htold
    obtain ⟨raw, hafter, hraw⟩ := Schema.exists_gives_of_next? hnext hv hreal hx
    have hgives : batch.GivesReal record.table f.column (record.real f.name) := ⟨change, hchange, raw, v, hafter, hraw, hreal⟩
    refine ⟨batch, hbatch, hgives, ?_⟩
    rintro notification decoded hnotification rfl
    rw [hgives.isFinite_of_readNotification hnotification] at hx
    cases hx

/-- A table of readings. -/
def meterModel : Model := .ofFields "Meter" "Meter" [.ofId "uuid", .plain "rate" .real]

/-- The model of the meter starts from zeros. -/
theorem startsFromZeros_meterModel : meterModel.StartsFromZeros where
  columns := by decide
  names := by decide
  zeros := by decide

def meterId : RowId := ⟨"00000000-0000-4000-8000-00000000000b", by decide⟩

/-- A batch with one reading. -/
def reading (x : Binary64) : ChangeBatch := ⟨.singleton "Meter" [.ofStates meterId none (some (.singleton "rate" (.real x)))]⟩

def readingRecord (x : Binary64) : Record := ⟨"Meter", "Meter", .ofList [("rate", .real x), ("uuid", .text meterId.text)]⟩

def notANumber : Binary64 := ⟨0x7ff8000000000000⟩

/-- A client that hears of readings. -/
def buildMeter : Except Error Client := build (.ofDatabase "net") [meterModel] [("Meter", ⟨.allRecords, true⟩)]

/-- What the listener hears of a reading. -/
def heardOf (c : Client) (x : Binary64) : List Record :=
  ((c.replica.takeInAll [reading x]).flatMap (·.notices)).flatMap (·.records)

/-- A record that the listener hears is handed out. -/
theorem handsOut_of_heardOf {c : Client} {x : Binary64} {record : Record} (h : record ∈ heardOf c x) :
    c.HandsOut [reading x] record := by
  obtain ⟨n, hn, hrecord⟩ := List.mem_flatMap.mp h
  exact .heard n hn hrecord

/-- A reading that is a number is written back. -/
theorem written_back_reading :
    ∃ c row, buildMeter = .ok c ∧ c.HandsOut [reading (.ofInt 20)] (readingRecord (.ofInt 20)) ∧
      c.schema.encode (readingRecord (.ofInt 20)) = .ok row := by
  have hrun : buildMeter.map (fun c => (heardOf c (.ofInt 20), c.schema.models)) =
      .ok ([readingRecord (.ofInt 20)], .singleton "Meter" meterModel) := by
    decide +kernel
  obtain ⟨c, hbuilt, hfacts⟩ := map_eq_ok_iff.mp hrun
  obtain ⟨hheard, hmodels⟩ := Prod.mk.inj hfacts
  have hout : c.HandsOut [reading (.ofInt 20)] (readingRecord (.ofInt 20)) := handsOut_of_heardOf (by simp [hheard])
  have hblank : ∀ table m, c.schema.models.get? table = some m → m.WritesBlank := by
    intro table m hm
    rw [hmodels] at hm
    have hmem := SortedMap.mem_entries_iff.mpr hm
    obtain ⟨-, rfl⟩ := Prod.mk.inj (List.mem_singleton.mp hmem)
    exact startsFromZeros_meterModel.writesBlank
  obtain ⟨schema, -, -, hcache⟩ := replica_of_build hbuilt
  have hempty : ∀ table id, c.cache.row? table id = none := by
    intro table id
    rw [cache, hcache, Cache.row?_awaiting]
  obtain ⟨m, hm, -, -, hwritten, -⟩ := written_back_when_finite c hempty hblank _ _ hout
  rw [hmodels] at hm
  have hm : meterModel = m := Option.some.inj hm
  subst hm
  obtain ⟨row, hrow⟩ := hwritten.mpr (by decide +kernel)
  exact ⟨c, row, hbuilt, hout, hrow⟩

/-- A reading that is not a number is heard of, and cannot be written back. -/
theorem not_written_back :
    ¬∀ (config : Config) (models : List Model) (listeners : List (String × Listener)) (c : Client) (batches : List ChangeBatch)
      (record : Record), build config models listeners = .ok c → (∀ m ∈ models, m.StartsFromZeros) → c.HandsOut batches record →
      ∃ row, c.schema.encode record = .ok row := by
  intro hall
  have hrun : buildMeter.map (fun c => (heardOf c notANumber, c.schema.encode (readingRecord notANumber))) =
      .ok ([readingRecord notANumber], .error (.contract (.nonFinite (.column "rate")))) := by
    decide +kernel
  obtain ⟨c, hbuilt, hfacts⟩ := map_eq_ok_iff.mp hrun
  obtain ⟨hheard, hencode⟩ := Prod.mk.inj hfacts
  have hout : c.HandsOut [reading notANumber] (readingRecord notANumber) := handsOut_of_heardOf (by simp [hheard])
  obtain ⟨row, hrow⟩ := hall _ _ _ c _ _ hbuilt (by simpa using startsFromZeros_meterModel) hout
  rw [hencode] at hrow
  cases hrow

end Client

end TableReplica
