import TableReplica.Proofs.DecodableRows

/-!
# Rows that are read in form

A row may be read with the kinds of its columns at hand, so that the first column that does not fit makes it unreadable, or it may be
read as it is written and brought into form later, where columns that do not fit stay as they are. The first gives a row exactly when the
second gives the same row and no column is at fault. Notifications are read the second way, so the new state of an entry that could
be read the first way is never what makes the entry unreadable, and it is taken in as it would have been read (`Schema.reads_in_form`).
-/

namespace TableReplica

/-- A map goes through steps that may fail when each of its values does, and becomes what they give. -/
theorem SortedMap.filterMapOk_eq_ok_iff {κ α β ε : Type} [LT κ] [DecidableEq κ] [KeyOrder κ] {f : κ → α → Except ε (Option β)}
    {m : SortedMap κ α} {m' : SortedMap κ β} :
    m.filterMapOk f = .ok m' ↔
      (∀ k v, m.get? k = some v → f k v = .ok (m'.get? k)) ∧ ∀ k, m.get? k = none → m'.get? k = none := by
  have hall : ∀ g : κ → α → Option β, (∀ k v, m.get? k = some v → f k v = .ok (g k v)) → m.filterMapOk f = .ok (m.filterMap g) :=
    fun g hg => filterMapOk_of_forall_ok fun e he => hg e.1 e.2 (mem_entries_iff.mp he)
  constructor
  · intro h
    have hsteps : ∀ k v, m.get? k = some v → f k v = .ok ((f k v).toOption.getD none) := by
      intro k v hv
      have hok := filterMapOk_isOk_iff.mp (Except.isOk_iff.mpr ⟨m', h⟩) (k, v) (mem_entries_iff.mpr hv)
      obtain ⟨w, hw⟩ := Except.isOk_iff.mp hok
      rw [show f k v = .ok w from hw]
      rfl
    rw [hall _ hsteps] at h
    cases h
    constructor
    · intro k v hv
      rw [get?_filterMap, hv, Option.bind_some]
      exact hsteps k v hv
    · intro k hk
      rw [get?_filterMap, hk, Option.bind_none]
  · rintro ⟨hsteps, hnone⟩
    rw [hall (fun k _ => m'.get? k) hsteps]
    congr 1
    apply ext_get?
    intro k
    rw [get?_filterMap]
    cases hk : m.get? k with
    | none => exact (hnone k hk).symm
    | some v => rfl

/-! ## Columns -/

namespace Schema

/-- A column that fits takes the form of its kind; without a kind it stays as it is. -/
theorem fits_iff {kinds : Kinds} {column : String} {v : Value} {normal : Option Value} :
    columnFault? kinds column v = none ∧ normalizeColumn kinds column v = normal ↔
      (match kinds.get? column with
        | some kind => v.normalize kind
        | none => .ok (some v)) = .ok normal := by
  unfold columnFault? normalizeColumn
  cases kinds.get? column with
  | none => simp
  | some kind => cases hnormal : v.normalize kind <;> simp [hnormal]

/-- A row has a form without columns at fault when each of its columns fits. -/
theorem normalize_eq_iff {s : Schema} {table : String} {raw row : Row} :
    s.normalize table raw = (row, []) ↔
      (∀ column v, raw.get? column = some v →
        columnFault? (s.kinds table) column v = none ∧ normalizeColumn (s.kinds table) column v = row.get? column) ∧
      ∀ column, raw.get? column = none → row.get? column = none := by
  constructor
  · intro h
    have hfaults : (s.normalize table raw).2 = [] := congrArg Prod.snd h
    have hget := s.get?_normalize table raw
    rw [h] at hget
    constructor
    · intro column v hv
      rw [hget, hv, Option.bind_some]
      exact ⟨columnFault?_eq_none hfaults hv, rfl⟩
    · intro column hcolumn
      rw [hget, hcolumn, Option.bind_none]
  · rintro ⟨hfits, hnone⟩
    refine Prod.ext ?_ ?_
    · apply SortedMap.ext_get?
      intro column
      rw [get?_normalize]
      cases hcolumn : raw.get? column with
      | none => exact (hnone column hcolumn).symm
      | some v => exact (hfits column v hcolumn).2
    · refine List.filterMap_eq_nil_iff.mpr fun e he => ?_
      exact Option.map_eq_none_iff.mpr (hfits e.1 e.2 (SortedMap.mem_entries_iff.mp he)).1

/-- The kind of a column is the same, asked of the columns of a table or of its kinds. -/
theorem bind_columns? (s : Schema) (table column : String) : (s.columns? table).bind (·.get? column) = (s.kinds table).get? column := by
  unfold kinds
  cases s.columns? table <;> rfl

end Schema

namespace Wire

/-! ## Rows -/

/-- A row is read when each of its columns is. -/
theorem readRow_eq_ok_iff {kinds : Option Kinds} {state : Json} {columns : SortedMap String Json} (h : state.members? = some columns)
    {row : Row} :
    readRow kinds state = .ok row ↔
      (∀ column j, columns.get? column = some j → readValue (kinds.bind (·.get? column)) j = .ok (row.get? column)) ∧
      ∀ column, columns.get? column = none → row.get? column = none := by
  rw [readRow, h]
  exact SortedMap.filterMapOk_eq_ok_iff

/-- A value is read in the form of its kind when it can be read as it is written and then fits. -/
theorem readValue_eq_ok_iff {kinds : Kinds} {column : String} {j : Json} {normal : Option Value} :
    readValue (kinds.get? column) j = .ok normal ↔
      ∃ v, readLoose j = .ok v ∧ Schema.columnFault? kinds column v = none ∧ Schema.normalizeColumn kinds column v = normal := by
  simp only [Schema.fits_iff]
  exact bind_eq_ok_iff

/-- A row is read in form exactly when it can be read as it is written and no column of it is at fault. -/
theorem readRow_columns_eq_ok_iff (s : Schema) (table : String) (state : Json) (row : Row) :
    readRow (s.columns? table) state = .ok row ↔ ∃ raw, readRow none state = .ok raw ∧ s.normalize table raw = (row, []) := by
  cases hcolumns : state.members? with
  | none =>
    simp only [readRow, hcolumns, Except.ok.injEq, exists_eq_left', Schema.normalize_eq_iff]
    constructor
    · rintro rfl
      refine ⟨fun column v hv => ?_, fun _ _ => rfl⟩
      cases hv
    · rintro ⟨-, hnone⟩
      exact SortedMap.ext_get? fun column => (hnone column rfl).symm
  | some columns =>
    simp only [readRow_eq_ok_iff hcolumns, Schema.bind_columns?, readValue_eq_ok_iff, Schema.normalize_eq_iff]
    constructor
    · rintro ⟨hread, hnone⟩
      have hraw : ∀ column, (columns.filterMap fun _ j => (readLoose j).toOption).get? column =
          (columns.get? column).bind fun j => (readLoose j).toOption := SortedMap.get?_filterMap _ columns
      refine ⟨columns.filterMap fun _ j => (readLoose j).toOption, ⟨fun column j hj => ?_, fun column hcolumn => ?_⟩,
        fun column v hv => ?_, fun column hcolumn => ?_⟩
      · obtain ⟨v, hv, -⟩ := hread column j hj
        rw [hraw, hj, Option.bind_some, readValue, hv]
        rfl
      · rw [hraw, hcolumn, Option.bind_none]
      · rw [hraw] at hv
        obtain ⟨j, hj, hv⟩ := Option.bind_eq_some_iff.mp hv
        obtain ⟨v', hv', hfits⟩ := hread column j hj
        rw [hv'] at hv
        cases hv
        exact hfits
      · cases hj : columns.get? column with
        | none => exact hnone column hj
        | some j =>
          obtain ⟨v, hv, -⟩ := hread column j hj
          rw [hraw, hj, Option.bind_some, hv] at hcolumn
          cases hcolumn
    · rintro ⟨raw, ⟨hraw, hrawNone⟩, hfits, hnone⟩
      refine ⟨fun column j hj => ?_, fun column hcolumn => hnone column (hrawNone column hcolumn)⟩
      obtain ⟨v, hv, hsome⟩ := bind_eq_ok_iff.mp (hraw column j hj)
      exact ⟨v, hv, hfits column v (Except.ok.inj hsome).symm⟩

/-! ## Entries -/

variable {key : String} {states state : Json} {id : RowId} {change : RowChange}

/-- An entry whose new state can be read needs an identifier as its key, and an old state that can be read if it has one. -/
theorem entryReadable_of_new {row : Row} (hnew : states.member? "new" = some state) (hread : readRow none state = .ok row)
    (hkey : RowId.parse key = .ok id) : entryReadable key states = (states.member? "old").all stateReadable := by
  have hmembers : states.members?.isSome = true := by
    obtain ⟨members, hmembers, -⟩ := Option.bind_eq_some_iff.mp hnew
    rw [hmembers]
    rfl
  have hstate : stateReadable state = true := by
    rw [← isOk_readRow, hread]
    rfl
  rw [entryReadable, hkey, hmembers, hnew, Option.all_some, hstate, Bool.and_true, Bool.and_true]
  exact Bool.true_and _

/-- What is read of an entry is its key and its new state, of which an empty one is none. -/
theorem exists_of_readRowChange (h : readRowChange key states = .ok change) :
    RowId.parse key = .ok change.id ∧ ∃ after, readState states "new" = .ok after ∧ change.after = after.bind Row.nonempty? := by
  obtain ⟨id, hkey, h⟩ := bind_eq_ok_iff.mp h
  split at h
  · cases h
  · obtain ⟨before, -, h⟩ := bind_eq_ok_iff.mp h
    obtain ⟨after, hafter, h⟩ := bind_eq_ok_iff.mp h
    cases h
    exact ⟨hkey, after, hafter, rfl⟩

/-- The new state of an entry that was read is what its new columns read as, unless there are none. -/
theorem after_of_readRowChange {raw : Row} (h : readRowChange key states = .ok change) (hnew : states.member? "new" = some state)
    (hread : readRow none state = .ok raw) : change.after = raw.nonempty? := by
  obtain ⟨-, after, hafter, hchange⟩ := exists_of_readRowChange h
  simp only [readState, hnew, hread] at hafter
  cases hafter
  exact hchange

/-- The rows of a table in a notification, by their keys. -/
def rowsOf? (notification : Json) (table : String) : Option (SortedMap String Json) :=
  ((notification.members?).bind (·.get? table)).bind Json.members?

/-- The entry is under its key, and no entry behind it that can be read is of the same row. -/
structure LastEntry (rows : SortedMap String Json) (key : String) (states : Json) (id : RowId) : Prop where
  found : rows.get? key = some states
  last : ∀ key' states', rows.get? key' = some states' → key < key' → entryReadable key' states' = true → RowId.parse key' ≠ .ok id

/-- The last entry of a row that can be read is the last change of the row. -/
theorem LastEntry.lastOf_readableRows {rows : SortedMap String Json} (h : LastEntry rows key states change.id)
    (hread : readRowChange key states = .ok change) : RowChange.lastOf change.id (readableRows rows) = some change := by
  obtain ⟨before, behind, hentries⟩ := List.append_of_mem (SortedMap.mem_entries_iff.mpr h.found)
  have hordered := hentries ▸ rows.ordered
  obtain ⟨hlater, -⟩ := List.pairwise_cons.mp (List.pairwise_append.mp hordered).2.1
  have hbehind : (behind.filterMap fun e => (readRowChange e.1 e.2).toOption).filter (fun c => decide (c.id = change.id)) = [] := by
    refine List.filter_eq_nil_iff.mpr fun other hother hsame => ?_
    obtain ⟨e, he, hother⟩ := List.mem_filterMap.mp hother
    have hread' : readRowChange e.1 e.2 = .ok other := Except.toOption_eq_some_iff.mp hother
    have hget : rows.get? e.1 = some e.2 := by
      rw [← SortedMap.mem_entries_iff, hentries]
      exact List.mem_append_right _ (List.mem_cons_of_mem _ he)
    have hreadable : entryReadable e.1 e.2 = true := by
      rw [← isOk_readRowChange, hread']
      rfl
    refine h.last e.1 e.2 hget (hlater e he) hreadable ?_
    rw [(exists_of_readRowChange hread').1, of_decide_eq_true hsame]
  have hself : decide (change.id = change.id) = true := decide_eq_true rfl
  rw [RowChange.lastOf, readableRows, hentries, List.filterMap_append, List.filterMap_cons_some (b := change) (by rw [hread]; rfl),
    List.filter_append, List.filter_cons, if_pos hself, hbehind, List.getLast?_concat]

end Wire

/-! ## Taking in -/

namespace Schema

variable {s : Schema} {table : String} {raw row : Row} {change : RowChange}

/-- A row without columns has none in form. -/
theorem isEmpty_of_normalize (h : (s.normalize table raw).1 = row) (hempty : raw.isEmpty = true) : row.isEmpty = true := by
  rw [SortedMap.isEmpty_iff] at hempty ⊢
  intro column
  rw [← h, get?_normalize, hempty column, Option.bind_none]

/-- The next state of a row is the new state in form, unless it has no columns. -/
theorem next?_of_after (h : (s.normalize table raw).1 = row) (hafter : change.after = raw.nonempty?) :
    s.next? table change = row.nonempty? := by
  rw [next?, hafter, Row.nonempty?]
  split
  · rename_i hempty
    rw [Option.bind_none, Row.nonempty?, if_pos (isEmpty_of_normalize h hempty)]
  · rw [Option.bind_some, kept, h]

end Schema

/-- An entry does what its new state in form does. -/
theorem Intake.entry_of_after {i : Intake} {table : String} {raw row : Row} {change : RowChange}
    (h : (i.replica.notifier.schema.normalize table raw).1 = row) (hafter : change.after = raw.nonempty?) :
    i.entry table change = if row.isEmpty then i.remove table change.id else i.put table change.id row := by
  rw [entry, hafter, Row.nonempty?]
  cases hempty : raw.isEmpty with
  | true => rw [if_pos rfl, Schema.isEmpty_of_normalize h hempty, if_pos rfl]
  | false =>
    rw [if_neg Bool.false_ne_true]
    dsimp only
    rw [h]

namespace Schema

/-- To read a row with the kinds of a table is to read it as it is written and to bring it into form with no column at fault. An entry
whose new state can be read so is unread only if its key is no identifier or its old state cannot be read. Where it is taken in, the new
state is put as it would have been read, or the row is removed if that is empty; and this is what the cache has of the row after a
notification in which no later entry is of the same row. -/
theorem reads_in_form (s : Schema) (table : String) :
    (∀ state row, Wire.readRow (s.columns? table) state = .ok row ↔
      ∃ raw, Wire.readRow none state = .ok raw ∧ s.normalize table raw = (row, [])) ∧
    ∀ key id states state row, RowId.parse key = .ok id → states.member? "new" = some state →
      Wire.readRow (s.columns? table) state = .ok row →
      Wire.entryReadable key states = (states.member? "old").all Wire.stateReadable ∧
      (∀ change, Wire.readRowChange key states = .ok change → ∀ i : Intake, i.replica.schema = s →
        i.entry table change = if row.isEmpty then i.remove table id else i.put table id row) ∧
      ∀ (r : Replica) (notification : Json) (rows : SortedMap String Json), r.schema = s → r.cache.knows table = true →
        Wire.rowsOf? notification table = some rows → Wire.LastEntry rows key states id → Wire.entryReadable key states = true →
        ∃ i, r.takeInNotification notification = .ok i ∧ i.replica.cache.row? table id = row.nonempty? := by
  refine ⟨Wire.readRow_columns_eq_ok_iff s table, ?_⟩
  intro key id states state row hkey hnew hrow
  obtain ⟨raw, hraw, hnormal⟩ := (Wire.readRow_columns_eq_ok_iff s table state row).mp hrow
  have hrow' : (s.normalize table raw).1 = row := congrArg Prod.fst hnormal
  have hchange : ∀ change, Wire.readRowChange key states = .ok change → change.id = id ∧ change.after = raw.nonempty? := by
    intro change hchange
    have hid := (Wire.exists_of_readRowChange hchange).1
    rw [hkey] at hid
    exact ⟨(Except.ok.inj hid).symm, Wire.after_of_readRowChange hchange hnew hraw⟩
  refine ⟨Wire.entryReadable_of_new hnew hraw hkey, ?_, ?_⟩
  · rintro change hread i rfl
    obtain ⟨rfl, hafter⟩ := hchange change hread
    exact Intake.entry_of_after hrow' hafter
  · rintro r notification rows rfl hk hrows hlast hreadable
    obtain ⟨change, hread⟩ := Except.isOk_iff.mp ((Wire.isOk_readRowChange key states).trans hreadable)
    obtain ⟨rfl, hafter⟩ := hchange change hread
    obtain ⟨j, hj, hrows⟩ := Option.bind_eq_some_iff.mp hrows
    obtain ⟨tables, htables, htable⟩ := Option.bind_eq_some_iff.mp hj
    refine ⟨_, by rw [Replica.takeInNotification, Wire.readNotification_eq htables]; rfl, ?_⟩
    dsimp only
    have hchanges : ChangeBatch.changes ⟨tables.filterMap fun _ rows => rows.members?.map Wire.readableRows⟩ table =
        Wire.readableRows rows := by
      rw [ChangeBatch.changes, SortedMap.getD, SortedMap.get?_filterMap, htable, Option.bind_some, hrows]
      rfl
    rw [Replica.row?_takeIn r _ hk, hchanges, hlast.lastOf_readableRows hread]
    exact next?_of_after hrow' hafter

end Schema

namespace VirtualNetwork

/-- The state of the port of the notice. -/
def looseState : Json :=
  .object [("name", .array [.text "set", .array [.text "p"]]), ("tag", .real (.ofInt 7)), ("addresses", .text "a")]

/-- The port in form. -/
def formedPort : Row := .ofList [("name", .string "p"), ("tag", .integer 7), ("addresses", .set [.string "a"])]

/-- The port is read in form, and is stored in the same form when the notice is taken in. -/
theorem reads_in_form_loosePort :
    (∃ raw, Wire.readRow none looseState = .ok raw ∧ portSchema.normalize "Logical_Switch_Port" raw = (formedPort, [])) ∧
    ∃ i, ((⟨.ofSchema portSchema, .empty⟩ : Replica).subscribe "Logical_Switch_Port").takeInNotification looseNotice = .ok i ∧
      i.replica.cache.row? "Logical_Switch_Port" loosePortId = some formedPort := by
  obtain ⟨hrow, hentry⟩ := Schema.reads_in_form portSchema "Logical_Switch_Port"
  have hformed : Wire.readRow (portSchema.columns? "Logical_Switch_Port") looseState = .ok formedPort := by decide +kernel
  have hkey : RowId.parse loosePortId.text = .ok loosePortId := by decide +kernel
  refine ⟨(hrow looseState formedPort).mp hformed, ?_⟩
  obtain ⟨-, -, htaken⟩ := hentry loosePortId.text loosePortId (.object [("new", looseState)]) looseState formedPort hkey rfl hformed
  refine htaken _ looseNotice (.singleton loosePortId.text (.object [("new", looseState)])) rfl (by decide) rfl ⟨rfl, ?_⟩
    (by decide +kernel)
  intro key' states' hget hlt
  have honly := List.mem_singleton.mp (SortedMap.mem_entries_iff.mpr hget)
  cases honly
  exact (KeyOrder.irrefl _ hlt).elim

end VirtualNetwork

end TableReplica
