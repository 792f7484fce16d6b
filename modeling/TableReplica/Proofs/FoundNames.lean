import TableReplica.Proofs.NetworkRuns
import TableReplica.Proofs.SteadySearches

/-!
# What is found by name and by link

In a cache that mirrors the tables of a virtual network, a search for a name finds exactly the rows that have it, which is one at most
(`Tables.WellKeyed.mem_named_iff`), and a search for the switches that hold a port finds exactly those (`Tables.WellKeyed.mem_holding_iff`).
-/

namespace TableReplica

open VirtualNetwork

/-- Only the same text agrees with a text. -/
theorem Value.agrees_string_iff {v : Value} {text : String} : v.agrees (.string text) = true ↔ v = .string text := by
  cases v <;> simp [agrees]

/-- A column is a text when it is the text itself or the set of it alone. -/
theorem Value.meets_string_iff {v : Value} {text : String} :
    meets (some v) (.string text) = true ↔ v = .string text ∨ v = .set [.string text] := by
  rw [meets_eq_membersAgree]
  show membersAgree v.members [.string text] = true ↔ _
  cases v with
  | set items =>
    match items with
    | [] => simp [members, membersAgree]
    | [item] => simp [members, membersAgree, agrees_string_iff]
    | _ :: _ :: _ => simp [members, membersAgree]
  | _ => simp [members, membersAgree, agrees_string_iff]

/-- A row meets a search by name when its name meets the name. -/
theorem Row.meets_named_iff {row : Row} {id : RowId} {name : String} :
    row.meets id (named name) = true ↔ Value.meets (row.get? "name") (.string name) = true := by
  rw [Row.meets]
  simp [named, SortedMap.singleton, idColumn]

/-- A column refers to a row when the row is among its links. -/
theorem Row.any_refersTo_iff {row : Row} {column : String} {target : RowId} :
    (row.get? column).any (·.refersTo target) = true ↔ target ∈ row.links column := by
  rw [Row.links]
  cases row.get? column with
  | none => simp
  | some v =>
    cases v with
    | set items => simp [Value.refersTo, Value.members]
    | _ => simp [Value.refersTo, Value.members, Value.rowId?, @eq_comm RowId target]

/-- A search by name wants the name and no other column. -/
theorem VirtualNetwork.get?_named_eq (name column : String) :
    (named name).get? column = if column = "name" then some (.string name) else none := by
  by_cases hcolumn : column = "name"
  · rw [if_pos hcolumn, hcolumn]
    rfl
  · rw [if_neg hcolumn, named, SortedMap.singleton, SortedMap.get?, List.lookup_cons, beq_false_of_ne hcolumn]
    rfl

/-- What a name is looked for by is the key of a row that has it. -/
theorem VirtualNetwork.extract_nameKey {row : Row} {name : String} (h : row.get? "name" = some (.string name)) :
    nameKey.extract row = .ok (named name) := by
  have hfind : ["name"].find? (fun column => !row.contains column) = none := by
    simp [SortedMap.contains, h]
  simp only [RowKey.extract, nameKey, RowKey.inTable, List.isEmpty_cons, Bool.false_eq_true, if_false, hfind]
  congr 1
  apply SortedMap.ext_get?
  intro column
  rw [SortedMap.get?_filter, get?_named_eq]
  by_cases hcolumn : column = "name"
  · simp [hcolumn, h]
  · simp [hcolumn]

/-- A name that is shown as it is stands in its row as a text. -/
theorem VirtualNetwork.name_of_meets {r : Replica} (hserves : r.Serves models) {m : Model} (hm : m ∈ namedModels) {row shown : Row}
    (hkey : m.ShowsKey ["name"] row) (hshows : r.schema.Shows m.table row shown) {id : RowId} {name : String}
    (hmeets : shown.meets id (named name) = true) : row.get? "name" = some (.string name) := by
  obtain ⟨v, hv, hdefinite, hform⟩ := hkey "name" List.mem_cons_self
  have hshown : shown.get? "name" = some v := by
    refine hshows.get?_eq_some hdefinite ?_
    rw [hserves.kinds (mem_models_of_named hm), hv, Option.bind_some, hform]
  rw [Row.meets_named_iff, hshown, Value.meets_string_iff] at hmeets
  have hkinds : ∀ m ∈ namedModels, m.columns.get? "name" = some (.scalar .string) := by decide
  have hnotSet : v ≠ .set [.string name] := by
    rintro rfl
    rw [Schema.normalizeColumn, hkinds m hm] at hform
    cases hform
  rcases hmeets with rfl | hset
  · exact hv
  · exact absurd hset hnotSet

/-- A list without repeats that has one member is the list of that member. -/
theorem eq_singleton_of_nodup {α : Type} {items : List α} {item : α} (h : items.Nodup) (hmem : ∀ x, x ∈ items ↔ x = item) :
    items = [item] := by
  refine List.perm_singleton.mp ((List.perm_ext_iff_of_nodup h (List.nodup_singleton item)).mpr ?_)
  simpa using hmem

namespace Cache

variable {c : Cache} {table column : String} {target : RowId}

/-- A search for holders succeeds in every known table. -/
theorem exists_idsHolding (hk : c.knows table = true) : ∃ ids, c.idsHolding table column target = .ok ids := by
  obtain ⟨rows, hrows⟩ := (knows_iff c table).mp hk
  rw [idsHolding, search, rows_eq_ok_iff.mpr hrows]
  exact ⟨_, rfl⟩

/-- A search for holders finds no row twice. -/
theorem nodup_of_idsHolding {ids : List RowId} (h : c.idsHolding table column target = .ok ids) : ids.Nodup := by
  obtain ⟨rows, -, rfl⟩ := map_eq_ok_iff.mp h
  exact SortedMap.nodup_keys _

end Cache

namespace Tables.WellKeyed

variable {tables : Tables} {r : Replica} {m : Model} {name : String} {id holder : RowId} {row : Row}

/-! ## Names -/

/-- A search for a name finds the rows that have it. -/
theorem mem_named_iff (h : tables.WellKeyed) (hmirrors : r.Mirrors tables) (hserves : r.Serves models) (hm : m ∈ namedModels)
    {found : List RowId} (hfound : r.cache.idsMeeting m.table (named name) = .ok found) (id : RowId) :
    id ∈ found ↔ ∃ row, tables.row? m.table id = some row ∧ row.get? "name" = some (.string name) := by
  rw [Cache.mem_of_idsMeeting hfound]
  constructor
  · rintro ⟨shown, hshown, hmeets⟩
    obtain ⟨row, hrow, hshows⟩ := hmirrors.shows_of_cached hshown
    exact ⟨row, hrow, name_of_meets hserves hm (h.names m hm id row hrow) hshows hmeets⟩
  · rintro ⟨row, hrow, hname⟩
    exact hmirrors.meets_of_sameKey hserves (mem_models_of_named hm) (by decide) (by decide) (extract_nameKey hname) hrow
      (h.names m hm id row hrow) (fun _ _ => rfl)

/-- A search by name succeeds for every named model that is served. -/
theorem exists_named (hserves : r.Serves models) (hm : m ∈ namedModels) (name : String) :
    ∃ found, r.cache.idsMeeting m.table (named name) = .ok found :=
  Cache.exists_idsMeeting (hserves.knows (mem_models_of_named hm)) rfl

/-- A name is that of one row. -/
theorem eq_of_named (h : tables.WellKeyed) (hm : m ∈ namedModels) {id' : RowId} {row' : Row} (hrow : tables.row? m.table id = some row)
    (hname : row.get? "name" = some (.string name)) (hrow' : tables.row? m.table id' = some row')
    (hname' : row'.get? "name" = some (.string name)) : id = id' := by
  refine h.unique.names m hm id id' row row' hrow hrow' ?_
  intro column hcolumn
  rw [List.mem_singleton.mp hcolumn, hname, hname']

/-- A name that no row has is not found. -/
theorem idsMeeting_named_of_none (h : tables.WellKeyed) (hmirrors : r.Mirrors tables) (hserves : r.Serves models) (hm : m ∈ namedModels)
    (hnone : ∀ id row, tables.row? m.table id = some row → row.get? "name" ≠ some (.string name)) :
    r.cache.idsMeeting m.table (named name) = .ok [] := by
  obtain ⟨found, hfound⟩ := exists_named hserves hm name
  refine hfound.trans (congrArg Except.ok (List.eq_nil_iff_forall_not_mem.mpr ?_))
  intro id hid
  obtain ⟨row, hrow, hname⟩ := (h.mem_named_iff hmirrors hserves hm hfound id).mp hid
  exact hnone id row hrow hname

/-- A name that a row has is found there and nowhere else. -/
theorem idsMeeting_named (h : tables.WellKeyed) (hmirrors : r.Mirrors tables) (hserves : r.Serves models) (hm : m ∈ namedModels)
    (hrow : tables.row? m.table id = some row) (hname : row.get? "name" = some (.string name)) :
    r.cache.idsMeeting m.table (named name) = .ok [id] := by
  obtain ⟨found, hfound⟩ := exists_named hserves hm name
  rw [hfound, eq_singleton_of_nodup (Cache.nodup_of_idsMeeting hfound)]
  intro id'
  rw [h.mem_named_iff hmirrors hserves hm hfound]
  constructor
  · rintro ⟨row', hrow', hname'⟩
    exact h.eq_of_named hm hrow' hname' hrow hname
  · rintro rfl
    exact ⟨row, hrow, hname⟩

/-! ## Holders of ports -/

/-- A search for the switches that hold a row finds those that have it among their ports. A switch that has links shows at least the
column that they are in. -/
theorem mem_holding_iff (h : tables.WellKeyed) (hmirrors : r.Mirrors tables) (hserves : r.Serves models) {target : RowId}
    {found : List RowId} (hfound : r.cache.idsHolding switchModel.table switchPortColumn target = .ok found) (holder : RowId) :
    holder ∈ found ↔ tables.Holds switchModel.table holder switchPortColumn target := by
  have hkind := (kinds_of_links hserves (Or.inl rfl)).2
  rw [Cache.mem_of_idsHolding hfound]
  constructor
  · rintro ⟨shown, hshown, hrefers⟩
    obtain ⟨row, hrow, hshows⟩ := hmirrors.shows_of_cached hshown
    exact ⟨row, hrow, (hshows.mem_links hkind (h.links _ _ row hrow).2 target).mp (Row.any_refersTo_iff.mp hrefers)⟩
  · rintro ⟨row, hrow, hlink⟩
    have hlinks := (h.links _ _ row hrow).2
    have hkept : ∃ v, (row.get? switchPortColumn).bind (Schema.normalizeColumn (r.schema.kinds switchModel.table) switchPortColumn) =
        some v := by
      rw [hlinks.bind_normalizeColumn hkind]
      cases hcolumn : row.get? switchPortColumn with
      | none =>
        rw [Row.links, hcolumn] at hlink
        cases hlink
      | some v => exact ⟨_, rfl⟩
    obtain ⟨v, hv⟩ := hkept
    obtain ⟨shown, hshown, hshows⟩ := hmirrors.shows_of_column (hserves.knows switchModel_mem) hrow hv
    exact ⟨shown, hshown, Row.any_refersTo_iff.mpr ((hshows.mem_links hkind hlinks target).mpr hlink)⟩

/-- A row that hangs from no switch is found to have no holder. -/
theorem idsHolding_of_none (h : tables.WellKeyed) (hmirrors : r.Mirrors tables) (hserves : r.Serves models) {target : RowId}
    (hnone : ∀ holder, ¬tables.Holds switchModel.table holder switchPortColumn target) :
    r.cache.idsHolding switchModel.table switchPortColumn target = .ok [] := by
  obtain ⟨found, hfound⟩ := Cache.exists_idsHolding (hserves.knows switchModel_mem)
  refine hfound.trans (congrArg Except.ok (List.eq_nil_iff_forall_not_mem.mpr ?_))
  exact fun holder hholder => hnone holder ((h.mem_holding_iff hmirrors hserves hfound holder).mp hholder)

/-- The switch that holds a row is found, and no other. -/
theorem idsHolding_ports (h : tables.WellKeyed) (hmirrors : r.Mirrors tables) (hserves : r.Serves models) {target : RowId}
    (hholds : tables.Holds switchModel.table holder switchPortColumn target) :
    r.cache.idsHolding switchModel.table switchPortColumn target = .ok [holder] := by
  obtain ⟨found, hfound⟩ := Cache.exists_idsHolding (hserves.knows switchModel_mem)
  rw [hfound, eq_singleton_of_nodup (Cache.nodup_of_idsHolding hfound)]
  intro holder'
  rw [h.mem_holding_iff hmirrors hserves hfound]
  constructor
  · intro hholds'
    exact (h.unique.portHolders _ List.mem_cons_self _ List.mem_cons_self _ _ _ hholds' hholds).2
  · rintro rfl
    exact hholds

end Tables.WellKeyed

end TableReplica
