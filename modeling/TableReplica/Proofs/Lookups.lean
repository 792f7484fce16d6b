import TableReplica.Proofs.CacheChanges
import TableReplica.Proofs.ComposedRuns

/-!
# Looking rows up

What a look-up in the cache that succeeds says of the rows that are there: a search lists the rows that pass its test, the parent of a
row is a row of its table, and a natural key that is free is the key of no row in its scope.
-/

namespace TableReplica

namespace Cache

/-- The rows of a table are had when the table is known. -/
theorem rows_eq_ok_iff {c : Cache} {table : String} {rows : RowMap} : c.rows table = .ok rows ↔ c.tables.get? table = some rows := by
  unfold Cache.rows
  cases c.tables.get? table <;> simp

/-- A row is had when it is in the cache. -/
theorem row_eq_ok_iff {c : Cache} {table : String} {id : RowId} {row : Row} :
    c.row table id = .ok row ↔ c.row? table id = some row := by
  unfold Cache.row rows row?
  cases c.tables.get? table with
  | none => simp
  | some rows =>
    simp only [Option.bind_some]
    cases rows.get? id <;> simp

/-- A search lists the rows that pass its test. -/
theorem mem_of_search {c : Cache} {table : String} {test : RowId → Row → Bool} {ids : List RowId}
    (h : c.search table test = .ok ids) (id : RowId) : id ∈ ids ↔ ∃ row, c.row? table id = some row ∧ test id row = true := by
  obtain ⟨rows, hrows, rfl⟩ := map_eq_ok_iff.mp h
  have hrow : c.row? table id = rows.get? id := by rw [row?_eq_bind, rows_eq_ok_iff.mp hrows, Option.bind_some]
  rw [SortedMap.mem_keys_iff, hrow, SortedMap.get?_filter]
  cases rows.get? id with
  | none => simp
  | some row =>
    by_cases htest : test id row = true <;> simp [htest]

/-- A search finds the rows that meet what is wanted. -/
theorem mem_of_idsMeeting {c : Cache} {table : String} {wanted : Row} {ids : List RowId}
    (h : c.idsMeeting table wanted = .ok ids) (id : RowId) :
    id ∈ ids ↔ ∃ row, c.row? table id = some row ∧ row.meets id wanted = true := by
  unfold idsMeeting at h
  split at h
  · cases h
  · exact mem_of_search h id

/-- A search for holders finds the rows that refer to the row. -/
theorem mem_of_idsHolding {c : Cache} {table column : String} {target : RowId} {ids : List RowId}
    (h : c.idsHolding table column target = .ok ids) (id : RowId) :
    id ∈ ids ↔ ∃ row, c.row? table id = some row ∧ (row.get? column).any (·.refersTo target) = true :=
  mem_of_search h id

/-- The only hit of a search is its one result. -/
theorem eq_singleton_of_onlyHit {table : String} {wanted : Row} {ids : List RowId} {id : RowId}
    (h : onlyHit table wanted ids = .ok id) : ids = [id] := by
  match ids with
  | [] => cases h
  | [_] =>
    cases h
    rfl
  | _ :: _ :: _ => cases h

/-- The only row found is a row that meets the key. -/
theorem row?_of_onlyRow {c : Cache} {table : String} {key : Row} {id : RowId} (h : c.onlyRow table key = .ok id) :
    ∃ row, c.row? table id = some row ∧ row.meets id key = true := by
  obtain ⟨ids, hids, hhit⟩ := bind_eq_ok_iff.mp h
  exact (mem_of_idsMeeting hids id).mp (by rw [eq_singleton_of_onlyHit hhit]; exact List.mem_cons_self)

/-- The only holder found is a row. -/
theorem row?_of_onlyHolder {c : Cache} {table column : String} {child id : RowId}
    (h : c.onlyHolder table column child = .ok id) : ∃ row, c.row? table id = some row := by
  obtain ⟨ids, hids, hhit⟩ := bind_eq_ok_iff.mp h
  obtain ⟨row, hrow, -⟩ := (mem_of_idsHolding hids id).mp (by rw [eq_singleton_of_onlyHit hhit]; exact List.mem_cons_self)
  exact ⟨row, hrow⟩

/-- However a parent is named, what is found is a row of its table. -/
theorem row?_of_parentId {c : Cache} {parent : Parent} {child : Option RowId} {holder : RowId}
    (h : c.parentId parent child = .ok holder) : ∃ row, c.row? parent.table holder = some row := by
  unfold parentId at h
  split at h
  · obtain ⟨row, hrow, rfl⟩ := map_eq_ok_iff.mp h
    exact ⟨row, row_eq_ok_iff.mp hrow⟩
  · obtain ⟨row, hrow, -⟩ := row?_of_onlyRow h
    exact ⟨row, hrow⟩
  · split at h
    · exact row?_of_onlyHolder h
    · cases h

end Cache

/-! ## Natural keys -/

/-- The columns of a key that could be taken from a row. -/
theorem RowKey.of_extract {key : RowKey} {row wanted : Row} (h : key.extract row = .ok wanted) (column : String) :
    wanted.get? column = if column ∈ key.columns then row.get? column else none := by
  unfold extract at h
  split at h
  · cases h
  · split at h
    · cases h
    · cases h
      rw [SortedMap.get?_filter]
      cases row.get? column <;> by_cases hc : column ∈ key.columns <;> simp [hc]

/-- What must be absent is let through when nothing is found. -/
theorem Cache.eq_nil_of_requireAbsent {table : String} {key : Row} {ids : List RowId} (h : requireAbsent table key ids = .ok ()) :
    ids = [] := by
  cases ids with
  | nil => rfl
  | cons id rest => cases h

/-- A row has every wanted column that it holds as it is wanted, if that agrees with itself. -/
theorem Row.meets_of_get?_eq {id : RowId} {row wanted : Row}
    (h : ∀ column v, wanted.get? column = some v → column ≠ idColumn ∧ row.get? column = some v ∧ v.agrees v = true) :
    row.meets id wanted = true := by
  rw [Row.meets, List.all_eq_true]
  intro e he
  obtain ⟨hne, hget, hagrees⟩ := h e.1 e.2 (SortedMap.mem_entries_iff.mp he)
  rw [if_neg hne, hget]
  simp only [Value.meets, hagrees, Bool.true_or]

namespace NameSupply

/-- A row may be inserted on its own when no row of the table has its key. -/
theorem of_checkRoot {cache : Cache} {table : String} {row : Row} {columns : List String}
    (h : checkRoot cache table row (.inTable columns) = .ok ()) :
    ∃ wanted, RowKey.extract (.inTable columns) row = .ok wanted ∧ cache.idsMeeting table wanted = .ok [] := by
  have hscope : ¬(RowKey.inTable columns).scope = .parent := fun hscope => by cases hscope
  simp only [checkRoot, if_neg hscope] at h
  obtain ⟨wanted, hwanted, h⟩ := bind_eq_ok_iff.mp h
  obtain ⟨found, hfound, h⟩ := bind_eq_ok_iff.mp h
  rw [Cache.eq_nil_of_requireAbsent h] at hfound
  exact ⟨wanted, hwanted, hfound⟩

/-- A composed insertion of a root has passed the check of its key, and inserts the row and nothing more. -/
theorem of_insertRoot {names : NameSupply} {cache : Cache} {table : String} {row : Row} {key : RowKey} {ins : Insertion}
    (h : (names.insertRoot cache table row key).1 = .ok ins) :
    checkRoot cache table row key = .ok () ∧ ins.transaction.operations = [.insert table row (some ins.name)] := by
  unfold insertRoot at h
  split at h
  · cases h
  · rename_i hcheck
    exact ⟨hcheck, operations_of_insertion h⟩

/-- A composed insertion under a parent has passed the check of its key, and inserts the row and its link. -/
theorem of_insertUnder {names : NameSupply} {cache : Cache} {table : String} {row : Row} {key : RowKey} {parent : Parent}
    {ins : Insertion} (h : (names.insertUnder cache table row key parent).1 = .ok ins) :
    ∃ holder, checkChild cache table row key parent = .ok holder ∧
      ins.transaction.operations = [.insert table row (some ins.name), .attach parent holder (.named ins.name)] := by
  unfold insertUnder at h
  split at h
  · cases h
  · rename_i holder hcheck
    exact ⟨holder, hcheck, operations_of_insertion h⟩

/-- The parent of a new row is found, and whichever scope its key has, the search for rows with that key finds nothing. -/
theorem of_checkChild {cache : Cache} {table : String} {row : Row} {key : RowKey} {parent : Parent} {holder : RowId}
    (h : checkChild cache table row key parent = .ok holder) :
    cache.parentId parent none = .ok holder ∧ ∃ wanted, key.extract row = .ok wanted ∧
      (match key.scope with
        | .table => cache.idsMeeting table wanted
        | .parent => cache.childrenMeeting parent holder table wanted) = .ok [] := by
  by_cases hselector : parent.selector = .holder
  · rw [checkChild, if_pos hselector] at h
    obtain ⟨_, h, -⟩ := bind_eq_ok_iff.mp h
    cases h
  · simp only [checkChild, if_neg hselector] at h
    obtain ⟨holder', hholder, h⟩ := bind_eq_ok_iff.mp h
    obtain ⟨wanted, hwanted, h⟩ := bind_eq_ok_iff.mp h
    cases hscope : key.scope <;> rw [hscope] at h
    all_goals
      obtain ⟨found, hfound, h⟩ := bind_eq_ok_iff.mp h
      obtain ⟨_, habsent, h⟩ := bind_eq_ok_iff.mp h
      cases h
      rw [Cache.eq_nil_of_requireAbsent habsent] at hfound
      exact ⟨hholder, wanted, hwanted, hfound⟩

end NameSupply

/-- No child of the parent has the key when none is found. -/
theorem Cache.of_childrenMeeting_eq_nil {c : Cache} {parent : Parent} {holder : RowId} {table : String} {key : Row}
    (h : c.childrenMeeting parent holder table key = .ok []) {holding row : Row} {id : RowId}
    (hholding : c.row? parent.table holder = some holding) (hrow : c.row? table id = some row) (hid : id ∈ holding.links parent.column) :
    row.meets id key = false := by
  obtain ⟨holding', hholding', h⟩ := bind_eq_ok_iff.mp h
  obtain ⟨found, hfound, h⟩ := bind_eq_ok_iff.mp h
  rw [row_eq_ok_iff, hholding] at hholding'
  cases hholding'
  have hnone := List.filter_eq_nil_iff.mp (Except.ok.inj h)
  rw [Bool.eq_false_iff]
  intro hmeets
  exact hnone id ((mem_of_idsMeeting hfound id).mpr ⟨row, hrow, hmeets⟩) (decide_eq_true hid)

end TableReplica
