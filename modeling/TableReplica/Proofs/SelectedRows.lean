import TableReplica.Proofs.Atomicity
import TableReplica.Proofs.SteadySearches

/-!
# Rows found and rows selected

The same key may be searched for in a cache, or sent to a server as the conditions of a selection. The cache compares a column with the
value that is wanted of it, the server compares their members, and the column of the identifier is a case of its own for both. Where the
two hold the same rows, the server selects the rows that the cache finds, in the order in which it finds them
(`Server.selects_what_is_found`).
-/

namespace TableReplica

/-! ## The conditions of a key -/

namespace Condition

variable (column : String) (v : Value)

theorem column_ofColumn : (ofColumn column v).column = column := by
  cases v with
  | uuid id =>
    rw [ofColumn]
    split
    · rename_i hcolumn
      exact hcolumn.symm
    · rfl
  | _ => rfl

theorem comparison_ofColumn : (ofColumn column v).comparison = .equal := by
  cases v with
  | uuid id =>
    rw [ofColumn]
    split <;> rfl
  | _ => rfl

/-- Whether it names the row or not, the condition compares with the value that is wanted. -/
theorem resolve_ofColumn (names : Assignment) : (ofColumn column v).operand.resolve names = .ok v := by
  cases v with
  | uuid id =>
    rw [ofColumn]
    split <;> rfl
  | _ => rfl

theorem placeholder?_ofColumn : (ofColumn column v).operand.placeholder? = none := by
  cases v with
  | uuid id =>
    rw [ofColumn]
    split <;> rfl
  | _ => rfl

end Condition

/-- The conditions of a key read no placeholder, so a selection by a key is a transaction on its own. -/
theorem Transaction.exists_selectWhere {table : String} {key : Row} (htable : table ≠ "") (hkey : key.isEmpty = false) :
    ∃ txn, selectWhere table key = .ok txn ∧ txn.operations = [.select table (key.entries.map (fun e => .ofColumn e.1 e.2))] := by
  have huses : (Operation.select table (key.entries.map (fun e => Condition.ofColumn e.1 e.2))).uses = [] := by
    unfold Operation.uses
    dsimp only
    rw [Operation.filter, List.append_nil, List.filterMap_eq_nil_iff]
    intro c hc
    obtain ⟨e, -, rfl⟩ := List.mem_map.mp hc
    exact Condition.placeholder?_ofColumn e.1 e.2
  have hfault : fault? [.select table (key.entries.map (fun e => Condition.ofColumn e.1 e.2))] = none := by
    have hop : operationFault? [] (.select table (key.entries.map (fun e => Condition.ofColumn e.1 e.2))) = none := by
      rw [operationFault?_eq_none_iff, huses]
      exact ⟨by simpa [Operation.table] using htable, by simp, by simp, rfl⟩
    rw [fault?, if_neg (by simp), scopeFault?, hop]
    rfl
  refine ⟨⟨_, hfault⟩, ?_, rfl⟩
  rw [selectWhere, if_neg (by rw [hkey]; decide), compose_of_fault?_eq_none hfault]

/-! ## One row -/

namespace Row

/-- The column of the identifier is compared with the identifier, and any other as a search compares it. -/
theorem test_column? (id : RowId) (row : Row) {column : String} {v : Value} (h : column = idColumn → ∃ id', v = .uuid id') :
    Comparison.equal.test (Value.stored (row.column? id column)) v.members =
      if column = idColumn then decide (v.rowId? = some id) else Value.meets (row.get? column) v := by
  by_cases hcolumn : column = idColumn
  · obtain ⟨id', rfl⟩ := h hcolumn
    rw [if_pos hcolumn, column?, if_pos hcolumn]
    simp [Comparison.test, Value.stored, Value.members, Value.membersAgree, Value.agrees, Value.rowId?, eq_comm]
  · rw [if_neg hcolumn, column?, if_neg hcolumn, Value.meets_eq_membersAgree]
    rfl

/-- A row passes the conditions of a key exactly when it meets the key. -/
theorem passes_ofColumns (names : Assignment) (id : RowId) (row : Row) {key : Row}
    (hid : ∀ v, key.get? idColumn = some v → ∃ id', v = .uuid id') :
    row.passes names id (key.entries.map (fun e => .ofColumn e.1 e.2)) = .ok (row.meets id key) := by
  have hentries : ∀ e ∈ key.entries, e.1 = idColumn → ∃ id', e.2 = .uuid id' := by
    intro e he hcolumn
    exact hid e.2 (hcolumn ▸ SortedMap.mem_entries_iff.mp he)
  rw [meets]
  generalize key.entries = entries at hentries
  induction entries with
  | nil => rfl
  | cons e rest ih =>
    obtain ⟨he, hrest⟩ := List.forall_mem_cons.mp hentries
    rw [List.map_cons, passes, Condition.resolve_ofColumn, List.all_cons]
    simp only [Condition.comparison_ofColumn, Condition.column_ofColumn]
    rw [test_column? id row he, ih hrest]
    generalize (if e.1 = idColumn then decide (e.2.rowId? = some id) else Value.meets (row.get? e.1) e.2) = hit
    cases hit <;> rfl

end Row

/-! ## All rows of a table -/

/-- The rows that match the conditions of a key are those that meet it. -/
theorem RowMap.matching_ofColumns (rows : RowMap) (names : Assignment) {key : Row}
    (hid : ∀ v, key.get? idColumn = some v → ∃ id', v = .uuid id') :
    rows.matching names (key.entries.map (fun e => .ofColumn e.1 e.2)) = .ok (rows.filter (fun id row => row.meets id key)) := by
  rw [matching, SortedMap.filterMapOk_of_forall_ok (g := fun id row => if row.meets id key then some row else none)
    (fun e _ => by rw [Row.passes_ofColumns names e.1 e.2 hid]; rfl)]
  congr 1
  apply SortedMap.ext_get?
  intro id
  rw [SortedMap.get?_filterMap, SortedMap.get?_filter]
  cases rows.get? id with
  | none => rfl
  | some row => rw [Option.bind_some, Option.filter_some]

/-- A search in a known table lists the rows that meet the key. -/
theorem Cache.idsMeeting_of_rows {cache : Cache} {table : String} {rows : RowMap} {key : Row} (hrows : cache.tables.get? table = some rows)
    (hkey : key.isEmpty = false) : cache.idsMeeting table key = .ok (rows.filter (fun id row => row.meets id key)).keys := by
  rw [idsMeeting, if_neg (by rw [hkey]; decide), search, rows_eq_ok_iff.mpr hrows]
  rfl

namespace Server

/-- A single operation that changes nothing is answered by a server that is not armed, unless its tables dangle already. -/
theorem transact_of_unchanged {supply : RowIdSupply} {s : Server} {txn : Transaction} {op : Operation} {effect : Effect}
    (hop : txn.operations = [op]) (happly : ∀ w : Workspace, w.tables = s.tables → w.apply supply op = .ok (effect, w)) :
    (s.transact supply txn).1 =
      match s.armed, s.tables.dangling? with
      | some refusal, _ => .error refusal
      | none, some cause => .error ⟨none, cause⟩
      | none, none => .ok [effect] := by
  rw [transact]
  cases s.armed with
  | some refusal => rfl
  | none =>
    have hrun : Workspace.run supply ⟨s.tables, ∅, s.drawn⟩ 0 txn.operations = (.ok [effect], ⟨s.tables, ∅, s.drawn⟩) := by
      rw [hop, Workspace.run, happly _ rfl]
      rfl
    simp only [execute, hrun]
    cases s.tables.dangling? <;> rfl

/-- Where a cache and a server hold the same rows of a table, a selection by a key gives the rows that a search for the key finds, in the
same order, each with its identifier in its column. The operation always does so, and a server answers with these rows unless it is
armed or its tables dangle already, as it would refuse any transaction that leaves them so. -/
theorem selects_what_is_found (supply : RowIdSupply) (cache : Cache) (server : Server) (table : String) (rows : RowMap) (key : Row)
    (htable : table ≠ "") (hcache : cache.tables.get? table = some rows) (hserver : server.rows table = rows)
    (hkey : key.isEmpty = false) (hid : ∀ v, key.get? idColumn = some v → ∃ id, v = .uuid id) :
    ∃ ids txn op selected, cache.idsMeeting table key = .ok ids ∧ Transaction.selectWhere table key = .ok txn ∧ txn.operations = [op] ∧
      (∀ w : Workspace, w.tables.rows table = rows → w.apply supply op = .ok (.selected selected, w)) ∧
      ((server.transact supply txn).1 =
        match server.armed, server.tables.dangling? with
        | some refusal, _ => .error refusal
        | none, some cause => .error ⟨none, cause⟩
        | none, none => .ok [.selected selected]) ∧
      selected.map (·.get? idColumn) = ids.map (fun id => some (.uuid id)) ∧
      List.Forall₂ (fun id row => ∃ stored, rows.get? id = some stored ∧ row = stored.insert idColumn (.uuid id)) ids selected := by
  obtain ⟨txn, htxn, hop⟩ := Transaction.exists_selectWhere htable hkey
  have happly : ∀ w : Workspace, w.tables.rows table = rows →
      w.apply supply (.select table (key.entries.map (fun e => .ofColumn e.1 e.2))) =
        .ok (.selected ((rows.filter (fun id row => row.meets id key)).entries.map (fun e => e.2.withId e.1)), w) := by
    intro w hw
    rw [Workspace.apply, hw, RowMap.matching_ofColumns rows w.names hid]
    rfl
  refine ⟨_, txn, _, _, Cache.idsMeeting_of_rows hcache hkey, htxn, hop, happly, ?_, ?_, ?_⟩
  · exact transact_of_unchanged hop (fun w hw => happly w (by rw [hw]; exact hserver))
  · rw [SortedMap.keys, List.map_map, List.map_map]
    exact List.map_congr_left (fun e _ => SortedMap.get?_insert_self e.2 idColumn _)
  · rw [SortedMap.keys, List.forall₂_map_left_iff, List.forall₂_map_right_iff, List.forall₂_same]
    intro e he
    exact ⟨e.2, SortedMap.mem_entries_iff.mp (List.mem_of_mem_filter he), rfl⟩

/-- Ports written in several ways: a name on its own and in a set, tags out of order, a weight that is no number. -/
def loosePorts : RowMap := .ofList [
  (Draws.rowIds 0 0, .ofList [("name", .set [.string "p"]), ("tags", .set [.integer 2, .integer 1]), ("up", .set [])]),
  (Draws.rowIds 0 1, .ofList [("name", .string "p"), ("tags", .set [.integer 2, .integer 1]), ("weight", .real ⟨0x7ff8000000000000⟩)]),
  (Draws.rowIds 0 2, .ofList [("name", .string "p"), ("tags", .set [.integer 1, .integer 2])])]

/-- The ports of a name that are not known to be up, by their tags. -/
def portKey : Row := .ofList [("name", .string "p"), ("tags", .set [.integer 2, .integer 1]), ("up", .set [])]

/-- Two of the ports are found and selected. -/
theorem selects_loosePorts :
    ∃ txn selected, Transaction.selectWhere "Port" portKey = .ok txn ∧
      Cache.idsMeeting ⟨.singleton "Port" loosePorts⟩ "Port" portKey = .ok [Draws.rowIds 0 1, Draws.rowIds 0 0] ∧
      (Server.transact (Draws.rowIds 0) { empty with tables := .singleton "Port" loosePorts } txn).1 = .ok [.selected selected] ∧
      selected.map (·.get? idColumn) = [some (.uuid (Draws.rowIds 0 1)), some (.uuid (Draws.rowIds 0 0))] := by
  have hnoId : portKey.get? idColumn = none := by decide +kernel
  have hrows : (SortedMap.singleton "Port" loosePorts).get? "Port" = some loosePorts := by
    rw [SortedMap.get?, SortedMap.singleton, SortedMap.lookup_cons_eq, if_pos rfl]
  have hserver : Tables.rows (.singleton "Port" loosePorts) "Port" = loosePorts := by
    rw [Tables.rows, SortedMap.getD, hrows, Option.getD_some]
  obtain ⟨ids, txn, -, selected, hids, htxn, -, -, hanswer, hcolumns, -⟩ :=
    selects_what_is_found (Draws.rowIds 0) ⟨.singleton "Port" loosePorts⟩ { empty with tables := .singleton "Port" loosePorts } "Port"
      loosePorts portKey (by decide) hrows hserver (by decide +kernel) (fun v hv => by rw [hnoId] at hv; cases hv)
  have hfound : Cache.idsMeeting ⟨.singleton "Port" loosePorts⟩ "Port" portKey = .ok [Draws.rowIds 0 1, Draws.rowIds 0 0] := by
    decide +kernel
  have hsound : Tables.dangling? (.singleton "Port" loosePorts) = none := by decide +kernel
  rw [hfound] at hids
  cases hids
  rw [show ({ empty with tables := .singleton "Port" loosePorts } : Server).tables.dangling? = none from hsound] at hanswer
  exact ⟨txn, selected, htxn, hfound, hanswer, hcolumns⟩

end Server

end TableReplica
