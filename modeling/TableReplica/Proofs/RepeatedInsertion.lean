import TableReplica.Proofs.LinkedInsertion
import TableReplica.Proofs.SearchedForms
import TableReplica.Proofs.TypedRecords

/-!
# Inserting the same row again

Once an insertion has been carried out and taken in, composing it again is refused exactly when the row is written as the schema stores
it in the columns of its key (`Session.insertRoot_again`), as the rows of records are (`Schema.writesKey_of_fits`). The search for the
key compares it as it was given, and only what is taken in is brought into form. So a key written in any other way that has the same form
is not found, and composing gives a second insertion (`Session.insertRoot_realPriority`).
-/

namespace TableReplica

open VirtualNetwork

/-- The row is stored under the identifier with the columns of its key as they are written. -/
structure Schema.WritesKey (s : Schema) (table : String) (key : RowKey) (id : RowId) (row : Row) : Prop where
  stored : (s.normalize table row).1.isEmpty = false
  columns : ∀ column ∈ key.columns, ∀ v, row.get? column = some v →
    if column = idColumn then v.rowId? = some id else Schema.Writes (s.kinds table) column v

/-- A row that fits the kinds of its table, as the row of a record does, is written as it is stored. -/
theorem Schema.writesKey_of_fits {s : Schema} {table : String} {key : RowKey} {row : Row} (h : Wire.Fits (s.kinds table) row)
    (hrow : row.isEmpty = false) (hkey : idColumn ∉ key.columns) (id : RowId) : s.WritesKey table key id row where
  stored := by
    rw [normalize_of_fits h]
    exact hrow
  columns := by
    intro column hcolumn v hv
    obtain ⟨kind, hkind, hholds⟩ := h column v hv
    have hid : column ≠ idColumn := fun heq => hkey (heq ▸ hcolumn)
    rw [if_neg hid, Writes, hkind]
    exact hholds.writes

/-! ## What a search for a key finds -/

/-- A row is found by the key of another when it meets each of the columns of the key. -/
theorem Row.meets_iff_of_extract {key : RowKey} {row wanted stored : Row} {id : RowId} (h : key.extract row = .ok wanted) :
    stored.meets id wanted = true ↔ ∀ column ∈ key.columns, ∀ v, row.get? column = some v →
      if column = idColumn then v.rowId? = some id else Value.meets (stored.get? column) v = true := by
  rw [meets, List.all_eq_true]
  constructor
  · intro hall column hcolumn v hv
    have hwanted : wanted.get? column = some v := by rw [RowKey.of_extract h, if_pos hcolumn, hv]
    have hmeets := hall (column, v) (SortedMap.mem_entries_iff.mpr hwanted)
    by_cases hid : column = idColumn <;> simpa [hid] using hmeets
  · intro hall e he
    have hwanted := SortedMap.mem_entries_iff.mp he
    rw [RowKey.of_extract h] at hwanted
    split at hwanted
    · rename_i hcolumn
      have hmeets := hall e.1 hcolumn e.2 hwanted
      by_cases hid : e.1 = idColumn <;> simpa [hid] using hmeets
    · cases hwanted

/-- What is kept of a row is found by the key of the row when the key is written as it is stored. -/
theorem Schema.any_kept_iff {s : Schema} {table : String} {key : RowKey} {row wanted : Row} (hfaults : (s.normalize table row).2 = [])
    (hwanted : key.extract row = .ok wanted) (id : RowId) :
    (s.kept table row).any (fun stored => stored.meets id wanted) = true ↔ s.WritesKey table key id row := by
  have hcolumns : (s.normalize table row).1.meets id wanted = true ↔ ∀ column ∈ key.columns, ∀ v, row.get? column = some v →
      if column = idColumn then v.rowId? = some id else Writes (s.kinds table) column v := by
    rw [Row.meets_iff_of_extract hwanted]
    refine forall₂_congr (fun column _ => forall₂_congr (fun v hv => ?_))
    split
    · exact Iff.rfl
    · rw [get?_normalize, hv, Option.bind_some, meets_normalizeColumn_iff (columnFault?_eq_none hfaults hv)]
  unfold kept Row.nonempty?
  split
  · rename_i hempty
    constructor
    · intro h
      cases h
    · rintro ⟨hstored, -⟩
      rw [hempty] at hstored
      cases hstored
  · rename_i hstored
    rw [Option.any_some, hcolumns]
    exact ⟨fun h => ⟨Bool.eq_false_iff.mpr hstored, h⟩, fun h => h.columns⟩

/-- Whether a row is there and meets what is wanted is told up to the signs of zeros. -/
theorem Row.any_meets_congr {found found' : Option Row} (h : found.map positiveZeros = found'.map positiveZeros) (id : RowId)
    (wanted : Row) : found.any (fun row => row.meets id wanted) = found'.any (fun row => row.meets id wanted) := by
  cases found with
  | none => rw [Option.map_eq_none_iff.mp h.symm]
  | some row =>
    obtain ⟨row', rfl, hzeros⟩ := Option.map_eq_some_iff.mp h.symm
    exact meets_of_positiveZeros_eq hzeros.symm wanted

namespace Cache

variable {c c' : Cache} {table : String} {wanted : Row} {ids : List RowId}

/-- A search that succeeds wants something, in a known table. -/
theorem knows_of_idsMeeting (h : c.idsMeeting table wanted = .ok ids) : wanted.isEmpty = false ∧ c.knows table = true := by
  unfold idsMeeting at h
  split at h
  · cases h
  · rename_i hne
    obtain ⟨rows, hrows, -⟩ := map_eq_ok_iff.mp h
    exact ⟨Bool.eq_false_iff.mpr hne, (knows_iff c table).mpr ⟨rows, rows_eq_ok_iff.mp hrows⟩⟩

/-- Where nothing was found and every row but one is found as it was, that row is all that can be found. -/
theorem idsMeeting_of_others (hk : c'.knows table = c.knows table) (hnone : c.idsMeeting table wanted = .ok []) {id : RowId}
    (hothers : ∀ id', id' ≠ id →
      (c'.row? table id').any (fun row => row.meets id' wanted) = (c.row? table id').any (fun row => row.meets id' wanted)) :
    c'.idsMeeting table wanted = .ok (if (c'.row? table id).any (fun row => row.meets id wanted) then [id] else []) := by
  obtain ⟨hne, hknows⟩ := knows_of_idsMeeting hnone
  obtain ⟨found, hfound⟩ := exists_idsMeeting (hk.trans hknows) hne
  have hmem : ∀ id', id' ∈ found ↔ id' = id ∧ (c'.row? table id).any (fun row => row.meets id wanted) = true := by
    intro id'
    rw [mem_of_idsMeeting hfound, ← Option.any_eq_true]
    by_cases hid : id' = id
    · subst hid
      exact (and_iff_right rfl).symm
    · rw [hothers id' hid]
      refine iff_of_false ?_ (fun h => hid h.1)
      intro hany
      cases (mem_of_idsMeeting hnone id').mpr ((Option.any_eq_true _ _).mp hany)
  rw [hfound]
  split
  · rename_i hany
    have hperm := (List.perm_ext_iff_of_nodup (nodup_of_idsMeeting hfound) (List.nodup_singleton id)).mpr (by simpa [hany] using hmem)
    rw [List.perm_singleton.mp hperm]
  · rename_i hany
    rw [List.eq_nil_iff_forall_not_mem.mpr (fun id' hid' => hany ((hmem id').mp hid').2)]

end Cache

/-! ## Composing once more -/

/-- The only fault that one insertion may have is that it names no table. -/
theorem Transaction.fault?_insert (table : String) (row : Row) (name : Placeholder) :
    fault? [.insert table row (some name)] = if table.isEmpty then some .noTable else none := by
  simp [fault?, scopeFault?, operationFault?, Operation.table, Operation.uses, Operation.filter, Operation.defined?,
    Operation.changesMatches]

namespace NameSupply

/-- A row that was inserted under one placeholder can be inserted under any other. -/
theorem exists_insertion {table : String} {row : Row} {ins : Insertion}
    (h : ins.transaction.operations = [.insert table row (some ins.name)]) (names : NameSupply) :
    ∃ again, (names.insertion table row (fun _ => [])).1 = .ok again := by
  have hfault := ins.transaction.wellScoped
  rw [h, Transaction.fault?_insert] at hfault
  have hagain : Transaction.fault? [.insert table row (some names.placeholder)] = none := by rw [Transaction.fault?_insert, hfault]
  refine ⟨⟨⟨_, hagain⟩, names.placeholder⟩, ?_⟩
  rw [insertion, Transaction.compose_of_fault?_eq_none hagain]
  rfl

/-- A key whose rows are searched for in the whole table must not be found. -/
theorem checkRoot_inTable {cache : Cache} {table : String} {row wanted : Row} {columns : List String} {found : List RowId}
    (hwanted : (RowKey.inTable columns).extract row = .ok wanted) (hfound : cache.idsMeeting table wanted = .ok found) :
    checkRoot cache table row (.inTable columns) = Cache.requireAbsent table wanted found := by
  have hscope : ¬(RowKey.inTable columns).scope = .parent := fun hscope => by cases hscope
  simp only [checkRoot, if_neg hscope]
  rw [hwanted]
  show (cache.idsMeeting table wanted >>= _) = _
  rw [hfound]
  rfl

end NameSupply

namespace Session

variable {supply : RowIdSupply} {tags : Nat → UInt32} {s s' : Session Server} {now : Tables} {table : String} {id : RowId} {row : Row}

/-- When a new row is taken in, a search that found nothing before finds what is kept of the row, or still nothing. -/
theorem Committed.idsMeeting_takeFeed (h : Committed s s' now) (hs : s.Converged) (hgains : s.state.tables.Gains now table id row)
    {wanted : Row} (hnone : s.client.cache.idsMeeting table wanted = .ok []) :
    s'.takeFeed.client.cache.idsMeeting table wanted =
      .ok (if (s.client.schema.kept table row).any (fun stored => stored.meets id wanted) then [id] else []) := by
  have hknows : s'.takeFeed.client.cache.knows table = s.client.cache.knows table := h.knows_takeFeed hs.drained table
  have hschema : s'.takeFeed.client.replica.schema = s.client.replica.schema := h.schema_takeFeed hs.drained
  have hmirrors := (h.converged_takeFeed hs).mirrors
  rw [tables_takeFeed, h.tables] at hmirrors
  have hnew : (s'.takeFeed.client.cache.row? table id).map Row.positiveZeros = (s.client.schema.kept table row).map Row.positiveZeros := by
    have hsees := hmirrors.sees table id (hknows.trans (Cache.knows_of_idsMeeting hnone).2)
    rw [hschema, hgains, if_pos ⟨rfl, rfl⟩] at hsees
    exact hsees
  rw [Cache.idsMeeting_of_others hknows hnone, Row.any_meets_congr hnew]
  intro id' hid
  refine Row.any_meets_congr (hs.mirrors.sees.row?_of_eq hmirrors.sees hschema hknows ?_) id' wanted
  rw [hgains, if_neg (fun heq => hid heq.2.symm)]

/-- Inserting a row that hangs from no parent. -/
theorem inserted_insertRoot (supply : RowIdSupply) (tags : Nat → UInt32) (s : Session Server) (names : NameSupply) (table : String)
    (row : Row) (key : RowKey) :
    Inserted supply s
      (fun now => ∃ ins : Insertion, ins.transaction.operations = [.insert table row (some ins.name)] ∧
        NameSupply.checkRoot s.client.cache table row key = .ok () ∧ s.state.tables.Gains now table (supply s.state.drawn) row)
      (s.submitInsertion (Server.services supply tags) (names.insertRoot s.client.cache table row key).1) := by
  apply inserted_submitInsertion supply tags
  intro ins hins
  obtain ⟨hcheck, hops⟩ := NameSupply.of_insertRoot hins
  exact ⟨table, row, [], hops, fun op hop => (List.not_mem_nil hop).elim, Server.drawn_worked_insert hops, ins, hops, hcheck,
    Server.gains_worked_insert hops⟩

/-- When a row without columns at fault has been inserted by a session that had converged, and its feed has been taken in, inserting the
row again is refused as a duplicate of it if the key is written as it is stored. Otherwise a second insertion is composed. -/
theorem insertRoot_again {names : NameSupply} {columns : List String} (hs : s.Converged)
    (hfaults : (s.client.schema.normalize table row).2 = [])
    (h : s.submitInsertion (Server.services supply tags) (names.insertRoot s.client.cache table row (.inTable columns)).1 = (.ok id, s')) :
    ∃ wanted, (RowKey.inTable columns).extract row = .ok wanted ∧ ∀ names' : NameSupply,
      (s.client.schema.WritesKey table (.inTable columns) id row →
        (names'.insertRoot s'.takeFeed.client.cache table row (.inTable columns)).1 = .error (.duplicate table id wanted)) ∧
      (¬s.client.schema.WritesKey table (.inTable columns) id row →
        ∃ again, (names'.insertRoot s'.takeFeed.client.cache table row (.inTable columns)).1 = .ok again) := by
  have hinserted := inserted_insertRoot supply tags s names table row (.inTable columns)
  rw [h] at hinserted
  cases hinserted with
  | inserted hcommitted hchange _ =>
    obtain ⟨ins, hops, hcheck, hgains⟩ := hchange
    obtain ⟨wanted, hwanted, hnone⟩ := NameSupply.of_checkRoot hcheck
    have hfound := hcommitted.idsMeeting_takeFeed hs hgains hnone
    have hkept := Schema.any_kept_iff hfaults hwanted (supply s.state.drawn)
    have hagain := NameSupply.checkRoot_inTable hwanted hfound
    refine ⟨wanted, hwanted, fun names' => ⟨?_, ?_⟩⟩
    · intro hwrites
      rw [if_pos (hkept.mpr hwrites)] at hagain
      rw [NameSupply.insertRoot, hagain]
      rfl
    · intro hwrites
      rw [if_neg (fun hany => hwrites (hkept.mp hany))] at hagain
      obtain ⟨again, hcomposed⟩ := NameSupply.exists_insertion hops names'
      refine ⟨again, ?_⟩
      rw [NameSupply.insertRoot, hagain]
      exact hcomposed

/-- A name in a set of its own. -/
def nameSet : Row := .singleton "name" (.set [.string "sw0"])

/-- A switch whose name is given as the set that holds it alone is found again, and is not inserted twice. -/
theorem insertRoot_again_nameSet :
    ∃ c id s' wanted, Client.build (.ofDatabase "net") models [] = .ok c ∧
      (⟨c, .empty, 0⟩ : Session Server).submitInsertion (Server.services (Draws.rowIds 0) (fun _ => 0))
        ((NameSupply.ofTag 0).insertRoot c.cache switchModel.table nameSet (.inTable ["name"])).1 = (.ok id, s') ∧
      ((NameSupply.ofTag 1).insertRoot s'.takeFeed.client.cache switchModel.table nameSet (.inTable ["name"])).1 =
        .error (.duplicate switchModel.table id wanted) := by
  have hrun : (Client.build (.ofDatabase "net") models []).map (fun c =>
      ((c.schema.normalize switchModel.table nameSet).2, (c.schema.normalize switchModel.table nameSet).1.isEmpty,
        (c.schema.kinds switchModel.table).get? "name",
        ((⟨c, .empty, 0⟩ : Session Server).submitInsertion (Server.services (Draws.rowIds 0) (fun _ => 0))
          ((NameSupply.ofTag 0).insertRoot c.cache switchModel.table nameSet (.inTable ["name"])).1).1)) =
        .ok ([], false, some (.scalar .string), .ok (Draws.rowIds 0 0)) := by
    decide +kernel
  obtain ⟨c, hbuilt, hfacts⟩ := map_eq_ok_iff.mp hrun
  simp only [Prod.mk.injEq] at hfacts
  obtain ⟨hfaults, hstored, hkind, hanswer⟩ := hfacts
  have hwrites : c.schema.WritesKey switchModel.table (.inTable ["name"]) (Draws.rowIds 0 0) nameSet := by
    refine ⟨hstored, ?_⟩
    intro column hcolumn v hv
    cases List.mem_singleton.mp hcolumn
    have hname : v = .set [.string "sw0"] := Option.some.inj (hv.symm.trans (by decide))
    rw [if_neg (by decide), Schema.Writes, hkind, hname]
    exact ⟨Nat.le_refl 1, fun item hitem => List.mem_singleton.mp hitem ▸ trivial⟩
  obtain ⟨wanted, -, hagain⟩ := insertRoot_again (converged_new hbuilt) hfaults (Prod.ext hanswer rfl)
  exact ⟨c, Draws.rowIds 0 0, _, wanted, hbuilt, Prod.ext hanswer rfl, (hagain (.ofTag 1)).1 hwrites⟩

/-- The priority 1001, written as a real. -/
def realPriority : Row := .singleton "priority" (.real (.ofNat 1001))

/-- A rule whose priority is a real that stands for an integer has no column at fault, and it is composed for insertion again after it has
been inserted. -/
theorem insertRoot_realPriority :
    ∃ c id s' again, Client.build (.ofDatabase "net") models [] = .ok c ∧ (⟨c, .empty, 0⟩ : Session Server).Converged ∧
      (c.schema.normalize ruleModel.table realPriority).2 = [] ∧
      (⟨c, .empty, 0⟩ : Session Server).submitInsertion (Server.services (Draws.rowIds 0) (fun _ => 0))
        ((NameSupply.ofTag 0).insertRoot c.cache ruleModel.table realPriority (.inTable ["priority"])).1 = (.ok id, s') ∧
      ((NameSupply.ofTag 1).insertRoot s'.takeFeed.client.cache ruleModel.table realPriority (.inTable ["priority"])).1 = .ok again := by
  have hrun : (Client.build (.ofDatabase "net") models []).map (fun c =>
      let first := (⟨c, .empty, 0⟩ : Session Server).submitInsertion (Server.services (Draws.rowIds 0) (fun _ => 0))
        ((NameSupply.ofTag 0).insertRoot c.cache ruleModel.table realPriority (.inTable ["priority"])).1
      ((c.schema.normalize ruleModel.table realPriority).2, first.1,
        ((NameSupply.ofTag 1).insertRoot first.2.takeFeed.client.cache ruleModel.table realPriority (.inTable ["priority"])).1.map
          (fun again => again.name))) = .ok ([], .ok (Draws.rowIds 0 0), .ok (.numbered 1 0)) := by
    decide +kernel
  obtain ⟨c, hbuilt, hfacts⟩ := map_eq_ok_iff.mp hrun
  simp only [Prod.mk.injEq] at hfacts
  obtain ⟨hfaults, hanswer, hsecond⟩ := hfacts
  obtain ⟨again, hagain, -⟩ := map_eq_ok_iff.mp hsecond
  exact ⟨c, Draws.rowIds 0 0, _, again, hbuilt, converged_new hbuilt, hfaults, Prod.ext hanswer rfl, hagain⟩

end Session

end TableReplica
