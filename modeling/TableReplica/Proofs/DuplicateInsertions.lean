import TableReplica.Proofs.FoundNames
import TableReplica.Proofs.LinkedRemoval

/-!
# Duplicates and their removal

An insertion is refused as a duplicate only when a row with the key of the new one has been found (`Session.of_addSwitchPort_duplicate`).
The call that removes a switch, a set of addresses or a rule finds it again. A port is looked up by its name and then by the switch that
holds it, so its removal finds nothing exactly when no switch does (`Session.isMissing_removeSwitchPort_iff`).
-/

namespace TableReplica

open VirtualNetwork

/-! ## Errors of look-ups -/

namespace Cache

variable {c : Cache} {table : String} {wanted : Row} {e : Error}

/-- A search that fails does not report a duplicate. -/
theorem isDuplicate_of_idsMeeting (h : c.idsMeeting table wanted = .error e) : e.isDuplicate = false := by
  unfold idsMeeting search rows at h
  split at h
  · cases h
    rfl
  · split at h
    · cases h
    · cases h
      rfl

theorem isDuplicate_of_onlyHit {ids : List RowId} (h : onlyHit table wanted ids = .error e) : e.isDuplicate = false := by
  match ids with
  | [] =>
    cases h
    rfl
  | [_] => cases h
  | _ :: _ :: _ =>
    cases h
    rfl

theorem isDuplicate_of_onlyRow (h : c.onlyRow table wanted = .error e) : e.isDuplicate = false := by
  rcases bind_eq_error_iff.mp h with h | ⟨ids, -, h⟩
  · exact isDuplicate_of_idsMeeting h
  · exact isDuplicate_of_onlyHit h

theorem isDuplicate_of_row {id : RowId} (h : c.row table id = .error e) : e.isDuplicate = false := by
  unfold row at h
  split at h
  · rename_i hrows
    unfold rows at hrows
    split at hrows
    · cases hrows
    · cases hrows
      cases h
      rfl
  · split at h
    · cases h
    · cases h
      rfl

/-- A parent that must be there before its child is looked for by itself. -/
theorem isDuplicate_of_parentId {parent : Parent} (h : c.parentId parent none = .error e) : e.isDuplicate = false := by
  unfold parentId at h
  split at h
  · rename_i id _
    cases hrow : c.row parent.table id with
    | error e' =>
      rw [hrow] at h
      cases h
      exact isDuplicate_of_row hrow
    | ok row =>
      rw [hrow] at h
      cases h
  · exact isDuplicate_of_onlyRow h
  · cases h
    rfl

theorem isDuplicate_of_childrenMeeting {parent : Parent} {holder : RowId} (h : c.childrenMeeting parent holder table wanted = .error e) :
    e.isDuplicate = false := by
  rcases bind_eq_error_iff.mp h with h | ⟨holding, -, h⟩
  · exact isDuplicate_of_row h
  · rcases bind_eq_error_iff.mp h with h | ⟨found, -, h⟩
    · exact isDuplicate_of_idsMeeting h
    · cases h

theorem isDuplicate_of_idsAmong {key : Row} {candidates : List (String × String)} (h : c.idsAmong key candidates = .error e) :
    e.isDuplicate = false := by
  induction candidates with
  | nil => cases h
  | cons candidate rest ih =>
    rcases bind_eq_error_iff.mp h with h | ⟨found, -, h⟩
    · unfold idsKnown at h
      split at h
      · rename_i hfound
        split at h
        · cases h
        · cases h
          exact isDuplicate_of_idsMeeting hfound
      · exact isDuplicate_of_idsMeeting h
    · rcases bind_eq_error_iff.mp h with h | ⟨others, -, h⟩
      · exact ih h
      · cases h

theorem isDuplicate_of_onlyParent {key : Row} {candidates : List (String × String)} (h : c.onlyParent candidates key = .error e) :
    e.isDuplicate = false := by
  unfold onlyParent at h
  split at h
  · cases h
    rfl
  · rcases bind_eq_error_iff.mp h with h | ⟨hits, -, h⟩
    · exact isDuplicate_of_idsAmong h
    · split at h
      · cases h
        rfl
      · cases h
      · cases h
        rfl

/-- What must be absent and is not is reported as a duplicate of the first row found. -/
theorem eq_of_requireAbsent {ids : List RowId} (h : requireAbsent table wanted ids = .error e) :
    ∃ id rest, ids = id :: rest ∧ e = .duplicate table id wanted := by
  cases ids with
  | nil => cases h
  | cons id rest =>
    cases h
    exact ⟨id, rest, rfl, rfl⟩

/-- Where something is found, the only hit is not missing. -/
theorem isMissing_of_onlyHit_cons {id : RowId} {rest : List RowId} (h : onlyHit table wanted (id :: rest) = .error e) :
    e.isMissing = false := by
  cases rest with
  | nil => cases h
  | cons other rest =>
    cases h
    rfl

end Cache

/-- A key that cannot be taken from a row is not reported as a duplicate. -/
theorem RowKey.isDuplicate_of_extract {key : RowKey} {row : Row} {e : Error} (h : key.extract row = .error e) : e.isDuplicate = false := by
  unfold extract at h
  split at h
  · cases h
    rfl
  · split at h
    · cases h
      rfl
    · cases h

/-- A violation of the contract is reported as such. -/
theorem eq_contract_of_asError {α : Type} {x : Except Violation α} {e : Error} (h : asError x = .error e) : ∃ v, e = .contract v := by
  cases x with
  | error v =>
    cases h
    exact ⟨v, rfl⟩
  | ok a => cases h

/-- A row that is found is not missing when it is to be deleted. -/
theorem Cache.isMissing_of_removeRow {c : Cache} {table : String} {key : Row} {id : RowId} {rest : List RowId} {e : Error}
    (hfound : c.idsMeeting table key = .ok (id :: rest)) (h : c.removeRow table key = .error e) : e.isMissing = false := by
  rcases bind_eq_error_iff.mp h with h | ⟨only, -, h⟩
  · rw [onlyRow, hfound] at h
    exact isMissing_of_onlyHit_cons h
  · obtain ⟨v, rfl⟩ := eq_contract_of_asError h
    rfl

/-- Neither is a child that is found under a parent that is found. -/
theorem Cache.isMissing_of_removeChild {c : Cache} {table : String} {key : Row} {parent : Parent} {holder id : RowId} {rest : List RowId}
    {e : Error} (hholder : c.parentId parent none = .ok holder)
    (hfound : c.childrenMeeting parent holder table key = .ok (id :: rest)) (h : c.removeChild table key parent = .error e) :
    e.isMissing = false := by
  rcases bind_eq_error_iff.mp h with h | ⟨link, -, h⟩
  · rw [onlyLink_of_parentId hholder, hfound] at h
    cases honly : onlyHit table key (id :: rest) with
    | error e' =>
      rw [Except.bind, honly] at h
      cases h
      exact isMissing_of_onlyHit_cons honly
    | ok child =>
      rw [Except.bind, honly] at h
      cases h
  · obtain ⟨v, rfl⟩ := eq_contract_of_asError h
    rfl

/-- A record that cannot be written is not reported as a duplicate. -/
theorem Schema.isDuplicate_of_encode {s : Schema} {record : Record} {e : Error} (h : s.encode record = .error e) :
    e.isDuplicate = false := by
  unfold encode model at h
  split at h
  · rename_i hmodel
    split at hmodel
    · cases hmodel
    · cases hmodel
      cases h
      rfl
  · split at h
    · obtain ⟨v, rfl⟩ := eq_contract_of_asError h
      rfl
    · cases h
      rfl

/-- A site that is not resolved is not reported as a duplicate. -/
theorem VirtualNetwork.RuleSite.isDuplicate_of_parent {site : RuleSite} {c : Cache} {e : Error} (h : site.parent c = .error e) :
    e.isDuplicate = false := by
  cases site with
  | switch name => cases h
  | group name => cases h
  | row table id =>
    rw [parent] at h
    split at h
    · cases h
    · cases h
      rfl
  | anyNamed name => exact Cache.isDuplicate_of_onlyParent h

/-- What is submitted is answered or refused. -/
theorem Session.eq_refused_of_submit {σ : Type} {services : Services σ} {s : Session σ} {txn : Transaction} {e : Error}
    (h : (s.submit services txn).1 = .error e) : ∃ refusal operation, e = .refused refusal operation := by
  unfold submit Executor.submit Transaction.settle at h
  dsimp only at h
  split at h
  · cases h
    exact ⟨_, _, rfl⟩
  · split at h
    · cases h
    · cases h
      exact ⟨_, _, rfl⟩

/-! ## Insertions that are refused as duplicates -/

namespace NameSupply

variable {names : NameSupply} {cache : Cache} {table : String} {row : Row} {columns : List String} {e : Error}

/-- A row without a parent is a duplicate only of a row that has been found. -/
theorem of_checkRoot_duplicate (h : checkRoot cache table row (.inTable columns) = .error e) (hdup : e.isDuplicate = true) :
    ∃ wanted id rest, (RowKey.inTable columns).extract row = .ok wanted ∧ cache.idsMeeting table wanted = .ok (id :: rest) ∧
      e = .duplicate table id wanted := by
  have hscope : ¬(RowKey.inTable columns).scope = .parent := nofun
  simp only [checkRoot, if_neg hscope] at h
  rcases bind_eq_error_iff.mp h with h | ⟨wanted, hwanted, h⟩
  · rw [RowKey.isDuplicate_of_extract h] at hdup
    cases hdup
  rcases bind_eq_error_iff.mp h with h | ⟨found, hfound, h⟩
  · rw [Cache.isDuplicate_of_idsMeeting h] at hdup
    cases hdup
  obtain ⟨id, rest, rfl, rfl⟩ := Cache.eq_of_requireAbsent h
  exact ⟨wanted, id, rest, hwanted, hfound, rfl⟩

/-- A row under a parent is a duplicate only of a row that has been found in the scope of its key. -/
theorem of_checkChild_duplicate {key : RowKey} {parent : Parent} (h : checkChild cache table row key parent = .error e)
    (hdup : e.isDuplicate = true) :
    ∃ holder wanted id rest, cache.parentId parent none = .ok holder ∧ key.extract row = .ok wanted ∧
      (match key.scope with
        | .table => cache.idsMeeting table wanted
        | .parent => cache.childrenMeeting parent holder table wanted) = .ok (id :: rest) ∧
      e = .duplicate table id wanted := by
  by_cases hselector : parent.selector = .holder
  · rw [checkChild, if_pos hselector] at h
    cases h
    cases hdup
  simp only [checkChild, if_neg hselector] at h
  rcases bind_eq_error_iff.mp h with h | ⟨holder, hholder, h⟩
  · rw [Cache.isDuplicate_of_parentId h] at hdup
    cases hdup
  rcases bind_eq_error_iff.mp h with h | ⟨wanted, hwanted, h⟩
  · rw [RowKey.isDuplicate_of_extract h] at hdup
    cases hdup
  cases hscope : key.scope with
  | table =>
    rw [hscope] at h
    rcases bind_eq_error_iff.mp h with h | ⟨found, hfound, h⟩
    · rw [Cache.isDuplicate_of_idsMeeting h] at hdup
      cases hdup
    · rcases bind_eq_error_iff.mp h with h | ⟨_, -, h⟩
      · obtain ⟨id, rest, rfl, rfl⟩ := Cache.eq_of_requireAbsent h
        exact ⟨holder, wanted, id, rest, hholder, hwanted, hfound, rfl⟩
      · cases h
  | parent =>
    rw [hscope] at h
    rcases bind_eq_error_iff.mp h with h | ⟨found, hfound, h⟩
    · rw [Cache.isDuplicate_of_childrenMeeting h] at hdup
      cases hdup
    · rcases bind_eq_error_iff.mp h with h | ⟨_, -, h⟩
      · obtain ⟨id, rest, rfl, rfl⟩ := Cache.eq_of_requireAbsent h
        exact ⟨holder, wanted, id, rest, hholder, hwanted, hfound, rfl⟩
      · cases h

/-- Composing an insertion that has been checked does not report a duplicate. -/
theorem isDuplicate_of_insertion {rest : Placeholder → List Operation} (h : (names.insertion table row rest).1 = .error e) :
    e.isDuplicate = false := by
  cases hcompose : Transaction.compose (.insert table row (some names.placeholder) :: rest names.placeholder) with
  | error e' =>
    simp only [insertion, hcompose] at h
    cases h
    obtain ⟨v, rfl⟩ := eq_contract_of_asError hcompose
    rfl
  | ok txn =>
    simp only [insertion, hcompose] at h
    cases h

end NameSupply

namespace Session

variable {σ : Type} {services : Services σ} {s s' : Session σ} {e : Error}

/-- An insertion that is refused as a duplicate has not been submitted. -/
theorem of_submitInsertion_duplicate {composed : Except Error Insertion} (h : s.submitInsertion services composed = (.error e, s'))
    (hdup : e.isDuplicate = true) : composed = .error e ∧ s' = s := by
  cases composed with
  | error e' =>
    cases h
    exact ⟨rfl, rfl⟩
  | ok ins =>
    obtain ⟨hanswer, -⟩ := Prod.mk.inj h
    rcases bind_eq_error_iff.mp hanswer with hrefused | ⟨reply, -, hid⟩
    · obtain ⟨refusal, operation, rfl⟩ := eq_refused_of_submit hrefused
      cases hdup
    · unfold insertedId at hid
      split at hid
      · cases hid
      · cases hid
        cases hdup

/-- A port is refused as a duplicate when its name has been found among the ports, and nothing but the name supply is then used up. -/
theorem of_addSwitchPort_duplicate {switch : String} {p : SwitchPort} (h : s.addSwitchPort services switch p = (.error e, s'))
    (hdup : e.isDuplicate = true) :
    s' = (s.newNames services).2 ∧ ∃ row wanted id rest, s.client.schema.encode p.toRecord = .ok row ∧
      nameKey.extract row = .ok wanted ∧ s.client.cache.idsMeeting switchPortModel.table wanted = .ok (id :: rest) ∧
      e = .duplicate switchPortModel.table id wanted := by
  unfold addSwitchPort at h
  split at h
  · cases h
    cases hdup
  · obtain ⟨hcomposed, rfl⟩ := of_submitInsertion_duplicate h hdup
    refine ⟨rfl, ?_⟩
    rcases bind_eq_error_iff.mp hcomposed with hencode | ⟨row, hrow, hinsert⟩
    · rw [Schema.isDuplicate_of_encode hencode] at hdup
      cases hdup
    · unfold NameSupply.insertUnder at hinsert
      split at hinsert
      · rename_i hcheck
        cases hinsert
        obtain ⟨_, wanted, id, rest, -, hwanted, hfound, rfl⟩ := NameSupply.of_checkChild_duplicate hcheck hdup
        exact ⟨row, wanted, id, rest, hrow, hwanted, hfound, rfl⟩
      · rw [NameSupply.isDuplicate_of_insertion hinsert] at hdup
        cases hdup

/-- A removal that composes nothing answers why, and one that is submitted never answers that something is missing. -/
theorem isMissing_submitComposed_iff {composed : Except Error Transaction} :
    (∃ e, (s.submitComposed services composed).1 = .error e ∧ e.isMissing = true) ↔ ∃ e, composed = .error e ∧ e.isMissing = true := by
  cases composed with
  | error e =>
    constructor <;>
    · rintro ⟨e', heq, hmissing⟩
      cases heq
      exact ⟨e, rfl, hmissing⟩
  | ok txn =>
    refine iff_of_false ?_ (fun ⟨_, heq, _⟩ => nomatch heq)
    rintro ⟨e, hanswer, hmissing⟩
    cases hsubmit : (s.submit services txn).1 with
    | ok reply =>
      simp only [submitComposed, hsubmit] at hanswer
      cases hanswer
    | error e' =>
      simp only [submitComposed, hsubmit] at hanswer
      cases hanswer
      obtain ⟨refusal, operation, rfl⟩ := eq_refused_of_submit hsubmit
      cases hmissing

/-- A call whose intent was composed does not report a missing row. -/
theorem isMissing_of_submitComposed {composed : Except Error Transaction} (h : ∀ e, composed = .error e → e.isMissing = false)
    {e : Error} (hanswer : (s.submitComposed services composed).1 = .error e) : e.isMissing = false := by
  rw [← Bool.not_eq_true]
  intro hmissing
  obtain ⟨e', hcomposed, hmissing'⟩ := isMissing_submitComposed_iff.mp ⟨e, hanswer, hmissing⟩
  rw [h e' hcomposed] at hmissing'
  cases hmissing'

/-! ## What is found again

A switch, a set of addresses or a rule is looked up by the call that removes it as it was by the call that was refused, so it is found.
-/

/-- A record with a name of its own that is refused as a duplicate is found by that name. -/
theorem isMissing_removeNamed_of_duplicate (hserves : s.client.replica.Serves models) {m : Model} (hm : m ∈ namedModels)
    {record : Record} (htable : record.table = m.table) (htype : record.type = m.type)
    (h : s.addNamed services record = (.error e, s')) (hdup : e.isDuplicate = true) {e' : Error}
    (hremove : (s'.removeNamed services m.table (record.text "name")).1 = .error e') : e'.isMissing = false := by
  obtain ⟨hcomposed, rfl⟩ := of_submitInsertion_duplicate h hdup
  rcases bind_eq_error_iff.mp hcomposed with hencode | ⟨row, hrow, hinsert⟩
  · rw [Schema.isDuplicate_of_encode hencode] at hdup
    cases hdup
  unfold NameSupply.insertRoot at hinsert
  split at hinsert
  · rename_i hcheck
    cases hinsert
    obtain ⟨wanted, id, rest, hwanted, hfound, -⟩ := NameSupply.of_checkRoot_duplicate hcheck hdup
    have hfields : ∀ m ∈ namedModels, Field.mandatory "name" .string ∈ m.fields := by decide
    have hname : row.get? "name" = some (.string (record.text "name")) :=
      name_of_encode (mem_models_of_named hm) (hfields m hm) rfl rfl (hserves.encode (mem_models_of_named hm) htable htype hrow)
    cases (extract_nameKey hname).symm.trans hwanted
    rw [htable] at hfound
    rw [removeNamed] at hremove
    exact isMissing_of_submitComposed (fun _ => Cache.isMissing_of_removeRow hfound) hremove
  · rw [NameSupply.isDuplicate_of_insertion hinsert] at hdup
    cases hdup

/-- A rule that is refused as a duplicate is found at its site. -/
theorem isMissing_removeRule_of_duplicate (hserves : s.client.replica.Serves models) {site : RuleSite} {rule : AccessRule}
    (h : s.addRule services site rule = (.error e, s')) (hdup : e.isDuplicate = true) {e' : Error}
    (hremove : (s'.removeRule services site rule.direction rule.priority rule.packets).1 = .error e') : e'.isMissing = false := by
  unfold addRule at h
  split at h
  · cases h
    cases hdup
  obtain ⟨hcomposed, rfl⟩ := of_submitInsertion_duplicate h hdup
  rcases bind_eq_error_iff.mp hcomposed with hsite | ⟨parent, hparent, hcomposed⟩
  · rw [RuleSite.isDuplicate_of_parent hsite] at hdup
    cases hdup
  rcases bind_eq_error_iff.mp hcomposed with hencode | ⟨row, hrow, hinsert⟩
  · rw [Schema.isDuplicate_of_encode hencode] at hdup
    cases hdup
  unfold NameSupply.insertUnder at hinsert
  split at hinsert
  · rename_i hcheck
    cases hinsert
    obtain ⟨holder, wanted, id, rest, hholder, hwanted, hfound, -⟩ := NameSupply.of_checkChild_duplicate hcheck hdup
    cases ruleLike_of_extract (hserves.encode ruleModel_mem rfl rfl hrow) hwanted
    rw [removeRule] at hremove
    refine isMissing_of_submitComposed ?_ hremove
    intro e hdelete
    rcases bind_eq_error_iff.mp hdelete with hsite | ⟨parent', hparent', hremoved⟩
    · exact nomatch hparent.symm.trans hsite
    · cases hparent.symm.trans hparent'
      exact Cache.isMissing_of_removeChild hholder hfound hremoved
  · rw [NameSupply.isDuplicate_of_insertion hinsert] at hdup
    cases hdup

end Session

/-! ## What is removed by name -/

namespace Tables.WellKeyed

variable {tables : Tables} {r : Replica} {name : String} {id holder : RowId} {row : Row}

/-- A name that no row of a table bears is reported as missing from it. -/
theorem onlyRow_of_none (h : tables.WellKeyed) (hmirrors : r.Mirrors tables) (hserves : r.Serves models) {m : Model}
    (hm : m ∈ namedModels) (hnone : ∀ id row, tables.row? m.table id = some row → row.get? "name" ≠ some (.string name)) :
    r.cache.onlyRow m.table (named name) = .error (.missing [m.table] (.key (named name))) := by
  rw [Cache.onlyRow, h.idsMeeting_named_of_none hmirrors hserves hm hnone]
  rfl

/-- A name that a row of a table bears stands for that row. -/
theorem onlyRow_named (h : tables.WellKeyed) (hmirrors : r.Mirrors tables) (hserves : r.Serves models) {m : Model}
    (hm : m ∈ namedModels) (hrow : tables.row? m.table id = some row) (hname : row.get? "name" = some (.string name)) :
    r.cache.onlyRow m.table (named name) = .ok id := by
  rw [Cache.onlyRow, h.idsMeeting_named hmirrors hserves hm hrow hname]
  rfl

/-- A port that does not exist is not found. -/
theorem deleteSwitchPort_of_none (h : tables.WellKeyed) (hmirrors : r.Mirrors tables) (hserves : r.Serves models)
    (hnone : ∀ id row, tables.row? switchPortModel.table id = some row → row.get? "name" ≠ some (.string name)) :
    deleteSwitchPort r.cache name = .error (.missing [switchPortModel.table] (.key (named name))) := by
  simp only [deleteSwitchPort, Cache.removeChild, Cache.onlyLink, switchHolder,
    h.onlyRow_of_none hmirrors hserves (m := switchPortModel) (by decide) hnone]
  rfl

/-- A port that no switch holds is found, but its switch is not. -/
theorem deleteSwitchPort_of_unheld (h : tables.WellKeyed) (hmirrors : r.Mirrors tables) (hserves : r.Serves models)
    (hrow : tables.row? switchPortModel.table id = some row) (hname : row.get? "name" = some (.string name))
    (hunheld : ∀ holder, ¬tables.Holds switchModel.table holder switchPortColumn id) :
    deleteSwitchPort r.cache name = .error (.missing [switchModel.table] (.key (.singleton switchPortColumn (.uuid id)))) := by
  have hholder : r.cache.onlyHolder switchModel.table switchPortColumn id =
      .error (.missing [switchModel.table] (.key (.singleton switchPortColumn (.uuid id)))) := by
    rw [Cache.onlyHolder, h.idsHolding_of_none hmirrors hserves hunheld]
    rfl
  have hport := h.onlyRow_named hmirrors hserves (m := switchPortModel) (by decide) hrow hname
  simp only [deleteSwitchPort, Cache.removeChild, Cache.onlyLink, switchHolder, hport, Cache.parentId]
  show ((r.cache.onlyHolder switchModel.table switchPortColumn id >>= _) >>= _) = _
  rw [hholder]
  rfl

/-- A port that a switch holds is taken from it and deleted. -/
theorem exists_deleteSwitchPort (h : tables.WellKeyed) (hmirrors : r.Mirrors tables) (hserves : r.Serves models)
    (hrow : tables.row? switchPortModel.table id = some row) (hname : row.get? "name" = some (.string name))
    (hholds : tables.Holds switchModel.table holder switchPortColumn id) : ∃ txn, deleteSwitchPort r.cache name = .ok txn := by
  have hholder : r.cache.onlyHolder switchModel.table switchPortColumn id = .ok holder := by
    rw [Cache.onlyHolder, h.idsHolding_ports hmirrors hserves hholds]
    rfl
  have hport := h.onlyRow_named hmirrors hserves (m := switchPortModel) (by decide) hrow hname
  obtain ⟨txn, htxn⟩ := Transaction.exists_compose_detach_delete (show switchHolder.table.isEmpty = false by decide) holder id
    (show switchPortModel.table.isEmpty = false by decide)
  refine ⟨txn, ?_⟩
  simp only [deleteSwitchPort, Cache.removeChild, Cache.onlyLink, switchHolder, hport, Cache.parentId]
  show ((r.cache.onlyHolder switchModel.table switchPortColumn id >>= _) >>= _) = _
  rw [hholder]
  exact htxn

end Tables.WellKeyed

namespace Session

variable {s s' : Session Server}

/-- The removal of a port finds nothing exactly when no port of the name hangs from a switch. -/
theorem isMissing_removeSwitchPort_iff (services : Services Server) (hs : s.Converged) (hserves : s.client.replica.Serves models)
    (hwell : s.state.tables.WellKeyed) (name : String) :
    (∃ e, (s.removeSwitchPort services name).1 = .error e ∧ e.isMissing = true) ↔
      ∀ id row holder, s.state.tables.row? switchPortModel.table id = some row → row.get? "name" = some (.string name) →
        ¬s.state.tables.Holds switchModel.table holder switchPortColumn id := by
  have hanswer : (∃ e, (s.removeSwitchPort services name).1 = .error e ∧ e.isMissing = true) ↔
      ∃ e, deleteSwitchPort s.client.cache name = .error e ∧ e.isMissing = true := isMissing_submitComposed_iff
  rw [hanswer]
  by_cases hport : ∃ id row, s.state.tables.row? switchPortModel.table id = some row ∧ row.get? "name" = some (.string name)
  · obtain ⟨id, row, hrow, hname⟩ := hport
    by_cases hheld : ∃ holder, s.state.tables.Holds switchModel.table holder switchPortColumn id
    · obtain ⟨holder, hholds⟩ := hheld
      obtain ⟨txn, htxn⟩ := hwell.exists_deleteSwitchPort hs.mirrors hserves hrow hname hholds
      rw [show deleteSwitchPort s.client.cache name = .ok txn from htxn]
      exact iff_of_false (fun ⟨_, heq, _⟩ => nomatch heq) (fun h => h id row holder hrow hname hholds)
    · have hunheld : ∀ holder, ¬s.state.tables.Holds switchModel.table holder switchPortColumn id := fun holder h => hheld ⟨holder, h⟩
      rw [show deleteSwitchPort s.client.cache name = .error _ from hwell.deleteSwitchPort_of_unheld hs.mirrors hserves hrow hname hunheld]
      refine iff_of_true ⟨_, rfl, rfl⟩ ?_
      intro id' row' holder hrow' hname' hholds
      rw [hwell.eq_of_named (m := switchPortModel) (by decide) hrow hname hrow' hname'] at hunheld
      exact hunheld holder hholds
  · have hnone : ∀ id row, s.state.tables.row? switchPortModel.table id = some row → row.get? "name" ≠ some (.string name) :=
      fun id row hrow hname => hport ⟨id, row, hrow, hname⟩
    rw [show deleteSwitchPort s.client.cache name = .error _ from hwell.deleteSwitchPort_of_none hs.mirrors hserves hnone]
    exact iff_of_true ⟨_, rfl, rfl⟩ (fun id row _ hrow hname => (hnone id row hrow hname).elim)

/-- A port that is refused as a duplicate has the name of a port that is there. -/
theorem exists_port_of_duplicate {services : Services Server} (hs : s.Converged) (hserves : s.client.replica.Serves models)
    (hwell : s.state.tables.WellKeyed) {switch : String} {p : SwitchPort} {e : Error} (h : s.addSwitchPort services switch p = (.error e, s'))
    (hdup : e.isDuplicate = true) :
    ∃ id row, e = .duplicate switchPortModel.table id (named p.name) ∧ s.state.tables.row? switchPortModel.table id = some row ∧
      row.get? "name" = some (.string p.name) := by
  obtain ⟨-, row, wanted, id, rest, hrow, hwanted, hfound, rfl⟩ := of_addSwitchPort_duplicate h hdup
  have hencode := hserves.encode switchPortModel_mem rfl rfl hrow
  have hname : row.get? "name" = some (.string (p.toRecord.text "name")) :=
    name_of_encode switchPortModel_mem (f := .mandatory "name" .string) (by decide) rfl rfl hencode
  have htext : p.toRecord.text "name" = p.name := by
    rw [Record.text, p.get?_toRecord (v := .text p.name) (by simp)]
  rw [htext] at hname
  cases (extract_nameKey hname).symm.trans hwanted
  obtain ⟨stored, hstored, hname'⟩ :=
    (hwell.mem_named_iff hs.mirrors hserves (m := switchPortModel) (by decide) hfound id).mp List.mem_cons_self
  exact ⟨id, stored, rfl, hstored, hname'⟩

end Session

end TableReplica
