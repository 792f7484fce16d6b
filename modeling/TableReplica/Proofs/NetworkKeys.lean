import TableReplica.Proofs.NetworkCalls
import TableReplica.Proofs.UniqueKeys

/-!
# The keys of a virtual network

In a virtual network names are unique in their tables, and so are the rules of a switch or a group in their direction, priority and
packets. A rule hangs from one row and a port from one switch (`Tables.KeysUnique`). Together with the shape of keys and links
(`Tables.WellKeyed`) this is kept by every change that a call makes: by a row with a name of its own, a port under its switch, a rule
under its parent, and whatever brings nothing.
-/

namespace TableReplica

namespace VirtualNetwork

/-- The models whose rows have a name of their own. -/
def namedModels : List Model := [switchModel, switchPortModel, groupModel, addressSetModel]

/-- The tables whose rows hold rules. -/
def ruleParents : List String := [switchModel.table, groupModel.table]

/-- The columns that hold rules and ports. -/
def linkColumns : List String := [ruleColumn, switchPortColumn]

/-- What tells the rules of one parent apart. -/
def ruleColumns : List String := ["direction", "priority", "match"]

end VirtualNetwork

open VirtualNetwork

/-- The natural keys of a virtual network are unique, and no rule and no port hangs from two rows. -/
structure Tables.KeysUnique (tables : Tables) : Prop where
  names : ∀ m ∈ namedModels, tables.KeyUnique m.table ["name"]
  rules : tables.KeyUniqueUnder ruleParents ruleColumn ruleModel.table ruleColumns
  ruleHolders : tables.HeldOnce ruleParents ruleColumn
  portHolders : tables.HeldOnce [switchModel.table] switchPortColumn

/-- The keys are unique and can be looked up, columns of links are such, and nothing dangles. -/
structure Tables.WellKeyed (tables : Tables) : Prop where
  closed : ∀ table id target, ¬tables.Dangles table id target
  links : tables.HoldLinks
  names : ∀ m ∈ namedModels, ∀ id row, tables.row? m.table id = some row → m.ShowsKey ["name"] row
  rules : ∀ id row, tables.row? ruleModel.table id = some row → ruleModel.ShowsKey ruleColumns row
  unique : tables.KeysUnique

namespace VirtualNetwork

theorem ruleColumn_mem : ruleColumn ∈ linkColumns := by decide

theorem switchPortColumn_mem : switchPortColumn ∈ linkColumns := by decide

/-- A name is no link. -/
theorem not_mem_linkColumns_of_name : ∀ column ∈ ["name"], column ∉ linkColumns := by decide

/-- No column of the key of a rule is a link. -/
theorem not_mem_linkColumns_of_rule : ∀ column ∈ ruleColumns, column ∉ linkColumns := by decide

/-- Rules hang from switches and from groups of ports. -/
theorem mem_ruleParents_iff {table : String} : table ∈ ruleParents ↔ table = switchModel.table ∨ table = groupModel.table := by
  simp [ruleParents]

/-- The models of rows with names are among those of the network. -/
theorem mem_models_of_named {m : Model} (hm : m ∈ namedModels) : m ∈ models := by
  have hall : ∀ m ∈ namedModels, m ∈ models := by decide
  exact hall m hm

/-- The models of the network are told apart by their tables. -/
theorem eq_of_table_eq {m m' : Model} (hm : m ∈ models) (hm' : m' ∈ models) (h : m.table = m'.table) : m = m' := by
  have hall : ∀ m ∈ models, ∀ m' ∈ models, m.table = m'.table → m = m' := by decide
  exact hall m hm m' hm' h

/-! ## Rows of records -/

/-- A column of links is empty when the record has no texts for it. -/
theorem holdsLinks_of_encode {m : Model} (hm : m ∈ models) {record : Record} {row : Row} (hrow : m.encode record = .ok row)
    {column : String} (hcolumn : column ∈ linkColumns) :
    row.HoldsLinks column ∧ (record.texts column = [] → row.links column = []) := by
  have hfields : ∀ m ∈ models, ∀ column ∈ linkColumns,
      (∃ f ∈ m.fields, f.column = column ∧ f.name = column ∧ f.slot = .references) ∨ ∀ f ∈ m.fields, f.column ≠ column := by
    decide
  obtain ⟨hvalues, hothers⟩ := Model.get?_encode (regular_of_mem hm).columns hrow
  rcases hfields m hm column hcolumn with ⟨f, hf, rfl, hname, hslot⟩ | hnone
  · have hvalue := hvalues f hf
    simp only [Field.value, hslot, hname] at hvalue
    obtain ⟨ids, hids, hcolumn'⟩ := map_eq_ok_iff.mp hvalue
    refine ⟨Row.holdsLinks_of_eq_ofRowIds hcolumn'.symm, ?_⟩
    intro htexts
    rw [htexts] at hids
    cases hids
    rw [Row.links, ← hcolumn']
    rfl
  · rw [Row.HoldsLinks, Row.links, hothers column hnone]
    exact ⟨trivial, fun _ => rfl⟩

/-- A row of a named record shows its name. -/
theorem showsName_of_encode {m : Model} (hm : m ∈ namedModels) {record : Record} {row : Row} (hrow : m.encode record = .ok row) :
    m.ShowsKey ["name"] row := by
  have hfields : ∀ m ∈ namedModels, ∀ column ∈ ["name"],
      ∃ f ∈ m.fields, f.column = column ∧ (f.slot = .string ∨ f.slot = .integer) := by
    decide
  exact (regular_of_mem (mem_models_of_named hm)).showsKey_of_encode (hfields m hm) hrow

/-- A row of a rule shows its key. -/
theorem showsRule_of_encode {record : Record} {row : Row} (hrow : ruleModel.encode record = .ok row) :
    ruleModel.ShowsKey ruleColumns row :=
  (regular_of_mem ruleModel_mem).showsKey_of_encode (by decide) hrow

end VirtualNetwork

namespace Tables.WellKeyed

variable {before now : Tables} {NewRow : String → RowId → Row → Prop} {NewLink : String → RowId → String → RowId → Prop}

/-- Tables that grow by rows with keys and links of the right shape. -/
theorem grows (h : before.WellKeyed) (hgrows : before.Grows linkColumns now NewRow NewLink)
    (hclosed : ∀ table id target, ¬now.Dangles table id target)
    (hlinks : ∀ table id row, NewRow table id row → ∀ column ∈ linkColumns, row.HoldsLinks column)
    (hnames : ∀ m ∈ namedModels, ∀ id row, NewRow m.table id row → m.ShowsKey ["name"] row)
    (hrules : ∀ id row, NewRow ruleModel.table id row → ruleModel.ShowsKey ruleColumns row) (hunique : now.KeysUnique) :
    now.WellKeyed where
  closed := hclosed
  links := by
    intro table id row hrow
    rcases hgrows table id row hrow with ⟨hadded, -⟩ | ⟨old, hold, hto⟩
    · exact ⟨hlinks table id row hadded _ ruleColumn_mem, hlinks table id row hadded _ switchPortColumn_mem⟩
    · obtain ⟨hrules, hports⟩ := h.links table id old hold
      exact ⟨hto.shape _ ruleColumn_mem hrules, hto.shape _ switchPortColumn_mem hports⟩
  names := by
    intro m hm id row hrow
    rcases hgrows m.table id row hrow with ⟨hadded, -⟩ | ⟨old, hold, hto⟩
    · exact hnames m hm id row hadded
    · exact (h.names m hm id old hold).congr (hto.sameKey not_mem_linkColumns_of_name)
  rules := by
    intro id row hrow
    rcases hgrows ruleModel.table id row hrow with ⟨hadded, -⟩ | ⟨old, hold, hto⟩
    · exact hrules id row hadded
    · exact (h.rules id old hold).congr (hto.sameKey not_mem_linkColumns_of_rule)
  unique := hunique

/-- Nothing is lost with what goes. -/
theorem shrinks (h : before.WellKeyed) (hgrows : before.Grows linkColumns now (fun _ _ _ => False) (fun _ _ _ _ => False))
    (hclosed : ∀ table id target, ¬now.Dangles table id target) : now.WellKeyed := by
  refine h.grows hgrows hclosed (fun _ _ _ => False.elim) (fun _ _ _ _ => False.elim) (fun _ _ => False.elim) ?_
  refine ⟨?_, ?_, ?_, ?_⟩
  · intro m hm
    exact (h.unique.names m hm).grows hgrows not_mem_linkColumns_of_name (fun _ _ _ _ => False.elim)
  · exact h.unique.rules.of_bare hgrows ruleColumn_mem not_mem_linkColumns_of_rule (fun _ _ _ _ _ => False.elim) (fun _ _ _ _ => id)
  · exact h.unique.ruleHolders.of_bare hgrows ruleColumn_mem (fun _ _ _ _ => id)
  · exact h.unique.portHolders.of_bare hgrows switchPortColumn_mem (fun _ _ _ _ => id)

/-! ## New rows -/

variable {r : Replica} {id : RowId} {row : Row}

/-- No row of the server has a name that is found nowhere in the cache. -/
theorem not_sameKey_of_name (h : before.WellKeyed) (hmirrors : r.Mirrors before) (hserves : r.Serves models) {m : Model}
    (hm : m ∈ namedModels) {wanted : Row} (hwanted : nameKey.extract row = .ok wanted)
    (hfound : r.cache.idsMeeting m.table wanted = .ok []) {id' : RowId} {row' : Row} (hrow' : before.row? m.table id' = some row') :
    ¬row.SameKey ["name"] row' := by
  intro hkey
  obtain ⟨shown, hshown, hmeets⟩ := hmirrors.meets_of_sameKey hserves (mem_models_of_named hm) (by decide) (by decide) hwanted hrow'
    (h.names m hm id' row' hrow') hkey
  exact List.not_mem_nil ((Cache.mem_of_idsMeeting hfound id').mpr ⟨shown, hshown, hmeets⟩)

/-- No rule of the server that hangs from a parent has a key that is found nowhere among the rules of the parent in the cache. -/
theorem not_sameKey_of_rule (h : before.WellKeyed) (hmirrors : r.Mirrors before) (hserves : r.Serves models) {parent : Parent}
    {holder : RowId} (htable : parent.table ∈ ruleParents) (hcolumn : parent.column = ruleColumn) {wanted shown : Row}
    (hwanted : ruleKey.extract row = .ok wanted) (hshown : r.cache.row? parent.table holder = some shown)
    (hfound : r.cache.childrenMeeting parent holder ruleModel.table wanted = .ok []) {id' : RowId} {row' : Row}
    (hholds : before.Holds parent.table holder ruleColumn id') (hrow' : before.row? ruleModel.table id' = some row') :
    ¬row.SameKey ruleColumns row' := by
  intro hkey
  obtain ⟨holding, hholding, hlink⟩ := hholds
  obtain ⟨holding', hholding', hshows⟩ := hmirrors.shows_of_cached hshown
  rw [show before.row? parent.table holder = some holding from hholding] at hholding'
  cases hholding'
  have hkind := (kinds_of_links hserves (mem_ruleParents_iff.mp htable)).1
  have hlink' := (hshows.mem_links hkind (h.links _ _ holding hholding).1 id').mpr hlink
  obtain ⟨shown', hshown', hmeets⟩ := hmirrors.meets_of_sameKey hserves ruleModel_mem (by decide) (by decide) hwanted hrow'
    (h.rules id' row' hrow') hkey
  rw [Cache.of_childrenMeeting_eq_nil hfound hshown hshown' (hcolumn ▸ hlink')] at hmeets
  cases hmeets

/-- A new row that was written for a record. -/
theorem of_newRow (h : before.WellKeyed) {m : Model} (hm : m ∈ models) {record : Record} (hrow : m.encode record = .ok row)
    (hgrows : before.Grows linkColumns now (IsRow m.table id row) NewLink)
    (hclosed : ∀ table id target, ¬now.Dangles table id target) (hunique : now.KeysUnique) : now.WellKeyed := by
  refine h.grows hgrows hclosed ?_ ?_ ?_ hunique
  · rintro _ _ _ ⟨-, -, rfl⟩ column hcolumn
    exact (holdsLinks_of_encode hm hrow hcolumn).1
  · rintro m' hm' _ _ ⟨htable, -, rfl⟩
    cases eq_of_table_eq hm (mem_models_of_named hm') htable
    exact showsName_of_encode hm' hrow
  · rintro _ _ ⟨htable, -, rfl⟩
    cases eq_of_table_eq hm ruleModel_mem htable
    exact showsRule_of_encode hrow

/-- A new row with a name of its own that has no rules, and no ports if it is a switch. Its name was free in the cache, which shows every
row of the table. -/
theorem gainsNamed (h : before.WellKeyed) (hmirrors : r.Mirrors before) (hserves : r.Serves models) {m : Model} (hm : m ∈ namedModels)
    {record : Record} (hrow : m.encode record = .ok row) (hbare : row.links ruleColumn = [])
    (hbare' : m = switchModel → row.links switchPortColumn = [])
    (hcheck : NameSupply.checkRoot r.cache m.table row nameKey = .ok ()) (hfresh : before.live id = false)
    (hgains : before.Gains now m.table id row) (hclosed : ∀ table id target, ¬now.Dangles table id target) : now.WellKeyed := by
  obtain ⟨wanted, hwanted, hfound⟩ := NameSupply.of_checkRoot hcheck
  have hgrows : before.Grows linkColumns now (IsRow m.table id row) (IsLinkOf m.table id row) := hgains.grows
  have hbareRules : ∀ table holder link, ¬IsLinkOf m.table id row table holder ruleColumn link := by
    rintro table holder link ⟨-, -, hlink⟩
    rw [hbare] at hlink
    cases hlink
  refine h.of_newRow (mem_models_of_named hm) hrow hgrows hclosed ⟨?_, ?_, ?_, ?_⟩
  · intro m' hm'
    refine (h.unique.names m' hm').of_newRow hgrows not_mem_linkColumns_of_name ?_
    intro htable id' row' hrow'
    exact h.not_sameKey_of_name hmirrors hserves hm hwanted hfound (htable ▸ hrow')
  · refine h.unique.rules.of_bare hgrows ruleColumn_mem not_mem_linkColumns_of_rule ?_ (fun parent _ => hbareRules parent)
    rintro parent - holder _ _ ⟨-, rfl, -⟩
    exact not_holds_of_not_live h.closed hfresh parent holder ruleColumn
  · exact h.unique.ruleHolders.of_bare hgrows ruleColumn_mem (fun parent _ => hbareRules parent)
  · refine h.unique.portHolders.of_bare hgrows switchPortColumn_mem ?_
    rintro parent hparent holder link ⟨htable, -, hlink⟩
    rw [List.mem_singleton.mp hparent] at htable
    rw [hbare' (eq_of_table_eq (mem_models_of_named hm) switchModel_mem htable)] at hlink
    cases hlink

/-- A new port that hangs from a switch. -/
theorem gainsPort (h : before.WellKeyed) (hmirrors : r.Mirrors before) (hserves : r.Serves models) {record : Record}
    (hrow : switchPortModel.encode record = .ok row) {switch : String} {holder : RowId}
    (hcheck : NameSupply.checkChild r.cache switchPortModel.table row nameKey (switchNamed switch) = .ok holder)
    (hfresh : before.live id = false) (hgains : before.GainsUnder now switchPortModel.table id row (switchNamed switch) holder)
    (hclosed : ∀ table id target, ¬now.Dangles table id target) : now.WellKeyed := by
  obtain ⟨-, wanted, hwanted, hfound⟩ := NameSupply.of_checkChild hcheck
  have hgrows := hgains.grows switchPortColumn_mem (fun old hold => (h.links _ _ old hold).2)
  have hunheld := not_holds_of_not_live h.closed hfresh
  refine h.of_newRow (by decide) hrow hgrows hclosed ⟨?_, ?_, ?_, ?_⟩
  · intro m hm
    refine (h.unique.names m hm).of_newRow hgrows not_mem_linkColumns_of_name ?_
    intro htable id' row' hrow'
    exact h.not_sameKey_of_name hmirrors hserves (by decide) hwanted hfound (htable ▸ hrow')
  · refine h.unique.rules.of_hangs hgrows ruleColumn_mem not_mem_linkColumns_of_rule (by decide)
      (fun table holder => hunheld table holder _) ?_
    intro hcolumn
    exact absurd hcolumn (show switchPortColumn ≠ ruleColumn by decide)
  · exact h.unique.ruleHolders.of_hangs hgrows ruleColumn_mem (by decide) (fun table holder => hunheld table holder _)
  · exact h.unique.portHolders.of_hangs hgrows switchPortColumn_mem (by decide) (fun table holder => hunheld table holder _)

/-- A new rule that hangs from a switch or a group. -/
theorem gainsRule (h : before.WellKeyed) (hmirrors : r.Mirrors before) (hserves : r.Serves models) {record : Record}
    (hrow : ruleModel.encode record = .ok row) {parent : Parent} {holder : RowId} (htable : parent.table ∈ ruleParents)
    (hcolumn : parent.column = ruleColumn)
    (hcheck : NameSupply.checkChild r.cache ruleModel.table row ruleKey parent = .ok holder)
    (hfresh : before.live id = false) (hgains : before.GainsUnder now ruleModel.table id row parent holder)
    (hclosed : ∀ table id target, ¬now.Dangles table id target) : now.WellKeyed := by
  obtain ⟨hholder, wanted, hwanted, hfound⟩ := NameSupply.of_checkChild hcheck
  obtain ⟨shown, hshown⟩ := Cache.row?_of_parentId hholder
  have hgrows := hgains.grows (hcolumn ▸ ruleColumn_mem) (fun old hold => hcolumn ▸ (h.links _ _ old hold).1)
  have hunheld := not_holds_of_not_live h.closed hfresh
  refine h.of_newRow (by decide) hrow hgrows hclosed ⟨?_, ?_, ?_, ?_⟩
  · intro m hm
    have hunnamed : ∀ m ∈ namedModels, ruleModel.table ≠ m.table := by decide
    refine (h.unique.names m hm).of_newRow hgrows not_mem_linkColumns_of_name ?_
    exact fun heq => absurd heq (hunnamed m hm)
  · refine h.unique.rules.of_hangs hgrows ruleColumn_mem not_mem_linkColumns_of_rule (by decide)
      (fun table holder => hunheld table holder _) ?_
    intro _ id' row' row'' hholds hrow' hrow''
    rw [hgains.row?_new] at hrow'
    cases hrow'
    exact h.not_sameKey_of_rule hmirrors hserves htable hcolumn hwanted hshown hfound hholds hrow''
  · exact h.unique.ruleHolders.of_hangs hgrows ruleColumn_mem (by decide) (fun table holder => hunheld table holder _)
  · exact h.unique.portHolders.of_hangs hgrows switchPortColumn_mem (by decide) (fun table holder => hunheld table holder _)

end Tables.WellKeyed

end TableReplica
