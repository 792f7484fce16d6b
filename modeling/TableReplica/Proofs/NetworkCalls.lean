import TableReplica.Proofs.NetworkModels

/-!
# What a call on a virtual network does

Each call of a session on an in-memory server is refused and changes nothing that can be read, or commits one change: a new row, a new row
with a link from its parent, a row gone, or a row gone together with the link to it.
-/

namespace TableReplica

open VirtualNetwork

namespace Cache

/-- The rows found among several tables are rows of these tables. -/
theorem mem_of_idsAmong {c : Cache} {key : Row} {candidates : List (String × String)} {hits : List (String × String × RowId)}
    (h : c.idsAmong key candidates = .ok hits) : ∀ hit ∈ hits, (hit.1, hit.2.1) ∈ candidates := by
  induction candidates generalizing hits with
  | nil =>
    cases h
    exact fun hit hhit => (List.not_mem_nil hhit).elim
  | cons candidate rest ih =>
    obtain ⟨found, -, h⟩ := bind_eq_ok_iff.mp h
    obtain ⟨others, hothers, h⟩ := bind_eq_ok_iff.mp h
    cases h
    intro hit hhit
    rcases List.mem_append.mp hhit with hhit | hhit
    · obtain ⟨id, -, rfl⟩ := List.mem_map.mp hhit
      exact List.mem_cons_self
    · exact List.mem_cons_of_mem candidate (ih hothers hit hhit)

/-- The only parent found is of one of the tables searched, with the column that belongs to it. -/
theorem mem_of_onlyParent {c : Cache} {candidates : List (String × String)} {key : Row} {parent : Parent}
    (h : c.onlyParent candidates key = .ok parent) : (parent.table, parent.column) ∈ candidates := by
  unfold onlyParent at h
  split at h
  · cases h
  · obtain ⟨hits, hhits, h⟩ := bind_eq_ok_iff.mp h
    match hits with
    | [] => cases h
    | [hit] =>
      cases h
      exact mem_of_idsAmong hhits hit List.mem_cons_self
    | _ :: _ :: _ => cases h

end Cache

/-- A site is a row of one of the two tables that hold rules. -/
theorem VirtualNetwork.RuleSite.of_parent {cache : Cache} {site : RuleSite} {parent : Parent}
    (h : site.parent cache = .ok parent) :
    (parent.table = switchModel.table ∨ parent.table = groupModel.table) ∧ parent.column = ruleColumn := by
  cases site with
  | switch name =>
    cases h
    exact ⟨Or.inl rfl, rfl⟩
  | group name =>
    cases h
    exact ⟨Or.inr rfl, rfl⟩
  | row table id =>
    simp only [RuleSite.parent] at h
    split at h
    · rename_i htable
      cases h
      exact ⟨htable, rfl⟩
    · cases h
  | anyNamed name =>
    have hmem := Cache.mem_of_onlyParent h
    simp only [List.mem_cons, List.not_mem_nil, or_false, Prod.mk.injEq] at hmem
    rcases hmem with ⟨htable, hcolumn⟩ | ⟨htable, hcolumn⟩
    · exact ⟨Or.inl htable, hcolumn⟩
    · exact ⟨Or.inr htable, hcolumn⟩

/-- A rule is not a row that holds rules. -/
theorem VirtualNetwork.RuleSite.table_ne_of_parent {cache : Cache} {site : RuleSite} {parent : Parent}
    (h : site.parent cache = .ok parent) : ruleModel.table ≠ parent.table := by
  rcases (of_parent h).1 with htable | htable <;> rw [htable] <;> decide

theorem VirtualNetwork.switchPortTable_ne (switch : String) : switchPortModel.table ≠ (switchNamed switch).table := by
  show switchPortModel.table ≠ switchModel.table
  decide

namespace Session

variable (supply : RowIdSupply) (tags : Nat → UInt32)

/-- The name supply that a call takes is not read by anything else. -/
theorem Inserted.of_newNames (services : Services Server) {s : Session Server} {Change : Tables → Prop}
    {answer : Except Error RowId × Session Server} (h : Inserted supply (s.newNames services).2 Change answer) :
    Inserted supply s Change answer := by
  cases h with
  | refused hrefused => exact .refused ⟨hrefused.client, hrefused.tables, hrefused.feed⟩
  | inserted hcommitted hchange hdrawn =>
    exact .inserted ⟨hcommitted.client, hcommitted.tables, hcommitted.feed, hcommitted.sound⟩ hchange hdrawn

/-- A call that has taken new names changes what it changes without them. -/
theorem Changed.of_newNames (services : Services Server) {s s' : Session Server} {Change : Tables → Prop}
    (h : Changed (s.newNames services).2 Change s') : Changed s Change s' := by
  cases h with
  | refused hrefused => exact .refused ⟨hrefused.client, hrefused.tables, hrefused.feed⟩
  | changed hcommitted hchange =>
    exact .changed ⟨hcommitted.client, hcommitted.tables, hcommitted.feed, hcommitted.sound⟩ hchange

/-! ## New rows -/

/-- A record with a name of its own is inserted when no row of its table has the name. -/
theorem inserted_addNamed (s : Session Server) (record : Record) :
    Inserted supply s
      (fun now => ∃ row, s.client.schema.encode record = .ok row ∧
        NameSupply.checkRoot s.client.cache record.table row nameKey = .ok () ∧
        s.state.tables.Gains now record.table (supply s.state.drawn) row)
      (s.addNamed (Server.services supply tags) record) := by
  apply Inserted.of_newNames supply (Server.services supply tags)
  apply inserted_submitInsertion supply tags
  intro ins hins
  obtain ⟨row, hrow, hins⟩ := bind_eq_ok_iff.mp hins
  obtain ⟨hcheck, hops⟩ := NameSupply.of_insertRoot hins
  exact ⟨_, _, [], hops, fun op hop => (List.not_mem_nil hop).elim, Server.drawn_worked_insert hops, row, hrow, hcheck,
    Server.gains_worked_insert hops⟩

/-- A row that may be inserted under a parent is inserted with a link to it. -/
theorem inserted_insertUnder (s : Session Server) {composed : Except Error Insertion} {Change : Tables → Prop}
    (h : ∀ ins, composed = .ok ins → ∃ names table row key parent,
      (NameSupply.insertUnder names s.client.cache table row key parent).1 = .ok ins ∧ table ≠ parent.table ∧
      ∀ holder now, NameSupply.checkChild s.client.cache table row key parent = .ok holder →
        s.state.tables.GainsUnder now table (supply s.state.drawn) row parent holder → Change now) :
    Inserted supply s Change (s.submitInsertion (Server.services supply tags) composed) := by
  apply inserted_submitInsertion supply tags
  intro ins hins
  obtain ⟨names, table, row, key, parent, hinsert, hne, hchange⟩ := h ins hins
  obtain ⟨holder, hcheck, hops⟩ := NameSupply.of_insertUnder hinsert
  refine ⟨table, row, _, hops, ?_, Server.drawn_worked_insert_attach hops,
    hchange holder _ hcheck (Server.gains_worked_insert_attach hne hops)⟩
  intro op hop
  rw [List.mem_singleton.mp hop]
  rfl

/-- One of the ports of a switch is inserted when no row of its table has its name. -/
theorem inserted_addSwitchPort (s : Session Server) (switch : String) (p : SwitchPort) :
    Inserted supply s
      (fun now => ∃ row holder, s.client.schema.encode p.toRecord = .ok row ∧
        NameSupply.checkChild s.client.cache switchPortModel.table row nameKey (switchNamed switch) = .ok holder ∧
        s.state.tables.GainsUnder now switchPortModel.table (supply s.state.drawn) row (switchNamed switch) holder)
      (s.addSwitchPort (Server.services supply tags) switch p) := by
  unfold addSwitchPort
  split
  · exact .refused ⟨rfl, rfl, rfl⟩
  · apply Inserted.of_newNames supply (Server.services supply tags)
    apply inserted_insertUnder supply tags
    intro ins hins
    obtain ⟨row, hrow, hins⟩ := bind_eq_ok_iff.mp hins
    refine ⟨_, _, row, _, _, hins, switchPortTable_ne switch, ?_⟩
    intro holder now hcheck hgains
    exact ⟨row, holder, hrow, hcheck, hgains⟩

/-- A rule is inserted when no rule of its parent has its key. -/
theorem inserted_addRule (s : Session Server) (site : RuleSite) (rule : AccessRule) :
    Inserted supply s
      (fun now => ∃ parent row holder, site.parent s.client.cache = .ok parent ∧
        s.client.schema.encode rule.toRecord = .ok row ∧
        NameSupply.checkChild s.client.cache ruleModel.table row ruleKey parent = .ok holder ∧
        s.state.tables.GainsUnder now ruleModel.table (supply s.state.drawn) row parent holder)
      (s.addRule (Server.services supply tags) site rule) := by
  unfold addRule
  split
  · exact .refused ⟨rfl, rfl, rfl⟩
  · apply Inserted.of_newNames supply (Server.services supply tags)
    apply inserted_insertUnder supply tags
    intro ins hins
    obtain ⟨parent, hparent, hins⟩ := bind_eq_ok_iff.mp hins
    obtain ⟨row, hrow, hins⟩ := bind_eq_ok_iff.mp hins
    refine ⟨_, _, row, _, parent, hins, RuleSite.table_ne_of_parent hparent, ?_⟩
    intro holder now hcheck hgains
    exact ⟨parent, row, holder, hparent, hrow, hcheck, hgains⟩

/-! ## Rows that go -/

/-- The row with a given name is deleted. -/
theorem changed_removeNamed (s : Session Server) (table name : String) :
    Changed s (fun now => ∃ id, s.client.cache.onlyRow table (named name) = .ok id ∧ s.state.tables.Loses now table id)
      (s.removeNamed (Server.services supply tags) table name).2 := by
  apply Changed.of_newNames (Server.services supply tags)
  apply changed_submitComposed supply tags
  intro txn htxn
  obtain ⟨id, hid, htxn⟩ := bind_eq_ok_iff.mp htxn
  exact ⟨id, hid, Server.loses_worked_delete (Transaction.compose_eq_ok_iff.mp htxn)⟩

/-- A removal of a child takes one child from under its parent. -/
theorem loses_removeChild {supply : RowIdSupply} (s : Server) {cache : Cache} {table : String} {key : Row} {parent : Parent}
    {txn : Transaction} (h : cache.removeChild table key parent = .ok txn) :
    ∃ child holder, s.tables.LosesUnder (s.worked supply txn).tables table child parent holder := by
  obtain ⟨⟨child, holder⟩, -, htxn⟩ := bind_eq_ok_iff.mp h
  exact ⟨child, holder, Server.loses_worked_detach_delete (Transaction.compose_eq_ok_iff.mp htxn)⟩

/-- A row with a given name is taken from the ports of its switch and deleted. -/
theorem changed_removeSwitchPort (s : Session Server) (name : String) :
    Changed s (fun now => ∃ child holder, s.state.tables.LosesUnder now switchPortModel.table child switchHolder holder)
      (s.removeSwitchPort (Server.services supply tags) name).2 := by
  apply Changed.of_newNames (Server.services supply tags)
  apply changed_submitComposed supply tags
  intro txn htxn
  exact loses_removeChild s.state htxn

/-- A rule is taken from its parent and deleted. -/
theorem changed_removeRule (s : Session Server) (site : RuleSite) (direction : String) (priority : Int64) (packets : String) :
    Changed s
      (fun now => ∃ parent child holder, site.parent s.client.cache = .ok parent ∧
        s.state.tables.LosesUnder now ruleModel.table child parent holder)
      (s.removeRule (Server.services supply tags) site direction priority packets).2 := by
  apply Changed.of_newNames (Server.services supply tags)
  apply changed_submitComposed supply tags
  intro txn htxn
  obtain ⟨parent, hparent, htxn⟩ := bind_eq_ok_iff.mp htxn
  obtain ⟨child, holder, hloses⟩ := loses_removeChild s.state htxn
  exact ⟨parent, child, holder, hparent, hloses⟩

end Session

end TableReplica
