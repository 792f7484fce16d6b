import TableReplica.Proofs.DuplicateInsertions

/-!
# Ports that no switch holds

When a switch is deleted its ports stay behind. They are found by name when a port of the same name is to be added, and cannot be removed,
since that takes a switch that holds them (`Session.duplicate_undone_iff`). It comes to this in no other way: in a run that deletes only
switches without ports every port is held by a switch (`Session.ReachedBy.portsHeld`).
-/

namespace TableReplica

open VirtualNetwork

theorem VirtualNetwork.switchTable_ne : switchModel.table ≠ switchPortModel.table := by decide

namespace Tables

/-- Every port is among the ports of a switch. -/
def PortsHeld (tables : Tables) : Prop :=
  ∀ id row, tables.row? switchPortModel.table id = some row → ∃ holder, tables.Holds switchModel.table holder switchPortColumn id

/-- A call that deletes switches deletes none with ports. -/
def Spares (tables : Tables) : Call → Prop
  | .removeSwitch name => ∀ id row, tables.row? switchModel.table id = some row → row.get? "name" = some (.string name) →
      row.links switchPortColumn = []
  | _ => True

namespace PortsHeld

variable {before now : Tables} {table : String} {id holder : RowId} {row : Row} {parent : Parent}

/-- Where there are no ports, every port is held. -/
theorem empty : PortsHeld ∅ := by
  intro id row hrow
  cases hrow

/-- Ports stay held when none are new and the switches keep them. -/
theorem of_kept (h : before.PortsHeld)
    (hports : ∀ id row, now.row? switchPortModel.table id = some row → ∃ old, before.row? switchPortModel.table id = some old)
    (hlinks : ∀ holder id, before.Holds switchModel.table holder switchPortColumn id →
      (∃ row, now.row? switchPortModel.table id = some row) → now.Holds switchModel.table holder switchPortColumn id) :
    now.PortsHeld := by
  intro id row hrow
  obtain ⟨old, hold⟩ := hports id row hrow
  obtain ⟨holder, hholds⟩ := h id old hold
  exact ⟨holder, hlinks holder id hholds ⟨row, hrow⟩⟩

/-- A new row of another table, under an identifier that was not in use. -/
theorem gains (h : before.PortsHeld) (hne : table ≠ switchPortModel.table) (hfresh : before.live id = false)
    (hgains : before.Gains now table id row) : now.PortsHeld := by
  refine h.of_kept ?_ ?_
  · intro port old hold
    rw [hgains, if_neg (fun heq => hne heq.1)] at hold
    exact ⟨old, hold⟩
  · rintro switch port ⟨old, hold, hlink⟩ -
    refine ⟨old, ?_, hlink⟩
    rw [hgains, if_neg]
    · exact hold
    · rintro ⟨-, rfl⟩
      rw [row?_of_not_live hfresh] at hold
      cases hold

/-- A new row of another table under a parent with another column. -/
theorem gainsUnder (h : before.PortsHeld) (hne : table ≠ switchPortModel.table) (hparent : parent.table ≠ switchPortModel.table)
    (hcolumn : parent.column ≠ switchPortColumn) (hfresh : before.live id = false)
    (hgains : before.GainsUnder now table id row parent holder) : now.PortsHeld := by
  refine h.of_kept ?_ ?_
  · intro port old hold
    rw [hgains, if_neg (fun heq => hne heq.1), if_neg (fun heq => hparent heq.1)] at hold
    exact ⟨old, hold⟩
  · rintro switch port ⟨old, hold, hlink⟩ -
    have hnew : ¬(table = switchModel.table ∧ id = switch) := by
      rintro ⟨-, rfl⟩
      rw [row?_of_not_live hfresh] at hold
      cases hold
    rw [Holds, hgains, if_neg hnew]
    split
    · rw [hold]
      exact ⟨_, rfl, by rwa [Row.links_congr (Row.get?_mutate_of_ne old hcolumn _ _)]⟩
    · exact ⟨old, hold, hlink⟩

/-- A new port of a switch. -/
theorem gainsPort (h : before.PortsHeld) (hlinks : ∀ old, before.row? switchModel.table holder = some old → old.HoldsLinks switchPortColumn)
    (hthere : ∃ old, before.row? switchModel.table holder = some old) {switch : String}
    (hgains : before.GainsUnder now switchPortModel.table id row (switchNamed switch) holder) : now.PortsHeld := by
  have hother : ∀ other, ¬(switchPortModel.table = switchModel.table ∧ id = other) := fun _ heq => switchTable_ne heq.1.symm
  intro port row' hrow'
  rw [hgains] at hrow'
  split at hrow'
  · rename_i hnew
    obtain ⟨-, rfl⟩ := hnew
    obtain ⟨old, hold⟩ := hthere
    refine ⟨holder, old.mutate switchPortColumn .insert (.uuid id), ?_, ?_⟩
    · rw [hgains, if_neg (hother holder), if_pos ⟨rfl, rfl⟩, hold]
      rfl
    · exact ((hlinks old hold).mutate_insert id).2 id |>.mpr (Or.inr rfl)
  · rw [if_neg (fun heq => switchTable_ne heq.1)] at hrow'
    obtain ⟨holder', old, hold, hlink⟩ := h port row' hrow'
    by_cases hsame : holder = holder'
    · subst hsame
      refine ⟨holder, old.mutate switchPortColumn .insert (.uuid id), ?_, ?_⟩
      · rw [hgains, if_neg (hother holder), if_pos ⟨rfl, rfl⟩, hold]
        rfl
      · exact ((hlinks old hold).mutate_insert id).2 port |>.mpr (Or.inl hlink)
    · refine ⟨holder', old, ?_, hlink⟩
      rw [hgains, if_neg (hother holder'), if_neg (fun heq => hsame heq.2)]
      exact hold

/-- A row is gone that is no switch with ports. -/
theorem loses (h : before.PortsHeld) (hloses : before.Loses now table id)
    (hbare : table = switchModel.table → ∀ old, before.row? table id = some old → old.links switchPortColumn = []) : now.PortsHeld := by
  refine h.of_kept ?_ ?_
  · intro port row' hrow'
    rw [hloses] at hrow'
    split at hrow'
    · cases hrow'
    · exact ⟨row', hrow'⟩
  · rintro switch port ⟨old, hold, hlink⟩ -
    refine ⟨old, ?_, hlink⟩
    rw [hloses, if_neg]
    · exact hold
    · rintro ⟨htable, rfl⟩
      rw [hbare htable old (htable ▸ hold)] at hlink
      cases hlink

/-- A port is gone with the link to it. -/
theorem losesPort (h : before.PortsHeld) (hlinks : ∀ old, before.row? switchModel.table holder = some old → old.HoldsLinks switchPortColumn)
    (hloses : before.LosesUnder now switchPortModel.table id switchHolder holder) : now.PortsHeld := by
  have hport : ∀ port, now.row? switchPortModel.table port =
      if id = port then none else before.row? switchPortModel.table port := by
    intro port
    rw [hloses]
    by_cases hid : id = port
    · rw [if_pos ⟨rfl, hid⟩, if_pos hid]
    · rw [if_neg (fun heq => hid heq.2), if_neg hid, if_neg (fun heq => switchTable_ne heq.1)]
  refine h.of_kept ?_ ?_
  · intro port row' hrow'
    rw [hport] at hrow'
    split at hrow'
    · cases hrow'
    · exact ⟨row', hrow'⟩
  · rintro switch port ⟨old, hold, hlink⟩ ⟨row', hrow'⟩
    have hne : port ≠ id := by
      rintro rfl
      rw [hport, if_pos rfl] at hrow'
      cases hrow'
    rw [Holds, hloses, if_neg (fun heq => switchTable_ne heq.1.symm)]
    split
    · rename_i hholder
      rw [hold]
      exact ⟨_, rfl, (((hlinks old (hholder.2 ▸ hold)).mutate_delete id).2 port).mpr ⟨hlink, hne⟩⟩
    · exact ⟨old, hold, hlink⟩

/-- A row of another table than those of ports and switches is gone, with the link to it in another column. -/
theorem losesUnder (h : before.PortsHeld) (hne : table ≠ switchModel.table) (hparent : parent.table ≠ switchPortModel.table)
    (hcolumn : parent.column ≠ switchPortColumn) (hloses : before.LosesUnder now table id parent holder) : now.PortsHeld := by
  refine h.of_kept ?_ ?_
  · intro port row' hrow'
    rw [hloses] at hrow'
    split at hrow'
    · cases hrow'
    · rw [if_neg (fun heq => hparent heq.1)] at hrow'
      exact ⟨row', hrow'⟩
  · rintro switch port ⟨old, hold, hlink⟩ -
    rw [Holds, hloses, if_neg (fun heq => hne heq.1)]
    split
    · rw [hold]
      exact ⟨_, rfl, by rwa [Row.links_congr (Row.get?_mutate_of_ne old hcolumn _ _)]⟩
    · exact ⟨old, hold, hlink⟩

end PortsHeld

end Tables

namespace Session

variable {supply : RowIdSupply} {s s' : Session Server} {Change P : Tables → Prop}

/-! ## Calls -/

/-- What holds of the tables holds of them after a call when the change of the call keeps it. -/
theorem Changed.keeps (h : Changed s Change s') (hs : P s.state.tables) (hchange : ∀ now, Change now → P now) : P s'.state.tables := by
  cases h with
  | refused hrefused =>
    rw [hrefused.tables]
    exact hs
  | changed hcommitted hnow =>
    rw [hcommitted.tables]
    exact hchange _ hnow

/-- What holds of the tables still does after an insertion, if no change by a fresh row ends it. -/
theorem Inserted.keeps {answer : Except Error RowId × Session Server} (h : Inserted supply s Change answer) (hs : P s.state.tables)
    (hfresh : DrawsFresh supply s answer.2)
    (hchange : ∀ now, s.state.tables.live (supply s.state.drawn) = false → Change now → P now) : P answer.2.state.tables := by
  cases h with
  | refused hrefused =>
    rw [hrefused.tables]
    exact hs
  | inserted hcommitted hnow hdrawn =>
    rw [hcommitted.tables]
    refine hchange _ (hfresh s.state.drawn (Nat.le_refl _) ?_) hnow
    exact Nat.lt_of_lt_of_eq (Nat.lt_succ_self _) hdrawn.symm

variable (tags : Nat → UInt32)

/-- Adding a switch or a group of ports leaves no port without a switch. -/
theorem portsHeld_addNamed (hheld : s.state.tables.PortsHeld) {record : Record} (hne : record.table ≠ switchPortModel.table)
    (hfresh : DrawsFresh supply s (s.addNamed (Server.services supply tags) record).2) :
    (s.addNamed (Server.services supply tags) record).2.state.tables.PortsHeld := by
  refine (inserted_addNamed supply tags s record).keeps hheld hfresh ?_
  rintro now hnew ⟨row, -, -, hgains⟩
  exact hheld.gains hne hnew hgains

/-- Removing a switch that has no ports, or a group, leaves no port without a switch. -/
theorem portsHeld_removeNamed (hs : s.Converged) (hserves : s.client.replica.Serves models) (hwell : s.state.tables.WellKeyed)
    (hheld : s.state.tables.PortsHeld) {m : Model} (hm : m ∈ namedModels) {name : String}
    (hspares : m.table = switchModel.table → s.state.tables.Spares (.removeSwitch name)) :
    (s.removeNamed (Server.services supply tags) m.table name).2.state.tables.PortsHeld := by
  refine (changed_removeNamed supply tags s m.table name).keeps hheld ?_
  rintro now ⟨id, honly, hloses⟩
  refine hheld.loses hloses ?_
  intro htable old hold
  obtain ⟨found, hfound, hhit⟩ := bind_eq_ok_iff.mp honly
  rw [Cache.eq_singleton_of_onlyHit hhit] at hfound
  obtain ⟨row, hrow, hname⟩ := (hwell.mem_named_iff hs.mirrors hserves hm hfound id).mp List.mem_cons_self
  rw [hold] at hrow
  cases hrow
  exact hspares htable id old (htable ▸ hold) hname

/-- A port is added under a switch, and the others stay held. -/
theorem portsHeld_addSwitchPort (hs : s.Converged) (hwell : s.state.tables.WellKeyed) (hheld : s.state.tables.PortsHeld)
    (switch : String) (p : SwitchPort) (hfresh : DrawsFresh supply s (s.addSwitchPort (Server.services supply tags) switch p).2) :
    (s.addSwitchPort (Server.services supply tags) switch p).2.state.tables.PortsHeld := by
  refine (inserted_addSwitchPort supply tags s switch p).keeps hheld hfresh ?_
  rintro now - ⟨row, holder, -, hcheck, hgains⟩
  obtain ⟨shown, hshown⟩ := Cache.row?_of_parentId (NameSupply.of_checkChild hcheck).1
  obtain ⟨old, hold, -⟩ := hs.mirrors.shows_of_cached hshown
  exact hheld.gainsPort (fun old hold => (hwell.links _ _ old hold).2) ⟨old, hold⟩ hgains

/-- Removing a port leaves the others held. -/
theorem portsHeld_removeSwitchPort (hwell : s.state.tables.WellKeyed) (hheld : s.state.tables.PortsHeld) (name : String) :
    (s.removeSwitchPort (Server.services supply tags) name).2.state.tables.PortsHeld := by
  refine (changed_removeSwitchPort supply tags s name).keeps hheld ?_
  rintro now ⟨child, holder, hloses⟩
  exact hheld.losesPort (fun old hold => (hwell.links _ _ old hold).2) hloses

/-- Rules hang from switches and groups, by a column that is not that of ports. -/
theorem not_port_of_site {cache : Cache} {site : RuleSite} {parent : Parent} (h : site.parent cache = .ok parent) :
    parent.table ≠ switchPortModel.table ∧ parent.column ≠ switchPortColumn := by
  obtain ⟨htable, hcolumn⟩ := RuleSite.of_parent h
  rw [hcolumn]
  refine ⟨?_, by decide⟩
  rcases htable with htable | htable <;> rw [htable] <;> decide

/-- Adding a rule leaves every port held. -/
theorem portsHeld_addRule (hheld : s.state.tables.PortsHeld) (site : RuleSite) (rule : AccessRule)
    (hfresh : DrawsFresh supply s (s.addRule (Server.services supply tags) site rule).2) :
    (s.addRule (Server.services supply tags) site rule).2.state.tables.PortsHeld := by
  refine (inserted_addRule supply tags s site rule).keeps hheld hfresh ?_
  rintro now hnew ⟨parent, row, holder, hparent, -, -, hgains⟩
  obtain ⟨htable, hcolumn⟩ := not_port_of_site hparent
  exact hheld.gainsUnder (by decide) htable hcolumn hnew hgains

/-- Removing a rule leaves every port held. -/
theorem portsHeld_removeRule (hheld : s.state.tables.PortsHeld) (site : RuleSite) (direction : String) (priority : Int64)
    (packets : String) : (s.removeRule (Server.services supply tags) site direction priority packets).2.state.tables.PortsHeld := by
  refine (changed_removeRule supply tags s site direction priority packets).keeps hheld ?_
  rintro now ⟨parent, child, holder, hparent, hloses⟩
  obtain ⟨htable, hcolumn⟩ := not_port_of_site hparent
  exact hheld.losesUnder (by decide) htable hcolumn hloses

/-- A call that spares the switches with ports leaves every port with a switch. -/
theorem portsHeld_call (hs : s.Converged) (hserves : s.client.replica.Serves models) (hwell : s.state.tables.WellKeyed)
    (hheld : s.state.tables.PortsHeld) (c : Call) (hspares : s.state.tables.Spares c)
    (hfresh : DrawsFresh supply s (s.call (Server.services supply tags) c)) :
    (s.call (Server.services supply tags) c).state.tables.PortsHeld := by
  cases c with
  | addSwitch name => exact portsHeld_addNamed tags hheld (show switchModel.table ≠ switchPortModel.table by decide) hfresh
  | removeSwitch name => exact portsHeld_removeNamed tags hs hserves hwell hheld (m := switchModel) (by decide) (fun _ => hspares)
  | addSwitchPort switch p => exact portsHeld_addSwitchPort tags hs hwell hheld switch p hfresh
  | removeSwitchPort name => exact portsHeld_removeSwitchPort tags hwell hheld name
  | addGroup name members => exact portsHeld_addNamed tags hheld (show groupModel.table ≠ switchPortModel.table by decide) hfresh
  | addAddresses name addresses =>
    exact portsHeld_addNamed tags hheld (show addressSetModel.table ≠ switchPortModel.table by decide) hfresh
  | removeAddresses name =>
    exact portsHeld_removeNamed tags hs hserves hwell hheld (m := addressSetModel) (by decide) (fun h => absurd h (by decide))
  | addRule site rule => exact portsHeld_addRule tags hheld site rule hfresh
  | removeRule site direction priority packets => exact portsHeld_removeRule tags hheld site direction priority packets

/-! ## Runs -/

variable {tags} {Allowed : Tables → Call → Prop}

/-- In a run that deletes only switches without ports every port is held by a switch. -/
theorem ReachedBy.portsHeld (h : ReachedBy Tables.Spares supply tags s) : s.state.tables.PortsHeld := by
  induction h with
  | start built => exact .empty
  | armed _ index code details ih => exact ih
  | called before c drained fresh spares ih =>
    obtain ⟨hs, hserves, hwell⟩ := before.settled drained
    exact portsHeld_call tags hs hserves hwell ih c spares fresh
  | tookFeed _ ih =>
    rw [tables_takeFeed]
    exact ih

/-! ## Errors of a kind -/

/-- The answer is an error of a kind. -/
def failsAs {α : Type} (kind : Error → Bool) : Except Error α → Bool
  | .error e => kind e
  | .ok _ => false

/-- A call that fails with an error of a kind answers with such an error. -/
theorem exists_of_failsAs {α β : Type} {kind : Error → Bool} {answered : Except Error α × β} (h : failsAs kind answered.1 = true) :
    ∃ e, answered = (.error e, answered.2) ∧ kind e = true := by
  obtain ⟨answer, after⟩ := answered
  cases answer with
  | error e => exact ⟨e, rfl, h⟩
  | ok a => cases h

/-! ## Refused as a duplicate -/

/-- A port that is refused as a duplicate has the name of a port that is there. An immediate removal of that name finds nothing exactly when
no switch holds the port, and so never in a run that deletes only switches without ports. -/
theorem duplicate_undone_iff (supply : RowIdSupply) (tags : Nat → UInt32) (s s' : Session Server) (switch : String) (p : SwitchPort)
    (e : Error) (hreached : Reached supply tags s) (hdrained : s.state.feed = .waiting [])
    (hadd : s.addSwitchPort (Server.services supply tags) switch p = (.error e, s')) (hdup : e.isDuplicate = true) :
    ∃ id row, e = .duplicate switchPortModel.table id (named p.name) ∧ s.state.tables.row? switchPortModel.table id = some row ∧
      row.get? "name" = some (.string p.name) ∧
      ((∃ e', (s'.removeSwitchPort (Server.services supply tags) p.name).1 = .error e' ∧ e'.isMissing = true) ↔
        ∀ holder, ¬s.state.tables.Holds switchModel.table holder switchPortColumn id) ∧
      (ReachedBy Tables.Spares supply tags s →
        ∀ e', (s'.removeSwitchPort (Server.services supply tags) p.name).1 = .error e' → e'.isMissing = false) := by
  obtain ⟨hs, hserves, hwell⟩ := hreached.settled hdrained
  obtain ⟨id, row, he, hrow, hname⟩ := exists_port_of_duplicate hs hserves hwell hadd hdup
  obtain ⟨rfl, -⟩ := of_addSwitchPort_duplicate hadd hdup
  have hs' : ((s.newNames (Server.services supply tags)).2).Converged := ⟨hs.drained, hs.mirrors⟩
  have hremoval := isMissing_removeSwitchPort_iff (Server.services supply tags) hs' hserves hwell p.name
  have hunheld : (∃ e', ((s.newNames (Server.services supply tags)).2.removeSwitchPort (Server.services supply tags) p.name).1 = .error e' ∧
      e'.isMissing = true) ↔ ∀ holder, ¬s.state.tables.Holds switchModel.table holder switchPortColumn id := by
    rw [hremoval]
    constructor
    · exact fun h holder => h id row holder hrow hname
    · intro h id' row' holder hrow' hname'
      rw [← hwell.eq_of_named (m := switchPortModel) (by decide) hrow hname hrow' hname']
      exact h holder
  refine ⟨id, row, he, hrow, hname, hunheld, ?_⟩
  intro hspared e' he'
  obtain ⟨holder, hholds⟩ := hspared.portsHeld id row hrow
  rw [← Bool.not_eq_true]
  exact fun hmissing => hunheld.mp ⟨e', he', hmissing⟩ holder hholds

/-- There is a switch with a port. -/
def addsPort : List Call := [.addSwitch "sw0", .addSwitchPort "sw0" { name := "lsp0" }]

/-- A port that is there already can be removed. -/
theorem duplicate_undone_addsPort :
    ∃ s s' e, Reached (Draws.rowIds 0) (fun _ => 0) s ∧
      s.addSwitchPort (Server.services (Draws.rowIds 0) (fun _ => 0)) "sw0" { name := "lsp0" } = (.error e, s') ∧ e.isDuplicate = true ∧
      ∀ e', (s'.removeSwitchPort (Server.services (Draws.rowIds 0) (fun _ => 0)) "lsp0").1 = .error e' → e'.isMissing = false := by
  have hrun : (Client.build (.ofDatabase "net") models []).map (fun c =>
      let s := afterCalls (Draws.rowIds 0) (fun _ => 0) ⟨c, .empty, 0⟩ addsPort
      (drawsOnce (Draws.rowIds 0) (fun _ => 0) ⟨c, .empty, 0⟩ addsPort,
        failsAs Error.isDuplicate
          (s.addSwitchPort (Server.services (Draws.rowIds 0) (fun _ => 0)) "sw0" { name := "lsp0" }).1)) = .ok (true, true) := by
    decide +kernel
  obtain ⟨c, hbuilt, hfacts⟩ := map_eq_ok_iff.mp hrun
  simp only [Prod.mk.injEq] at hfacts
  obtain ⟨hfresh, hadded⟩ := hfacts
  have hspares : ∀ c ∈ addsPort, ∀ tables, Tables.Spares tables c := by
    intro c hc tables
    simp only [addsPort, List.mem_cons, List.not_mem_nil, or_false] at hc
    rcases hc with rfl | rfl <;> trivial
  have hstart : ReachedBy Tables.Spares (Draws.rowIds 0) (fun _ => 0) ⟨c, .empty, 0⟩ := .start hbuilt
  obtain ⟨hreached, hdrained⟩ := reachedBy_afterCalls hstart rfl hspares hfresh
  generalize afterCalls (Draws.rowIds 0) (fun _ => 0) ⟨c, .empty, 0⟩ addsPort = s at hreached hdrained hadded
  obtain ⟨e, hadd, hdup⟩ := exists_of_failsAs hadded
  obtain ⟨-, -, -, -, -, -, hundone⟩ := duplicate_undone_iff _ _ s _ "sw0" { name := "lsp0" } e hreached.reached hdrained hadd hdup
  exact ⟨s, _, e, hreached.reached, hadd, hdup, hundone hreached⟩

/-- A switch is deleted, its port is left behind, and there is a new switch. -/
def leavesPortBehind : List Call := [.addSwitch "sw0", .addSwitchPort "sw0" { name := "lsp0" }, .removeSwitch "sw0", .addSwitch "sw1"]

/-- A port that has been left behind can neither be added to another switch nor be removed. -/
theorem not_duplicate_undone :
    ¬∀ (supply : RowIdSupply) (tags : Nat → UInt32) (s s' : Session Server) (switch : String) (p : SwitchPort) (e : Error),
      Reached supply tags s → s.state.feed = .waiting [] →
      s.addSwitchPort (Server.services supply tags) switch p = (.error e, s') → e.isDuplicate = true →
      ∀ e', (s'.removeSwitchPort (Server.services supply tags) p.name).1 = .error e' → e'.isMissing = false := by
  intro hall
  have hrun : (Client.build (.ofDatabase "net") models []).map (fun c =>
      let s := afterCalls (Draws.rowIds 0) (fun _ => 0) ⟨c, .empty, 0⟩ leavesPortBehind
      let answered := s.addSwitchPort (Server.services (Draws.rowIds 0) (fun _ => 0)) "sw1" { name := "lsp0" }
      (drawsOnce (Draws.rowIds 0) (fun _ => 0) ⟨c, .empty, 0⟩ leavesPortBehind, failsAs Error.isDuplicate answered.1,
        failsAs Error.isMissing (answered.2.removeSwitchPort (Server.services (Draws.rowIds 0) (fun _ => 0)) "lsp0").1)) =
      .ok (true, true, true) := by
    decide +kernel
  obtain ⟨c, hbuilt, hfacts⟩ := map_eq_ok_iff.mp hrun
  simp only [Prod.mk.injEq] at hfacts
  obtain ⟨hfresh, hadded, hremoved⟩ := hfacts
  have hstart : ReachedBy (fun _ _ => True) (Draws.rowIds 0) (fun _ => 0) ⟨c, .empty, 0⟩ := .start hbuilt
  obtain ⟨hreached, hdrained⟩ := reachedBy_afterCalls hstart rfl (fun _ _ _ => trivial) hfresh
  generalize afterCalls (Draws.rowIds 0) (fun _ => 0) ⟨c, .empty, 0⟩ leavesPortBehind = s at hreached hdrained hadded hremoved
  obtain ⟨e, hadd, hdup⟩ := exists_of_failsAs hadded
  obtain ⟨e', hremove, hmissing⟩ := exists_of_failsAs hremoved
  have hnot := hall _ _ s _ "sw1" { name := "lsp0" } e hreached.reached hdrained hadd hdup e' (congrArg Prod.fst hremove)
  rw [hmissing] at hnot
  cases hnot

end Session

end TableReplica
