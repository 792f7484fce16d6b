import TableReplica.Proofs.NetworkKeys

/-!
# Runs on a virtual network

A client works on a server that starts empty, and takes in what a call has changed before it makes the next one
(`Session.ReachedBy`). Through every such run the natural keys stay unique on the server (`Session.Reached.keysUnique`), though they are
checked in the cache of the client.

The invariant is `Session.Kept`: the cache has the tables of the server, or will have once the feed is taken in, and the keys of the
tables are in order.
-/

namespace TableReplica

open VirtualNetwork

/-- A call that may change a virtual network. -/
inductive VirtualNetwork.Call where
  | addSwitch (name : String)
  | removeSwitch (name : String)
  | addSwitchPort (switch : String) (p : SwitchPort)
  | removeSwitchPort (name : String)
  | addGroup (name : String) (members : List RowId)
  | addAddresses (name : String) (addresses : List String)
  | removeAddresses (name : String)
  | addRule (site : RuleSite) (rule : AccessRule)
  | removeRule (site : RuleSite) (direction : String) (priority : Int64) (packets : String)

namespace Session

/-- The session after a call, whatever the answer is. -/
def call {σ : Type} (services : Services σ) (s : Session σ) : Call → Session σ
  | .addSwitch name => (s.addSwitch services name).2
  | .removeSwitch name => (s.removeSwitch services name).2
  | .addSwitchPort switch p => (s.addSwitchPort services switch p).2
  | .removeSwitchPort name => (s.removeSwitchPort services name).2
  | .addGroup name members => (s.addGroup services name members).2
  | .addAddresses name addresses => (s.addAddresses services name addresses).2
  | .removeAddresses name => (s.removeAddresses services name).2
  | .addRule site rule => (s.addRule services site rule).2
  | .removeRule site direction priority packets => (s.removeRule services site direction priority packets).2

/-- No identifier that is drawn on the way to the second session is in use in the first. -/
def DrawsFresh (supply : RowIdSupply) (s s' : Session Server) : Prop :=
  ∀ n, s.state.drawn ≤ n → n < s'.state.drawn → s.state.tables.live (supply n) = false

/-- The points of a run on a server that starts empty, in which only calls are made that are allowed for the tables as they are. A call is
made when the feed has been taken in, and draws no identifier that is in use. -/
inductive ReachedBy (Allowed : Tables → Call → Prop) (supply : RowIdSupply) (tags : Nat → UInt32) : Session Server → Prop
  | start {config : Config} {listeners : List (String × Listener)} {c : Client}
      (built : Client.build config models listeners = .ok c) : ReachedBy Allowed supply tags ⟨c, .empty, 0⟩
  | armed {s : Session Server} (before : ReachedBy Allowed supply tags s) (index : Nat) (code details : String) :
      ReachedBy Allowed supply tags { s with state := s.state.arm index code details }
  | called {s : Session Server} (before : ReachedBy Allowed supply tags s) (c : Call) (drained : s.state.feed = .waiting [])
      (fresh : DrawsFresh supply s (s.call (Server.services supply tags) c)) (allowed : Allowed s.state.tables c) :
      ReachedBy Allowed supply tags (s.call (Server.services supply tags) c)
  | tookFeed {s : Session Server} (before : ReachedBy Allowed supply tags s) : ReachedBy Allowed supply tags s.takeFeed

/-- The points of a run in which any call may be made. -/
abbrev Reached : RowIdSupply → (Nat → UInt32) → Session Server → Prop := ReachedBy fun _ _ => True

/-- The cache mirrors the tables once the feed is taken in, and the keys of the tables are in order. -/
structure Kept (s : Session Server) : Prop where
  converged : s.takeFeed.Converged
  serves : s.takeFeed.client.replica.Serves models
  wellKeyed : s.state.tables.WellKeyed

end Session

/-- Empty tables have no keys to mind. -/
theorem Tables.wellKeyed_empty : Tables.WellKeyed ∅ := by
  have hnone : ∀ table id row, Tables.row? ∅ table id ≠ some row := by
    intro table id row hrow
    cases hrow
  have hunheld : ∀ table holder column link, ¬Tables.Holds ∅ table holder column link := by
    rintro table holder column link ⟨row, hrow, -⟩
    exact hnone table holder row hrow
  refine ⟨?_, ?_, ?_, ?_, ?_, ?_, ?_, ?_⟩
  · rintro table id target ⟨row, hrow, -⟩
    exact hnone table id row hrow
  · intro table id row hrow
    exact absurd hrow (hnone table id row)
  · intro m _ id row hrow
    exact absurd hrow (hnone m.table id row)
  · intro id row hrow
    exact absurd hrow (hnone ruleModel.table id row)
  · intro m _ id _ row _ hrow
    exact absurd hrow (hnone m.table id row)
  · intro parent _ holder id _ _ _ hholds
    exact absurd hholds (hunheld parent holder ruleColumn id)
  · intro parent _ _ _ holder _ link hholds
    exact absurd hholds (hunheld parent holder ruleColumn link)
  · intro parent _ _ _ holder _ link hholds
    exact absurd hholds (hunheld parent holder switchPortColumn link)

/-- The texts of another field stay. -/
theorem Record.texts_set_of_ne (record : Record) {name name' : String} (value : FieldValue) (h : name ≠ name') :
    (record.set name value).texts name' = record.texts name' := by
  rw [texts, texts, get?, get?, set, SortedMap.get?_insert_of_ne record.fields value h]

/-- A new record of which the name and one set of texts is given has the rules of a blank one. -/
theorem Model.rules_of_texts (m : Model) (name : String) {field : String} (h : field ≠ ruleColumn) (texts : List String) :
    ((m.blank.set "name" (.text name)).set field (.texts texts)).texts ruleColumn = m.blank.texts ruleColumn := by
  rw [Record.texts_set_of_ne _ _ h, Record.texts_set_of_ne _ _ (by decide)]

namespace Session

variable {supply : RowIdSupply} {s s' : Session Server} {Change : Tables → Prop}

/-! ## What a call keeps -/

/-- A call that is refused keeps the invariant. -/
theorem kept_of_refused (h : Refused s s') (hs : s.Converged) (hserves : s.client.replica.Serves models)
    (hwell : s.state.tables.WellKeyed) : Kept s' := by
  have htake := h.takeFeed hs.drained
  refine ⟨?_, ?_, ?_⟩
  · rw [htake]
    exact h.converged hs
  · rw [htake]
    exact h.serves hserves
  · rw [h.tables]
    exact hwell

/-- A call that commits well-keyed tables keeps the invariant. -/
theorem kept_of_committed {now : Tables} (h : Committed s s' now) (hs : s.Converged) (hserves : s.client.replica.Serves models)
    (hwell : now.WellKeyed) : Kept s' where
  converged := h.converged_takeFeed hs
  serves := h.serves_takeFeed hs.drained hserves
  wellKeyed := by
    rw [h.tables]
    exact hwell

/-- A call that inserts nothing keeps the keys in order when its change does. -/
theorem kept_of_changed (h : Changed s Change s') (hs : s.Converged) (hserves : s.client.replica.Serves models)
    (hwell : s.state.tables.WellKeyed)
    (hchange : ∀ now, (∀ table id target, ¬now.Dangles table id target) → Change now → now.WellKeyed) : Kept s' := by
  cases h with
  | refused hrefused => exact kept_of_refused hrefused hs hserves hwell
  | changed hcommitted hnow => exact kept_of_committed hcommitted hs hserves (hchange _ hcommitted.sound hnow)

/-- An insertion keeps the keys in order when its change does, for an identifier that is not in use. -/
theorem kept_of_inserted {answer : Except Error RowId × Session Server} (h : Inserted supply s Change answer) (hs : s.Converged)
    (hserves : s.client.replica.Serves models) (hwell : s.state.tables.WellKeyed) (hfresh : DrawsFresh supply s answer.2)
    (hchange : ∀ now, (∀ table id target, ¬now.Dangles table id target) → s.state.tables.live (supply s.state.drawn) = false →
      Change now → now.WellKeyed) : Kept answer.2 := by
  cases h with
  | refused hrefused => exact kept_of_refused hrefused hs hserves hwell
  | inserted hcommitted hnow hdrawn =>
    have hnew : s.state.tables.live (supply s.state.drawn) = false :=
      hfresh s.state.drawn (Nat.le_refl _) (Nat.lt_of_lt_of_eq (Nat.lt_succ_self _) hdrawn.symm)
    exact kept_of_committed hcommitted hs hserves (hchange _ hcommitted.sound hnew hnow)

variable (tags : Nat → UInt32)

/-- Adding a switch or a group of ports keeps the invariant. -/
theorem kept_addNamed (hs : s.Converged) (hserves : s.client.replica.Serves models) (hwell : s.state.tables.WellKeyed) {m : Model}
    (hm : m ∈ namedModels) {record : Record} (htype : record.type = m.type) (htable : record.table = m.table)
    (hrules : record.texts ruleColumn = []) (hports : m = switchModel → record.texts switchPortColumn = [])
    (hfresh : DrawsFresh supply s (s.addNamed (Server.services supply tags) record).2) :
    Kept (s.addNamed (Server.services supply tags) record).2 := by
  refine kept_of_inserted (inserted_addNamed supply tags s record) hs hserves hwell hfresh ?_
  rintro now hclosed hnew ⟨row, hencode, hcheck, hgains⟩
  have hmem := mem_models_of_named hm
  have hrow := hserves.encode hmem htable htype hencode
  rw [htable] at hcheck hgains
  refine hwell.gainsNamed hs.mirrors hserves hm hrow ?_ ?_ hcheck hnew hgains hclosed
  · exact (holdsLinks_of_encode hmem hrow ruleColumn_mem).2 hrules
  · intro hswitch
    exact (holdsLinks_of_encode hmem hrow switchPortColumn_mem).2 (hports hswitch)

/-- Removing a switch or a group of ports keeps the invariant. -/
theorem kept_removeNamed (hs : s.Converged) (hserves : s.client.replica.Serves models) (hwell : s.state.tables.WellKeyed)
    (table name : String) : Kept (s.removeNamed (Server.services supply tags) table name).2 := by
  refine kept_of_changed (changed_removeNamed supply tags s table name) hs hserves hwell ?_
  rintro now hclosed ⟨id, -, hloses⟩
  exact hwell.shrinks hloses.grows hclosed

/-- Adding a port keeps the invariant. -/
theorem kept_addSwitchPort (hs : s.Converged) (hserves : s.client.replica.Serves models) (hwell : s.state.tables.WellKeyed)
    (switch : String) (p : SwitchPort)
    (hfresh : DrawsFresh supply s (s.addSwitchPort (Server.services supply tags) switch p).2) :
    Kept (s.addSwitchPort (Server.services supply tags) switch p).2 := by
  refine kept_of_inserted (inserted_addSwitchPort supply tags s switch p) hs hserves hwell hfresh ?_
  rintro now hclosed hnew ⟨row, holder, hencode, hcheck, hgains⟩
  have hrow := hserves.encode switchPortModel_mem rfl rfl hencode
  exact hwell.gainsPort hs.mirrors hserves hrow hcheck hnew hgains hclosed

/-- Removing a port keeps the invariant. -/
theorem kept_removeSwitchPort (hs : s.Converged) (hserves : s.client.replica.Serves models) (hwell : s.state.tables.WellKeyed)
    (name : String) : Kept (s.removeSwitchPort (Server.services supply tags) name).2 := by
  refine kept_of_changed (changed_removeSwitchPort supply tags s name) hs hserves hwell ?_
  rintro now hclosed ⟨child, holder, hloses⟩
  exact hwell.shrinks (hloses.grows switchPortColumn_mem (fun old hold => (hwell.links _ _ old hold).2)) hclosed

/-- Adding a rule keeps the invariant. -/
theorem kept_addRule (hs : s.Converged) (hserves : s.client.replica.Serves models) (hwell : s.state.tables.WellKeyed)
    (site : RuleSite) (rule : AccessRule) (hfresh : DrawsFresh supply s (s.addRule (Server.services supply tags) site rule).2) :
    Kept (s.addRule (Server.services supply tags) site rule).2 := by
  refine kept_of_inserted (inserted_addRule supply tags s site rule) hs hserves hwell hfresh ?_
  rintro now hclosed hnew ⟨parent, row, holder, hparent, hencode, hcheck, hgains⟩
  obtain ⟨htable, hcolumn⟩ := RuleSite.of_parent hparent
  have hrow := hserves.encode ruleModel_mem rfl rfl hencode
  exact hwell.gainsRule hs.mirrors hserves hrow (mem_ruleParents_iff.mpr htable) hcolumn hcheck hnew hgains hclosed

/-- Removing a rule keeps the invariant. -/
theorem kept_removeRule (hs : s.Converged) (hserves : s.client.replica.Serves models) (hwell : s.state.tables.WellKeyed)
    (site : RuleSite) (direction : String) (priority : Int64) (packets : String) :
    Kept (s.removeRule (Server.services supply tags) site direction priority packets).2 := by
  refine kept_of_changed (changed_removeRule supply tags s site direction priority packets) hs hserves hwell ?_
  rintro now hclosed ⟨parent, child, holder, hparent, hloses⟩
  obtain ⟨-, hcolumn⟩ := RuleSite.of_parent hparent
  exact hwell.shrinks (hloses.grows (hcolumn ▸ ruleColumn_mem) (fun old hold => hcolumn ▸ (hwell.links _ _ old hold).1)) hclosed

/-- Every call keeps the keys in order, if the cache has the tables of the server when it is made. -/
theorem kept_call (hs : s.Converged) (hserves : s.client.replica.Serves models) (hwell : s.state.tables.WellKeyed) (c : Call)
    (hfresh : DrawsFresh supply s (s.call (Server.services supply tags) c)) : Kept (s.call (Server.services supply tags) c) := by
  cases c with
  | addSwitch name =>
    exact kept_addNamed tags hs hserves hwell (m := switchModel) (by decide) rfl rfl
      (Record.texts_set_of_ne _ _ (by decide)) (fun _ => Record.texts_set_of_ne _ _ (by decide)) hfresh
  | removeSwitch name => exact kept_removeNamed tags hs hserves hwell switchModel.table name
  | addSwitchPort switch p => exact kept_addSwitchPort tags hs hserves hwell switch p hfresh
  | removeSwitchPort name => exact kept_removeSwitchPort tags hs hserves hwell name
  | addGroup name members =>
    have hrules := groupModel.rules_of_texts name (by decide : "ports" ≠ ruleColumn) (members.map RowId.text)
    exact kept_addNamed tags hs hserves hwell (m := groupModel) (by decide) rfl rfl hrules (fun h => absurd h (by decide)) hfresh
  | addAddresses name addresses =>
    have hrules := addressSetModel.rules_of_texts name (by decide : "addresses" ≠ ruleColumn) addresses
    exact kept_addNamed tags hs hserves hwell (m := addressSetModel) (by decide) rfl rfl hrules (fun h => absurd h (by decide)) hfresh
  | removeAddresses name => exact kept_removeNamed tags hs hserves hwell addressSetModel.table name
  | addRule site rule => exact kept_addRule tags hs hserves hwell site rule hfresh
  | removeRule site direction priority packets => exact kept_removeRule tags hs hserves hwell site direction priority packets

variable {tags} {Allowed : Tables → Call → Prop}

/-- The invariant of a run, whatever calls are allowed. -/
theorem ReachedBy.kept (h : ReachedBy Allowed supply tags s) : Kept s := by
  induction h with
  | start built => exact ⟨⟨rfl, Client.mirrors_of_build built⟩, Client.serves_of_build built, Tables.wellKeyed_empty⟩
  | armed _ index code details ih => exact ⟨⟨ih.converged.drained, ih.converged.mirrors⟩, ih.serves, ih.wellKeyed⟩
  | called _ c drained fresh _ ih =>
    obtain ⟨hs, hserves, hwell⟩ := ih
    rw [takeFeed_of_drained drained] at hs hserves
    exact kept_call tags hs hserves hwell c fresh
  | tookFeed _ ih =>
    refine ⟨?_, ?_, ih.wellKeyed⟩
    · rw [takeFeed_of_drained ih.converged.drained]
      exact ih.converged
    · rw [takeFeed_of_drained ih.converged.drained]
      exact ih.serves

/-- A run that is allowed fewer calls is a run. -/
theorem ReachedBy.reached (h : ReachedBy Allowed supply tags s) : Reached supply tags s := by
  induction h with
  | start built => exact .start built
  | armed _ index code details ih => exact .armed ih index code details
  | called _ c drained fresh _ ih => exact .called ih c drained fresh trivial
  | tookFeed _ ih => exact .tookFeed ih

/-- At a point of a run at which nothing waits on the feed, the cache has the tables already. -/
theorem ReachedBy.settled (h : ReachedBy Allowed supply tags s) (hdrained : s.state.feed = .waiting []) :
    s.Converged ∧ s.client.replica.Serves models ∧ s.state.tables.WellKeyed := by
  obtain ⟨hs, hserves, hwell⟩ := h.kept
  rw [takeFeed_of_drained hdrained] at hs hserves
  exact ⟨hs, hserves, hwell⟩

/-! ## Given calls -/

/-- A call that draws one identifier at most, which is not in use. -/
theorem drawsFresh_of_one (hone : s'.state.drawn ≤ s.state.drawn + 1) (hunused : s.state.tables.live (supply s.state.drawn) = false) :
    DrawsFresh supply s s' := by
  intro n hle hlt
  have heq : n = s.state.drawn := by omega
  rw [heq]
  exact hunused

/-- Calls are made one after the other, and the feed is taken in after each. -/
def afterCalls (supply : RowIdSupply) (tags : Nat → UInt32) (s : Session Server) : List Call → Session Server
  | [] => s
  | c :: rest => afterCalls supply tags (s.call (Server.services supply tags) c).takeFeed rest

/-- Each of the calls draws one identifier at most, which is not in use. -/
def drawsOnce (supply : RowIdSupply) (tags : Nat → UInt32) (s : Session Server) : List Call → Bool
  | [] => true
  | c :: rest =>
    decide ((s.call (Server.services supply tags) c).state.drawn ≤ s.state.drawn + 1) && !s.state.tables.live (supply s.state.drawn) &&
      drawsOnce supply tags (s.call (Server.services supply tags) c).takeFeed rest

/-- Calls that are allowed and draw new identifiers lead from a point of a run to another. -/
theorem reachedBy_afterCalls {calls : List Call} (h : ReachedBy Allowed supply tags s) (hdrained : s.state.feed = .waiting [])
    (hallowed : ∀ c ∈ calls, ∀ tables, Allowed tables c) (hfresh : drawsOnce supply tags s calls = true) :
    ReachedBy Allowed supply tags (afterCalls supply tags s calls) ∧ (afterCalls supply tags s calls).state.feed = .waiting [] := by
  induction calls generalizing s with
  | nil => exact ⟨h, hdrained⟩
  | cons c rest ih =>
    obtain ⟨hc, hrest⟩ := List.forall_mem_cons.mp hallowed
    rw [drawsOnce, Bool.and_eq_true, Bool.and_eq_true, decide_eq_true_eq, Bool.not_eq_true'] at hfresh
    obtain ⟨⟨hone, hunused⟩, hfresh⟩ := hfresh
    have hcalled : ReachedBy Allowed supply tags (s.call (Server.services supply tags) c) :=
      .called h c hdrained (drawsFresh_of_one hone hunused) (hc _)
    exact ih (.tookFeed hcalled) hcalled.kept.converged.drained hrest hfresh

/-! ## Unique keys -/

/-- At every point of a run no two switches, ports, groups or sets of addresses have the same name, no two rules of one switch or group
have the same direction, priority and packets, each rule hangs from one switch or group, and each port from one switch. -/
theorem Reached.keysUnique (h : Reached supply tags s) : s.state.tables.KeysUnique := h.kept.wellKeyed.unique

/-- There are two switches, and the first has two rules of different priorities. -/
def addsTwoRules : List Call :=
  [.addSwitch "sw0", .addSwitch "sw1",
    .addRule (.switch "sw0") { direction := "to-lport", priority := 10, packets := "ip4", action := "drop" },
    .addRule (.switch "sw0") { direction := "to-lport", priority := 20, packets := "ip4", action := "drop" }]

/-- What a server has in a column of a table, under some of the identifiers that have been drawn. -/
def shown (supply : RowIdSupply) (s : Session Server) (table column : String) (drawn : List Nat) : List (Option Value) :=
  drawn.map fun n => (s.state.tables.row? table (supply n)).bind (·.get? column)

/-- What can be told apart by the keys: two switches by their names, and two rules of the first by their priorities. -/
theorem keysUnique_addsTwoRules :
    ∃ s, Reached (Draws.rowIds 0) (fun _ => 0) s ∧
      s.shown (Draws.rowIds 0) switchModel.table "name" [0, 1] = [some (.string "sw0"), some (.string "sw1")] ∧
      s.shown (Draws.rowIds 0) ruleModel.table "priority" [2, 3] = [some (.integer 10), some (.integer 20)] ∧
      s.shown (Draws.rowIds 0) switchModel.table ruleColumn [0] = [some (.ofRowIds [Draws.rowIds 0 2, Draws.rowIds 0 3])] ∧
      s.state.tables.KeysUnique := by
  have hrun : (Client.build (.ofDatabase "net") models []).map (fun c =>
      let s := afterCalls (Draws.rowIds 0) (fun _ => 0) ⟨c, .empty, 0⟩ addsTwoRules
      (drawsOnce (Draws.rowIds 0) (fun _ => 0) ⟨c, .empty, 0⟩ addsTwoRules, s.shown (Draws.rowIds 0) switchModel.table "name" [0, 1],
        s.shown (Draws.rowIds 0) ruleModel.table "priority" [2, 3], s.shown (Draws.rowIds 0) switchModel.table ruleColumn [0])) =
      .ok (true, [some (.string "sw0"), some (.string "sw1")], [some (.integer 10), some (.integer 20)],
        [some (.ofRowIds [Draws.rowIds 0 2, Draws.rowIds 0 3])]) := by
    decide +kernel
  obtain ⟨c, hbuilt, hfacts⟩ := map_eq_ok_iff.mp hrun
  simp only [Prod.mk.injEq] at hfacts
  obtain ⟨hfresh, hswitches, hrules, hlinks⟩ := hfacts
  have hstart : Reached (Draws.rowIds 0) (fun _ => 0) ⟨c, .empty, 0⟩ := .start hbuilt
  obtain ⟨hreached, -⟩ := reachedBy_afterCalls hstart rfl (fun _ _ _ => trivial) hfresh
  exact ⟨_, hreached, hswitches, hrules, hlinks, Reached.keysUnique hreached⟩

end Session

end TableReplica
