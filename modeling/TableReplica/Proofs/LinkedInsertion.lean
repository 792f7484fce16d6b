import TableReplica.Proofs.NetworkCalls
import TableReplica.Proofs.SeenRows

/-!
# Created and linked, or neither

A rule is inserted together with the link from its parent, and so is a port of a switch: both rows change or neither does, on the server
and, when the feed has been taken in, in the cache (`Session.both_or_neither`). A cache may show the server's rows up to the signs of zeros
(`Replica.Mirrors`) or as they are (`Replica.Copies`); what else it holds is the same in whichever of these views it had.
-/

namespace TableReplica

open VirtualNetwork

/-- A row has come, and is among the links of its parent besides those that were there. All other columns of the parent and all other rows
are the same in the given view. -/
structure LinkedUnder (view : Value → Value) (before after : String → RowId → Option Row) (table : String) (id : RowId)
    (parent : Parent) (holder : RowId) (links : List RowId) : Prop where
  came : before table id = none ∧ (after table id).isSome = true
  linked : ∃ old new, before parent.table holder = some old ∧ after parent.table holder = some new ∧
    (∀ link, link ∈ old.links parent.column ↔ link ∈ links) ∧
    new.get? parent.column = some (.ofRowIds (links ++ [id])) ∧
    ∀ column, column ≠ parent.column → (new.get? column).map view = (old.get? column).map view
  others : ∀ table' id', ¬(table = table' ∧ id = id') → ¬(parent.table = table' ∧ holder = id') →
    (after table' id').map (Row.seen view) = (before table' id').map (Row.seen view)

/-- How a call ends that creates a record and links it from its parent. -/
inductive Session.BothOrNeither (s : Session Server) (m : Model) (record : RowId → Record) (parent : Except Error Parent) :
    Except Error RowId × Session Server → Prop
  /-- Neither: the tables and the cache are as they were. -/
  | neither {e : Error} {s' : Session Server} (tables : s'.takeFeed.state.tables = s.state.tables)
      (cache : s'.takeFeed.client.cache = s.client.cache) : BothOrNeither s m record parent (.error e, s')
  /-- Both: the record can be read, and the row to which the parent resolved holds it. All else is the same on the server. In the cache it
  is the same up to the signs of zeros, and exactly so if the cache was an exact copy or the row agrees with itself. -/
  | both {id : RowId} {s' : Session Server} {p : Parent} {holder : RowId} {links : List RowId} (resolved : parent = .ok p)
      (found : s.client.cache.parentId p none = .ok holder) (recorded : s'.takeFeed.client.record m id = .ok (record id))
      (server : LinkedUnder (fun v => v) s.state.tables.row? s'.takeFeed.state.tables.row? m.table id p holder links)
      (cached : LinkedUnder .positiveZeros s.client.cache.row? s'.takeFeed.client.cache.row? m.table id p holder links)
      (copied : s.client.replica.Copies s.state.tables →
        LinkedUnder (fun v => v) s.client.cache.row? s'.takeFeed.client.cache.row? m.table id p holder links)
      (still : ∀ table' id', ¬(m.table = table' ∧ id = id') → ¬(p.table = table' ∧ holder = id') →
        (∀ row, s.state.tables.row? table' id' = some row → row.agrees row = true) →
        s'.takeFeed.client.cache.row? table' id' = s.client.cache.row? table' id') :
      BothOrNeither s m record parent (.ok id, s')

namespace Session

variable {s s' : Session Server} {now : Tables} {table : String} {id : RowId} {row : Row} {parent : Parent} {holder : RowId}
  {old : Row}

/-- On the server everything else is exactly the same. -/
theorem linkedUnder_server (hgains : s.state.tables.GainsUnder now table id row parent holder) (hne : table ≠ parent.table)
    (hbefore : s.state.tables.row? table id = none) (hold : s.state.tables.row? parent.table holder = some old)
    (hlinks : old.HoldsLinks parent.column) :
    LinkedUnder (fun v => v) s.state.tables.row? now.row? table id parent holder (old.links parent.column) where
  came := ⟨hbefore, by rw [hgains.row?_new]; rfl⟩
  linked := by
    refine ⟨old, old.mutate parent.column .insert (.uuid id), hold, ?_, fun _ => Iff.rfl, hlinks.get?_mutate_insert id, ?_⟩
    · rw [hgains.row?_parent hne, hold]
      rfl
    · intro column hcolumn
      rw [Row.get?_mutate_of_ne old (Ne.symm hcolumn)]
  others := by
    intro table' id' hnew hparent
    rw [hgains.row?_other hnew hparent]

/-- A cache that mirrors the tables before and after shows the same change, in each view in which it shows them. -/
theorem linkedUnder_cache {r r' : Replica} {before : Tables} {view : Value → Value} (hm : r.Mirrors before) (hm' : r'.Mirrors now)
    (hsees : r.Sees view before) (hsees' : r'.Sees view now) (hschema : r'.schema = r.schema)
    (hknows : ∀ table', r'.cache.knows table' = r.cache.knows table')
    (hgains : before.GainsUnder now table id row parent holder) (hne : table ≠ parent.table)
    (hbefore : before.row? table id = none) (hcached : r'.cache.row? table id = some row) {shown : Row}
    (hshown : r.cache.row? parent.table holder = some shown) (hold : before.row? parent.table holder = some old)
    (hlinks : old.HoldsLinks parent.column) (hkind : (r.schema.kinds parent.table).get? parent.column = some (.set .uuid)) :
    LinkedUnder view r.cache.row? r'.cache.row? table id parent holder (old.links parent.column) where
  came := ⟨hm.row?_eq_none hbefore, by rw [hcached]; rfl⟩
  linked := by
    obtain ⟨old', hold', hshows⟩ := hm.shows_of_cached hshown
    rw [hold] at hold'
    cases hold'
    have hnew : now.row? parent.table holder = some (old.mutate parent.column .insert (.uuid id)) := by
      rw [hgains.row?_parent hne, hold]
      rfl
    have hknown : r'.cache.knows parent.table = true := (hknows parent.table).trans (Cache.knows_of_row?_eq_some hshown)
    obtain ⟨shown', hshown', -, hcolumn⟩ := hm'.shows_of_links hknown hnew (hschema ▸ hkind) (hlinks.get?_mutate_insert id)
    refine ⟨shown, shown', hshown, hshown', hshows.mem_links hkind hlinks, hcolumn, ?_⟩
    intro column hne'
    rw [hsees.get?_row hshown hold, hsees'.get?_row hshown' hnew, Row.get?_mutate_of_ne old (Ne.symm hne'), hschema]
  others := by
    intro table' id' hnew hparent
    exact hsees.row?_of_eq hsees' hschema (hknows table') (hgains.row?_other hnew hparent)

/-- A commit that links a new row from its parent makes both, if the parent was found in a cache that had converged. -/
theorem both_of_gainsUnder (hs : s.Converged) (hserves : s.client.replica.Serves models) (hcommitted : Committed s s' now)
    {m : Model} (hm : m ∈ models) {record : Record} (hrow : m.encode record = .ok row) (hnonempty : row.isEmpty = false)
    (hnew : s.state.tables.row? m.table id = none) (hne : m.table ≠ parent.table)
    (hgains : s.state.tables.GainsUnder now m.table id row parent holder)
    (hkind : (s.client.schema.kinds parent.table).get? parent.column = some (.set .uuid))
    (hlinks : ∀ old, s.state.tables.row? parent.table holder = some old → old.HoldsLinks parent.column)
    (hfound : s.client.cache.parentId parent none = .ok holder) {settled : RowId → Record}
    (hsettled : ∀ r : Record, r.type = m.type → r.table = m.table → (∀ f ∈ m.fields, r.get? f.name = some (f.settled id record)) →
      (∀ name, (∀ f ∈ m.fields, f.name ≠ name) → r.get? name = none) → r = settled id) :
    BothOrNeither s m settled (.ok parent) (.ok id, s') := by
  have hcached := hcommitted.row?_takeFeed_of_encode hs.drained hserves hm (regular_of_mem hm) hrow hnonempty hnew hgains.row?_new
  obtain ⟨shown, hshown⟩ := Cache.row?_of_parentId hfound
  obtain ⟨old, hold, -⟩ := hs.mirrors.shows_of_cached hshown
  have hserves' := hcommitted.serves_takeFeed hs.drained hserves
  obtain ⟨r, hr, htype, htable, hfields, hothers⟩ := Client.record_of_encode hserves' hm (regular_of_mem hm) hrow hcached
  have htables : s'.takeFeed.state.tables = now := hcommitted.tables
  have hmirrors := (hcommitted.converged_takeFeed hs).mirrors
  rw [htables] at hmirrors
  have hcache : ∀ view, s.client.replica.Sees view s.state.tables → s'.takeFeed.client.replica.Sees view now →
      LinkedUnder view s.client.cache.row? s'.takeFeed.client.cache.row? m.table id parent holder (old.links parent.column) :=
    fun view hsees hsees' => linkedUnder_cache hs.mirrors hmirrors hsees hsees' (hcommitted.schema_takeFeed hs.drained)
      (hcommitted.knows_takeFeed hs.drained) hgains hne hnew hcached hshown hold (hlinks old hold) hkind
  refine .both rfl hfound (hr.trans (congrArg Except.ok (hsettled r htype htable hfields hothers))) ?_
    (hcache .positiveZeros hs.mirrors.sees hmirrors.sees) ?_ ?_
  · rw [htables]
    exact linkedUnder_server hgains hne hnew hold (hlinks old hold)
  · intro hcopies
    have hcopies' := hcommitted.copies_takeFeed hs.drained hcopies (fun _ _ => hgains.eq_of_told_eq_none hne hnew hlinks)
    exact hcache (fun v => v) (hcopies.sees _) (hcopies'.sees _)
  · intro table' id' hnot hnot' hagrees
    exact hcommitted.row?_takeFeed_of_agrees hs.drained (hgains.row?_other hnot hnot') hagrees

/-- A refused insertion leaves neither a row nor a link. -/
theorem neither_of_refused {e : Error} {m : Model} {record : RowId → Record} {resolved : Except Error Parent} (h : Refused s s')
    (hs : s.Converged) : BothOrNeither s m record resolved (.error e, s') := by
  have htake := h.takeFeed hs.drained
  refine .neither (htake ▸ h.tables) ?_
  rw [htake, Client.cache, Client.cache, h.client]

end Session

/-- A row that has a column is not empty. -/
theorem Row.isEmpty_eq_false {row : Row} {column : String} {v : Value} (h : row.get? column = some v) : row.isEmpty = false := by
  rw [Bool.eq_false_iff]
  intro hempty
  rw [(SortedMap.isEmpty_iff row).mp hempty column] at h
  cases h

/-- A session that has converged creates a rule or a port of a switch and links it from its parent, or does neither, whenever the
identifier that is drawn next names no row. -/
theorem Session.both_or_neither (supply : RowIdSupply) (tags : Nat → UInt32) (s : Session Server)
    (hserves : s.client.replica.Serves models) (hs : s.Converged) (hlinks : s.state.tables.HoldLinks)
    (hfresh : s.state.tables.live (supply s.state.drawn) = false) :
    (∀ (site : RuleSite) (rule : AccessRule),
      s.BothOrNeither ruleModel (fun id => { rule with id := id.text }.toRecord) (site.parent s.client.cache)
        (s.addRule (Server.services supply tags) site rule)) ∧
    ∀ (switch : String) (p : SwitchPort),
      s.BothOrNeither switchPortModel
        (fun id => { p with id := id.text
                            addresses := sortedDistinct p.addresses
                            allowedAddresses := sortedDistinct p.allowedAddresses }.toRecord)
        (.ok (switchNamed switch)) (s.addSwitchPort (Server.services supply tags) switch p) := by
  constructor
  · intro site rule
    have hinserted := inserted_addRule supply tags s site rule
    generalize s.addRule (Server.services supply tags) site rule = answer at hinserted ⊢
    cases hinserted with
    | refused hrefused => exact neither_of_refused hrefused hs
    | inserted hcommitted hchange _ =>
      obtain ⟨parent, row, holder, hparent, hencode, hcheck, hgains⟩ := hchange
      have hrow := hserves.encode ruleModel_mem rfl rfl hencode
      obtain ⟨htable, hcolumn⟩ := RuleSite.of_parent hparent
      have hkind : (s.client.schema.kinds parent.table).get? parent.column = some (.set .uuid) := by
        rw [hcolumn]
        exact (kinds_of_links hserves htable).1
      rw [hparent]
      refine both_of_gainsUnder hs hserves hcommitted ruleModel_mem hrow (Row.isEmpty_eq_false (AccessRule.get?_of_encode hrow).1)
        (Tables.row?_of_not_live hfresh _) (RuleSite.table_ne_of_parent hparent) hgains hkind ?_ (NameSupply.of_checkChild hcheck).1 ?_
      · intro old hold
        exact hcolumn ▸ (hlinks _ _ old hold).1
      · intro r htype htable hfields hothers
        exact rule.eq_toRecord_of_settled htype htable hfields hothers
  · intro switch p
    have hinserted := inserted_addSwitchPort supply tags s switch p
    generalize s.addSwitchPort (Server.services supply tags) switch p = answer at hinserted ⊢
    cases hinserted with
    | refused hrefused => exact neither_of_refused hrefused hs
    | inserted hcommitted hchange _ =>
      obtain ⟨row, holder, hencode, hcheck, hgains⟩ := hchange
      have hrow := hserves.encode switchPortModel_mem rfl rfl hencode
      have hname := name_of_encode switchPortModel_mem (f := .mandatory "name" .string) (by decide) rfl rfl hrow
      have hkind : (s.client.schema.kinds switchModel.table).get? switchPortColumn = some (.set .uuid) :=
        (kinds_of_links hserves (Or.inl rfl)).2
      refine both_of_gainsUnder hs hserves hcommitted switchPortModel_mem hrow (Row.isEmpty_eq_false hname)
        (Tables.row?_of_not_live hfresh _) (switchPortTable_ne switch) hgains hkind ?_ (NameSupply.of_checkChild hcheck).1 ?_
      · intro old hold
        exact (hlinks _ _ old hold).2
      · intro r htype htable hfields hothers
        exact p.eq_toRecord_of_settled htype htable hfields hothers

/-! ## A session with one switch -/

namespace Session

/-- A new client has taken in that there is a switch. -/
def withSwitch (supply : RowIdSupply) (c : Client) (name : String) : Session Server :=
  takeFeed ⟨c, (Server.empty.insertRow supply switchModel.table (named name)).2, 0⟩

/-- A row of a name has the name and no other column. -/
theorem get?_named (name column : String) (v : Value) (h : (named name).get? column = some v) : v = .string name := by
  have hmem := SortedMap.mem_entries_iff.mpr h
  rw [named, SortedMap.singleton, List.mem_singleton] at hmem
  exact (Prod.mk.inj hmem).2

/-- On a server that had no rows, the row that was inserted is the only one. -/
theorem eq_named_of_row? {supply : RowIdSupply} {name table : String} {id : RowId} {row : Row}
    (h : (Server.empty.insertRow supply switchModel.table (named name)).2.tables.row? table id = some row) : row = named name := by
  have hrow : (Tables.rows (SortedMap.insert ∅ switchModel.table (SortedMap.insert ∅ (supply 0) (named name))) table).get? id =
      some row := h
  rw [Tables.rows_insert] at hrow
  split at hrow
  · rw [SortedMap.get?_insert] at hrow
    split at hrow
    · exact (Option.some.inj hrow).symm
    · cases hrow
  · cases hrow

variable {supply : RowIdSupply} {c : Client} {config : Config} {listeners : List (String × Listener)}

/-- Inserting a switch into an empty server is a commit. -/
theorem committed_withSwitch (supply : RowIdSupply) (c : Client) (name : String) :
    Committed ⟨c, .empty, 0⟩ ⟨c, (Server.empty.insertRow supply switchModel.table (named name)).2, 0⟩
      (Server.empty.insertRow supply switchModel.table (named name)).2.tables where
  client := rfl
  tables := rfl
  feed := rfl
  sound := by
    rintro table id target ⟨row, hrow, ⟨column, v, hv, hnames⟩, -⟩
    rw [eq_named_of_row? hrow] at hv
    rw [get?_named name column v hv] at hnames
    rcases hnames with hnames | ⟨items, hnames, -⟩ <;> cases hnames

/-- A session with a new client and an empty server is converged. -/
theorem converged_new (h : Client.build config models listeners = .ok c) : Converged ⟨c, .empty, 0⟩ :=
  ⟨rfl, Client.mirrors_of_build h⟩

/-- The tables of a session with one switch hold links where links belong. -/
theorem holdLinks_withSwitch (name : String) : (withSwitch supply c name).state.tables.HoldLinks := by
  intro table id row hrow
  have hnamed : row = named name := eq_named_of_row? hrow
  have hlinks : ∀ column, column ≠ "name" → (named name).HoldsLinks column := by
    intro column hcolumn
    have hnone : (named name).get? column = none := by
      cases hget : (named name).get? column with
      | none => rfl
      | some v =>
        have hmem := SortedMap.mem_entries_iff.mpr hget
        rw [named, SortedMap.singleton, List.mem_singleton] at hmem
        exact absurd (Prod.mk.inj hmem).1 hcolumn
    rw [Row.HoldsLinks, hnone]
    trivial
  rw [hnamed]
  exact ⟨hlinks ruleColumn (by decide), hlinks switchPortColumn (by decide)⟩

/-- A rule that drops whatever comes in. -/
def dropIncoming : AccessRule where
  direction := "to-lport"
  priority := 10
  packets := "ip4"
  action := "drop"

/-- The client of a session with one switch serves its models. -/
theorem serves_withSwitch (h : Client.build config models listeners = .ok c) (name : String) :
    (withSwitch supply c name).client.replica.Serves models :=
  (committed_withSwitch supply c name).serves_takeFeed rfl (Client.serves_of_build h)

/-- A session with one switch is converged once the client has heard of it. -/
theorem converged_withSwitch (h : Client.build config models listeners = .ok c) (name : String) :
    (withSwitch supply c name).Converged :=
  (committed_withSwitch supply c name).converged_takeFeed (converged_new h)

/-- The first rule of a switch is added. -/
theorem exists_addRule_dropIncoming :
    ∃ c s', Client.build (.ofDatabase "net") models [] = .ok c ∧
      (withSwitch (Draws.rowIds 0) c "sw0").addRule (Server.services (Draws.rowIds 0) (fun _ => 0)) (.switch "sw0") dropIncoming =
        (.ok (Draws.rowIds 0 1), s') ∧
      (withSwitch (Draws.rowIds 0) c "sw0").state.tables.live (Draws.rowIds 0 1) = false := by
  have hrun : (Client.build (.ofDatabase "net") models []).map (fun c =>
      (((withSwitch (Draws.rowIds 0) c "sw0").addRule (Server.services (Draws.rowIds 0) (fun _ => 0)) (.switch "sw0") dropIncoming).1,
        (withSwitch (Draws.rowIds 0) c "sw0").state.tables.live (Draws.rowIds 0 1))) = .ok (.ok (Draws.rowIds 0 1), false) := by
    decide +kernel
  obtain ⟨c, hbuilt, hfacts⟩ := map_eq_ok_iff.mp hrun
  obtain ⟨hanswer, hfresh⟩ := Prod.mk.inj hfacts
  exact ⟨c, _, hbuilt, Prod.ext hanswer rfl, hfresh⟩

/-- The first rule of a switch is made together with its link. -/
theorem both_dropIncoming :
    ∃ c id s', Client.build (.ofDatabase "net") models [] = .ok c ∧
      (withSwitch (Draws.rowIds 0) c "sw0").addRule (Server.services (Draws.rowIds 0) (fun _ => 0)) (.switch "sw0") dropIncoming =
        (.ok id, s') ∧
      (withSwitch (Draws.rowIds 0) c "sw0").BothOrNeither ruleModel (fun id => { dropIncoming with id := id.text }.toRecord)
        (RuleSite.parent (withSwitch (Draws.rowIds 0) c "sw0").client.cache (.switch "sw0")) (.ok id, s') := by
  obtain ⟨c, s', hbuilt, hcall, hfresh⟩ := exists_addRule_dropIncoming
  have hboth := (both_or_neither (Draws.rowIds 0) (fun _ => 0) (withSwitch (Draws.rowIds 0) c "sw0") (serves_withSwitch hbuilt "sw0")
    (converged_withSwitch hbuilt "sw0") (holdLinks_withSwitch "sw0") hfresh).1 (.switch "sw0") dropIncoming
  exact ⟨c, Draws.rowIds 0 1, s', hbuilt, hcall, hcall ▸ hboth⟩

end Session

end TableReplica
