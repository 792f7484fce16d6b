import TableReplica.Proofs.LinkedInsertion
import TableReplica.Proofs.Relinking
import TableReplica.Proofs.SteadySearches

/-!
# Removal undoes insertion

A rule that has been added at a site is found there again, and by its key alone: the site is resolved to the same row as before, and no
other rule of that row has the key (`VirtualNetwork.deleteRule_of_linkedUnder`). Nothing dangles without it, so its removal is carried
out, and leaves everything as it was, but for the links of the parent, which are now a set (`Session.removeRule_restores`).
-/

namespace TableReplica

open VirtualNetwork

/-- A session reads as another did, but for the links of one row. What is said of the cache holds up to the signs of zeros, and exactly so
if the cache was an exact copy or the row agrees with itself. -/
structure Session.Restored (s s' : Session Server) (parent : Parent) (holder : RowId) : Prop where
  server : Relinked (fun v => v) s.state.tables.row? s'.state.tables.row? parent holder
  cached : Relinked .positiveZeros s.client.cache.row? s'.client.cache.row? parent holder
  copied : s.client.replica.Copies s.state.tables → Relinked (fun v => v) s.client.cache.row? s'.client.cache.row? parent holder
  still : ∀ table id, ¬(parent.table = table ∧ holder = id) →
    (∀ row, s.state.tables.row? table id = some row → row.agrees row = true) → s'.client.cache.row? table id = s.client.cache.row? table id
  subscribed : ∀ table, s'.client.cache.knows table = s.client.cache.knows table

/-! ## Searches after an insertion -/

namespace Cache

variable {c c' : Cache} {table : String} {id : RowId} {parent : Parent} {holder : RowId} {links : List RowId} {wanted : Row}

/-- A new row under a parent does not disturb a search in another table, unless the links of the parent are wanted. -/
theorem idsMeeting_of_linkedUnder (h : LinkedUnder .positiveZeros c.row? c'.row? table id parent holder links) {table' : String}
    (hk : c'.knows table' = c.knows table') (hne : table ≠ table') (hwanted : wanted.get? parent.column = none) :
    c'.idsMeeting table' wanted = c.idsMeeting table' wanted := by
  apply idsMeeting_congr hk
  intro id'
  by_cases hparent : parent.table = table' ∧ holder = id'
  · obtain ⟨rfl, rfl⟩ := hparent
    obtain ⟨old, new, hold, hnew, -, -, hcolumns⟩ := h.linked
    rw [hold, hnew, Option.map_some, Option.map_some]
    congr 1
    apply Row.meets_congr
    intro column v hv
    refine hcolumns column ?_
    rintro rfl
    rw [hwanted] at hv
    cases hv
  · have hseen := h.others table' id' (fun heq => hne heq.1) hparent
    cases hrow : c.row? table' id' with
    | none =>
      rw [hrow] at hseen
      rw [Option.map_eq_none_iff.mp hseen]
    | some row =>
      rw [hrow] at hseen
      obtain ⟨row', hrow', heq⟩ := Option.map_eq_some_iff.mp hseen
      rw [hrow', Option.map_some, Option.map_some, Row.meets_of_positiveZeros_eq heq]

/-- A new row under a parent is the only one there with its key, if there was none. -/
theorem childrenMeeting_of_linkedUnder (h : LinkedUnder .positiveZeros c.row? c'.row? table id parent holder links)
    (hne : table ≠ parent.table) (hwanted : wanted.isEmpty = false) (hnone : c.childrenMeeting parent holder table wanted = .ok [])
    {row : Row} (hrow : c'.row? table id = some row) (hmeets : row.meets id wanted = true) :
    c'.childrenMeeting parent holder table wanted = .ok [id] := by
  obtain ⟨old, new, hold, hnew, hlinks, hcolumn, -⟩ := h.linked
  obtain ⟨found, hfound⟩ := exists_idsMeeting (knows_of_row?_eq_some hrow) hwanted
  have hsearch : c'.childrenMeeting parent holder table wanted =
      .ok (found.filter (fun id' => decide (id' ∈ new.links parent.column))) := by
    rw [childrenMeeting, row_eq_ok_iff.mpr hnew, hfound]
    rfl
  have hmem : ∀ id', id' ∈ found.filter (fun id' => decide (id' ∈ new.links parent.column)) ↔ id' = id := by
    intro id'
    rw [List.mem_filter, mem_of_idsMeeting hfound, decide_eq_true_eq, Row.mem_links_of_eq_ofRowIds hcolumn, List.mem_append,
      List.mem_singleton, ← hlinks]
    constructor
    · rintro ⟨⟨row', hrow', hmeets'⟩, hlink | hid⟩
      · by_cases hid : id' = id
        · exact hid
        · have hseen := h.others table id' (fun heq => hid heq.2.symm) (fun heq => hne heq.1.symm)
          rw [hrow'] at hseen
          obtain ⟨row'', hrow'', heq⟩ := Option.map_eq_some_iff.mp hseen.symm
          have hfree := of_childrenMeeting_eq_nil hnone hold hrow'' hlink
          rw [Row.meets_of_positiveZeros_eq heq, hmeets'] at hfree
          cases hfree
      · exact hid
    · rintro rfl
      exact ⟨⟨row, hrow, hmeets⟩, Or.inr rfl⟩
  have hnodup := (nodup_of_idsMeeting hfound).filter (fun id' => decide (id' ∈ new.links parent.column))
  rw [hsearch]
  congr 1
  exact List.perm_singleton.mp ((List.perm_ext_iff_of_nodup hnodup (List.nodup_singleton id)).mpr (by simpa using hmem))

end Cache

/-! ## The transaction of a removal -/

/-- Taking a child from its parent and deleting it is a transaction. -/
theorem Transaction.exists_compose_detach_delete {parent : Parent} (hparent : parent.table.isEmpty = false) (holder child : RowId)
    {table : String} (htable : table.isEmpty = false) :
    ∃ txn, compose [.detach parent holder child, .delete table [.isRow (.resolved child)]] = .ok txn := by
  have hfault : fault? [.detach parent holder child, .delete table [.isRow (.resolved child)]] = none := by
    simp [fault?, scopeFault?, operationFault?, Operation.detach, Operation.table, Operation.uses, Operation.filter, Operation.defined?,
      Condition.isRow, Operand.placeholder?, htable, hparent]
  exact ⟨_, compose_of_fault?_eq_none hfault⟩

/-- A child is told apart among the rows of a parent that can be found without it. -/
theorem Cache.onlyLink_of_parentId {cache : Cache} {table : String} {key : Row} {parent : Parent} {holder : RowId}
    (hfound : cache.parentId parent none = .ok holder) :
    cache.onlyLink table key parent =
      ((cache.childrenMeeting parent holder table key).bind (onlyHit table key)).map (·, holder) := by
  have hother : cache.onlyLink table key parent = (do
      let holder ← cache.parentId parent none
      let hits ← cache.childrenMeeting parent holder table key
      let child ← onlyHit table key hits
      return (child, holder)) := by
    rw [onlyLink]
    cases hselector : parent.selector with
    | holder =>
      rw [parentId, hselector] at hfound
      cases hfound
    | _ => rfl
  rw [hother, hfound]
  show (cache.childrenMeeting parent holder table key >>= _) = _
  cases cache.childrenMeeting parent holder table key with
  | error e => rfl
  | ok hits =>
    show (onlyHit table key hits >>= _) = (onlyHit table key hits).map _
    cases onlyHit table key hits <;> rfl

/-- The only child with a key is taken from its parent and deleted. -/
theorem Cache.removeChild_eq {cache : Cache} {table : String} {key : Row} {parent : Parent} {holder child : RowId}
    (hfound : cache.parentId parent none = .ok holder) (honly : cache.childrenMeeting parent holder table key = .ok [child]) :
    cache.removeChild table key parent =
      Transaction.compose [.detach parent holder child, .delete table [.isRow (.resolved child)]] := by
  rw [removeChild, onlyLink_of_parentId hfound, honly]
  rfl

namespace VirtualNetwork

/-- A search for a rule wants the three columns of its key. -/
theorem get?_ruleLike (direction : String) (priority : Int64) (packets column : String) :
    (ruleLike direction priority packets).get? column =
      if column = "direction" then some (.string direction)
      else if column = "priority" then some (.integer priority)
      else if column = "match" then some (.string packets)
      else none := by
  simp only [ruleLike, SortedMap.ofList, SortedMap.insertAll, List.foldl_cons, List.foldl_nil, SortedMap.get?_insert,
    SortedMap.get?_empty, eq_comm (b := column)]
  by_cases hdirection : column = "direction"
  · subst hdirection
    rfl
  by_cases hpriority : column = "priority"
  · subst hpriority
    rfl
  · rw [if_neg hpriority, if_neg hdirection, if_neg hdirection, if_neg hpriority]

/-- The key of a rule is what it is looked for by. -/
theorem ruleLike_of_extract {rule : AccessRule} {row wanted : Row} (hrow : ruleModel.encode rule.toRecord = .ok row)
    (hwanted : ruleKey.extract row = .ok wanted) : wanted = ruleLike rule.direction rule.priority rule.packets := by
  obtain ⟨hdirection, hpriority, hpackets⟩ := AccessRule.get?_of_encode hrow
  apply SortedMap.ext_get?
  intro column
  rw [RowKey.of_extract hwanted, get?_ruleLike]
  by_cases hcolumn : column = "direction"
  · subst hcolumn
    simpa [ruleKey, RowKey.inParent] using hdirection
  by_cases hcolumn' : column = "priority"
  · subst hcolumn'
    simpa [ruleKey, RowKey.inParent] using hpriority
  by_cases hcolumn'' : column = "match"
  · subst hcolumn''
    simpa [ruleKey, RowKey.inParent] using hpackets
  · simp [ruleKey, RowKey.inParent, hcolumn, hcolumn', hcolumn'']

/-- The row of a rule has the key of the rule. -/
theorem meets_ruleLike_of_encode {rule : AccessRule} {row : Row} (hrow : ruleModel.encode rule.toRecord = .ok row) (id : RowId) :
    row.meets id (ruleLike rule.direction rule.priority rule.packets) = true := by
  obtain ⟨hdirection, hpriority, hpackets⟩ := AccessRule.get?_of_encode hrow
  apply Row.meets_of_get?_eq
  intro column v hv
  rw [get?_ruleLike] at hv
  split at hv
  · rename_i hcolumn
    subst hcolumn
    cases hv
    exact ⟨by decide, hdirection, (Value.definite_string _ _).mpr rfl⟩
  split at hv
  · rename_i hcolumn
    subst hcolumn
    cases hv
    exact ⟨by decide, hpriority, (Value.definite_integer _ _).mpr rfl⟩
  split at hv
  · rename_i hcolumn
    subst hcolumn
    cases hv
    exact ⟨by decide, hpackets, (Value.definite_string _ _).mpr rfl⟩
  · cases hv

/-- The rule that has been added at a site is the one that is removed there. -/
theorem deleteRule_of_linkedUnder {c c' : Cache} {site : RuleSite} {parent : Parent} {holder id : RowId} {links : List RowId}
    {rule : AccessRule} {row : Row} (h : LinkedUnder .positiveZeros c.row? c'.row? ruleModel.table id parent holder links)
    (hknows : ∀ table, c'.knows table = c.knows table) (hparent : site.parent c = .ok parent)
    (hrow : ruleModel.encode rule.toRecord = .ok row)
    (hcheck : NameSupply.checkChild c ruleModel.table row ruleKey parent = .ok holder)
    (hcached : c'.row? ruleModel.table id = some row) :
    deleteRule c' site rule.direction rule.priority rule.packets =
      Transaction.compose [.detach parent holder id, .delete ruleModel.table [.isRow (.resolved id)]] := by
  obtain ⟨hfound, wanted, hwanted, hnone⟩ := NameSupply.of_checkChild hcheck
  rw [ruleLike_of_extract hrow hwanted] at hnone
  have hnames : ∀ table name, table = switchModel.table ∨ table = groupModel.table →
      c'.idsMeeting table (named name) = c.idsMeeting table (named name) := by
    intro table name htable
    apply Cache.idsMeeting_of_linkedUnder h (hknows table)
    · rcases htable with rfl | rfl <;> decide
    · rw [(RuleSite.of_parent hparent).2]
      rfl
  have hparent' : site.parent c' = .ok parent := (RuleSite.parent_congr hnames site).trans hparent
  have hfound' : c'.parentId parent none = .ok holder := by
    obtain ⟨-, new, -, hnew, -⟩ := h.linked
    exact RuleSite.parentId_congr hnames hparent hfound (by rw [hnew]; rfl)
  have hnonempty : (ruleLike rule.direction rule.priority rule.packets).isEmpty = false :=
    Row.isEmpty_eq_false ((get?_ruleLike _ _ _ "direction").trans (if_pos rfl))
  have honly := Cache.childrenMeeting_of_linkedUnder h (RuleSite.table_ne_of_parent hparent) hnonempty hnone hcached
    (meets_ruleLike_of_encode hrow id)
  rw [deleteRule, hparent']
  exact Cache.removeChild_eq hfound' honly

end VirtualNetwork

namespace Session

variable (supply : RowIdSupply) (tags : Nat → UInt32)

/-- A server that has carried out an insertion is not armed. -/
theorem armed_submitInsertion {s : Session Server} {composed : Except Error Insertion} {id : RowId}
    (h : (s.submitInsertion (Server.services supply tags) composed).1 = .ok id) :
    (s.submitInsertion (Server.services supply tags) composed).2.state.armed = none := by
  unfold submitInsertion at h ⊢
  cases composed with
  | error e => cases h
  | ok ins =>
    rcases submit_cases supply tags s ins.transaction with ⟨-, e, -, herror, -⟩ | ⟨effects, -, -, -, -, harmed⟩
    · simp only [herror] at h
      cases h
    · exact harmed

/-- What is not refused is carried out. -/
theorem submitComposed_of_not_refuses (s : Session Server) {txn : Transaction} (h : ∀ refusal, ¬s.state.Refuses supply txn refusal) :
    ∃ s', s.submitComposed (Server.services supply tags) (.ok txn) = (.ok (), s') ∧
      Committed s s' (s.state.worked supply txn).tables := by
  rcases submit_cases supply tags s txn with ⟨refusal, -, hrefuses, -⟩ | ⟨effects, -, hreply, hcommitted, -⟩
  · exact (h refusal hrefuses).elim
  · refine ⟨_, Prod.ext ?_ rfl, hcommitted⟩
    simp only [submitComposed, hreply]
    rfl

/-- After a rule has been added no failure is armed. -/
theorem armed_addRule {s s' : Session Server} {site : RuleSite} {rule : AccessRule} {id : RowId}
    (h : s.addRule (Server.services supply tags) site rule = (.ok id, s')) : s'.state.armed = none := by
  unfold addRule at h
  split at h
  · cases h
  · have hlast : _ = s' := congrArg Prod.snd h
    rw [← hlast]
    exact armed_submitInsertion supply tags (congrArg Prod.fst h)

variable {supply tags} {s s₁ s₂ : Session Server} {now now' : Tables} {table : String} {id : RowId} {row : Row} {parent : Parent}
  {holder : RowId}

/-- A removal is not refused when it takes away what was added under an identifier that was not in use. -/
theorem not_refuses_removal (harmed : s.state.armed = none) (hsound : ∀ table id target, ¬s.state.tables.Dangles table id target)
    (hlinks : ∀ old, s.state.tables.row? parent.table holder = some old → old.HoldsLinks parent.column) {txn : Transaction}
    (hops : txn.operations = [.detach parent holder id, .delete table [.isRow (.resolved id)]]) {before : Tables}
    (hrelinks : before.Relinks (s.state.worked supply txn).tables parent holder) (hunused : before.Unused id) (refusal : Refusal) :
    ¬s.state.Refuses supply txn refusal := by
  rintro (harmed' | ⟨-, hfirst⟩ | ⟨-, -, hdangles⟩)
  · rw [harmed] at harmed'
    cases harmed'
  · refine Server.not_keeps_of_firstIdentifierChange hfirst ?_
    rw [hops]
    simp [Operation.detach, Operation.changesIdentifier]
  · exact (Server.loses_worked_detach_delete hops).not_dangles hsound hlinks hrelinks hunused _ _ _ hdangles

/-- After a row has come under a parent and has gone again, everything is restored but for the links of the parent. -/
theorem restored_of_committed (hs : s.Converged) (hcommitted : Committed s s₁ now) (hcommitted' : Committed s₁.takeFeed s₂ now')
    (hgains : s.state.tables.GainsUnder now table id row parent holder) (hloses : now.LosesUnder now' table id parent holder)
    (hne : table ≠ parent.table) (hunused : s.state.tables.Unused id)
    (hlinks : ∀ old, s.state.tables.row? parent.table holder = some old → old.HoldsLinks parent.column)
    (hkind : (s.client.replica.schema.kinds parent.table).get? parent.column = some (.set .uuid)) {shown : Row}
    (hshown : s.client.replica.cache.row? parent.table holder = some shown) : s.Restored s₂.takeFeed parent holder := by
  have hs₁ := hcommitted.converged_takeFeed hs
  have hs₂ := hcommitted'.converged_takeFeed hs₁
  have hmid : s₁.takeFeed.state.tables = now := hcommitted.tables
  have hend : s₂.takeFeed.state.tables = now' := hcommitted'.tables
  have hrelinks := hgains.relinks hloses hne hunused hlinks
  have hbefore := Tables.row?_of_not_live hunused.absent table
  have hschema : s₂.takeFeed.client.replica.schema = s.client.replica.schema :=
    (hcommitted'.schema_takeFeed hs₁.drained).trans (hcommitted.schema_takeFeed hs.drained)
  have hknows : ∀ table', s₂.takeFeed.client.replica.cache.knows table' = s.client.replica.cache.knows table' := fun table' =>
    (hcommitted'.knows_takeFeed hs₁.drained table').trans (hcommitted.knows_takeFeed hs.drained table')
  have hmirrors := hs₂.mirrors
  rw [hend] at hmirrors
  obtain ⟨old, hold, -⟩ := hs.mirrors.shows_of_cached hshown
  have hcache : ∀ view, s.client.replica.Sees view s.state.tables → s₂.takeFeed.client.replica.Sees view now' →
      Relinked view s.client.cache.row? s₂.takeFeed.client.cache.row? parent holder := fun view hsees hsees' =>
    hrelinks.relinked_cache hs.mirrors hmirrors hsees hsees' hschema hknows hshown hlinks hkind
  refine ⟨hend ▸ hrelinks.relinked hold, hcache .positiveZeros hs.mirrors.sees hmirrors.sees, ?_, ?_, hknows⟩
  · intro hcopies
    have hcopies₁ := hcommitted.copies_takeFeed hs.drained hcopies (fun _ _ => hgains.eq_of_told_eq_none hne hbefore hlinks)
    have hlinks₁ := hgains.holdsLinks hne hlinks
    have hcopies₂ := hcommitted'.copies_takeFeed hs₁.drained (hmid ▸ hcopies₁)
      (fun _ _ htold => hmid ▸ hloses.eq_of_told_eq_none hlinks₁ (hmid ▸ htold))
    exact hcache (fun v => v) (hcopies.sees _) (hcopies₂.sees _)
  · intro table' id' hparent hagrees
    by_cases hnew : table = table' ∧ id = id'
    · obtain ⟨rfl, rfl⟩ := hnew
      have hgone : now'.row? table id = none := by rw [hloses, if_pos ⟨rfl, rfl⟩]
      exact (hmirrors.row?_eq_none hgone).trans (hs.mirrors.row?_eq_none hbefore).symm
    · have hsame := hgains.row?_other hnew hparent
      have hsame' : now'.row? table' id' = s₁.takeFeed.state.tables.row? table' id' := by
        rw [hmid, hloses, if_neg hnew, if_neg hparent]
      refine (hcommitted'.row?_takeFeed_of_agrees hs₁.drained hsame' ?_).trans
        (hcommitted.row?_takeFeed_of_agrees hs.drained hsame hagrees)
      rw [hmid, hsame]
      exact hagrees

end Session

namespace Session

variable {supply : RowIdSupply} {tags : Nat → UInt32} {s s₁ : Session Server} {site : RuleSite} {rule : AccessRule} {id : RowId}

/-- What a session that had converged finds after it has added a rule and taken in its feed. -/
structure RuleAdded (s s₁ : Session Server) (site : RuleSite) (rule : AccessRule) (id : RowId) (parent : Parent) (holder : RowId)
    (row : Row) (now : Tables) : Prop where
  committed : Committed s s₁ now
  armed : s₁.state.armed = none
  resolved : site.parent s.client.cache = .ok parent
  encoded : ruleModel.encode rule.toRecord = .ok row
  checked : NameSupply.checkChild s.client.cache ruleModel.table row ruleKey parent = .ok holder
  gains : s.state.tables.GainsUnder now ruleModel.table id row parent holder

/-- A rule that was added has the identifier drawn next, and its row and its link are all that is new. -/
theorem exists_ruleAdded (hserves : s.client.replica.Serves models)
    (h : s.addRule (Server.services supply tags) site rule = (.ok id, s₁)) :
    id = supply s.state.drawn ∧ ∃ parent holder row now, RuleAdded s s₁ site rule id parent holder row now := by
  have harmed := armed_addRule supply tags h
  have hinserted := inserted_addRule supply tags s site rule
  rw [h] at hinserted
  cases hinserted with
  | inserted hcommitted hchange _ =>
    obtain ⟨parent, row, holder, hparent, hencode, hcheck, hgains⟩ := hchange
    exact ⟨rfl, parent, holder, row, _, hcommitted, harmed, hparent, hserves.encode ruleModel_mem rfl rfl hencode, hcheck, hgains⟩

namespace RuleAdded

variable {parent : Parent} {holder : RowId} {row : Row} {now : Tables}

/-- The holder of the rule was found in the cache. -/
theorem found (h : RuleAdded s s₁ site rule id parent holder row now) : s.client.cache.parentId parent none = .ok holder :=
  (NameSupply.of_checkChild h.checked).1

theorem kind (h : RuleAdded s s₁ site rule id parent holder row now) (hserves : s.client.replica.Serves models) :
    (s.client.replica.schema.kinds parent.table).get? parent.column = some (.set .uuid) := by
  obtain ⟨htable, hcolumn⟩ := RuleSite.of_parent h.resolved
  rw [hcolumn]
  exact (kinds_of_links hserves htable).1

/-- The removal of the rule takes away what was added. -/
theorem deleteRule_eq (h : RuleAdded s s₁ site rule id parent holder row now) (hserves : s.client.replica.Serves models) (hs : s.Converged)
    (hlinks : ∀ old, s.state.tables.row? parent.table holder = some old → old.HoldsLinks parent.column)
    (hfresh : s.state.tables.live id = false) :
    ∃ txn, deleteRule s₁.takeFeed.client.cache site rule.direction rule.priority rule.packets = .ok txn ∧
      txn.operations = [.detach parent holder id, .delete ruleModel.table [.isRow (.resolved id)]] := by
  have hbefore := Tables.row?_of_not_live hfresh ruleModel.table
  have hcached := h.committed.row?_takeFeed_of_encode hs.drained hserves ruleModel_mem (regular_of_mem ruleModel_mem) h.encoded
    (Row.isEmpty_eq_false (AccessRule.get?_of_encode h.encoded).1) hbefore h.gains.row?_new
  obtain ⟨shown, hshown⟩ := Cache.row?_of_parentId h.found
  obtain ⟨old, hold, -⟩ := hs.mirrors.shows_of_cached hshown
  have hmirrors := (h.committed.converged_takeFeed hs).mirrors
  rw [tables_takeFeed, h.committed.tables] at hmirrors
  have hlinked := linkedUnder_cache hs.mirrors hmirrors hs.mirrors.sees hmirrors.sees (h.committed.schema_takeFeed hs.drained)
    (h.committed.knows_takeFeed hs.drained) h.gains (RuleSite.table_ne_of_parent h.resolved) hbefore hcached hshown hold (hlinks old hold)
    (h.kind hserves)
  have htable : parent.table.isEmpty = false := by
    rcases (RuleSite.of_parent h.resolved).1 with htable | htable <;> rw [htable] <;> decide
  have hrules : ruleModel.table.isEmpty = false := by decide
  obtain ⟨txn, htxn⟩ := Transaction.exists_compose_detach_delete htable holder id hrules
  refine ⟨txn, ?_, Transaction.compose_eq_ok_iff.mp htxn⟩
  exact (deleteRule_of_linkedUnder hlinked (h.committed.knows_takeFeed hs.drained) h.resolved h.encoded h.checked hcached).trans htxn

end RuleAdded

/-- A rule that has been added by a session that had converged is removed again by its direction, priority and packets, whenever the
identifier that it was given was not in use. When the feed has been taken in both times, everything is as it was before, but for the links
of the row from which the rule hung. -/
theorem removeRule_restores (supply : RowIdSupply) (tags : Nat → UInt32) {s s₁ : Session Server} {site : RuleSite} {rule : AccessRule}
    {id : RowId} (hserves : s.client.replica.Serves models) (hs : s.Converged)
    (hlinks : ∀ table id row, s.state.tables.row? table id = some row → row.HoldsLinks ruleColumn)
    (hunused : s.state.tables.Unused (supply s.state.drawn))
    (hadd : s.addRule (Server.services supply tags) site rule = (.ok id, s₁)) :
    ∃ parent holder s₂, site.parent s.client.cache = .ok parent ∧ s.client.cache.parentId parent none = .ok holder ∧
      s₁.takeFeed.removeRule (Server.services supply tags) site rule.direction rule.priority rule.packets = (.ok (), s₂) ∧
      s.Restored s₂.takeFeed parent holder := by
  obtain ⟨rfl, parent, holder, row, now, hadded⟩ := exists_ruleAdded hserves hadd
  have hne := RuleSite.table_ne_of_parent hadded.resolved
  have hlinked : ∀ old, s.state.tables.row? parent.table holder = some old → old.HoldsLinks parent.column := by
    intro old hold
    rw [(RuleSite.of_parent hadded.resolved).2]
    exact hlinks _ _ old hold
  obtain ⟨txn, hdelete, hops⟩ := hadded.deleteRule_eq hserves hs hlinked hunused.absent
  have htables : s₁.takeFeed.state.tables = now := hadded.committed.tables
  have hloses : now.LosesUnder (s₁.takeFeed.state.worked supply txn).tables ruleModel.table (supply s.state.drawn) parent holder :=
    htables ▸ Server.loses_worked_detach_delete hops
  have hrelinks := hadded.gains.relinks hloses hne hunused hlinked
  have hnot := not_refuses_removal (s := s₁.takeFeed) hadded.armed (htables ▸ hadded.committed.sound)
    (htables ▸ hadded.gains.holdsLinks hne hlinked) hops hrelinks hunused
  obtain ⟨s₂, hanswer, hcommitted⟩ := submitComposed_of_not_refuses supply tags (s₁.takeFeed.newNames (Server.services supply tags)).2 hnot
  obtain ⟨shown, hshown⟩ := Cache.row?_of_parentId hadded.found
  refine ⟨parent, holder, s₂, hadded.resolved, hadded.found, ?_, ?_⟩
  · rw [← hanswer, ← hdelete]
    rfl
  · exact restored_of_committed hs hadded.committed ⟨hcommitted.client, hcommitted.tables, hcommitted.feed, hcommitted.sound⟩
      hadded.gains hloses hne hunused hlinked (hadded.kind hserves) hshown

/-- In a session with one switch, an identifier without a row is not used. -/
theorem unused_withSwitch {supply : RowIdSupply} {c : Client} {name : String} {id : RowId}
    (hfresh : (withSwitch supply c name).state.tables.live id = false) : (withSwitch supply c name).state.tables.Unused id where
  absent := hfresh
  unnamed := by
    rintro table id' row hrow ⟨column, v, hv, hnames⟩
    have hnamed : row = named name := eq_named_of_row? hrow
    rw [hnamed] at hv
    rw [get?_named name column v hv] at hnames
    rcases hnames with hnames | ⟨items, hnames, -⟩ <;> cases hnames

/-- The first rule of a switch is added and removed again. -/
theorem restores_dropIncoming :
    ∃ c id s₁ parent holder s₂, Client.build (.ofDatabase "net") models [] = .ok c ∧
      (withSwitch (Draws.rowIds 0) c "sw0").addRule (Server.services (Draws.rowIds 0) (fun _ => 0)) (.switch "sw0") dropIncoming =
        (.ok id, s₁) ∧
      s₁.takeFeed.removeRule (Server.services (Draws.rowIds 0) (fun _ => 0)) (.switch "sw0") dropIncoming.direction
        dropIncoming.priority dropIncoming.packets = (.ok (), s₂) ∧
      (withSwitch (Draws.rowIds 0) c "sw0").Restored s₂.takeFeed parent holder := by
  obtain ⟨c, s₁, hbuilt, hcall, hfresh⟩ := exists_addRule_dropIncoming
  obtain ⟨parent, holder, s₂, -, -, hremoved, hrestored⟩ := removeRule_restores (Draws.rowIds 0) (fun _ => 0)
    (serves_withSwitch hbuilt "sw0") (converged_withSwitch hbuilt "sw0")
    (fun table id row hrow => (holdLinks_withSwitch "sw0" table id row hrow).1) (unused_withSwitch hfresh) hcall
  exact ⟨c, Draws.rowIds 0 1, s₁, parent, holder, s₂, hbuilt, hcall, hremoved, hrestored⟩

end Session

end TableReplica
