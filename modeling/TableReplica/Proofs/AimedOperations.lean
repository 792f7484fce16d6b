import TableReplica.Proofs.FilledOperations
import TableReplica.Proofs.Lookups
import TableReplica.Proofs.ReadableEntries

/-!
# Operations aimed at rows

An operation is aimed at a row when its filter is that the row is the one of a given identifier. Operations that are aimed at rows which are
there meet one row each, and leave all rows alone at which none is aimed (`Workspace.TouchesOnly`), as long as none is aimed at a row
that an operation before it deletes. A row becomes what the operations that are aimed at it make of it (`Workspace.row?_run`).
All that is composed from an intent is aimed at the rows that were looked up for it (`Intent.aimed_of_compose`), also where two of its
operations are aimed at the same row.
-/

namespace TableReplica

/-- The operation takes rows away. -/
def Operation.removes : Operation → Bool
  | .delete _ _ => true
  | _ => false

/-- What the operation makes of a row that it meets, where the placeholders stand for the given identifiers: an update gives it new columns,
a deletion takes it away, and a mutation changes one set. -/
def Operation.makes (names : Assignment) : Operation → Row → Option Row
  | .update _ changes _, row => some (row.insertAll changes.entries)
  | .delete _ _, _ => none
  | .mutate _ column mutator operand _, row =>
    match operand.resolve names with
    | .ok value => some (row.mutate column mutator value)
    | .error _ => some row
  | _, row => some row

/-- What becomes of a row when operations are carried out: those that are aimed at it make something of it, one after the other. -/
def Operation.makesOf (names : Assignment) (table : String) (id : RowId) (ops : List Operation) (row : Option Row) : Option Row :=
  ops.foldl (fun row op => if op.table = table ∧ op.filter = [.isRow (.resolved id)] then row.bind (op.makes names) else row) row

/-- Each operation that changes rows is aimed at one of the given rows, and at none that an operation before it takes away. -/
structure Operation.Aimed (rows : List (String × RowId)) (ops : List Operation) : Prop where
  aimed : ∀ op ∈ ops, op.changesMatches = true → ∃ id, (op.table, id) ∈ rows ∧ op.filter = [.isRow (.resolved id)]
  apart : ops.Pairwise (fun op later => op.removes = true → later.table = op.table → later.filter ≠ op.filter)

/-- A run in which every operation that changes rows met one, and all rows but the given ones are as they were or have been inserted. -/
structure Workspace.TouchesOnly (rows : List (String × RowId)) (ops : List Operation) (effects : List Effect) (w last : Workspace) :
    Prop where
  counts : ∀ (i : Nat) (op : Operation), ops[i]? = some op → op.changesMatches = true → effects[i]? = some (.met 1)
  others : ∀ table id, (table, id) ∉ rows → last.tables.row? table id = w.tables.row? table id ∨
    ∃ (i : Nat) (row : Row) (name : Option Placeholder), ops[i]? = some (.insert table row name) ∧ effects[i]? = some (.inserted id)

/-! ## One operation -/

/-- A row that is there is one row. -/
theorem RowMap.size_only {rows : RowMap} {id : RowId} {row : Row} (h : rows.get? id = some row) : (rows.only id).size = 1 := by
  have hget : (rows.only id).get? id = some row := by
    rw [get?_only, if_pos rfl, h]
  have hnone : (rows.only id).erase id = ∅ := by
    apply SortedMap.ext_get?
    intro id'
    rw [SortedMap.get?_erase, get?_only]
    by_cases hid : id' = id <;> simp [hid] <;> rfl
  rw [SortedMap.size_of_get? hget, hnone]
  rfl

namespace Operation

/-- Only a deletion takes a row away. -/
theorem exists_makes (op : Operation) (names : Assignment) (h : op.removes = false) (row : Row) :
    ∃ row', op.makes names row = some row' := by
  cases op with
  | delete table filter => cases h
  | mutate table column mutator operand filter =>
    rw [makes]
    split
    · exact ⟨_, rfl⟩
    · exact ⟨_, rfl⟩
  | _ => exact ⟨_, rfl⟩

/-- An operation makes the same of a row when the placeholders that it reads stand for the same. -/
theorem makes_congr {op : Operation} {names names' : Assignment} (h : ∀ p ∈ op.uses, names'.get? p = names.get? p) :
    op.makes names' = op.makes names := by
  cases op with
  | mutate table column mutator operand filter =>
    have hoperand : ∀ p, operand.placeholder? = some p → ((∅ : Assignment).get? p).or (names'.get? p) = names.get? p :=
      fun p hp => h p (List.mem_append_right _ (Option.mem_toList.mpr hp))
    have hresolve := Operand.resolve_fill hoperand
    rw [Operand.fill_empty] at hresolve
    funext row
    rw [makes, makes, hresolve]
  | _ => rfl

end Operation

namespace Workspace

variable {supply : RowIdSupply} {w next : Workspace} {op : Operation} {effect : Effect}

/-- An operation aimed at a row meets that row alone, and makes of it what it makes. -/
theorem revise_of_aimed {id : RowId} (hop : op.changesMatches = true) (hfilter : op.filter = [.isRow (.resolved id)])
    (h : w.apply supply op = .ok (effect, next)) :
    effect = .ofHits ((w.tables.rows op.table).only id) ∧
      next = w.revise op.table ((w.tables.rows op.table).only id) (op.makes w.names) := by
  cases op with
  | insert table row name => cases hop
  | update table changes filter =>
    rw [show filter = [.isRow (.resolved id)] from hfilter] at h
    simp only [apply] at h
    split at h
    · cases h
    · obtain ⟨hits, hhits, h⟩ := bind_eq_ok_iff.mp h
      rw [RowMap.matching_isRow] at hhits
      cases hhits
      cases h
      exact ⟨rfl, rfl⟩
  | delete table filter =>
    rw [show filter = [.isRow (.resolved id)] from hfilter, apply_delete_isRow] at h
    cases h
    exact ⟨rfl, rfl⟩
  | mutate table column mutator operand filter =>
    rw [show filter = [.isRow (.resolved id)] from hfilter] at h
    obtain ⟨value, hvalue, -⟩ := bind_eq_ok_iff.mp h
    rw [apply_mutate_isRow supply w table column mutator hvalue] at h
    cases h
    refine ⟨rfl, ?_⟩
    have hmakes : (Operation.mutate table column mutator operand filter).makes w.names =
        fun row => some (row.mutate column mutator value) := by
      funext row
      rw [Operation.makes, hvalue]
    rw [hmakes]
    rfl
  | select table filter => cases hop

/-- What an operation does that is aimed at a row which is there, or changes no rows. -/
theorem touchesOnly_apply {rows : List (String × RowId)}
    (haimed : op.changesMatches = true → ∃ id, (op.table, id) ∈ rows ∧ op.filter = [.isRow (.resolved id)] ∧
      ∃ row, w.tables.row? op.table id = some row)
    (h : w.apply supply op = .ok (effect, next)) : TouchesOnly rows [op] [effect] w next := by
  cases hop : op.changesMatches with
  | true =>
    obtain ⟨id, hid, hfilter, row, hrow⟩ := haimed hop
    obtain ⟨rfl, rfl⟩ := revise_of_aimed hop hfilter h
    refine ⟨?_, ?_⟩
    · intro i op' hop' _
      cases i with
      | zero => rw [Effect.ofHits, RowMap.size_only hrow]; rfl
      | succ i => cases hop'
    · intro table' id' hother
      refine Or.inl ?_
      rw [row?_revise_only, if_neg]
      rintro ⟨rfl, rfl⟩
      exact hother hid
  | false =>
    have hcounts : ∀ (i : Nat) (op' : Operation), [op][i]? = some op' → op'.changesMatches = true → [effect][i]? = some (.met 1) := by
      intro i op' hop' hchanges
      have hsame : op' = op := List.mem_singleton.mp (List.mem_of_getElem? hop')
      rw [hsame, hop] at hchanges
      cases hchanges
    cases op with
    | insert table row name =>
      cases h
      refine ⟨hcounts, ?_⟩
      intro table' id' _
      rw [row?_addRow]
      split
      · rename_i hnew
        obtain ⟨rfl, rfl⟩ := hnew
        exact Or.inr ⟨0, row, name, rfl, rfl⟩
      · exact Or.inl rfl
    | select table filter =>
      obtain ⟨hits, -, h⟩ := bind_eq_ok_iff.mp h
      cases h
      exact ⟨hcounts, fun _ _ _ => Or.inl rfl⟩
    | _ => cases hop

/-- Of a row that is not new an operation that is aimed at rows makes what it makes if it is aimed at that row, and nothing else. -/
theorem row?_apply (haimed : op.changesMatches = true → ∃ id, op.filter = [.isRow (.resolved id)])
    (h : w.apply supply op = .ok (effect, next)) (table : String) {id : RowId} (hnew : effect ≠ .inserted id) :
    next.tables.row? table id =
      if op.table = table ∧ op.filter = [.isRow (.resolved id)] then (w.tables.row? table id).bind (op.makes w.names)
      else w.tables.row? table id := by
  cases hop : op.changesMatches with
  | true =>
    obtain ⟨target, hfilter⟩ := haimed hop
    obtain ⟨-, rfl⟩ := revise_of_aimed hop hfilter h
    have htarget : op.filter = [.isRow (.resolved id)] ↔ target = id := by
      rw [hfilter]
      simp [Condition.isRow]
    rw [row?_revise_only]
    simp only [htarget]
  | false =>
    cases op with
    | insert table' row name =>
      cases h
      have hunaimed : (Operation.insert table' row name).filter ≠ [.isRow (.resolved id)] := (List.cons_ne_nil _ _).symm
      rw [row?_addRow, if_neg (fun heq => hnew (congrArg Effect.inserted heq.2)), if_neg (fun heq => hunaimed heq.2)]
    | select table' filter =>
      obtain ⟨hits, -, h⟩ := bind_eq_ok_iff.mp h
      cases h
      split
      · exact (Option.bind_fun_some _).symm
      · rfl
    | _ => cases hop

/-- A row is there after an operation that is aimed at rows, unless it is the one that the operation takes away. -/
theorem exists_row?_apply (haimed : op.changesMatches = true → ∃ id, op.filter = [.isRow (.resolved id)])
    (h : w.apply supply op = .ok (effect, next)) {table : String} {id : RowId} {row : Row} (hrow : w.tables.row? table id = some row)
    (hkeeps : op.removes = true → table = op.table → op.filter ≠ [.isRow (.resolved id)]) :
    ∃ row', next.tables.row? table id = some row' := by
  cases hop : op.changesMatches with
  | true =>
    obtain ⟨target, hfilter⟩ := haimed hop
    obtain ⟨-, rfl⟩ := revise_of_aimed hop hfilter h
    rw [row?_revise_only]
    split
    · rename_i htarget
      obtain ⟨rfl, rfl⟩ := htarget
      cases hremoves : op.removes with
      | true => exact absurd hfilter (hkeeps hremoves rfl)
      | false =>
        obtain ⟨row', hrow'⟩ := op.exists_makes w.names hremoves row
        exact ⟨row', by rw [hrow, Option.bind_some, hrow']⟩
    · exact ⟨row, hrow⟩
  | false =>
    cases op with
    | insert table' row' name =>
      cases h
      rw [row?_addRow]
      split
      · exact ⟨row', rfl⟩
      · exact ⟨row, hrow⟩
    | select table' filter =>
      obtain ⟨hits, -, h⟩ := bind_eq_ok_iff.mp h
      cases h
      exact ⟨row, hrow⟩
    | _ => cases hop

/-! ## Runs -/

/-- An operation that touches only its rows, before a run that does, makes a run that does. -/
theorem TouchesOnly.cons {rows : List (String × RowId)} {rest : List Operation} {effects : List Effect} {last : Workspace}
    (hfirst : TouchesOnly rows [op] [effect] w next) (hrest : TouchesOnly rows rest effects next last) :
    TouchesOnly rows (op :: rest) (effect :: effects) w last where
  counts := by
    intro i op' hop' hchanges
    cases i with
    | zero => exact hfirst.counts 0 op' hop' hchanges
    | succ i => exact hrest.counts i op' hop' hchanges
  others := by
    intro table id hother
    rcases hrest.others table id hother with hsame | ⟨i, row, name, hop', heffect⟩
    · rw [hsame]
      refine (hfirst.others table id hother).imp_right ?_
      rintro ⟨i, row, name, hop', heffect⟩
      cases i with
      | zero => exact ⟨0, row, name, hop', heffect⟩
      | succ i => cases hop'
    · exact Or.inr ⟨i + 1, row, name, hop', heffect⟩

/-- A run of aimed operations whose rows are there when it begins touches only those rows. -/
theorem touchesOnly_run {rows : List (String × RowId)} {ops : List Operation} (haimed : Operation.Aimed rows ops)
    {index : Nat} {effects : List Effect} {last : Workspace}
    (hpresent : ∀ op ∈ ops, op.changesMatches = true → ∀ id, op.filter = [.isRow (.resolved id)] →
      ∃ row, w.tables.row? op.table id = some row)
    (h : w.run supply index ops = (.ok effects, last)) : TouchesOnly rows ops effects w last := by
  induction ops generalizing w index effects with
  | nil =>
    cases h
    exact ⟨fun i op hop => (nomatch hop), fun _ _ _ => Or.inl rfl⟩
  | cons op rest ih =>
    obtain ⟨effect, next, effects', happly, hrest, rfl⟩ := run_cons_eq_ok.mp h
    obtain ⟨hop, haimedRest⟩ := List.forall_mem_cons.mp haimed.aimed
    obtain ⟨hop', hpresentRest⟩ := List.forall_mem_cons.mp hpresent
    obtain ⟨hapart, hapartRest⟩ := List.pairwise_cons.mp haimed.apart
    have hfirst : TouchesOnly rows [op] [effect] w next := by
      refine touchesOnly_apply (fun hchanges => ?_) happly
      obtain ⟨id, hid, hfilter⟩ := hop hchanges
      exact ⟨id, hid, hfilter, hop' hchanges id hfilter⟩
    have hstillPresent : ∀ later ∈ rest, later.changesMatches = true → ∀ id, later.filter = [.isRow (.resolved id)] →
        ∃ row, next.tables.row? later.table id = some row := by
      intro later hlater hchanges id hfilter
      obtain ⟨row, hrow⟩ := hpresentRest later hlater hchanges id hfilter
      refine exists_row?_apply (fun hchanges => ?_) happly hrow (fun hremoves htable hsame => ?_)
      · obtain ⟨target, -, htarget⟩ := hop hchanges
        exact ⟨target, htarget⟩
      · exact hapart later hlater hremoves htable (hfilter.trans hsame.symm)
    exact hfirst.cons (ih ⟨haimedRest, hapartRest⟩ hstillPresent hrest)

/-- An operation draws the identifier of the row that it inserts, and no other. -/
theorem drawn_apply (h : w.apply supply op = .ok (effect, next)) :
    w.drawn ≤ next.drawn ∧ ∀ id, effect = .inserted id → id = supply w.drawn ∧ w.drawn < next.drawn := by
  cases op with
  | insert table row name =>
    cases h
    exact ⟨Nat.le_succ _, fun id heffect => ⟨(Effect.inserted.inj heffect).symm, Nat.lt_succ_self _⟩⟩
  | update table changes filter =>
    simp only [apply] at h
    split at h
    · cases h
    · obtain ⟨hits, -, h⟩ := bind_eq_ok_iff.mp h
      cases h
      refine ⟨Nat.le_refl _, fun id heffect => ?_⟩
      cases heffect
  | mutate table column mutator operand filter =>
    obtain ⟨value, -, h⟩ := bind_eq_ok_iff.mp h
    obtain ⟨hits, -, h⟩ := bind_eq_ok_iff.mp h
    cases h
    refine ⟨Nat.le_refl _, fun id heffect => ?_⟩
    cases heffect
  | _ =>
    obtain ⟨hits, -, h⟩ := bind_eq_ok_iff.mp h
    cases h
    refine ⟨Nat.le_refl _, fun id heffect => ?_⟩
    cases heffect

/-- The identifiers of the rows that a run inserts are drawn in it. -/
theorem drawn_run {index : Nat} {ops : List Operation} {effects : List Effect} {last : Workspace}
    (h : w.run supply index ops = (.ok effects, last)) :
    w.drawn ≤ last.drawn ∧ ∀ id, Effect.inserted id ∈ effects → ∃ n, w.drawn ≤ n ∧ n < last.drawn ∧ id = supply n := by
  induction ops generalizing w index effects with
  | nil =>
    cases h
    exact ⟨Nat.le_refl _, fun id hmem => nomatch hmem⟩
  | cons op rest ih =>
    obtain ⟨effect, next, effects', happly, hrest, rfl⟩ := run_cons_eq_ok.mp h
    obtain ⟨hle, hfirst⟩ := drawn_apply happly
    obtain ⟨hle', hothers⟩ := ih hrest
    refine ⟨Nat.le_trans hle hle', fun id hmem => ?_⟩
    rcases List.mem_cons.mp hmem with heffect | hmem
    · obtain ⟨hid, hlt⟩ := hfirst id heffect.symm
      exact ⟨w.drawn, Nat.le_refl _, Nat.lt_of_lt_of_le hlt hle', hid⟩
    · obtain ⟨n, hn, hlt, hid⟩ := hothers id hmem
      exact ⟨n, Nat.le_trans hle hn, hlt, hid⟩

/-- After a run of aimed operations a row that is not new is what the operations have made of it. -/
theorem row?_run {defined : List Placeholder} {ops : List Operation} (hscope : Transaction.scopeFault? defined ops = none)
    (haimed : ∀ op ∈ ops, op.changesMatches = true → ∃ id, op.filter = [.isRow (.resolved id)]) {index : Nat} {effects : List Effect}
    {last : Workspace} (h : w.run supply index ops = (.ok effects, last)) (table : String) {id : RowId}
    (hnew : Effect.inserted id ∉ effects) :
    last.tables.row? table id = Operation.makesOf last.names table id ops (w.tables.row? table id) := by
  induction ops generalizing defined w index effects with
  | nil =>
    cases h
    rfl
  | cons op rest ih =>
    obtain ⟨effect, next, effects', happly, hrest, rfl⟩ := run_cons_eq_ok.mp h
    obtain ⟨hop, haimedRest⟩ := List.forall_mem_cons.mp haimed
    obtain ⟨hfault, hscopeRest⟩ := Transaction.scopeFault?_cons_eq_none.mp hscope
    obtain ⟨hfirst, hnewRest⟩ := not_or.mp (List.mem_cons.not.mp hnew)
    have hnames : op.makes w.names = op.makes last.names := by
      refine Operation.makes_congr fun p hp => (get?_names_of_run hscope h ?_).symm
      exact Transaction.uses_of_operationFault?_eq_none hfault p hp
    rw [ih hscopeRest haimedRest hrest hnewRest, row?_apply hop happly table (Ne.symm hfirst), hnames]
    rfl

end Workspace

/-! ## Intents -/

/-- What a caller may want done to rows that are there. -/
inductive Intent where
  | removeRow (table : String) (key : Row)
  | changeRow (table : String) (key changes : Row)
  | changeSet (table : String) (key : Row) (column : String) (mutator : Mutator) (operand : Operand)
  | removeChild (table : String) (key : Row) (parent : Parent)
  | insertUnder (names : NameSupply) (table : String) (row : Row) (key : RowKey) (parent : Parent)

namespace Intent

/-- The transaction that is composed from the intent. -/
def compose (cache : Cache) : Intent → Except Error Transaction
  | .removeRow table key => cache.removeRow table key
  | .changeRow table key changes => cache.changeRow table key changes
  | .changeSet table key column mutator operand => cache.changeSet table key column mutator operand
  | .removeChild table key parent => cache.removeChild table key parent
  | .insertUnder names table row key parent => (names.insertUnder cache table row key parent).1.map Insertion.transaction

/-- The rows that the intent is about, as they are looked up, each with its table. -/
def resolve (cache : Cache) : Intent → Except Error (List (String × RowId))
  | .removeRow table key | .changeRow table key _ | .changeSet table key _ _ _ => (cache.onlyRow table key).map fun id => [(table, id)]
  | .removeChild table key parent => (cache.onlyLink table key parent).map fun link => [(parent.table, link.2), (table, link.1)]
  | .insertUnder _ table row key parent =>
    (NameSupply.checkChild cache table row key parent).map fun holder => [(parent.table, holder)]

end Intent

/-- A child and its parent that have been found are rows of their tables. -/
theorem Cache.rows_of_onlyLink {c : Cache} {table : String} {key : Row} {parent : Parent} {child holder : RowId}
    (h : c.onlyLink table key parent = .ok (child, holder)) :
    (∃ row, c.row? table child = some row) ∧ ∃ row, c.row? parent.table holder = some row := by
  unfold onlyLink at h
  split at h
  · obtain ⟨child', hchild, h⟩ := bind_eq_ok_iff.mp h
    obtain ⟨holder', hholder, h⟩ := bind_eq_ok_iff.mp h
    cases h
    obtain ⟨row, hrow, -⟩ := row?_of_onlyRow hchild
    exact ⟨⟨row, hrow⟩, row?_of_parentId hholder⟩
  · obtain ⟨holder', hholder, h⟩ := bind_eq_ok_iff.mp h
    obtain ⟨hits, hhits, h⟩ := bind_eq_ok_iff.mp h
    obtain ⟨child', hchild, h⟩ := bind_eq_ok_iff.mp h
    cases h
    obtain ⟨holding, -, hhits⟩ := bind_eq_ok_iff.mp hhits
    obtain ⟨found, hfound, hhits⟩ := bind_eq_ok_iff.mp hhits
    have hmem : child ∈ hits := by
      rw [eq_singleton_of_onlyHit hchild]
      exact List.mem_cons_self
    rw [← Except.ok.inj hhits] at hmem
    obtain ⟨row, hrow, -⟩ := (mem_of_idsMeeting hfound child).mp (List.mem_filter.mp hmem).1
    exact ⟨⟨row, hrow⟩, row?_of_parentId hholder⟩

namespace Cache

variable {c : Cache} {table : String} {key : Row} {txn : Transaction}

/-- A row is removed by one deletion that is aimed at the only row found. -/
theorem of_removeRow (h : c.removeRow table key = .ok txn) :
    ∃ id, c.onlyRow table key = .ok id ∧ txn.operations = [.delete table [.isRow (.resolved id)]] := by
  obtain ⟨id, hid, hcomposed⟩ := bind_eq_ok_iff.mp h
  exact ⟨id, hid, Transaction.compose_eq_ok_iff.mp hcomposed⟩

/-- A row is changed by one update that is aimed at the only row found. -/
theorem of_changeRow {changes : Row} (h : c.changeRow table key changes = .ok txn) :
    ∃ id, c.onlyRow table key = .ok id ∧ txn.operations = [.update table changes [.isRow (.resolved id)]] := by
  cases hempty : changes.isEmpty with
  | true =>
    simp only [changeRow, hempty, if_true] at h
    cases h
  | false =>
    cases hcolumn : changes.contains idColumn with
    | true =>
      simp only [changeRow, hempty, hcolumn, if_true] at h
      cases h
    | false =>
      simp only [changeRow, hempty, hcolumn] at h
      obtain ⟨id, hid, hcomposed⟩ := bind_eq_ok_iff.mp h
      exact ⟨id, hid, Transaction.compose_eq_ok_iff.mp hcomposed⟩

/-- A set of a row is changed by one mutation that is aimed at the only row found. -/
theorem of_changeSet {column : String} {mutator : Mutator} {operand : Operand} (h : c.changeSet table key column mutator operand = .ok txn) :
    ∃ id, c.onlyRow table key = .ok id ∧ txn.operations = [.mutate table column mutator operand [.isRow (.resolved id)]] := by
  unfold changeSet at h
  split at h
  · cases h
  · obtain ⟨id, hid, hcomposed⟩ := bind_eq_ok_iff.mp h
    exact ⟨id, hid, Transaction.compose_eq_ok_iff.mp hcomposed⟩

/-- A child is removed by detaching it from the only holder found and deleting the only child found. -/
theorem of_removeChild {parent : Parent} (h : c.removeChild table key parent = .ok txn) :
    ∃ child holder, c.onlyLink table key parent = .ok (child, holder) ∧
      txn.operations = [.detach parent holder child, .delete table [.isRow (.resolved child)]] := by
  obtain ⟨⟨child, holder⟩, hlink, hcomposed⟩ := bind_eq_ok_iff.mp h
  exact ⟨child, holder, hlink, Transaction.compose_eq_ok_iff.mp hcomposed⟩

end Cache

namespace Operation

/-- One operation aimed at one row. -/
theorem aimed_singleton (op : Operation) {id : RowId} (hfilter : op.filter = [.isRow (.resolved id)]) : Aimed [(op.table, id)] [op] where
  aimed := List.forall_mem_singleton.mpr fun _ => ⟨id, List.mem_cons_self, hfilter⟩
  apart := List.pairwise_singleton _ _

/-- The child is taken out of its parent before it is deleted, so both may be the same row. -/
theorem aimed_detach_delete (parent : Parent) (holder child : RowId) (table : String) :
    Aimed [(parent.table, holder), (table, child)] [.detach parent holder child, .delete table [.isRow (.resolved child)]] where
  aimed := by
    refine List.forall_mem_cons.mpr ⟨fun _ => ⟨holder, List.mem_cons_self, rfl⟩, List.forall_mem_singleton.mpr fun _ => ?_⟩
    exact ⟨child, List.mem_cons_of_mem _ List.mem_cons_self, rfl⟩
  apart := List.pairwise_pair.mpr fun hremoves => nomatch hremoves

/-- An insertion and the link to what it inserts are aimed at the holder. -/
theorem aimed_insert_attach (table : String) (row : Row) (name : Placeholder) (parent : Parent) (holder : RowId) :
    Aimed [(parent.table, holder)] [.insert table row (some name), .attach parent holder (.named name)] where
  aimed := by
    refine List.forall_mem_cons.mpr ⟨fun hchanges => (nomatch hchanges), List.forall_mem_singleton.mpr fun _ => ?_⟩
    exact ⟨holder, List.mem_cons_self, rfl⟩
  apart := List.pairwise_pair.mpr fun hremoves => nomatch hremoves

end Operation

namespace Intent

variable {cache : Cache} {intent : Intent} {txn : Transaction}

/-- What is composed from an intent is aimed at the rows that were looked up for it, which are in the cache. -/
theorem aimed_of_compose (h : intent.compose cache = .ok txn) :
    ∃ rows, intent.resolve cache = .ok rows ∧ (∀ e ∈ rows, ∃ row, cache.row? e.1 e.2 = some row) ∧
      Operation.Aimed rows txn.operations := by
  have hone : ∀ {table : String} {key : Row} {id : RowId}, cache.onlyRow table key = .ok id →
      (cache.onlyRow table key).map (fun id => [(table, id)]) = .ok [(table, id)] ∧
        ∀ e ∈ [(table, id)], ∃ row, cache.row? e.1 e.2 = some row := by
    intro table key id hid
    obtain ⟨row, hrow, -⟩ := Cache.row?_of_onlyRow hid
    exact ⟨map_eq_ok_iff.mpr ⟨id, hid, rfl⟩, List.forall_mem_singleton.mpr ⟨row, hrow⟩⟩
  cases intent with
  | removeRow table key =>
    obtain ⟨id, hid, hops⟩ := Cache.of_removeRow h
    refine ⟨_, (hone hid).1, (hone hid).2, ?_⟩
    rw [hops]
    exact Operation.aimed_singleton (.delete table [.isRow (.resolved id)]) rfl
  | changeRow table key changes =>
    obtain ⟨id, hid, hops⟩ := Cache.of_changeRow h
    refine ⟨_, (hone hid).1, (hone hid).2, ?_⟩
    rw [hops]
    exact Operation.aimed_singleton (.update table changes [.isRow (.resolved id)]) rfl
  | changeSet table key column mutator operand =>
    obtain ⟨id, hid, hops⟩ := Cache.of_changeSet h
    refine ⟨_, (hone hid).1, (hone hid).2, ?_⟩
    rw [hops]
    exact Operation.aimed_singleton (.mutate table column mutator operand [.isRow (.resolved id)]) rfl
  | removeChild table key parent =>
    obtain ⟨child, holder, hlink, hops⟩ := Cache.of_removeChild h
    obtain ⟨hchild, hholder⟩ := Cache.rows_of_onlyLink hlink
    refine ⟨_, map_eq_ok_iff.mpr ⟨_, hlink, rfl⟩, List.forall_mem_cons.mpr ⟨hholder, List.forall_mem_singleton.mpr hchild⟩, ?_⟩
    exact hops ▸ Operation.aimed_detach_delete parent holder child table
  | insertUnder names table row key parent =>
    obtain ⟨ins, hins, rfl⟩ := map_eq_ok_iff.mp h
    obtain ⟨holder, hcheck, hops⟩ := NameSupply.of_insertUnder hins
    refine ⟨_, map_eq_ok_iff.mpr ⟨holder, hcheck, rfl⟩,
      List.forall_mem_singleton.mpr (Cache.row?_of_parentId (NameSupply.of_checkChild hcheck).1), ?_⟩
    exact hops ▸ Operation.aimed_insert_attach table row ins.name parent holder

/-- Where a server has a row wherever the cache has one, it has the rows that operations are aimed at. -/
theorem present_of_aimed {rows : List (String × RowId)} {ops : List Operation} {tables : Tables} (haimed : Operation.Aimed rows ops)
    (hcached : ∀ e ∈ rows, ∃ row, cache.row? e.1 e.2 = some row)
    (hheld : ∀ table id row, cache.row? table id = some row → ∃ stored, tables.row? table id = some stored) :
    ∀ op ∈ ops, op.changesMatches = true → ∀ id, op.filter = [.isRow (.resolved id)] → ∃ row, tables.row? op.table id = some row := by
  intro op hop hchanges id hfilter
  obtain ⟨target, htarget, hfilter'⟩ := haimed.aimed op hop hchanges
  rw [hfilter] at hfilter'
  cases hfilter'
  obtain ⟨row, hrow⟩ := hcached _ htarget
  exact hheld _ _ row hrow

/-- When a server has a row wherever the cache has one, what is composed from an intent and carried out meets one row in each operation
that changes rows. The rows looked up for the intent are what these operations make of them: a deleted one is gone, and the others have
been updated or mutated. All other rows are as they were, unless they have just been inserted where there was none. -/
theorem touches_what_it_resolved (supply : RowIdSupply) (intent : Intent) (cache : Cache) (s s' : Server) (txn : Transaction)
    (effects : List Effect) (hcomposed : intent.compose cache = .ok txn)
    (hheld : ∀ table id row, cache.row? table id = some row → ∃ stored, s.tables.row? table id = some stored)
    (hdone : s.transact supply txn = (.ok effects, s'))
    (hunused : ∀ n, s.drawn ≤ n → n < s'.drawn → s.tables.live (supply n) = false) :
    ∃ rows, intent.resolve cache = .ok rows ∧
      (∀ (i : Nat) (op : Operation), txn.operations[i]? = some op → op.changesMatches = true → effects[i]? = some (.met 1)) ∧
      (∀ table id, (table, id) ∈ rows → s'.tables.row? table id =
        Operation.makesOf (txn.assignment effects) table id txn.operations (s.tables.row? table id)) ∧
      ∀ table id, (table, id) ∉ rows → s'.tables.row? table id = s.tables.row? table id ∨
        (s.tables.row? table id = none ∧ ∃ (i : Nat) (row : Row) (name : Option Placeholder),
          txn.operations[i]? = some (.insert table row name) ∧ effects[i]? = some (.inserted id)) := by
  obtain ⟨rows, hrows, hcached, haimed⟩ := aimed_of_compose hcomposed
  obtain ⟨-, last, hrun, -, rfl⟩ := Server.transact_eq_ok_iff.mp hdone
  have hnew : ∀ id, Effect.inserted id ∈ effects → s.tables.live id = false := by
    intro id hmem
    obtain ⟨n, hle, hlt, rfl⟩ := (Workspace.drawn_run hrun).2 id hmem
    exact hunused n hle hlt
  refine ⟨rows, hrows, ?_, ?_, ?_⟩
  · exact (Workspace.touchesOnly_run haimed (present_of_aimed haimed hcached hheld) hrun).counts
  · intro table id hmem
    obtain ⟨row, hrow⟩ := hcached _ hmem
    obtain ⟨stored, hstored⟩ := hheld table id row hrow
    have hlive : s.tables.live id = true := (Tables.live_iff _ _).mpr ⟨table, stored, hstored⟩
    have hold : Effect.inserted id ∉ effects := fun hinserted => by
      rw [hnew id hinserted] at hlive
      cases hlive
    have hnames : last.names = txn.assignment effects := Workspace.names_of_run hrun
    rw [← hnames]
    exact Workspace.row?_run txn.scopeFault?_operations (fun op hop hchanges => (haimed.aimed op hop hchanges).imp fun _ h => h.2) hrun
      table hold
  · intro table id hother
    have htouches := Workspace.touchesOnly_run haimed (present_of_aimed haimed hcached hheld) hrun
    refine (htouches.others table id hother).imp_right ?_
    rintro ⟨i, row, name, hop, heffect⟩
    exact ⟨Tables.row?_of_not_live (hnew id (List.mem_of_getElem? heffect)) table, i, row, name, hop, heffect⟩

/-- A table of nodes, of which the only one is linked from itself. -/
def loop : Tables :=
  .singleton "Node" (.singleton (Draws.rowIds 0 0)
    (.ofList [("name", .string "a"), ("next", .set [.uuid (Draws.rowIds 0 0)])]))

theorem exists_row?_loop {table : String} {id : RowId} {row : Row} (h : (⟨loop⟩ : Cache).row? table id = some row) :
    ∃ stored, loop.row? table id = some stored := by
  refine ⟨row, ?_⟩
  obtain ⟨rows, hrows, hrow⟩ := Option.bind_eq_some_iff.mp h
  rw [Tables.row?, Tables.rows, SortedMap.getD, show SortedMap.get? loop table = some rows from hrows]
  exact hrow

/-- The node is taken out of itself and then deleted. -/
def removeLooped : Intent := .removeChild "Node" (.singleton "name" (.string "a")) ⟨"Node", "next", .holder⟩

/-- A second node is hung from the first. -/
def insertLooped : Intent :=
  .insertUnder (.ofTag 0) "Node" (.singleton "name" (.string "b")) (.inTable ["name"]) ⟨"Node", "next", .id (Draws.rowIds 0 0)⟩

/-- Both are carried out, and meet one row in each operation that changes rows, although parent and child are in one table. The first
leaves no node, and the second adds its new node to the links of the old one. -/
theorem touches_loop :
    (∃ txn effects s', removeLooped.compose ⟨loop⟩ = .ok txn ∧
      (⟨loop, none, 1, .waiting []⟩ : Server).transact (Draws.rowIds 0) txn = (.ok effects, s') ∧
      (∀ (i : Nat) (op : Operation), txn.operations[i]? = some op → op.changesMatches = true → effects[i]? = some (.met 1)) ∧
      s'.tables.row? "Node" (Draws.rowIds 0 0) = none) ∧
    ∃ txn effects s', insertLooped.compose ⟨loop⟩ = .ok txn ∧
      (⟨loop, none, 1, .waiting []⟩ : Server).transact (Draws.rowIds 0) txn = (.ok effects, s') ∧
      (∀ (i : Nat) (op : Operation), txn.operations[i]? = some op → op.changesMatches = true → effects[i]? = some (.met 1)) ∧
      s'.tables.row? "Node" (Draws.rowIds 0 0) =
        some (.ofList [("name", .string "a"), ("next", .ofRowIds [Draws.rowIds 0 0, Draws.rowIds 0 1])]) := by
  have hmet : ∀ (intent : Intent) (made : Option Row), (intent.compose ⟨loop⟩).map (fun txn =>
      (((⟨loop, none, 1, .waiting []⟩ : Server).transact (Draws.rowIds 0) txn).1.toOption.map fun effects =>
          Operation.makesOf (txn.assignment effects) "Node" (Draws.rowIds 0 0) txn.operations (loop.row? "Node" (Draws.rowIds 0 0)),
        decide (((⟨loop, none, 1, .waiting []⟩ : Server).transact (Draws.rowIds 0) txn).2.drawn ≤ 2))) = .ok (some made, true) →
      (intent.resolve ⟨loop⟩).map (fun rows => decide (("Node", Draws.rowIds 0 0) ∈ rows)) = .ok true →
      ∃ txn effects s', intent.compose ⟨loop⟩ = .ok txn ∧
        (⟨loop, none, 1, .waiting []⟩ : Server).transact (Draws.rowIds 0) txn = (.ok effects, s') ∧
        (∀ (i : Nat) (op : Operation), txn.operations[i]? = some op → op.changesMatches = true → effects[i]? = some (.met 1)) ∧
        s'.tables.row? "Node" (Draws.rowIds 0 0) = made := by
    intro intent made hrun hresolved
    obtain ⟨txn, hcomposed, hfacts⟩ := map_eq_ok_iff.mp hrun
    obtain ⟨hdone, hdrawn⟩ := Prod.mk.inj hfacts
    obtain ⟨effects, heffects, hmade⟩ := Option.map_eq_some_iff.mp hdone
    have hanswer := Except.toOption_eq_some_iff.mp heffects
    have hunused : ∀ n, 1 ≤ n → n < ((⟨loop, none, 1, .waiting []⟩ : Server).transact (Draws.rowIds 0) txn).2.drawn →
        loop.live (Draws.rowIds 0 n) = false := by
      intro n hle hlt
      have hone : n = 1 := by
        have hbound := of_decide_eq_true hdrawn
        omega
      subst hone
      decide +kernel
    obtain ⟨rows, hrows, hcounts, hrow, -⟩ := touches_what_it_resolved (Draws.rowIds 0) intent ⟨loop⟩ ⟨loop, none, 1, .waiting []⟩ _ txn
      effects hcomposed (fun _ _ _ => exists_row?_loop) (Prod.ext hanswer rfl) hunused
    obtain ⟨rows', hrows', hmem⟩ := map_eq_ok_iff.mp hresolved
    cases hrows.symm.trans hrows'
    exact ⟨txn, effects, _, hcomposed, Prod.ext hanswer rfl, hcounts, (hrow _ _ (of_decide_eq_true hmem)).trans hmade⟩
  exact ⟨hmet removeLooped none (by decide +kernel) (by decide +kernel), hmet insertLooped _ (by decide +kernel) (by decide +kernel)⟩

end Intent

end TableReplica
