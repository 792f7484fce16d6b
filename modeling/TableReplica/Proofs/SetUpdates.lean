import TableReplica.Proofs.AimedOperations
import TableReplica.Proofs.Atomicity

/-!
# Updates of a set column

Several clients may put elements into one set column of a row and take others out of it. On booleans, integers, text and identifiers
two elements agree only when they are the same, so what such updates leave depends on which elements were put in and which were
taken out, as long as no element is both (`SetUpdate.foldl_mutateBy`). The server makes the same row of the updates in every order,
however often one is repeated and however they are grouped into transactions (`Server.no_update_lost`).
-/

namespace TableReplica

namespace Value

/-- A boolean, an integer, text or an identifier. -/
def isPlain : Value → Bool
  | .boolean _ | .integer _ | .string _ | .uuid _ => true
  | _ => false

/-- What stands for a set of plain values: no column, an empty map, a plain value or a set of them. -/
def PlainColumn (column : Option Value) : Prop := ∀ v ∈ column, v = .map ∅ ∨ ∀ item ∈ v.members, item.isPlain = true

instance (column : Option Value) : Decidable (PlainColumn column) :=
  inferInstanceAs (Decidable (∀ v ∈ column, v = .map ∅ ∨ ∀ item ∈ v.members, item.isPlain = true))

theorem definite_boolean (b : Bool) : Definite (.boolean b) := by
  intro w
  cases w <;> simp [agrees]

/-- A plain value agrees with itself and nothing else. -/
theorem definite_of_isPlain {v : Value} (h : v.isPlain = true) : v.Definite := by
  cases v with
  | boolean b => exact definite_boolean b
  | integer n => exact definite_integer n
  | string s => exact definite_string s
  | uuid u => exact definite_uuid u
  | _ => simp [isPlain] at h

/-- What a mutation works on in a plain column is plain. -/
theorem isPlain_of_mem_mutable {column : Option Value} (h : PlainColumn column) : ∀ item ∈ mutable column, item.isPlain = true := by
  rcases column with _ | v
  · simp [mutable, stored]
  · rcases h v rfl with rfl | hplain
    · simp [mutable, show (∅ : SortedMap String String).isEmpty = true from rfl]
    · cases v with
      | map entries => simp [members, isPlain] at hplain
      | _ => simpa [mutable, stored] using hplain

/-- Among definite values the one that agrees is the one that is there. -/
theorem isAmong_iff_of_definite {v : Value} {items : List Value} (h : ∀ item ∈ items, item.Definite) :
    v.isAmong items = true ↔ v ∈ items := by
  simp only [isAmong, List.any_eq_true]
  constructor
  · rintro ⟨item, hitem, hagrees⟩
    exact (h item hitem v).mp hagrees ▸ hitem
  · intro hv
    exact ⟨v, hv, (h v hv v).mpr rfl⟩

/-- Lists with the same plain elements make the same set. -/
theorem ofList_congr_of_isPlain {items items' : List Value} (h : ∀ item ∈ items, item.isPlain = true)
    (hmem : ∀ v, v ∈ items ↔ v ∈ items') : ofList items = ofList items' := by
  rw [ofList, ofList, canonicalItems_eq_of_mem_iff (fun item hitem => definite_of_isPlain (h item hitem)) hmem]

end Value

namespace Condition

/-- The condition is that the row is the one of the identifier, given as it is or as a reference. -/
def AsksFor (id : RowId) (c : Condition) : Prop :=
  c.column = idColumn ∧ c.comparison = .equal ∧ c.operand.resolve ∅ = .ok (.uuid id)

end Condition

namespace RowMap

/-- A row passes conditions that all ask for one row when it is that row, or when there are none. -/
theorem passes_of_asksFor {id : RowId} {filter : List Condition} (h : ∀ c ∈ filter, c.AsksFor id) (id' : RowId) (row : Row) :
    row.passes ∅ id' filter = .ok (filter.isEmpty || decide (id' = id)) := by
  induction filter with
  | nil => rfl
  | cons c rest ih =>
    obtain ⟨⟨hcolumn, hcomparison, hoperand⟩, hrest⟩ := List.forall_mem_cons.mp h
    rw [Row.passes, hoperand, ih hrest]
    by_cases hid : id' = id <;>
      simp [hcolumn, hcomparison, hid, Comparison.test, Row.column?, Value.stored, Value.members, Value.membersAgree, Value.agrees]

/-- Conditions that ask for the row of an identifier are met by that row alone. -/
theorem matching_of_asksFor {id : RowId} {filter : List Condition} (hne : filter ≠ []) (h : ∀ c ∈ filter, c.AsksFor id) (rows : RowMap) :
    rows.matching ∅ filter = .ok (rows.only id) :=
  matching_of_passes fun e _ => by rw [passes_of_asksFor h, List.isEmpty_eq_false_iff.mpr hne, Bool.false_or]

end RowMap

namespace Tables

/-- The tables with one row put in the place of the one that has its identifier. -/
def setRow (tables : Tables) (table : String) (id : RowId) (row : Row) : Tables :=
  tables.insert table ((tables.rows table).insert id row)

variable (tables : Tables) (table : String) (id : RowId)

theorem rows_setRow (row : Row) : (tables.setRow table id row).rows table = (tables.rows table).insert id row := by
  rw [setRow, rows_insert, if_pos rfl]

@[simp] theorem row?_setRow (row : Row) : (tables.setRow table id row).row? table id = some row := by
  rw [row?, rows_setRow, SortedMap.get?_insert_self]

@[simp] theorem setRow_setRow (row row' : Row) : (tables.setRow table id row).setRow table id row' = tables.setRow table id row' := by
  rw [setRow, rows_setRow, SortedMap.insert_insert, setRow, SortedMap.insert_insert, setRow]

/-- Setting a row to what it is changes nothing. -/
theorem setRow_of_row? {tables : Tables} {table : String} {id : RowId} {row : Row} (h : tables.row? table id = some row) :
    tables.setRow table id row = tables := by
  rw [row?, get?_rows] at h
  obtain ⟨rows, hrows, hrow⟩ := Option.bind_eq_some_iff.mp h
  have hrows' : tables.rows table = rows := by rw [Tables.rows, SortedMap.getD, hrows, Option.getD_some]
  rw [setRow, hrows', SortedMap.insert_of_get? hrow, SortedMap.insert_of_get? hrows]

end Tables

/-- Revising one row that is there sets it to what becomes of it. -/
theorem Workspace.revise_only {w : Workspace} {table : String} {id : RowId} {row : Row} (hrow : w.tables.row? table id = some row)
    (change : Row → Row) :
    w.revise table ((w.tables.rows table).only id) (fun row => some (change row)) =
      { w with tables := w.tables.setRow table id (change row) } := by
  have hrows : (w.tables.rows table).filterMap
      (fun id' row => if ((w.tables.rows table).only id).contains id' then some (change row) else some row) =
        (w.tables.rows table).insert id (change row) := by
    apply SortedMap.ext_get?
    intro id'
    rw [SortedMap.get?_filterMap, SortedMap.get?_insert, SortedMap.contains, RowMap.get?_only]
    by_cases hid : id' = id
    · subst hid
      simp [show (w.tables.rows table).get? id' = some row from hrow]
    · cases hrow' : (w.tables.rows table).get? id' <;> simp [hid, Ne.symm hid]
  rw [revise, hrows, Tables.setRow]

/-- A mutation of one column of one row, which puts elements in or takes them out. -/
structure SetUpdate where
  mutator : Mutator
  operand : Operand
  filter : List Condition

namespace SetUpdate

def toOperation (table column : String) (u : SetUpdate) : Operation := .mutate table column u.mutator u.operand u.filter

/-- The elements that are put in or taken out. -/
def elements (u : SetUpdate) : List Value := ((u.operand.resolve ∅).toOption.map Value.members).getD []

/-- The update asks for the row of the identifier, and its operand is a plain value or a set of them. -/
structure Aimed (id : RowId) (u : SetUpdate) : Prop where
  filtered : u.filter ≠ []
  asksFor : ∀ c ∈ u.filter, c.AsksFor id
  operand : ∃ v, u.operand.resolve ∅ = .ok v
  plain : ∀ v ∈ u.elements, v.isPlain = true

/-- The elements of all the updates that put in, or of all that take out. -/
def elementsBy (mutator : Mutator) (updates : List SetUpdate) : List Value :=
  (updates.filter (fun u => decide (u.mutator = mutator))).flatMap elements

/-- No element is put in by one of the updates and taken out by another. -/
def Apart (updates : List SetUpdate) : Prop := ∀ v ∈ elementsBy .insert updates, v ∉ elementsBy .delete updates

instance (updates : List SetUpdate) : Decidable (Apart updates) :=
  inferInstanceAs (Decidable (∀ v ∈ elementsBy .insert updates, v ∉ elementsBy .delete updates))

/-- What is left of a set: its elements and all that were put in, without those that were taken out. -/
def leaves (updates : List SetUpdate) (old : List Value) : List Value :=
  (old ++ elementsBy .insert updates).filter (fun v => decide (v ∉ elementsBy .delete updates))

/-- The elements by a mutator are those of the updates with that mutator. -/
theorem mem_elementsBy {mutator : Mutator} {updates : List SetUpdate} {v : Value} :
    v ∈ elementsBy mutator updates ↔ ∃ u ∈ updates, u.mutator = mutator ∧ v ∈ u.elements := by
  simp [elementsBy, and_assoc]

/-- What updates leave was there or is put in by one of them, and is taken out by none. -/
theorem mem_leaves {updates : List SetUpdate} {old : List Value} {v : Value} :
    v ∈ leaves updates old ↔ (v ∈ old ∨ v ∈ elementsBy .insert updates) ∧ v ∉ elementsBy .delete updates := by
  simp [leaves, or_and_right]

/-! ## One row -/

section Row

variable {id : RowId} {u : SetUpdate} {updates : List SetUpdate} {old : List Value}

/-- The elements of updates are plain. -/
theorem isPlain_of_mem_elementsBy (h : ∀ u ∈ updates, u.Aimed id) {mutator : Mutator} :
    ∀ v ∈ elementsBy mutator updates, v.isPlain = true := by
  intro v hv
  obtain ⟨u, hu, -, hv⟩ := mem_elementsBy.mp hv
  exact (h u hu).plain v hv

/-- What updates leave is plain. -/
theorem isPlain_of_mem_leaves (h : ∀ u ∈ updates, u.Aimed id) (hold : ∀ v ∈ old, v.isPlain = true) :
    ∀ v ∈ leaves updates old, v.isPlain = true := by
  intro v hv
  exact (mem_leaves.mp hv).1.elim (hold v) (isPlain_of_mem_elementsBy h v)

/-- The elements after one update. -/
theorem mem_change (h : u.Aimed id) (v : Value) :
    v ∈ u.mutator.change old u.elements ↔ match u.mutator with
      | .insert => v ∈ old ∨ v ∈ u.elements
      | .delete => v ∈ old ∧ v ∉ u.elements := by
  cases u.mutator with
  | insert => simp [Mutator.change]
  | delete =>
    have hamong := Value.isAmong_iff_of_definite (v := v) (fun item hitem => Value.definite_of_isPlain (h.plain item hitem))
    simp [Mutator.change, ← hamong]

/-- A single update leaves what updates of which it is the only one do. -/
theorem mem_change_iff_mem_leaves (h : u.Aimed id) (v : Value) : v ∈ u.mutator.change old u.elements ↔ v ∈ leaves [u] old := by
  rw [mem_change h, mem_leaves]
  cases hu : u.mutator <;> simp [mem_elementsBy, hu]

/-- What is left does not depend on whether the first update is carried out before the others or counted among them. -/
theorem mem_leaves_change (h : u.Aimed id) (hapart : Apart (u :: updates)) (v : Value) :
    v ∈ leaves updates (u.mutator.change old u.elements) ↔ v ∈ leaves (u :: updates) old := by
  have hv : v ∈ elementsBy .insert (u :: updates) → v ∉ elementsBy .delete (u :: updates) := hapart v
  simp only [mem_elementsBy, List.mem_cons, exists_eq_or_imp] at hv
  simp only [mem_leaves, mem_change h, mem_elementsBy, List.mem_cons, exists_eq_or_imp]
  cases hu : u.mutator <;> simp only [hu] at hv ⊢ <;> grind

/-- What is left depends on which elements there were and which updates there are. -/
theorem mem_leaves_congr {updates' : List SetUpdate} {old' : List Value} (hupdates : ∀ u, u ∈ updates ↔ u ∈ updates')
    (hold : ∀ v, v ∈ old ↔ v ∈ old') (v : Value) : v ∈ leaves updates old ↔ v ∈ leaves updates' old' := by
  simp [mem_leaves, mem_elementsBy, hupdates, hold]

/-- Fewer updates do not meet either. -/
theorem Apart.mono {updates' : List SetUpdate} (h : Apart updates) (hsub : ∀ u ∈ updates', u ∈ updates) : Apart updates' := by
  intro v hinsert hdelete
  obtain ⟨u, hu, hmutator, hv⟩ := mem_elementsBy.mp hinsert
  obtain ⟨u', hu', hmutator', hv'⟩ := mem_elementsBy.mp hdelete
  exact h v (mem_elementsBy.mpr ⟨u, hsub u hu, hmutator, hv⟩) (mem_elementsBy.mpr ⟨u', hsub u' hu', hmutator', hv'⟩)

/-- The row after one update. -/
def mutateBy (column : String) (row : Row) (u : SetUpdate) : Row :=
  row.insert column (.ofList (u.mutator.change (Value.mutable (row.get? column)) u.elements))

/-- Updates one after the other leave the set of what was there and what was put in, without what was taken out. Every update but the
first finds a set in its one form. -/
theorem foldl_mutateBy {column : String} {row : Row} (hcolumn : ∀ v ∈ Value.mutable (row.get? column), v.isPlain = true)
    (hne : updates ≠ []) (h : ∀ u ∈ updates, u.Aimed id) (hapart : Apart updates) :
    updates.foldl (mutateBy column) row = row.insert column (.ofList (leaves updates (Value.mutable (row.get? column)))) := by
  induction updates generalizing row with
  | nil => exact absurd rfl hne
  | cons u rest ih =>
    obtain ⟨hu, hrest⟩ := List.forall_mem_cons.mp h
    generalize hold : Value.mutable (row.get? column) = old at hcolumn ⊢
    have hplain : ∀ v ∈ u.mutator.change old u.elements, v.isPlain = true := by
      intro v hv
      exact isPlain_of_mem_leaves (List.forall_mem_singleton.mpr hu) hcolumn v ((mem_change_iff_mem_leaves hu v).mp hv)
    have hitems := Value.mem_canonicalItems (fun v hv => Value.definite_of_isPlain (hplain v hv))
    have hfound : Value.mutable ((mutateBy column row u).get? column) = Value.canonicalItems (u.mutator.change old u.elements) := by
      rw [mutateBy, SortedMap.get?_insert_self, hold]
      rfl
    rcases eq_or_ne rest [] with rfl | hne'
    · rw [List.foldl_cons, List.foldl_nil, mutateBy, hold, Value.ofList_congr_of_isPlain hplain (mem_change_iff_mem_leaves hu)]
    · have hfound' : ∀ v ∈ Value.mutable ((mutateBy column row u).get? column), v.isPlain = true := by
        intro v hv
        rw [hfound] at hv
        exact hplain v ((hitems v).mp hv)
      rw [List.foldl_cons, ih hfound' hne' hrest (hapart.mono fun u' hu' => List.mem_cons_of_mem u hu'), hfound, mutateBy,
        SortedMap.insert_insert]
      congr 1
      refine Value.ofList_congr_of_isPlain (isPlain_of_mem_leaves hrest fun v hv => hplain v ((hitems v).mp hv)) fun v => ?_
      exact (mem_leaves_congr (fun _ => Iff.rfl) hitems v).trans (mem_leaves_change hu hapart v)

end Row

/-! ## One run of operations -/

section Run

variable {supply : RowIdSupply} {table column : String} {id : RowId} {tables : Tables} {row : Row} {updates : List SetUpdate}

/-- The operation of an update meets its row and sets the column. -/
theorem apply_toOperation {u : SetUpdate} (hu : u.Aimed id) (hrow : tables.row? table id = some row) (drawn : Nat) :
    Workspace.apply supply ⟨tables, ∅, drawn⟩ (u.toOperation table column) =
      .ok (.met 1, ⟨tables.setRow table id (mutateBy column row u), ∅, drawn⟩) := by
  obtain ⟨value, hvalue⟩ := hu.operand
  have helements : u.elements = value.members := by
    rw [elements, hvalue]
    rfl
  rw [toOperation, Workspace.apply, hvalue, RowMap.matching_of_asksFor hu.filtered hu.asksFor]
  show Except.ok (Effect.ofHits _, Workspace.revise _ _ _ _) = _
  rw [Effect.ofHits, RowMap.size_only hrow, Workspace.revise_only hrow, mutateBy, helements]
  rfl

/-- The updates of a row are carried out on it one after the other, and each meets this one row. -/
theorem run_toOperation (h : ∀ u ∈ updates, u.Aimed id) (hrow : tables.row? table id = some row) (drawn index : Nat) :
    Workspace.run supply ⟨tables, ∅, drawn⟩ index (updates.map (toOperation table column)) =
      (.ok (updates.map fun _ => .met 1), ⟨tables.setRow table id (updates.foldl (mutateBy column) row), ∅, drawn⟩) := by
  induction updates generalizing tables row index with
  | nil => simp [Workspace.run, Tables.setRow_of_row? hrow]
  | cons u rest ih =>
    obtain ⟨hu, hrest⟩ := List.forall_mem_cons.mp h
    refine Workspace.run_cons_eq_ok.mpr ⟨_, _, _, apply_toOperation hu hrow drawn, ?_, rfl⟩
    rw [ih hrest (Tables.row?_setRow tables table id _), Tables.setRow_setRow, List.foldl_cons]

end Run

end SetUpdate

/-! ## Transactions one after the other -/

namespace Server

/-- The transactions are carried out one after the other, and have these effects. -/
inductive CarriesOut (supply : RowIdSupply) : Server → List Transaction → List Effect → Server → Prop where
  | nil (s : Server) : CarriesOut supply s [] [] s
  | cons {s s₁ s' : Server} {txn : Transaction} {txns : List Transaction} {effects effects' : List Effect}
      (head : s.transact supply txn = (.ok effects, s₁)) (tail : CarriesOut supply s₁ txns effects' s') :
      CarriesOut supply s (txn :: txns) (effects ++ effects') s'

/-- Updates of one column, in this order and grouped into transactions, are carried out. -/
def RunsUpdates (supply : RowIdSupply) (table column : String) (s : Server) (updates : List SetUpdate) (effects : List Effect)
    (s' : Server) : Prop :=
  ∃ txns : List Transaction, txns.flatMap (·.operations) = updates.map (·.toOperation table column) ∧ CarriesOut supply s txns effects s'

variable {supply : RowIdSupply} {s s' s'' : Server} {table column : String} {id : RowId} {row : Row} {updates updates' : List SetUpdate}
  {effects effects' : List Effect}

/-- Transactions carried out one list after the other are carried out as one list. -/
theorem CarriesOut.append {txns txns' : List Transaction} (h : CarriesOut supply s txns effects s')
    (h' : CarriesOut supply s' txns' effects' s'') : CarriesOut supply s (txns ++ txns') (effects ++ effects') s'' := by
  induction h with
  | nil => exact h'
  | cons head _ ih =>
    rw [List.cons_append, List.append_assoc]
    exact .cons head (ih h')

/-- Updates run one list after the other are run as one list. -/
theorem RunsUpdates.append (h : RunsUpdates supply table column s updates effects s')
    (h' : RunsUpdates supply table column s' updates' effects' s'') :
    RunsUpdates supply table column s (updates ++ updates') (effects ++ effects') s'' := by
  obtain ⟨txns, hops, hrun⟩ := h
  obtain ⟨txns', hops', hrun'⟩ := h'
  exact ⟨txns ++ txns', by rw [List.flatMap_append, hops, hops', List.map_append], hrun.append hrun'⟩

/-- However the updates of a row are grouped, they are carried out on it one after the other. -/
theorem RunsUpdates.exact (h : RunsUpdates supply table column s updates effects s') (hrow : s.tables.row? table id = some row)
    (haimed : ∀ u ∈ updates, u.Aimed id) :
    effects = updates.map (fun _ => .met 1) ∧ s'.tables = s.tables.setRow table id (updates.foldl (SetUpdate.mutateBy column) row) ∧
      s'.drawn = s.drawn ∧ s'.armed = s.armed := by
  obtain ⟨txns, hops, hrun⟩ := h
  induction hrun generalizing row updates with
  | nil s =>
    obtain rfl : updates = [] := List.map_eq_nil_iff.mp hops.symm
    exact ⟨rfl, (Tables.setRow_of_row? hrow).symm, rfl, rfl⟩
  | @cons s s₁ s' txn txns effects effects' head tail ih =>
    rw [List.flatMap_cons] at hops
    obtain ⟨first, rest, rfl, hfirst, hrest⟩ := List.map_eq_append_iff.mp hops.symm
    obtain ⟨haimed₁, haimed₂⟩ := List.forall_mem_append.mp haimed
    obtain ⟨harmed, last, hrun, -, rfl⟩ := transact_eq_ok_iff.mp head
    rw [← hfirst, SetUpdate.run_toOperation haimed₁ hrow] at hrun
    cases hrun
    obtain ⟨rfl, htables, hdrawn, harmed'⟩ := ih (Tables.row?_setRow s.tables table id _) haimed₂ hrest.symm
    refine ⟨by rw [List.map_append], ?_, hdrawn, harmed'⟩
    rw [htables, List.foldl_append]
    exact Tables.setRow_setRow s.tables table id _ _

/-- A run in which each of the updates occurs at least once leaves what the updates leave. -/
theorem RunsUpdates.tables_eq (h : RunsUpdates supply table column s updates' effects s') (hrow : s.tables.row? table id = some row)
    (hcolumn : Value.PlainColumn (row.get? column)) (hne : updates ≠ []) (haimed : ∀ u ∈ updates, u.Aimed id)
    (hapart : SetUpdate.Apart updates) (hsame : ∀ u, u ∈ updates' ↔ u ∈ updates) :
    s'.tables = s.tables.setRow table id (row.insert column (.ofList (SetUpdate.leaves updates (Value.mutable (row.get? column))))) := by
  have hplain := Value.isPlain_of_mem_mutable hcolumn
  have haimed' : ∀ u ∈ updates', u.Aimed id := fun u hu => haimed u ((hsame u).mp hu)
  have hne' : updates' ≠ [] := by
    obtain ⟨u, hu⟩ := List.exists_mem_of_ne_nil updates hne
    exact List.ne_nil_of_mem ((hsame u).mpr hu)
  obtain ⟨-, htables, -⟩ := h.exact hrow haimed'
  rw [htables, SetUpdate.foldl_mutateBy hplain hne' haimed' (hapart.mono fun u hu => (hsame u).mp hu),
    Value.ofList_congr_of_isPlain (SetUpdate.isPlain_of_mem_leaves haimed' hplain) (SetUpdate.mem_leaves_congr hsame fun _ => Iff.rfl)]

/-- No update of a set column is lost: in whatever order the updates of a row come, however often any of them is repeated and however
they are grouped into transactions, once the server has carried them out the column is the set of what was there and what was put in,
without what was taken out. Each of them has met one row, and nothing else has changed. From then on none of them changes anything. -/
theorem no_update_lost (hrow : s.tables.row? table id = some row) (hcolumn : Value.PlainColumn (row.get? column)) (hne : updates ≠ [])
    (haimed : ∀ u ∈ updates, u.Aimed id) (hapart : SetUpdate.Apart updates) (hsame : ∀ u, u ∈ updates' ↔ u ∈ updates)
    (hrun : RunsUpdates supply table column s updates' effects s') :
    effects = updates'.map (fun _ => .met 1) ∧
      s'.tables = s.tables.setRow table id (row.insert column (.ofList (SetUpdate.leaves updates (Value.mutable (row.get? column))))) ∧
      s'.drawn = s.drawn ∧ s'.armed = s.armed ∧
      ∀ again effects' s'', (∀ u ∈ again, u ∈ updates) → RunsUpdates supply table column s' again effects' s'' →
        s''.tables = s'.tables := by
  obtain ⟨heffects, -, hdrawn, harmed⟩ := hrun.exact hrow (fun u hu => haimed u ((hsame u).mp hu))
  have htables := hrun.tables_eq hrow hcolumn hne haimed hapart hsame
  refine ⟨heffects, htables, hdrawn, harmed, ?_⟩
  intro again effects' s'' hagain hrun'
  have hall : ∀ u, u ∈ updates' ++ again ↔ u ∈ updates := by
    intro u
    rw [List.mem_append, hsame]
    exact or_iff_left_of_imp (hagain u)
  rw [htables, (hrun.append hrun').tables_eq hrow hcolumn hne haimed hapart hall]

/-- A port with one tag, as text that is not in a set. -/
def portRow : Row := .ofList [("name", .string "p"), ("tags", .string "old")]

/-- The port gets a tag, and itself for another. -/
def addTags : SetUpdate := ⟨.insert, .plain (.set [.uuid (Draws.rowIds 0 0), .string "new"]), [.isRow (.resolved (Draws.rowIds 0 0))]⟩

/-- The port loses its old tag. -/
def dropTag : SetUpdate := ⟨.delete, .plain (.string "old"), [.holds idColumn (.uuid (Draws.rowIds 0 0))]⟩

/-- The tag is dropped twice, on its own and after the others have been added. -/
theorem tags_portRow :
    ∃ s', RunsUpdates (Draws.rowIds 0) "Port" "tags"
        { empty with tables := .singleton "Port" (.singleton (Draws.rowIds 0 0) portRow) } [dropTag, addTags, dropTag]
        [.met 1, .met 1, .met 1] s' ∧
      (s'.tables.row? "Port" (Draws.rowIds 0 0)).bind (·.get? "tags") = some (.set [.string "new", .uuid (Draws.rowIds 0 0)]) := by
  let s : Server := { empty with tables := .singleton "Port" (.singleton (Draws.rowIds 0 0) portRow) }
  let first : Transaction := ⟨[dropTag.toOperation "Port" "tags"], by decide⟩
  let second : Transaction := ⟨[addTags.toOperation "Port" "tags", dropTag.toOperation "Port" "tags"], by decide⟩
  have hanswers : (s.transact (Draws.rowIds 0) first).1 = .ok [.met 1] ∧
      ((s.transact (Draws.rowIds 0) first).2.transact (Draws.rowIds 0) second).1 = .ok [.met 1, .met 1] := by
    decide +kernel
  have hrun : RunsUpdates (Draws.rowIds 0) "Port" "tags" s [dropTag, addTags, dropTag] [.met 1, .met 1, .met 1] _ :=
    ⟨[first, second], rfl, .cons (Prod.ext hanswers.1 rfl) (.cons (Prod.ext hanswers.2 rfl) (.nil _))⟩
  have haimed : ∀ u ∈ [addTags, dropTag], u.Aimed (Draws.rowIds 0 0) := by
    have hrow {c : Condition} (h : c.AsksFor (Draws.rowIds 0 0)) : ∀ c' ∈ [c], c'.AsksFor (Draws.rowIds 0 0) :=
      List.forall_mem_singleton.mpr h
    refine List.forall_mem_cons.mpr ⟨?_, List.forall_mem_singleton.mpr ?_⟩
    · exact ⟨by simp [addTags], hrow ⟨rfl, rfl, rfl⟩, ⟨_, rfl⟩, by decide⟩
    · exact ⟨by simp [dropTag], hrow ⟨rfl, rfl, rfl⟩, ⟨_, rfl⟩, by decide⟩
  have hrow : s.tables.row? "Port" (Draws.rowIds 0 0) = some portRow := by decide +kernel
  obtain ⟨-, htables, -⟩ := no_update_lost hrow (by decide +kernel) (List.cons_ne_nil addTags [dropTag]) haimed (by decide +kernel)
    (by simp [or_comm]) hrun
  refine ⟨_, hrun, ?_⟩
  rw [htables, Tables.row?_setRow, Option.bind_some, SortedMap.get?_insert_self]
  decide +kernel

end Server

end TableReplica
