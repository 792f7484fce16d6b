import Mathlib.Data.List.Basic
import TableReplica.Proofs.Submission

/-!
# Placeholders filled in

A placeholder that an operation reads may be replaced by the identifier it stands for, if that is known (`Operation.fill`). What an
operation does depends on its placeholders only through what they stand for, so an operation does the same when they are filled in, and
when other placeholders stand for something besides (`Workspace.apply_fill`). Since each placeholder is defined before it is read, and
only once, the same holds of whole runs (`Workspace.run_fill`).
-/

namespace TableReplica

namespace RowReference

/-- The row by its identifier, if it is known what the placeholder stands for. -/
def fill (known : Assignment) : RowReference → RowReference
  | .resolved id => .resolved id
  | .named p =>
    match known.get? p with
    | some id => .resolved id
    | none => .named p

end RowReference

def Operand.fill (known : Assignment) : Operand → Operand
  | .plain v => .plain v
  | .reference ref => .reference (ref.fill known)

def Condition.fill (known : Assignment) (c : Condition) : Condition := { c with operand := c.operand.fill known }

/-- The operation with the known ones among the placeholders it reads replaced by what they stand for. -/
def Operation.fill (known : Assignment) : Operation → Operation
  | .insert table row name => .insert table row name
  | .update table changes filter => .update table changes (filter.map (·.fill known))
  | .delete table filter => .delete table (filter.map (·.fill known))
  | .mutate table column mutator operand filter => .mutate table column mutator (operand.fill known) (filter.map (·.fill known))
  | .select table filter => .select table (filter.map (·.fill known))

/-! ## What filling leaves -/

/-- Filling an operand leaves its placeholder only if that is not known. -/
theorem Operand.placeholder?_fill (known : Assignment) (operand : Operand) :
    (operand.fill known).placeholder? = operand.placeholder?.filter (fun p => !known.contains p) := by
  cases operand with
  | plain v => rfl
  | reference ref =>
    cases ref with
    | resolved id => rfl
    | named p =>
      rw [fill, RowReference.fill, show (Operand.reference (.named p)).placeholder? = some p from rfl, Option.filter_some,
        SortedMap.contains]
      cases known.get? p <;> rfl

/-- With nothing known, filling leaves an operand as it is. -/
theorem Operand.fill_empty (operand : Operand) : operand.fill ∅ = operand := by
  cases operand with
  | plain v => rfl
  | reference ref => cases ref <;> rfl

namespace Operation

variable (known : Assignment) (op : Operation)

@[simp] theorem table_fill : (op.fill known).table = op.table := by
  cases op <;> rfl

@[simp] theorem filter_fill : (op.fill known).filter = op.filter.map (·.fill known) := by
  cases op <;> rfl

@[simp] theorem defined?_fill : (op.fill known).defined? = op.defined? := by
  cases op <;> rfl

@[simp] theorem changesMatches_fill : (op.fill known).changesMatches = op.changesMatches := by
  cases op <;> rfl

/-- Filling a filter leaves the placeholders that are not known. -/
theorem filterMap_placeholder?_fill (filter : List Condition) :
    (filter.map (·.fill known)).filterMap (·.operand.placeholder?) =
      (filter.filterMap (·.operand.placeholder?)).filter (fun p => !known.contains p) := by
  rw [List.filterMap_map, List.filter_filterMap]
  exact List.filterMap_congr (fun c _ => c.operand.placeholder?_fill known)

/-- What is still read are the placeholders that are not known. -/
theorem uses_fill : (op.fill known).uses = op.uses.filter (fun p => !known.contains p) := by
  have hoperand : ∀ operand : Operand,
      (operand.fill known).placeholder?.toList = operand.placeholder?.toList.filter (fun p => !known.contains p) := by
    intro operand
    rw [Operand.placeholder?_fill]
    cases operand.placeholder? with
    | none => rfl
    | some p => cases hp : known.contains p <;> simp [hp]
  cases op <;> simp only [fill, uses, filter, filterMap_placeholder?_fill, hoperand, List.filter_append, List.filter_nil, List.filterMap_nil]

/-- With nothing known, filling leaves an operation as it is. -/
theorem fill_empty : op.fill ∅ = op := by
  have hfilter : ∀ filter : List Condition, filter.map (·.fill ∅) = filter := by
    intro filter
    refine (List.map_congr_left (fun c _ => ?_)).trans (List.map_id filter)
    rw [Condition.fill, Operand.fill_empty]
    rfl
  cases op <;> simp only [fill, hfilter, Operand.fill_empty]

end Operation

namespace Transaction

/-- A list of operations stays well scoped when placeholders are filled in. -/
theorem scopeFault?_fill (known : Assignment) {defined : List Placeholder} {ops : List Operation} (h : scopeFault? defined ops = none) :
    scopeFault? defined (ops.map (·.fill known)) = none := by
  induction ops generalizing defined with
  | nil => rfl
  | cons op rest ih =>
    obtain ⟨hop, hrest⟩ := scopeFault?_cons_eq_none.mp h
    rw [List.map_cons, scopeFault?_cons_eq_none, Operation.defined?_fill]
    refine ⟨?_, ih hrest⟩
    rw [operationFault?_eq_none_iff] at hop ⊢
    simp only [Operation.table_fill, Operation.defined?_fill, Operation.changesMatches_fill, Operation.filter_fill, List.isEmpty_map,
      Operation.uses_fill]
    exact ⟨hop.1, fun p hp => hop.2.1 p (List.mem_filter.mp hp).1, hop.2.2⟩

/-- The transaction with the known placeholders filled in wherever they are read. Inserts go on defining theirs. -/
def fill (known : Assignment) (txn : Transaction) : Transaction where
  operations := txn.operations.map (·.fill known)
  wellScoped := by
    have hscope := scopeFault?_fill known txn.scopeFault?_operations
    have hsome := txn.wellScoped
    unfold fault? at hsome ⊢
    rw [List.isEmpty_map]
    split
    · rename_i hempty
      rw [if_pos hempty] at hsome
      exact hsome
    · exact hscope

end Transaction

/-! ## One operation -/

section Filling

variable {known names names' : Assignment}

/-- A filled operand resolves to what the operand itself does, when what was filled in is what is known to the run. -/
theorem Operand.resolve_fill {operand : Operand}
    (h : ∀ p, operand.placeholder? = some p → (known.get? p).or (names'.get? p) = names.get? p) :
    (operand.fill known).resolve names' = operand.resolve names := by
  cases operand with
  | plain v => rfl
  | reference ref =>
    cases ref with
    | resolved id => rfl
    | named p =>
      have hp := h p rfl
      rw [fill, RowReference.fill, resolve, ← hp]
      cases hknown : known.get? p with
      | some id => rfl
      | none => rw [Option.none_or]; rfl

/-- A row passes a filled filter exactly when it passes the filter. -/
theorem Row.passes_fill (id : RowId) (row : Row) {filter : List Condition}
    (h : ∀ p ∈ filter.filterMap (·.operand.placeholder?), (known.get? p).or (names'.get? p) = names.get? p) :
    row.passes names' id (filter.map (·.fill known)) = row.passes names id filter := by
  induction filter with
  | nil => rfl
  | cons c rest ih =>
    have hc : ∀ p, c.operand.placeholder? = some p → (known.get? p).or (names'.get? p) = names.get? p :=
      fun p hp => h p (List.mem_filterMap.mpr ⟨c, List.mem_cons_self, hp⟩)
    have hrest : ∀ p ∈ rest.filterMap (·.operand.placeholder?), (known.get? p).or (names'.get? p) = names.get? p := by
      intro p hp
      obtain ⟨c', hc', hp⟩ := List.mem_filterMap.mp hp
      exact h p (List.mem_filterMap.mpr ⟨c', List.mem_cons_of_mem c hc', hp⟩)
    rw [List.map_cons, passes, passes, Condition.fill, Operand.resolve_fill hc, ih hrest]

/-- The rows that match a filled filter are those that match the filter. -/
theorem RowMap.matching_fill (rows : RowMap) {filter : List Condition}
    (h : ∀ p ∈ filter.filterMap (·.operand.placeholder?), (known.get? p).or (names'.get? p) = names.get? p) :
    rows.matching names' (filter.map (·.fill known)) = rows.matching names filter := by
  unfold matching
  simp only [Row.passes_fill _ _ h]

end Filling

namespace Workspace

variable {supply : RowIdSupply}

/-- The workspace with other names for its rows. -/
def withNames (w : Workspace) (names : Assignment) : Workspace := { w with names := names }

/-- An operation does the same when the placeholders it reads stand for the same, be it because they have been filled in. -/
theorem apply_fill {known names' : Assignment} {w next : Workspace} {op : Operation} {effect : Effect}
    (huses : ∀ p ∈ op.uses, (known.get? p).or (names'.get? p) = w.names.get? p) (h : w.apply supply op = .ok (effect, next)) :
    (w.withNames names').apply supply (op.fill known) =
      .ok (effect, next.withNames (names'.insertAll (Transaction.assigned? (op, effect)).toList)) := by
  have hmatching : ∀ rows : RowMap, rows.matching names' (op.filter.map (·.fill known)) = rows.matching w.names op.filter :=
    fun rows => RowMap.matching_fill rows (fun p hp => huses p (List.mem_append_left _ hp))
  cases op with
  | insert table row name =>
    cases h
    cases name <;> rfl
  | update table changes filter =>
    simp only [apply] at h
    split at h
    · cases h
    · rename_i hid
      obtain ⟨hits, hhits, h⟩ := bind_eq_ok_iff.mp h
      cases h
      simp only [Operation.fill, apply, if_neg hid]
      exact bind_eq_ok_iff.mpr ⟨hits, (hmatching _).trans hhits, rfl⟩
  | delete table filter =>
    obtain ⟨hits, hhits, h⟩ := bind_eq_ok_iff.mp h
    cases h
    exact bind_eq_ok_iff.mpr ⟨hits, (hmatching _).trans hhits, rfl⟩
  | mutate table column mutator operand filter =>
    obtain ⟨value, hvalue, h⟩ := bind_eq_ok_iff.mp h
    obtain ⟨hits, hhits, h⟩ := bind_eq_ok_iff.mp h
    cases h
    have hoperand : (operand.fill known).resolve names' = operand.resolve w.names :=
      Operand.resolve_fill (fun p hp => huses p (List.mem_append_right _ (Option.mem_toList.mpr hp)))
    exact bind_eq_ok_iff.mpr ⟨value, hoperand.trans hvalue, bind_eq_ok_iff.mpr ⟨hits, (hmatching _).trans hhits, rfl⟩⟩
  | select table filter =>
    obtain ⟨hits, hhits, h⟩ := bind_eq_ok_iff.mp h
    cases h
    exact bind_eq_ok_iff.mpr ⟨hits, (hmatching _).trans hhits, rfl⟩

/-- An operation gives its placeholder the identifier of the row it inserts, and all others stand for what they stood for. -/
theorem names_of_apply {w next : Workspace} {op : Operation} {effect : Effect} (h : w.apply supply op = .ok (effect, next)) :
    next.names = w.names.insertAll (Transaction.assigned? (op, effect)).toList := by
  have huses : ∀ p ∈ op.uses, ((∅ : Assignment).get? p).or (w.names.get? p) = w.names.get? p := fun _ _ => rfl
  have hsame := apply_fill huses h
  rw [Operation.fill_empty] at hsame
  exact congrArg (fun r => r.2.names) (Except.ok.inj (h.symm.trans hsame))

/-- What an operation defines is what its effect assigns. -/
theorem assigned?_of_apply {w next : Workspace} {op : Operation} {effect : Effect} (h : w.apply supply op = .ok (effect, next)) :
    (Transaction.assigned? (op, effect)).map (·.1) = op.defined? := by
  cases op with
  | insert table row name =>
    cases h
    cases name <;> rfl
  | _ => rfl

/-! ## Runs -/

/-- A run goes through when its first operation does and the rest does in what the first leaves. -/
theorem run_cons_eq_ok {w last : Workspace} {index : Nat} {op : Operation} {rest : List Operation} {effects : List Effect} :
    w.run supply index (op :: rest) = (.ok effects, last) ↔
      ∃ effect next effects', w.apply supply op = .ok (effect, next) ∧ next.run supply (index + 1) rest = (.ok effects', last) ∧
        effects = effect :: effects' := by
  rw [run]
  constructor
  · intro h
    split at h
    · cases h
    · rename_i effect next happly
      obtain ⟨houtcome, hlast⟩ := Prod.mk.inj h
      obtain ⟨effects', heffects, rfl⟩ := map_eq_ok_iff.mp houtcome
      exact ⟨effect, next, effects', happly, Prod.ext heffects hlast, rfl⟩
  · rintro ⟨effect, next, effects', happly, hrest, rfl⟩
    rw [happly]
    dsimp only
    rw [hrest]
    rfl

/-- In a run that goes through, exactly the operations that define a placeholder assign one. -/
theorem assigned?_of_mem_zip {w last : Workspace} {index : Nat} {ops : List Operation} {effects : List Effect}
    (h : w.run supply index ops = (.ok effects, last)) :
    ∀ e ∈ ops.zip effects, (Transaction.assigned? e).map (·.1) = e.1.defined? := by
  induction ops generalizing w index effects with
  | nil =>
    intro e he
    cases he
  | cons op rest ih =>
    obtain ⟨effect, next, effects', happly, hrest, rfl⟩ := run_cons_eq_ok.mp h
    exact List.forall_mem_cons.mpr ⟨assigned?_of_apply happly, ih hrest⟩

/-- The placeholders of a run are given their identifiers in the order in which they are defined. -/
theorem map_assigned?_of_run {w last : Workspace} {index : Nat} {ops : List Operation} {effects : List Effect}
    (h : w.run supply index ops = (.ok effects, last)) :
    ((ops.zip effects).filterMap Transaction.assigned?).map (·.1) = ops.filterMap Operation.defined? := by
  have hlength : ops.length ≤ effects.length := Nat.le_of_eq (length_of_run h).symm
  calc ((ops.zip effects).filterMap Transaction.assigned?).map (·.1)
      = (ops.zip effects).filterMap (fun e => (Transaction.assigned? e).map (·.1)) := List.map_filterMap
    _ = (ops.zip effects).filterMap (Operation.defined? ∘ Prod.fst) := List.filterMap_congr (assigned?_of_mem_zip h)
    _ = ((ops.zip effects).map Prod.fst).filterMap Operation.defined? := List.filterMap_map.symm
    _ = ops.filterMap Operation.defined? := by rw [List.map_fst_zip hlength]

/-- In the end the placeholders stand for what they stood for before, and those that the run defines for what its effects say. -/
theorem names_of_run {w last : Workspace} {index : Nat} {ops : List Operation} {effects : List Effect}
    (h : w.run supply index ops = (.ok effects, last)) :
    last.names = w.names.insertAll ((ops.zip effects).filterMap Transaction.assigned?) := by
  induction ops generalizing w index effects with
  | nil =>
    cases h
    rfl
  | cons op rest ih =>
    obtain ⟨effect, next, effects', happly, hrest, rfl⟩ := run_cons_eq_ok.mp h
    rw [ih hrest, names_of_apply happly, List.zip_cons_cons, List.filterMap_cons]
    cases Transaction.assigned? (op, effect) <;> rfl

/-- A placeholder that has been defined before a run stands for the same after it. -/
theorem get?_names_of_run {defined : List Placeholder} {ops : List Operation} (hscope : Transaction.scopeFault? defined ops = none)
    {w last : Workspace} {index : Nat} {effects : List Effect} (h : w.run supply index ops = (.ok effects, last)) {p : Placeholder}
    (hp : p ∈ defined) : last.names.get? p = w.names.get? p := by
  rw [names_of_run h, SortedMap.get?_insertAll_of_not_mem]
  rw [map_assigned?_of_run h]
  exact fun hmem => Transaction.not_mem_of_scopeFault?_eq_none hscope hmem hp

/-- A run does the same when the placeholders that are known are filled in, as long as nothing else becomes known of those that it
defines itself. To the operations that follow, what one of them defines is known as what it has just been given. -/
theorem run_fill {defined : List Placeholder} {ops : List Operation} (hscope : Transaction.scopeFault? defined ops = none)
    {known names' : Assignment} {w last : Workspace} {index : Nat} {effects : List Effect}
    (hdefined : ∀ p ∈ defined, (known.get? p).or (names'.get? p) = w.names.get? p) (h : w.run supply index ops = (.ok effects, last))
    (hknown : ∀ e ∈ (ops.zip effects).filterMap Transaction.assigned?, ∀ id, known.get? e.1 = some id → id = e.2) (index' : Nat) :
    (w.withNames names').run supply index' (ops.map (·.fill known)) =
      (.ok effects, last.withNames (names'.insertAll ((ops.zip effects).filterMap Transaction.assigned?))) := by
  induction ops generalizing defined names' w index effects index' with
  | nil =>
    cases h
    rfl
  | cons op rest ih =>
    obtain ⟨hop, hscope⟩ := Transaction.scopeFault?_cons_eq_none.mp hscope
    obtain ⟨effect, next, effects', happly, hrest, rfl⟩ := run_cons_eq_ok.mp h
    have huses : ∀ p ∈ op.uses, (known.get? p).or (names'.get? p) = w.names.get? p :=
      fun p hp => hdefined p (Transaction.uses_of_operationFault?_eq_none hop p hp)
    have hnames := names_of_apply happly
    have hassigned := assigned?_of_apply happly
    have hknown' : ∀ e ∈ (rest.zip effects').filterMap Transaction.assigned?, ∀ id, known.get? e.1 = some id → id = e.2 := by
      intro e he
      obtain ⟨pair, hpair, he⟩ := List.mem_filterMap.mp he
      exact hknown e (List.mem_filterMap.mpr ⟨pair, List.mem_cons_of_mem _ hpair, he⟩)
    rw [List.map_cons, run_cons_eq_ok]
    refine ⟨effect, _, effects', apply_fill huses happly, ?_, rfl⟩
    have hdefined' : ∀ p ∈ op.defined?.toList ++ defined,
        (known.get? p).or ((names'.insertAll (Transaction.assigned? (op, effect)).toList).get? p) = next.names.get? p := by
      intro p hp
      rw [hnames]
      cases hpair : Transaction.assigned? (op, effect) with
      | none =>
        rw [hpair, Option.map_none] at hassigned
        rw [← hassigned] at hp
        exact hdefined p hp
      | some pair =>
        have hpairs : pair ∈ ((op :: rest).zip (effect :: effects')).filterMap Transaction.assigned? :=
          List.mem_filterMap.mpr ⟨(op, effect), List.mem_cons_self, hpair⟩
        show (known.get? p).or ((names'.insert pair.1 pair.2).get? p) = (w.names.insert pair.1 pair.2).get? p
        by_cases hsame : pair.1 = p
        · subst hsame
          rw [SortedMap.get?_insert_self, SortedMap.get?_insert_self]
          cases hget : known.get? pair.1 with
          | none => rfl
          | some id => rw [hknown pair hpairs id hget]; rfl
        · rw [SortedMap.get?_insert_of_ne _ _ hsame, SortedMap.get?_insert_of_ne _ _ hsame]
          rw [hpair, Option.map_some] at hassigned
          rw [← hassigned] at hp
          exact hdefined p ((List.mem_cons.mp hp).resolve_left (Ne.symm hsame))
    have htail := ih hscope hdefined' hrest hknown' (index' + 1)
    refine htail.trans ?_
    rw [List.zip_cons_cons, List.filterMap_cons]
    cases Transaction.assigned? (op, effect) <;> rfl

end Workspace

end TableReplica
