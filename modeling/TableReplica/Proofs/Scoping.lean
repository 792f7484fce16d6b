import TableReplica.Proofs.Maps
import TableReplica.Proofs.Fallible
import TableReplica.Server.Execution

/-!
# Scoped placeholders

An operation whose placeholders all stand for something can only fail by writing the column of the identifier
(`Workspace.apply_ok`). In the operations of a transaction each placeholder is defined before it is read, so a run fails at the first
operation that writes that column, and otherwise not at all (`Workspace.run_of_scoped`).
-/

namespace TableReplica

/-- The operation writes the column of the identifier. -/
def Operation.changesIdentifier : Operation → Bool
  | .update _ changes _ => changes.contains idColumn
  | _ => false

/-- The first operation of a list that writes the column of the identifier. -/
def Operation.FirstIdentifierChange (ops : List Operation) (i : Nat) : Prop :=
  (∃ op, ops[i]? = some op ∧ op.changesIdentifier = true) ∧
    ∀ (j : Nat) (op : Operation), j < i → ops[j]? = some op → op.changesIdentifier = false

/-! ## What is read must be known -/

/-- An operand whose placeholder is known resolves. -/
theorem Operand.resolve_ok {names : Assignment} {operand : Operand}
    (h : ∀ p, operand.placeholder? = some p → names.contains p = true) : ∃ v, operand.resolve names = .ok v := by
  cases operand with
  | plain v => exact ⟨v, rfl⟩
  | reference ref =>
    cases ref with
    | resolved id => exact ⟨.uuid id, rfl⟩
    | named p =>
      obtain ⟨id, hid⟩ := (SortedMap.contains_iff names p).mp (h p rfl)
      exact ⟨.uuid id, by rw [resolve, hid]⟩

/-- Conditions whose placeholders are all known are decided, in whatever order they are read. -/
theorem Row.passes_ok {names : Assignment} (id : RowId) (row : Row) {filter : List Condition}
    (h : ∀ p ∈ filter.filterMap (·.operand.placeholder?), names.contains p = true) : ∃ b, row.passes names id filter = .ok b := by
  induction filter with
  | nil => exact ⟨true, rfl⟩
  | cons c rest ih =>
    have hc : ∀ p, c.operand.placeholder? = some p → names.contains p = true := by
      intro p hp
      exact h p (List.mem_filterMap.mpr ⟨c, List.mem_cons_self, hp⟩)
    have hrest : ∀ p ∈ rest.filterMap (·.operand.placeholder?), names.contains p = true := by
      intro p hp
      obtain ⟨c', hc', hp⟩ := List.mem_filterMap.mp hp
      exact h p (List.mem_filterMap.mpr ⟨c', List.mem_cons_of_mem c hc', hp⟩)
    obtain ⟨wanted, hwanted⟩ := Operand.resolve_ok hc
    rw [passes, hwanted]
    simp only
    split
    · exact ih hrest
    · exact ⟨false, rfl⟩

/-- A filter whose placeholders are known is decided for every row. -/
theorem RowMap.matching_ok {names : Assignment} (rows : RowMap) {filter : List Condition}
    (h : ∀ p ∈ filter.filterMap (·.operand.placeholder?), names.contains p = true) :
    ∃ hits, rows.matching names filter = .ok hits := by
  refine ⟨_, SortedMap.filterMapOk_of_forall_ok
    (g := fun id row => if (row.passes names id filter).toOption = some true then some row else none) ?_⟩
  intro e _
  obtain ⟨b, hb⟩ := Row.passes_ok e.1 e.2 h
  rw [hb]
  cases b <;> rfl

/-! ## One operation -/

namespace Workspace

variable {supply : RowIdSupply}

/-- An update of an identifier is refused, whatever else it says. -/
theorem apply_error_of_changesIdentifier (w : Workspace) {op : Operation} (h : op.changesIdentifier = true) :
    w.apply supply op = .error .identifierChange := by
  cases op with
  | update table changes filter =>
    rw [Operation.changesIdentifier] at h
    simp only [apply, h, if_true]
    rfl
  | _ => cases h

/-- An operation whose placeholders are known fails only by writing the column of the identifier. -/
theorem apply_ok (w : Workspace) {op : Operation} (hid : op.changesIdentifier = false)
    (huses : ∀ p ∈ op.uses, w.names.contains p = true) : ∃ effect w', w.apply supply op = .ok (effect, w') := by
  have hfilter : ∀ p ∈ op.filter.filterMap (·.operand.placeholder?), w.names.contains p = true :=
    fun p hp => huses p (List.mem_append_left _ hp)
  obtain ⟨hits, hhits⟩ := RowMap.matching_ok (w.tables.rows op.table) hfilter
  cases op with
  | insert table row name => exact ⟨_, _, rfl⟩
  | update table changes filter =>
    rw [Operation.changesIdentifier] at hid
    simp only [Operation.table, Operation.filter] at hhits
    simp only [apply, hid, hhits]
    exact ⟨_, _, rfl⟩
  | delete table filter =>
    simp only [Operation.table, Operation.filter] at hhits
    simp only [apply, hhits]
    exact ⟨_, _, rfl⟩
  | mutate table column mutator operand filter =>
    have hoperand : ∀ p, operand.placeholder? = some p → w.names.contains p = true := by
      intro p hp
      exact huses p (List.mem_append_right _ (Option.mem_toList.mpr hp))
    obtain ⟨value, hvalue⟩ := Operand.resolve_ok hoperand
    simp only [Operation.table, Operation.filter] at hhits
    simp only [apply, hvalue, hhits]
    exact ⟨_, _, rfl⟩
  | select table filter =>
    simp only [Operation.table, Operation.filter] at hhits
    simp only [apply, hhits]
    exact ⟨_, _, rfl⟩

/-- An operation adds the placeholder it defines to those that are known. -/
theorem names_apply {w w' : Workspace} {op : Operation} {effect : Effect} (h : w.apply supply op = .ok (effect, w')) :
    ∀ p, p ∈ op.defined?.toList ∨ w.names.contains p = true → w'.names.contains p = true := by
  intro p hp
  cases op with
  | insert table row name =>
    obtain ⟨rfl, rfl⟩ := Prod.mk.inj (Except.ok.inj h)
    cases name with
    | none => simpa [Operation.defined?, addRow] using hp
    | some name =>
      simp only [Operation.defined?, Option.toList_some, List.mem_singleton] at hp
      simp only [addRow, SortedMap.contains, SortedMap.get?_insert]
      split
      · rfl
      · rename_i hne
        exact hp.resolve_left (Ne.symm hne)
  | update table changes filter =>
    simp only [apply] at h
    split at h
    · cases h
    · obtain ⟨hits, -, h⟩ := bind_eq_ok_iff.mp h
      obtain ⟨rfl, rfl⟩ := Prod.mk.inj (Except.ok.inj h)
      simpa [Operation.defined?, revise] using hp
  | delete table filter =>
    obtain ⟨hits, -, h⟩ := bind_eq_ok_iff.mp h
    obtain ⟨rfl, rfl⟩ := Prod.mk.inj (Except.ok.inj h)
    simpa [Operation.defined?, revise] using hp
  | mutate table column mutator operand filter =>
    obtain ⟨value, -, h⟩ := bind_eq_ok_iff.mp h
    obtain ⟨hits, -, h⟩ := bind_eq_ok_iff.mp h
    obtain ⟨rfl, rfl⟩ := Prod.mk.inj (Except.ok.inj h)
    simpa [Operation.defined?, revise] using hp
  | select table filter =>
    obtain ⟨hits, -, h⟩ := bind_eq_ok_iff.mp h
    obtain ⟨rfl, rfl⟩ := Prod.mk.inj (Except.ok.inj h)
    simpa [Operation.defined?] using hp

end Workspace

/-! ## Whole transactions -/

/-- An operation without a fault uses only what is defined. -/
theorem Transaction.uses_of_operationFault?_eq_none {defined : List Placeholder} {op : Operation}
    (h : operationFault? defined op = none) : ∀ p ∈ op.uses, p ∈ defined := by
  unfold operationFault? at h
  split at h
  · cases h
  · split at h
    · cases h
    · rename_i huses
      intro p hp
      have hall := List.all_eq_true.mp (Bool.not_eq_false _ ▸ huses) p hp
      exact of_decide_eq_true hall

/-- A list is scoped when its first operation is and the rest is, with what that defines. -/
theorem Transaction.scopeFault?_cons_eq_none {defined : List Placeholder} {op : Operation} {rest : List Operation} :
    scopeFault? defined (op :: rest) = none ↔
      operationFault? defined op = none ∧ scopeFault? (op.defined?.toList ++ defined) rest = none := by
  rw [scopeFault?, Option.or_eq_none_iff]

/-- The operations of a transaction are scoped. -/
theorem Transaction.scopeFault?_operations (txn : Transaction) : scopeFault? [] txn.operations = none := by
  have h := txn.wellScoped
  unfold fault? at h
  split at h
  · cases h
  · exact h

namespace Transaction

/-- What an operation without a fault is like when the given placeholders are defined before it. -/
theorem operationFault?_eq_none_iff {defined : List Placeholder} {op : Operation} :
    operationFault? defined op = none ↔
      op.table.isEmpty = false ∧ (∀ p ∈ op.uses, p ∈ defined) ∧ (∀ p, op.defined? = some p → p ∉ defined) ∧
        (op.changesMatches && op.filter.isEmpty) = false := by
  have huses : op.uses.all (fun p => decide (p ∈ defined)) = true ↔ ∀ p ∈ op.uses, p ∈ defined := by
    simp only [List.all_eq_true, decide_eq_true_eq]
  have hdefined : op.defined?.any (fun p => decide (p ∈ defined)) = false ↔ ∀ p, op.defined? = some p → p ∉ defined := by
    cases op.defined? <;> simp
  rw [← huses, ← hdefined, operationFault?]
  cases op.table.isEmpty <;> cases op.uses.all (fun p => decide (p ∈ defined)) <;>
    cases op.defined?.any (fun p => decide (p ∈ defined)) <;> cases op.changesMatches && op.filter.isEmpty <;> simp

/-- What is defined in a list was not defined before it. -/
theorem not_mem_of_scopeFault?_eq_none {defined : List Placeholder} {ops : List Operation} (h : scopeFault? defined ops = none)
    {p : Placeholder} (hp : p ∈ ops.filterMap Operation.defined?) : p ∉ defined := by
  induction ops generalizing defined with
  | nil => cases hp
  | cons op rest ih =>
    obtain ⟨hop, hrest⟩ := scopeFault?_cons_eq_none.mp h
    obtain ⟨op', hmem, hdefined⟩ := List.mem_filterMap.mp hp
    rcases List.mem_cons.mp hmem with rfl | hmem
    · exact (operationFault?_eq_none_iff.mp hop).2.2.1 p hdefined
    · intro hin
      exact ih hrest (List.mem_filterMap.mpr ⟨op', hmem, hdefined⟩) (List.mem_append_right _ hin)

/-- What is read in a list is defined before it or in it. -/
theorem mem_of_uses {defined : List Placeholder} {ops : List Operation} (h : scopeFault? defined ops = none) {op : Operation}
    (hop : op ∈ ops) {p : Placeholder} (hp : p ∈ op.uses) : p ∈ defined ∨ p ∈ ops.filterMap Operation.defined? := by
  induction ops generalizing defined with
  | nil => cases hop
  | cons first rest ih =>
    obtain ⟨hfirst, hrest⟩ := scopeFault?_cons_eq_none.mp h
    rcases List.mem_cons.mp hop with rfl | hop
    · exact Or.inl (uses_of_operationFault?_eq_none hfirst p hp)
    · rcases ih hrest hop with hp | hp
      · rcases List.mem_append.mp hp with hp | hp
        · exact Or.inr (List.mem_filterMap.mpr ⟨first, List.mem_cons_self, Option.mem_toList.mp hp⟩)
        · exact Or.inl hp
      · obtain ⟨op', hop', hdefined⟩ := List.mem_filterMap.mp hp
        exact Or.inr (List.mem_filterMap.mpr ⟨op', List.mem_cons_of_mem _ hop', hdefined⟩)

/-- No placeholder is defined twice. -/
theorem nodup_defined {defined : List Placeholder} {ops : List Operation} (h : scopeFault? defined ops = none) :
    (ops.filterMap Operation.defined?).Nodup := by
  induction ops generalizing defined with
  | nil => exact List.nodup_nil
  | cons op rest ih =>
    obtain ⟨-, hrest⟩ := scopeFault?_cons_eq_none.mp h
    cases hdefined : op.defined? with
    | none =>
      rw [List.filterMap_cons_none hdefined]
      exact ih hrest
    | some p =>
      rw [List.filterMap_cons_some hdefined, List.nodup_cons]
      rw [hdefined] at hrest
      exact ⟨fun hp => not_mem_of_scopeFault?_eq_none hrest hp List.mem_cons_self, ih hrest⟩

/-- A list stays well scoped when more is defined before it, as long as it defines none of that. -/
theorem scopeFault?_mono {defined defined' : List Placeholder} {ops : List Operation} (h : scopeFault? defined ops = none)
    (hsub : ∀ p ∈ defined, p ∈ defined') (hfresh : ∀ p ∈ ops.filterMap Operation.defined?, p ∉ defined') :
    scopeFault? defined' ops = none := by
  induction ops generalizing defined defined' with
  | nil => rfl
  | cons op rest ih =>
    obtain ⟨hop, hrest⟩ := scopeFault?_cons_eq_none.mp h
    rw [operationFault?_eq_none_iff] at hop
    rw [scopeFault?_cons_eq_none, operationFault?_eq_none_iff]
    refine ⟨⟨hop.1, fun p hp => hsub p (hop.2.1 p hp), ?_, hop.2.2.2⟩, ih hrest ?_ ?_⟩
    · intro p hp
      exact hfresh p (List.mem_filterMap.mpr ⟨op, List.mem_cons_self, hp⟩)
    · intro p hp
      rw [List.mem_append] at hp ⊢
      exact hp.imp_right (hsub p)
    · intro p hp hin
      rcases List.mem_append.mp hin with hin | hin
      · exact not_mem_of_scopeFault?_eq_none hrest hp (List.mem_append_left _ hin)
      · obtain ⟨op', hop', hdefined⟩ := List.mem_filterMap.mp hp
        exact hfresh p (List.mem_filterMap.mpr ⟨op', List.mem_cons_of_mem _ hop', hdefined⟩) hin

/-- Two lists that are well scoped are so one after the other, as long as the second defines nothing that is defined before it. -/
theorem scopeFault?_append {defined : List Placeholder} {as bs : List Operation} (ha : scopeFault? defined as = none)
    (hb : scopeFault? [] bs = none) (hbefore : ∀ p ∈ bs.filterMap Operation.defined?, p ∉ defined)
    (happart : ∀ p ∈ bs.filterMap Operation.defined?, p ∉ as.filterMap Operation.defined?) : scopeFault? defined (as ++ bs) = none := by
  induction as generalizing defined with
  | nil => exact scopeFault?_mono hb (fun p hp => (List.not_mem_nil hp).elim) hbefore
  | cons op rest ih =>
    obtain ⟨hop, hrest⟩ := scopeFault?_cons_eq_none.mp ha
    rw [List.cons_append, scopeFault?_cons_eq_none]
    refine ⟨hop, ih hrest ?_ ?_⟩
    · intro p hp hin
      rcases List.mem_append.mp hin with hin | hin
      · exact happart p hp (List.mem_filterMap.mpr ⟨op, List.mem_cons_self, Option.mem_toList.mp hin⟩)
      · exact hbefore p hp hin
    · intro p hp hin
      obtain ⟨op', hop', hdefined⟩ := List.mem_filterMap.mp hin
      exact happart p hp (List.mem_filterMap.mpr ⟨op', List.mem_cons_of_mem _ hop', hdefined⟩)

end Transaction

namespace Operation

/-- An update of an identifier that comes first is the first one. -/
theorem firstIdentifierChange_zero {op : Operation} (rest : List Operation) (h : op.changesIdentifier = true) :
    FirstIdentifierChange (op :: rest) 0 := by
  refine ⟨⟨op, rfl, h⟩, ?_⟩
  intro j _ hj
  omega

/-- An operation that keeps identifiers moves the first update of one back by one. -/
theorem FirstIdentifierChange.cons {op : Operation} {rest : List Operation} {i : Nat} (h : FirstIdentifierChange rest i)
    (hop : op.changesIdentifier = false) : FirstIdentifierChange (op :: rest) (i + 1) := by
  obtain ⟨⟨op', hop', hchanges⟩, hbefore⟩ := h
  refine ⟨⟨op', hop', hchanges⟩, ?_⟩
  intro j other hj hother
  cases j with
  | zero => exact Option.some.inj hother ▸ hop
  | succ j => exact hbefore j other (by omega) hother

end Operation

/-- Operations whose placeholders are scoped are all carried out, or those before the first that writes the column of the
identifier. -/
theorem Workspace.run_of_scoped (supply : RowIdSupply) {defined : List Placeholder} {ops : List Operation}
    (hscope : Transaction.scopeFault? defined ops = none) (w : Workspace) (index : Nat)
    (hnames : ∀ p ∈ defined, w.names.contains p = true) :
    ((∀ op ∈ ops, op.changesIdentifier = false) ∧ ∃ effects, (w.run supply index ops).1 = .ok effects) ∨
      ∃ i, Operation.FirstIdentifierChange ops i ∧ (w.run supply index ops).1 = .error ⟨some (index + i), .identifierChange⟩ := by
  induction ops generalizing defined w index with
  | nil => exact Or.inl ⟨fun op hop => (List.not_mem_nil hop).elim, [], rfl⟩
  | cons op rest ih =>
    obtain ⟨hop, hrest⟩ := Transaction.scopeFault?_cons_eq_none.mp hscope
    cases hid : op.changesIdentifier with
    | true =>
      refine Or.inr ⟨0, Operation.firstIdentifierChange_zero rest hid, ?_⟩
      rw [run, apply_error_of_changesIdentifier w hid]
      rfl
    | false =>
      have huses : ∀ p ∈ op.uses, w.names.contains p = true :=
        fun p hp => hnames p (Transaction.uses_of_operationFault?_eq_none hop p hp)
      obtain ⟨effect, w', hw'⟩ := apply_ok w hid huses
      have hnames' : ∀ p ∈ op.defined?.toList ++ defined, w'.names.contains p = true := by
        intro p hp
        exact names_apply hw' p ((List.mem_append.mp hp).imp_right (hnames p))
      rw [run, hw']
      rcases ih hrest w' (index + 1) hnames' with ⟨hall, effects, heffects⟩ | ⟨i, hfirst, herror⟩
      · refine Or.inl ⟨List.forall_mem_cons.mpr ⟨hid, hall⟩, effect :: effects, ?_⟩
        simp only [heffects]
        rfl
      · refine Or.inr ⟨i + 1, hfirst.cons hid, ?_⟩
        simp only [herror, Except.map]
        rw [Nat.add_assoc, Nat.add_comm 1 i]

end TableReplica
