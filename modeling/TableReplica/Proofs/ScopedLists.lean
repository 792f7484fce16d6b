import TableReplica.Proofs.ComposedRuns
import TableReplica.Proofs.Placeholders

/-!
# Well-scoped lists

A list of operations is checked in one pass that carries along what has been defined so far. What the pass accepts can be said without it,
by the places of the operations in the list (`Operation.WellScoped`): each placeholder has one insert at most, and where it is read its
insert stands further to the front. A list is a transaction exactly when it is so (`Transaction.exists_ofList_iff_wellScoped`).

Transactions are merged by putting their operations one after the other. Each of them defines all it reads, so none captures a
placeholder of another, and the only fault that the whole can have is that two of them define the same placeholder
(`Transaction.exists_merge_iff`).
-/

namespace TableReplica

namespace Operation

/-- The operation is an insert that defines the placeholder. -/
def Defines (op : Operation) (p : Placeholder) : Prop := ∃ table row, op = .insert table row (some p)

/-- A condition of the operation compares with the placeholder, or the operation is a mutation by it. -/
def Reads (op : Operation) (p : Placeholder) : Prop :=
  (∃ c ∈ op.filter, c.operand = .reference (.named p)) ∨
    ∃ table column mutator filter, op = .mutate table column mutator (.reference (.named p)) filter

/-- The placeholders of a list are scoped, and every operation says which rows of which table it is about. -/
structure WellScoped (ops : List Operation) : Prop where
  nonempty : ops ≠ []
  tables : ∀ op ∈ ops, op.table ≠ ""
  filtered : ∀ op ∈ ops, op.changesMatches = true → op.filter ≠ []
  definedOnce : ∀ (i j : Nat) (op op' : Operation) (p : Placeholder), ops[i]? = some op → ops[j]? = some op' → op.Defines p →
    op'.Defines p → i = j
  readAfter : ∀ (j : Nat) (op : Operation) (p : Placeholder), ops[j]? = some op → op.Reads p →
    ∃ i op', i < j ∧ ops[i]? = some op' ∧ op'.Defines p

variable {op : Operation} {p : Placeholder}

theorem defined?_eq_some_iff : op.defined? = some p ↔ op.Defines p := by
  cases op with
  | insert table row name =>
    constructor
    · rintro rfl
      exact ⟨table, row, rfl⟩
    · rintro ⟨table', row', heq⟩
      exact (insert.inj heq).2.2
  | _ => exact ⟨nofun, fun ⟨_, _, heq⟩ => nomatch heq⟩

theorem placeholder?_operand_eq_some_iff {operand : Operand} : operand.placeholder? = some p ↔ operand = .reference (.named p) := by
  constructor
  · intro h
    cases operand with
    | plain v => cases h
    | reference ref =>
      cases ref with
      | resolved id => cases h
      | named q =>
        cases h
        rfl
  · rintro rfl
    rfl

/-- What is collected from an operation is what it reads. -/
theorem mem_uses_iff : p ∈ op.uses ↔ op.Reads p := by
  unfold uses Reads
  rw [List.mem_append]
  refine or_congr ?_ ?_
  · rw [List.mem_filterMap]
    simp only [placeholder?_operand_eq_some_iff]
  · cases op with
    | mutate table column mutator operand filter =>
      rw [Option.mem_toList, placeholder?_operand_eq_some_iff]
      constructor
      · rintro rfl
        exact ⟨table, column, mutator, filter, rfl⟩
      · rintro ⟨_, _, _, _, heq⟩
        exact (mutate.inj heq).2.2.2.1
    | _ => exact ⟨nofun, fun ⟨_, _, _, _, heq⟩ => nomatch heq⟩

/-- A list is well scoped when the given placeholders are defined before it. This is what the pass keeps while it goes through a list. -/
structure ScopedAfter (defined : List Placeholder) (ops : List Operation) : Prop where
  tables : ∀ op ∈ ops, op.table ≠ ""
  filtered : ∀ op ∈ ops, op.changesMatches = true → op.filter ≠ []
  fresh : ∀ op ∈ ops, ∀ p, op.Defines p → p ∉ defined
  definedOnce : ∀ (i j : Nat) (op op' : Operation) (p : Placeholder), ops[i]? = some op → ops[j]? = some op' → op.Defines p →
    op'.Defines p → i = j
  readAfter : ∀ (j : Nat) (op : Operation) (p : Placeholder), ops[j]? = some op → op.Reads p →
    p ∈ defined ∨ ∃ i op', i < j ∧ ops[i]? = some op' ∧ op'.Defines p

/-- A list is well scoped when it has operations and these are scoped after nothing. -/
theorem wellScoped_iff_scopedAfter {ops : List Operation} : WellScoped ops ↔ ops ≠ [] ∧ ScopedAfter [] ops := by
  constructor
  · intro h
    exact ⟨h.nonempty, h.tables, h.filtered, fun _ _ _ _ => List.not_mem_nil, h.definedOnce,
      fun j op p hop hreads => Or.inr (h.readAfter j op p hop hreads)⟩
  · rintro ⟨hne, h⟩
    exact ⟨hne, h.tables, h.filtered, h.definedOnce,
      fun j op p hop hreads => (h.readAfter j op p hop hreads).resolve_left List.not_mem_nil⟩

theorem scopedAfter_nil (defined : List Placeholder) : ScopedAfter defined [] where
  tables := nofun
  filtered := nofun
  fresh := nofun
  definedOnce := nofun
  readAfter := nofun

variable {defined : List Placeholder} {rest : List Operation}

/-- After an operation there is defined what it defines and what was defined before. -/
theorem mem_defined?_append_iff : p ∈ op.defined?.toList ++ defined ↔ op.Defines p ∨ p ∈ defined := by
  rw [List.mem_append, Option.mem_toList, defined?_eq_some_iff]

/-- The first operation reads what is defined before the list and defines what is not. -/
theorem ScopedAfter.operationFault?_eq_none (h : ScopedAfter defined (op :: rest)) : Transaction.operationFault? defined op = none := by
  rw [Transaction.operationFault?_eq_none_iff]
  refine ⟨?_, ?_, ?_, ?_⟩
  · have htable := h.tables op List.mem_cons_self
    rwa [← Bool.not_eq_true, String.isEmpty_iff]
  · intro p hp
    rcases h.readAfter 0 op p rfl (mem_uses_iff.mp hp) with hp | ⟨i, _, hi, _⟩
    · exact hp
    · omega
  · intro p hp
    exact h.fresh op List.mem_cons_self p (defined?_eq_some_iff.mp hp)
  · have hfilter := h.filtered op List.mem_cons_self
    rwa [← Bool.not_eq_true, Bool.and_eq_true, List.isEmpty_iff, not_and]

/-- The others come after what the first defines. -/
theorem ScopedAfter.tail (h : ScopedAfter defined (op :: rest)) : ScopedAfter (op.defined?.toList ++ defined) rest where
  tables := fun op' hop' => h.tables op' (List.mem_cons_of_mem op hop')
  filtered := fun op' hop' => h.filtered op' (List.mem_cons_of_mem op hop')
  fresh := by
    intro op' hop' p hdefines hp
    obtain ⟨i, hi⟩ := List.getElem?_of_mem hop'
    rcases mem_defined?_append_iff.mp hp with hfirst | hp
    · have := h.definedOnce 0 (i + 1) op op' p rfl hi hfirst hdefines
      omega
    · exact h.fresh op' (List.mem_cons_of_mem op hop') p hdefines hp
  definedOnce := by
    intro i j op₁ op₂ p hi hj h₁ h₂
    have := h.definedOnce (i + 1) (j + 1) op₁ op₂ p hi hj h₁ h₂
    omega
  readAfter := by
    intro j op' p hop' hreads
    rcases h.readAfter (j + 1) op' p hop' hreads with hp | ⟨i, op₁, hi, hop₁, hdefines⟩
    · exact Or.inl (List.mem_append_right _ hp)
    · cases i with
      | zero =>
        cases hop₁
        exact Or.inl (mem_defined?_append_iff.mpr (Or.inl hdefines))
      | succ i => exact Or.inr ⟨i, op₁, by omega, hop₁, hdefines⟩

/-- An operation without a fault, before a list that is scoped after it, makes a scoped list. -/
theorem ScopedAfter.cons (hop : Transaction.operationFault? defined op = none)
    (h : ScopedAfter (op.defined?.toList ++ defined) rest) : ScopedAfter defined (op :: rest) := by
  obtain ⟨htable, huses, hdefined, hfilter⟩ := Transaction.operationFault?_eq_none_iff.mp hop
  have hfresh : ∀ op' ∈ rest, ∀ p, op'.Defines p → ¬op.Defines p ∧ p ∉ defined := by
    intro op' hop' p hdefines
    have hnot := h.fresh op' hop' p hdefines
    rwa [mem_defined?_append_iff, not_or] at hnot
  refine ⟨List.forall_mem_cons.mpr ⟨?_, h.tables⟩, List.forall_mem_cons.mpr ⟨?_, h.filtered⟩,
    List.forall_mem_cons.mpr ⟨?_, ?_⟩, ?_, ?_⟩
  · rwa [← Bool.not_eq_true, String.isEmpty_iff] at htable
  · rwa [← Bool.not_eq_true, Bool.and_eq_true, List.isEmpty_iff, not_and] at hfilter
  · exact fun p hp => hdefined p (defined?_eq_some_iff.mpr hp)
  · exact fun op' hop' p hdefines => (hfresh op' hop' p hdefines).2
  · intro i j op₁ op₂ p hi hj h₁ h₂
    cases i with
    | zero =>
      cases hi
      cases j with
      | zero => rfl
      | succ j => exact ((hfresh op₂ (List.mem_of_getElem? hj) p h₂).1 h₁).elim
    | succ i =>
      cases j with
      | zero =>
        cases hj
        exact ((hfresh op₁ (List.mem_of_getElem? hi) p h₁).1 h₂).elim
      | succ j => rw [h.definedOnce i j op₁ op₂ p hi hj h₁ h₂]
  · intro j op' p hop' hreads
    cases j with
    | zero =>
      cases hop'
      exact Or.inl (huses p (mem_uses_iff.mpr hreads))
    | succ j =>
      rcases h.readAfter j op' p hop' hreads with hp | ⟨i, op₁, hi, hop₁, hdefines⟩
      · rcases mem_defined?_append_iff.mp hp with hfirst | hp
        · exact Or.inr ⟨0, op, by omega, rfl, hfirst⟩
        · exact Or.inl hp
      · exact Or.inr ⟨i + 1, op₁, by omega, hop₁, hdefines⟩

end Operation

namespace Transaction

/-- The pass finds no fault in a list exactly when it is well scoped after what is already defined. -/
theorem scopeFault?_eq_none_iff_scopedAfter {defined : List Placeholder} {ops : List Operation} :
    scopeFault? defined ops = none ↔ Operation.ScopedAfter defined ops := by
  induction ops generalizing defined with
  | nil => exact ⟨fun _ => Operation.scopedAfter_nil defined, fun _ => rfl⟩
  | cons op rest ih =>
    rw [scopeFault?_cons_eq_none, ih]
    exact ⟨fun ⟨hop, hrest⟩ => hrest.cons hop, fun h => ⟨h.operationFault?_eq_none, h.tail⟩⟩

/-- A list has no fault when it has operations and none of them is at fault. -/
theorem fault?_eq_none_iff {ops : List Operation} : fault? ops = none ↔ ops ≠ [] ∧ scopeFault? [] ops = none := by
  cases ops with
  | nil => exact ⟨nofun, fun h => (h.1 rfl).elim⟩
  | cons op rest => exact (and_iff_right (List.cons_ne_nil op rest)).symm

/-- A list makes a transaction exactly when it has no fault. -/
theorem exists_ofList_iff_fault? {ops : List Operation} : (∃ txn, ofList ops = .ok txn) ↔ fault? ops = none := by
  constructor
  · rintro ⟨txn, htxn⟩
    rw [← ofList_eq_ok_iff.mp htxn]
    exact txn.wellScoped
  · intro h
    exact ⟨⟨ops, h⟩, ofList_eq_ok_iff.mpr rfl⟩

/-- The operations that make a transaction are the lists that are well scoped, and the transaction holds them as they are. -/
theorem exists_ofList_iff_wellScoped (ops : List Operation) :
    ((∃ txn, ofList ops = .ok txn) ↔ Operation.WellScoped ops) ∧ ∀ txn, ofList ops = .ok txn → txn.operations = ops := by
  refine ⟨?_, fun txn => ofList_eq_ok_iff.mp⟩
  rw [exists_ofList_iff_fault?, fault?_eq_none_iff, scopeFault?_eq_none_iff_scopedAfter, Operation.wellScoped_iff_scopedAfter]

end Transaction

end TableReplica

namespace TableReplica.Transaction

/-! ## Parts of a merged transaction -/

/-- No placeholder is defined in both. -/
def Apart (a b : Transaction) : Prop := ∀ p, a.placeholders.contains p = true → b.placeholders.contains p = false

variable {a b : Transaction} {parts : List Transaction}

/-- Transactions are apart when no placeholder is defined by both. -/
theorem apart_iff : Apart a b ↔ ∀ p ∈ a.operations.filterMap Operation.defined?, p ∉ b.operations.filterMap Operation.defined? := by
  refine forall_congr' (fun p => ?_)
  rw [contains_placeholders_iff, ← Bool.not_eq_true, contains_placeholders_iff]

/-- To be apart is mutual. -/
theorem Apart.symm (h : Apart a b) : Apart b a := by
  rw [apart_iff] at h ⊢
  exact fun p hb ha => h p ha hb

theorem operations_ne_nil (txn : Transaction) : txn.operations ≠ [] := (fault?_eq_none_iff.mp txn.wellScoped).1

/-- Some transactions together have operations. -/
theorem flatMap_operations_ne_nil (h : parts ≠ []) : parts.flatMap (·.operations) ≠ [] := by
  obtain ⟨part, rest, rfl⟩ := List.exists_cons_of_ne_nil h
  rw [List.flatMap_cons]
  exact List.append_ne_nil_of_left_ne_nil part.operations_ne_nil _

/-- Some transactions together define what each of them defines. -/
theorem filterMap_defined?_flatMap :
    (parts.flatMap (·.operations)).filterMap Operation.defined? = parts.flatMap (·.operations.filterMap Operation.defined?) :=
  List.filterMap_flatMap

/-- Parts that define no common placeholder are scoped one after the other. -/
theorem scopeFault?_flatMap (h : parts.Pairwise Apart) : scopeFault? [] (parts.flatMap (·.operations)) = none := by
  induction parts with
  | nil => rfl
  | cons part rest ih =>
    obtain ⟨hpart, hrest⟩ := List.pairwise_cons.mp h
    rw [List.flatMap_cons]
    refine scopeFault?_append part.scopeFault?_operations (ih hrest) (fun _ _ => List.not_mem_nil) ?_
    intro p hp hin
    rw [filterMap_defined?_flatMap, List.mem_flatMap] at hp
    obtain ⟨other, hother, hp⟩ := hp
    exact apart_iff.mp (hpart other hother) p hin hp

/-- Where no placeholder is defined twice, none is defined in two of the parts. -/
theorem pairwise_apart_of_scopeFault? (h : scopeFault? [] (parts.flatMap (·.operations)) = none) : parts.Pairwise Apart := by
  have hnodup := nodup_defined h
  rw [filterMap_defined?_flatMap, List.Nodup, List.pairwise_flatMap] at hnodup
  exact hnodup.2.imp (fun hdistinct => apart_iff.mpr (fun p ha hb => hdistinct p ha p hb rfl))

/-- Parts are merged exactly if there are any and no two of them define the same placeholder. -/
theorem exists_merge_iff : (∃ merged, merge parts = .ok merged) ↔ parts ≠ [] ∧ parts.Pairwise Apart := by
  rw [merge, exists_ofList_iff_fault?, fault?_eq_none_iff]
  constructor
  · rintro ⟨hne, hscope⟩
    refine ⟨?_, pairwise_apart_of_scopeFault? hscope⟩
    rintro rfl
    exact hne rfl
  · rintro ⟨hne, hapart⟩
    exact ⟨flatMap_operations_ne_nil hne, scopeFault?_flatMap hapart⟩

end TableReplica.Transaction
