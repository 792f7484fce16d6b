import TableReplica.Proofs.FilledOperations
import TableReplica.Proofs.ReadableEntries

/-!
# What placeholders stand for

A placeholder is the identifier of the row that its insert adds, wherever it is read. The reply to a transaction says so
(`Transaction.exists_inserted`), and the transaction in which every placeholder that is read has been replaced by what the reply says
does the same from the same state (`Server.placeholders_stand_for_rows`).
-/

namespace TableReplica

namespace Transaction

/-- The placeholders of a transaction are those that its operations define, in their order. -/
theorem map_fst_placeholders (ops : List Operation) :
    (ops.zipIdx.filterMap (fun e => e.1.defined?.map (·, e.2))).map (·.1) = ops.filterMap Operation.defined? := by
  rw [List.map_filterMap]
  have hfst : (fun e : Operation × Nat => (e.1.defined?.map (·, e.2)).map (·.1)) = Operation.defined? ∘ Prod.fst := by
    funext e
    rw [Function.comp_apply, Option.map_map]
    exact Option.map_id'
  rw [hfst, ← List.filterMap_map, List.zipIdx_map_fst]

variable {txn : Transaction} {p : Placeholder}

/-- A placeholder is one of the transaction when an operation of it defines it. -/
theorem contains_placeholders_iff : txn.placeholders.contains p = true ↔ p ∈ txn.operations.filterMap Operation.defined? := by
  have hkeys := map_fst_placeholders txn.operations
  rw [placeholders, SortedMap.contains_ofList_iff (hkeys ▸ nodup_defined txn.scopeFault?_operations), hkeys]

/-- A placeholder comes with the index of the insert that defines it. -/
theorem get?_placeholders_iff {i : Nat} :
    txn.placeholders.get? p = some i ↔ ∃ op, txn.operations[i]? = some op ∧ op.defined? = some p := by
  have hkeys := map_fst_placeholders txn.operations
  rw [placeholders, SortedMap.get?_ofList_eq_some_iff (hkeys ▸ nodup_defined txn.scopeFault?_operations), List.mem_filterMap]
  constructor
  · rintro ⟨⟨op, j⟩, hmem, hdefined⟩
    obtain ⟨q, hq, heq⟩ := Option.map_eq_some_iff.mp hdefined
    cases heq
    exact ⟨op, List.mk_mem_zipIdx_iff_getElem?.mp hmem, hq⟩
  · rintro ⟨op, hop, hdefined⟩
    exact ⟨(op, i), List.mk_mem_zipIdx_iff_getElem?.mpr hop, by rw [hdefined]; rfl⟩

section Run

variable {supply : RowIdSupply} {w last : Workspace} {effects : List Effect}

/-- No placeholder is assigned twice. -/
theorem nodup_assigned (h : w.run supply 0 txn.operations = (.ok effects, last)) :
    (((txn.operations.zip effects).filterMap assigned?).map (·.1)).Nodup := by
  rw [Workspace.map_assigned?_of_run h]
  exact nodup_defined txn.scopeFault?_operations

/-- After a run that goes through, exactly the placeholders of the transaction are assigned. -/
theorem contains_assignment (h : w.run supply 0 txn.operations = (.ok effects, last)) (p : Placeholder) :
    (txn.assignment effects).contains p = txn.placeholders.contains p := by
  rw [Bool.eq_iff_iff, contains_placeholders_iff, assignment, SortedMap.contains_ofList_iff (nodup_assigned h),
    Workspace.map_assigned?_of_run h]

/-- A placeholder stands for the identifier that its insert answered with. -/
theorem exists_inserted (h : w.run supply 0 txn.operations = (.ok effects, last)) {i : Nat} (hp : txn.placeholders.get? p = some i) :
    ∃ id, effects[i]? = some (.inserted id) ∧ (txn.assignment effects).get? p = some id := by
  obtain ⟨op, hop, hdefined⟩ := get?_placeholders_iff.mp hp
  obtain ⟨effect, heffect⟩ : ∃ effect, effects[i]? = some effect := by
    have hlt := (List.getElem?_eq_some_iff.mp hop).1
    rw [← Workspace.length_of_run h] at hlt
    exact ⟨_, List.getElem?_eq_getElem hlt⟩
  have hzip : (txn.operations.zip effects)[i]? = some (op, effect) := List.getElem?_zip_eq_some.mpr ⟨hop, heffect⟩
  have hassigned : (assigned? (op, effect)).map (·.1) = some p :=
    (Workspace.assigned?_of_mem_zip h _ (List.mem_of_getElem? hzip)).trans hdefined
  obtain ⟨pair, hpair, rfl⟩ := Option.map_eq_some_iff.mp hassigned
  have heq : effect = .inserted pair.2 := by
    unfold assigned? at hpair
    split at hpair
    · rename_i hsame
      cases hsame
      cases hpair
      rfl
    · cases hpair
  refine ⟨pair.2, by rw [heffect, heq], ?_⟩
  exact SortedMap.get?_ofList_of_mem (nodup_assigned h) (List.mem_filterMap.mpr ⟨_, List.mem_of_getElem? hzip, hpair⟩)

end Run

/-- Nothing is read any more when all that is defined is filled in. -/
theorem uses_eq_nil_of_mem_fill {known : Assignment} (h : ∀ p, txn.placeholders.contains p = true → known.contains p = true)
    {op : Operation} (hop : op ∈ (txn.fill known).operations) : op.uses = [] := by
  obtain ⟨op', hop', rfl⟩ := List.mem_map.mp hop
  rw [Operation.uses_fill, List.filter_eq_nil_iff]
  intro p hp
  have hdefined : p ∈ txn.operations.filterMap Operation.defined? :=
    (mem_of_uses txn.scopeFault?_operations hop' hp).resolve_left List.not_mem_nil
  rw [h p (contains_placeholders_iff.mpr hdefined)]
  decide

variable {supply : RowIdSupply} {s : Server} {effects : List Effect} {last : Workspace}

/-- The transaction does the same with its placeholders filled in, and gives them the same identifiers. -/
theorem run_fill_assignment (h : Workspace.run supply ⟨s.tables, ∅, s.drawn⟩ 0 txn.operations = (.ok effects, last)) :
    ∃ names, Workspace.run supply ⟨s.tables, ∅, s.drawn⟩ 0 (txn.fill (txn.assignment effects)).operations =
      (.ok effects, last.withNames names) := by
  have hknown : ∀ e ∈ (txn.operations.zip effects).filterMap assigned?, ∀ id, (txn.assignment effects).get? e.1 = some id → id = e.2 := by
    intro e he id hid
    rw [assignment, SortedMap.get?_ofList_of_mem (nodup_assigned h) (show (e.1, e.2) ∈ _ from he)] at hid
    exact (Option.some.inj hid).symm
  have hdefined : ∀ p ∈ ([] : List Placeholder),
      ((txn.assignment effects).get? p).or ((∅ : Assignment).get? p) = (∅ : Assignment).get? p := by
    intro p hp
    cases hp
  exact ⟨_, Workspace.run_fill txn.scopeFault?_operations hdefined h hknown 0⟩

/-- The inserts are those they were, so what they define is assigned as it was. -/
theorem assignment_fill (known : Assignment) (effects : List Effect) :
    (txn.fill known).assignment effects = txn.assignment effects := by
  have hsame : ∀ (op : Operation) (effect : Effect), assigned? (op.fill known, effect) = assigned? (op, effect) := by
    intro op effect
    cases op <;> rfl
  rw [assignment, assignment, show (txn.fill known).operations = txn.operations.map (·.fill known) from rfl, List.zip_map_left,
    List.filterMap_map]
  congr 1
  exact List.filterMap_congr (fun e _ => hsame e.1 e.2)

end Transaction

/-- The reply to a transaction that is carried out has an effect for each operation and an identifier for exactly the placeholders that
are defined, which is the one their insert answered with. With these identifiers in the place of all placeholders that are read, the
transaction is carried out with the same reply and to the same state. -/
theorem Server.placeholders_stand_for_rows (supply : RowIdSupply) (s s' : Server) (txn : Transaction) (reply : Reply)
    (h : Executor.submit (transact supply) s txn = (.ok reply, s')) :
    reply.effects.length = txn.size ∧
      (∀ p, reply.assignment.contains p = txn.placeholders.contains p) ∧
      (∀ p i, txn.placeholders.get? p = some i →
        ∃ id, reply.effects[i]? = some (.inserted id) ∧ reply.assignment.get? p = some id) ∧
      (∀ op ∈ (txn.fill reply.assignment).operations, op.uses = []) ∧
      Executor.submit (transact supply) s (txn.fill reply.assignment) = (.ok reply, s') := by
  obtain ⟨htransact, hlength, hassignment⟩ := Executor.submit_eq_ok_iff.mp h
  obtain ⟨harmed, last, hrun, hsound, hs'⟩ := transact_eq_ok_iff.mp htransact
  have hcontains : ∀ p, reply.assignment.contains p = txn.placeholders.contains p := by
    intro p
    rw [hassignment, Transaction.contains_assignment hrun]
  refine ⟨hlength, hcontains, ?_, ?_, ?_⟩
  · intro p i hp
    rw [hassignment]
    exact Transaction.exists_inserted hrun hp
  · intro op hop
    exact Transaction.uses_eq_nil_of_mem_fill (fun p hp => (hcontains p).trans hp) hop
  · obtain ⟨names, hfilled⟩ := Transaction.run_fill_assignment hrun
    rw [← hassignment] at hfilled
    refine Executor.submit_eq_ok_iff.mpr ⟨transact_eq_ok_iff.mpr ⟨harmed, _, hfilled, hsound, hs'⟩, ?_, ?_⟩
    · rw [hlength, Transaction.size, Transaction.size, Transaction.fill, List.length_map]
    · rw [Transaction.assignment_fill, hassignment]

/-- A port and a switch are inserted, and the port is put among the ports of the switch, both by their placeholders. -/
def Transaction.switchWithPort : Transaction where
  operations := [
    .insert "Logical_Switch_Port" (.ofList [("name", .string "p")]) (some ⟨"row_p", by decide⟩),
    .insert "Logical_Switch" (.ofList [("name", .string "s")]) (some ⟨"row_s", by decide⟩),
    .mutate "Logical_Switch" "ports" .insert (.reference (.named ⟨"row_p", by decide⟩)) [.isRow (.named ⟨"row_s", by decide⟩)]]
  wellScoped := by decide

/-- An empty server carries it out, and the port is found where its placeholder stood. -/
theorem Server.carriesOut_switchWithPort :
    ∃ reply s', Executor.submit (transact (Draws.rowIds 0)) empty .switchWithPort = (.ok reply, s') ∧
      reply.assignment.get? ⟨"row_p", by decide⟩ = some (Draws.rowIds 0 0) ∧
      Executor.submit (transact (Draws.rowIds 0)) empty (Transaction.switchWithPort.fill reply.assignment) = (.ok reply, s') := by
  have hdone : (Executor.submit (transact (Draws.rowIds 0)) empty .switchWithPort).1.isOk = true := by decide +kernel
  have hport : (Executor.submit (transact (Draws.rowIds 0)) empty .switchWithPort).1.toOption.bind (·.effects[0]?) =
      some (.inserted (Draws.rowIds 0 0)) := by decide +kernel
  obtain ⟨reply, hreply⟩ := Except.isOk_iff.mp hdone
  have h : Executor.submit (transact (Draws.rowIds 0)) empty .switchWithPort =
      (.ok reply, (Executor.submit (transact (Draws.rowIds 0)) empty .switchWithPort).2) := Prod.ext hreply rfl
  obtain ⟨-, -, hplaceholders, -, hfilled⟩ := placeholders_stand_for_rows (Draws.rowIds 0) empty _ .switchWithPort reply h
  obtain ⟨id, heffect, hassigned⟩ := hplaceholders ⟨"row_p", by decide⟩ 0 (by decide)
  rw [hreply] at hport
  have heffect' : some (Effect.inserted id) = some (.inserted (Draws.rowIds 0 0)) := heffect.symm.trans hport
  cases heffect'
  exact ⟨reply, _, h, hassigned, hfilled⟩

end TableReplica
