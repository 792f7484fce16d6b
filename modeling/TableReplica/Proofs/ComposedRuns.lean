import TableReplica.Proofs.TableRows
import TableReplica.Proofs.Submission

/-!
# What composed transactions do

An intent becomes one transaction of one or two operations. What such a transaction leaves behind is told row by row: the rows it is
about, and all others as they were.
-/

namespace TableReplica

/-- A list makes the transaction that has it as its operations, and no other. -/
theorem Transaction.ofList_eq_ok_iff {ops : List Operation} {txn : Transaction} : ofList ops = .ok txn ↔ txn.operations = ops := by
  constructor
  · intro h
    unfold ofList at h
    split at h
    · cases h
    · cases h
      rfl
  · rintro rfl
    rw [ofList]
    split
    · rename_i fault hfault
      rw [txn.wellScoped] at hfault
      cases hfault
    · rfl

/-- Operations are composed to the transaction that has them, and no other. -/
theorem Transaction.compose_eq_ok_iff {ops : List Operation} {txn : Transaction} : compose ops = .ok txn ↔ txn.operations = ops := by
  rw [← ofList_eq_ok_iff, compose]
  exact asError_eq_ok_iff

/-- Operations without a fault make a transaction. -/
theorem Transaction.compose_of_fault?_eq_none {ops : List Operation} (h : fault? ops = none) : compose ops = .ok ⟨ops, h⟩ :=
  compose_eq_ok_iff.mpr rfl

/-- An insertion comes first in its transaction, under the name that the rest refers to it by. -/
theorem NameSupply.operations_of_insertion {names : NameSupply} {table : String} {row : Row}
    {rest : Placeholder → List Operation} {ins : Insertion} (h : (names.insertion table row rest).1 = .ok ins) :
    ins.transaction.operations = .insert table row (some ins.name) :: rest ins.name := by
  obtain ⟨txn, htxn, rfl⟩ := map_eq_ok_iff.mp h
  exact Transaction.compose_eq_ok_iff.mp htxn

namespace Server

variable (supply : RowIdSupply) (s : Server) {txn : Transaction}

/-- A transaction of one insertion adds one row, with the identifier drawn next. -/
theorem worked_insert {table : String} {row : Row} {name : Option Placeholder} (h : txn.operations = [.insert table row name]) :
    s.worked supply txn = (⟨s.tables, ∅, s.drawn⟩ : Workspace).addRow table (supply s.drawn) row name := by
  rw [worked, h]
  rfl

/-- A transaction that inserts a row and links it adds the row, then the link to its identifier in the holder. -/
theorem worked_insert_attach {table : String} {row : Row} {name : Placeholder} {parent : Parent} {holder : RowId}
    (h : txn.operations = [.insert table row (some name), .attach parent holder (.named name)]) :
    s.worked supply txn =
      let w := (⟨s.tables, ∅, s.drawn⟩ : Workspace).addRow table (supply s.drawn) row (some name)
      w.revise parent.table ((w.tables.rows parent.table).only holder)
        (fun row => some (row.mutate parent.column .insert (.uuid (supply s.drawn)))) := by
  have hname : Operand.resolve ((⟨s.tables, ∅, s.drawn⟩ : Workspace).addRow table (supply s.drawn) row (some name)).names
      (.reference (.named name)) = .ok (.uuid (supply s.drawn)) := by
    have hget : ((⟨s.tables, ∅, s.drawn⟩ : Workspace).addRow table (supply s.drawn) row (some name)).names.get? name =
        some (supply s.drawn) := SortedMap.get?_insert_self _ _ _
    simp only [Operand.resolve, hget]
  rw [worked, h, Workspace.run, Workspace.apply]
  simp only [Workspace.run, Operation.attach, Workspace.apply_mutate_isRow supply _ _ _ _ hname]

/-- A transaction that detaches a child and deletes it takes the link out of the holder, then the child out of its table. -/
theorem worked_detach_delete {table : String} {parent : Parent} {holder child : RowId}
    (h : txn.operations = [.detach parent holder child, .delete table [.isRow (.resolved child)]]) :
    s.worked supply txn =
      let w := (⟨s.tables, ∅, s.drawn⟩ : Workspace).revise parent.table ((s.tables.rows parent.table).only holder)
        (fun row => some (row.mutate parent.column .delete (.uuid child)))
      w.revise table ((w.tables.rows table).only child) (fun _ => none) := by
  have hchild : Operand.resolve (∅ : Assignment) (.reference (.resolved child)) = .ok (.uuid child) := rfl
  rw [worked, h]
  simp only [Workspace.run, Operation.detach,
    Workspace.apply_mutate_isRow supply (⟨s.tables, ∅, s.drawn⟩ : Workspace) _ _ _ hchild, Workspace.apply_delete_isRow]

/-- A transaction of one deletion takes one row out of its table. -/
theorem worked_delete {table : String} {id : RowId} (h : txn.operations = [.delete table [.isRow (.resolved id)]]) :
    s.worked supply txn =
      (⟨s.tables, ∅, s.drawn⟩ : Workspace).revise table ((s.tables.rows table).only id) (fun _ => none) := by
  rw [worked, h]
  simp only [Workspace.run, Workspace.apply_delete_isRow]

/-! ## Row by row -/

variable {supply s} {table : String} {row : Row} {parent : Parent} {holder child : RowId}

/-- A transaction of one insertion draws one identifier. -/
theorem drawn_worked_insert {name : Option Placeholder} (h : txn.operations = [.insert table row name]) :
    (s.worked supply txn).drawn = s.drawn + 1 := by
  rw [worked_insert supply s h]
  rfl

/-- All that a transaction of one insertion does to the tables is to add the row. -/
theorem gains_worked_insert {name : Option Placeholder} (h : txn.operations = [.insert table row name]) :
    s.tables.Gains (s.worked supply txn).tables table (supply s.drawn) row := by
  intro table' id'
  rw [worked_insert supply s h]
  exact Workspace.row?_addRow _ table table' _ id' row name

/-- A transaction that inserts a row and links it draws one identifier. -/
theorem drawn_worked_insert_attach {name : Placeholder}
    (h : txn.operations = [.insert table row (some name), .attach parent holder (.named name)]) :
    (s.worked supply txn).drawn = s.drawn + 1 := by
  rw [worked_insert_attach supply s h]
  rfl

/-- All that a transaction that inserts a row and links it does to the tables is to add the row under its parent. -/
theorem gains_worked_insert_attach (hne : table ≠ parent.table) {name : Placeholder}
    (h : txn.operations = [.insert table row (some name), .attach parent holder (.named name)]) :
    s.tables.GainsUnder (s.worked supply txn).tables table (supply s.drawn) row parent holder := by
  intro table' id'
  rw [worked_insert_attach supply s h, Workspace.row?_revise_only, Workspace.row?_addRow]
  by_cases hchild : table = table' ∧ supply s.drawn = id'
  · have hparent : ¬(parent.table = table' ∧ holder = id') := fun hp => hne (hchild.1.trans hp.1.symm)
    rw [if_neg hparent, if_pos hchild, if_pos hchild]
  · rw [if_neg hchild, if_neg hchild, Option.map_eq_bind]
    rfl

/-- All that a transaction that detaches a child and deletes it does to the tables is to take the child from under its parent. -/
theorem loses_worked_detach_delete
    (h : txn.operations = [.detach parent holder child, .delete table [.isRow (.resolved child)]]) :
    s.tables.LosesUnder (s.worked supply txn).tables table child parent holder := by
  intro table' id'
  rw [worked_detach_delete supply s h, Workspace.row?_revise_only, Workspace.row?_revise_only]
  by_cases hchild : table = table' ∧ child = id'
  · rw [if_pos hchild, if_pos hchild]
    split <;> exact Option.bind_fun_none _
  · rw [if_neg hchild, if_neg hchild, Option.map_eq_bind]
    rfl

/-- All that a transaction of one deletion does to the tables is to take the row away. -/
theorem loses_worked_delete {id : RowId} (h : txn.operations = [.delete table [.isRow (.resolved id)]]) :
    s.tables.Loses (s.worked supply txn).tables table id := by
  intro table' id'
  rw [worked_delete supply s h, Workspace.row?_revise_only]
  split
  · exact Option.bind_fun_none _
  · rfl

end Server

end TableReplica
