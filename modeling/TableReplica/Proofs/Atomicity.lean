import TableReplica.Proofs.References
import TableReplica.Proofs.Scoping
import TableReplica.Server.Basic

/-!
# Atomicity

A transaction is refused for one of three reasons: the server was armed, an operation writes the column of the identifier, or the
tables would dangle (`Server.Refuses`). These are all the reasons there are, each of them suffices, and a refusal leaves no trace
in the tables or on the feed (`Server.transact_exact`).
-/

namespace TableReplica.Server

/-- The work on a transaction, as far as its operations were carried out. -/
def worked (supply : RowIdSupply) (s : Server) (txn : Transaction) : Workspace :=
  (Workspace.run supply ⟨s.tables, ∅, s.drawn⟩ 0 txn.operations).2

/-- Why a server refuses a transaction. -/
inductive Refuses (supply : RowIdSupply) (s : Server) (txn : Transaction) : Refusal → Prop where
  | armed {refusal : Refusal} (h : s.armed = some refusal) : Refuses supply s txn refusal
  /-- The operation to blame is the first that writes the column of the identifier. -/
  | identifierChange {i : Nat} (unarmed : s.armed = none) (first : Operation.FirstIdentifierChange txn.operations i) :
      Refuses supply s txn ⟨some i, .identifierChange⟩
  /-- All operations are carried out, and no operation is to blame. -/
  | dangling {table : String} {id target : RowId} (unarmed : s.armed = none)
      (keeps : ∀ op ∈ txn.operations, op.changesIdentifier = false)
      (dangles : (s.worked supply txn).tables.Dangles table id target) :
      Refuses supply s txn ⟨none, .danglingReference table id target⟩

/-- A server that is not armed carries out all operations, or blames the first that writes the column of the identifier. -/
theorem run_transaction (supply : RowIdSupply) (s : Server) (txn : Transaction) :
    (∃ i, Operation.FirstIdentifierChange txn.operations i ∧
      Workspace.run supply ⟨s.tables, ∅, s.drawn⟩ 0 txn.operations =
        (.error ⟨some i, .identifierChange⟩, s.worked supply txn)) ∨
    ((∀ op ∈ txn.operations, op.changesIdentifier = false) ∧
      ∃ effects, Workspace.run supply ⟨s.tables, ∅, s.drawn⟩ 0 txn.operations = (.ok effects, s.worked supply txn)) := by
  have hnames : ∀ p ∈ ([] : List Placeholder), (∅ : Assignment).contains p = true := fun p hp => (List.not_mem_nil hp).elim
  rcases Workspace.run_of_scoped supply txn.scopeFault?_operations ⟨s.tables, ∅, s.drawn⟩ 0 hnames with
    ⟨hkeeps, effects, heffects⟩ | ⟨i, hfirst, herror⟩
  · exact Or.inr ⟨hkeeps, effects, Prod.ext heffects rfl⟩
  · rw [Nat.zero_add] at herror
    exact Or.inl ⟨i, hfirst, Prod.ext herror rfl⟩

/-- A transaction is carried out exactly when the server is not armed, all operations are carried out, and nothing dangles after them. -/
theorem transact_eq_ok_iff {supply : RowIdSupply} {s s' : Server} {txn : Transaction} {effects : List Effect} :
    s.transact supply txn = (.ok effects, s') ↔
      s.armed = none ∧ ∃ last, Workspace.run supply ⟨s.tables, ∅, s.drawn⟩ 0 txn.operations = (.ok effects, last) ∧
        last.tables.dangling? = none ∧ s' = { s with drawn := last.drawn }.commit last.tables := by
  rw [transact]
  cases harmed : s.armed with
  | some refusal =>
    constructor
    · intro h
      cases h
    · rintro ⟨h, -⟩
      cases h
  | none =>
    simp only [execute]
    constructor
    · intro h
      split at h
      · cases h
      · cases h
      · rename_i houtcome hsound
        cases h
        exact ⟨trivial, _, Prod.ext houtcome rfl, hsound, by rw [harmed]⟩
    · rintro ⟨-, last, hrun, hsound, rfl⟩
      simp only [hrun, hsound, harmed]

/-- Operations one of which changes an identifier do not all keep identifiers. -/
theorem not_keeps_of_firstIdentifierChange {ops : List Operation} {i : Nat} (h : Operation.FirstIdentifierChange ops i) :
    ¬∀ op ∈ ops, op.changesIdentifier = false := by
  obtain ⟨⟨op, hop, hchanges⟩, -⟩ := h
  intro hkeeps
  rw [hkeeps op (List.mem_of_getElem? hop)] at hchanges
  cases hchanges

/-- The answers to a transaction: a refusal for a reason, or all that it does. -/
theorem transact_cases (supply : RowIdSupply) (s : Server) (txn : Transaction) :
    (∃ refusal drawn armed, s.Refuses supply txn refusal ∧
      s.transact supply txn = (.error refusal, { s with drawn := drawn, armed := armed })) ∨
    ∃ effects, (∀ refusal, ¬s.Refuses supply txn refusal) ∧
      (∀ table id target, ¬(s.worked supply txn).tables.Dangles table id target) ∧
      Workspace.run supply ⟨s.tables, ∅, s.drawn⟩ 0 txn.operations = (.ok effects, s.worked supply txn) ∧
      s.transact supply txn = (.ok effects, { s with drawn := (s.worked supply txn).drawn }.commit (s.worked supply txn).tables) := by
  cases harmed : s.armed with
  | some refusal => exact Or.inl ⟨refusal, s.drawn, none, .armed harmed, by rw [transact, harmed]⟩
  | none =>
    rw [transact, harmed]
    rcases run_transaction supply s txn with ⟨i, hfirst, hrun⟩ | ⟨hkeeps, effects, hrun⟩
    · refine Or.inl ⟨_, (s.worked supply txn).drawn, none, .identifierChange harmed hfirst, ?_⟩
      simp only [execute, hrun, harmed]
    · cases hcause : (s.worked supply txn).tables.dangling? with
      | some cause =>
        obtain ⟨table, id, target, hdangles, rfl⟩ := Tables.of_dangling?_eq_some hcause
        refine Or.inl ⟨_, (s.worked supply txn).drawn, none, .dangling harmed hkeeps hdangles, ?_⟩
        simp only [execute, hrun, hcause, harmed]
      | none =>
        have hsound := (Tables.dangling?_eq_none_iff _).mp hcause
        refine Or.inr ⟨effects, ?_, hsound, hrun, by simp only [execute, hrun, hcause, harmed]⟩
        rintro refusal (harmed' | ⟨-, hfirst⟩ | ⟨-, -, hdangles⟩)
        · rw [harmed] at harmed'
          cases harmed'
        · exact not_keeps_of_firstIdentifierChange hfirst hkeeps
        · exact hsound _ _ _ hdangles

/-- A transaction is refused exactly for the reasons there are, and never because of a placeholder. A refused one changes no table and
tells nothing; one that is carried out leaves the tables as its operations do, tells what is between, and nothing dangles. -/
theorem transact_exact (supply : RowIdSupply) (s : Server) (txn : Transaction) :
    (∀ refusal, (s.transact supply txn).1 = .error refusal →
      s.Refuses supply txn refusal ∧ (s.transact supply txn).2.tables = s.tables ∧ (s.transact supply txn).2.feed = s.feed) ∧
    ((∃ refusal, s.Refuses supply txn refusal) → ∃ refusal, (s.transact supply txn).1 = .error refusal) ∧
    (s.armed = none → ∀ index name, (s.transact supply txn).1 ≠ .error ⟨index, .unknownPlaceholder name⟩) ∧
    ∀ effects, (s.transact supply txn).1 = .ok effects →
      (s.transact supply txn).2.tables = (s.worked supply txn).tables ∧
      (s.transact supply txn).2.feed = s.feed.publish (.between s.tables (s.worked supply txn).tables) ∧
      ∀ table id target, ¬(s.transact supply txn).2.tables.Dangles table id target := by
  rcases transact_cases supply s txn with ⟨refusal, drawn, armed, hrefuses, htransact⟩ | ⟨effects, hnone, hsound, -, htransact⟩
  · rw [htransact]
    refine ⟨?_, fun _ => ⟨refusal, rfl⟩, ?_, ?_⟩
    · intro refusal' h
      cases h
      exact ⟨hrefuses, rfl, rfl⟩
    · intro hready index name h
      cases h
      cases hrefuses with
      | armed h =>
        rw [hready] at h
        cases h
    · intro effects h
      cases h
  · rw [htransact]
    refine ⟨?_, ?_, ?_, ?_⟩
    · intro refusal h
      cases h
    · rintro ⟨refusal, hrefuses⟩
      exact (hnone refusal hrefuses).elim
    · intro _ index name h
      cases h
    · intro effects' _
      exact ⟨rfl, rfl, hsound⟩

end TableReplica.Server
