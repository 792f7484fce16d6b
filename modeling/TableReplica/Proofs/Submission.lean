import TableReplica.Proofs.Atomicity
import TableReplica.Client.Feed

/-!
# Submitting to a server

What a submission does to a session whose executor is the in-memory server: it is refused and changes nothing that can be read
(`Session.Refused`), or it is carried out, and the feed tells what is between the tables before and after (`Session.Committed`).
The row of an insertion gets the identifier that the server draws next (`Session.inserted_submitInsertion`).
-/

namespace TableReplica

/-- The services of a session that submits to an in-memory server. -/
def Server.services (supply : RowIdSupply) (tags : Nat → UInt32) : Services Server := ⟨transact supply, tags⟩

namespace Session

/-- The second session differs from the first in nothing that can be read. -/
structure Refused (s s' : Session Server) : Prop where
  client : s'.client = s.client
  tables : s'.state.tables = s.state.tables
  feed : s'.state.feed = s.state.feed

/-- The second session comes from the first by a commit of new tables. -/
structure Committed (s s' : Session Server) (now : Tables) : Prop where
  client : s'.client = s.client
  tables : s'.state.tables = now
  feed : s'.state.feed = s.state.feed.publish (.between s.state.tables now)
  sound : ∀ table id target, ¬now.Dangles table id target

/-- How an insertion ends: it is refused, or it is carried out with a change of the given kind and the answer is the identifier that was
drawn next. -/
inductive Inserted (supply : RowIdSupply) (s : Session Server) (Change : Tables → Prop) : Except Error RowId × Session Server → Prop
  | refused {e : Error} {s' : Session Server} (refused : Refused s s') : Inserted supply s Change (.error e, s')
  | inserted {s' : Session Server} {now : Tables} (committed : Committed s s' now) (change : Change now)
      (drawn : s'.state.drawn = s.state.drawn + 1) : Inserted supply s Change (.ok (supply s.state.drawn), s')

/-- How a call that inserts nothing ends: it is refused, or it is carried out with a change of the given kind. -/
inductive Changed (s : Session Server) (Change : Tables → Prop) : Session Server → Prop
  | refused {s' : Session Server} (refused : Refused s s') : Changed s Change s'
  | changed {s' : Session Server} {now : Tables} (committed : Committed s s' now) (change : Change now) : Changed s Change s'

end Session

/-- A run that goes through has one effect for each operation. -/
theorem Workspace.length_of_run {supply : RowIdSupply} {w last : Workspace} {index : Nat} {ops : List Operation}
    {effects : List Effect} (h : w.run supply index ops = (.ok effects, last)) : effects.length = ops.length := by
  induction ops generalizing w index effects with
  | nil =>
    cases h
    rfl
  | cons op rest ih =>
    rw [run] at h
    split at h
    · cases h
    · obtain ⟨houtcome, hlast⟩ := Prod.mk.inj h
      obtain ⟨effects', heffects', rfl⟩ := map_eq_ok_iff.mp houtcome
      rw [List.length_cons, List.length_cons, ih (Prod.ext heffects' hlast)]

/-- A run that begins with an insert begins with its effect. -/
theorem Workspace.run_insert {supply : RowIdSupply} {w last : Workspace} {index : Nat} {table : String} {row : Row}
    {name : Option Placeholder} {rest : List Operation} {effects : List Effect}
    (h : w.run supply index (.insert table row name :: rest) = (.ok effects, last)) :
    ∃ effects', effects = .inserted (supply w.drawn) :: effects' := by
  rw [run] at h
  obtain ⟨effects', -, rfl⟩ := map_eq_ok_iff.mp (Prod.mk.inj h).1
  exact ⟨effects', rfl⟩

/-- Operations that define nothing assign nothing. -/
theorem Transaction.filterMap_assigned?_eq_nil {ops : List Operation} (h : ∀ op ∈ ops, op.defined? = none) (effects : List Effect) :
    (ops.zip effects).filterMap assigned? = [] := by
  rw [List.filterMap_eq_nil_iff]
  rintro ⟨op, effect⟩ hmem
  have hop := h op (List.of_mem_zip hmem).1
  cases op with
  | insert table row name =>
    rw [Operation.defined?] at hop
    rw [hop]
    rfl
  | _ => rfl

/-- The placeholder of an insertion stands for the identifier of the new row. -/
theorem Transaction.get?_assignment {txn : Transaction} {table : String} {row : Row} {name : Placeholder} {rest : List Operation}
    (hops : txn.operations = .insert table row (some name) :: rest) (hrest : ∀ op ∈ rest, op.defined? = none) (id : RowId)
    (effects : List Effect) : (txn.assignment (.inserted id :: effects)).get? name = some id := by
  have hpairs : (txn.operations.zip (.inserted id :: effects)).filterMap assigned? = [(name, id)] := by
    rw [hops, List.zip_cons_cons, List.filterMap_cons, filterMap_assigned?_eq_nil hrest]
    rfl
  rw [assignment, hpairs]
  exact SortedMap.get?_insert_self _ _ _

/-- What is answered to a transaction that is carried out. -/
theorem Executor.submit_eq_ok_iff {σ : Type} {executor : Executor σ} {state state' : σ} {txn : Transaction} {reply : Reply} :
    executor.submit state txn = (.ok reply, state') ↔
      executor state txn = (.ok reply.effects, state') ∧ reply.effects.length = txn.size ∧
        reply.assignment = txn.assignment reply.effects := by
  unfold submit
  obtain ⟨effects, assignment⟩ := reply
  cases hstep : executor state txn with
  | mk outcome after =>
    cases outcome with
    | error refusal =>
      simp [Transaction.settle]
    | ok effects' =>
      simp only [Transaction.settle]
      split
      · rename_i hlength
        constructor
        · intro h
          cases h
          exact ⟨rfl, hlength, rfl⟩
        · rintro ⟨h, -, rfl⟩
          cases h
          rfl
      · rename_i hlength
        constructor
        · intro h
          cases h
        · rintro ⟨h, hlength', -⟩
          cases h
          exact absurd hlength' hlength

namespace Session

variable (supply : RowIdSupply) (tags : Nat → UInt32)

/-- A submission is refused with nothing changed, or its operations run and what they leave is committed. -/
theorem submit_cases (s : Session Server) (txn : Transaction) :
    (∃ refusal e, s.state.Refuses supply txn refusal ∧ (s.submit (Server.services supply tags) txn).1 = .error e ∧
      Refused s (s.submit (Server.services supply tags) txn).2) ∨
    ∃ effects,
      Workspace.run supply ⟨s.state.tables, ∅, s.state.drawn⟩ 0 txn.operations = (.ok effects, s.state.worked supply txn) ∧
      (s.submit (Server.services supply tags) txn).1 = .ok ⟨effects, txn.assignment effects⟩ ∧
      Committed s (s.submit (Server.services supply tags) txn).2 (s.state.worked supply txn).tables ∧
      (s.submit (Server.services supply tags) txn).2.state.drawn = (s.state.worked supply txn).drawn ∧
      (s.submit (Server.services supply tags) txn).2.state.armed = none := by
  unfold submit Executor.submit
  rcases s.state.transact_cases supply txn with
    ⟨refusal, drawn, armed, hrefuses, htransact⟩ | ⟨effects, hnone, hsound, hrun, htransact⟩
  · refine Or.inl ⟨refusal, txn.refused refusal, hrefuses, ?_, ?_⟩
    · simp only [Server.services, htransact]
      rfl
    · simp only [Server.services, htransact]
      exact ⟨rfl, rfl, rfl⟩
  · have hlength : effects.length = txn.size := Workspace.length_of_run hrun
    have hready : s.state.armed = none := by
      cases harmed : s.state.armed with
      | none => rfl
      | some refusal => exact (hnone refusal (.armed harmed)).elim
    refine Or.inr ⟨effects, hrun, ?_, ?_, ?_, ?_⟩
    · simp only [Server.services, htransact, Transaction.settle, if_pos hlength]
    · simp only [Server.services, htransact]
      exact ⟨rfl, rfl, rfl, hsound⟩
    · simp only [Server.services, htransact]
      rfl
    · simp only [Server.services, htransact]
      exact hready

/-- A transaction that inserts nothing. -/
theorem changed_submitComposed (s : Session Server) {composed : Except Error Transaction} {Change : Tables → Prop}
    (h : ∀ txn, composed = .ok txn → Change (s.state.worked supply txn).tables) :
    Changed s Change (s.submitComposed (Server.services supply tags) composed).2 := by
  unfold submitComposed
  cases composed with
  | error e => exact .refused ⟨rfl, rfl, rfl⟩
  | ok txn =>
    rcases submit_cases supply tags s txn with ⟨-, e, -, -, hrefused⟩ | ⟨effects, -, -, hcommitted, -⟩
    · exact .refused hrefused
    · exact .changed hcommitted (h txn rfl)

/-- A transaction that inserts a row in its first operation and none after it. -/
theorem inserted_submitInsertion (s : Session Server) {composed : Except Error Insertion} {Change : Tables → Prop}
    (h : ∀ ins, composed = .ok ins → ∃ table row rest,
      ins.transaction.operations = .insert table row (some ins.name) :: rest ∧ (∀ op ∈ rest, op.defined? = none) ∧
      (s.state.worked supply ins.transaction).drawn = s.state.drawn + 1 ∧
      Change (s.state.worked supply ins.transaction).tables) :
    Inserted supply s Change (s.submitInsertion (Server.services supply tags) composed) := by
  unfold submitInsertion
  cases composed with
  | error e => exact .refused ⟨rfl, rfl, rfl⟩
  | ok ins =>
    obtain ⟨table, row, rest, hops, hrest, hdrawn, hchange⟩ := h ins rfl
    rcases submit_cases supply tags s ins.transaction with
      ⟨-, e, -, herror, hrefused⟩ | ⟨effects, hrun, hreply, hcommitted, hdrawn', -⟩
    · simp only [herror]
      exact .refused hrefused
    · rw [hops] at hrun
      obtain ⟨effects', rfl⟩ := Workspace.run_insert hrun
      have hassigned := ins.transaction.get?_assignment hops hrest (supply s.state.drawn) effects'
      have hanswer : insertedId ⟨.inserted (supply s.state.drawn) :: effects',
          ins.transaction.assignment (.inserted (supply s.state.drawn) :: effects')⟩ ins.name = .ok (supply s.state.drawn) := by
        rw [insertedId, hassigned]
      simp only [hreply]
      show Inserted supply s Change (insertedId _ ins.name, _)
      rw [hanswer]
      exact .inserted hcommitted hchange (hdrawn'.trans hdrawn)

end Session

end TableReplica
