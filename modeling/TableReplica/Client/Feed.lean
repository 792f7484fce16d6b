import TableReplica.Client.Basic
import TableReplica.Intent.Basic
import TableReplica.Turnstile.Basic
import TableReplica.Server.Basic

/-!
# Sessions and their feed

A session is a client at work: the client, the state of the executor it submits to, and the number of name supplies it has handed out.
Composing reads the client's cache and submitting changes the executor's state. What the executor then tells about its changes
reaches the cache only when it is taken in.

What a server publishes waits on its feed until the client takes it in, oldest batch first. Only then does the client know of its own
changes.
-/

namespace TableReplica

/-- What a session works with: an executor, and the tags of its name supplies in order. -/
structure Services (σ : Type) where
  executor : Executor σ
  tags : Nat → UInt32

structure Session (σ : Type) where
  client : Client
  /-- The state of the executor. -/
  state : σ
  /-- How many name supplies have been handed out. -/
  supplies : Nat

namespace Session

variable {σ : Type}

/-- A new name supply, which takes the next tag. -/
def newNames (services : Services σ) (s : Session σ) : NameSupply × Session σ :=
  (.ofTag (services.tags s.supplies), { s with supplies := s.supplies + 1 })

def submit (services : Services σ) (s : Session σ) (txn : Transaction) : Except Error Reply × Session σ :=
  let (answer, state) := services.executor.submit s.state txn
  (answer, { s with state := state })

/-- Transactions submitted as one. -/
def submitMerged (services : Services σ) (s : Session σ) (txns : List Transaction) : Except Error Reply × Session σ :=
  match Transaction.merge txns with
  | .ok txn => s.submit services txn
  | .error v => (.error (.contract v), s)

/-- What was composed, submitted if composing went well. -/
def submitComposed (services : Services σ) (s : Session σ) (composed : Except Error Transaction) :
    Except Error Unit × Session σ :=
  match composed with
  | .error e => (.error e, s)
  | .ok txn =>
    let (answer, s) := s.submit services txn
    (answer.map (fun _ => ()), s)

/-- The identifier of an inserted row, taken from the reply. -/
def insertedId (reply : Reply) (name : Placeholder) : Except Error RowId :=
  match reply.assignment.get? name with
  | some id => .ok id
  | none => .error (.refused ⟨none, .unassigned name⟩ none)

/-- An insertion submitted if composing went well; the answer is the identifier of the new row. -/
def submitInsertion (services : Services σ) (s : Session σ) (composed : Except Error Insertion) :
    Except Error RowId × Session σ :=
  match composed with
  | .error e => (.error e, s)
  | .ok insertion =>
    let (answer, s) := s.submit services insertion.transaction
    (answer.bind (insertedId · insertion.name), s)

end Session

/-! ## The feed -/

namespace Replica

/-- Batches taken in one after the other, with what each of them did. -/
def takeInAll (r : Replica) : List ChangeBatch → List Intake
  | [] => []
  | batch :: rest => r.takeIn batch :: (r.takeIn batch).replica.takeInAll rest

/-- The replica after batches are taken in. -/
def afterAll (r : Replica) (batches : List ChangeBatch) : Replica := batches.foldl (fun r batch => (r.takeIn batch).replica) r

end Replica

/-- The session after everything that waits on its server's feed is taken in. -/
def Session.takeFeed (s : Session Server) : Session Server :=
  { s with
    state := s.state.drain.2
    client := { s.client with replica := s.client.replica.afterAll s.state.drain.1 } }

end TableReplica
