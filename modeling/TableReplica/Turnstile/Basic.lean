import TableReplica.Wire.Transaction
import TableReplica.Error

/-!
# The turnstile

An executor takes a transaction and either carries it out, with one effect per operation, or refuses it. It may be the in-memory
server, a list of prepared answers, or a connection to a remote database.

What an executor answers is settled into what the submitter is told: a reply, which says what each placeholder stands for, or an
error, which shows the operation to blame.

Several callers may submit before any is answered. Their submissions line up at a turnstile in the order in which they reach it; only
the first of the line is with the executor, and it leaves the line when it is answered. Who is looked at next is not up to the
turnstile: a schedule is any list of turns, and a turn that can do nothing changes nothing.
-/

namespace TableReplica

/-! ## Executors -/

/-- What an executor answers to a transaction. -/
abbrev Outcome := Except Refusal (List Effect)

/-- An executor with state `σ`. -/
abbrev Executor (σ : Type) := σ → Transaction → Outcome × σ

namespace Executor

/-- The answer of an executor that has nothing to say: no operation met a row. -/
def idleOutcome (txn : Transaction) : Outcome := .ok (txn.operations.map (fun _ => .met 0))

/-- An executor that gives prepared answers in order, and then has nothing to say. -/
def prepared : Executor (List Outcome)
  | outcome :: rest, _ => (outcome, rest)
  | [], txn => (idleOutcome txn, [])

end Executor

/-- A connection with state `τ`: a method is called with parameters and answers, or the call fails with a text. -/
abbrev Connection (τ : Type) := τ → String → Json → Except String Json × τ

/-- What the answer to a remote call says about the transaction. -/
def Outcome.ofCall (txn : Transaction) : Except String Json → Outcome
  | .ok reply => (Wire.readReply txn reply).map Reply.effects
  | .error text => .error ⟨none, .callFailed text⟩

/-- The executor that sends each transaction to a remote database. -/
def Executor.remote {τ : Type} (database : String) (connection : Connection τ) : Executor τ := fun state txn =>
  let (answer, state) := connection state "transact" (Wire.writeTransaction database txn)
  (Outcome.ofCall txn answer, state)

/-! ## Settling a transaction -/

namespace Transaction

/-- The error of a transaction that was refused. -/
def refused (txn : Transaction) (refusal : Refusal) : Error :=
  .refused refusal (refusal.index.bind (txn.operations[·]?))

/-- The identifier that an operation and its effect give to a placeholder. -/
def assigned? : Operation × Effect → Option (Placeholder × RowId)
  | (.insert _ _ (some name), .inserted id) => some (name, id)
  | _ => none

/-- What the effects say the placeholders stand for. -/
def assignment (txn : Transaction) (effects : List Effect) : Assignment :=
  .ofList ((txn.operations.zip effects).filterMap assigned?)

/-- What the submitter of a transaction is told. Effects must be as many as the operations. -/
def settle (txn : Transaction) : Outcome → Except Error Reply
  | .error refusal => .error (txn.refused refusal)
  | .ok effects =>
    if effects.length = txn.size then .ok ⟨effects, txn.assignment effects⟩
    else .error (txn.refused ⟨none, .effectCount effects.length txn.size⟩)

end Transaction

/-- A transaction given to an executor when no other is under way. -/
def Executor.submit {σ : Type} (executor : Executor σ) (state : σ) (txn : Transaction) : Except Error Reply × σ :=
  let (outcome, state) := executor state txn
  (txn.settle outcome, state)

/-! ## Turns -/

/-- How far a submission has come. -/
inductive Phase where
  /-- It has not reached the turnstile. -/
  | outside
  | inLine
  /-- The executor has been called, and will give this answer. -/
  | executing (outcome : Outcome)
  | answered (answer : Except Error Reply)

structure Submission where
  txn : Transaction
  phase : Phase

/-- What the executor sees of a submission: that its call begins, and that it has returned. -/
inductive CallMark where
  | began (index : Nat)
  | returned (index : Nat)
deriving DecidableEq

/-- A submission is looked at. If it is with the executor, the turn says whether the executor has answered by now. -/
structure Turn where
  index : Nat
  ready : Bool
deriving DecidableEq

/-- A turnstile in the middle of its work, with the state of its executor. -/
structure Turnstile (σ : Type) where
  state : σ
  submissions : List Submission
  /-- The submissions that have reached the turnstile and are not answered, the one with the executor in front. -/
  line : List Nat
  /-- The calls of the executor so far. -/
  calls : List CallMark

namespace Turnstile

variable {σ : Type}

/-- A turnstile that nobody has reached. -/
def ofTransactions (state : σ) (txns : List Transaction) : Turnstile σ :=
  ⟨state, txns.map (⟨·, .outside⟩), [], []⟩

def setPhase (t : Turnstile σ) (index : Nat) (phase : Phase) : Turnstile σ :=
  { t with submissions := t.submissions.modify index (fun s => { s with phase := phase }) }

/-- The submission reaches the turnstile. -/
def joinLine (t : Turnstile σ) (index : Nat) : Turnstile σ := { t.setPhase index .inLine with line := t.line ++ [index] }

/-- The submission calls the executor if it is the first of the line. -/
def beginCall (executor : Executor σ) (t : Turnstile σ) (index : Nat) (txn : Transaction) : Turnstile σ :=
  if t.line.head? = some index then
    let (outcome, state) := executor t.state txn
    { t.setPhase index (.executing outcome) with state := state, calls := t.calls ++ [.began index] }
  else t

/-- The call of a submission has returned: its submitter is told, and the line moves up. -/
def endCall (t : Turnstile σ) (index : Nat) (txn : Transaction) (outcome : Outcome) : Turnstile σ :=
  { t.setPhase index (.answered (txn.settle outcome)) with line := t.line.tail, calls := t.calls ++ [.returned index] }

/-- One turn. -/
def step (executor : Executor σ) (t : Turnstile σ) (turn : Turn) : Turnstile σ :=
  match t.submissions[turn.index]? with
  | none => t
  | some s =>
    match s.phase with
    | .outside => (t.joinLine turn.index).beginCall executor turn.index s.txn
    | .inLine => t.beginCall executor turn.index s.txn
    | .executing outcome => if turn.ready then t.endCall turn.index s.txn outcome else t
    | .answered _ => t

def run (executor : Executor σ) (t : Turnstile σ) (turns : List Turn) : Turnstile σ := turns.foldl (step executor) t

/-- The answers, to those who have been answered. -/
def answers (t : Turnstile σ) : List (Except Error Reply) :=
  t.submissions.filterMap fun s =>
    match s.phase with
    | .answered answer => some answer
    | _ => none

end Turnstile

namespace Turn

/-- The schedule in which each submission is answered before the next reaches the turnstile. -/
def oneByOne (count : Nat) : List Turn := (List.range count).flatMap (fun i => [⟨i, true⟩, ⟨i, true⟩])

/-- The schedule in which all are looked at in turn until all are answered: in each round but the first, one is. -/
def inRounds (count : Nat) : List Turn :=
  (List.range (count + 1)).flatMap (fun _ => (List.range count).map (⟨·, true⟩))

end Turn

end TableReplica
