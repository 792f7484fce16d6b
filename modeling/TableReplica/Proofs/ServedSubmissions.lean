import TableReplica.Proofs.TurnOrder

/-!
# Submissions served one by one

However the turns of the submitters are interleaved, a turnstile calls the executor for one transaction after the other, in the order
in which they reached it, and tells each submitter what the executor has answered to its own transaction. A run of a turnstile follows
the queue of its schedule (`Turnstile.follows_run`); what the executor answers has no part in the queue, so that a refusal changes
nothing for the others, and a fair schedule serves everyone (`Turnstile.serves_in_order`).
-/

namespace TableReplica

/-! ## Transactions one after another -/

namespace Executor

variable {σ : Type}

/-- Transactions given to an executor, each when the one before has returned: what it answers, and its state in the end. -/
def serve (executor : Executor σ) (state : σ) : List Transaction → List Outcome × σ
  | [] => ([], state)
  | txn :: rest =>
    let (outcome, next) := executor state txn
    let (outcomes, last) := serve executor next rest
    (outcome :: outcomes, last)

variable (executor : Executor σ) (state : σ) (txns : List Transaction)

/-- One more transaction is carried out in the state that the others leave. -/
theorem serve_concat (txn : Transaction) :
    executor.serve state (txns ++ [txn]) =
      ((executor.serve state txns).1 ++ [(executor (executor.serve state txns).2 txn).1], (executor (executor.serve state txns).2 txn).2) := by
  induction txns generalizing state with
  | nil => rfl
  | cons first rest ih => simp only [List.cons_append, serve, ih]

/-- There is one outcome for each transaction. -/
theorem length_serve : (executor.serve state txns).1.length = txns.length := by
  induction txns generalizing state with
  | nil => rfl
  | cons first rest ih => rw [serve, List.length_cons, List.length_cons, ih]

end Executor

/-- What the submitter of a transaction is told of its outcome: a refusal with the operation that it blames, a refusal that blames none when
the effects are not as many as the operations, and otherwise the effects with what they say the placeholders stand for. -/
theorem Transaction.settle_cases (txn : Transaction) (outcome : Outcome) :
    (∃ refusal, outcome = .error refusal ∧
      txn.settle outcome = .error (.refused refusal (refusal.index.bind (txn.operations[·]?)))) ∨
    (∃ effects, outcome = .ok effects ∧ effects.length ≠ txn.size ∧
      txn.settle outcome = .error (.refused ⟨none, .effectCount effects.length txn.size⟩ none)) ∨
    ∃ effects, outcome = .ok effects ∧ effects.length = txn.size ∧ txn.settle outcome = .ok ⟨effects, txn.assignment effects⟩ := by
  cases outcome with
  | error refusal => exact Or.inl ⟨refusal, rfl, rfl⟩
  | ok effects =>
    rw [settle]
    split
    · rename_i hlength
      exact Or.inr (Or.inr ⟨effects, rfl, hlength, rfl⟩)
    · rename_i hlength
      exact Or.inr (Or.inl ⟨effects, rfl, hlength, rfl⟩)

/-! ## Calls -/

namespace Queue

section Calls

variable {σ : Type} (executor : Executor σ) (state : σ) (txns : List Transaction)

/-- The transactions that the executor has been called with. -/
def called (q : Queue) : List Transaction := q.begun.filterMap (txns[·]?)

/-- The outcome of the call of a submission, if it has begun. -/
def outcome? (q : Queue) (i : Nat) : Option Outcome := (q.begun.zip (executor.serve state (q.called txns)).1).lookup i

/-- How far a submission has come. -/
def phase (q : Queue) (i : Nat) (txn : Transaction) : Phase :=
  match q.outcome? executor state txns i with
  | some outcome => if q.current = some i then .executing outcome else .answered (txn.settle outcome)
  | none => if i ∈ q.waiting then .inLine else .outside

end Calls

variable {σ : Type} {executor : Executor σ} {state : σ} {txns : List Transaction} {q q' : Queue} {i : Nat}

/-- Every submission that has come has a transaction. -/
theorem length_called (hcome : ∀ i ∈ q.begun, i < txns.length) : (q.called txns).length = q.begun.length :=
  List.filterMap_length_eq_length.mpr fun i hi => by rw [List.getElem?_eq_getElem (hcome i hi), Option.isSome_some]

/-- There is one outcome for each call that has begun. -/
theorem length_outcomes (executor : Executor σ) (state : σ) (hcome : ∀ i ∈ q.begun, i < txns.length) :
    q.begun.length = (executor.serve state (q.called txns)).1.length := by
  rw [Executor.length_serve, length_called hcome]

/-- The calls that have begun are those that have an outcome. -/
theorem isSome_outcome?_iff (hcome : ∀ i ∈ q.begun, i < txns.length) :
    (q.outcome? executor state txns i).isSome ↔ i ∈ q.begun := by
  have hindices := List.map_fst_zip (Nat.le_of_eq (length_outcomes executor state hcome))
  rw [outcome?, List.lookup_isSome_iff]
  constructor
  · rintro ⟨p, hp, hi⟩
    rw [← hindices, beq_iff_eq.mp hi]
    exact List.mem_map_of_mem hp
  · intro hi
    rw [← hindices] at hi
    obtain ⟨p, hp, rfl⟩ := List.mem_map.mp hi
    exact ⟨p, hp, beq_iff_eq.mpr rfl⟩

/-- A submission whose call has not begun has no outcome. -/
theorem outcome?_eq_none (hcome : ∀ i ∈ q.begun, i < txns.length) (h : i ∉ q.begun) : q.outcome? executor state txns i = none :=
  Option.not_isSome_iff_eq_none.mp fun hsome => h ((isSome_outcome?_iff hcome).mp hsome)

/-- The outcome of a call is the one that the executor has given in its place. -/
theorem exists_of_outcome? {outcome : Outcome} (h : q.outcome? executor state txns i = some outcome) :
    ∃ p : Nat, q.begun[p]? = some i ∧ (executor.serve state (q.called txns)).1[p]? = some outcome := by
  obtain ⟨before, after, hzip, -⟩ := List.lookup_eq_some_iff.mp h
  have hplace : (q.begun.zip (executor.serve state (q.called txns)).1)[before.length]? = some (i, outcome) := by
    rw [hzip, List.getElem?_append_right (Nat.le_refl _), Nat.sub_self]
    rfl
  exact ⟨before.length, List.getElem?_zip_eq_some.mp hplace⟩

/-- The outcome of a submission depends only on the calls that have begun. -/
theorem outcome?_congr (h : q'.begun = q.begun) : q'.outcome? executor state txns i = q.outcome? executor state txns i := by
  rw [outcome?, outcome?, called, called, h]

/-- A call that begins adds its transaction to those called. -/
theorem called_concat {txn : Transaction} (htxn : txns[i]? = some txn) (h : q'.begun = q.begun ++ [i]) :
    q'.called txns = q.called txns ++ [txn] := by
  rw [called, h, List.filterMap_append, called, List.filterMap_cons_some htxn, List.filterMap_nil]

/-- One more call has the outcome that the executor gives after those before, and leaves those as they are. -/
theorem outcome?_concat (executor : Executor σ) (state : σ) (hcome : ∀ i ∈ q.begun, i < txns.length) {txn : Transaction}
    (htxn : txns[i]? = some txn) (h : q'.begun = q.begun ++ [i]) (j : Nat) :
    q'.outcome? executor state txns j =
      (q.outcome? executor state txns j).or
        (if j = i then some (executor (executor.serve state (q.called txns)).2 txn).1 else none) := by
  rw [outcome?, called_concat htxn h, h, Executor.serve_concat, List.zip_append (length_outcomes executor state hcome),
    List.lookup_append, outcome?]
  congr 1
  rw [List.zip_cons_cons, SortedMap.lookup_cons_eq]
  rfl

/-- A submission whose call has begun is executing, or answered when its call is over. -/
theorem phase_of_outcome {outcome : Outcome} (h : q.outcome? executor state txns i = some outcome) (txn : Transaction) :
    q.phase executor state txns i txn = if q.current = some i then .executing outcome else .answered (txn.settle outcome) := by
  rw [phase, h]

/-- A submission whose call has not begun is in the line or outside. -/
theorem phase_of_not_begun (hcome : ∀ i ∈ q.begun, i < txns.length) (h : i ∉ q.begun) (txn : Transaction) :
    q.phase executor state txns i txn = if i ∈ q.waiting then .inLine else .outside := by
  rw [phase, outcome?_eq_none hcome h]

/-- The phase of a submission depends on its outcome, on whether it is called and on whether it waits. -/
theorem phase_congr {j : Nat} {txn : Transaction} (houtcome : q'.outcome? executor state txns j = q.outcome? executor state txns j)
    (hcurrent : q'.current = some j ↔ q.current = some j) (hwaiting : j ∈ q'.waiting ↔ j ∈ q.waiting) :
    q'.phase executor state txns j txn = q.phase executor state txns j txn := by
  rw [phase, phase, houtcome]
  cases q.outcome? executor state txns j with
  | some outcome => exact if_congr hcurrent rfl rfl
  | none => exact if_congr hwaiting rfl rfl

end Queue

/-! ## Turnstiles and queues -/

namespace Turnstile

variable {σ : Type}

/-- The turnstile of the transactions stands as the queue does. -/
structure Follows (executor : Executor σ) (state : σ) (txns : List Transaction) (q : Queue) (t : Turnstile σ) : Prop where
  line_eq : t.line = q.line
  /-- The calls that have returned, each before the next began, and then the one that has not. -/
  calls_eq : t.calls = q.served.flatMap (fun i => [.began i, .returned i]) ++ q.current.toList.map .began
  /-- The executor has been called with the transactions that have begun, in this order, and with nothing else. -/
  state_eq : t.state = (executor.serve state (q.called txns)).2
  /-- Every submitter has its transaction, and is told the outcome of its own call. -/
  submission_eq (i : Nat) : t.submissions[i]? = txns[i]?.map fun txn => ⟨txn, q.phase executor state txns i txn⟩

/-- Setting a phase changes one submission. -/
theorem getElem?_setPhase (t : Turnstile σ) (i j : Nat) (phase : Phase) :
    (t.setPhase i phase).submissions[j]? = t.submissions[j]?.map fun s => if i = j then ⟨s.txn, phase⟩ else s :=
  List.getElem?_modify ..

variable {executor : Executor σ} {state : σ} {txns : List Transaction} {q q' : Queue} {t t' : Turnstile σ} {i : Nat}

/-- A change of one phase leads to the phases of another queue that differs in this one only. -/
theorem submission_setPhase (h : t.Follows executor state txns q) {phase : Phase} {txn : Transaction} (htxn : txns[i]? = some txn)
    (hi : q'.phase executor state txns i txn = phase)
    (hothers : ∀ j, j ≠ i → ∀ txn, q'.phase executor state txns j txn = q.phase executor state txns j txn) (j : Nat) :
    (t.setPhase i phase).submissions[j]? = txns[j]?.map fun txn => ⟨txn, q'.phase executor state txns j txn⟩ := by
  rw [getElem?_setPhase, h.submission_eq, Option.map_map]
  by_cases hj : i = j
  · subst hj
    rw [htxn]
    simp [hi]
  · cases htxns : txns[j]? with
    | none => rfl
    | some txn' => simp [hj, hothers j (Ne.symm hj)]

/-- A turnstile and its queue keep step when a submission joins the line. -/
theorem Follows.joinLine (h : t.Follows executor state txns q) (hcome : ∀ i ∈ q.begun, i < txns.length) {txn : Transaction}
    (htxn : txns[i]? = some txn) (hnew : i ∉ q.begun) : (t.joinLine i).Follows executor state txns (q.join i) where
  line_eq := by
    rw [Turnstile.joinLine, h.line_eq, Queue.line, Queue.line, List.append_assoc]
    rfl
  calls_eq := h.calls_eq
  state_eq := h.state_eq
  submission_eq := by
    have hbounds : ∀ j ∈ (q.join i).begun, j < txns.length := hcome
    have hwaits : i ∉ (q.join i).begun := hnew
    refine submission_setPhase h htxn ?_ fun j hj txn => ?_
    · rw [Queue.phase_of_not_begun hbounds hwaits]
      exact if_pos (List.mem_append_right _ (List.mem_singleton_self i))
    · exact Queue.phase_congr rfl Iff.rfl (by simp [Queue.join, hj])

/-- A turnstile and its queue keep step when a call ends. -/
theorem Follows.endCall (h : t.Follows executor state txns q) {txn : Transaction} (htxn : txns[i]? = some txn)
    (hcurrent : q.current = some i) {outcome : Outcome} (houtcome : q.outcome? executor state txns i = some outcome) :
    (t.endCall i txn outcome).Follows executor state txns (q.endCall i) := by
  have hbegun : (q.endCall i).begun = q.begun := by
    rw [Queue.begun, Queue.begun, hcurrent]
    exact List.append_nil _
  exact {
    line_eq := by
      rw [Turnstile.endCall, h.line_eq, Queue.line, hcurrent]
      rfl
    calls_eq := by
      rw [Turnstile.endCall, h.calls_eq, hcurrent]
      simp [Queue.endCall]
    state_eq := by
      rw [Queue.called, hbegun]
      exact h.state_eq
    submission_eq := by
      refine submission_setPhase h htxn ?_ fun j hj txn => ?_
      · rw [Queue.phase_of_outcome ((Queue.outcome?_congr hbegun).trans houtcome)]
        exact if_neg (Option.some_ne_none i).symm
      · refine Queue.phase_congr (Queue.outcome?_congr hbegun) ?_ Iff.rfl
        rw [hcurrent, Option.some_inj]
        exact iff_of_false (Option.some_ne_none j).symm (Ne.symm hj) }

/-- A turnstile and its queue keep step when a call may begin. -/
theorem Follows.beginCall (h : t.Follows executor state txns q) (hcome : ∀ i ∈ q.begun, i < txns.length) {txn : Transaction}
    (htxn : txns[i]? = some txn) (hnew : i ∉ q.begun) : (t.beginCall executor i txn).Follows executor state txns (q.beginCall i) := by
  have hhead : t.line.head? = some i ↔ q.current = none ∧ q.waiting.head? = some i := by
    rw [h.line_eq, Queue.line]
    cases hcurrent : q.current with
    | none => simp
    | some j =>
      have hj : j ≠ i := fun hj => hnew (List.mem_append_right _ (Option.mem_toList.mpr (hj ▸ hcurrent)))
      simp [hj]
  by_cases hgoes : q.current = none ∧ q.waiting.head? = some i
  · obtain ⟨hcurrent, hfirst⟩ := hgoes
    have hwaiting : q.waiting = i :: q.waiting.tail := (List.cons_head?_tail hfirst).symm
    rw [Turnstile.beginCall, if_pos (hhead.mpr ⟨hcurrent, hfirst⟩), Queue.beginCall, if_pos ⟨hcurrent, hfirst⟩]
    set q' : Queue := ⟨q.served, some i, q.waiting.tail⟩
    have hbegun : q'.begun = q.begun ++ [i] := by
      rw [Queue.begun, Queue.begun, hcurrent]
      exact congrArg (· ++ [i]) (List.append_nil q.served).symm
    have houtcome (j : Nat) := Queue.outcome?_concat executor state hcome htxn hbegun j
    rw [← h.state_eq] at houtcome
    exact {
      line_eq := h.line_eq.trans (by rw [Queue.line, Queue.line, hcurrent, hwaiting]; rfl)
      calls_eq := by
        have hcalls := h.calls_eq
        rw [hcurrent] at hcalls
        exact congrArg (· ++ [CallMark.began i]) (hcalls.trans (List.append_nil _))
      state_eq := by
        rw [Queue.called_concat htxn hbegun, Executor.serve_concat, ← h.state_eq]
      submission_eq := by
        refine submission_setPhase h htxn ?_ fun j hj txn => ?_
        · have hi : q'.outcome? executor state txns i = some (executor t.state txn).1 := by
            rw [houtcome, Queue.outcome?_eq_none hcome hnew, if_pos rfl, Option.none_or]
          rw [Queue.phase_of_outcome hi]
          exact if_pos rfl
        · refine Queue.phase_congr ?_ ?_ ?_
          · rw [houtcome, if_neg hj, Option.or_none]
          · rw [hcurrent, Option.some_inj]
            exact iff_of_false (Ne.symm hj) (Option.some_ne_none j).symm
          · rw [hwaiting, List.mem_cons]
            exact ⟨.inr, fun hmem => hmem.resolve_left hj⟩ }
  · rw [Turnstile.beginCall, if_neg (fun hline => hgoes (hhead.mp hline)), Queue.beginCall, if_neg hgoes]
    exact h

/-- What the turnstile does in one turn, the queue does. -/
theorem Follows.step (h : t.Follows executor state txns q) (hcome : ∀ i ∈ q.arrived, i < txns.length) (honce : q.arrived.Nodup)
    (turn : Turn) : (t.step executor turn).Follows executor state txns (q.step txns.length turn) := by
  have hsplit := q.arrived_eq_begun_append
  have hbounds : ∀ i ∈ q.begun, i < txns.length := fun i hi => hcome i (hsplit ▸ List.mem_append_left _ hi)
  have hsub := h.submission_eq turn.index
  cases htxn : txns[turn.index]? with
  | none =>
    have hcount : ¬turn.index < txns.length := Nat.not_lt_of_le (List.getElem?_eq_none_iff.mp htxn)
    rw [htxn, Option.map_none] at hsub
    rw [Turnstile.step, hsub, Queue.step_of_new fun hmem => hcount (hcome _ hmem), if_neg hcount]
    exact h
  | some txn =>
    have hcount : turn.index < txns.length := (List.getElem?_eq_some_iff.mp htxn).1
    rw [htxn, Option.map_some] at hsub
    by_cases hbegun : turn.index ∈ q.begun
    · obtain ⟨outcome, houtcome⟩ := Option.isSome_iff_exists.mp ((Queue.isSome_outcome?_iff hbounds).mpr hbegun)
      rw [Queue.phase_of_outcome houtcome] at hsub
      by_cases hserved : turn.index ∈ q.served
      · have hcurrent : q.current ≠ some turn.index := fun hcurrent =>
          List.disjoint_of_nodup_append honce hserved (List.mem_append_left _ (Option.mem_toList.mpr hcurrent))
        rw [if_neg hcurrent] at hsub
        rw [Turnstile.step, hsub, Queue.step_of_served hserved]
        exact h
      · have hcurrent : q.current = some turn.index := (Queue.mem_begun_iff.mp hbegun).resolve_left hserved
        rw [if_pos hcurrent] at hsub
        rw [Turnstile.step, hsub, Queue.step_of_current hserved hcurrent]
        cases turn.ready with
        | true => exact h.endCall htxn hcurrent houtcome
        | false => exact h
    · rw [Queue.phase_of_not_begun hbounds hbegun] at hsub
      by_cases hwaiting : turn.index ∈ q.waiting
      · rw [if_pos hwaiting] at hsub
        rw [Turnstile.step, hsub, Queue.step_of_waiting hbegun hwaiting]
        exact h.beginCall hbounds htxn hbegun
      · have hnew : turn.index ∉ q.arrived := by
          rw [hsplit, List.mem_append, not_or]
          exact ⟨hbegun, hwaiting⟩
        rw [if_neg hwaiting] at hsub
        rw [Turnstile.step, hsub, Queue.step_of_new hnew, if_pos hcount]
        exact (h.joinLine hbounds htxn hbegun).beginCall hbounds htxn hbegun

/-- A turnstile that nobody has come to follows the empty queue. -/
theorem follows_ofTransactions (executor : Executor σ) (state : σ) (txns : List Transaction) :
    (ofTransactions state txns).Follows executor state txns .empty where
  line_eq := rfl
  calls_eq := rfl
  state_eq := rfl
  submission_eq _ := List.getElem?_map

/-- Where the submissions stand after some turns is where the queue has them, whatever the executor answers. -/
theorem follows_run (executor : Executor σ) (state : σ) (txns : List Transaction) (turns : List Turn) :
    ((ofTransactions state txns).run executor turns).Follows executor state txns (Queue.run txns.length turns) := by
  induction turns using List.reverseRecOn with
  | nil => exact follows_ofTransactions executor state txns
  | append_singleton turns turn ih =>
    have hrun : (ofTransactions state txns).run executor (turns ++ [turn]) =
        ((ofTransactions state txns).run executor turns).step executor turn := List.foldl_concat ..
    have harrived := Queue.arrived_run txns.length turns
    rw [hrun, Queue.run_concat]
    exact ih.step (fun i hi => Turn.lt_of_mem_arrivals (harrived ▸ hi)) (harrived ▸ Turn.nodup_arrivals txns.length turns) turn

/-- A submission that has been answered has been told the outcome of its own call, as it is settled. -/
theorem Follows.exists_settled (h : t.Follows executor state txns q) {txn : Transaction} {answer : Except Error Reply}
    (hanswer : t.submissions[i]? = some ⟨txn, .answered answer⟩) :
    ∃ outcome, q.outcome? executor state txns i = some outcome ∧
      ((∃ refusal, outcome = .error refusal ∧ answer = .error (.refused refusal (refusal.index.bind (txn.operations[·]?)))) ∨
        (∃ effects, outcome = .ok effects ∧ effects.length ≠ txn.size ∧
          answer = .error (.refused ⟨none, .effectCount effects.length txn.size⟩ none)) ∨
        ∃ effects, outcome = .ok effects ∧ effects.length = txn.size ∧ answer = .ok ⟨effects, txn.assignment effects⟩) := by
  rw [h.submission_eq] at hanswer
  obtain ⟨txn', -, hphase⟩ := Option.map_eq_some_iff.mp hanswer
  obtain ⟨rfl, hphase⟩ := Submission.mk.inj hphase
  rw [Queue.phase] at hphase
  cases houtcome : q.outcome? executor state txns i with
  | none =>
    simp only [houtcome] at hphase
    split at hphase <;> cases hphase
  | some outcome =>
    simp only [houtcome] at hphase
    split at hphase
    · cases hphase
    · cases hphase
      exact ⟨outcome, rfl, txn'.settle_cases outcome⟩

/-- In two turnstiles that follow one queue, a submission stands the same if the outcomes of its calls are the same. -/
theorem submission_congr {τ : Type} {executor' : Executor τ} {state' : τ} {t' : Turnstile τ} (h : t.Follows executor state txns q)
    (h' : t'.Follows executor' state' txns q) (hsame : q.outcome? executor state txns i = q.outcome? executor' state' txns i) :
    t.submissions[i]? = t'.submissions[i]? := by
  rw [h.submission_eq, h'.submission_eq]
  refine Option.map_congr fun txn _ => ?_
  rw [Queue.phase, Queue.phase, hsame]

/-- When everyone is served, each submitter has been told what the executor answered in its place. -/
theorem Follows.exists_answer {order : List Nat} (h : t.Follows executor state txns ⟨order, none, []⟩)
    (hperm : order.Perm (List.range txns.length)) {txn : Transaction} (htxn : txns[i]? = some txn) :
    ∃ (p : Nat) (outcome : Outcome), order[p]? = some i ∧ (executor.serve state (order.filterMap (txns[·]?))).1[p]? = some outcome ∧
      t.submissions[i]? = some ⟨txn, .answered (txn.settle outcome)⟩ := by
  have hbegun : Queue.begun ⟨order, none, []⟩ = order := List.append_nil order
  have hmem (i : Nat) : i ∈ Queue.begun ⟨order, none, []⟩ ↔ i < txns.length := by
    rw [hbegun, hperm.mem_iff, List.mem_range]
  have hi : i ∈ Queue.begun ⟨order, none, []⟩ := (hmem i).mpr (List.getElem?_eq_some_iff.mp htxn).1
  obtain ⟨outcome, houtcome⟩ := Option.isSome_iff_exists.mp ((Queue.isSome_outcome?_iff fun i => (hmem i).mp).mpr hi)
  obtain ⟨p, hp, hanswer⟩ := Queue.exists_of_outcome? houtcome
  rw [Queue.called, hbegun] at hanswer
  refine ⟨p, outcome, hbegun ▸ hp, hanswer, ?_⟩
  rw [h.submission_eq, htxn, Option.map_some, Queue.phase_of_outcome houtcome]
  exact congrArg (fun phase => some (Submission.mk txn phase)) (if_neg (Option.some_ne_none i).symm)

/-- The executor is called for one transaction at a time, for each with its own operations, in the order in which the submissions reach
the turnstile. What it answers is told to the submitter of that transaction and changes nothing for the others: under another executor
the same calls begin and return, and a submission whose own outcome is the same stands the same. When the turns are fair, everyone is
answered after one call each. -/
theorem serves_in_order (executor : Executor σ) (state : σ) (txns : List Transaction) :
    (∀ turns,
      let q := Queue.run txns.length turns
      let t := (ofTransactions state txns).run executor turns
      t.Follows executor state txns q ∧
      q.served ++ t.line = Turn.arrivals txns.length turns ∧ (Turn.arrivals txns.length turns).Nodup) ∧
    (∀ (τ : Type) (executor' : Executor τ) (state' : τ) (turns : List Turn),
      let q := Queue.run txns.length turns
      let t := (ofTransactions state txns).run executor turns
      let t' := (ofTransactions state' txns).run executor' turns
      t.calls = t'.calls ∧ t.line = t'.line ∧
      ∀ i, q.outcome? executor state txns i = q.outcome? executor' state' txns i → t.submissions[i]? = t'.submissions[i]?) ∧
    ∀ schedule, Turn.Fair txns.length schedule → ∃ n order, order.Perm (List.range txns.length) ∧ ∀ m, n ≤ m →
      let t := (ofTransactions state txns).run executor (Turn.before schedule m)
      order = Turn.arrivals txns.length (Turn.before schedule m) ∧
      t.calls = order.flatMap (fun i => [.began i, .returned i]) ∧
      t.state = (executor.serve state (order.filterMap (txns[·]?))).2 ∧
      ∀ i txn, txns[i]? = some txn →
        ∃ (p : Nat) (outcome : Outcome), order[p]? = some i ∧ (executor.serve state (order.filterMap (txns[·]?))).1[p]? = some outcome ∧
          t.submissions[i]? = some ⟨txn, .answered (txn.settle outcome)⟩ := by
  refine ⟨fun turns => ?_, fun τ executor' state' turns => ?_, fun schedule hfair => ?_⟩
  · have hfollows := follows_run executor state txns turns
    refine ⟨hfollows, ?_, Turn.nodup_arrivals txns.length turns⟩
    rw [hfollows.line_eq]
    exact Queue.arrived_run txns.length turns
  · have hfollows := follows_run executor state txns turns
    have hfollows' := follows_run executor' state' txns turns
    exact ⟨hfollows.calls_eq.trans hfollows'.calls_eq.symm, hfollows.line_eq.trans hfollows'.line_eq.symm,
      fun i hsame => submission_congr hfollows hfollows' hsame⟩
  · obtain ⟨n, order, hperm, hserved⟩ := Queue.exists_served hfair
    refine ⟨n, order, hperm, fun m hm => ?_⟩
    have hfollows := follows_run executor state txns (Turn.before schedule m)
    have harrived := Queue.arrived_run txns.length (Turn.before schedule m)
    rw [hserved m hm] at hfollows harrived
    refine ⟨(List.append_nil order).symm.trans harrived, hfollows.calls_eq.trans (List.append_nil _), ?_, fun i txn htxn => ?_⟩
    · rw [hfollows.state_eq, Queue.called, Queue.begun]
      exact congrArg (fun is => (executor.serve state (is.filterMap (txns[·]?))).2) (List.append_nil order)
    · exact hfollows.exists_answer hperm htxn

/-- A transaction that reads all ports. -/
def portsRead : Transaction := ⟨[.select "Port" []], by decide⟩

/-- Two submissions, the later of which reaches the turnstile first and is refused. -/
theorem serves_in_order_refused_first :
    let txns := [portsRead, portsRead]
    let refusing : List Outcome := [.error ⟨none, .callFailed "connection lost"⟩]
    let turns : List Turn := [⟨1, true⟩, ⟨0, true⟩, ⟨1, true⟩, ⟨0, true⟩, ⟨0, true⟩]
    let byTurns : Nat → Turn := fun n => ⟨n % 2, true⟩
    ((ofTransactions refusing txns).run Executor.prepared turns).calls = [.began 1, .returned 1, .began 0, .returned 0] ∧
    ((ofTransactions refusing txns).run Executor.prepared turns).submissions[0]? =
      ((ofTransactions [] txns).run Executor.prepared turns).submissions[0]? ∧
    Turn.Fair 2 byTurns ∧ ∃ n, ∀ m, n ≤ m → ∃ outcome : Outcome,
      ((ofTransactions refusing txns).run Executor.prepared (Turn.before byTurns m)).submissions[1]? =
        some ⟨portsRead, .answered (portsRead.settle outcome)⟩ := by
  intro txns refusing turns byTurns
  obtain ⟨horder, hothers, hfairly⟩ := serves_in_order Executor.prepared refusing txns
  have hfair : Turn.Fair 2 byTurns := by
    intro i hi n
    refine ⟨2 * n + i, by omega, congrArg (Turn.mk · true) ?_⟩
    omega
  have hqueue : Queue.run txns.length turns = ⟨[1, 0], none, []⟩ := rfl
  have hcalls := (horder turns).1.calls_eq
  have hother := (hothers _ Executor.prepared [] turns).2.2 0
  rw [hqueue] at hcalls hother
  obtain ⟨n, order, -, hserved⟩ := hfairly byTurns hfair
  refine ⟨hcalls, hother rfl, hfair, n, fun m hm => ?_⟩
  obtain ⟨-, -, -, hanswers⟩ := hserved m hm
  obtain ⟨-, outcome, -, -, hanswer⟩ := hanswers 1 portsRead rfl
  exact ⟨outcome, hanswer⟩

end Turnstile

end TableReplica
