import TableReplica.Proofs.ReadReplies

/-!
# Replies that are settled

A reply that is read from a remote database names the row of each placeholder. The executor passes on only the effects, and what the
placeholders stand for is worked out again when the transaction is settled. Both come to the same, since each placeholder is defined
by one insert (`Wire.assignment_of_readReply_eq`). So what the submitter is told is what was read: the same reply, or the same refusal
with the operation it blames (`Executor.submits_as_read`).
-/

namespace TableReplica

namespace Wire

variable {op : Operation} {effect : Effect} {entry : Json} {ops : List Operation} {entries : List Json} {txn : Transaction}

/-- Only an insert with a placeholder gives an identifier to one, and always to its own. -/
theorem Reports.map_assigned? (h : Reports entry op effect) : (Transaction.assigned? (op, effect)).map (·.1) = op.defined? := by
  cases hdefined : op.defined? with
  | none =>
    cases op with
    | insert table row name =>
      cases name with
      | none => rfl
      | some p => cases hdefined
    | _ => rfl
  | some p =>
    obtain ⟨id, rfl⟩ := h.exists_inserted hdefined
    cases op with
    | insert table row name =>
      cases hdefined
      rfl
    | _ => cases hdefined

/-- An effect that is put in front notes the identifier that it gives to a placeholder. -/
theorem assignment_prependEffect (op : Operation) (effect : Effect) (reply : Reply) :
    (prependEffect op effect reply).assignment = reply.assignment.insertAll (Transaction.assigned? (op, effect)).toList := by
  cases op with
  | insert table row name =>
    cases name with
    | none => rfl
    | some p => cases effect <;> rfl
  | _ => rfl

/-- The placeholders assigned by a list that is read are those that its operations define, in their order. -/
theorem map_assigned?_of_readEffects {index : Nat} {reply : Reply} (h : readEffects index ops entries = .ok reply) :
    ((ops.zip reply.effects).filterMap Transaction.assigned?).map (·.1) = ops.filterMap Operation.defined? := by
  induction ops generalizing index entries reply with
  | nil => rfl
  | cons op ops ih =>
    obtain ⟨entry, rest, effect, tail, rfl, hreport, htail, rfl⟩ := exists_of_readEffects_cons h
    have hhead := hreport.map_assigned?
    rw [show (op :: ops).zip (prependEffect op effect tail).effects = (op, effect) :: ops.zip tail.effects from rfl]
    cases hassigned : Transaction.assigned? (op, effect) with
    | none =>
      rw [hassigned] at hhead
      rw [List.filterMap_cons_none hassigned, List.filterMap_cons_none hhead.symm, ih htail]
    | some pair =>
      rw [hassigned] at hhead
      rw [List.filterMap_cons_some hassigned, List.filterMap_cons_some hhead.symm, List.map_cons, ih htail]

/-- The effects that are read give the placeholders the identifiers that were noted while reading. -/
theorem assignment_of_readEffects_eq {index : Nat} {reply : Reply} (h : readEffects index ops entries = .ok reply)
    (hnodup : (ops.filterMap Operation.defined?).Nodup) :
    reply.assignment = .ofList ((ops.zip reply.effects).filterMap Transaction.assigned?) := by
  induction ops generalizing index entries reply with
  | nil =>
    cases eq_of_readEffects_nil h
    rfl
  | cons op ops ih =>
    rw [← map_assigned?_of_readEffects h] at hnodup
    obtain ⟨entry, rest, effect, tail, rfl, hreport, htail, rfl⟩ := exists_of_readEffects_cons h
    rw [assignment_prependEffect]
    rw [show (op :: ops).zip (prependEffect op effect tail).effects = (op, effect) :: ops.zip tail.effects from rfl] at hnodup ⊢
    cases hassigned : Transaction.assigned? (op, effect) with
    | none =>
      rw [List.filterMap_cons_none hassigned] at hnodup ⊢
      rw [map_assigned?_of_readEffects htail] at hnodup
      exact ih htail hnodup
    | some pair =>
      rw [List.filterMap_cons_some hassigned] at hnodup ⊢
      obtain ⟨hfresh, hnodup⟩ := List.nodup_cons.mp hnodup
      rw [SortedMap.ofList_cons_of_not_mem hfresh, ← ih htail (map_assigned?_of_readEffects htail ▸ hnodup)]
      rfl

/-- A reply that is read has one effect for each operation. -/
theorem length_of_readReply {reply : Json} {read : Reply} (h : readReply txn reply = .ok read) : read.effects.length = txn.size := by
  obtain ⟨entries, rfl, -⟩ := exists_readReply_iff.mp ⟨read, h⟩
  exact (effects_of_readEffects h).1

/-- What is noted while a reply is read is what its effects say. -/
theorem assignment_of_readReply_eq {reply : Json} {read : Reply} (h : readReply txn reply = .ok read) :
    read.assignment = txn.assignment read.effects := by
  obtain ⟨entries, rfl, -⟩ := exists_readReply_iff.mp ⟨read, h⟩
  exact assignment_of_readEffects_eq h (Transaction.nodup_defined txn.scopeFault?_operations)

/-- An operation that a refusal blames is there. -/
theorem exists_blamed {reply : Json} {refusal : Refusal} (h : readReply txn reply = .error refusal) {i : Nat}
    (hi : refusal.index = some i) : ∃ op, txn.operations[i]? = some op := by
  obtain ⟨entries, -, ⟨op, hop, -⟩, -⟩ := ((index_of_readReply h).1 i).mp hi
  exact ⟨op, hop⟩

end Wire

/-- The operation that a refusal blames, if it blames one. -/
def Transaction.Blames (txn : Transaction) (refusal : Refusal) (op : Option Operation) : Prop :=
  match refusal.index with
  | some i => ∃ blamed, txn.operations[i]? = some blamed ∧ op = some blamed
  | none => op = none

/-- What was read of a reply is settled as it was read. -/
theorem Transaction.settle_ofCall (txn : Transaction) (reply : Json) :
    txn.settle (.ofCall txn (.ok reply)) = (Wire.readReply txn reply).mapError txn.refused := by
  rw [Outcome.ofCall]
  cases hread : Wire.readReply txn reply with
  | error refusal => rfl
  | ok read =>
    show (if read.effects.length = txn.size then _ else _) = _
    rw [if_pos (Wire.length_of_readReply hread), ← Wire.assignment_of_readReply_eq hread]
    rfl

/-- A refusal blames the operation at the place that it names, and none when it names no place. -/
theorem Transaction.blames_iff {txn : Transaction} {reply : Json} {refusal : Refusal} (h : Wire.readReply txn reply = .error refusal)
    {op : Option Operation} : txn.Blames refusal op ↔ op = refusal.index.bind (txn.operations[·]?) := by
  rw [Blames]
  cases hindex : refusal.index with
  | none => exact Iff.rfl
  | some i =>
    obtain ⟨blamed, hblamed⟩ := Wire.exists_blamed h hindex
    simp only [Option.bind_some, hblamed, Option.some.injEq, exists_eq_left']

/-- Where the remote database gives a reply, the submitter of a transaction is told what is read from it: the effects and the identifiers
of the placeholders when it can be read, and otherwise the refusal, with the operation that it blames. -/
theorem Executor.submits_as_read {τ : Type} (database : String) (connection : Connection τ) (state : τ) (txn : Transaction) (reply : Json)
    (hcall : (connection state "transact" (Wire.writeTransaction database txn)).1 = .ok reply) :
    (∀ read, ((remote database connection).submit state txn).1 = .ok read ↔ Wire.readReply txn reply = .ok read) ∧
    (∀ e, ((remote database connection).submit state txn).1 = .error e ↔
      ∃ refusal op, Wire.readReply txn reply = .error refusal ∧ txn.Blames refusal op ∧ e = .refused refusal op) ∧
    ((remote database connection).submit state txn).2 = (connection state "transact" (Wire.writeTransaction database txn)).2 := by
  have hanswer : ((remote database connection).submit state txn).1 = (Wire.readReply txn reply).mapError txn.refused := by
    rw [← txn.settle_ofCall reply, ← hcall]
    rfl
  refine ⟨fun read => ?_, fun e => ?_, rfl⟩
  · rw [hanswer]
    cases Wire.readReply txn reply <;> simp [Except.mapError]
  · rw [hanswer]
    cases hread : Wire.readReply txn reply with
    | ok read => simp [Except.mapError]
    | error refusal =>
      simp only [Except.mapError, Except.error.injEq, exists_and_left, exists_eq_left', Transaction.blames_iff hread, exists_eq_left]
      exact eq_comm

/-- A remote database that gives the same reply to every call, and counts the calls. -/
def Connection.fixed (reply : Json) : Connection Nat := fun calls _ _ => (.ok reply, calls + 1)

/-- Two ports are inserted, the second under a placeholder. -/
def Transaction.twoPorts : Transaction where
  operations := [.insert "Port" (.singleton "name" (.string "a")) none,
    .insert "Port" (.singleton "name" (.string "b")) (some ⟨"row_b", by decide⟩)]
  wellScoped := by decide

/-- An entry of a reply with the identifier of a row. -/
def Json.identified (id : RowId) : Json := .object [("uuid", .array [.text "uuid", .text id.text])]

/-- The placeholder stands for the second row when both are inserted, and the second insert is shown when it is refused. -/
theorem Executor.submits_as_read_twoPorts :
    let id := Draws.rowIds 0
    let inserted : Json := .array [.identified (id 0), .identified (id 1)]
    let refused : Json := .array [.identified (id 0), .object [("error", .text "constraint violation")]]
    ((remote "OVN_Northbound" (.fixed inserted)).submit 0 .twoPorts).1 =
      .ok ⟨[.inserted (id 0), .inserted (id 1)], .singleton ⟨"row_b", by decide⟩ (id 1)⟩ ∧
    ((remote "OVN_Northbound" (.fixed refused)).submit 0 .twoPorts).1 =
      .error (.refused ⟨some 1, .reported "constraint violation" ""⟩ Transaction.twoPorts.operations[1]?) := by
  intro id inserted refused
  have hread : Wire.readReply .twoPorts inserted =
      .ok ⟨[.inserted (id 0), .inserted (id 1)], .singleton ⟨"row_b", by decide⟩ (id 1)⟩ := by decide +kernel
  have hblamed : Wire.readReply .twoPorts refused = .error ⟨some 1, .reported "constraint violation" ""⟩ := by decide +kernel
  refine ⟨((submits_as_read "OVN_Northbound" (.fixed inserted) 0 .twoPorts inserted rfl).1 _).mpr hread, ?_⟩
  exact ((submits_as_read "OVN_Northbound" (.fixed refused) 0 .twoPorts refused rfl).2.1 _).mpr ⟨_, _, hblamed, ⟨_, rfl, rfl⟩, rfl⟩

end TableReplica
