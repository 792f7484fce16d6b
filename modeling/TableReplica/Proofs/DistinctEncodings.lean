import Mathlib.Data.List.Forall2
import TableReplica.RowId
import TableReplica.Proofs.Maps
import TableReplica.Wire.Transaction

/-!
# Encodings that differ

An operation that is sent can be told from every other one by what is sent, as long as its reals are finite: what is not finite has no
JSON number, so all of it is sent as null. Only one thing is not sent, namely whether an identifier was given as a value or as a
reference to its row (`Operation.asReferences`). In particular a placeholder is never sent as any value is
(`Wire.tells_operations_apart`).
-/

namespace TableReplica

/-! ## Finite reals -/

namespace Value

mutual

/-- All reals in the value are finite, in the sets within sets too. -/
def allFinite : Value → Bool
  | .real x => x.isFinite
  | .set items => membersAllFinite items
  | _ => true

def membersAllFinite : List Value → Bool
  | [] => true
  | v :: rest => allFinite v && membersAllFinite rest

end

end Value

def Row.allFinite (row : Row) : Bool := row.values.all Value.allFinite

def Operand.allFinite : Operand → Bool
  | .plain v => v.allFinite
  | .reference _ => true

/-- All reals in the conditions of a filter are finite. -/
def Condition.allFiniteIn (filter : List Condition) : Bool := filter.all (·.operand.allFinite)

def Operation.allFinite : Operation → Bool
  | .insert _ row _ => row.allFinite
  | .update _ changes filter => changes.allFinite && Condition.allFiniteIn filter
  | .delete _ filter => Condition.allFiniteIn filter
  | .mutate _ _ _ operand filter => operand.allFinite && Condition.allFiniteIn filter
  | .select _ filter => Condition.allFiniteIn filter

/-! ## Identifiers as references -/

/-- An identifier given as a value is taken for a reference to its row. -/
def Operand.asReference : Operand → Operand
  | .plain (.uuid u) => .reference (.resolved u)
  | operand => operand

def Condition.asReference (c : Condition) : Condition := { c with operand := c.operand.asReference }

/-- The operation with references in the place of identifiers that its conditions and its mutation compare with. -/
def Operation.asReferences : Operation → Operation
  | .insert table row name => .insert table row name
  | .update table changes filter => .update table changes (filter.map Condition.asReference)
  | .delete table filter => .delete table (filter.map Condition.asReference)
  | .mutate table column mutator operand filter =>
    .mutate table column mutator operand.asReference (filter.map Condition.asReference)
  | .select table filter => .select table (filter.map Condition.asReference)

/-- Different comparisons are written differently. -/
theorem Comparison.token_inj {c c' : Comparison} (h : c.token = c'.token) : c = c' := by
  cases c <;> cases c' <;> first | rfl | exact absurd h (by decide)

theorem Mutator.token_inj {m m' : Mutator} (h : m.token = m'.token) : m = m' := by
  cases m <;> cases m' <;> first | rfl | exact absurd h (by decide)

namespace Wire

/-- Lists with equal images under a function have equal images under every function that tells their members apart no better. -/
theorem map_eq_of_map_eq {α β γ : Type} {f : α → β} {g : α → γ} {as bs : List α} (h : as.map f = bs.map f)
    (hinj : ∀ a ∈ as, ∀ b ∈ bs, f a = f b → g a = g b) : as.map g = bs.map g := by
  induction as generalizing bs with
  | nil =>
    cases bs with
    | nil => rfl
    | cons b bs => cases h
  | cons a as ih =>
    cases bs with
    | nil => cases h
    | cons b bs =>
      obtain ⟨hhead, htail⟩ := List.cons.inj h
      rw [List.map_cons, List.map_cons, hinj a List.mem_cons_self b List.mem_cons_self hhead]
      congr 1
      exact ih htail (fun a' ha' b' hb' => hinj a' (List.mem_cons_of_mem a ha') b' (List.mem_cons_of_mem b hb'))

/-! ## Values -/

/-- Tagged values are equal only if tags and values are. -/
theorem tagged_inj {tag tag' : String} {j j' : Json} : tagged tag j = tagged tag' j' ↔ tag = tag' ∧ j = j' := by
  simp [tagged]

theorem writeId_inj {u u' : RowId} (h : writeId u = writeId u') : u = u' := by
  have htext : u.text = u'.text := by simpa [writeId, tagged] using h
  exact RowId.eq_of_text_eq htext

theorem writeValue_real {x : Binary64} (h : x.isFinite = true) : writeValue (.real x) = .real x := by
  rw [writeValue, if_pos h]

/-- A value is written as an identifier is only if it is one. -/
theorem eq_uuid_of_writeValue {v : Value} {u : RowId} (h : writeValue v = writeId u) : v = .uuid u := by
  cases v with
  | uuid u' => rw [writeId_inj h]
  | real x =>
    rw [writeValue] at h
    split at h <;> cases h
  | set items => exact absurd (tagged_inj.mp h).1 (by decide)
  | map entries => exact absurd (tagged_inj.mp h).1 (by decide)
  | _ => cases h

mutual

/-- Each kind of value is written in a way of its own, and within a kind nothing is lost. -/
theorem writeValue_inj {v w : Value} (hv : v.allFinite = true) (hw : w.allFinite = true) (h : writeValue v = writeValue w) : v = w := by
  cases v with
  | uuid u => exact (eq_uuid_of_writeValue h.symm).symm
  | real x =>
    rw [writeValue_real hv] at h
    cases w with
    | real y =>
      rw [writeValue_real hw] at h
      rw [Json.real.inj h]
    | _ => cases h
  | set items =>
    cases w with
    | set items' =>
      have hmembers : writeMembers items = writeMembers items' := by simpa [writeValue, tagged] using h
      rw [writeMembers_inj hv hw hmembers]
    | uuid u => exact absurd (tagged_inj.mp h).1 (by decide)
    | map entries => exact absurd (tagged_inj.mp h).1 (by decide)
    | real y =>
      rw [writeValue_real hw] at h
      cases h
    | _ => cases h
  | map entries =>
    cases w with
    | map entries' =>
      have hpairs : entries.entries.map (fun e => Json.array [.text e.1, .text e.2]) =
          entries'.entries.map (fun e => Json.array [.text e.1, .text e.2]) := by
        simpa [writeValue, tagged] using h
      have hentries := (List.map_inj_right (fun e e' he => by simpa [Prod.ext_iff] using he)).mp hpairs
      rw [SortedMap.eq_of_entries_eq hentries]
    | uuid u => exact absurd (tagged_inj.mp h).1 (by decide)
    | set items => exact absurd (tagged_inj.mp h).1 (by decide)
    | real y =>
      rw [writeValue_real hw] at h
      cases h
    | _ => cases h
  | string s =>
    cases w with
    | string s' => rw [Json.text.inj h]
    | real y =>
      rw [writeValue_real hw] at h
      cases h
    | _ => cases h
  | integer n =>
    cases w with
    | integer n' => rw [Int64.toInt_inj.mp (Json.integer.inj h)]
    | real y =>
      rw [writeValue_real hw] at h
      cases h
    | _ => cases h
  | boolean b =>
    cases w with
    | boolean b' => rw [Json.boolean.inj h]
    | real y =>
      rw [writeValue_real hw] at h
      cases h
    | _ => cases h

theorem writeMembers_inj {as bs : List Value} (ha : Value.membersAllFinite as = true) (hb : Value.membersAllFinite bs = true)
    (h : writeMembers as = writeMembers bs) : as = bs := by
  cases as with
  | nil =>
    cases bs with
    | nil => rfl
    | cons b bs => cases h
  | cons a as =>
    cases bs with
    | nil => cases h
    | cons b bs =>
      obtain ⟨hhead, htail⟩ := List.cons.inj h
      obtain ⟨ha, has⟩ := Bool.and_eq_true_iff.mp ha
      obtain ⟨hb, hbs⟩ := Bool.and_eq_true_iff.mp hb
      rw [writeValue_inj ha hb hhead, writeMembers_inj has hbs htail]

end

/-- Different rows of finite values are written differently. -/
theorem writeRow_inj {row row' : Row} (hrow : row.allFinite = true) (hrow' : row'.allFinite = true)
    (h : writeRow row = writeRow row') : row = row' := by
  have hmembers : row.entries.map (fun e => (e.1, writeValue e.2)) = row'.entries.map (fun e => (e.1, writeValue e.2)) :=
    Json.object.inj h
  have hentries : row.entries.map id = row'.entries.map id := by
    refine map_eq_of_map_eq hmembers (fun e he e' he' hee => ?_)
    obtain ⟨hcolumn, hvalue⟩ := Prod.ext_iff.mp hee
    have hfinite := List.all_eq_true.mp hrow e.2 (List.mem_map_of_mem he)
    have hfinite' := List.all_eq_true.mp hrow' e'.2 (List.mem_map_of_mem he')
    exact Prod.ext hcolumn (writeValue_inj hfinite hfinite' hvalue)
  rw [List.map_id, List.map_id] at hentries
  exact SortedMap.eq_of_entries_eq hentries

/-! ## References and values -/

/-- Different references are written differently, be they resolved or placeholders. -/
theorem writeReference_inj {r r' : RowReference} (h : writeReference r = writeReference r') : r = r' := by
  cases r with
  | resolved u =>
    cases r' with
    | resolved u' => rw [writeId_inj h]
    | named p' => exact absurd (tagged_inj.mp h).1 (by decide)
  | named p =>
    cases r' with
    | resolved u' => exact absurd (tagged_inj.mp h).1 (by decide)
    | named p' => rw [Placeholder.eq_of_text_eq (Json.text.inj (tagged_inj.mp h).2)]

/-- No value is sent as a placeholder is: those that are sent with a tag have another one. -/
theorem writeValue_ne_named (v : Value) (p : Placeholder) : writeValue v ≠ writeReference (.named p) := by
  intro h
  cases v with
  | uuid u => exact absurd (tagged_inj.mp h).1 (by decide)
  | set items => exact absurd (tagged_inj.mp h).1 (by decide)
  | map entries => exact absurd (tagged_inj.mp h).1 (by decide)
  | real x =>
    rw [writeValue] at h
    split at h <;> cases h
  | _ => cases h

/-- A value is sent as a reference is only if it is the identifier of the row. -/
theorem writeValue_eq_writeReference_iff {v : Value} {r : RowReference} :
    writeValue v = writeReference r ↔ ∃ u, v = .uuid u ∧ r = .resolved u := by
  constructor
  · intro h
    cases r with
    | resolved u => exact ⟨u, eq_uuid_of_writeValue h, rfl⟩
    | named p => exact absurd h (writeValue_ne_named v p)
  · rintro ⟨u, rfl, rfl⟩
    rfl

/-- A plain value that is written like a reference stands for the same as the reference. -/
theorem asReference_plain_eq {v : Value} {r : RowReference} (h : writeValue v = writeReference r) :
    (Operand.plain v).asReference = (Operand.reference r).asReference := by
  obtain ⟨u, rfl, rfl⟩ := writeValue_eq_writeReference_iff.mp h
  rfl

/-- An identifier is written alike as a value and as a reference. -/
theorem writeOperand_asReference (operand : Operand) : writeOperand operand.asReference = writeOperand operand := by
  cases operand with
  | reference r => rfl
  | plain v => cases v <;> rfl

/-- Operands that are written alike are the same once identifiers are taken for references. -/
theorem writeOperand_inj {a b : Operand} (ha : a.allFinite = true) (hb : b.allFinite = true) (h : writeOperand a = writeOperand b) :
    a.asReference = b.asReference := by
  cases a with
  | plain v =>
    cases b with
    | plain w => rw [writeValue_inj ha hb h]
    | reference r => exact asReference_plain_eq h
  | reference r =>
    cases b with
    | plain w => exact (asReference_plain_eq h.symm).symm
    | reference r' => rw [writeReference_inj h]

/-! ## Filters and mutations -/

theorem writeCondition_asReference (c : Condition) : writeCondition c.asReference = writeCondition c := by
  rw [writeCondition, writeCondition, Condition.asReference, writeOperand_asReference]

/-- Conditions that are written alike are the same once identifiers are taken for references. -/
theorem writeCondition_inj {c c' : Condition} (hc : c.operand.allFinite = true) (hc' : c'.operand.allFinite = true)
    (h : writeCondition c = writeCondition c') : c.asReference = c'.asReference := by
  obtain ⟨hcolumn, hcomparison, hoperand⟩ :
      c.column = c'.column ∧ c.comparison.token = c'.comparison.token ∧ writeOperand c.operand = writeOperand c'.operand := by
    simpa [writeCondition] using h
  rw [Condition.asReference, Condition.asReference, hcolumn, Comparison.token_inj hcomparison, writeOperand_inj hc hc' hoperand]

theorem writeFilter_asReference (filter : List Condition) : writeFilter (filter.map Condition.asReference) = writeFilter filter := by
  rw [writeFilter, writeFilter, List.map_map]
  exact congrArg Json.array (List.map_congr_left fun c _ => writeCondition_asReference c)

/-- Filters that are written alike are the same once identifiers are taken for references. -/
theorem writeFilter_inj {filter filter' : List Condition} (hf : Condition.allFiniteIn filter = true)
    (hf' : Condition.allFiniteIn filter' = true) (h : writeFilter filter = writeFilter filter') :
    filter.map Condition.asReference = filter'.map Condition.asReference :=
  map_eq_of_map_eq (Json.array.inj h) fun c hc c' hc' =>
    writeCondition_inj (List.all_eq_true.mp hf c hc) (List.all_eq_true.mp hf' c' hc')

/-- Filters are written alike exactly when they differ in nothing but identifiers as values or as references. -/
theorem writeFilter_eq_iff {filter filter' : List Condition} (hf : Condition.allFiniteIn filter = true)
    (hf' : Condition.allFiniteIn filter' = true) :
    writeFilter filter = writeFilter filter' ↔ filter.map Condition.asReference = filter'.map Condition.asReference := by
  refine ⟨writeFilter_inj hf hf', fun h => ?_⟩
  rw [← writeFilter_asReference filter, h, writeFilter_asReference]

/-- Mutations that are sent alike change the same column the same way by the same operand. -/
theorem mutation_inj {column column' : String} {mutator mutator' : Mutator} {operand operand' : Operand}
    (ha : operand.allFinite = true) (hb : operand'.allFinite = true)
    (h : Json.array [.text column, .text mutator.token, writeOperand operand] =
      .array [.text column', .text mutator'.token, writeOperand operand']) :
    column = column' ∧ mutator = mutator' ∧ operand.asReference = operand'.asReference := by
  obtain ⟨hcolumn, hmutator, hoperand⟩ :
      column = column' ∧ mutator.token = mutator'.token ∧ writeOperand operand = writeOperand operand' := by
    simpa using h
  exact ⟨hcolumn, Mutator.token_inj hmutator, writeOperand_inj ha hb hoperand⟩

/-! ## Operations -/

/-- Operations are written alike whether identifiers are values or references. -/
theorem writeOperation_asReferences (o : Operation) : writeOperation o.asReferences = writeOperation o := by
  cases o <;> simp [Operation.asReferences, writeOperation, writeFilter_asReference, writeOperand_asReference]

/-- Operations that are sent alike are of one kind, since the first member gives the kind away, and then alike part by part. -/
theorem writeOperation_inj {o o' : Operation} (ho : o.allFinite = true) (ho' : o'.allFinite = true)
    (h : writeOperation o = writeOperation o') : o.asReferences = o'.asReferences := by
  cases o with
  | insert table row name =>
    cases o' with
    | insert table' row' name' =>
      obtain ⟨hrow, rfl, hname⟩ : writeRow row = writeRow row' ∧ table = table' ∧
          name.toList.map (fun p => ("uuid-name", Json.text p.text)) = name'.toList.map (fun p => ("uuid-name", Json.text p.text)) := by
        simpa [writeOperation] using h
      have hnames : name.toList = name'.toList :=
        (List.map_inj_right (fun p p' hp => Placeholder.eq_of_text_eq (by simpa using hp))).mp hname
      have hsame : name = name' := by simpa using congrArg List.head? hnames
      rw [writeRow_inj ho ho' hrow, hsame]
    | _ => simp [writeOperation] at h
  | update table row filter =>
    cases o' with
    | update table' row' filter' =>
      obtain ⟨hrow, rfl, hfilter⟩ : writeRow row = writeRow row' ∧ table = table' ∧ writeFilter filter = writeFilter filter' := by
        simpa [writeOperation] using h
      obtain ⟨ho, hof⟩ := Bool.and_eq_true_iff.mp ho
      obtain ⟨ho', hof'⟩ := Bool.and_eq_true_iff.mp ho'
      rw [Operation.asReferences, Operation.asReferences, writeRow_inj ho ho' hrow, writeFilter_inj hof hof' hfilter]
    | _ => simp [writeOperation] at h
  | delete table filter =>
    cases o' with
    | delete table' filter' =>
      obtain ⟨rfl, hfilter⟩ : table = table' ∧ writeFilter filter = writeFilter filter' := by
        simpa [writeOperation] using h
      rw [Operation.asReferences, Operation.asReferences, writeFilter_inj ho ho' hfilter]
    | _ => simp [writeOperation] at h
  | mutate table column mutator operand filter =>
    cases o' with
    | mutate table' column' mutator' operand' filter' =>
      obtain ⟨hmutation, rfl, hfilter⟩ : Json.array [.text column, .text mutator.token, writeOperand operand] =
          .array [.text column', .text mutator'.token, writeOperand operand'] ∧ table = table' ∧
          writeFilter filter = writeFilter filter' := by
        simpa [writeOperation] using h
      obtain ⟨ho, hof⟩ := Bool.and_eq_true_iff.mp ho
      obtain ⟨ho', hof'⟩ := Bool.and_eq_true_iff.mp ho'
      obtain ⟨rfl, rfl, hoperand⟩ := mutation_inj ho ho' hmutation
      rw [Operation.asReferences, Operation.asReferences, hoperand, writeFilter_inj hof hof' hfilter]
    | _ => simp [writeOperation] at h
  | select table filter =>
    cases o' with
    | select table' filter' =>
      obtain ⟨rfl, hfilter⟩ : table = table' ∧ writeFilter filter = writeFilter filter' := by
        simpa [writeOperation] using h
      rw [Operation.asReferences, Operation.asReferences, writeFilter_inj ho ho' hfilter]
    | _ => simp [writeOperation] at h

/-- Operations are written alike exactly when they differ in nothing but identifiers as values or as references. -/
theorem writeOperation_eq_iff {o o' : Operation} (ho : o.allFinite = true) (ho' : o'.allFinite = true) :
    writeOperation o = writeOperation o' ↔ o.asReferences = o'.asReferences := by
  refine ⟨writeOperation_inj ho ho', fun h => ?_⟩
  rw [← writeOperation_asReferences o, h, writeOperation_asReferences]

/-- Transactions that are sent alike go to the same database and have operations that are sent alike, one for one. -/
theorem eq_of_writeTransaction {database database' : String} {txn txn' : Transaction}
    (h : writeTransaction database txn = writeTransaction database' txn') :
    database = database' ∧ List.Forall₂ (fun o o' => writeOperation o = writeOperation o') txn.operations txn'.operations := by
  obtain ⟨hdatabase, hoperations⟩ : database = database' ∧ txn.operations.map writeOperation = txn'.operations.map writeOperation := by
    simpa [writeTransaction] using h
  refine ⟨hdatabase, ?_⟩
  rw [← List.forall₂_eq_eq_eq, List.forall₂_map_left_iff, List.forall₂_map_right_iff] at hoperations
  exact hoperations

/-- What is sent tells finite operations apart, and so do the filters and the mutations within: alike on the wire are those, and only
those, that agree once every identifier compared with is taken for a reference. The lists of operations of transactions that are
sent alike agree one for one, and the databases are the same. No value whatever is sent as a placeholder is. -/
theorem tells_operations_apart :
    (∀ o o' : Operation, o.allFinite = true → o'.allFinite = true →
      (writeOperation o = writeOperation o' ↔ o.asReferences = o'.asReferences)) ∧
    (∀ (database database' : String) (txn txn' : Transaction), writeTransaction database txn = writeTransaction database' txn' →
      database = database' ∧
      List.Forall₂ (fun o o' => o.allFinite = true → o'.allFinite = true → o.asReferences = o'.asReferences)
        txn.operations txn'.operations) ∧
    (∀ filter filter' : List Condition, Condition.allFiniteIn filter = true → Condition.allFiniteIn filter' = true →
      (writeFilter filter = writeFilter filter' ↔ filter.map Condition.asReference = filter'.map Condition.asReference)) ∧
    (∀ (column column' : String) (mutator mutator' : Mutator) (operand operand' : Operand),
      operand.allFinite = true → operand'.allFinite = true →
      Json.array [.text column, .text mutator.token, writeOperand operand] =
        .array [.text column', .text mutator'.token, writeOperand operand'] →
      column = column' ∧ mutator = mutator' ∧ operand.asReference = operand'.asReference) ∧
    (∀ (v : Value) (p : Placeholder), writeValue v ≠ writeReference (.named p)) ∧
    ∀ (v : Value) (r : RowReference), writeValue v = writeReference r ↔ ∃ u, v = .uuid u ∧ r = .resolved u := by
  refine ⟨fun _ _ => writeOperation_eq_iff, fun database database' txn txn' h => ?_, fun _ _ => writeFilter_eq_iff,
    fun _ _ _ _ _ _ => mutation_inj, writeValue_ne_named, fun _ _ => writeValue_eq_writeReference_iff⟩
  obtain ⟨hdatabase, hoperations⟩ := eq_of_writeTransaction h
  exact ⟨hdatabase, hoperations.imp fun _ _ halike ho ho' => writeOperation_inj ho ho' halike⟩

/-- A transaction that adds one row to the ports of a bridge. -/
def portAdded (operand : Operand) : Operation := .mutate "Bridge" "ports" .insert operand [.isRow (.resolved (Draws.rowIds 0 0))]

/-- The row to add as its identifier and as a reference are sent alike; as a set of one it is sent another way. -/
theorem tells_operations_apart_portAdded :
    let port := Draws.rowIds 0 1
    let byId : Transaction := ⟨[portAdded (.plain (.uuid port))], by decide +kernel⟩
    let byReference : Transaction := ⟨[portAdded (.reference (.resolved port))], by decide +kernel⟩
    writeOperation (portAdded (.plain (.uuid port))) ≠ writeOperation (portAdded (.plain (.set [.uuid port]))) ∧
    writeTransaction "network" byId = writeTransaction "network" byReference ∧
    List.Forall₂ (fun o o' => o.asReferences = o'.asReferences) byId.operations byReference.operations := by
  intro port byId byReference
  obtain ⟨hoperations, htransactions, -⟩ := tells_operations_apart
  have hsent : writeTransaction "network" byId = writeTransaction "network" byReference :=
    congrArg (fun j => Json.array [.text "network", j]) ((hoperations _ _ rfl rfl).mpr rfl)
  refine ⟨fun h => absurd ((hoperations _ _ rfl rfl).mp h) (by decide +kernel), hsent, ?_⟩
  obtain ⟨-, halike⟩ := htransactions _ _ _ _ hsent
  cases halike with
  | cons hhead _ => exact .cons (hhead rfl rfl) .nil

end Wire

end TableReplica
