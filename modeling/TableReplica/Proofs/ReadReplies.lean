import TableReplica.Proofs.Placeholders
import TableReplica.Wire.Transaction

/-!
# Replies that are read

An entry of a reply is good for its operation when it carries no error and has what the operation needs (`Wire.Entry.Fits`). A reply is
read exactly when it has a good entry for each operation and no error behind them, and otherwise the first operation without a good
entry is blamed, or none when there is no such operation (`Wire.reads_replies`).
-/

namespace TableReplica.Wire

/-! ## Entries -/

/-- The entry carries an error, with or without details. -/
def CarriesError (entry : Json) : Prop := ∃ code, entry.member? "error" = some (.text code)

/-- The entry has what is read from it for the operation: the identifier of an insert, the rows of a select. -/
def WellFormed : Operation → Json → Prop
  | .insert _ _ _, entry => ∃ text id, entry.member? "uuid" = some (.array [.text "uuid", .text text]) ∧ RowId.parse text = .ok id
  | .select _ _, entry => ∃ items, entry.member? "rows" = some (.array items) ∧ ∀ item ∈ items, ∃ row, readRow none item = .ok row
  | _, _ => True

/-- What an entry says that an operation did. A count that is missing or none is zero. -/
inductive Reports (entry : Json) : Operation → Effect → Prop where
  | inserted {table row name text id} : entry.member? "uuid" = some (.array [.text "uuid", .text text]) → RowId.parse text = .ok id →
      Reports entry (.insert table row name) (.inserted id)
  | selected {table filter items rows} : entry.member? "rows" = some (.array items) → items.map (readRow none) = rows.map .ok →
      Reports entry (.select table filter) (.selected rows)
  | met {op} : op.changesMatches = true → Reports entry op (.met (((entry.member? "count").bind Json.count?).getD 0))

variable {entry : Json} {op : Operation} {effect : Effect}

theorem text?_eq_some_iff {j : Json} {s : String} : j.text? = some s ↔ j = .text s := by
  cases j <;> simp [Json.text?]

theorem items?_eq_some_iff {j : Json} {items : List Json} : j.items? = some items ↔ j = .array items := by
  cases j <;> simp [Json.items?]

/-- An entry carries an error when one is reported by it. -/
theorem carriesError_iff : CarriesError entry ↔ ∃ cause, reportedError? entry = some cause := by
  constructor
  · rintro ⟨code, hcode⟩
    rw [reportedError?, hcode]
    exact ⟨_, rfl⟩
  · rintro ⟨cause, hcause⟩
    obtain ⟨code, hcode, -⟩ := Option.map_eq_some_iff.mp hcause
    obtain ⟨j, hj, htext⟩ := Option.bind_eq_some_iff.mp hcode
    exact ⟨code, text?_eq_some_iff.mp htext ▸ hj⟩

/-- No error is reported by an entry that carries none. -/
theorem reportedError?_eq_none_iff : reportedError? entry = none ↔ ¬CarriesError entry := by
  rw [carriesError_iff, Option.eq_none_iff_forall_ne_some, not_exists]

/-- Only a tagged text of the layout of identifiers is read as one. -/
theorem readScalar_eq_uuid_iff {j : Json} {id : RowId} :
    readScalar j = .ok (.uuid id) ↔ ∃ text, j = .array [.text "uuid", .text text] ∧ RowId.parse text = .ok id := by
  constructor
  · intro h
    have hreal : ∀ x, readScalar.finiteReal x ≠ .ok (.uuid id) := by
      intro x hx
      unfold readScalar.finiteReal at hx
      split at hx <;> cases hx
    unfold readScalar at h
    split at h
    · cases h
    · cases h
    · split at h
      · cases h
      · exact (hreal _ h).elim
    · exact (hreal _ h).elim
    · split at h
      · rename_i htag
        split at h
        · obtain ⟨_, hparse, heq⟩ := map_eq_ok_iff.mp h
          cases heq
          exact ⟨_, by rw [htag], hparse⟩
        · cases h
      · cases h
    · cases h
  · rintro ⟨text, rfl, hparse⟩
    rw [readScalar, if_pos rfl, hparse]
    rfl

/-- An identifier is read from an entry where it is tagged as one and is well spelled. -/
theorem assignedId?_eq_some_iff {id : RowId} : assignedId? entry = some id ↔
    ∃ text, entry.member? "uuid" = some (.array [.text "uuid", .text text]) ∧ RowId.parse text = .ok id := by
  constructor
  · intro h
    obtain ⟨j, hj, h⟩ := Option.bind_eq_some_iff.mp h
    obtain ⟨v, hv, hid⟩ := Option.bind_eq_some_iff.mp h
    cases Value.rowId?_eq_some_iff.mp hid
    cases hread : readScalar j with
    | error e =>
      rw [hread] at hv
      cases hv
    | ok v =>
      rw [hread] at hv
      cases hv
      obtain ⟨text, rfl, hparse⟩ := readScalar_eq_uuid_iff.mp hread
      exact ⟨text, hj, hparse⟩
  · rintro ⟨text, hmember, hparse⟩
    rw [assignedId?, hmember, Option.bind_some, readScalar_eq_uuid_iff.mpr ⟨text, rfl, hparse⟩]
    rfl

/-- What is read from an entry is what it says, unless it carries an error. -/
theorem readEffect_eq_ok_iff : readEffect op entry = .ok effect ↔ ¬CarriesError entry ∧ Reports entry op effect := by
  rw [← reportedError?_eq_none_iff]
  unfold readEffect
  cases herror : reportedError? entry with
  | some cause => exact ⟨nofun, fun h => nomatch h.1⟩
  | none =>
    simp only [true_and]
    constructor
    · intro h
      split at h
      · split at h
        · rename_i hid
          cases h
          obtain ⟨text, hmember, hparse⟩ := assignedId?_eq_some_iff.mp hid
          exact .inserted hmember hparse
        · cases h
      · split at h
        · rename_i items hitems
          split at h
          · rename_i rows hrows
            cases h
            obtain ⟨j, hj, hitems⟩ := Option.bind_eq_some_iff.mp hitems
            exact .selected (items?_eq_some_iff.mp hitems ▸ hj) (mapM_eq_ok_iff.mp hrows)
          · cases h
        · cases h
      · rename_i hinsert hselect
        cases h
        refine .met ?_
        cases op with
        | insert table row name => exact (hinsert table row name rfl).elim
        | select table filter => exact (hselect table filter rfl).elim
        | _ => rfl
    · rintro (⟨hmember, hparse⟩ | ⟨hmember, hrows⟩ | hchanges)
      · simp only [assignedId?_eq_some_iff.mpr ⟨_, hmember, hparse⟩]
      · simp only [hmember, Option.bind_some, Json.items?, mapM_eq_ok_iff.mpr hrows]
      · cases op with
        | insert table row name => cases hchanges
        | select table filter => cases hchanges
        | _ => rfl

/-- An entry says what its operation did exactly if it is well formed. -/
theorem exists_reports_iff : (∃ effect, Reports entry op effect) ↔ WellFormed op entry := by
  constructor
  · rintro ⟨_, ⟨hmember, hparse⟩ | ⟨hmember, hrows⟩ | hchanges⟩
    · exact ⟨_, _, hmember, hparse⟩
    · refine ⟨_, hmember, fun item hitem => ?_⟩
      have hread := List.mem_map_of_mem (f := readRow none) hitem
      rw [hrows] at hread
      obtain ⟨row, -, hrow⟩ := List.mem_map.mp hread
      exact ⟨row, hrow.symm⟩
    · cases op with
      | insert table row name => cases hchanges
      | select table filter => cases hchanges
      | _ => trivial
  · intro h
    cases op with
    | insert table row name =>
      obtain ⟨text, id, hmember, hparse⟩ := h
      exact ⟨_, .inserted hmember hparse⟩
    | select table filter =>
      obtain ⟨items, hmember, hrows⟩ := h
      obtain ⟨rows, hrows⟩ := exists_mapM_eq_ok hrows
      exact ⟨_, .selected hmember (mapM_eq_ok_iff.mp hrows)⟩
    | _ => exact ⟨_, .met rfl⟩

/-- An entry is read as an effect exactly when it carries no error and is well formed for its operation. -/
theorem exists_readEffect_iff : (∃ effect, readEffect op entry = .ok effect) ↔ ¬CarriesError entry ∧ WellFormed op entry := by
  simp only [readEffect_eq_ok_iff, exists_and_left, exists_reports_iff]

/-! ## Lists of entries -/

/-- The operation at an index has no entry, or one that carries an error or is not well formed. -/
def Faulty (ops : List Operation) (entries : List Json) (i : Nat) : Prop :=
  ∃ op, ops[i]? = some op ∧
    (entries[i]? = none ∨ ∃ entry, entries[i]? = some entry ∧ (CarriesError entry ∨ ¬WellFormed op entry))

/-- The entry behind those of the operations carries an error. -/
def TrailedByError (ops : List Operation) (entries : List Json) : Prop := ∃ last, entries[ops.length]? = some last ∧ CarriesError last

/-- Every operation has a well-formed entry, and neither they nor the entry behind them carry an error. -/
structure Accepts (ops : List Operation) (entries : List Json) : Prop where
  enough : ops.length ≤ entries.length
  clear : ∀ (i : Nat) (entry : Json), i ≤ ops.length → entries[i]? = some entry → ¬CarriesError entry
  wellFormed : ∀ (i : Nat) (op : Operation) (entry : Json), ops[i]? = some op → entries[i]? = some entry → WellFormed op entry

variable {ops : List Operation} {entries : List Json}

/-- A list of entries is accepted when none is faulty and no error trails it. -/
theorem accepts_iff : Accepts ops entries ↔ (∀ i, ¬Faulty ops entries i) ∧ ¬TrailedByError ops entries := by
  constructor
  · intro h
    refine ⟨?_, ?_⟩
    · rintro i ⟨op, hop, hnone | ⟨entry, hentry, herror | hform⟩⟩
      · have hlt := (List.getElem?_eq_some_iff.mp hop).1
        have hle := List.getElem?_eq_none_iff.mp hnone
        have := h.enough
        omega
      · exact h.clear i entry (Nat.le_of_lt (List.getElem?_eq_some_iff.mp hop).1) hentry herror
      · exact hform (h.wellFormed i op entry hop hentry)
    · rintro ⟨last, hlast, herror⟩
      exact h.clear ops.length last (Nat.le_refl _) hlast herror
  · rintro ⟨hfaulty, htrailed⟩
    refine ⟨?_, ?_, ?_⟩
    · by_contra hlt
      have hlt := Nat.lt_of_not_le hlt
      exact hfaulty entries.length ⟨_, List.getElem?_eq_getElem hlt, Or.inl (List.getElem?_eq_none (Nat.le_refl _))⟩
    · intro i entry hi hentry herror
      rcases Nat.lt_or_eq_of_le hi with hi | rfl
      · exact hfaulty i ⟨_, List.getElem?_eq_getElem hi, Or.inr ⟨entry, hentry, Or.inl herror⟩⟩
      · exact htrailed ⟨entry, hentry, herror⟩
    · intro i op entry hop hentry
      by_contra hform
      exact hfaulty i ⟨op, hop, Or.inr ⟨entry, hentry, Or.inr hform⟩⟩

theorem not_faulty_nil (i : Nat) : ¬Faulty [] entries i := by
  rintro ⟨op, hop, -⟩
  cases hop

/-- The first entry is faulty when it is not read as an effect. -/
theorem faulty_cons_zero : Faulty (op :: ops) (entry :: entries) 0 ↔ ¬∃ effect, readEffect op entry = .ok effect := by
  rw [exists_readEffect_iff, not_and_or, not_not]
  constructor
  · rintro ⟨_, hop, hnone | ⟨_, hentry, h⟩⟩
    · cases hnone
    · cases hop
      cases hentry
      exact h
  · intro h
    exact ⟨op, rfl, Or.inr ⟨entry, rfl, h⟩⟩

/-- How the reading of a list of entries may end: with a reply, at the first operation that is faulty, or behind the last. -/
inductive Outcome (index : Nat) (ops : List Operation) (entries : List Json) : Except Refusal Reply → Prop where
  | read {reply} : (∀ i, ¬Faulty ops entries i) → ¬TrailedByError ops entries → Outcome index ops entries (.ok reply)
  | blamed {i cause} : Faulty ops entries i → (∀ k < i, ¬Faulty ops entries k) →
      Outcome index ops entries (.error ⟨some (index + i), cause⟩)
  | trailed {cause} : (∀ i, ¬Faulty ops entries i) → TrailedByError ops entries → Outcome index ops entries (.error ⟨none, cause⟩)

/-- Reading a list of entries has one of the outcomes, whichever number the first has. -/
theorem outcome_readEffects (index : Nat) (ops : List Operation) (entries : List Json) :
    Outcome index ops entries (readEffects index ops entries) := by
  induction ops generalizing index entries with
  | nil =>
    cases entries with
    | nil => exact .read not_faulty_nil nofun
    | cons extra rest =>
      rw [readEffects]
      split
      · rename_i cause hcause
        exact .trailed not_faulty_nil ⟨extra, rfl, carriesError_iff.mpr ⟨cause, hcause⟩⟩
      · rename_i hnone
        refine .read not_faulty_nil ?_
        rintro ⟨_, hlast, herror⟩
        cases hlast
        exact reportedError?_eq_none_iff.mp hnone herror
  | cons op ops ih =>
    cases entries with
    | nil => exact .blamed (i := 0) ⟨op, rfl, Or.inl rfl⟩ nofun
    | cons entry entries =>
      rw [readEffects]
      split
      · rename_i cause hcause
        have hfaulty : Faulty (op :: ops) (entry :: entries) 0 := by
          rw [faulty_cons_zero, hcause]
          nofun
        exact .blamed hfaulty nofun
      · rename_i effect heffect
        have hzero : ¬Faulty (op :: ops) (entry :: entries) 0 := fun h => faulty_cons_zero.mp h ⟨effect, heffect⟩
        have hall : (∀ i, ¬Faulty ops entries i) → ∀ i, ¬Faulty (op :: ops) (entry :: entries) i := by
          intro hnone i
          cases i with
          | zero => exact hzero
          | succ i => exact hnone i
        have hrest := ih (index + 1) entries
        generalize readEffects (index + 1) ops entries = result at hrest
        cases hrest with
        | read hnone htrailed => exact .read (hall hnone) htrailed
        | trailed hnone htrailed => exact .trailed (hall hnone) htrailed
        | @blamed i cause hfaulty hleast =>
          rw [Nat.add_right_comm, Nat.add_assoc]
          refine .blamed hfaulty ?_
          intro k hk
          cases k with
          | zero => exact hzero
          | succ k => exact hleast k (Nat.lt_of_succ_lt_succ hk)

/-- A list of entries is read exactly when it is accepted. -/
theorem exists_readEffects_iff {index : Nat} : (∃ reply, readEffects index ops entries = .ok reply) ↔ Accepts ops entries := by
  rw [accepts_iff]
  have houtcome := outcome_readEffects index ops entries
  generalize readEffects index ops entries = result at houtcome
  cases houtcome with
  | read hnone htrailed => exact ⟨fun _ => ⟨hnone, htrailed⟩, fun _ => ⟨_, rfl⟩⟩
  | blamed hfaulty _ => exact ⟨nofun, fun h => (h.1 _ hfaulty).elim⟩
  | trailed _ htrailed => exact ⟨nofun, fun h => (h.2 htrailed).elim⟩

/-- A refusal names the least faulty entry, and none when only an error trails the list. -/
theorem index_of_readEffects {refusal : Refusal} (h : readEffects 0 ops entries = .error refusal) :
    (∀ i, refusal.index = some i ↔ Faulty ops entries i ∧ ∀ k < i, ¬Faulty ops entries k) ∧
      (refusal.index = none ↔ (∀ i, ¬Faulty ops entries i) ∧ TrailedByError ops entries) := by
  have houtcome := outcome_readEffects 0 ops entries
  rw [h] at houtcome
  cases houtcome with
  | @blamed i cause hfaulty hleast =>
    rw [Nat.zero_add]
    refine ⟨fun j => ⟨?_, ?_⟩, nofun, fun h => (h.1 i hfaulty).elim⟩
    · intro hj
      cases hj
      exact ⟨hfaulty, hleast⟩
    · rintro ⟨hfaulty', hleast'⟩
      have hle : ¬i < j := fun hlt => hleast' i hlt hfaulty
      have hge : ¬j < i := fun hlt => hleast j hlt hfaulty'
      exact congrArg some (by omega)
  | trailed hnone htrailed => exact ⟨fun i => ⟨nofun, fun h => (hnone i h.1).elim⟩, fun _ => ⟨hnone, htrailed⟩, fun _ => rfl⟩

/-! ## What is read -/

theorem eq_of_readEffects_nil {index : Nat} {reply : Reply} (h : readEffects index [] entries = .ok reply) : reply = ⟨[], ∅⟩ := by
  cases entries with
  | nil => exact (Except.ok.inj h).symm
  | cons extra rest =>
    rw [readEffects] at h
    split at h
    · cases h
    · exact (Except.ok.inj h).symm

/-- The effects of a list are that of its first entry and then those of the rest. -/
theorem exists_of_readEffects_cons {index : Nat} {reply : Reply} (h : readEffects index (op :: ops) entries = .ok reply) :
    ∃ entry rest effect tail, entries = entry :: rest ∧ Reports entry op effect ∧ readEffects (index + 1) ops rest = .ok tail ∧
      reply = prependEffect op effect tail := by
  cases entries with
  | nil => cases h
  | cons entry rest =>
    rw [readEffects] at h
    split at h
    · cases h
    · rename_i effect heffect
      obtain ⟨tail, htail, rfl⟩ := map_eq_ok_iff.mp h
      exact ⟨entry, rest, effect, tail, rfl, (readEffect_eq_ok_iff.mp heffect).2, htail, rfl⟩

/-- The effects are read one by one, each from the entry of its operation. -/
theorem effects_of_readEffects {index : Nat} {reply : Reply} (h : readEffects index ops entries = .ok reply) :
    reply.effects.length = ops.length ∧ ∀ (i : Nat) (op : Operation) (entry : Json), ops[i]? = some op → entries[i]? = some entry →
      ∃ effect, reply.effects[i]? = some effect ∧ Reports entry op effect := by
  induction ops generalizing index entries reply with
  | nil =>
    cases eq_of_readEffects_nil h
    exact ⟨rfl, nofun⟩
  | cons op ops ih =>
    obtain ⟨entry, rest, effect, tail, rfl, hreport, htail, rfl⟩ := exists_of_readEffects_cons h
    obtain ⟨hlength, hreports⟩ := ih htail
    refine ⟨congrArg (· + 1) hlength, ?_⟩
    intro i op' entry' hop hentry
    cases i with
    | zero =>
      cases hop
      cases hentry
      exact ⟨effect, rfl, hreport⟩
    | succ i => exact hreports i op' entry' hop hentry

/-- An operation that defines nothing assigns nothing. -/
theorem assignment_prependEffect_of_none (h : op.defined? = none) (reply : Reply) :
    (prependEffect op effect reply).assignment = reply.assignment := by
  simp only [prependEffect, h]

/-- An operation that defines a placeholder assigns it the inserted identifier. -/
theorem assignment_prependEffect_of_some {p : Placeholder} (h : op.defined? = some p) (id : RowId) (reply : Reply) :
    (prependEffect op (.inserted id) reply).assignment = reply.assignment.insert p id := by
  simp only [prependEffect, h]

/-- An operation that defines a placeholder is reported to have inserted a row. -/
theorem Reports.exists_inserted {p : Placeholder} (h : Reports entry op effect) (hp : op.defined? = some p) :
    ∃ id, effect = .inserted id := by
  cases h with
  | inserted _ _ => exact ⟨_, rfl⟩
  | selected _ _ => cases hp
  | met hchanges =>
    cases op with
    | insert table row name => cases hchanges
    | _ => cases hp

/-- An identifier is noted for exactly the placeholders that are defined. -/
theorem contains_assignment_of_readEffects {index : Nat} {reply : Reply} (h : readEffects index ops entries = .ok reply)
    (p : Placeholder) : reply.assignment.contains p = true ↔ p ∈ ops.filterMap Operation.defined? := by
  induction ops generalizing index entries reply with
  | nil =>
    cases eq_of_readEffects_nil h
    exact ⟨nofun, nofun⟩
  | cons op ops ih =>
    obtain ⟨entry, rest, effect, tail, rfl, hreport, htail, rfl⟩ := exists_of_readEffects_cons h
    cases hdefined : op.defined? with
    | none => rw [assignment_prependEffect_of_none hdefined, List.filterMap_cons_none hdefined, ih htail]
    | some q =>
      obtain ⟨id, rfl⟩ := hreport.exists_inserted hdefined
      rw [assignment_prependEffect_of_some hdefined, List.filterMap_cons_some hdefined, List.mem_cons, ← ih htail, SortedMap.contains,
        SortedMap.get?_insert]
      by_cases heq : q = p
      · simp only [if_pos heq, Option.isSome_some, true_iff]
        exact Or.inl heq.symm
      · rw [if_neg heq, SortedMap.contains, or_iff_right (Ne.symm heq)]

/-- Where no placeholder is defined twice, each is noted with the identifier that its own insert was given. -/
theorem assignment_of_readEffects {index : Nat} {reply : Reply} (h : readEffects index ops entries = .ok reply)
    (hnodup : (ops.filterMap Operation.defined?).Nodup) {i : Nat} {p : Placeholder} (hop : ops[i]? = some op)
    (hp : op.defined? = some p) : ∃ id, reply.effects[i]? = some (.inserted id) ∧ reply.assignment.get? p = some id := by
  induction ops generalizing index entries reply i with
  | nil => cases hop
  | cons first ops ih =>
    obtain ⟨entry, rest, effect, tail, rfl, hreport, htail, rfl⟩ := exists_of_readEffects_cons h
    cases i with
    | zero =>
      cases hop
      obtain ⟨id, rfl⟩ := hreport.exists_inserted hp
      exact ⟨id, rfl, by rw [assignment_prependEffect_of_some hp, SortedMap.get?_insert_self]⟩
    | succ i =>
      cases hdefined : first.defined? with
      | none =>
        rw [List.filterMap_cons_none hdefined] at hnodup
        rw [assignment_prependEffect_of_none hdefined]
        exact ih htail hnodup hop
      | some q =>
        obtain ⟨id, rfl⟩ := hreport.exists_inserted hdefined
        rw [List.filterMap_cons_some hdefined, List.nodup_cons] at hnodup
        have hne : q ≠ p := by
          rintro rfl
          exact hnodup.1 (List.mem_filterMap.mpr ⟨op, List.mem_of_getElem? hop, hp⟩)
        rw [assignment_prependEffect_of_some hdefined, SortedMap.get?_insert_of_ne _ _ hne]
        exact ih htail hnodup.2 hop

/-! ## Whole replies -/

variable {txn : Transaction}

/-- A reply that is no list is refused, without a number. -/
theorem readReply_of_forall_ne {reply : Json} (h : ∀ entries, reply ≠ .array entries) :
    readReply txn reply = .error ⟨none, .replyNotList⟩ := by
  cases reply with
  | array entries => exact (h entries rfl).elim
  | _ => rfl

/-- A reply is read exactly when it is an accepted list of entries. -/
theorem exists_readReply_iff {reply : Json} :
    (∃ read, readReply txn reply = .ok read) ↔ ∃ entries, reply = .array entries ∧ Accepts txn.operations entries := by
  by_cases hlist : ∃ entries, reply = .array entries
  · obtain ⟨entries, rfl⟩ := hlist
    simp only [Json.array.injEq, exists_eq_left']
    exact exists_readEffects_iff
  · rw [readReply_of_forall_ne (fun entries heq => hlist ⟨entries, heq⟩)]
    exact ⟨nofun, fun ⟨entries, heq, _⟩ => (hlist ⟨entries, heq⟩).elim⟩

/-- A reply that is read assigns exactly the placeholders of the transaction. -/
theorem contains_assignment_of_readReply {entries : List Json} {read : Reply} (h : readReply txn (.array entries) = .ok read)
    (p : Placeholder) : read.assignment.contains p = txn.placeholders.contains p := by
  rw [Bool.eq_iff_iff, Transaction.contains_placeholders_iff]
  exact contains_assignment_of_readEffects h p

/-- A placeholder is assigned what the operation that defines it is reported to have inserted. -/
theorem assignment_of_readReply {entries : List Json} {read : Reply} (h : readReply txn (.array entries) = .ok read) {p : Placeholder}
    {i : Nat} (hp : txn.placeholders.get? p = some i) :
    ∃ id, read.effects[i]? = some (.inserted id) ∧ read.assignment.get? p = some id := by
  obtain ⟨op, hop, hdefined⟩ := Transaction.get?_placeholders_iff.mp hp
  exact assignment_of_readEffects h (Transaction.nodup_defined txn.scopeFault?_operations) hop hdefined

/-- A refusal names the least faulty entry, and none when the reply is no list or only an error trails it. -/
theorem index_of_readReply {reply : Json} {refusal : Refusal} (h : readReply txn reply = .error refusal) :
    (∀ i, refusal.index = some i ↔
        ∃ entries, reply = .array entries ∧ Faulty txn.operations entries i ∧ ∀ k < i, ¬Faulty txn.operations entries k) ∧
      (refusal.index = none ↔ (∀ entries, reply ≠ .array entries) ∨
        ∃ entries, reply = .array entries ∧ (∀ i, ¬Faulty txn.operations entries i) ∧ TrailedByError txn.operations entries) := by
  by_cases hlist : ∃ entries, reply = .array entries
  · obtain ⟨entries, rfl⟩ := hlist
    obtain ⟨hsome, hnone⟩ := index_of_readEffects h
    simp only [Json.array.injEq, exists_eq_left']
    refine ⟨hsome, ?_⟩
    rw [hnone, or_iff_right (fun hne => hne entries rfl)]
  · have hne : ∀ entries, reply ≠ .array entries := fun entries heq => hlist ⟨entries, heq⟩
    rw [readReply_of_forall_ne hne] at h
    cases h
    exact ⟨fun i => ⟨nofun, fun ⟨entries, heq, _⟩ => (hne entries heq).elim⟩, fun _ => Or.inl hne, fun _ => rfl⟩

/-- A transaction is taken to have been carried out exactly when the reply has a well-formed entry for each operation and none of them,
nor the entry behind them, carries an error. Then the effects are what the entries say, and each placeholder stands for the
identifier that its insert was given. Otherwise the first operation without such an entry is blamed, and none is blamed exactly if there
is no list, or only the entry behind the operations carries an error. -/
theorem reads_replies (txn : Transaction) (reply : Json) :
    ((∃ read, readReply txn reply = .ok read) ↔ ∃ entries, reply = .array entries ∧ Accepts txn.operations entries) ∧
      (∀ entries read, reply = .array entries → readReply txn reply = .ok read →
        read.effects.length = txn.size ∧
          (∀ (i : Nat) (op : Operation) (entry : Json), txn.operations[i]? = some op → entries[i]? = some entry →
            ∃ effect, read.effects[i]? = some effect ∧ Reports entry op effect) ∧
          (∀ p, read.assignment.contains p = txn.placeholders.contains p) ∧
          ∀ p i, txn.placeholders.get? p = some i →
            ∃ id, read.effects[i]? = some (.inserted id) ∧ read.assignment.get? p = some id) ∧
      ∀ refusal, readReply txn reply = .error refusal →
        (∀ i, refusal.index = some i ↔
          ∃ entries, reply = .array entries ∧ Faulty txn.operations entries i ∧ ∀ k < i, ¬Faulty txn.operations entries k) ∧
        (refusal.index = none ↔ (∀ entries, reply ≠ .array entries) ∨
          ∃ entries, reply = .array entries ∧ (∀ i, ¬Faulty txn.operations entries i) ∧ TrailedByError txn.operations entries) := by
  refine ⟨exists_readReply_iff, ?_, fun _ => index_of_readReply⟩
  rintro entries read rfl h
  obtain ⟨hlength, hreports⟩ := effects_of_readEffects h
  exact ⟨hlength, hreports, contains_assignment_of_readReply h, fun _ _ hp => assignment_of_readReply h hp⟩

end TableReplica.Wire
