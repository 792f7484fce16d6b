import TableReplica.Proofs.TakenFeed

/-!
# Rows in a view

A cache shows the rows of a server in a view of their values (`Replica.Sees`). One that mirrors the tables shows them up to the signs of
zeros, and one that copies them shows them as they are (`Replica.Copies`). Not every commit leaves a copy behind, since a zero that
changes its sign is not told of, but a commit that links a new row from its parent does.
-/

namespace TableReplica

/-- The row with a view of each of its values. -/
def Row.seen (view : Value → Value) (row : Row) : Row := row.map (fun _ v => view v)

/-- The cache shows the tables in the given view: a known table holds what is kept of the rows. -/
def Replica.Sees (view : Value → Value) (r : Replica) (tables : Tables) : Prop :=
  ∀ table id, r.cache.knows table = true →
    (r.cache.row? table id).map (Row.seen view) = ((tables.row? table id).bind (r.schema.kept table)).map (Row.seen view)

/-- The cache is what is kept of the tables, with the signs of all zeros. -/
def Replica.Copies (r : Replica) (tables : Tables) : Prop :=
  ∀ table id, r.cache.knows table = true → r.cache.row? table id = (tables.row? table id).bind (r.schema.kept table)

theorem Row.get?_seen (view : Value → Value) (row : Row) (column : String) : (row.seen view).get? column = (row.get? column).map view :=
  SortedMap.get?_map _ row column

namespace Replica

variable {r : Replica} {tables : Tables}

/-- A replica that mirrors tables sees them up to the signs of zeros. -/
theorem Mirrors.sees (h : r.Mirrors tables) : r.Sees .positiveZeros tables := h

/-- A replica that copies tables sees them through every view. -/
theorem Copies.sees (h : r.Copies tables) (view : Value → Value) : r.Sees view tables := by
  intro table id hk
  rw [h table id hk]

/-- The columns of a row in the cache are those of the server's row in the form of their kinds. -/
theorem Sees.get?_row {view : Value → Value} (h : r.Sees view tables) {table : String} {id : RowId} {shown row : Row}
    (hshown : r.cache.row? table id = some shown) (hrow : tables.row? table id = some row) (column : String) :
    (shown.get? column).map view = ((row.get? column).bind (Schema.normalizeColumn (r.schema.kinds table) column)).map view := by
  have hsees := h table id (Cache.knows_of_row?_eq_some hshown)
  rw [hshown, hrow, Option.bind_some] at hsees
  obtain ⟨kept, hkept, hseen⟩ := Option.map_eq_some_iff.mp hsees.symm
  rw [Schema.eq_normalize_of_kept hkept] at hseen
  rw [← Row.get?_seen, ← hseen, Row.get?_seen, Schema.get?_normalize]

/-- A row that has not changed is seen as it was. -/
theorem Sees.row?_of_eq {view : Value → Value} {r' : Replica} {now : Tables} (h : r.Sees view tables) (h' : r'.Sees view now)
    (hschema : r'.schema = r.schema) {table : String} (hknows : r'.cache.knows table = r.cache.knows table) {id : RowId}
    (hsame : now.row? table id = tables.row? table id) :
    (r'.cache.row? table id).map (Row.seen view) = (r.cache.row? table id).map (Row.seen view) := by
  cases hk : r.cache.knows table with
  | true => rw [h' table id (hknows.trans hk), hschema, hsame, h table id hk]
  | false => rw [Cache.row?_of_not_knows hk, Cache.row?_of_not_knows (hknows.trans hk)]

end Replica

/-- A row that agrees with itself after its links have changed had these links. -/
theorem Row.mutate_eq_of_agrees {old : Row} {column : String} {mutator : Mutator} {value : Value} {ids : List RowId}
    (hnew : (old.mutate column mutator value).get? column = some (.ofRowIds ids))
    (hagrees : (old.mutate column mutator value).agrees old = true) : old.mutate column mutator value = old := by
  apply SortedMap.ext_get?
  intro column'
  by_cases heq : column = column'
  · subst heq
    have hzeros := congrArg (·.get? column) (Row.positiveZeros_eq_of_agrees hagrees)
    simp only [Row.get?_positiveZeros, hnew, Option.map_some] at hzeros
    obtain ⟨v, hv, hvz⟩ := Option.map_eq_some_iff.mp hzeros.symm
    rw [hnew, hv, (Value.definite_ofRowIds _).eq_of_positiveZeros_eq hvz]
  · exact Row.get?_mutate_of_ne old heq mutator value

/-- Where a parent is all that may have changed, and its links at most, nothing to tell means that nothing changed. -/
theorem Row.mutate_eq_of_told_eq_none {id : RowId} {before : Option Row} {column : String} {mutator : Mutator} {value : Value}
    (hnew : ∀ old, before = some old → ∃ ids, (old.mutate column mutator value).get? column = some (.ofRowIds ids))
    (htold : RowChange.told id before (before.map (·.mutate column mutator value)) = none) :
    before.map (·.mutate column mutator value) = before := by
  cases hold : before with
  | none => rfl
  | some old =>
    rw [hold, Option.map_some, RowChange.told] at htold
    split at htold
    · rename_i hagrees
      obtain ⟨ids, hids⟩ := hnew old hold
      rw [Option.map_some, mutate_eq_of_agrees hids hagrees]
    · cases htold

/-- A commit that links a new row from its parent tells of every row that it changes. -/
theorem Tables.GainsUnder.eq_of_told_eq_none {before now : Tables} {table : String} {id : RowId} {row : Row} {parent : Parent}
    {holder : RowId} (h : before.GainsUnder now table id row parent holder) (hne : table ≠ parent.table)
    (hbefore : before.row? table id = none)
    (hlinks : ∀ old, before.row? parent.table holder = some old → old.HoldsLinks parent.column) {table' : String} {id' : RowId}
    (htold : RowChange.told id' (before.row? table' id') (now.row? table' id') = none) :
    now.row? table' id' = before.row? table' id' := by
  by_cases hnew : table = table' ∧ id = id'
  · obtain ⟨rfl, rfl⟩ := hnew
    rw [h.row?_new, hbefore] at htold
    cases htold
  by_cases hparent : parent.table = table' ∧ holder = id'
  · obtain ⟨rfl, rfl⟩ := hparent
    rw [h.row?_parent hne] at htold ⊢
    exact Row.mutate_eq_of_told_eq_none (fun old hold => ⟨_, (hlinks old hold).get?_mutate_insert id⟩) htold
  · exact h.row?_other hnew hparent

/-- A commit that takes a row from its parent tells of every row that it changes. -/
theorem Tables.LosesUnder.eq_of_told_eq_none {before now : Tables} {table : String} {id : RowId} {parent : Parent} {holder : RowId}
    (h : before.LosesUnder now table id parent holder)
    (hlinks : ∀ old, before.row? parent.table holder = some old → old.HoldsLinks parent.column) {table' : String} {id' : RowId}
    (htold : RowChange.told id' (before.row? table' id') (now.row? table' id') = none) :
    now.row? table' id' = before.row? table' id' := by
  rw [h] at htold ⊢
  by_cases hgone : table = table' ∧ id = id'
  · rw [if_pos hgone] at htold ⊢
    cases hrow : before.row? table' id' with
    | none => rfl
    | some row =>
      rw [hrow] at htold
      cases htold
  rw [if_neg hgone] at htold ⊢
  by_cases hparent : parent.table = table' ∧ holder = id'
  · obtain ⟨rfl, rfl⟩ := hparent
    rw [if_pos ⟨rfl, rfl⟩] at htold ⊢
    exact Row.mutate_eq_of_told_eq_none (fun old hold => ⟨_, (hlinks old hold).get?_mutate_delete id⟩) htold
  · rw [if_neg hparent]

namespace Session.Committed

variable {s s' : Session Server} {now : Tables}

/-- A copy stays one through a commit that tells of every row that it changes. -/
theorem copies_takeFeed (h : Committed s s' now) (hfeed : s.state.feed = .waiting [])
    (hcopies : s.client.replica.Copies s.state.tables)
    (hsame : ∀ table id, RowChange.told id (s.state.tables.row? table id) (now.row? table id) = none →
      now.row? table id = s.state.tables.row? table id) : s'.takeFeed.client.replica.Copies now := by
  intro table id hk
  have hknown := (h.knows_takeFeed hfeed table).symm.trans hk
  rw [h.row?_takeFeed hfeed hknown, h.schema_takeFeed hfeed]
  split
  · rfl
  · rename_i htold
    rw [hcopies table id hknown, hsame table id (Option.not_isSome_iff_eq_none.mp htold)]

/-- A row that stays the same and agrees with itself is not told of, so the cache is not touched there. -/
theorem row?_takeFeed_of_agrees (h : Committed s s' now) (hfeed : s.state.feed = .waiting []) {table : String} {id : RowId}
    (hsame : now.row? table id = s.state.tables.row? table id)
    (hagrees : ∀ row, s.state.tables.row? table id = some row → row.agrees row = true) :
    s'.takeFeed.client.replica.cache.row? table id = s.client.replica.cache.row? table id := by
  cases hk : s.client.replica.cache.knows table with
  | false => rw [Cache.row?_of_not_knows hk, Cache.row?_of_not_knows ((h.knows_takeFeed hfeed table).trans hk)]
  | true =>
    have htold : RowChange.told id (s.state.tables.row? table id) (now.row? table id) = none := by
      rw [hsame]
      cases hrow : s.state.tables.row? table id with
      | none => rfl
      | some row => rw [RowChange.told, if_pos (hagrees row hrow)]
    rw [h.row?_takeFeed hfeed hk, htold]
    rfl

end Session.Committed

end TableReplica
