import TableReplica.Proofs.RowCalls

/-!
# The last word

In a replica that began without rows, what stands in the place of a row is what the last change of that row leaves of it
(`Replica.lastWord`). So the cache and the calls for each row are the same for runs that put each row in the same states
(`Replica.sameOutcome_of_statesOf`): the states before, the cuts between batches and the order in which different rows are changed
have no part in them.
-/

namespace TableReplica

/-- What the last change of a row in some batches leaves of it. -/
def Replica.lastWord (r : Replica) (batches : List ChangeBatch) (table : String) (id : RowId) : Option Row :=
  match RowChange.lastOf id (batches.flatMap (·.changes table)) with
  | none => none
  | some change =>
    match change.after with
    | none => none
    | some new =>
      let row := (r.schema.normalize table new).1
      if new.isEmpty || row.isEmpty then none else some row

/-- What a change says of the new state of a row. -/
def RowChange.news (change : RowChange) : RowId × Option Row := (change.id, change.after)

/-- What a batch says of the new states of rows. -/
def ChangeBatch.news (batch : ChangeBatch) : SortedMap String (List (RowId × Option Row)) :=
  batch.tables.map (fun _ changes => changes.map RowChange.news)

/-- Two runs leave the same cache, and make the same calls for each row. -/
structure Replica.SameOutcome (r : Replica) (batches batches' : List ChangeBatch) : Prop where
  cache : (r.afterAll batches).cache = (r.afterAll batches').cache
  calls : ∀ table id, r.callsOf batches table id = r.callsOf batches' table id

/-- A replica is settled by the last change of each row. -/
structure Replica.LastWordDecides (r : Replica) : Prop where
  stored : ∀ batches table id, (r.afterAll batches).cache.row? table id =
    if r.cache.knows table then r.lastWord batches table id else none
  /-- The states before that changes give do not matter. -/
  before : ∀ batches batches', batches.map ChangeBatch.news = batches'.map ChangeBatch.news → r.SameOutcome batches batches'
  /-- It does not matter how the changes of each table are cut into batches. -/
  cuts : ∀ batches batches', (∀ table, batches.flatMap (·.changes table) = batches'.flatMap (·.changes table)) →
    r.SameOutcome batches batches'
  /-- Changes of different rows may be swapped. -/
  swap : ∀ batches batches' earlier first second later, (first.1, first.2.id) ≠ (second.1, second.2.id) →
    batches.flatMap ChangeBatch.inOrder = earlier ++ first :: second :: later →
    batches'.flatMap ChangeBatch.inOrder = earlier ++ second :: first :: later → r.SameOutcome batches batches'

/-- The last state of a row is what the last entry about it says. -/
theorem RowChange.getLast?_statesOf (s : Schema) (batches : List ChangeBatch) (table : String) (id : RowId) :
    (s.statesOf batches table id).getLast? = (lastOf id (batches.flatMap (·.changes table))).map (s.next? table) := by
  rw [Schema.statesOf, List.getLast?_map]
  rfl

/-- What a batch says is new is what its changes of each table say. -/
theorem ChangeBatch.changes_news (batch : ChangeBatch) (table : String) :
    (batch.changes table).map RowChange.news = batch.news.getD table [] := by
  rw [changes, SortedMap.getD, SortedMap.getD, news, SortedMap.get?_map]
  cases batch.tables.get? table <;> rfl

namespace Schema

/-- The states of a row follow from what is said of new states. -/
theorem statesOf_congr (s : Schema) {batches batches' : List ChangeBatch} {table : String}
    (h : (batches.flatMap (·.changes table)).map RowChange.news = (batches'.flatMap (·.changes table)).map RowChange.news)
    (id : RowId) : s.statesOf batches table id = s.statesOf batches' table id := by
  have hnews : ∀ changes : List RowChange, (changes.filter (fun change => decide (change.id = id))).map (s.next? table) =
      ((changes.map RowChange.news).filter (fun n => decide (n.1 = id))).map (fun n => n.2.bind (s.kept table)) := by
    intro changes
    rw [List.filter_map, List.map_map]
    rfl
  rw [statesOf, statesOf, hnews, hnews, h]

/-- Entries of different rows may be swapped, for at most one of the two is about a given row. -/
theorem statesOf_swap (s : Schema) {batches batches' : List ChangeBatch} {earlier later : List (String × RowChange)}
    {first second : String × RowChange} (hne : (first.1, first.2.id) ≠ (second.1, second.2.id))
    (h : batches.flatMap ChangeBatch.inOrder = earlier ++ first :: second :: later)
    (h' : batches'.flatMap ChangeBatch.inOrder = earlier ++ second :: first :: later) (table : String) (id : RowId) :
    s.statesOf batches table id = s.statesOf batches' table id := by
  have hfilter : [first, second].filter (isEntryOf table id) = [second, first].filter (isEntryOf table id) := by
    by_cases hfirst : isEntryOf table id first = true
    · have hsecond : ¬isEntryOf table id second = true := by
        intro hsecond
        obtain ⟨htable, hid⟩ := of_decide_eq_true hfirst
        obtain ⟨htable', hid'⟩ := of_decide_eq_true hsecond
        exact hne (by rw [htable, hid, htable', hid'])
      simp [hfirst, hsecond]
    · simp [List.filter_cons, hfirst]
  have hsplit : ∀ (a b : String × RowChange), earlier ++ a :: b :: later = earlier ++ ([a, b] ++ later) := fun _ _ => rfl
  rw [statesOf_eq, statesOf_eq, h, h', hsplit, hsplit, List.filter_append, List.filter_append, hfilter, ← List.filter_append,
    ← List.filter_append]

end Schema

namespace Replica

/-- Runs that put each row in the same states have the same outcome. -/
theorem sameOutcome_of_statesOf (r : Replica) {batches batches' : List ChangeBatch}
    (h : ∀ table id, r.schema.statesOf batches table id = r.schema.statesOf batches' table id) : r.SameOutcome batches batches' where
  cache := by
    apply Cache.ext_row?
    · intro table
      rw [knows_afterAll, knows_afterAll]
    · intro table id
      cases hk : r.cache.knows table with
      | true => rw [row?_afterAll hk, row?_afterAll hk, h]
      | false => rw [Cache.row?_of_not_knows (by rw [knows_afterAll, hk]), Cache.row?_of_not_knows (by rw [knows_afterAll, hk])]
  calls := by
    intro table id
    cases hk : r.cache.knows table with
    | true => rw [callsOf_eq_tale hk, callsOf_eq_tale hk, h]
    | false => rw [callsOf_eq_nil hk, callsOf_eq_nil hk]

/-- What a change leaves of a row is its new state as it is kept. -/
theorem lastWord_eq (r : Replica) (batches : List ChangeBatch) (table : String) (id : RowId) :
    r.lastWord batches table id = ((r.schema.statesOf batches table id).getLast?).getD none := by
  rw [RowChange.getLast?_statesOf, lastWord]
  cases RowChange.lastOf id (batches.flatMap (·.changes table)) with
  | none => rfl
  | some change =>
    simp only [Option.map_some, Option.getD_some, Schema.next?]
    cases change.after with
    | none => rfl
    | some new =>
      simp only [Option.bind_some]
      cases hempty : new.isEmpty with
      | true => exact (Schema.kept_of_isEmpty _ _ hempty).symm
      | false => rfl

/-- In a replica that began without rows the last change of each row decides. -/
theorem last_word_decides (notifier : Notifier) (tables : List String) : (awaiting notifier tables).LastWordDecides where
  stored := by
    intro batches table id
    split
    · rename_i hk
      rw [row?_afterAll hk, lastWord_eq]
      exact congrArg _ (Cache.row?_awaiting tables table id)
    · rename_i hk
      exact Cache.row?_of_not_knows (by rw [knows_afterAll]; exact Bool.eq_false_iff.mpr hk) id
  before := by
    intro batches batches' h
    apply sameOutcome_of_statesOf
    intro table id
    have hnews : ∀ batches : List ChangeBatch, (batches.flatMap (·.changes table)).map RowChange.news =
        (batches.map ChangeBatch.news).flatMap (·.getD table []) := by
      intro batches
      rw [List.map_flatMap, List.flatMap_map]
      congr 1
      funext batch
      exact batch.changes_news table
    exact Schema.statesOf_congr _ (by rw [hnews, hnews, h]) id
  cuts := by
    intro batches batches' h
    apply sameOutcome_of_statesOf
    intro table id
    exact Schema.statesOf_congr _ (by rw [h table]) id
  swap := by
    intro batches batches' earlier first second later hne h h'
    apply sameOutcome_of_statesOf
    intro table id
    exact Schema.statesOf_swap _ hne h h' table id

end Replica

end TableReplica
