import TableReplica.Proofs.Moments

/-!
# What is heard of one row

The calls that a run makes for one row follow from the states in which its entries put that row, and from the state in which it stood
before (`Replica.callsOf_eq_tale`): entries of other rows, the cuts between batches and the states before that entries give have no part
in them.
-/

namespace TableReplica

/-- What a listener is called with. -/
structure RowCall where
  event : Event
  records : List Record
deriving DecidableEq

def Notice.call (n : Notice) : RowCall := ⟨n.event, n.records⟩

/-- Whether an entry is about a row. -/
def isEntryOf (table : String) (id : RowId) (e : String × RowChange) : Bool := decide (e.1 = table ∧ e.2.id = id)

/-- Whether a moment is about a row. -/
def Moment.isOf (table : String) (id : RowId) (m : Moment) : Bool := isEntryOf table id (m.table, m.change)

/-- The calls that a run makes for a row. -/
def Replica.callsOf (r : Replica) (batches : List ChangeBatch) (table : String) (id : RowId) : List RowCall :=
  ((r.momentsOf batches).filter (Moment.isOf table id)).flatMap (fun m => m.notices.map Notice.call)

/-- The states in which batches put a row, one after the other, as they are kept. -/
def Schema.statesOf (s : Schema) (batches : List ChangeBatch) (table : String) (id : RowId) : List (Option Row) :=
  ((batches.flatMap (·.changes table)).filter (fun change => decide (change.id = id))).map (s.next? table)

/-- The calls for a row that goes through some states. -/
def Notifier.tale (d : Notifier) (table : String) (id : RowId) : Option Row → List (Option Row) → List RowCall
  | _, [] => []
  | before, after :: rest => (d.heard .empty table id before after).map Notice.call ++ d.tale table id after rest

/-! ## Calls do not show the cache -/

namespace Notifier

/-- A listener is called with the records if it takes all of them. -/
theorem calls_deliver (listener : Listener) (event : Event) (table : String) (cache : Cache) (records : List Record) :
    (deliver listener event table cache records).2.map Notice.call = if records.all listener.takes then [⟨event, records⟩] else [] := by
  rw [deliver]
  simp only
  split <;> rfl

/-- The call for one row does not depend on the cache that it is shown. -/
theorem calls_notifyOne (d : Notifier) (event : Event) (cache cache' : Cache) (table : String) (id : RowId) (row : Row) :
    (d.notifyOne event cache table id row).2.map Notice.call = (d.notifyOne event cache' table id row).2.map Notice.call := by
  rw [notifyOne, notifyOne]
  cases d.listeners.get? table with
  | none => rfl
  | some listener =>
    cases d.schema.decode table id row with
    | error _ => rfl
    | ok record => exact (calls_deliver ..).trans (calls_deliver ..).symm

theorem calls_notifyUpdated (d : Notifier) (cache cache' : Cache) (table : String) (id : RowId) (old new : Row) :
    (d.notifyUpdated cache table id old new).2.map Notice.call = (d.notifyUpdated cache' table id old new).2.map Notice.call := by
  rw [notifyUpdated, notifyUpdated]
  cases (d.listeners.get? table).filter (·.hearsChanges) with
  | none => rfl
  | some listener =>
    cases d.schema.decode table id old with
    | error _ => rfl
    | ok before =>
      cases d.schema.decode table id new with
      | error _ => rfl
      | ok after => exact (calls_deliver ..).trans (calls_deliver ..).symm

/-- What is heard of an entry does not depend on the cache that is shown. -/
theorem calls_heard (d : Notifier) (cache cache' : Cache) (table : String) (id : RowId) (before after : Option Row) :
    (d.heard cache table id before after).map Notice.call = (d.heard cache' table id before after).map Notice.call := by
  cases before with
  | none =>
    cases after with
    | none => rfl
    | some new => exact d.calls_notifyOne .created cache cache' table id new
  | some old =>
    cases after with
    | none => exact d.calls_notifyOne .deleted cache cache' table id old
    | some new => exact d.calls_notifyUpdated cache cache' table id old new

end Notifier

/-! ## The entries of a row -/

/-- The entries of one table are its changes: the names ascend, so at most one table of the batch has the name. -/
theorem ChangeBatch.inOrder_of_table (batch : ChangeBatch) (table : String) :
    (batch.inOrder.filter (fun e => decide (e.1 = table))).map Prod.snd = batch.changes table := by
  have hone : ∀ (name : String) (changes : List RowChange),
      ((changes.map (name, ·)).filter (fun e => decide (e.1 = table))).map Prod.snd = if name = table then changes else [] := by
    intro name changes
    rw [List.filter_map, List.map_map]
    split <;> simp [Function.comp_def, *]
  have hall : ∀ es : List (String × List RowChange), es.Pairwise (fun a b => a.1 < b.1) →
      ((es.flatMap (fun t => t.2.map (t.1, ·))).filter (fun e => decide (e.1 = table))).map Prod.snd = (es.lookup table).getD [] := by
    intro es hord
    induction es with
    | nil => rfl
    | cons t rest ih =>
      rw [List.flatMap_cons, List.filter_append, List.map_append, ih hord.of_cons, hone, SortedMap.lookup_cons_eq]
      by_cases ht : table = t.1
      · subst ht
        rw [if_pos rfl, if_pos rfl, SortedMap.lookup_tail_eq_none hord]
        exact List.append_nil _
      · rw [if_neg (Ne.symm ht), if_neg ht, List.nil_append]
  exact hall batch.tables.entries batch.tables.ordered

/-- The states of a row are the next states that the entries about it say, in the order of all entries. -/
theorem Schema.statesOf_eq (s : Schema) (batches : List ChangeBatch) (table : String) (id : RowId) :
    s.statesOf batches table id =
      ((batches.flatMap ChangeBatch.inOrder).filter (isEntryOf table id)).map (fun e => s.next? table e.2) := by
  have hboth : isEntryOf table id = fun e => (decide (e.2.id = id) && decide (e.1 = table)) := by
    funext e
    rw [isEntryOf, Bool.decide_and, Bool.and_comm]
  have htable : ((batches.flatMap ChangeBatch.inOrder).filter (fun e => decide (e.1 = table))).map Prod.snd =
      batches.flatMap (·.changes table) := by
    rw [List.filter_flatMap, List.map_flatMap]
    congr 1
    funext batch
    exact batch.inOrder_of_table table
  rw [statesOf, ← htable, hboth, ← List.filter_filter, List.filter_map, List.map_map]
  rfl

/-! ## The calls of a row -/

namespace Replica

variable {r : Replica} {table : String} {id : RowId}

theorem schema_takeEntry (r : Replica) (e : String × RowChange) : (r.takeEntry e).replica.schema = r.schema := by
  rw [schema, schema, notifier_takeEntry]

/-- Of several entries the last about a row decides what stands in its place. -/
theorem row?_afterEntries (hk : r.cache.knows table = true) (entries : List (String × RowChange)) :
    (r.afterEntries entries).cache.row? table id =
      (((entries.filter (isEntryOf table id)).map (fun e => r.schema.next? table e.2)).getLast?).getD (r.cache.row? table id) := by
  induction entries generalizing r with
  | nil => rfl
  | cons e rest ih =>
    have hrest := ih (r := (r.takeEntry e).replica) (by rw [knows_takeEntry]; exact hk)
    rw [schema_takeEntry, row?_takeEntry r e hk] at hrest
    refine hrest.trans ?_
    rw [List.filter_cons, isEntryOf]
    by_cases he : e.1 = table ∧ e.2.id = id
    · rw [if_pos he, if_pos (decide_eq_true he), List.map_cons, List.getLast?_cons]
      rfl
    · rw [if_neg he, if_neg (by rw [decide_eq_true_iff]; exact he)]

/-- The calls for a row tell the states that the entries about it put it in. -/
theorem calls_moments (hk : r.cache.knows table = true) (entries : List (String × RowChange)) :
    ((r.moments entries).filter (Moment.isOf table id)).flatMap (fun m => m.notices.map Notice.call) =
      r.notifier.tale table id (r.cache.row? table id)
        ((entries.filter (isEntryOf table id)).map (fun e => r.schema.next? table e.2)) := by
  induction entries generalizing r with
  | nil => rfl
  | cons e rest ih =>
    have hrest := ih (r := (r.takeEntry e).replica) (by rw [knows_takeEntry]; exact hk)
    rw [schema_takeEntry, notifier_takeEntry, row?_takeEntry r e hk] at hrest
    rw [moments, List.filter_cons, List.filter_cons, Moment.isOf, isEntryOf]
    by_cases he : e.1 = table ∧ e.2.id = id
    · rw [if_pos he] at hrest
      rw [if_pos (decide_eq_true he), if_pos (decide_eq_true he), List.flatMap_cons, hrest, List.map_cons, Notifier.tale]
      obtain ⟨rfl, rfl⟩ := he
      have hheard := (r.lawful_takeEntry e).heard
      simp only at hheard
      rw [hheard, row?_takeEntry r e hk, if_pos ⟨rfl, rfl⟩]
      congr 1
      exact r.notifier.calls_heard ..
    · rw [if_neg he] at hrest
      rw [if_neg (by rw [decide_eq_true_iff]; exact he), if_neg (by rw [decide_eq_true_iff]; exact he), hrest]

/-- After a run a row is in its last state, or as it was before if nothing was said of it. -/
theorem row?_afterAll (hk : r.cache.knows table = true) (batches : List ChangeBatch) :
    (r.afterAll batches).cache.row? table id = ((r.schema.statesOf batches table id).getLast?).getD (r.cache.row? table id) := by
  rw [afterAll_eq_afterEntries, row?_afterEntries hk, Schema.statesOf_eq]

/-- A run makes no table known. -/
theorem knows_afterAll (r : Replica) (batches : List ChangeBatch) (table : String) :
    (r.afterAll batches).cache.knows table = r.cache.knows table := by
  induction batches generalizing r with
  | nil => rfl
  | cons batch rest ih => exact (ih _).trans (r.knows_takeIn batch table)

/-- What is heard of a row of a known table is the tale of its states. -/
theorem callsOf_eq_tale (hk : r.cache.knows table = true) (batches : List ChangeBatch) :
    r.callsOf batches table id =
      r.notifier.tale table id (r.cache.row? table id) (r.schema.statesOf batches table id) := by
  rw [callsOf, momentsOf, calls_moments hk, Schema.statesOf_eq]

/-- Nothing is heard of the rows of a table that is not known. -/
theorem callsOf_eq_nil (hk : r.cache.knows table = false) (batches : List ChangeBatch) : r.callsOf batches table id = [] := by
  rw [callsOf, momentsOf]
  induction batches.flatMap ChangeBatch.inOrder generalizing r with
  | nil => rfl
  | cons e rest ih =>
    have hk' : (r.takeEntry e).replica.cache.knows table = false := by rw [knows_takeEntry, hk]
    rw [moments, List.filter_cons, Moment.isOf, isEntryOf]
    by_cases he : e.1 = table ∧ e.2.id = id
    · rw [if_pos (decide_eq_true he), List.flatMap_cons, ih hk']
      obtain ⟨rfl, rfl⟩ := he
      have hheard := (r.lawful_takeEntry e).heard
      simp only at hheard
      rw [hheard, Cache.row?_of_not_knows hk, Cache.row?_of_not_knows hk']
      rfl
    · rw [if_neg (by rw [decide_eq_true_iff]; exact he), ih hk']

end Replica

end TableReplica
