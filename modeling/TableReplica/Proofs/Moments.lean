import TableReplica.Proofs.Mirror
import TableReplica.Client.Feed

/-!
# Entry by entry

A batch is taken in entry by entry (`Replica.takeIn_eq_foldl`). What one entry of a run does is a `Moment`: the cache before and after
it, and what was heard. The rows before and after a moment settle all of it (`Moment.Lawful`), and what is heard in a run is what is
heard in its moments, one after the other (`Replica.notices_takeInAll`).
-/

namespace TableReplica

/-- The entries of a batch in the order in which they are taken in, each with its table. -/
def ChangeBatch.inOrder (batch : ChangeBatch) : List (String × RowChange) :=
  batch.tables.entries.flatMap (fun t => t.2.map (t.1, ·))

/-- What is heard of a row that was in one state and is in another. -/
def Notifier.heard (d : Notifier) (cache : Cache) (table : String) (id : RowId) : Option Row → Option Row → List Notice
  | none, none => []
  | none, some new => (d.notifyCreated cache table id new).2
  | some old, some new => (d.notifyUpdated cache table id old new).2
  | some old, none => (d.notifyDeleted cache table id old).2

/-- What one entry did: the cache before and after it, and what was heard. -/
structure Moment where
  table : String
  change : RowChange
  before : Cache
  after : Cache
  notices : List Notice

namespace Replica

/-- A replica that waits to hear of some tables. -/
def awaiting (notifier : Notifier) (tables : List String) : Replica := ⟨notifier, .awaiting tables⟩

/-- One entry taken in. -/
def takeEntry (r : Replica) (e : String × RowChange) : Intake := (Intake.start r).table e.1 [e.2]

/-- The replica after some entries. -/
def afterEntries (r : Replica) (entries : List (String × RowChange)) : Replica :=
  entries.foldl (fun r e => (r.takeEntry e).replica) r

/-- What some entries do, one after the other. -/
def moments (r : Replica) : List (String × RowChange) → List Moment
  | [] => []
  | e :: rest =>
    ⟨e.1, e.2, r.cache, (r.takeEntry e).replica.cache, (r.takeEntry e).notices⟩ :: (r.takeEntry e).replica.moments rest

/-- What the entries of some batches do. -/
def momentsOf (r : Replica) (batches : List ChangeBatch) : List Moment := r.moments (batches.flatMap ChangeBatch.inOrder)

end Replica

/-- The rows before and after an entry settle what it does: the row is put as it is kept, and its change is heard. -/
structure Moment.Lawful (d : Notifier) (m : Moment) : Prop where
  put : m.after = m.before.put m.table m.change.id (d.schema.next? m.table m.change)
  heard : m.notices = d.heard m.after m.table m.change.id (m.before.row? m.table m.change.id) (m.after.row? m.table m.change.id)

/-! ## One entry -/

namespace Intake

/-- The entries of a table may be taken in one at a time. -/
theorem table_cons (i : Intake) (name : String) (change : RowChange) (rest : List RowChange) :
    i.table name (change :: rest) = (i.table name [change]).table name rest := by
  cases hk : i.replica.cache.knows name with
  | true =>
    have hk' : (i.entry name change).replica.cache.knows name = true := by rw [cache_entry, Cache.knows_put, hk]
    have hfirst : i.table name [change] = i.entry name change := by
      rw [Intake.table, if_pos hk]
      rfl
    rw [hfirst, Intake.table, if_pos hk, Intake.table, if_pos hk', List.foldl_cons]
  | false =>
    have hskip : ∀ (i : Intake) (changes : List RowChange), i.replica.cache.knows name = false →
        i.table name changes = { i with summary := { i.summary with skipped := i.summary.skipped + changes.length } } := by
      intro i changes h
      rw [Intake.table, if_neg (by rw [h]; exact Bool.false_ne_true)]
    have hlength : i.summary.skipped + (change :: rest).length = i.summary.skipped + [change].length + rest.length := by
      rw [List.length_cons, List.length_singleton, Nat.add_assoc, Nat.add_comm 1]
    rw [hskip i _ hk, hskip i [change] hk, hlength]
    exact (hskip { i with summary := { i.summary with skipped := i.summary.skipped + [change].length } } rest hk).symm

/-- The entries of a table are taken in one at a time. -/
theorem table_eq_foldl (i : Intake) (name : String) (changes : List RowChange) :
    i.table name changes = changes.foldl (fun i change => i.table name [change]) i := by
  induction changes generalizing i with
  | nil =>
    rw [Intake.table]
    split <;> rfl
  | cons change rest ih => rw [table_cons, ih, List.foldl_cons]

/-- A removal adds the notice that is heard of it, if any. -/
theorem notices_remove (i : Intake) (table : String) (id : RowId) :
    (i.remove table id).notices = i.notices ++ i.replica.notifier.heard (i.replica.cache.put table id none) table id
      (i.replica.cache.row? table id) ((i.replica.cache.put table id none).row? table id) := by
  rw [remove]
  cases hrow : i.replica.cache.row? table id with
  | none =>
    rw [Cache.put_none_of_row?_eq_none hrow, hrow]
    exact (List.append_nil _).symm
  | some last =>
    rw [Cache.row?_put, if_pos ⟨rfl, rfl, Cache.knows_of_row?_eq_some hrow⟩]
    rfl

/-- A row that is put adds the notice that is heard of it, if any. -/
theorem notices_put (i : Intake) {table : String} (hk : i.replica.cache.knows table = true) (id : RowId) {row : Row}
    (hne : row.nonempty? = some row) :
    (i.put table id row).notices = i.notices ++ i.replica.notifier.heard (i.replica.cache.put table id (some row)) table id
      (i.replica.cache.row? table id) ((i.replica.cache.put table id (some row)).row? table id) := by
  rw [put, Cache.row?_put, if_pos ⟨rfl, rfl, hk⟩, Option.bind_some, hne]
  cases i.replica.cache.row? table id <;> rfl

/-- An entry adds the notice that is heard of the row before and after it, if any. -/
theorem notices_entry (i : Intake) {table : String} (hk : i.replica.cache.knows table = true) (change : RowChange) :
    (i.entry table change).notices = i.notices ++ i.replica.notifier.heard (i.entry table change).replica.cache table change.id
      (i.replica.cache.row? table change.id) ((i.entry table change).replica.cache.row? table change.id) := by
  rw [cache_entry, entry, Schema.next?]
  cases change.after with
  | none => exact notices_remove i table change.id
  | some raw =>
    simp only [Option.bind_some, Schema.kept, Row.nonempty?]
    split
    · exact notices_remove i table change.id
    · rename_i hne
      exact notices_put i hk change.id (by rw [Row.nonempty?, if_neg hne])

/-- An entry of a table that is not subscribed leaves no row behind and is not heard of. -/
theorem notices_table (i : Intake) (table : String) (change : RowChange) :
    (i.table table [change]).notices = i.notices ++ i.replica.notifier.heard (i.table table [change]).replica.cache table change.id
      (i.replica.cache.row? table change.id) ((i.table table [change]).replica.cache.row? table change.id) := by
  cases hk : i.replica.cache.knows table with
  | true =>
    rw [Intake.table, if_pos hk]
    exact notices_entry i hk change
  | false =>
    rw [Intake.table, if_neg (by rw [hk]; exact Bool.false_ne_true), Cache.row?_of_not_knows hk]
    exact (List.append_nil _).symm

/-- Taking in one entry has the same outcome whatever was counted and heard before. -/
theorem replica_table (i : Intake) (e : String × RowChange) : (i.table e.1 [e.2]).replica = (i.replica.takeEntry e).replica := by
  have h := replica_tables i [(e.1, [e.2])]
  have h' := replica_tables (.start i.replica) [(e.1, [e.2])]
  exact h.trans h'.symm

end Intake

namespace Replica

theorem notifier_takeEntry (r : Replica) (e : String × RowChange) : (r.takeEntry e).replica.notifier = r.notifier :=
  Intake.notifier_table (.start r) e.1 [e.2]

/-- Taking in an entry stores the next state of its row. -/
theorem cache_takeEntry (r : Replica) (e : String × RowChange) :
    (r.takeEntry e).replica.cache = r.cache.put e.1 e.2.id (r.schema.next? e.1 e.2) :=
  Intake.cache_table (.start r) e.1 [e.2]

theorem knows_takeEntry (r : Replica) (e : String × RowChange) (table : String) :
    (r.takeEntry e).replica.cache.knows table = r.cache.knows table := by
  rw [cache_takeEntry, Cache.knows_put]

/-- In a table that is known, the entry puts its row as it is kept, and leaves all other rows alone. -/
theorem row?_takeEntry (r : Replica) (e : String × RowChange) {table : String} (hk : r.cache.knows table = true) (id : RowId) :
    (r.takeEntry e).replica.cache.row? table id =
      if e.1 = table ∧ e.2.id = id then r.schema.next? table e.2 else r.cache.row? table id := by
  rw [cache_takeEntry, Cache.row?_put]
  by_cases he : e.1 = table ∧ e.2.id = id
  · obtain ⟨rfl, rfl⟩ := he
    rw [if_pos ⟨rfl, rfl, hk⟩, if_pos ⟨rfl, rfl⟩, Schema.next?_bind_nonempty?]
  · rw [if_neg he, if_neg (fun h => he ⟨h.1, h.2.1⟩)]

/-- The step law: what an entry does is lawful. -/
theorem lawful_takeEntry (r : Replica) (e : String × RowChange) :
    Moment.Lawful r.notifier ⟨e.1, e.2, r.cache, (r.takeEntry e).replica.cache, (r.takeEntry e).notices⟩ where
  put := r.cache_takeEntry e
  heard := Intake.notices_table (.start r) e.1 e.2

/-! ## Whole runs -/

variable {r : Replica} {entries : List (String × RowChange)} {m m' : Moment}

/-- The moments of entries in a row are those of the first entries and then those of the others. -/
theorem moments_append (r : Replica) (first second : List (String × RowChange)) :
    r.moments (first ++ second) = r.moments first ++ (r.afterEntries first).moments second := by
  induction first generalizing r with
  | nil => rfl
  | cons e rest ih =>
    rw [List.cons_append, moments, moments, ih, List.cons_append]
    rfl

/-- Each entry has its moment. -/
theorem map_moments (r : Replica) (entries : List (String × RowChange)) :
    (r.moments entries).map (fun m => (m.table, m.change)) = entries := by
  induction entries generalizing r with
  | nil => rfl
  | cons e rest ih => rw [moments, List.map_cons, ih]

/-- In every moment of a run, what is heard follows from the row before and after its entry. -/
theorem lawful_of_mem_moments (h : m ∈ r.moments entries) : m.Lawful r.notifier := by
  induction entries generalizing r with
  | nil => cases h
  | cons e rest ih =>
    rcases List.mem_cons.mp h with rfl | h
    · exact r.lawful_takeEntry e
    · exact r.notifier_takeEntry e ▸ ih h

theorem before_of_first (h : (r.moments entries)[0]? = some m) : m.before = r.cache := by
  cases entries with
  | nil => cases h
  | cons e rest =>
    cases h
    rfl

/-- A moment begins where the one before it ends. -/
theorem before_of_next {k : Nat} (h : (r.moments entries)[k]? = some m) (h' : (r.moments entries)[k + 1]? = some m') :
    m'.before = m.after := by
  induction entries generalizing r k with
  | nil => cases h
  | cons e rest ih =>
    rw [moments, List.getElem?_cons_succ] at h'
    cases k with
    | zero =>
      cases h
      exact before_of_first h'
    | succ k => exact ih h h'

/-- The cache after some entries is the one after the last of them. -/
theorem cache_afterEntries (r : Replica) (entries : List (String × RowChange)) :
    (r.afterEntries entries).cache = ((r.moments entries).getLast?.map Moment.after).getD r.cache := by
  induction entries generalizing r with
  | nil => rfl
  | cons e rest ih =>
    refine (ih (r.takeEntry e).replica).trans ?_
    rw [moments, List.getLast?_cons]
    cases ((r.takeEntry e).replica.moments rest).getLast? <;> rfl

/-- A batch is taken in entry by entry. -/
theorem takeIn_eq_foldl (r : Replica) (batch : ChangeBatch) :
    r.takeIn batch = batch.inOrder.foldl (fun i e => i.table e.1 [e.2]) (.start r) := by
  rw [takeIn, ChangeBatch.inOrder, List.foldl_flatMap]
  congr 1
  funext i t
  rw [Intake.table_eq_foldl, List.foldl_map]

/-- Taking in entries has the same outcome whatever was counted and heard before. -/
theorem replica_foldl (i : Intake) (entries : List (String × RowChange)) :
    (entries.foldl (fun i e => i.table e.1 [e.2]) i).replica = i.replica.afterEntries entries := by
  induction entries generalizing i with
  | nil => rfl
  | cons e rest ih =>
    rw [List.foldl_cons, ih, Intake.replica_table]
    rfl

/-- Taking in entries adds the notices of their moments. -/
theorem notices_foldl (i : Intake) (entries : List (String × RowChange)) :
    (entries.foldl (fun i e => i.table e.1 [e.2]) i).notices = i.notices ++ (i.replica.moments entries).flatMap (·.notices) := by
  induction entries generalizing i with
  | nil => exact (List.append_nil _).symm
  | cons e rest ih =>
    have hheard : (i.table e.1 [e.2]).notices = i.notices ++ (i.replica.takeEntry e).notices := by
      rw [Intake.notices_table, Intake.replica_table]
      exact congrArg (i.notices ++ ·) (i.replica.lawful_takeEntry e).heard.symm
    rw [List.foldl_cons, ih, hheard, Intake.replica_table, List.append_assoc, moments, List.flatMap_cons]

/-- Taking in batches is taking in their entries one by one. -/
theorem afterAll_eq_afterEntries (r : Replica) (batches : List ChangeBatch) :
    r.afterAll batches = r.afterEntries (batches.flatMap ChangeBatch.inOrder) := by
  rw [afterAll, afterEntries, List.foldl_flatMap]
  congr 1
  funext r batch
  rw [takeIn_eq_foldl, replica_foldl]
  rfl

/-- What is heard in a run is what is heard in its moments, one after the other. -/
theorem notices_takeInAll (r : Replica) (batches : List ChangeBatch) :
    (r.takeInAll batches).flatMap (·.notices) = (r.momentsOf batches).flatMap (·.notices) := by
  rw [momentsOf]
  induction batches generalizing r with
  | nil => rfl
  | cons batch rest ih =>
    rw [takeInAll, List.flatMap_cons, ih, List.flatMap_cons, moments_append, List.flatMap_append, takeIn_eq_foldl, notices_foldl,
      replica_foldl]
    rfl

end Replica

end TableReplica
