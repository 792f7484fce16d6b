import TableReplica.Proofs.Moments
import TableReplica.Proofs.ReadableEntries
import TableReplica.Proofs.StoredForms

/-!
# Every entry is counted

The summary of a batch accounts for each of its entries once, and for the rows that came and went (`Intake.Counted`): what one entry
does keeps the account (`Intake.Counted.table`), so a whole batch does (`Replica.counted_takeIn`). A notification is refused only when it
is no object; otherwise what cannot be read of it is counted and has no other effect (`Replica.takes_apart`).
-/

namespace TableReplica

namespace Cache

/-- The number of rows of all tables. -/
def size (c : Cache) : Nat := (c.tables.values.map SortedMap.size).sum

variable {c : Cache} {table : String} {id : RowId} {row old : Row}

/-- Exchanging the rows of one table changes the size of a cache by as much as it changes the size of the table. -/
theorem size_insert {rows : RowMap} (h : c.tables.get? table = some rows) (rows' : RowMap) :
    (Cache.mk (c.tables.insert table rows')).size + rows.size = c.size + rows'.size :=
  SortedMap.sum_insert_of_get? h rows' SortedMap.size

/-- A row that is removed is one row less. -/
theorem size_put_none (h : c.row? table id = some old) : (c.put table id none).size + 1 = c.size := by
  rw [row?_eq_bind] at h
  obtain ⟨rows, hrows, hold⟩ := Option.bind_eq_some_iff.mp h
  have htable := size_insert hrows (rows.erase id)
  have hrow := SortedMap.size_of_get? hold
  rw [put, hrows, Option.bind_none]
  dsimp only
  omega

/-- A row that is put is one row more where there was none, and takes the place of the one that was there. -/
theorem size_put_some (hk : c.knows table = true) (hne : row.nonempty? = some row) (id : RowId) :
    (c.put table id (some row)).size = if (c.row? table id).isSome then c.size else c.size + 1 := by
  obtain ⟨rows, hrows⟩ := (knows_iff c table).mp hk
  have htable := size_insert hrows (rows.insert id row)
  have hinsert := SortedMap.size_insert rows id row
  rw [put, hrows, row?_eq_bind, hrows, Option.bind_some, Option.bind_some, hne]
  dsimp only
  cases hold : rows.get? id with
  | none =>
    have hrow : (rows.erase id).size = rows.size := congrArg SortedMap.size (SortedMap.erase_of_get?_eq_none hold)
    rw [Option.isSome_none, if_neg Bool.false_ne_true]
    omega
  | some old =>
    have hrow := SortedMap.size_of_get? hold
    rw [Option.isSome_some, if_pos rfl]
    omega

end Cache

namespace Intake

/-- The summary accounts for the given number of entries, and for the rows that came and went since the cache was as before. -/
structure Counted (before : Cache) (entries : Nat) (i : Intake) : Prop where
  entries : i.summary.created + i.summary.modified + i.summary.deleted + i.summary.skipped = entries
  rows : i.replica.cache.size + i.summary.deleted = before.size + i.summary.created
  /-- Only a change can be one of which the listener could not be told. -/
  dropped : i.summary.dropped ≤ i.summary.created + i.summary.modified + i.summary.deleted
  unread : i.summary.unread = 0

namespace Counted

variable {before : Cache} {n : Nat} {i : Intake} {name : String} {id : RowId} {row : Row}

/-- Before the first entry, nothing has been counted. -/
theorem start (r : Replica) : (Intake.start r).Counted r.cache 0 where
  entries := rfl
  rows := rfl
  dropped := Nat.le_refl 0
  unread := rfl

/-- The listener is told of a change that has been counted. -/
theorem proceed {cache : Cache} {summary : Summary} {told : Delivery × List Notice}
    (hentries : summary.created + summary.modified + summary.deleted + summary.skipped = n)
    (hrows : cache.size + summary.deleted = before.size + summary.created)
    (hdropped : summary.dropped + 1 ≤ summary.created + summary.modified + summary.deleted) (hunread : summary.unread = 0) :
    (i.proceed cache summary told).Counted before n := by
  unfold Intake.proceed
  constructor
  · dsimp only
    split <;> exact hentries
  · dsimp only
    split <;> exact hrows
  · dsimp only
    split
    · exact hdropped
    · omega
  · dsimp only
    split <;> exact hunread

/-- A removal is counted as deleted or as skipped, and the size of the cache falls in the first case only. -/
theorem remove (h : i.Counted before n) (name : String) (id : RowId) : (i.remove name id).Counted before (n + 1) := by
  obtain ⟨hentries, hrows, hdropped, hunread⟩ := h
  unfold Intake.remove
  split
  · constructor <;> dsimp only <;> omega
  · rename_i last hlast
    have hsize := Cache.size_put_none hlast
    apply proceed <;> dsimp only <;> omega

/-- A row that is put is counted as created or as modified, and the size of the cache grows in the first case only. -/
theorem put (h : i.Counted before n) (hk : i.replica.cache.knows name = true) (hne : row.nonempty? = some row) (id : RowId) :
    (i.put name id row).Counted before (n + 1) := by
  obtain ⟨hentries, hrows, hdropped, hunread⟩ := h
  have hsize := Cache.size_put_some hk hne id
  unfold Intake.put
  dsimp only
  split
  · rename_i hnone
    rw [hnone, Option.isSome_none, if_neg Bool.false_ne_true] at hsize
    apply proceed <;> dsimp only <;> omega
  · rename_i old hold
    rw [hold, Option.isSome_some, if_pos rfl] at hsize
    apply proceed <;> dsimp only <;> omega

/-- Every entry of a known table is counted once. -/
theorem entry (h : i.Counted before n) (hk : i.replica.cache.knows name = true) (change : RowChange) :
    (i.entry name change).Counted before (n + 1) := by
  unfold Intake.entry
  split
  · exact h.remove name change.id
  · dsimp only
    split
    · exact h.remove name change.id
    · rename_i hne
      exact h.put hk (by rw [Row.nonempty?, if_neg hne]) change.id

/-- One entry is counted once, whether its table is subscribed or not. -/
theorem table (h : i.Counted before n) (name : String) (change : RowChange) : (i.table name [change]).Counted before (n + 1) := by
  unfold Intake.table
  split
  · rename_i hk
    exact h.entry hk change
  · obtain ⟨hentries, hrows, hdropped, hunread⟩ := h
    constructor <;> dsimp only [List.length_singleton] <;> omega

/-- Entries that are taken in one by one are counted one by one. -/
theorem foldl (h : i.Counted before n) (entries : List (String × RowChange)) :
    (entries.foldl (fun i e => i.table e.1 [e.2]) i).Counted before (n + entries.length) := by
  induction entries generalizing i n with
  | nil => exact h
  | cons e rest ih =>
    rw [List.foldl_cons, List.length_cons, Nat.add_comm rest.length, ← Nat.add_assoc]
    exact ih (h.table e.1 e.2)

end Counted

end Intake

/-- A batch has as many entries in order as it has changes. -/
theorem ChangeBatch.length_inOrder (batch : ChangeBatch) : batch.inOrder.length = batch.size := by
  unfold inOrder size SortedMap.values
  rw [List.length_flatMap, List.length_flatten, List.map_map]
  congr 1
  apply List.map_congr_left
  intro t _
  exact List.length_map _

namespace Replica

/-- The summary of a batch accounts for all its entries. -/
theorem counted_takeIn (r : Replica) (batch : ChangeBatch) : (r.takeIn batch).Counted r.cache batch.size := by
  have h := (Intake.Counted.start r).foldl batch.inOrder
  rw [Nat.zero_add, ChangeBatch.length_inOrder] at h
  rw [takeIn_eq_foldl]
  exact h

/-- A replica has taken in a notification with the given tables: its summary accounts for all entries, and for the rows that came and
went. -/
structure Accounts (before : Cache) (tables : SortedMap String Json) (i : Intake) : Prop where
  entries : i.summary.created + i.summary.modified + i.summary.deleted + i.summary.skipped + i.summary.unread =
    Wire.entryCount tables + Wire.brokenCount tables
  unread : i.summary.unread = Wire.unreadableCount tables + Wire.brokenCount tables
  rows : i.replica.cache.size + i.summary.deleted = before.size + i.summary.created
  dropped : i.summary.dropped ≤ i.summary.created + i.summary.modified + i.summary.deleted

/-- A notification that is no object is refused and changes nothing. Any other is taken in: it does what it does without the entries that
cannot be read and the tables that are no objects, except that these are counted. -/
theorem takes_apart (r : Replica) (notification : Json) :
    match notification.members? with
    | none =>
      r.takeInNotification notification = .error (.contract (.malformed .wireNotification)) ∧
        r.take (.notification notification) = r
    | some tables =>
      ∃ i, r.takeInNotification notification = .ok i ∧ Accounts r.cache tables i ∧
        r.takeInNotification (Wire.withoutUnread notification) = .ok { i with summary := { i.summary with unread := 0 } } := by
  split
  · rename_i hnone
    have hrefused : r.takeInNotification notification = .error (.contract (.malformed .wireNotification)) := by
      unfold takeInNotification Wire.readNotification
      rw [hnone]
      rfl
    refine ⟨hrefused, ?_⟩
    unfold take
    simp only [hrefused]
  · rename_i tables htables
    have hread := Wire.readNotification_eq htables
    have hcleaned := Wire.readNotification_withoutUnread hread
    obtain ⟨hentries, hrows, hdropped, hunread⟩ := r.counted_takeIn ⟨tables.filterMap (fun _ rows => rows.members?.map Wire.readableRows)⟩
    refine ⟨_, by unfold takeInNotification; rw [hread]; rfl, ?_, ?_⟩
    · have hall := Wire.size_add_length_unread htables hread
      have hbroken := Wire.length_unread htables hread
      dsimp only at hall hbroken
      constructor <;> dsimp only <;> omega
    · unfold takeInNotification
      rw [hcleaned]
      rfl

end Replica

end TableReplica
