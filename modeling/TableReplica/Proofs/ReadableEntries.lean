import Mathlib.Data.List.Basic
import TableReplica.Proofs.Fallible
import TableReplica.Proofs.Maps
import TableReplica.Wire.Notification

/-!
# What can be read of a notification

An entry of a notification can be read when its key is an identifier, it is an object, and every value of its two states can be read
(`Wire.entryReadable`, `Wire.isOk_readRowChange`). Taking out all that cannot be read leaves a notification that is read to the
same batch, with nothing left unread (`Wire.readNotification_withoutUnread`), and every entry is either in the batch or unread
(`Wire.size_add_length_unread`).
-/

namespace TableReplica

/-- A result is there when it is some value. -/
theorem Except.isOk_iff {ε α : Type} {x : Except ε α} : x.isOk = true ↔ ∃ a, x = .ok a := by
  cases x <;> simp [Except.isOk, Except.toBool]

theorem Json.members?_object (m : SortedMap String Json) : (Json.object m.entries).members? = some m :=
  congrArg some m.ofList_entries

namespace Wire

/-- Every value of a state can be read. What is no object is a state without values. -/
def stateReadable (state : Json) : Bool :=
  match state.members? with
  | some columns => columns.values.all (fun v => (readLoose v).isOk)
  | none => true

/-- An entry can be read: its key is an identifier, and it is an object of which both states can be read, where they are given. -/
def entryReadable (key : String) (states : Json) : Bool :=
  (RowId.parse key).isOk && states.members?.isSome && (states.member? "old").all stateReadable &&
    (states.member? "new").all stateReadable

/-- A table without the entries that cannot be read. -/
def readablePart (rows : SortedMap String Json) : SortedMap String Json := rows.filter entryReadable

/-- A notification without all that cannot be read: entries, and tables that are no objects. -/
def withoutUnread (notification : Json) : Json :=
  match notification.members? with
  | some tables => .object (tables.filterMap (fun _ rows => rows.members?.map (fun rows => .object (readablePart rows).entries))).entries
  | none => notification

/-- The number of entries in the tables of a notification. -/
def entryCount (tables : SortedMap String Json) : Nat := ((tables.values.filterMap Json.members?).map SortedMap.size).sum

/-- The number of entries that cannot be read. -/
def unreadableCount (tables : SortedMap String Json) : Nat :=
  ((tables.values.filterMap Json.members?).map (fun rows => rows.entries.countP (fun e => !entryReadable e.1 e.2))).sum

/-- The number of tables that are no objects. -/
def brokenCount (tables : SortedMap String Json) : Nat := tables.values.countP (fun rows => rows.members?.isNone)

/-! ## One entry -/

/-- Without a kind, a value is read exactly when it is read as it is written. -/
theorem isOk_readValue (j : Json) : (readValue none j).isOk = (readLoose j).isOk := by
  unfold readValue
  cases readLoose j <;> rfl

/-- A row is read exactly when each of its columns is readable. -/
theorem isOk_readRow (state : Json) : (readRow none state).isOk = stateReadable state := by
  unfold readRow stateReadable
  cases state.members? with
  | none => rfl
  | some columns =>
    rw [Bool.eq_iff_iff]
    simp only [Option.bind_none, SortedMap.filterMapOk_isOk_iff, isOk_readValue, SortedMap.values, List.all_eq_true,
      List.forall_mem_map]

/-- A state is read when it is readable or not there. -/
theorem isOk_readState (states : Json) (name : String) : (readState states name).isOk = (states.member? name).all stateReadable := by
  unfold readState
  cases states.member? name with
  | none => rfl
  | some state =>
    show ((readRow none state).map some).isOk = _
    rw [Option.all_some, ← isOk_readRow]
    cases readRow none state <;> rfl

/-- An entry is read exactly when there is nothing wrong with it. -/
theorem isOk_readRowChange (key : String) (states : Json) : (readRowChange key states).isOk = entryReadable key states := by
  have hold := isOk_readState states "old"
  have hnew := isOk_readState states "new"
  unfold readRowChange entryReadable
  rw [← hold, ← hnew]
  cases RowId.parse key with
  | error violation => rfl
  | ok id =>
    cases states.members? with
    | none => rfl
    | some members =>
      cases readState states "old" with
      | error violation => rfl
      | ok before => cases readState states "new" <;> rfl

/-! ## One table -/

section Table

variable (rows : SortedMap String Json)

/-- Leaving out unreadable entries changes nothing in what is read of a table. -/
theorem readableRows_readablePart : readableRows (readablePart rows) = readableRows rows := by
  unfold readableRows readablePart SortedMap.filter
  rw [List.filterMap_filter]
  apply List.filterMap_congr
  intro e _
  rw [← isOk_readRowChange]
  cases readRowChange e.1 e.2 <;> rfl

/-- In the readable part of a table nothing is left unread. -/
theorem unreadRows_readablePart (table : String) : unreadRows table (readablePart rows) = [] := by
  unfold unreadRows
  rw [List.filterMap_eq_nil_iff]
  intro e he
  have hreadable : entryReadable e.1 e.2 = true := (List.mem_filter.mp he).2
  rw [← isOk_readRowChange] at hreadable
  obtain ⟨change, hchange⟩ := Except.isOk_iff.mp hreadable
  rw [hchange]

/-- As many rows of a table are left unread as there are unreadable entries. -/
theorem length_unreadRows (table : String) :
    (unreadRows table rows).length = rows.entries.countP (fun e => !entryReadable e.1 e.2) := by
  unfold unreadRows
  rw [List.length_filterMap_eq_countP]
  apply List.countP_congr
  intro e _
  rw [← isOk_readRowChange]
  cases readRowChange e.1 e.2 <;> simp [Except.isOk, Except.toBool]

/-- Every entry of a table can be read or not. -/
theorem length_readableRows_add (table : String) : (readableRows rows).length + (unreadRows table rows).length = rows.size := by
  have hread : (readableRows rows).length = rows.entries.countP (fun e => entryReadable e.1 e.2) := by
    unfold readableRows
    rw [List.length_filterMap_eq_countP]
    apply List.countP_congr
    intro e _
    rw [← isOk_readRowChange]
    cases readRowChange e.1 e.2 <;> simp [Except.isOk, Except.toBool, Except.toOption]
  rw [hread, length_unreadRows, SortedMap.size, List.length_eq_countP_add_countP (fun e => entryReadable e.1 e.2)]
  simp

end Table

/-! ## Whole notifications -/

/-- What cannot be read of a table, when it is a table at all. -/
def unreadOf (table : String) (rows : Json) : List UnreadRow :=
  match rows.members? with
  | some rows => unreadRows table rows
  | none => [⟨table, "", .malformed .wireTable⟩]

/-- A notification that is an object is read table by table, with what was left unread. -/
theorem readNotification_eq {notification : Json} {tables : SortedMap String Json} (h : notification.members? = some tables) :
    readNotification notification =
      .ok ⟨⟨tables.filterMap (fun _ rows => rows.members?.map readableRows)⟩, tables.entries.flatMap (fun e => unreadOf e.1 e.2)⟩ := by
  unfold readNotification
  rw [h]
  rfl

/-- Without what cannot be read, the same batch is read and nothing is left unread. -/
theorem readNotification_withoutUnread {notification : Json} {decoded : ReadNotification}
    (h : readNotification notification = .ok decoded) :
    readNotification (withoutUnread notification) = .ok ⟨decoded.batch, []⟩ := by
  cases htables : notification.members? with
  | none =>
    rw [readNotification, htables] at h
    cases h
  | some tables =>
    rw [readNotification_eq htables] at h
    cases h
    have hmembers : (withoutUnread notification).members? =
        some (tables.filterMap (fun _ rows => rows.members?.map (fun rows => .object (readablePart rows).entries))) := by
      unfold withoutUnread
      rw [htables]
      exact Json.members?_object _
    rw [readNotification_eq hmembers]
    congr 2
    · congr 1
      apply SortedMap.ext_get?
      intro table
      rw [SortedMap.get?_filterMap, SortedMap.get?_filterMap, SortedMap.get?_filterMap]
      cases tables.get? table with
      | none => rfl
      | some rows =>
        rw [Option.bind_some, Option.bind_some]
        cases rows.members? with
        | none => rfl
        | some rows =>
          rw [Option.map_some, Option.bind_some, Json.members?_object, Option.map_some, Option.map_some,
            readableRows_readablePart]
    · rw [List.flatMap_eq_nil_iff]
      intro e he
      obtain ⟨raw, -, hraw⟩ := List.mem_filterMap.mp he
      obtain ⟨cleaned, hcleaned, rfl⟩ := Option.map_eq_some_iff.mp hraw
      obtain ⟨rows, -, rfl⟩ := Option.map_eq_some_iff.mp hcleaned
      unfold unreadOf
      rw [Json.members?_object]
      exact unreadRows_readablePart rows raw.1

section Counts

variable {notification : Json} {decoded : ReadNotification} {tables : SortedMap String Json}

/-- Unread are the entries that cannot be read and the tables that are no objects. -/
theorem length_unread (htables : notification.members? = some tables) (h : readNotification notification = .ok decoded) :
    decoded.unread.length = unreadableCount tables + brokenCount tables := by
  rw [readNotification_eq htables] at h
  cases h
  unfold unreadableCount brokenCount SortedMap.values
  induction tables.entries with
  | nil => rfl
  | cons e rest ih =>
    rw [List.flatMap_cons, List.length_append, ih, List.map_cons, unreadOf]
    cases hrows : e.2.members? with
    | none =>
      simp only [List.filterMap_cons, List.countP_cons, List.length_singleton, Option.isNone_none, if_true, hrows]
      omega
    | some rows =>
      simp only [List.filterMap_cons, List.map_cons, List.sum_cons, List.countP_cons, Option.isNone_some, Bool.false_eq_true, if_false,
        length_unreadRows, hrows]
      omega

/-- Every entry is in the batch or unread, and so is every table that is no object. -/
theorem size_add_length_unread (htables : notification.members? = some tables) (h : readNotification notification = .ok decoded) :
    decoded.batch.size + decoded.unread.length = entryCount tables + brokenCount tables := by
  rw [readNotification_eq htables] at h
  cases h
  unfold ChangeBatch.size entryCount brokenCount SortedMap.values SortedMap.filterMap
  dsimp only
  induction tables.entries with
  | nil => rfl
  | cons e rest ih =>
    rw [List.flatMap_cons, List.length_append, List.map_cons, unreadOf, List.filterMap_cons]
    cases hrows : e.2.members? with
    | none =>
      simp only [List.filterMap_cons, List.countP_cons, List.length_singleton, Option.map_none, Option.isNone_none, if_true, hrows]
      omega
    | some rows =>
      have htable := length_readableRows_add rows e.1
      simp only [List.filterMap_cons, List.flatten_cons, List.length_append, List.map_cons, List.sum_cons, List.countP_cons,
        Option.map_some, Option.isNone_some, Bool.false_eq_true, if_false, hrows]
      omega

end Counts

end Wire

end TableReplica
