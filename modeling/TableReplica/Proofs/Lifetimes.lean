import TableReplica.Proofs.Moments

/-!
# The life of a row

A row lives from the entry that brings it into the cache to the entry that takes it out (`Life.Spans`). Whatever is heard of it is heard
at an entry of one of its lives, and tells what the cache held of the row before and after that entry (`Moment.Tells`): a row is heard to
come at the first entry of a life, to change at the ones in between, and to go at the last, with the state in which it last stood.
-/

namespace TableReplica

/-- The moments of a run: one for each entry, each going on from where the one before it ended. -/
structure Replica.Unfolds (r : Replica) (batches : List ChangeBatch) (ms : List Moment) : Prop where
  entries : ms.map (fun m => (m.table, m.change)) = batches.flatMap ChangeBatch.inOrder
  begins : ∀ m, ms[0]? = some m → m.before = r.cache
  goesOn : ∀ k m m', ms[k]? = some m → ms[k + 1]? = some m' → m'.before = m.after
  ends : (r.afterAll batches).cache = (ms.getLast?.map Moment.after).getD r.cache
  /-- What is heard in the run is heard in the order of its entries. -/
  notices : (r.takeInAll batches).flatMap (·.notices) = ms.flatMap (·.notices)

/-- A life of a row that begins at one moment and goes on until another at least. -/
structure Life.Spans (ms : List Moment) (table : String) (id : RowId) (first last : Nat) : Prop where
  inOrder : first ≤ last
  comes : ∃ m, ms[first]? = some m ∧ m.before.row? table id = none ∧ (m.after.row? table id).isSome
  stays : ∀ k m, first < k → k ≤ last → ms[k]? = some m → (m.before.row? table id).isSome

/-- What may be heard at the entry `k` of a row whose life began at the entry `first`. -/
inductive Moment.Tells (d : Notifier) (m : Moment) (first k : Nat) : Notice → Prop where
  | created {row : Row} {record : Record} : k = first → m.after.row? m.table m.change.id = some row →
      d.schema.decode m.table m.change.id row = .ok record → Tells d m first k ⟨.created, m.table, [record], m.after⟩
  | updated {old new : Row} {before after : Record} : first < k →
      m.before.row? m.table m.change.id = some old → d.schema.decode m.table m.change.id old = .ok before →
      m.after.row? m.table m.change.id = some new → d.schema.decode m.table m.change.id new = .ok after →
      Tells d m first k ⟨.updated, m.table, [before, after], m.after⟩
  | deleted {row : Row} {record : Record} : first < k → m.before.row? m.table m.change.id = some row →
      d.schema.decode m.table m.change.id row = .ok record → m.after.row? m.table m.change.id = none →
      Tells d m first k ⟨.deleted, m.table, [record], m.after⟩

/-- What is heard in a run follows the lives of the rows. -/
structure Replica.FollowsLives (d : Notifier) (ms : List Moment) : Prop where
  atMostOne : ∀ m ∈ ms, m.notices.length ≤ 1
  /-- Whatever is heard is heard of a row that lives. -/
  within : ∀ k m n, ms[k]? = some m → n ∈ m.notices →
    ∃ first, Life.Spans ms m.table m.change.id first k ∧ m.Tells d first k n
  /-- In one life a row is heard once to come, and once to go. -/
  once : ∀ first k k' m m' n n', ms[k]? = some m → ms[k']? = some m' → m'.table = m.table → m'.change.id = m.change.id →
    Life.Spans ms m.table m.change.id first k → Life.Spans ms m.table m.change.id first k' →
    n ∈ m.notices → n' ∈ m'.notices → n.event = n'.event → n.event ≠ .updated → k = k'

/-! ## What one entry tells -/

namespace Notifier

variable {d : Notifier} {event : Event} {cache : Cache} {table : String} {id : RowId} {row old new : Row} {n : Notice}

/-- What is delivered to a listener is the event with the records and the cache of that moment. -/
theorem mem_deliver {listener : Listener} {records : List Record} (h : n ∈ (deliver listener event table cache records).2) :
    n = ⟨event, table, records, cache⟩ := by
  rw [deliver] at h
  simp only at h
  split at h
  · exact List.mem_singleton.mp h
  · cases h

/-- A notice of one row shows the record that the row decodes to. -/
theorem mem_notifyOne (h : n ∈ (d.notifyOne event cache table id row).2) :
    ∃ record, d.schema.decode table id row = .ok record ∧ n = ⟨event, table, [record], cache⟩ := by
  rw [notifyOne] at h
  split at h
  · cases h
  · split at h
    · rename_i record hrecord
      exact ⟨record, hrecord, mem_deliver h⟩
    · cases h

/-- A notice of a change shows the records that the old and the new row decode to. -/
theorem mem_notifyUpdated (h : n ∈ (d.notifyUpdated cache table id old new).2) :
    ∃ before after, d.schema.decode table id old = .ok before ∧ d.schema.decode table id new = .ok after ∧
      n = ⟨.updated, table, [before, after], cache⟩ := by
  rw [notifyUpdated] at h
  split at h
  · cases h
  · split at h
    · rename_i before after hbefore hafter
      exact ⟨before, after, hbefore, hafter, mem_deliver h⟩
    · cases h

/-- A listener is called once at most. -/
theorem length_deliver_le (listener : Listener) (event : Event) (table : String) (cache : Cache) (records : List Record) :
    (deliver listener event table cache records).2.length ≤ 1 := by
  rw [deliver]
  simp only
  split
  · exact Nat.le_refl 1
  · exact Nat.zero_le 1

theorem length_notifyOne_le (d : Notifier) (event : Event) (cache : Cache) (table : String) (id : RowId) (row : Row) :
    (d.notifyOne event cache table id row).2.length ≤ 1 := by
  rw [notifyOne]
  split
  · exact Nat.zero_le 1
  · split
    · exact length_deliver_le _ _ _ _ _
    · exact Nat.zero_le 1

theorem length_notifyUpdated_le (d : Notifier) (cache : Cache) (table : String) (id : RowId) (old new : Row) :
    (d.notifyUpdated cache table id old new).2.length ≤ 1 := by
  rw [notifyUpdated]
  split
  · exact Nat.zero_le 1
  · split
    · exact length_deliver_le _ _ _ _ _
    · exact Nat.zero_le 1

/-- Of one entry, one notice is heard at most. -/
theorem length_heard_le (d : Notifier) (cache : Cache) (table : String) (id : RowId) (before after : Option Row) :
    (d.heard cache table id before after).length ≤ 1 := by
  cases before with
  | none =>
    cases after with
    | none => exact Nat.zero_le 1
    | some new => exact length_notifyOne_le d .created cache table id new
  | some old =>
    cases after with
    | none => exact length_notifyOne_le d .deleted cache table id old
    | some new => exact length_notifyUpdated_le d cache table id old new

end Notifier

namespace Moment

variable {d : Notifier} {m : Moment} {n : Notice} {first k : Nat}

/-- A moment has one notice at most. -/
theorem Lawful.length_notices_le (h : m.Lawful d) : m.notices.length ≤ 1 := by
  rw [h.heard]
  exact d.length_heard_le _ _ _ _ _

/-- A row that was not there is heard to come. -/
theorem Lawful.tells_of_absent (h : m.Lawful d) (hn : n ∈ m.notices) (hbefore : m.before.row? m.table m.change.id = none) :
    (m.after.row? m.table m.change.id).isSome ∧ m.Tells d k k n := by
  rw [h.heard, hbefore] at hn
  cases hafter : m.after.row? m.table m.change.id with
  | none =>
    rw [hafter] at hn
    cases hn
  | some row =>
    rw [hafter] at hn
    obtain ⟨record, hrecord, rfl⟩ := Notifier.mem_notifyOne hn
    exact ⟨rfl, .created rfl hafter hrecord⟩

/-- A row that was there is heard to change or to go. -/
theorem Lawful.tells_of_present (h : m.Lawful d) (hn : n ∈ m.notices) {old : Row}
    (hbefore : m.before.row? m.table m.change.id = some old) (hk : first < k) : m.Tells d first k n := by
  rw [h.heard, hbefore] at hn
  cases hafter : m.after.row? m.table m.change.id with
  | none =>
    rw [hafter] at hn
    obtain ⟨record, hrecord, rfl⟩ := Notifier.mem_notifyOne hn
    exact .deleted hk hbefore hrecord hafter
  | some new =>
    rw [hafter] at hn
    obtain ⟨before, after, hold, hnew, rfl⟩ := Notifier.mem_notifyUpdated hn
    exact .updated hk hbefore hold hafter hnew

end Moment

/-! ## Lives -/

namespace Life.Spans

variable {r : Replica} {batches : List ChangeBatch} {ms : List Moment} {table : String} {id : RowId} {first first' last k : Nat}
  {m : Moment}

/-- A life that begins with a moment and has not gone on. -/
theorem single (hm : ms[k]? = some m) (hbefore : m.before.row? table id = none) (hafter : (m.after.row? table id).isSome) :
    Life.Spans ms table id k k where
  inOrder := Nat.le_refl k
  comes := ⟨m, hm, hbefore, hafter⟩
  stays := by
    intro j _ hlt hle
    omega

/-- A life goes on while the row is there. -/
theorem next (h : Life.Spans ms table id first k) (hm : ms[k + 1]? = some m) (hrow : (m.before.row? table id).isSome) :
    Life.Spans ms table id first (k + 1) where
  inOrder := Nat.le_succ_of_le h.inOrder
  comes := h.comes
  stays := by
    intro j m' hlt hle hm'
    rcases Nat.lt_or_eq_of_le hle with hle | rfl
    · exact h.stays j m' hlt (Nat.le_of_lt_succ hle) hm'
    · rw [hm] at hm'
      cases hm'
      exact hrow

/-- A row that is there came at an earlier entry of the run. -/
theorem of_present (hu : r.Unfolds batches ms) (hempty : r.cache.row? table id = none) (hm : ms[k]? = some m)
    (hrow : (m.before.row? table id).isSome) : ∃ first, first < k ∧ Life.Spans ms table id first k := by
  induction k generalizing m with
  | zero =>
    rw [hu.begins m hm, hempty] at hrow
    cases hrow
  | succ k ih =>
    have hlt : k < ms.length := by
      have := (List.getElem?_eq_some_iff.mp hm).1
      omega
    have hlast : ms[k]? = some ms[k] := List.getElem?_eq_getElem hlt
    have hjoin : m.before = ms[k].after := hu.goesOn k ms[k] m hlast hm
    by_cases hthere : (ms[k].before.row? table id).isSome
    · obtain ⟨first, hfirst, hspans⟩ := ih hlast hthere
      exact ⟨first, Nat.lt_succ_of_lt hfirst, hspans.next hm hrow⟩
    · have hcomes : Life.Spans ms table id k k :=
        single hlast (Option.not_isSome_iff_eq_none.mp hthere) (hjoin ▸ hrow)
      exact ⟨k, Nat.lt_succ_self k, hcomes.next hm hrow⟩

/-- The life in which a moment lies has one first entry. -/
theorem first_unique (h : Life.Spans ms table id first k) (h' : Life.Spans ms table id first' k) : first = first' := by
  have hle : ∀ {a b}, Life.Spans ms table id a k → Life.Spans ms table id b k → b ≤ a := by
    intro a b ha hb
    apply Nat.le_of_not_lt
    intro hlt
    obtain ⟨m, hm, hnone, -⟩ := hb.comes
    have hsome := ha.stays b m hlt hb.inOrder hm
    rw [hnone] at hsome
    cases hsome
  exact Nat.le_antisymm (hle h' h) (hle h h')

/-- Where a row goes its life is over. -/
theorem le_of_gone (hu : r.Unfolds batches ms) (hm : ms[k]? = some m) (hfirst : first ≤ k) (hgone : m.after.row? table id = none)
    (h : Life.Spans ms table id first last) (hlast : last < ms.length) : last ≤ k := by
  apply Nat.le_of_not_lt
  intro hlt
  have hnext : k + 1 < ms.length := Nat.lt_of_le_of_lt hlt hlast
  have hm' : ms[k + 1]? = some ms[k + 1] := List.getElem?_eq_getElem hnext
  have hsome := h.stays (k + 1) ms[k + 1] (Nat.lt_succ_of_le hfirst) hlt hm'
  rw [hu.goesOn k m ms[k + 1] hm hm', hgone] at hsome
  cases hsome

end Life.Spans

/-! ## Runs -/

namespace Moment.Tells

variable {r : Replica} {batches : List ChangeBatch} {d : Notifier} {m m' : Moment} {n n' : Notice} {first k k' : Nat}

/-- What tells of a creation tells of the first state of a life. -/
theorem eq_first (h : m.Tells d first k n) (hn : n.event = .created) : k = first := by
  cases h with
  | created hk _ _ => exact hk
  | updated _ _ _ _ _ => cases hn
  | deleted _ _ _ _ => cases hn

/-- After what tells of a deletion, the row is gone. -/
theorem gone (h : m.Tells d first k n) (hn : n.event = .deleted) : m.after.row? m.table m.change.id = none := by
  cases h with
  | created _ _ _ => cases hn
  | updated _ _ _ _ _ => cases hn
  | deleted _ _ _ hgone => exact hgone

end Moment.Tells

namespace Replica

/-- The moments of a run unfold its batches entry by entry. -/
theorem unfolds_momentsOf (r : Replica) (batches : List ChangeBatch) : r.Unfolds batches (r.momentsOf batches) where
  entries := r.map_moments _
  begins _ := before_of_first
  goesOn _ _ _ := before_of_next
  ends := by rw [afterAll_eq_afterEntries, momentsOf, cache_afterEntries]
  notices := r.notices_takeInAll batches

/-- In a run that began without rows, a notice is heard of a row that lives. -/
theorem tells_of_mem {notifier : Notifier} {tables : List String} {batches : List ChangeBatch} {k : Nat} {m : Moment} {n : Notice}
    (hm : ((awaiting notifier tables).momentsOf batches)[k]? = some m) (hn : n ∈ m.notices) :
    ∃ first, Life.Spans ((awaiting notifier tables).momentsOf batches) m.table m.change.id first k ∧ m.Tells notifier first k n := by
  have hlawful : m.Lawful notifier := lawful_of_mem_moments (List.mem_of_getElem? hm)
  cases hbefore : m.before.row? m.table m.change.id with
  | none =>
    obtain ⟨hafter, htells⟩ := hlawful.tells_of_absent hn hbefore
    exact ⟨k, .single hm hbefore hafter, htells⟩
  | some old =>
    obtain ⟨first, hlt, hspans⟩ := Life.Spans.of_present ((awaiting notifier tables).unfolds_momentsOf batches)
      (Cache.row?_awaiting tables m.table m.change.id) hm (by rw [hbefore]; rfl)
    exact ⟨first, hspans, hlawful.tells_of_present hn hbefore hlt⟩

/-- Two notices of one kind in one life come from one entry, unless they tell of changes. -/
theorem eq_of_tells {r : Replica} {batches : List ChangeBatch} {ms : List Moment} {d : Notifier} {first k k' : Nat} {m m' : Moment}
    {n n' : Notice} (hu : r.Unfolds batches ms) (hm : ms[k]? = some m) (hm' : ms[k']? = some m') (htable : m'.table = m.table)
    (hid : m'.change.id = m.change.id) (hk : Life.Spans ms m.table m.change.id first k)
    (hk' : Life.Spans ms m.table m.change.id first k') (h : m.Tells d first k n) (h' : m'.Tells d first k' n')
    (hsame : n.event = n'.event) (hevent : n.event ≠ .updated) : k = k' := by
  cases hn : n.event with
  | updated => exact absurd hn hevent
  | created => rw [h.eq_first hn, h'.eq_first (hsame ▸ hn)]
  | deleted =>
    have hgone := h.gone hn
    have hgone' : m'.after.row? m.table m.change.id = none := by
      rw [← htable, ← hid]
      exact h'.gone (hsame ▸ hn)
    have hle := hk'.le_of_gone hu hm hk.inOrder hgone (List.getElem?_eq_some_iff.mp hm').1
    have hle' := hk.le_of_gone hu hm' hk'.inOrder hgone' (List.getElem?_eq_some_iff.mp hm).1
    exact Nat.le_antisymm hle' hle

/-- Whatever a replica hears in a run that began without rows follows the lives of the rows. -/
theorem notices_follow_lives (notifier : Notifier) (tables : List String) (batches : List ChangeBatch) :
    (awaiting notifier tables).Unfolds batches ((awaiting notifier tables).momentsOf batches) ∧
      FollowsLives notifier ((awaiting notifier tables).momentsOf batches) := by
  have hu := (awaiting notifier tables).unfolds_momentsOf batches
  refine ⟨hu, ?_, ?_, ?_⟩
  · intro m hm
    exact Moment.Lawful.length_notices_le (lawful_of_mem_moments hm)
  · intro k m n hm hn
    exact tells_of_mem hm hn
  · intro first k k' m m' n n' hm hm' htable hid hk hk' hn hn' hsame hevent
    obtain ⟨begin, hspans, htells⟩ := tells_of_mem hm hn
    obtain ⟨begin', hspans', htells'⟩ := tells_of_mem hm' hn'
    rw [htable, hid] at hspans'
    cases hspans.first_unique hk
    cases hspans'.first_unique hk'
    exact eq_of_tells hu hm hm' htable hid hk hk' htells htells' hsame hevent

end Replica

end TableReplica
