import TableReplica.Proofs.MirroredRows
import TableReplica.Proofs.Submission
import TableReplica.Client.Feed

/-!
# Sessions that take their feed in

A session has converged when its feed is drained and its cache mirrors the tables of its server (`Session.Converged`). A call that is
refused leaves it so, and after one that is carried out it has converged again as soon as the feed is taken in
(`Session.Committed.converged_takeFeed`).
-/

namespace TableReplica

namespace Session

/-- Nothing waits on the feed, and the cache mirrors the tables of the server. -/
structure Converged (s : Session Server) : Prop where
  drained : s.state.feed = .waiting []
  mirrors : s.client.replica.Mirrors s.state.tables

theorem tables_takeFeed (s : Session Server) : s.takeFeed.state.tables = s.state.tables := rfl

/-- After the feed has been taken in nothing waits. -/
theorem feed_takeFeed {s : Session Server} {waiting : List ChangeBatch} (h : s.state.feed = .waiting waiting) :
    s.takeFeed.state.feed = .waiting [] := by
  show s.state.feed.drain.2 = _
  rw [h]
  rfl

/-- Taking in the feed takes in all the batches that wait. -/
theorem replica_takeFeed {s : Session Server} {waiting : List ChangeBatch} (h : s.state.feed = .waiting waiting) :
    s.takeFeed.client.replica = s.client.replica.afterAll waiting := by
  show s.client.replica.afterAll s.state.feed.drain.1 = _
  rw [h]
  rfl

/-- With nothing waiting there is nothing to take in. -/
theorem takeFeed_of_drained {s : Session Server} (h : s.state.feed = .waiting []) : s.takeFeed = s := by
  obtain ⟨client, state, supplies⟩ := s
  obtain ⟨tables, armed, drawn, feed⟩ := state
  cases h
  rfl

namespace Refused

variable {s s' : Session Server}

/-- A call that is refused leaves nothing to take in. -/
theorem takeFeed (h : Refused s s') (hfeed : s.state.feed = .waiting []) : s'.takeFeed = s' :=
  takeFeed_of_drained (h.feed.trans hfeed)

/-- A call that is refused leaves a converged session converged. -/
theorem converged (h : Refused s s') (hs : s.Converged) : s'.Converged where
  drained := h.feed.trans hs.drained
  mirrors := by
    rw [h.client, h.tables]
    exact hs.mirrors

end Refused

namespace Committed

variable {s s' : Session Server} {now : Tables}

/-- The batch of the commit is taken in, if there is anything in it. -/
theorem replica_takeFeed (h : Committed s s' now) (hfeed : s.state.feed = .waiting []) :
    s'.takeFeed.client.replica =
      if (ChangeBatch.between s.state.tables now).isEmpty = true then s.client.replica
      else (s.client.replica.takeIn (.between s.state.tables now)).replica := by
  have hpublished := h.feed
  rw [hfeed, Feed.publish] at hpublished
  split at hpublished
  · rename_i hempty
    rw [Session.replica_takeFeed hpublished, if_pos hempty, h.client]
    rfl
  · rename_i hempty
    rw [Session.replica_takeFeed hpublished, if_neg hempty, h.client]
    rfl

/-- After a commit has been taken in nothing waits. -/
theorem drained_takeFeed (h : Committed s s' now) (hfeed : s.state.feed = .waiting []) :
    s'.takeFeed.state.feed = .waiting [] := by
  have hpublished := h.feed
  rw [hfeed, Feed.publish] at hpublished
  split at hpublished <;> exact feed_takeFeed hpublished

/-- Taking in a commit leaves the listeners and models as they are. -/
theorem notifier_takeFeed (h : Committed s s' now) (hfeed : s.state.feed = .waiting []) :
    s'.takeFeed.client.replica.notifier = s.client.replica.notifier := by
  rw [h.replica_takeFeed hfeed]
  split
  · rfl
  · exact Replica.notifier_takeIn _ _

theorem schema_takeFeed (h : Committed s s' now) (hfeed : s.state.feed = .waiting []) :
    s'.takeFeed.client.replica.schema = s.client.replica.schema := by
  rw [Replica.schema, h.notifier_takeFeed hfeed]
  rfl

/-- Taking in a commit makes no table known. -/
theorem knows_takeFeed (h : Committed s s' now) (hfeed : s.state.feed = .waiting []) (table : String) :
    s'.takeFeed.client.replica.cache.knows table = s.client.replica.cache.knows table := by
  rw [h.replica_takeFeed hfeed]
  split
  · rfl
  · exact Replica.knows_takeIn _ _ table

/-- What the cache has in the place of a row when the commit has been taken in. -/
theorem row?_takeFeed (h : Committed s s' now) (hfeed : s.state.feed = .waiting []) {table : String}
    (hk : s.client.replica.cache.knows table = true) (id : RowId) :
    s'.takeFeed.client.replica.cache.row? table id =
      if (RowChange.told id (s.state.tables.row? table id) (now.row? table id)).isSome then
        (now.row? table id).bind (s.client.replica.schema.kept table)
      else s.client.replica.cache.row? table id := by
  rw [h.replica_takeFeed hfeed]
  split
  · rename_i hempty
    have hnone : RowChange.told id (s.state.tables.row? table id) (now.row? table id) = none :=
      RowChange.told_eq_none_of_isEmpty hempty table id
    rw [hnone]
    rfl
  · exact Replica.row?_takeIn_between s.client.replica s.state.tables now hk id

/-- Taking in a commit makes a converged session converged again. -/
theorem converged_takeFeed (h : Committed s s' now) (hs : s.Converged) : s'.takeFeed.Converged where
  drained := h.drained_takeFeed hs.drained
  mirrors := by
    rw [tables_takeFeed, h.tables, h.replica_takeFeed hs.drained]
    split
    · rename_i hempty
      exact hs.mirrors.congr (Tables.same_of_isEmpty_between hempty)
    · exact hs.mirrors.takeIn

end Committed

end Session

end TableReplica
