import TableReplica.Proofs.LinkedInsertion
import TableReplica.Proofs.ScopedLists

/-!
# Transactions merged

Two transactions that define no common placeholder may be submitted as one (`Session.merged_as_in_sequence`). The names that the first has
given do no harm to the run of the second, which reads only its own (`Workspace.run_beside`). References are looked at only once, after
the second, where they are sound. And what a client makes of the one batch that is between the tables before and after is, up to the
signs of zeros, what it makes of the two, since both leave it a mirror of the same tables.
-/

namespace TableReplica

/-! ## Operations one after the other -/

namespace Workspace

variable {supply : RowIdSupply}

/-- Two runs, the second from where the first ends, are one run. -/
theorem run_append {w mid last : Workspace} {index : Nat} {as bs : List Operation} {effects effects' : List Effect}
    (ha : w.run supply index as = (.ok effects, mid)) (hb : mid.run supply (index + as.length) bs = (.ok effects', last)) :
    w.run supply index (as ++ bs) = (.ok (effects ++ effects'), last) := by
  induction as generalizing w index effects with
  | nil =>
    cases ha
    exact hb
  | cons op rest ih =>
    obtain ⟨effect, next, effects'', happly, hrest, rfl⟩ := run_cons_eq_ok.mp ha
    rw [List.length_cons, Nat.add_comm rest.length 1, ← Nat.add_assoc] at hb
    exact run_cons_eq_ok.mpr ⟨effect, next, effects'' ++ effects', happly, ih hrest hb, rfl⟩

/-- Operations that define all they read do the same beside the names of others. -/
theorem run_beside {ops : List Operation} (hscope : Transaction.scopeFault? [] ops = none) {w last : Workspace} {index : Nat}
    {effects : List Effect} (h : (w.withNames ∅).run supply index ops = (.ok effects, last)) (index' : Nat) :
    ∃ names, w.run supply index' ops = (.ok effects, last.withNames names) := by
  have hnone : ∀ p ∈ ([] : List Placeholder), ((∅ : Assignment).get? p).or (w.names.get? p) = (w.withNames ∅).names.get? p :=
    fun p hp => (List.not_mem_nil hp).elim
  have hknown : ∀ e ∈ (ops.zip effects).filterMap Transaction.assigned?, ∀ id, (∅ : Assignment).get? e.1 = some id → id = e.2 :=
    fun e _ id hid => nomatch hid
  have hrun := run_fill hscope hnone h hknown index'
  rw [List.map_congr_left (fun op _ => op.fill_empty), List.map_id'] at hrun
  exact ⟨_, hrun⟩

end Workspace

namespace Transaction

variable {a b merged : Transaction}

/-- Transactions without a common placeholder can be merged. -/
theorem exists_merge (h : ∀ p, a.placeholders.contains p = true → b.placeholders.contains p = false) :
    ∃ merged, merge [a, b] = .ok merged ∧ merged.operations = a.operations ++ b.operations := by
  have hapart : [a, b].Pairwise Apart := List.pairwise_pair.mpr h
  obtain ⟨merged, hmerged⟩ := exists_merge_iff.mpr ⟨List.cons_ne_nil a [b], hapart⟩
  refine ⟨merged, hmerged, ?_⟩
  rw [ofList_eq_ok_iff.mp hmerged, List.flatMap_cons, List.flatMap_cons, List.flatMap_nil, List.append_nil]

/-- What the effects of both parts assign is what those of the first do, and over it what those of the second do. -/
theorem assignment_append (hops : merged.operations = a.operations ++ b.operations) {effects effects' : List Effect}
    (hlength : effects.length = a.size) :
    merged.assignment (effects ++ effects') = (a.assignment effects).insertAll (b.assignment effects').entries := by
  rw [assignment, assignment, assignment, SortedMap.insertAll_entries_ofList, hops, List.zip_append hlength.symm, List.filterMap_append]
  exact List.foldl_append

end Transaction

namespace Server

/-- When the first transaction is carried out and then the second, so are their operations as one transaction, to the same tables. -/
theorem transact_merged {supply : RowIdSupply} {s s₁ s₂ : Server} {a b merged : Transaction} {effects effects' : List Effect}
    (hops : merged.operations = a.operations ++ b.operations) (ha : s.transact supply a = (.ok effects, s₁))
    (hb : s₁.transact supply b = (.ok effects', s₂)) :
    ∃ s', s.transact supply merged = (.ok (effects ++ effects'), s') ∧ s'.tables = s₂.tables ∧ s'.drawn = s₂.drawn := by
  obtain ⟨harmed, mid, hfirst, -, rfl⟩ := transact_eq_ok_iff.mp ha
  obtain ⟨-, last, hsecond, hsound, rfl⟩ := transact_eq_ok_iff.mp hb
  obtain ⟨names, hbeside⟩ := Workspace.run_beside b.scopeFault?_operations hsecond (0 + a.operations.length)
  have hrun := Workspace.run_append hfirst hbeside
  rw [← hops] at hrun
  exact ⟨_, transact_eq_ok_iff.mpr ⟨harmed, _, hrun, hsound, rfl⟩, rfl, rfl⟩

end Server

/-! ## Sessions -/

namespace Session

variable {supply : RowIdSupply} {tags : Nat → UInt32} {s s' : Session Server} {now : Tables}

/-- A submission is answered with what the server reports, one effect for each operation, and the identifiers assigned. -/
theorem submit_eq_ok_iff {txn : Transaction} {reply : Reply} :
    s.submit (Server.services supply tags) txn = (.ok reply, s') ↔
      s.state.transact supply txn = (.ok reply.effects, s'.state) ∧ reply.effects.length = txn.size ∧
        reply.assignment = txn.assignment reply.effects ∧ s' = { s with state := s'.state } := by
  constructor
  · intro h
    obtain ⟨hanswer, rfl⟩ := Prod.mk.inj h
    obtain ⟨htransact, hlength, hassignment⟩ := Executor.submit_eq_ok_iff.mp (Prod.ext hanswer rfl)
    exact ⟨htransact, hlength, hassignment, rfl⟩
  · rintro ⟨htransact, hlength, hassignment, hs'⟩
    have hsubmit : Executor.submit (Server.transact supply) s.state txn = (.ok reply, s'.state) :=
      Executor.submit_eq_ok_iff.mpr ⟨htransact, hlength, hassignment⟩
    rw [hs', submit]
    dsimp only [Server.services]
    rw [hsubmit]

/-- A submission that is answered is a commit. -/
theorem committed_of_submit {txn : Transaction} {reply : Reply} (h : s.submit (Server.services supply tags) txn = (.ok reply, s')) :
    Committed s s' s'.state.tables := by
  obtain ⟨htransact, -, -, hs'⟩ := submit_eq_ok_iff.mp h
  obtain ⟨-, last, -, hsound, hstate⟩ := Server.transact_eq_ok_iff.mp htransact
  refine ⟨by rw [hs'], rfl, ?_, ?_⟩
  · rw [hstate]
    rfl
  · rw [hstate]
    exact (Tables.dangling?_eq_none_iff _).mp hsound

/-- Taking in the feed takes in all the batches that wait, and leaves none. -/
theorem takeFeed_of_waiting {waiting : List ChangeBatch} (h : s.state.feed = .waiting waiting) :
    s.takeFeed = ⟨{ s.client with replica := s.client.replica.afterAll waiting }, { s.state with feed := .waiting [] }, s.supplies⟩ := by
  rw [takeFeed, Server.drain, h]
  rfl

/-- What waits on the feed may be taken in before the commit, and the batch of the commit after it. -/
theorem Committed.exists_takeFeed (h : Committed s s' now) {waiting : List ChangeBatch} (hfeed : s.state.feed = .waiting waiting) :
    ∃ t, Committed s.takeFeed t now ∧ t.takeFeed = s'.takeFeed := by
  have hpublished := h.feed
  rw [hfeed] at hpublished
  refine ⟨⟨s.takeFeed.client, { s'.state with feed := (Feed.waiting []).publish (.between s.state.tables now) }, s'.supplies⟩,
    ⟨rfl, h.tables, ?_, h.sound⟩, ?_⟩
  · rw [feed_takeFeed hfeed]
    rfl
  · rw [takeFeed_of_waiting hfeed]
    rw [Feed.publish] at hpublished ⊢
    split
    · rename_i hempty
      rw [if_pos hempty] at hpublished
      rw [takeFeed_of_waiting hpublished, takeFeed_of_waiting rfl, h.client]
      rfl
    · rename_i hempty
      rw [if_neg hempty] at hpublished
      have happend : s.client.replica.afterAll (waiting ++ [.between s.state.tables now]) =
          (s.client.replica.afterAll waiting).afterAll [.between s.state.tables now] := List.foldl_append
      rw [takeFeed_of_waiting hpublished, takeFeed_of_waiting rfl, h.client, happend]
      rfl

/-- Two sessions that mirror the same tables through the same schema have the same rows in their caches, up to the signs of zeros. -/
theorem Converged.cache_congr (hs : s.Converged) (hs' : s'.Converged) (hschema : s.client.replica.schema = s'.client.replica.schema)
    (hknows : ∀ table, s.client.replica.cache.knows table = s'.client.replica.cache.knows table)
    (htables : s.state.tables = s'.state.tables) (table : String) :
    (s.client.cache.tables.get? table).map RowMap.positiveZeros = (s'.client.cache.tables.get? table).map RowMap.positiveZeros := by
  refine (hs.mirrors.rows table).trans (Eq.trans ?_ (hs'.mirrors.rows table).symm)
  rw [hschema, hknows, htables]

/-- A commit on top of others that wait: a session that converges when those are taken in converges with the commit as well. -/
theorem Committed.converged_of_waiting (h : Committed s s' now) {waiting : List ChangeBatch} (hfeed : s.state.feed = .waiting waiting)
    (hs : s.takeFeed.Converged) :
    s'.takeFeed.Converged ∧ s'.takeFeed.client.replica.schema = s.takeFeed.client.replica.schema ∧
      ∀ table, s'.takeFeed.client.replica.cache.knows table = s.takeFeed.client.replica.cache.knows table := by
  obtain ⟨t, hcommitted, htaken⟩ := h.exists_takeFeed hfeed
  rw [← htaken]
  exact ⟨hcommitted.converged_takeFeed hs, hcommitted.schema_takeFeed hs.drained, hcommitted.knows_takeFeed hs.drained⟩

/-- When a transaction is carried out and then another that defines none of its placeholders, the two can be merged, and the merged one is
carried out from where the first began. Its reply is that to the first followed by that to the second, it leaves the same tables
and has drawn as many identifiers, and a session that had converged has the same rows in its cache afterwards, up to the signs of zeros. -/
theorem merged_as_in_sequence (supply : RowIdSupply) (tags : Nat → UInt32) (s s₁ s₂ : Session Server) (a b : Transaction)
    (first second : Reply) (hapart : ∀ p, a.placeholders.contains p = true → b.placeholders.contains p = false)
    (ha : s.submit (Server.services supply tags) a = (.ok first, s₁)) (hb : s₁.submit (Server.services supply tags) b = (.ok second, s₂)) :
    ∃ merged s', Transaction.merge [a, b] = .ok merged ∧
      s.submitMerged (Server.services supply tags) [a, b] =
        (.ok ⟨first.effects ++ second.effects, first.assignment.insertAll second.assignment.entries⟩, s') ∧
      s'.state.tables = s₂.state.tables ∧ s'.state.drawn = s₂.state.drawn ∧
      (s.Converged → ∀ table, (s'.takeFeed.client.cache.tables.get? table).map RowMap.positiveZeros =
        (s₂.takeFeed.client.cache.tables.get? table).map RowMap.positiveZeros) := by
  obtain ⟨merged, hmerged, hops⟩ := Transaction.exists_merge hapart
  obtain ⟨hfirst, hlength, hassignment, -⟩ := submit_eq_ok_iff.mp ha
  obtain ⟨hsecond, hlength', hassignment', -⟩ := submit_eq_ok_iff.mp hb
  obtain ⟨state, htransact, htables, hdrawn⟩ := Server.transact_merged hops hfirst hsecond
  have hsubmit : s.submit (Server.services supply tags) merged =
      (.ok ⟨first.effects ++ second.effects, first.assignment.insertAll second.assignment.entries⟩, { s with state := state }) := by
    refine submit_eq_ok_iff.mpr ⟨htransact, ?_, ?_, rfl⟩
    · rw [List.length_append, hlength, hlength', Transaction.size, Transaction.size, Transaction.size, hops, List.length_append]
    · rw [hassignment, hassignment', Transaction.assignment_append hops hlength]
  refine ⟨merged, { s with state := state }, hmerged, ?_, htables, hdrawn, ?_⟩
  · rw [submitMerged, hmerged]
    exact hsubmit
  · intro hs
    have hcommitted := committed_of_submit hsubmit
    have hcommitted₁ := committed_of_submit ha
    have hwaiting : ∃ waiting, s₁.state.feed = .waiting waiting := by
      rw [hcommitted₁.feed, hs.drained, Feed.publish]
      split <;> exact ⟨_, rfl⟩
    obtain ⟨waiting, hwaiting⟩ := hwaiting
    obtain ⟨hconverged, hschema, hknows⟩ :=
      (committed_of_submit hb).converged_of_waiting hwaiting (hcommitted₁.converged_takeFeed hs)
    refine (hcommitted.converged_takeFeed hs).cache_congr hconverged ?_ ?_ htables
    · rw [hschema, hcommitted.schema_takeFeed hs.drained, hcommitted₁.schema_takeFeed hs.drained]
    · intro table
      rw [hknows, hcommitted.knows_takeFeed hs.drained, hcommitted₁.knows_takeFeed hs.drained]

/-- A port is inserted, and put among the ports of the switch of a given name. -/
def portForSwitch : Transaction where
  operations := [
    .insert "Logical_Switch_Port" (.ofList [("name", .string "q")]) (some ⟨"row_q", by decide⟩),
    .mutate "Logical_Switch" "ports" .insert (.reference (.named ⟨"row_q", by decide⟩)) [.holds "name" (.string "s")]]
  wellScoped := by decide

/-- A switch with a port and another port for it are merged. -/
theorem merged_portForSwitch :
    ∃ c first second s₁ s₂ s', Client.build (.ofDatabase "net") VirtualNetwork.models [] = .ok c ∧
      Session.submit (Server.services (Draws.rowIds 0) (fun _ => 0)) ⟨c, .empty, 0⟩ .switchWithPort = (.ok first, s₁) ∧
      s₁.submit (Server.services (Draws.rowIds 0) (fun _ => 0)) portForSwitch = (.ok second, s₂) ∧
      Session.submitMerged (Server.services (Draws.rowIds 0) (fun _ => 0)) ⟨c, .empty, 0⟩ [.switchWithPort, portForSwitch] =
        (.ok ⟨first.effects ++ second.effects, first.assignment.insertAll second.assignment.entries⟩, s') ∧
      s'.state.tables = s₂.state.tables ∧
      ∀ table, (s'.takeFeed.client.cache.tables.get? table).map RowMap.positiveZeros =
        (s₂.takeFeed.client.cache.tables.get? table).map RowMap.positiveZeros := by
  have hrun : (Client.build (.ofDatabase "net") VirtualNetwork.models []).map (fun c =>
      let answered := Session.submit (Server.services (Draws.rowIds 0) (fun _ => 0)) ⟨c, .empty, 0⟩ .switchWithPort
      (answered.1.isOk, (answered.2.submit (Server.services (Draws.rowIds 0) (fun _ => 0)) portForSwitch).1.isOk)) = .ok (true, true) := by
    decide +kernel
  obtain ⟨c, hbuilt, hfacts⟩ := map_eq_ok_iff.mp hrun
  obtain ⟨hfirst, hsecond⟩ := Prod.mk.inj hfacts
  obtain ⟨first, hfirst⟩ := Except.isOk_iff.mp hfirst
  obtain ⟨second, hsecond⟩ := Except.isOk_iff.mp hsecond
  have hapart : ∀ p, Transaction.switchWithPort.placeholders.contains p = true → portForSwitch.placeholders.contains p = false := by
    intro p hp
    have hnames : ∀ q ∈ Transaction.switchWithPort.operations.filterMap Operation.defined?,
        portForSwitch.placeholders.contains q = false := by decide
    exact hnames p (Transaction.contains_placeholders_iff.mp hp)
  obtain ⟨merged, s', -, hsubmit, htables, -, hcache⟩ := merged_as_in_sequence (Draws.rowIds 0) (fun _ => 0) ⟨c, .empty, 0⟩ _ _
    .switchWithPort portForSwitch first second hapart (Prod.ext hfirst rfl) (Prod.ext hsecond rfl)
  exact ⟨c, first, second, _, _, s', hbuilt, Prod.ext hfirst rfl, Prod.ext hsecond rfl, hsubmit, htables, hcache (converged_new hbuilt)⟩

end Session

end TableReplica
