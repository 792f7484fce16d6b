import TableReplica.Proofs.Mirror
import TableReplica.Client.Feed

/-!
# Convergence

A server is changed by rows that others insert and by transactions, and a replica takes the batches of its feed in one at a time,
whenever it likes. `Exchange.converged_run` says that after any such run a replica that has taken in `k` batches mirrors the
tables as they stood when the `k`-th batch was published.

The invariant is `Follows`: the batches that wait on the feed lead, commit by commit, from the tables that the replica mirrors to
those that the server has. So a replica that has taken in all that was published mirrors the tables as they are
(`Exchange.present_run`). A call on a server either leaves its tables and its feed alone or puts on the feed what is between the tables
before and after (`Server.Commits`).
-/

namespace TableReplica

/-- The batch that has waited longest, and the feed without it. -/
def Feed.next? : Feed → Option (ChangeBatch × Feed)
  | .waiting (batch :: rest) => some (batch, .waiting rest)
  | _ => none

/-- What can happen to a server and its replica. -/
inductive Deed where
  | arm (index : Nat) (code details : String)
  | insertRow (table : String) (row : Row)
  | transact (txn : Transaction)
  /-- The replica takes in the batch that has waited longest. -/
  | takeNext

/-- A server and the replica that takes its batches in. -/
structure Exchange where
  server : Server
  replica : Replica
  /-- The tables of the server when a batch was published, for each batch so far. -/
  published : List Tables
  /-- How many batches have been taken in. -/
  taken : Nat

namespace Exchange

/-- An empty server, and a replica that waits to hear of some tables. -/
def start (notifier : Notifier) (tables : List String) : Exchange := ⟨.empty, ⟨notifier, .awaiting tables⟩, [], 0⟩

/-- The server after a call: if there is something new on its feed, its tables are noted down. -/
def note (e : Exchange) (server : Server) : Exchange :=
  { e with server := server
           published := if server.feed = e.server.feed then e.published else e.published ++ [server.tables] }

def takeNext (e : Exchange) : Exchange :=
  match e.server.feed.next? with
  | none => e
  | some (batch, feed) =>
    { e with server := { e.server with feed := feed }
             replica := (e.replica.takeIn batch).replica
             taken := e.taken + 1 }

def step (supply : RowIdSupply) (e : Exchange) : Deed → Exchange
  | .arm index code details => e.note (e.server.arm index code details)
  | .insertRow table row => e.note (e.server.insertRow supply table row).2
  | .transact txn => e.note (e.server.transact supply txn).2
  | .takeNext => e.takeNext

def run (supply : RowIdSupply) (e : Exchange) (deeds : List Deed) : Exchange := deeds.foldl (step supply) e

end Exchange

/-- Some batches have been taken in and the others wait; each subscribed table of the replica holds exactly what is kept of the rows
that the server had in it when the last batch taken was published, up to the signs of zeros. Before the first, it had none. -/
def Exchange.Converged (e : Exchange) (schema : Schema) (tables : List String) : Prop :=
  ∃ waiting held,
    e.server.feed = .waiting waiting ∧ e.taken + waiting.length = e.published.length ∧
    (∅ :: e.published)[e.taken]? = some held ∧
    ∀ table, (e.replica.cache.tables.get? table).map RowMap.positiveZeros =
      if table ∈ tables then some (schema.keptRows table (held.rows table)).positiveZeros else none

/-! ## What a call does to tables and feed -/

namespace Server

/-- From one server to the next there is no commit, or one that has been put on the feed. -/
inductive Commits (s s' : Server) : Prop where
  | nothing (tables : s'.tables = s.tables) (feed : s'.feed = s.feed)
  | commit (feed : s'.feed = s.feed.publish (.between s.tables s'.tables))

/-- Arming a server commits nothing. -/
theorem commits_arm (s : Server) (index : Nat) (code details : String) : Commits s (s.arm index code details) :=
  .nothing rfl rfl

/-- A row that someone else inserts is committed. -/
theorem commits_insertRow (supply : RowIdSupply) (s : Server) (table : String) (row : Row) :
    Commits s (s.insertRow supply table row).2 :=
  .commit rfl

/-- A transaction that is carried out is committed, and one that fails is not. -/
theorem commits_execute (supply : RowIdSupply) (s : Server) (txn : Transaction) : Commits s (s.execute supply txn).2 := by
  unfold execute
  obtain ⟨outcome, last⟩ := Workspace.run supply ⟨s.tables, ∅, s.drawn⟩ 0 txn.operations
  cases outcome with
  | error refusal => exact .nothing rfl rfl
  | ok effects =>
    simp only
    cases last.tables.dangling? with
    | some cause => exact .nothing rfl rfl
    | none => exact .commit rfl

/-- A transaction leaves tables and feed alone or is committed. -/
theorem commits_transact (supply : RowIdSupply) (s : Server) (txn : Transaction) : Commits s (s.transact supply txn).2 := by
  unfold transact
  cases s.armed with
  | some refusal => exact .nothing rfl rfl
  | none => exact commits_execute supply s txn

end Server

/-! ## The batches that wait -/

/-- The batches lead from the tables held to the present ones, by commits that left the given tables behind. Tables in between that
are the same up to the signs of zeros need no batch. -/
inductive Follows : Tables → List ChangeBatch → List Tables → Tables → Prop where
  | done {held now : Tables} (same : held.Same now) : Follows held [] [] now
  | commit {held before after now : Tables} {batches : List ChangeBatch} {states : List Tables}
      (same : held.Same before) (rest : Follows after batches states now) :
      Follows held (.between before after :: batches) (after :: states) now

namespace Follows

/-- One batch more for one commit more. -/
theorem publish {held now after : Tables} {batches : List ChangeBatch} {states : List Tables}
    (h : Follows held batches states now) : Follows held (batches ++ [.between now after]) (states ++ [after]) after := by
  induction h with
  | done same => exact .commit same (.done (.refl after))
  | commit same _ ih => exact .commit same ih

/-- No batch for a commit that left the same tables. -/
theorem drift {held now after : Tables} {batches : List ChangeBatch} {states : List Tables}
    (h : Follows held batches states now) (hsame : now.Same after) : Follows held batches states after := by
  induction h with
  | done same => exact .done (same.trans hsame)
  | commit same _ ih => exact .commit same (ih hsame)

/-- There is a batch for each commit. -/
theorem length_eq {held now : Tables} {batches : List ChangeBatch} {states : List Tables}
    (h : Follows held batches states now) : batches.length = states.length := by
  induction h with
  | done _ => rfl
  | commit _ _ ih => rw [List.length_cons, List.length_cons, ih]

/-- Where no batch waits there has been no commit since, and the tables that were held are the present ones. -/
theorem same_of_nil {held now : Tables} {states : List Tables} (h : Follows held [] states now) : states = [] ∧ held.Same now := by
  cases h with
  | done same => exact ⟨rfl, same⟩

end Follows

/-! ## The invariant of an exchange -/

/-- The replica mirrors the tables of the last batch it has taken in, and the batches that wait lead on from there. -/
structure Exchange.Sound (e : Exchange) (waiting : List ChangeBatch) (held : Tables) : Prop where
  waits : e.server.feed = .waiting waiting
  heldNow : (∅ :: e.published)[e.taken]? = some held
  follows : Follows held waiting (e.published.drop e.taken) e.server.tables
  mirrors : e.replica.Mirrors held

namespace Exchange

/-- The same tables are subscribed, and the same models known, as long as an exchange runs. -/
def SameTerms (e e' : Exchange) : Prop :=
  e'.replica.notifier = e.replica.notifier ∧ ∀ table, e'.replica.cache.knows table = e.replica.cache.knows table

/-- An exchange begins with nothing waiting, and with a replica of no rows. -/
theorem sound_start (notifier : Notifier) (tables : List String) : (start notifier tables).Sound [] ∅ where
  waits := rfl
  heldNow := rfl
  follows := .done (.refl ∅)
  mirrors := Replica.mirrors_awaiting notifier tables

/-- A call on the server keeps the invariant: it publishes nothing, or a batch that leads on. -/
theorem Sound.note {e : Exchange} {waiting : List ChangeBatch} {held : Tables} (h : e.Sound waiting held) {server : Server}
    (hs : e.server.Commits server) : ∃ waiting', (e.note server).Sound waiting' held := by
  have htaken : e.taken ≤ e.published.length := by
    have hlt := (List.getElem?_eq_some_iff.mp h.heldNow).1
    rw [List.length_cons] at hlt
    omega
  cases hs with
  | nothing htables hfeed =>
    refine ⟨waiting, ⟨hfeed.trans h.waits, ?_, ?_, h.mirrors⟩⟩
    · rw [Exchange.note, if_pos hfeed]
      exact h.heldNow
    · rw [Exchange.note, if_pos hfeed]
      exact htables ▸ h.follows
  | commit hfeed =>
    rw [h.waits, Feed.publish] at hfeed
    split at hfeed
    · rename_i hempty
      have hzeros := Tables.same_of_isEmpty_between hempty
      have hsame : server.feed = e.server.feed := hfeed.trans h.waits.symm
      refine ⟨waiting, ⟨hfeed, ?_, ?_, h.mirrors⟩⟩
      · rw [Exchange.note, if_pos hsame]
        exact h.heldNow
      · rw [Exchange.note, if_pos hsame]
        exact h.follows.drift hzeros
    · have hne : server.feed ≠ e.server.feed := by
        rw [hfeed, h.waits, ne_eq, Feed.waiting.injEq]
        simp
      refine ⟨waiting ++ [ChangeBatch.between e.server.tables server.tables], ⟨hfeed, ?_, ?_, h.mirrors⟩⟩
      · have hlt : e.taken < (∅ :: e.published).length := by
          rw [List.length_cons]
          omega
        rw [Exchange.note, if_neg hne, ← List.cons_append, List.getElem?_append_left hlt]
        exact h.heldNow
      · rw [Exchange.note, if_neg hne, List.drop_append_of_le_length htaken]
        exact h.follows.publish

/-- Taking in the batch that has waited longest leads to the tables of that batch. -/
theorem Sound.takeNext {e : Exchange} {waiting : List ChangeBatch} {held : Tables} (h : e.Sound waiting held) :
    ∃ waiting' held', e.takeNext.Sound waiting' held' := by
  obtain ⟨hfeed, hheld, hfollows, hmirrors⟩ := h
  unfold Exchange.takeNext
  rw [hfeed]
  generalize hstates : e.published.drop e.taken = states at hfollows
  cases hfollows with
  | done hsame => exact ⟨[], held, ⟨hfeed, hheld, hstates ▸ .done hsame, hmirrors⟩⟩
  | @commit _ before after _ rest states hsame hrest =>
    refine ⟨rest, after, ⟨rfl, ?_, ?_, ?_⟩⟩
    · have hhead : (e.published.drop e.taken)[0]? = some after := by rw [hstates]; rfl
      rw [List.getElem?_drop, Nat.add_zero] at hhead
      exact hhead
    · have htail : e.published.drop (e.taken + 1) = states := by
        rw [← List.drop_drop, hstates]
        rfl
      exact htail ▸ hrest
    · exact (hmirrors.congr hsame).takeIn

/-- Every step of an exchange keeps the invariant, be it a call on the server or the taking in of a batch. -/
theorem Sound.step {e : Exchange} {waiting : List ChangeBatch} {held : Tables} (h : e.Sound waiting held)
    (supply : RowIdSupply) (deed : Deed) : ∃ waiting' held', (e.step supply deed).Sound waiting' held' := by
  cases deed with
  | arm index code details =>
    obtain ⟨waiting', h'⟩ := h.note (e.server.commits_arm index code details)
    exact ⟨waiting', held, h'⟩
  | insertRow table row =>
    obtain ⟨waiting', h'⟩ := h.note (e.server.commits_insertRow supply table row)
    exact ⟨waiting', held, h'⟩
  | transact txn =>
    obtain ⟨waiting', h'⟩ := h.note (e.server.commits_transact supply txn)
    exact ⟨waiting', held, h'⟩
  | takeNext => exact h.takeNext

/-- A step changes neither subscriptions nor models. -/
theorem sameTerms_step (supply : RowIdSupply) (e : Exchange) (deed : Deed) : SameTerms e (e.step supply deed) := by
  cases deed with
  | takeNext =>
    show SameTerms e e.takeNext
    unfold takeNext
    cases e.server.feed.next? with
    | none => exact ⟨rfl, fun _ => rfl⟩
    | some next => exact ⟨Replica.notifier_takeIn e.replica next.1, Replica.knows_takeIn e.replica next.1⟩
  | _ => exact ⟨rfl, fun _ => rfl⟩

/-- The invariant holds after every run of an exchange, by induction on its steps. -/
theorem Sound.run {e : Exchange} {waiting : List ChangeBatch} {held : Tables} (h : e.Sound waiting held)
    (supply : RowIdSupply) (deeds : List Deed) : ∃ waiting' held', (e.run supply deeds).Sound waiting' held' := by
  induction deeds generalizing e waiting held with
  | nil => exact ⟨waiting, held, h⟩
  | cons deed rest ih =>
    obtain ⟨waiting', held', h'⟩ := h.step supply deed
    exact ih h'

/-- A run changes neither subscriptions nor models. -/
theorem sameTerms_run (supply : RowIdSupply) (e : Exchange) (deeds : List Deed) : SameTerms e (e.run supply deeds) := by
  induction deeds generalizing e with
  | nil => exact ⟨rfl, fun _ => rfl⟩
  | cons deed rest ih =>
    obtain ⟨hnotifier, hknows⟩ := sameTerms_step supply e deed
    obtain ⟨hnotifier', hknows'⟩ := ih (e.step supply deed)
    exact ⟨hnotifier'.trans hnotifier, fun table => (hknows' table).trans (hknows table)⟩

/-- After a run each subscribed table holds what is kept of the rows that are mirrored, and no other table is known. -/
theorem rows_run (supply : RowIdSupply) (notifier : Notifier) (tables : List String) (deeds : List Deed) {held : Tables}
    (h : ((start notifier tables).run supply deeds).replica.Mirrors held) (table : String) :
    (((start notifier tables).run supply deeds).replica.cache.tables.get? table).map RowMap.positiveZeros =
      if table ∈ tables then some (notifier.schema.keptRows table (held.rows table)).positiveZeros else none := by
  obtain ⟨hnotifier, hknows⟩ := sameTerms_run supply (start notifier tables) deeds
  have hk : ((start notifier tables).run supply deeds).replica.cache.knows table = decide (table ∈ tables) :=
    (hknows table).trans (Cache.knows_awaiting tables table)
  rw [h.rows table, hk, Replica.schema, hnotifier]
  simp only [decide_eq_true_eq]
  rfl

/-- Whatever is done to the server, and whenever the replica takes batches in, the replica converges. -/
theorem converged_run (supply : RowIdSupply) (notifier : Notifier) (tables : List String) (deeds : List Deed) :
    ((start notifier tables).run supply deeds).Converged notifier.schema tables := by
  obtain ⟨waiting, held, h⟩ := (sound_start notifier tables).run supply deeds
  refine ⟨waiting, held, h.waits, ?_, h.heldNow, rows_run supply notifier tables deeds h.mirrors⟩
  have hlength := h.follows.length_eq
  have hlt := (List.getElem?_eq_some_iff.mp h.heldNow).1
  rw [List.length_drop] at hlength
  rw [List.length_cons] at hlt
  omega

/-- When nothing waits on the feed, the tables that were last published are the present ones, up to the signs of zeros, and the replica
holds what is kept of their rows. -/
theorem present_run (supply : RowIdSupply) (notifier : Notifier) (tables : List String) (deeds : List Deed)
    (hdrained : ((start notifier tables).run supply deeds).server.feed = .waiting []) :
    (∃ held, (∅ :: ((start notifier tables).run supply deeds).published).getLast? = some held ∧
      held.Same ((start notifier tables).run supply deeds).server.tables) ∧
    ∀ table, (((start notifier tables).run supply deeds).replica.cache.tables.get? table).map RowMap.positiveZeros =
      if table ∈ tables then
        some (notifier.schema.keptRows table (((start notifier tables).run supply deeds).server.tables.rows table)).positiveZeros
      else none := by
  obtain ⟨waiting, held, h⟩ := (sound_start notifier tables).run supply deeds
  obtain rfl : waiting = [] := Feed.waiting.inj (h.waits.symm.trans hdrained)
  obtain ⟨hnone, hsame⟩ := h.follows.same_of_nil
  refine ⟨⟨held, ?_, hsame⟩, rows_run supply notifier tables deeds (h.mirrors.congr hsame)⟩
  have hlt := (List.getElem?_eq_some_iff.mp h.heldNow).1
  have hall := List.drop_eq_nil_iff.mp hnone
  rw [List.length_cons] at hlt
  rw [List.getLast?_eq_getElem?, List.length_cons, Nat.add_sub_cancel, ← Nat.le_antisymm (Nat.le_of_lt_succ hlt) hall]
  exact h.heldNow

end Exchange

end TableReplica
