import Mathlib.Data.List.Chain
import TableReplica.Proofs.RowCalls
import TableReplica.VirtualNetwork.Records
import TableReplica.RowId

/-!
# Comings and goings

Whether a listener hears of a row that comes or goes is settled at that moment, by the row as it stands then
(`Notifier.comingsAndGoings_tale`). A row that does not decode when it comes and decodes when it goes is heard to go without having come
(`Replica.not_alternates`), and the other way round. Where a row decodes at both ends of each of its lives or at neither, its comings
and goings alternate (`Replica.alternates_of_steady`).
-/

namespace TableReplica

/-- The ends of a life of a row: the state in which it came, the last it took on, and whether it went. -/
structure Life where
  first : Row
  last : Row
  ended : Bool

/-- The lives of a row that goes through some states, with the life it leads before, if any. -/
def Life.follow : Option Life → List (Option Row) → List Life
  | none, [] => []
  | some life, [] => [life]
  | none, none :: rest => follow none rest
  | none, some row :: rest => follow (some ⟨row, row, false⟩) rest
  | some life, none :: rest => { life with ended := true } :: follow none rest
  | some life, some row :: rest => follow (some { life with last := row }) rest

/-- The lives that a row of a subscribed table leads in a run. -/
def Replica.livesOf (r : Replica) (batches : List ChangeBatch) (table : String) (id : RowId) : List Life :=
  if r.cache.knows table then Life.follow none (r.schema.statesOf batches table id) else []

/-- A table has a listener that takes what the row is decoded to. -/
def Notifier.hears (d : Notifier) (table : String) (id : RowId) (row : Row) : Bool :=
  match d.listeners.get? table, d.schema.decode table id row with
  | some listener, .ok record => listener.takes record
  | _, _ => false

/-- What is heard of the ends of a life. -/
def Notifier.heardOfLife (d : Notifier) (table : String) (id : RowId) (life : Life) : List Event :=
  (if d.hears table id life.first then [.created] else []) ++ if life.ended && d.hears table id life.last then [.deleted] else []

/-- The events of some calls, without those of changes. -/
def comingsAndGoings (calls : List RowCall) : List Event := (calls.map RowCall.event).filter (fun event => decide (event ≠ .updated))

/-- A life that is over ended as it began: with a row that decodes, or with one that does not. -/
def Life.Steady (s : Schema) (table : String) (id : RowId) (life : Life) : Prop :=
  life.ended = true → (s.decode table id life.first).toBool = (s.decode table id life.last).toBool

instance (s : Schema) (table : String) (id : RowId) (life : Life) : Decidable (life.Steady s table id) :=
  inferInstanceAs (Decidable (life.ended = true → (s.decode table id life.first).toBool = (s.decode table id life.last).toBool))

/-- Comings and goings take turns, beginning with a coming. -/
structure Alternates (events : List Event) : Prop where
  begins : events.head? ≠ some .deleted
  turns : events.IsChain (· ≠ ·)

instance (events : List Event) : Decidable (Alternates events) :=
  decidable_of_iff (events.head? ≠ some .deleted ∧ events.IsChain (· ≠ ·)) ⟨fun h => ⟨h.1, h.2⟩, fun h => ⟨h.begins, h.turns⟩⟩

/-! ## What is heard at the ends of a life -/

/-- Comings and goings of calls in a row are those of the first calls and then those of the others. -/
theorem comingsAndGoings_append (first second : List RowCall) :
    comingsAndGoings (first ++ second) = comingsAndGoings first ++ comingsAndGoings second := by
  rw [comingsAndGoings, List.map_append, List.filter_append]
  rfl

namespace Notifier

/-- A row that comes or goes is announced once if it is heard, and otherwise not at all. -/
theorem comingsAndGoings_notifyOne (d : Notifier) {event : Event} (hevent : event ≠ .updated) (cache : Cache) (table : String)
    (id : RowId) (row : Row) :
    comingsAndGoings ((d.notifyOne event cache table id row).2.map Notice.call) = if d.hears table id row then [event] else [] := by
  rw [notifyOne, hears]
  cases d.listeners.get? table with
  | none => rfl
  | some listener =>
    cases d.schema.decode table id row with
    | error _ => rfl
    | ok record =>
      simp only [calls_deliver, List.all_cons, List.all_nil, Bool.and_true]
      split
      · exact List.filter_cons_of_pos (decide_eq_true hevent)
      · rfl

/-- A row that changes neither comes nor goes. -/
theorem comingsAndGoings_notifyUpdated (d : Notifier) (cache : Cache) (table : String) (id : RowId) (old new : Row) :
    comingsAndGoings ((d.notifyUpdated cache table id old new).2.map Notice.call) = [] := by
  rw [notifyUpdated]
  cases (d.listeners.get? table).filter (·.hearsChanges) with
  | none => rfl
  | some listener =>
    cases d.schema.decode table id old with
    | error _ => rfl
    | ok before =>
      cases d.schema.decode table id new with
      | error _ => rfl
      | ok after =>
        simp only [calls_deliver]
        split <;> rfl

/-- What is heard of the ends of lives, when the first of them may have begun before. -/
theorem comingsAndGoings_tale_of_life (d : Notifier) (table : String) (id : RowId) (states : List (Option Row)) :
    comingsAndGoings (d.tale table id none states) = (Life.follow none states).flatMap (d.heardOfLife table id) ∧
      ∀ life : Life, life.ended = false →
        (if d.hears table id life.first then [.created] else []) ++ comingsAndGoings (d.tale table id (some life.last) states) =
          (Life.follow (some life) states).flatMap (d.heardOfLife table id) := by
  induction states with
  | nil =>
    refine ⟨rfl, ?_⟩
    intro life hended
    rw [Life.follow, List.flatMap_singleton, heardOfLife, hended]
    rfl
  | cons state rest ih =>
    obtain ⟨habsent, hpresent⟩ := ih
    cases state with
    | none =>
      refine ⟨habsent, ?_⟩
      intro life _
      rw [tale, comingsAndGoings_append, habsent, heard, notifyDeleted, d.comingsAndGoings_notifyOne (by decide), Life.follow,
        List.flatMap_cons, heardOfLife, Bool.true_and, List.append_assoc]
    | some row =>
      constructor
      · rw [tale, comingsAndGoings_append, heard, notifyCreated, d.comingsAndGoings_notifyOne (by decide), Life.follow]
        exact hpresent ⟨row, row, false⟩ rfl
      · intro life hended
        rw [tale, comingsAndGoings_append, heard, comingsAndGoings_notifyUpdated, List.nil_append, Life.follow]
        exact hpresent { life with last := row } hended

/-- The comings and goings told of a row are those that are heard of its lives. -/
theorem comingsAndGoings_tale (d : Notifier) (table : String) (id : RowId) (states : List (Option Row)) :
    comingsAndGoings (d.tale table id none states) = (Life.follow none states).flatMap (d.heardOfLife table id) :=
  (d.comingsAndGoings_tale_of_life table id states).1

end Notifier

/-! ## Rows that decode at both ends or at neither -/

/-- A decoded record has the type of its model. -/
theorem Model.type_of_decode {m : Model} {id : RowId} {row : Row} {record : Record} (h : m.decode id row = .ok record) :
    record.type = m.type := by
  have hfields : ∀ (fields : List Field) (r : Record), (fillFields id row fields r).1.type = r.type := by
    intro fields
    induction fields with
    | nil => exact fun _ => rfl
    | cons f rest ih =>
      intro r
      rw [fillFields]
      split
      · rfl
      · exact ih r
      · exact ih _
  have hfill := hfields m.fields m.blank
  rw [decode, fill] at h
  split at h
  · rename_i r hr
    rw [hr] at hfill
    cases h
    exact hfill
  · cases h

/-- The rows of a table decode to records of one type. -/
theorem Schema.type_of_decode {s : Schema} {table : String} {id : RowId} {row row' : Row} {record record' : Record}
    (h : s.decode table id row = .ok record) (h' : s.decode table id row' = .ok record') : record.type = record'.type := by
  rw [decode] at h h'
  cases hmodel : s.model table with
  | error e =>
    rw [hmodel] at h
    cases h
  | ok m =>
    rw [hmodel] at h h'
    rw [Model.type_of_decode (asError_eq_ok_iff.mp h), Model.type_of_decode (asError_eq_ok_iff.mp h')]

/-- It is of no account to whether a row is heard of what it decodes to, only whether it decodes. -/
theorem Notifier.hears_congr (d : Notifier) (table : String) (id : RowId) {row row' : Row}
    (h : (d.schema.decode table id row).toBool = (d.schema.decode table id row').toBool) :
    d.hears table id row = d.hears table id row' := by
  rw [hears, hears]
  cases d.listeners.get? table with
  | none => rfl
  | some listener =>
    cases hrow : d.schema.decode table id row with
    | error e =>
      cases hrow' : d.schema.decode table id row' with
      | error e' => rfl
      | ok record' =>
        rw [hrow, hrow'] at h
        cases h
    | ok record =>
      cases hrow' : d.schema.decode table id row' with
      | error e' =>
        rw [hrow, hrow'] at h
        cases h
      | ok record' =>
        simp only [Listener.takes, Schema.type_of_decode hrow hrow']

/-! ## Alternation -/

/-- A life that is heard to end is over, and its last row decodes. -/
theorem Notifier.of_deleted_mem_heardOfLife (d : Notifier) {table : String} {id : RowId} {life : Life}
    (h : .deleted ∈ d.heardOfLife table id life) : life.ended = true ∧ d.hears table id life.last = true := by
  rw [heardOfLife, List.mem_append] at h
  rcases h with hcreated | hgone
  · split at hcreated <;> simp at hcreated
  · split at hgone
    · rename_i hboth
      exact Bool.and_eq_true_iff.mp hboth
    · cases hgone

/-- Only the last of the lives of a row may go on. -/
theorem Life.pairwise_ended_follow (life : Option Life) (states : List (Option Row)) :
    (follow life states).Pairwise (fun earlier _ => earlier.ended = true) := by
  induction states generalizing life with
  | nil =>
    cases life with
    | none => exact .nil
    | some life => exact List.pairwise_singleton _ _
  | cons state rest ih =>
    cases life with
    | none =>
      cases state with
      | none => exact ih none
      | some row => exact ih (some ⟨row, row, false⟩)
    | some life =>
      cases state with
      | none => exact List.pairwise_cons.mpr ⟨fun _ _ => rfl, ih none⟩
      | some row => exact ih (some { life with last := row })

namespace Alternates

theorem nil : Alternates [] := ⟨by decide, .nil⟩

theorem coming : Alternates [.created] := ⟨by decide, .singleton _⟩

/-- A coming and a going may stand before what alternates. -/
theorem cons_pair {events : List Event} (h : Alternates events) : Alternates (.created :: .deleted :: events) where
  begins := by simp
  turns := by
    refine List.isChain_cons_cons.mpr ⟨by decide, List.isChain_cons.mpr ⟨?_, h.turns⟩⟩
    rintro event hhead rfl
    exact h.begins hhead

end Alternates

/-- Lives that are heard of at both ends or at neither make comings and goings alternate. Only the last may go on. -/
theorem Notifier.alternates_flatMap (d : Notifier) (table : String) (id : RowId) {lives : List Life}
    (hended : lives.Pairwise (fun earlier _ => earlier.ended = true))
    (hsteady : ∀ life ∈ lives, life.ended = true → d.hears table id life.first = d.hears table id life.last) :
    Alternates (lives.flatMap (d.heardOfLife table id)) := by
  induction lives with
  | nil => exact .nil
  | cons life rest ih =>
    obtain ⟨hlife, hrest⟩ := List.pairwise_cons.mp hended
    have hlater := ih hrest (fun later hlater => hsteady later (List.mem_cons_of_mem life hlater))
    rw [List.flatMap_cons, heardOfLife]
    cases hends : life.ended with
    | true =>
      rw [← hsteady life List.mem_cons_self hends]
      cases d.hears table id life.first with
      | true => exact hlater.cons_pair
      | false => exact hlater
    | false =>
      have hlast : rest = [] := by
        cases rest with
        | nil => rfl
        | cons next later =>
          rw [hlife next List.mem_cons_self] at hends
          cases hends
      subst hlast
      cases d.hears table id life.first with
      | true => exact .coming
      | false => exact .nil

/-! ## Runs -/

namespace Replica

open VirtualNetwork

/-- Over a whole run, the comings and goings of a row are those that are heard of its lives. -/
theorem comingsAndGoings_callsOf (notifier : Notifier) (tables : List String) (batches : List ChangeBatch) (table : String) (id : RowId) :
    comingsAndGoings ((awaiting notifier tables).callsOf batches table id) =
      ((awaiting notifier tables).livesOf batches table id).flatMap (notifier.heardOfLife table id) := by
  rw [livesOf]
  split
  · rename_i hk
    rw [callsOf_eq_tale hk, show (awaiting notifier tables).cache.row? table id = none from Cache.row?_awaiting tables table id]
    exact notifier.comingsAndGoings_tale table id _
  · rename_i hk
    rw [callsOf_eq_nil (Bool.eq_false_iff.mpr hk)]
    rfl

/-- Every life of a row but the last has ended. -/
theorem pairwise_ended_livesOf (r : Replica) (batches : List ChangeBatch) (table : String) (id : RowId) :
    (r.livesOf batches table id).Pairwise (fun earlier _ => earlier.ended = true) := by
  rw [livesOf]
  split
  · exact Life.pairwise_ended_follow none _
  · exact .nil

/-- The comings and goings of a row are those of its lives, one after the other, and each end of a life is heard on its own. They
alternate when each life that is over ended as it began, and then no life is heard to end that was not heard to begin. -/
theorem alternates_of_steady (notifier : Notifier) (tables : List String) (batches : List ChangeBatch) (table : String) (id : RowId) :
    comingsAndGoings ((awaiting notifier tables).callsOf batches table id) =
        ((awaiting notifier tables).livesOf batches table id).flatMap (notifier.heardOfLife table id) ∧
      ((∀ life ∈ (awaiting notifier tables).livesOf batches table id, life.Steady notifier.schema table id) →
        Alternates (comingsAndGoings ((awaiting notifier tables).callsOf batches table id)) ∧
        ∀ life ∈ (awaiting notifier tables).livesOf batches table id,
          .deleted ∈ notifier.heardOfLife table id life → .created ∈ notifier.heardOfLife table id life) := by
  refine ⟨comingsAndGoings_callsOf notifier tables batches table id, ?_⟩
  intro hsteady
  have hheard : ∀ life ∈ (awaiting notifier tables).livesOf batches table id, life.ended = true →
      notifier.hears table id life.first = notifier.hears table id life.last := by
    intro life hlife hended
    exact notifier.hears_congr table id (hsteady life hlife hended)
  constructor
  · rw [comingsAndGoings_callsOf]
    exact notifier.alternates_flatMap table id (pairwise_ended_livesOf _ batches table id) hheard
  · intro life hlife hdeleted
    obtain ⟨hended, hlast⟩ := notifier.of_deleted_mem_heardOfLife hdeleted
    rw [Notifier.heardOfLife, hheard life hlife hended, hlast]
    exact List.mem_cons_self

/-! ## Runs of one rule -/

/-- A replica with a listener that hears of access rules. -/
def ofRules : Replica where
  notifier := {
    schema := ⟨.singleton ruleModel.table ruleModel, by
      intro e he
      cases List.mem_singleton.mp he
      decide⟩
    listeners := .singleton ruleModel.table ⟨.recordsOf ruleModel.type, false⟩ }
  cache := .awaiting [ruleModel.table]

/-- A rule that lacks most of what a rule must have. -/
def brokenRule : Row := .ofList [("direction", .string "to-lport")]

/-- A rule that has all of it. -/
def soundRule : Row :=
  .ofList [("action", .string "drop"), ("direction", .string "to-lport"), ("match", .string "ip4"), ("priority", .integer 10)]

/-- Batches that put one rule in one state after the other. -/
def rulePuts (states : List (Option Row)) : List ChangeBatch :=
  states.map (fun state => ⟨.singleton ruleModel.table [⟨Draws.rowIds 0 0, none, state⟩]⟩)

/-- A rule that breaks and is mended before it goes, and comes again, is heard to come, to go and to come. -/
theorem alternates_of_mended :
    (∀ life ∈ ofRules.livesOf (rulePuts [some soundRule, some brokenRule, some soundRule, none, some soundRule]) ruleModel.table
        (Draws.rowIds 0 0), life.Steady ofRules.schema ruleModel.table (Draws.rowIds 0 0)) ∧
      Alternates (comingsAndGoings (ofRules.callsOf
        (rulePuts [some soundRule, some brokenRule, some soundRule, none, some soundRule]) ruleModel.table (Draws.rowIds 0 0))) ∧
      comingsAndGoings (ofRules.callsOf
        (rulePuts [some soundRule, some brokenRule, some soundRule, none, some soundRule]) ruleModel.table (Draws.rowIds 0 0)) =
          [.created, .deleted, .created] := by
  have hsteady : ∀ life ∈ ofRules.livesOf (rulePuts [some soundRule, some brokenRule, some soundRule, none, some soundRule])
      ruleModel.table (Draws.rowIds 0 0), life.Steady ofRules.schema ruleModel.table (Draws.rowIds 0 0) := by
    decide +kernel
  have halternates := ((alternates_of_steady ofRules.notifier [ruleModel.table] _ ruleModel.table (Draws.rowIds 0 0)).2 hsteady).1
  exact ⟨hsteady, halternates, by decide +kernel⟩

/-- A rule that comes broken, is mended and goes is heard to go and was not heard to come. A rule that comes sound, breaks, goes and
comes again is heard to come twice, and was not heard to go. -/
theorem not_alternates :
    ¬Alternates (comingsAndGoings (ofRules.callsOf (rulePuts [some brokenRule, some soundRule, none]) ruleModel.table
      (Draws.rowIds 0 0))) ∧
    ¬Alternates (comingsAndGoings (ofRules.callsOf (rulePuts [some soundRule, some brokenRule, none, some soundRule]) ruleModel.table
      (Draws.rowIds 0 0))) := by
  decide +kernel

end Replica

end TableReplica
