import TableReplica.Proofs.RecordTrip
import TableReplica.Proofs.TakenFeed
import TableReplica.Proofs.Lookups
import TableReplica.VirtualNetwork.Calls

/-!
# Clients of known models

A client is built for a list of models, and knows exactly these and their tables (`Replica.Serves`). The models of a virtual network are
regular, so a record that such a client inserts is read again as it settles (`Client.record_of_encode`).
-/

namespace TableReplica

/-! ## The schema of some models -/

namespace Schema

/-- A model is added for a table that has none. -/
theorem of_add {s s' : Schema} {m : Model} (h : s.add m = .ok s') :
    s.contains m.table = false ∧ s'.models = s.models.insert m.table m := by
  unfold add at h
  split at h
  · cases h
  · split at h
    · cases h
    · split at h
      · cases h
      · rename_i hnew
        cases h
        exact ⟨Bool.eq_false_iff.mpr hnew, rfl⟩

/-- Adding models takes none away. -/
theorem get?_models_of_foldlM {models : List Model} {s s' : Schema} (h : models.foldlM add s = .ok s') {table : String} {m : Model}
    (hm : s.models.get? table = some m) : s'.models.get? table = some m := by
  induction models generalizing s with
  | nil =>
    cases h
    exact hm
  | cons m' rest ih =>
    obtain ⟨s'', hadd, hrest⟩ := bind_eq_ok_iff.mp h
    obtain ⟨hnew, hmodels⟩ := of_add hadd
    refine ih hrest ?_
    rw [hmodels, SortedMap.get?_insert_of_ne s.models m' ?_, hm]
    rintro rfl
    rw [contains, SortedMap.contains, hm] at hnew
    cases hnew

/-- Models that were added one after the other are all known. -/
theorem get?_models_of_mem_foldlM {models : List Model} {s s' : Schema} (h : models.foldlM add s = .ok s') {m : Model}
    (hm : m ∈ models) : s'.models.get? m.table = some m := by
  induction models generalizing s with
  | nil => cases hm
  | cons m' rest ih =>
    obtain ⟨s'', hadd, hrest⟩ := bind_eq_ok_iff.mp h
    rcases List.mem_cons.mp hm with rfl | hm
    · refine get?_models_of_foldlM hrest ?_
      rw [(of_add hadd).2, SortedMap.get?_insert_self]
    · exact ih hrest hm

end Schema

/-- The replica knows the models of the list and no others, and subscribes to their tables and no others. -/
structure Replica.Serves (r : Replica) (models : List Model) : Prop where
  schema : Schema.ofModels models = .ok r.schema
  subscribed : ∀ table, r.cache.knows table = r.schema.contains table

namespace Replica.Serves

variable {r : Replica} {models : List Model}

theorem get?_models (h : r.Serves models) {m : Model} (hm : m ∈ models) : r.schema.models.get? m.table = some m :=
  Schema.get?_models_of_mem_foldlM h.schema hm

/-- The table of a model that is served is known. -/
theorem knows (h : r.Serves models) {m : Model} (hm : m ∈ models) : r.cache.knows m.table = true := by
  rw [h.subscribed, Schema.contains, SortedMap.contains, h.get?_models hm]
  rfl

theorem kinds (h : r.Serves models) {m : Model} (hm : m ∈ models) : r.schema.kinds m.table = m.columns := by
  rw [Schema.kinds, Schema.columns?, h.get?_models hm]
  rfl

/-- A record of a known model is written by that model. -/
theorem encode (h : r.Serves models) {m : Model} (hm : m ∈ models) {record : Record} (htable : record.table = m.table)
    (htype : record.type = m.type) {row : Row} (hrow : r.schema.encode record = .ok row) : m.encode record = .ok row := by
  unfold Schema.encode Schema.model at hrow
  rw [htable, h.get?_models hm] at hrow
  simp only [Model.describes, htype, decide_true, if_true] at hrow
  cases hencode : m.encode record with
  | error v =>
    rw [hencode] at hrow
    cases hrow
  | ok row' =>
    rw [hencode] at hrow
    cases hrow
    rfl

/-- A record of a known model is written in the form of its kinds. -/
theorem normalize_of_encode (h : r.Serves models) {m : Model} (hm : m ∈ models) (hregular : m.Regular) {record : Record} {row : Row}
    (hrow : m.encode record = .ok row) : (r.schema.normalize m.table row).1 = row := by
  apply SortedMap.ext_get?
  intro column
  rw [Schema.get?_normalize, h.kinds hm]
  exact hregular.normalizeColumn_of_encode hrow column

end Replica.Serves

/-- What is in the cache is read by the model of its table. -/
theorem Client.record_eq_ok {c : Client} {models : List Model} (h : c.replica.Serves models) {m : Model} (hm : m ∈ models) {id : RowId}
    {row : Row} (hrow : c.replica.cache.row? m.table id = some row) {record : Record} (hdecode : m.decode id row = .ok record)
    (htype : record.type = m.type) : c.record m id = .ok record := by
  have hmodel : c.schema.models.get? m.table = some m := h.get?_models hm
  have hcached : c.cache.row m.table id = .ok row := Cache.row_eq_ok_iff.mpr hrow
  rw [Client.record, hcached]
  simp only [bind, Except.bind, Schema.decodeAs, Schema.decode, Schema.model, hmodel, hdecode, asError, Model.describes, htype,
    decide_true, if_true]

/-- Listeners are registered with a notifier that keeps its schema. -/
theorem Notifier.schema_of_register {d d' : Notifier} {table : String} {listener : Listener}
    (h : d.register table listener = .ok d') : d'.schema = d.schema := by
  unfold register at h
  split at h
  · cases h
  · split at h <;> cases h
    rfl

/-- Registering listeners changes no model. -/
theorem Notifier.schema_of_foldlM {listeners : List (String × Listener)} {d d' : Notifier}
    (h : listeners.foldlM (fun d l => d.register l.1 l.2) d = .ok d') : d'.schema = d.schema := by
  induction listeners generalizing d with
  | nil =>
    cases h
    rfl
  | cons l rest ih =>
    obtain ⟨d'', hregister, hrest⟩ := bind_eq_ok_iff.mp h
    exact (ih hrest).trans (schema_of_register hregister)

namespace Client

variable {config : Config} {models : List Model} {listeners : List (String × Listener)} {c : Client}

/-- A client that has just been built has heard of nothing. -/
theorem replica_of_build (h : build config models listeners = .ok c) :
    ∃ schema, Schema.ofModels models = .ok schema ∧ c.replica.notifier.schema = schema ∧
      c.replica.cache = .awaiting schema.tables := by
  unfold build at h
  obtain ⟨_, -, h⟩ := bind_eq_ok_iff.mp h
  obtain ⟨schema, hschema, h⟩ := bind_eq_ok_iff.mp h
  obtain ⟨notifier, hnotifier, h⟩ := bind_eq_ok_iff.mp h
  cases h
  exact ⟨schema, hschema, Notifier.schema_of_foldlM hnotifier, rfl⟩

/-- A client serves the models that it was built with. -/
theorem serves_of_build (h : build config models listeners = .ok c) : c.replica.Serves models := by
  obtain ⟨schema, hschema, hnotifier, hcache⟩ := replica_of_build h
  have hsame : c.replica.schema = schema := hnotifier
  refine ⟨hsame ▸ hschema, ?_⟩
  intro table
  rw [hcache, Cache.knows_awaiting, hsame, Schema.contains, Bool.eq_iff_iff, decide_eq_true_eq, Schema.tables,
    SortedMap.mem_keys_iff, SortedMap.contains_iff]

/-- A client that has just been built mirrors tables without rows. -/
theorem mirrors_of_build (h : build config models listeners = .ok c) : c.replica.Mirrors ∅ := by
  obtain ⟨schema, -, -, hcache⟩ := replica_of_build h
  intro table id _
  rw [hcache, Cache.row?_awaiting]
  rfl

end Client

namespace Session

variable {s s' : Session Server} {now : Tables} {models : List Model}

/-- A call that is refused leaves the client serving its models. -/
theorem Refused.serves (h : Refused s s') (hs : s.client.replica.Serves models) : s'.client.replica.Serves models := by
  rw [h.client]
  exact hs

/-- A call that is committed and taken in leaves the client serving its models. -/
theorem Committed.serves_takeFeed (h : Committed s s' now) (hfeed : s.state.feed = .waiting [])
    (hs : s.client.replica.Serves models) : s'.takeFeed.client.replica.Serves models := by
  have hschema := h.schema_takeFeed hfeed
  refine ⟨hschema ▸ hs.schema, ?_⟩
  intro table
  rw [h.knows_takeFeed hfeed, hs.subscribed, hschema]

/-- A row that has been inserted for a record is in the cache as it was written. -/
theorem Committed.row?_takeFeed_of_encode (h : Committed s s' now) (hfeed : s.state.feed = .waiting [])
    (hs : s.client.replica.Serves models) {m : Model} (hm : m ∈ models) (hregular : m.Regular) {record : Record} {row : Row}
    (hrow : m.encode record = .ok row) (hne : row.isEmpty = false) {id : RowId} (hbefore : s.state.tables.row? m.table id = none)
    (hafter : now.row? m.table id = some row) : s'.takeFeed.client.replica.cache.row? m.table id = some row := by
  rw [h.row?_takeFeed hfeed (hs.knows hm), hbefore, hafter]
  simp only [RowChange.told, Option.isSome_some, if_true, Option.bind_some, Schema.kept, hs.normalize_of_encode hm hregular hrow,
    Row.nonempty?, hne]
  rfl

end Session

/-- A record that is in the cache as it was written is read again as it settles. -/
theorem Client.record_of_encode {c : Client} {models : List Model} (h : c.replica.Serves models) {m : Model} (hm : m ∈ models)
    (hregular : m.Regular) {record : Record} {row : Row} (hrow : m.encode record = .ok row) {id : RowId}
    (hcached : c.replica.cache.row? m.table id = some row) :
    ∃ r, c.record m id = .ok r ∧ r.type = m.type ∧ r.table = m.table ∧
      (∀ f ∈ m.fields, r.get? f.name = some (f.settled id record)) ∧
      ∀ name, (∀ f ∈ m.fields, f.name ≠ name) → r.get? name = none := by
  obtain ⟨r, hdecode, htype, htable, hfields, hothers⟩ := hregular.decode_of_encode hrow id
  exact ⟨r, record_eq_ok h hm hcached hdecode htype, htype, htable, hfields, hothers⟩

end TableReplica
