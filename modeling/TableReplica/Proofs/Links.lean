import TableReplica.Proofs.Zeros
import TableReplica.Proofs.KeptRows
import TableReplica.Proofs.Fallible
import TableReplica.Server.Execution
import TableReplica.Intent.Parent

/-!
# Columns of links

A column holds links when it is absent, an identifier, or a set of identifiers (`Row.HoldsLinks`). Such a column stands for the list
`Row.links`. Putting a row among the links and taking one from them leaves a set, and so does bringing the column into the form of
its kind.
-/

namespace TableReplica

namespace Value

/-- Lists of definite values agree only if they are identical. -/
theorem membersAgree_iff_of_definite {items items' : List Value} (h : ∀ item ∈ items, item.Definite) :
    membersAgree items items' = true ↔ items = items' := by
  induction items generalizing items' with
  | nil => cases items' <;> simp [membersAgree]
  | cons item rest ih =>
    obtain ⟨hitem, hrest⟩ := List.forall_mem_cons.mp h
    cases items' with
    | nil => simp [membersAgree]
    | cons item' rest' => rw [membersAgree, Bool.and_eq_true, hitem, ih hrest, List.cons.injEq]

/-- A set of definite items is definite. -/
theorem definite_set {items : List Value} (h : ∀ item ∈ items, item.Definite) : Definite (.set items) := by
  intro w
  cases w with
  | set items' => rw [agrees, membersAgree_iff_of_definite h, set.injEq]
  | _ => simp [agrees]

/-- A definite value has no zeros whose signs could be turned. -/
theorem Definite.eq_of_positiveZeros_eq {v w : Value} (hv : v.Definite) (h : w.positiveZeros = v.positiveZeros) : w = v := by
  have hself : v.agrees v = true := (hv v).mpr rfl
  have hagree : v.agrees w = true := by rw [← agrees_positiveZeros, h, agrees_positiveZeros, hself]
  exact ((hv w).mp hagree).symm

theorem definite_of_mem_map_uuid {ids : List RowId} : ∀ item ∈ ids.map Value.uuid, item.Definite := by
  intro item hitem
  obtain ⟨id, -, rfl⟩ := List.mem_map.mp hitem
  exact definite_uuid id

/-- The set of some identifiers has these as its members. -/
theorem mem_items_ofRowIds (ids : List RowId) (v : Value) : v ∈ canonicalItems (ids.map .uuid) ↔ ∃ id ∈ ids, .uuid id = v := by
  rw [mem_canonicalItems definite_of_mem_map_uuid, List.mem_map]

/-- A set of identifiers agrees with itself and nothing else. -/
theorem definite_ofRowIds (ids : List RowId) : Definite (.ofRowIds ids) := by
  apply definite_set
  intro item hitem
  obtain ⟨id, -, rfl⟩ := (mem_items_ofRowIds ids item).mp hitem
  exact definite_uuid id

/-- An identifier is among a single one only if it is that one. -/
theorem isAmong_uuid (link id : RowId) : (Value.uuid link).isAmong [.uuid id] = decide (link = id) := by
  rw [isAmong, List.any_cons, List.any_nil, Bool.or_false, agrees]
  exact decide_eq_decide.mpr eq_comm

/-- The identifiers in the set of some identifiers. -/
def rowIds (v : Value) : List RowId := v.members.filterMap rowId?

/-- The identifiers that a set was made of are read back from it. -/
theorem mem_rowIds_ofRowIds (ids : List RowId) (id : RowId) : id ∈ (ofRowIds ids).rowIds ↔ id ∈ ids := by
  rw [rowIds, List.mem_filterMap]
  constructor
  · rintro ⟨v, hv, hid⟩
    obtain ⟨id', hid', rfl⟩ := (mem_items_ofRowIds ids v).mp hv
    cases hid
    exact hid'
  · intro hid
    exact ⟨.uuid id, (mem_items_ofRowIds ids _).mpr ⟨id, hid, rfl⟩, rfl⟩

/-- The set of identifiers depends on which they are, not on their order. -/
theorem ofRowIds_congr {ids ids' : List RowId} (h : ∀ id, id ∈ ids ↔ id ∈ ids') : ofRowIds ids = ofRowIds ids' := by
  rw [ofRowIds, ofRowIds, ofList, ofList]
  congr 1
  apply canonicalItems_eq_of_mem_iff definite_of_mem_map_uuid
  intro v
  simp only [List.mem_map, h]

end Value

/-! ## Links -/

namespace Row

/-- The column is absent, an identifier, or a set of identifiers. -/
def HoldsLinks (row : Row) (column : String) : Prop :=
  match row.get? column with
  | none => True
  | some (.uuid _) => True
  | some (.set items) => ∀ item ∈ items, ∃ id, item = .uuid id
  | some _ => False

/-- Members that are all identifiers are those that are read as identifiers. -/
theorem map_uuid_filterMap_rowId? {items : List Value} (h : ∀ item ∈ items, ∃ id, item = .uuid id) :
    (items.filterMap Value.rowId?).map .uuid = items := by
  induction items with
  | nil => rfl
  | cons item rest ih =>
    obtain ⟨⟨id, rfl⟩, hrest⟩ := List.forall_mem_cons.mp h
    simp only [List.filterMap_cons, Value.rowId?, List.map_cons, ih hrest]

/-- The stored members of such a column are its links. -/
theorem HoldsLinks.stored {row : Row} {column : String} (h : row.HoldsLinks column) :
    Value.stored (row.get? column) = (row.links column).map .uuid := by
  unfold HoldsLinks at h
  unfold links
  cases hc : row.get? column with
  | none => rfl
  | some v =>
    rw [hc] at h
    cases v with
    | uuid id => rfl
    | set items =>
      simp only [Value.stored, Option.map_some, Option.getD_some, Value.members, Option.toList_some, List.flatMap_cons,
        List.flatMap_nil, List.append_nil]
      exact (map_uuid_filterMap_rowId? h).symm
    | _ => exact h.elim

/-- In a column of links, what a mutation works on is the links. -/
theorem HoldsLinks.mutable {row : Row} {column : String} (h : row.HoldsLinks column) :
    Value.mutable (row.get? column) = (row.links column).map .uuid := by
  rw [← h.stored]
  unfold HoldsLinks at h
  cases hc : row.get? column with
  | none => rfl
  | some v =>
    rw [hc] at h
    cases v with
    | map entries => exact h.elim
    | _ => rfl

/-- A column with a set of identifiers is a column of links. -/
theorem holdsLinks_of_eq_ofRowIds {row : Row} {column : String} {ids : List RowId} (h : row.get? column = some (.ofRowIds ids)) :
    row.HoldsLinks column := by
  unfold HoldsLinks
  rw [h]
  intro item hitem
  obtain ⟨id, -, rfl⟩ := (Value.mem_items_ofRowIds ids item).mp hitem
  exact ⟨id, rfl⟩

/-- The links of a column are the identifiers that its set was made of. -/
theorem mem_links_of_eq_ofRowIds {row : Row} {column : String} {ids : List RowId} (h : row.get? column = some (.ofRowIds ids))
    (id : RowId) : id ∈ row.links column ↔ id ∈ ids := by
  rw [links, h, Option.toList_some, List.flatMap_singleton]
  exact Value.mem_rowIds_ofRowIds ids id

/-! ## Mutations of links -/

/-- A mutation changes no other column. -/
theorem get?_mutate_of_ne (row : Row) {column column' : String} (h : column ≠ column') (mutator : Mutator) (value : Value) :
    (row.mutate column mutator value).get? column' = row.get? column' :=
  SortedMap.get?_insert_of_ne row _ h

/-- Inserting an identifier into a column of links adds it to the links. -/
theorem HoldsLinks.get?_mutate_insert {row : Row} {column : String} (h : row.HoldsLinks column) (id : RowId) :
    (row.mutate column .insert (.uuid id)).get? column = some (.ofRowIds (row.links column ++ [id])) := by
  rw [mutate, SortedMap.get?_insert_self, h.mutable, Mutator.change, Value.ofRowIds, List.map_append]
  rfl

/-- Deleting an identifier from a column of links takes it out of the links. -/
theorem HoldsLinks.get?_mutate_delete {row : Row} {column : String} (h : row.HoldsLinks column) (id : RowId) :
    (row.mutate column .delete (.uuid id)).get? column =
      some (.ofRowIds ((row.links column).filter (fun link => decide (link ≠ id)))) := by
  have hpick : (fun v => !Value.isAmong v (Value.uuid id).members) ∘ Value.uuid = fun link => decide (link ≠ id) := by
    funext link
    show (!Value.isAmong (.uuid link) [.uuid id]) = _
    rw [Value.isAmong_uuid, decide_not]
  rw [mutate, SortedMap.get?_insert_self, h.mutable, Mutator.change, Value.ofRowIds, List.filter_map, hpick]

/-! ## The form of their kind -/

/-- In the form of its kind, a column of links is the set of them. -/
theorem HoldsLinks.bind_normalizeColumn {row : Row} {column : String} (h : row.HoldsLinks column) {kinds : Kinds}
    (hkind : kinds.get? column = some (.set .uuid)) :
    (row.get? column).bind (Schema.normalizeColumn kinds column) =
      (row.get? column).map (fun _ => .ofRowIds (row.links column)) := by
  have hstored := h.stored
  cases hc : row.get? column with
  | none => rfl
  | some v =>
    rw [hc] at hstored
    have hmembers : v.members = (row.links column).map .uuid := hstored
    have hmap : v.members.mapM (Value.normalizeBase .uuid) = .ok ((row.links column).map .uuid) := by
      rw [mapM_eq_ok_iff, hmembers, List.map_map, List.map_map]
      rfl
    simp only [Option.bind_some, Option.map_some, Schema.normalizeColumn, hkind, Value.normalize, hmap, Except.map,
      Value.ofRowIds]

end Row

end TableReplica
