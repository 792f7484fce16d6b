import TableReplica.Proofs.LastWord
import TableReplica.Proofs.NamedParents
import TableReplica.Proofs.RecordTrip
import TableReplica.Proofs.StoredForms
import TableReplica.Proofs.WireTrip

/-!
# References as they were told

A search for the rows that hold a reference goes through the rows of the cache. What it finds is settled by what the replica was told:
the rows whose last change gave the column a value that designates the target (`Replica.finds_what_was_told`). A reference may have been
written as an identifier or as text in any letter case, alone or in a set (`Value.designates_iff`), and a set that does not fit the
column still designates the identifiers in it, since it is stored as it came.
-/

namespace TableReplica

/-- The kind of a column of references: of at most one, or of several. -/
def Kind.IsReference (kind : Kind) : Prop := kind = .optional .uuid ∨ kind = .set .uuid

/-! ## Spellings of identifiers -/

/-- A character whose lower case is plain is plain itself. -/
theorem Char.toNat_le_of_toLower {c : Char} (h : c.toLower.toNat ≤ 127) : c.toNat ≤ 127 := by
  rw [Char.toNat_toLower] at h
  split at h <;> omega

/-- An identifier is read from its text in any letter case, and from no other text. -/
theorem RowId.parse_eq_ok_iff {s : String} {id : RowId} : parse s = .ok id ↔ lowerCase s = id.text := by
  constructor
  · intro h
    exact (text_of_parse h).symm
  · intro h
    have hlower : s.toList.map Char.toLower = id.text.toList := by rw [← h, lowerCase, String.toList_ofList]
    have hsize : s.utf8ByteSize = 36 := by
      have hascii : ∀ c ∈ s.toList, c.utf8Size = 1 := by
        intro c hc
        have hmem : c.toLower ∈ id.text.toList := hlower ▸ List.mem_map_of_mem hc
        have hnat := id.toNat_of_mem hmem
        exact Char.utf8Size_eq_one_iff.mpr (Char.toNat_le_of_toLower (by omega))
      have hbytes := Text.utf8ByteSize_ofList hascii
      rw [String.ofList_toList] at hbytes
      rw [hbytes, ← List.length_map Char.toLower, hlower]
      have hcanonical := id.canonical
      rw [isCanonical, Bool.and_eq_true, decide_eq_true_eq] at hcanonical
      exact hcanonical.1
    simp only [parse, hlower, hsize, ne_eq, not_true_eq_false, if_false, id.canonical, dif_pos, String.ofList_toList]

namespace Value

/-- The value is the identifier, or text that is the identifier in some letter case. -/
def Spells (id : RowId) : Value → Prop
  | .uuid u => u = id
  | .string s => lowerCase s = id.text
  | _ => False

/-- The value is a reference to the target, or a set with one. -/
def PointsTo (v : Value) (target : RowId) : Prop := v = .uuid target ∨ ∃ items, v = .set items ∧ .uuid target ∈ items

/-- A value that is told for a column of references designates the target: in the form of the kind it points to the target, or it has
no such form and is a set in which the target stands as an identifier. -/
def Designates (kind : Kind) (v : Value) (target : RowId) : Prop :=
  (∃ w, v.normalize kind = .ok (some w) ∧ w.PointsTo target) ∨
    ∃ violation items, v.normalize kind = .error violation ∧ v = .set items ∧ .uuid target ∈ items

/-- Each member of the value is an identifier in some spelling, and there is at most one where the kind allows no more. -/
def IsReferences (kind : Kind) (v : Value) : Prop :=
  (∀ item ∈ v.members, ∃ id, item.Spells id) ∧ (kind = .optional .uuid → v.members.length ≤ 1)

/-- What has a form as an identifier is what spells one, and the form is that identifier. -/
theorem normalizeBase_uuid_eq_ok_iff {v w : Value} : normalizeBase .uuid v = .ok w ↔ ∃ id, w = .uuid id ∧ v.Spells id := by
  cases v with
  | string s =>
    simp only [normalizeBase, Spells, map_eq_ok_iff, RowId.parse_eq_ok_iff]
    exact exists_congr fun id => and_comm.trans (and_congr_left' eq_comm)
  | uuid u => simp [normalizeBase, Spells, eq_comm]
  | _ => simp [normalizeBase, Spells]

/-- A value spells one identifier at most. -/
theorem Spells.unique {v : Value} {id id' : RowId} (h : v.Spells id) (h' : v.Spells id') : id = id' := by
  have hbase := normalizeBase_uuid_eq_ok_iff.mpr ⟨id, rfl, h⟩
  rw [normalizeBase_uuid_eq_ok_iff.mpr ⟨id', rfl, h'⟩] at hbase
  cases hbase
  rfl

/-! ## What a value designates -/

section Designates

variable {kind : Kind} {v : Value} {target : RowId}

/-- A value of one member is brought into form as that member is. -/
theorem normalize_optional_of_members {base : BaseKind} {item : Value} (h : v.members = [item]) :
    v.normalize (.optional base) = (normalizeBase base item).map some := by
  cases v with
  | set items =>
    obtain rfl : items = [item] := h
    rfl
  | _ =>
    cases h
    rfl

/-- What a value designates when it has a form: exactly what its members spell. -/
theorem isReferences_of_normalize (hkind : kind.IsReference) {normal : Option Value} (h : v.normalize kind = .ok normal) :
    v.IsReferences kind ∧ ∀ target, (∃ w, normal = some w ∧ w.PointsTo target) ↔ ∃ item ∈ v.members, item.Spells target := by
  rcases hkind with rfl | rfl
  · rcases hmembers : v.members with _ | ⟨item, _ | ⟨item', rest⟩⟩
    · cases v <;> cases hmembers
      cases h
      simp [IsReferences, members]
    · rw [normalize_optional_of_members hmembers] at h
      obtain ⟨w, hw, rfl⟩ := map_eq_ok_iff.mp h
      obtain ⟨id, rfl, hid⟩ := normalizeBase_uuid_eq_ok_iff.mp hw
      refine ⟨by simpa [IsReferences, hmembers] using ⟨id, hid⟩, fun target => ?_⟩
      simp only [Option.some.injEq, exists_eq_left', PointsTo, uuid.injEq, reduceCtorEq, false_and, exists_const, or_false,
        List.mem_singleton, exists_eq_left]
      exact ⟨fun heq => heq ▸ hid, fun htarget => hid.unique htarget⟩
    · cases v <;> cases hmembers
      cases h
  · obtain ⟨items, hitems, rfl⟩ := map_eq_ok_iff.mp h
    have hspelled : ∀ w ∈ items, ∃ id, w = .uuid id := by
      intro w hw
      obtain ⟨item, -, hitem⟩ := (mem_of_mapM_eq_ok hitems w).mp hw
      obtain ⟨id, rfl, -⟩ := normalizeBase_uuid_eq_ok_iff.mp hitem
      exact ⟨id, rfl⟩
    have hdefinite : ∀ w ∈ items, w.Definite := by
      intro w hw
      obtain ⟨id, rfl⟩ := hspelled w hw
      exact definite_uuid id
    constructor
    · refine ⟨fun item hitem => ?_, by simp⟩
      have hmem := List.mem_map_of_mem (f := normalizeBase .uuid) hitem
      rw [mapM_eq_ok_iff.mp hitems] at hmem
      obtain ⟨w, -, hw⟩ := List.mem_map.mp hmem
      obtain ⟨id, -, hid⟩ := normalizeBase_uuid_eq_ok_iff.mp hw.symm
      exact ⟨id, hid⟩
    · intro target
      have hmember : .uuid target ∈ items ↔ ∃ item ∈ v.members, item.Spells target := by
        rw [mem_of_mapM_eq_ok hitems]
        simp [normalizeBase_uuid_eq_ok_iff]
      simp [PointsTo, ofList, mem_canonicalItems hdefinite, hmember]

/-- A value whose members are identifiers has a form. -/
theorem exists_normalize (hkind : kind.IsReference) (h : v.IsReferences kind) : ∃ normal, v.normalize kind = .ok normal := by
  obtain ⟨hspelled, hlength⟩ := h
  have hread : ∀ item ∈ v.members, ∃ w, normalizeBase .uuid item = .ok w := by
    intro item hitem
    obtain ⟨id, hid⟩ := hspelled item hitem
    exact ⟨.uuid id, normalizeBase_uuid_eq_ok_iff.mpr ⟨id, rfl, hid⟩⟩
  rcases hkind with rfl | rfl
  · have hlength := hlength rfl
    rcases hmembers : v.members with _ | ⟨item, _ | ⟨item', rest⟩⟩
    · cases v <;> cases hmembers
      exact ⟨none, rfl⟩
    · obtain ⟨w, hw⟩ := hread item (by simp [hmembers])
      exact ⟨some w, by rw [normalize_optional_of_members hmembers, hw]; rfl⟩
    · simp [hmembers] at hlength
  · obtain ⟨items, hitems⟩ := exists_mapM_eq_ok hread
    exact ⟨some (ofList items), by rw [normalize, hitems]; rfl⟩

/-- However it is written, a value that is told for a column of references designates what its members spell, or, if they are not all
identifiers or too many, the identifiers that stand in it. -/
theorem designates_iff (hkind : kind.IsReference) :
    v.Designates kind target ↔
      (v.IsReferences kind ∧ ∃ item ∈ v.members, item.Spells target) ∨
        (¬v.IsReferences kind ∧ ∃ items, v = .set items ∧ .uuid target ∈ items) := by
  unfold Designates
  cases hv : v.normalize kind with
  | ok normal =>
    obtain ⟨hrefs, hspells⟩ := isReferences_of_normalize hkind hv
    simp [hrefs, ← hspells]
  | error violation =>
    have hrefs : ¬v.IsReferences kind := by
      intro h
      obtain ⟨normal, hnormal⟩ := exists_normalize hkind h
      rw [hv] at hnormal
      cases hnormal
    simp [hrefs]

/-- A column points to what was told for it, whether its value was brought into form or kept. -/
theorem designates_iff_of_normalizeColumn {kinds : Kinds} {column : String} (hcolumn : kinds.get? column = some kind)
    (hkind : kind.IsReference) :
    (∃ w, Schema.normalizeColumn kinds column v = some w ∧ w.PointsTo target) ↔ v.Designates kind target := by
  unfold Schema.normalizeColumn Designates
  simp only [hcolumn]
  cases hv : v.normalize kind with
  | ok normal => simp
  | error violation =>
    have hne : v ≠ .uuid target := by
      rintro rfl
      obtain ⟨normal, hnormal⟩ := exists_normalize (v := .uuid target) hkind (by simp [IsReferences, members, Spells])
      rw [hv] at hnormal
      cases hnormal
    simp [PointsTo, hne]

end Designates

end Value

/-! ## Columns and searches -/

/-- A row points to another when the column is there and its value does. -/
theorem Row.pointsTo_iff {row : Row} {column : String} {target : RowId} :
    row.PointsTo column target ↔ ∃ v, row.get? column = some v ∧ v.PointsTo target := by
  cases h : row.get? column <;> simp [PointsTo, Value.PointsTo, h]

/-- The holders of a row are found in the order of their identifiers. -/
theorem Cache.ascending_of_idsHolding {c : Cache} {table column : String} {target : RowId} {ids : List RowId}
    (h : c.idsHolding table column target = .ok ids) : ids.Pairwise (· < ·) := by
  obtain ⟨rows, -, rfl⟩ := map_eq_ok_iff.mp h
  exact List.pairwise_map.mpr (SortedMap.ordered _)

/-! ## Runs of inputs -/

/-- The last of two lists of changes decides, unless the row is not among them. -/
theorem RowChange.lastOf_append (id : RowId) (earlier later : List RowChange) :
    lastOf id (earlier ++ later) = (lastOf id later).or (lastOf id earlier) := by
  rw [lastOf, lastOf, lastOf, List.filter_append, List.getLast?_append]

namespace Replica

/-- The changes of a table that an input tells of; a notification that is refused tells of none. -/
def Input.changes (table : String) : Input → List RowChange
  | .subscription _ => []
  | .batch b => b.changes table
  | .notification j =>
    match Wire.readNotification j with
    | .ok decoded => decoded.batch.changes table
    | .error _ => []

/-- The last change of the row gave the column this value. -/
def LastTold (inputs : List Input) (table column : String) (id : RowId) (v : Value) : Prop :=
  ∃ change row, RowChange.lastOf id (inputs.flatMap (Input.changes table)) = some change ∧ change.after = some row ∧
    row.get? column = some v

/-- The last change of the row gave the column a value that designates the target. -/
def ToldToHold (inputs : List Input) (table column : String) (kind : Kind) (target id : RowId) : Prop :=
  ∃ v, LastTold inputs table column id v ∧ v.Designates kind target

variable {r : Replica} {table column : String} {id target : RowId} {kind : Kind}

theorem schema_take (r : Replica) (input : Input) : (r.take input).schema = r.schema := by
  cases input with
  | subscription _ => rfl
  | batch batch => exact congrArg Notifier.schema (r.notifier_takeIn batch)
  | notification notification =>
    simp only [take, takeInNotification]
    cases Wire.readNotification notification with
    | error _ => rfl
    | ok decoded => exact congrArg Notifier.schema (r.notifier_takeIn decoded.batch)

/-- No input makes a known table unknown. -/
theorem knows_take (hk : r.cache.knows table = true) (input : Input) : (r.take input).cache.knows table = true := by
  cases input with
  | subscription table' => simp [take, subscribe, Cache.knows_subscribe, hk]
  | batch batch => exact (r.knows_takeIn batch table).trans hk
  | notification notification =>
    simp only [take, takeInNotification]
    cases Wire.readNotification notification with
    | error _ => exact hk
    | ok decoded => exact (r.knows_takeIn decoded.batch table).trans hk

/-- After an input the last change of a row in it decides what stands in its place. -/
theorem row?_take (hk : r.cache.knows table = true) (input : Input) (id : RowId) :
    (r.take input).cache.row? table id =
      match RowChange.lastOf id (input.changes table) with
      | some change => r.schema.next? table change
      | none => r.cache.row? table id := by
  cases input with
  | subscription table' => exact Cache.row?_subscribe r.cache table' table id
  | batch batch => exact r.row?_takeIn batch hk id
  | notification notification =>
    simp only [take, takeInNotification, Input.changes]
    cases Wire.readNotification notification with
    | error _ => rfl
    | ok decoded => exact r.row?_takeIn decoded.batch hk id

/-- After a run the last change of a row in it decides what stands in its place. -/
theorem row?_takeAll (hk : r.cache.knows table = true) (inputs : List Input) (id : RowId) :
    (r.takeAll inputs).cache.knows table = true ∧
      (r.takeAll inputs).cache.row? table id =
        match RowChange.lastOf id (inputs.flatMap (Input.changes table)) with
        | some change => r.schema.next? table change
        | none => r.cache.row? table id := by
  induction inputs generalizing r with
  | nil => exact ⟨hk, rfl⟩
  | cons input rest ih =>
    obtain ⟨hknows, hrow⟩ := ih (knows_take hk input)
    refine ⟨hknows, hrow.trans ?_⟩
    rw [List.flatMap_cons, RowChange.lastOf_append, schema_take]
    cases RowChange.lastOf id (rest.flatMap (Input.changes table)) with
    | none => exact row?_take hk input id
    | some change => rfl

/-- What is kept of a change points to the target when the value it gives the column does. -/
theorem pointsTo_of_next? (hcolumn : (r.schema.kinds table).get? column = some kind) (hkind : kind.IsReference) (change : RowChange) :
    (∃ row, r.schema.next? table change = some row ∧ row.PointsTo column target) ↔
      ∃ row v, change.after = some row ∧ row.get? column = some v ∧ v.Designates kind target := by
  simp only [Schema.next?, Option.bind_eq_some_iff]
  constructor
  · rintro ⟨stored, ⟨row, hafter, hkept⟩, hpoints⟩
    obtain ⟨w, hw, hpoints⟩ := Row.pointsTo_iff.mp hpoints
    rw [Schema.eq_normalize_of_kept hkept, Schema.get?_normalize] at hw
    obtain ⟨v, hv, hw⟩ := Option.bind_eq_some_iff.mp hw
    exact ⟨row, v, hafter, hv, (Value.designates_iff_of_normalizeColumn hcolumn hkind).mp ⟨w, hw, hpoints⟩⟩
  · rintro ⟨row, v, hafter, hv, hdesignates⟩
    obtain ⟨w, hw, hpoints⟩ := (Value.designates_iff_of_normalizeColumn hcolumn hkind).mpr hdesignates
    have hcolumnKept : (row.get? column).bind (Schema.normalizeColumn (r.schema.kinds table) column) = some w := by
      rw [hv, Option.bind_some, hw]
    obtain ⟨stored, hkept⟩ := Schema.exists_kept hcolumnKept
    rw [← Schema.get?_normalize, ← Schema.eq_normalize_of_kept hkept] at hcolumnKept
    exact ⟨stored, ⟨row, hafter, hkept⟩, Row.pointsTo_iff.mpr ⟨w, hcolumnKept, hpoints⟩⟩

/-- In the cache after a run a row points to the target when it was told to hold it. -/
theorem pointsTo_takeAll (hk : r.cache.knows table = true) (hnone : ∀ id, r.cache.row? table id = none)
    (hcolumn : (r.schema.kinds table).get? column = some kind) (hkind : kind.IsReference) (inputs : List Input) :
    (r.takeAll inputs).cache.PointsTo table column id target ↔ ToldToHold inputs table column kind target id := by
  unfold Cache.PointsTo ToldToHold LastTold
  rw [(row?_takeAll hk inputs id).2, hnone]
  cases RowChange.lastOf id (inputs.flatMap (Input.changes table)) with
  | none => simp
  | some change =>
    simp only [pointsTo_of_next? hcolumn hkind]
    constructor
    · rintro ⟨row, v, hafter, hv, hdesignates⟩
      exact ⟨v, ⟨change, row, rfl, hafter, hv⟩, hdesignates⟩
    · rintro ⟨v, ⟨_, row, hsame, hafter, hv⟩, hdesignates⟩
      cases hsame
      exact ⟨row, v, hafter, hv, hdesignates⟩

/-- A search for the rows of a table that hold a reference finds what the run has told. In a table that was subscribed before the run and
had no rows then, it lists in ascending order the rows whose last change gave the column a value that designates the target; the search
for one row finds the least of them, and none when there is none. A value designates what its members spell, in any letter case, when
they are identifiers and not too many for the column; otherwise it designates the identifiers that stand in it as a set. -/
theorem finds_what_was_told (r : Replica) (inputs : List Input) {table column : String} {kind : Kind} (target : RowId)
    (hk : r.cache.knows table = true) (hnone : ∀ id, r.cache.row? table id = none)
    (hcolumn : (r.schema.kinds table).get? column = some kind) (hkind : kind.IsReference) :
    (∃ ids, (r.takeAll inputs).cache.idsHolding table column target = .ok ids ∧ ids.Pairwise (· < ·) ∧
      ∀ id, id ∈ ids ↔ ToldToHold inputs table column kind target id) ∧
    (∃ first, (r.takeAll inputs).cache.firstHolding table column target = .ok first ∧
      (first = none ↔ ∀ id, ¬ToldToHold inputs table column kind target id) ∧
      ∀ id, first = some id → ToldToHold inputs table column kind target id ∧
        ∀ other, ToldToHold inputs table column kind target other → other = id ∨ id < other) ∧
    ∀ v : Value, v.Designates kind target ↔
      (v.IsReferences kind ∧ ∃ item ∈ v.members, item.Spells target) ∨
        (¬v.IsReferences kind ∧ ∃ items, v = .set items ∧ .uuid target ∈ items) := by
  obtain ⟨ids, hids⟩ : ∃ ids, (r.takeAll inputs).cache.idsHolding table column target = .ok ids :=
    Cache.exists_idsHolding (row?_takeAll hk inputs target).1
  have hmem : ∀ id, id ∈ ids ↔ ToldToHold inputs table column kind target id := by
    intro id
    rw [Cache.mem_of_idsHolding_iff hids, pointsTo_takeAll hk hnone hcolumn hkind]
  have hascending : ids.Pairwise (· < ·) := Cache.ascending_of_idsHolding hids
  refine ⟨⟨ids, hids, hascending, hmem⟩, ⟨ids.head?, by rw [Cache.firstHolding, hids]; rfl, ?_, ?_⟩,
    fun v => Value.designates_iff hkind⟩
  · simp only [List.head?_eq_none_iff, ← hmem, List.eq_nil_iff_forall_not_mem]
  · intro id hid
    obtain ⟨rest, rfl⟩ := List.head?_eq_some_iff.mp hid
    refine ⟨(hmem id).mp List.mem_cons_self, fun other hother => ?_⟩
    exact (List.mem_cons.mp ((hmem other).mpr hother)).imp_right ((List.pairwise_cons.mp hascending).1 other)

end Replica

namespace VirtualNetwork

def switchSchema : Schema := ⟨.singleton switchModel.table switchModel, by decide⟩

def firstSwitch : RowId := ⟨"00000000-0000-4000-8000-000000000001", by decide⟩

def secondSwitch : RowId := ⟨"00000000-0000-4000-8000-000000000002", by decide⟩

def thirdSwitch : RowId := ⟨"00000000-0000-4000-8000-000000000003", by decide⟩

def heldPort : RowId := ⟨"00000000-0000-4000-8000-00000000000a", by decide⟩

/-- A port that is held as text in upper case, in a set with a number, and alone by a switch that goes. -/
def heldRun : List Replica.Input := [
  .batch ⟨.singleton "Logical_Switch" [
    .ofStates secondSwitch none (some (.singleton "ports" (.set [.integer 3, .uuid heldPort]))),
    .ofStates firstSwitch none (some (.singleton "ports" (.string "00000000-0000-4000-8000-00000000000A"))),
    .ofStates thirdSwitch none (some (.singleton "ports" (.uuid heldPort)))]⟩,
  .notification (.object [("Logical_Switch", .object [(thirdSwitch.text, .object [])])])]

/-- The port is found where it was told to be, in the order of the identifiers. -/
theorem finds_heldPort :
    let told := Replica.ToldToHold heldRun "Logical_Switch" "ports" (.set .uuid) heldPort
    (Replica.takeAll (.awaiting (.ofSchema switchSchema) ["Logical_Switch"]) heldRun).cache.idsHolding "Logical_Switch" "ports" heldPort =
      .ok [firstSwitch, secondSwitch] ∧ told firstSwitch ∧ told secondSwitch ∧ ¬told thirdSwitch := by
  intro told
  have hfound : (Replica.takeAll (.awaiting (.ofSchema switchSchema) ["Logical_Switch"]) heldRun).cache.idsHolding
      "Logical_Switch" "ports" heldPort = .ok [firstSwitch, secondSwitch] := by
    decide +kernel
  have hcolumn : (switchSchema.kinds "Logical_Switch").get? "ports" = some (.set .uuid) := by decide
  obtain ⟨⟨ids, hids, -, hmem⟩, -⟩ := Replica.finds_what_was_told (.awaiting (.ofSchema switchSchema) ["Logical_Switch"]) heldRun heldPort
    (by decide) (Cache.row?_awaiting ["Logical_Switch"] "Logical_Switch") hcolumn (Or.inr rfl)
  rw [hfound] at hids
  cases hids
  exact ⟨hfound, (hmem _).mp (by simp), (hmem _).mp (by simp), fun h => absurd ((hmem _).mpr h) (by decide)⟩

end VirtualNetwork

end TableReplica
