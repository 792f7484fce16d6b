import TableReplica.Proofs.AimedOperations
import TableReplica.Proofs.FoundNames

/-!
# Two ways to name the parent of a child

A child can be looked for first and its parent found as the only row that holds it, or the parent can be named and the child found
among the rows it holds. The first way asks for one child in the whole table and for one holder, the second for one child below the
parent. What each way finds is told by the rows that match the key and the rows that point to others
(`Cache.onlyLink_holder_eq_ok_iff`, `Cache.onlyLink_id_eq_ok_iff`); so a removal the first way is the same removal the second way,
and the converse holds where child and holder are the only ones (`Cache.removes_alike_however_named`).
-/

namespace TableReplica

/-- The column is a reference to the target, or a set with one. -/
def Row.PointsTo (row : Row) (column : String) (target : RowId) : Prop :=
  row.get? column = some (.uuid target) ∨ ∃ items, row.get? column = some (.set items) ∧ .uuid target ∈ items

/-- The links that are read from a row are what it points to. -/
theorem Row.mem_links_iff_pointsTo {row : Row} {column : String} {target : RowId} :
    target ∈ row.links column ↔ row.PointsTo column target := by
  rw [← any_refersTo_iff, PointsTo]
  cases row.get? column with
  | none => simp
  | some v =>
    cases v with
    | set items =>
      have hrowId : ∀ item : Value, item.rowId? = some target ↔ item = .uuid target := by
        intro item
        cases item <;> simp [Value.rowId?]
      simp [Value.refersTo, hrowId]
    | _ => simp [Value.refersTo]

/-- The transaction takes a reference to the child out of the column of the parent, and then deletes the child. -/
def Transaction.Removes (txn : Transaction) (parentTable column : String) (parent : RowId) (table : String) (child : RowId) : Prop :=
  txn.operations = [.mutate parentTable column .delete (.reference (.resolved child)) [.isRow (.resolved parent)],
    .delete table [.isRow (.resolved child)]]

/-- A removal is of one child from one parent. -/
theorem Transaction.Removes.unique {txn : Transaction} {parentTable column table : String} {parent parent' child child' : RowId}
    (h : txn.Removes parentTable column parent table child) (h' : txn.Removes parentTable column parent' table child') :
    parent' = parent ∧ child' = child := by
  cases h'.symm.trans h
  exact ⟨rfl, rfl⟩

/-- A list without repetitions that has the members of a predicate has one when the predicate has one. -/
theorem eq_singleton_iff {α : Type} {items : List α} {item : α} {p : α → Prop} (hnodup : items.Nodup) (hmem : ∀ x, x ∈ items ↔ p x) :
    items = [item] ↔ ∀ x, p x ↔ x = item := by
  constructor
  · rintro rfl x
    rw [← hmem, List.mem_singleton]
  · intro honly
    exact eq_singleton_of_nodup hnodup fun x => (hmem x).trans (honly x)

namespace Cache

variable {c : Cache} {table column parentTable : String} {key : Row} {txn : Transaction} {child parent : RowId}

/-- The row of the table has the wanted columns. -/
def Matches (c : Cache) (table : String) (key : Row) (id : RowId) : Prop :=
  ∃ row, c.row? table id = some row ∧ row.meets id key = true

/-- The row of the table has a reference to the target in the column. -/
def PointsTo (c : Cache) (table column : String) (id target : RowId) : Prop :=
  ∃ row, c.row? table id = some row ∧ row.PointsTo column target

/-- A search has an only hit when it finds one row, once. -/
theorem onlyHit_eq_ok_iff {ids : List RowId} {id : RowId} : onlyHit table key ids = .ok id ↔ ids = [id] := by
  constructor
  · exact eq_singleton_of_onlyHit
  · rintro rfl
    rfl

/-- A search that lists the members of a predicate has one hit when the predicate has one member. -/
theorem bind_onlyHit_eq_ok_iff {search : Except Error (List RowId)} {id : RowId} {p : RowId → Prop}
    (hlists : ∀ ids, search = .ok ids → ids.Nodup ∧ ∀ other, other ∈ ids ↔ p other) :
    (search >>= onlyHit table key) = .ok id ↔ (∃ ids, search = .ok ids) ∧ ∀ other, p other ↔ other = id := by
  rw [bind_eq_ok_iff]
  constructor
  · rintro ⟨ids, hids, hhit⟩
    obtain ⟨hnodup, hmem⟩ := hlists ids hids
    exact ⟨⟨ids, hids⟩, (eq_singleton_iff hnodup hmem).mp (onlyHit_eq_ok_iff.mp hhit)⟩
  · rintro ⟨⟨ids, hids⟩, honly⟩
    obtain ⟨hnodup, hmem⟩ := hlists ids hids
    exact ⟨ids, hids, onlyHit_eq_ok_iff.mpr ((eq_singleton_iff hnodup hmem).mpr honly)⟩

/-- A search by columns asks for some column. -/
theorem isEmpty_of_idsMeeting {ids : List RowId} (h : c.idsMeeting table key = .ok ids) : key.isEmpty = false := by
  cases hempty : key.isEmpty with
  | false => rfl
  | true =>
    rw [idsMeeting, hempty, if_pos rfl] at h
    cases h

/-- The only row with the wanted columns is found. -/
theorem onlyRow_eq_ok_iff :
    c.onlyRow table key = .ok child ↔ key.isEmpty = false ∧ ∀ other, c.Matches table key other ↔ other = child := by
  rw [show c.onlyRow table key = (c.idsMeeting table key >>= onlyHit table key) from rfl,
    bind_onlyHit_eq_ok_iff fun ids hids => ⟨nodup_of_idsMeeting hids, mem_of_idsMeeting hids⟩]
  refine and_congr_left fun honly => ?_
  obtain ⟨row, hrow, -⟩ := (honly child).mpr rfl
  exact ⟨fun ⟨_, hids⟩ => isEmpty_of_idsMeeting hids, exists_idsMeeting (knows_of_row?_eq_some hrow)⟩

/-- A search for holders finds the rows that point to the child. -/
theorem mem_of_idsHolding_iff {ids : List RowId} (h : c.idsHolding table column child = .ok ids) (id : RowId) :
    id ∈ ids ↔ c.PointsTo table column id child := by
  simp only [mem_of_idsHolding h, PointsTo, Row.any_refersTo_iff, Row.mem_links_iff_pointsTo]

/-- The only row that points to the child is found. -/
theorem onlyHolder_eq_ok_iff :
    c.onlyHolder table column child = .ok parent ↔ ∀ other, c.PointsTo table column other child ↔ other = parent := by
  rw [show c.onlyHolder table column child = (c.idsHolding table column child >>= onlyHit table (.singleton column (.uuid child))) from rfl,
    bind_onlyHit_eq_ok_iff fun ids hids => ⟨nodup_of_idsHolding hids, mem_of_idsHolding_iff hids⟩]
  refine and_iff_right_of_imp fun honly => ?_
  obtain ⟨row, hrow, -⟩ := (honly parent).mpr rfl
  exact exists_idsHolding (knows_of_row?_eq_some hrow)

/-! ## What is found either way -/

/-- The parent that holds the child: the child is the only row with the key, and the parent is the only row that points to it. -/
theorem onlyLink_holder_eq_ok_iff :
    c.onlyLink table key ⟨parentTable, column, .holder⟩ = .ok (child, parent) ↔
      key.isEmpty = false ∧ (∀ other, c.Matches table key other ↔ other = child) ∧
        ∀ other, c.PointsTo parentTable column other child ↔ other = parent := by
  rw [← and_assoc, ← onlyRow_eq_ok_iff, ← onlyHolder_eq_ok_iff]
  constructor
  · intro h
    obtain ⟨child', hchild, h⟩ := bind_eq_ok_iff.mp h
    obtain ⟨parent', hparent, h⟩ := bind_eq_ok_iff.mp h
    cases h
    exact ⟨hchild, hparent⟩
  · rintro ⟨hchild, hparent⟩
    exact bind_eq_ok_iff.mpr ⟨child, hchild, bind_eq_ok_iff.mpr ⟨parent, hparent, rfl⟩⟩

/-- The children of a row that have the key are those it points to. -/
theorem mem_of_childrenMeeting {p : Parent} {ids : List RowId} (h : c.childrenMeeting p parent table key = .ok ids) :
    ids.Nodup ∧ ∀ id, id ∈ ids ↔ c.Matches table key id ∧ c.PointsTo p.table p.column parent id := by
  obtain ⟨holding, hholding, h⟩ := bind_eq_ok_iff.mp h
  obtain ⟨found, hfound, h⟩ := bind_eq_ok_iff.mp h
  cases h
  refine ⟨(nodup_of_idsMeeting hfound).filter _, fun id => ?_⟩
  rw [List.mem_filter, decide_eq_true_iff, mem_of_idsMeeting hfound, Row.mem_links_iff_pointsTo, PointsTo, row_eq_ok_iff.mp hholding]
  simp only [Option.some.injEq, exists_eq_left', Matches]

/-- Of rows that are there, a search among children fails only for an empty key. -/
theorem exists_childrenMeeting_iff {p : Parent} {row row' : Row} (hparent : c.row? p.table parent = some row)
    (hchild : c.row? table child = some row') : (∃ ids, c.childrenMeeting p parent table key = .ok ids) ↔ key.isEmpty = false := by
  constructor
  · rintro ⟨ids, h⟩
    obtain ⟨_, -, h⟩ := bind_eq_ok_iff.mp h
    obtain ⟨found, hfound, -⟩ := bind_eq_ok_iff.mp h
    exact isEmpty_of_idsMeeting hfound
  · intro hkey
    obtain ⟨found, hfound⟩ := exists_idsMeeting (knows_of_row?_eq_some hchild) hkey
    exact ⟨_, bind_eq_ok_iff.mpr ⟨row, row_eq_ok_iff.mpr hparent, bind_eq_ok_iff.mpr ⟨found, hfound, rfl⟩⟩⟩

/-- The only child of a row that has the key is found. -/
theorem onlyChild_eq_ok_iff {p : Parent} : (c.childrenMeeting p parent table key >>= onlyHit table key) = .ok child ↔
    key.isEmpty = false ∧ ∀ other, (c.Matches table key other ∧ c.PointsTo p.table p.column parent other) ↔ other = child := by
  rw [bind_onlyHit_eq_ok_iff fun _ => mem_of_childrenMeeting]
  refine and_congr_left fun honly => ?_
  obtain ⟨⟨row', hrow', -⟩, row, hrow, -⟩ := (honly child).mpr rfl
  exact exists_childrenMeeting_iff hrow hrow'

/-- The parent that is named: the child is the only row with the key that it points to. -/
theorem onlyLink_id_eq_ok_iff {id : RowId} :
    c.onlyLink table key ⟨parentTable, column, .id id⟩ = .ok (child, parent) ↔
      id = parent ∧ key.isEmpty = false ∧
        ∀ other, (c.Matches table key other ∧ c.PointsTo parentTable column parent other) ↔ other = child := by
  constructor
  · intro h
    obtain ⟨_, hparent, h⟩ := bind_eq_ok_iff.mp h
    obtain ⟨-, -, rfl⟩ := map_eq_ok_iff.mp hparent
    obtain ⟨hits, hhits, h⟩ := bind_eq_ok_iff.mp h
    obtain ⟨_, hhit, h⟩ := bind_eq_ok_iff.mp h
    cases h
    exact ⟨rfl, onlyChild_eq_ok_iff.mp (bind_eq_ok_iff.mpr ⟨hits, hhits, hhit⟩)⟩
  · rintro ⟨rfl, hchild⟩
    obtain ⟨-, row, hrow, -⟩ := (hchild.2 child).mpr rfl
    have hfound := (onlyChild_eq_ok_iff (p := ⟨parentTable, column, .id id⟩)).mpr hchild
    obtain ⟨hits, hhits, hhit⟩ := bind_eq_ok_iff.mp hfound
    refine bind_eq_ok_iff.mpr ⟨id, map_eq_ok_iff.mpr ⟨row, row_eq_ok_iff.mpr hrow, rfl⟩, bind_eq_ok_iff.mpr ⟨hits, hhits, ?_⟩⟩
    exact bind_eq_ok_iff.mpr ⟨child, hhit, rfl⟩

/-- A parent that is found by a key is as if it were named. -/
theorem onlyLink_id_of_key {wanted : Row} (h : c.onlyLink table key ⟨parentTable, column, .key wanted⟩ = .ok (child, parent)) :
    c.onlyLink table key ⟨parentTable, column, .id parent⟩ = .ok (child, parent) := by
  obtain ⟨found, hfound, h⟩ := bind_eq_ok_iff.mp h
  obtain ⟨hits, hhits, h⟩ := bind_eq_ok_iff.mp h
  obtain ⟨_, hhit, h'⟩ := bind_eq_ok_iff.mp h
  cases h'
  obtain ⟨row, hrow, -⟩ := row?_of_onlyRow hfound
  exact bind_eq_ok_iff.mpr ⟨parent, map_eq_ok_iff.mpr ⟨row, row_eq_ok_iff.mpr hrow, rfl⟩, bind_eq_ok_iff.mpr ⟨hits, hhits, h⟩⟩

/-- However the parent is named, the child has the key and the parent points to it. -/
theorem matches_of_onlyLink {selector : Selector} (h : c.onlyLink table key ⟨parentTable, column, selector⟩ = .ok (child, parent)) :
    c.Matches table key child ∧ c.PointsTo parentTable column parent child := by
  cases selector with
  | id named => exact ((onlyLink_id_eq_ok_iff.mp h).2.2 child).mpr rfl
  | key wanted => exact ((onlyLink_id_eq_ok_iff.mp (onlyLink_id_of_key h)).2.2 child).mpr rfl
  | holder =>
    obtain ⟨-, hchild, hparent⟩ := onlyLink_holder_eq_ok_iff.mp h
    exact ⟨(hchild child).mpr rfl, (hparent parent).mpr rfl⟩

/-! ## The removals -/

/-- A removal is composed for the child and the parent that are found. -/
theorem removeChild_eq_ok_iff {selector : Selector} :
    c.removeChild table key ⟨parentTable, column, selector⟩ = .ok txn ↔
      ∃ child parent, c.onlyLink table key ⟨parentTable, column, selector⟩ = .ok (child, parent) ∧
        txn.Removes parentTable column parent table child := by
  constructor
  · intro h
    obtain ⟨⟨child, parent⟩, hlink, h⟩ := bind_eq_ok_iff.mp h
    exact ⟨child, parent, hlink, Transaction.compose_eq_ok_iff.mp h⟩
  · rintro ⟨child, parent, hlink, hremoves⟩
    exact bind_eq_ok_iff.mpr ⟨(child, parent), hlink, Transaction.compose_eq_ok_iff.mpr hremoves⟩

/-- A removal of a child from the parent that holds it is the removal from that parent by its identifier. A removal from a parent by its
identifier is the one from the parent that holds the child, when no other row has the key of the child and no other row points to it.
However the parent is named, a removal takes a row that has the key from a row that points to it. -/
theorem removes_alike_however_named (c : Cache) (table : String) (key : Row) (parentTable column : String) :
    (∀ txn parent child, c.removeChild table key ⟨parentTable, column, .holder⟩ = .ok txn →
      txn.Removes parentTable column parent table child → c.removeChild table key ⟨parentTable, column, .id parent⟩ = .ok txn) ∧
    (∀ txn parent child, c.removeChild table key ⟨parentTable, column, .id parent⟩ = .ok txn →
      txn.Removes parentTable column parent table child → (∀ other, c.Matches table key other → other = child) →
      (∀ other, c.PointsTo parentTable column other child → other = parent) →
      c.removeChild table key ⟨parentTable, column, .holder⟩ = .ok txn) ∧
    ∀ selector txn, c.removeChild table key ⟨parentTable, column, selector⟩ = .ok txn →
      ∃ parent child, c.Matches table key child ∧ c.PointsTo parentTable column parent child ∧
        txn.Removes parentTable column parent table child := by
  refine ⟨?_, ?_, ?_⟩
  · intro txn parent child h hremoves
    obtain ⟨child', parent', hlink, hremoves'⟩ := removeChild_eq_ok_iff.mp h
    obtain ⟨rfl, rfl⟩ := hremoves.unique hremoves'
    obtain ⟨hkey, hchild, hparent⟩ := onlyLink_holder_eq_ok_iff.mp hlink
    refine removeChild_eq_ok_iff.mpr ⟨child', parent', onlyLink_id_eq_ok_iff.mpr ⟨rfl, hkey, fun other => ?_⟩, hremoves⟩
    rw [hchild other]
    refine and_iff_left_of_imp ?_
    rintro rfl
    exact (hparent parent').mpr rfl
  · intro txn parent child h hremoves hchild hparent
    obtain ⟨child', parent', hlink, hremoves'⟩ := removeChild_eq_ok_iff.mp h
    obtain ⟨rfl, rfl⟩ := hremoves.unique hremoves'
    obtain ⟨-, hkey, -⟩ := onlyLink_id_eq_ok_iff.mp hlink
    obtain ⟨hmatches, hpoints⟩ := matches_of_onlyLink hlink
    refine removeChild_eq_ok_iff.mpr ⟨child', parent', onlyLink_holder_eq_ok_iff.mpr ⟨hkey, fun other => ?_, fun other => ?_⟩, hremoves⟩
    · exact ⟨hchild other, fun heq => heq ▸ hmatches⟩
    · exact ⟨hparent other, fun heq => heq ▸ hpoints⟩
  · intro selector txn h
    obtain ⟨child, parent, hlink, hremoves⟩ := removeChild_eq_ok_iff.mp h
    obtain ⟨hmatches, hpoints⟩ := matches_of_onlyLink hlink
    exact ⟨parent, child, hmatches, hpoints, hremoves⟩

/-- A switch with two ports, and a port that no switch holds. -/
def twoPorts : Cache :=
  let id := Draws.rowIds 0
  ⟨.ofList [("Switch", .singleton (id 0) (.singleton "ports" (.set [.uuid (id 1), .uuid (id 2)]))),
    ("Port", .ofList [(id 1, .singleton "name" (.string "a")), (id 2, .singleton "name" (.string "b")),
      (id 3, .singleton "name" (.string "a"))])]⟩

/-- The port `b` is removed from its switch either way. -/
theorem removes_alike_twoPorts :
    ∃ txn, twoPorts.removeChild "Port" (.singleton "name" (.string "b")) ⟨"Switch", "ports", .holder⟩ = .ok txn ∧
      twoPorts.removeChild "Port" (.singleton "name" (.string "b")) ⟨"Switch", "ports", .id (Draws.rowIds 0 0)⟩ = .ok txn ∧
      ∃ parent child, twoPorts.Matches "Port" (.singleton "name" (.string "b")) child ∧
        twoPorts.PointsTo "Switch" "ports" parent child ∧ txn.Removes "Switch" "ports" parent "Port" child := by
  obtain ⟨hid, hholder, hfound⟩ := removes_alike_however_named twoPorts "Port" (.singleton "name" (.string "b")) "Switch" "ports"
  have hchild : twoPorts.onlyRow "Port" (.singleton "name" (.string "b")) = .ok (Draws.rowIds 0 2) := by decide +kernel
  have hparent : twoPorts.onlyHolder "Switch" "ports" (Draws.rowIds 0 2) = .ok (Draws.rowIds 0 0) := by decide +kernel
  have hcomposed : (twoPorts.removeChild "Port" (.singleton "name" (.string "b")) ⟨"Switch", "ports", .holder⟩).map
      Transaction.operations =
      .ok [.mutate "Switch" "ports" .delete (.reference (.resolved (Draws.rowIds 0 2))) [.isRow (.resolved (Draws.rowIds 0 0))],
        .delete "Port" [.isRow (.resolved (Draws.rowIds 0 2))]] := by decide +kernel
  obtain ⟨txn, htxn, hremoves⟩ := map_eq_ok_iff.mp hcomposed
  have htxn' := hid txn _ _ htxn hremoves
  refine ⟨txn, hholder txn _ _ htxn' hremoves ?_ ?_, htxn', hfound _ txn htxn'⟩
  · exact fun other => ((onlyRow_eq_ok_iff.mp hchild).2 other).mp
  · exact fun other => (onlyHolder_eq_ok_iff.mp hparent other).mp

/-- The port `a` of the switch can be told from the one that no switch holds only by naming the switch. -/
example : (twoPorts.removeChild "Port" (.singleton "name" (.string "a")) ⟨"Switch", "ports", .id (Draws.rowIds 0 0)⟩).isOk = true ∧
    (twoPorts.removeChild "Port" (.singleton "name" (.string "a")) ⟨"Switch", "ports", .holder⟩).isOk = false := by decide +kernel

end Cache

end TableReplica
