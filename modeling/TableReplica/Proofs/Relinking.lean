import TableReplica.Proofs.SeenRows
import TableReplica.Proofs.TableGrowth

/-!
# Links put in order

A row that comes under a parent and goes again leaves one trace: the links of the parent are now a set, in order and each of them once
(`Tables.GainsUnder.relinks`). Nothing dangles then that did not before, if the row had an identifier that was not in use
(`Tables.LosesUnder.not_dangles`), and a cache that mirrors the tables shows the same trace (`Tables.Relinks.relinked_cache`).
-/

namespace TableReplica

/-- The row with the links of a column as a set. -/
def Row.relink (row : Row) (column : String) : Row := row.insert column (.ofRowIds (row.links column))

namespace Tables

/-- An identifier is not in use: no row has it, and none names it. -/
structure Unused (tables : Tables) (id : RowId) : Prop where
  absent : tables.live id = false
  unnamed : ∀ table id' row, tables.row? table id' = some row → ¬row.Names id

/-- The links of a row have become a set, and all other rows are as they were. -/
def Relinks (before now : Tables) (parent : Parent) (holder : RowId) : Prop :=
  ∀ table id, now.row? table id =
    if parent.table = table ∧ holder = id then (before.row? table id).map (·.relink parent.column) else before.row? table id

end Tables

/-- The links of a row have become a set. All its other columns and all other rows are the same in the given view. -/
structure Relinked (view : Value → Value) (before after : String → RowId → Option Row) (parent : Parent) (holder : RowId) : Prop where
  linked : ∃ old new, before parent.table holder = some old ∧ after parent.table holder = some new ∧
    new.get? parent.column = some (.ofRowIds (old.links parent.column)) ∧
    ∀ column, column ≠ parent.column → (new.get? column).map view = (old.get? column).map view
  others : ∀ table id, ¬(parent.table = table ∧ holder = id) →
    (after table id).map (Row.seen view) = (before table id).map (Row.seen view)

/-! ## One row -/

namespace Row

variable {row row' : Row} {column : String}

theorem get?_relink (row : Row) (column : String) : (row.relink column).get? column = some (.ofRowIds (row.links column)) :=
  SortedMap.get?_insert_self row column _

theorem get?_relink_of_ne (row : Row) {column' : String} (h : column ≠ column') : (row.relink column).get? column' = row.get? column' :=
  SortedMap.get?_insert_of_ne row _ h

/-- A link that comes and goes leaves the others as a set. -/
theorem HoldsLinks.mutate_insert_delete (h : row.HoldsLinks column) {id : RowId} (hid : id ∉ row.links column) :
    (row.mutate column .insert (.uuid id)).mutate column .delete (.uuid id) = row.relink column := by
  obtain ⟨hshape, hmem⟩ := h.mutate_insert id
  apply SortedMap.ext_get?
  intro column'
  by_cases heq : column = column'
  · subst heq
    refine (hshape.get?_mutate_delete id).trans ?_
    rw [get?_relink]
    congr 1
    apply Value.ofRowIds_congr
    intro link
    rw [List.mem_filter, hmem, decide_eq_true_eq]
    constructor
    · rintro ⟨hlink | hlink, hne⟩
      · exact hlink
      · exact (hne hlink).elim
    · intro hlink
      exact ⟨Or.inl hlink, fun heq => hid (heq ▸ hlink)⟩
  · exact (get?_mutate_of_ne _ heq _ _).trans ((get?_mutate_of_ne row heq _ _).trans (get?_relink_of_ne row heq).symm)

/-- A row whose links are some of those of another, and which is the same otherwise, names no more than the other. -/
theorem names_of_links {ids : List RowId} (hcolumn : row'.get? column = some (.ofRowIds ids)) (hids : ∀ id ∈ ids, id ∈ row.links column)
    (hsame : ∀ column', column ≠ column' → row'.get? column' = row.get? column') {target : RowId} (h : row'.Names target) :
    row.Names target := by
  obtain ⟨column', v, hv, hnames⟩ := h
  by_cases heq : column = column'
  · subst heq
    have hlink : target ∈ row'.links column := by
      rw [hcolumn] at hv
      cases hv
      rw [mem_links_of_eq_ofRowIds hcolumn]
      rcases hnames with hnames | ⟨items, hitems, htarget⟩
      · cases hnames
      · cases hitems
        obtain ⟨id, hid, heq⟩ := (Value.mem_items_ofRowIds ids _).mp htarget
        cases heq
        exact hid
    exact names_of_mem_links (hids target ((mem_links_of_eq_ofRowIds hcolumn target).mp hlink))
  · exact ⟨column', v, (hsame column' heq).symm.trans hv, hnames⟩

/-- A relinked row names no row that it did not name. -/
theorem names_of_relink {target : RowId} (h : (row.relink column).Names target) : row.Names target :=
  names_of_links (get?_relink row column) (fun _ hid => hid) (fun _ hne => get?_relink_of_ne row hne) h

/-- A row from which a link was taken names no row that it did not name. -/
theorem HoldsLinks.names_of_mutate_delete (h : row.HoldsLinks column) {id target : RowId}
    (hnames : (row.mutate column .delete (.uuid id)).Names target) : row.Names target :=
  names_of_links (h.get?_mutate_delete id) (fun _ hid => (List.mem_filter.mp hid).1)
    (fun _ hne => get?_mutate_of_ne row hne .delete (.uuid id)) hnames

end Row

/-! ## Tables -/

namespace Tables

variable {before mid now : Tables} {table : String} {id : RowId} {row : Row} {parent : Parent} {holder : RowId}

/-- A row that comes under a parent and goes again leaves the links of the parent as a set. -/
theorem GainsUnder.relinks (hgains : before.GainsUnder mid table id row parent holder) (hloses : mid.LosesUnder now table id parent holder)
    (hne : table ≠ parent.table) (hunused : before.Unused id)
    (hlinks : ∀ old, before.row? parent.table holder = some old → old.HoldsLinks parent.column) :
    before.Relinks now parent holder := by
  intro table' id'
  rw [hloses]
  by_cases hnew : table = table' ∧ id = id'
  · obtain ⟨rfl, rfl⟩ := hnew
    rw [if_pos ⟨rfl, rfl⟩, if_neg (fun h => hne h.1.symm), row?_of_not_live hunused.absent]
  rw [if_neg hnew, hgains, if_neg hnew]
  by_cases hparent : parent.table = table' ∧ holder = id'
  · obtain ⟨rfl, rfl⟩ := hparent
    rw [if_pos ⟨rfl, rfl⟩, if_pos ⟨rfl, rfl⟩, if_pos ⟨rfl, rfl⟩]
    cases hold : before.row? parent.table holder with
    | none => rfl
    | some old =>
      have hid : id ∉ old.links parent.column := fun hlink => hunused.unnamed _ _ old hold (Row.names_of_mem_links hlink)
      rw [Option.map_some, Option.map_some, (hlinks old hold).mutate_insert_delete hid, Option.map_some]
  · rw [if_neg hparent, if_neg hparent, if_neg hparent]

/-- The parent of a new row holds links, if it did before. -/
theorem GainsUnder.holdsLinks (hgains : before.GainsUnder mid table id row parent holder) (hne : table ≠ parent.table)
    (hlinks : ∀ old, before.row? parent.table holder = some old → old.HoldsLinks parent.column) :
    ∀ new, mid.row? parent.table holder = some new → new.HoldsLinks parent.column := by
  intro new hnew
  rw [hgains.row?_parent hne] at hnew
  obtain ⟨old, hold, rfl⟩ := Option.map_eq_some_iff.mp hnew
  exact ((hlinks old hold).mutate_insert id).1

/-- Without the row nothing dangles, since no row that is left names it. -/
theorem LosesUnder.not_dangles (hloses : mid.LosesUnder now table id parent holder)
    (hsound : ∀ table' id' target, ¬mid.Dangles table' id' target)
    (hlinks : ∀ old, mid.row? parent.table holder = some old → old.HoldsLinks parent.column)
    (hrelinks : before.Relinks now parent holder) (hunused : before.Unused id) (table' : String) (id' target : RowId) :
    ¬now.Dangles table' id' target := by
  rintro ⟨row', hrow', hnames, hmissing⟩
  have hrow' : now.row? table' id' = some row' := hrow'
  have hne : target ≠ id := by
    rintro rfl
    have hbefore := hrow'
    rw [hrelinks] at hbefore
    split at hbefore
    · obtain ⟨old, hold, rfl⟩ := Option.map_eq_some_iff.mp hbefore
      exact hunused.unnamed _ _ old hold (Row.names_of_relink hnames)
    · exact hunused.unnamed _ _ row' hbefore hnames
  have hmid : ∃ old, mid.row? table' id' = some old ∧ old.Names target := by
    rw [hloses] at hrow'
    split at hrow'
    · cases hrow'
    · split at hrow'
      · rename_i hparent
        obtain ⟨rfl, rfl⟩ := hparent
        obtain ⟨old, hold, rfl⟩ := Option.map_eq_some_iff.mp hrow'
        exact ⟨old, hold, (hlinks old hold).names_of_mutate_delete hnames⟩
      · exact ⟨row', hrow', hnames⟩
  obtain ⟨old, hold, hnamed⟩ := hmid
  refine hsound table' id' target ⟨old, hold, hnamed, ?_⟩
  rintro ⟨table'', row'', hrow''⟩
  apply hmissing
  have hrow'' : mid.row? table'' target = some row'' := hrow''
  have hstays : (now.row? table'' target).isSome = true := by
    rw [hloses, if_neg (fun h => hne h.2.symm), hrow'']
    split <;> rfl
  obtain ⟨left, hleft⟩ := Option.isSome_iff_exists.mp hstays
  exact ⟨table'', left, hleft⟩

namespace Relinks

/-- The row of the holder is relinked, and the others stay as they are. -/
theorem relinked (h : before.Relinks now parent holder) {old : Row} (hold : before.row? parent.table holder = some old) :
    Relinked (fun v => v) before.row? now.row? parent holder where
  linked := by
    refine ⟨old, old.relink parent.column, hold, ?_, old.get?_relink parent.column, ?_⟩
    · rw [h, if_pos ⟨rfl, rfl⟩, hold]
      rfl
    · intro column hcolumn
      rw [Row.get?_relink_of_ne old (Ne.symm hcolumn)]
  others := by
    intro table' id' hparent
    rw [h, if_neg hparent]

/-- A cache that mirrors the tables before and after shows the same trace, in each view in which it shows them. -/
theorem relinked_cache {r r' : Replica} {view : Value → Value} (h : before.Relinks now parent holder) (hm : r.Mirrors before)
    (hm' : r'.Mirrors now) (hsees : r.Sees view before) (hsees' : r'.Sees view now) (hschema : r'.schema = r.schema)
    (hknows : ∀ table', r'.cache.knows table' = r.cache.knows table') {shown : Row}
    (hshown : r.cache.row? parent.table holder = some shown)
    (hlinks : ∀ old, before.row? parent.table holder = some old → old.HoldsLinks parent.column)
    (hkind : (r.schema.kinds parent.table).get? parent.column = some (.set .uuid)) :
    Relinked view r.cache.row? r'.cache.row? parent holder where
  linked := by
    obtain ⟨old, hold, hshows⟩ := hm.shows_of_cached hshown
    have hnew : now.row? parent.table holder = some (old.relink parent.column) := by
      rw [h, if_pos ⟨rfl, rfl⟩, hold]
      rfl
    have hknown : r'.cache.knows parent.table = true := (hknows parent.table).trans (Cache.knows_of_row?_eq_some hshown)
    obtain ⟨shown', hshown', -, hcolumn⟩ := hm'.shows_of_links hknown hnew (hschema ▸ hkind) (old.get?_relink parent.column)
    refine ⟨shown, shown', hshown, hshown', ?_, ?_⟩
    · rw [Value.ofRowIds_congr (hshows.mem_links hkind (hlinks old hold))]
      exact hcolumn
    · intro column hne
      rw [hsees.get?_row hshown hold, hsees'.get?_row hshown' hnew, Row.get?_relink_of_ne old (Ne.symm hne), hschema]
  others := by
    intro table' id' hparent
    exact hsees.row?_of_eq hsees' hschema (hknows table') (by rw [h, if_neg hparent])

end Relinks

end Tables

end TableReplica
