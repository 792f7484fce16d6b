import TableReplica.Proofs.Zeros
import TableReplica.Proofs.NetworkCalls

/-!
# Searches that a change does not disturb

A search compares the members of each wanted column (`Value.meets_eq_membersAgree`). It reads of a row only the columns that are wanted, and
these up to the signs of zeros (`Row.meets_congr`). Where a change leaves the wanted columns of all rows of a table alone, a search of
that table finds what it found (`Cache.idsMeeting_congr`), and a site that was resolved by names of rows is resolved to the same row
(`VirtualNetwork.RuleSite.parent_congr`).
-/

namespace TableReplica

theorem Binary64.numEq_comm (x y : Binary64) : x.numEq y = y.numEq x := by
  rw [Bool.eq_iff_iff, numEq_iff, numEq_iff, and_comm (a := x.isNaN = false), eq_comm (a := x.positiveZero)]

namespace Value

mutual

/-- Agreement is mutual. -/
theorem agrees_comm (a b : Value) : a.agrees b = b.agrees a := by
  cases a with
  | set as =>
    cases b with
    | set bs =>
      rw [agrees, agrees]
      exact membersAgree_comm as bs
    | _ => rfl
  | real x =>
    cases b with
    | real y => exact Binary64.numEq_comm x y
    | _ => rfl
  | _ => cases b <;> simp only [agrees, eq_comm]

theorem membersAgree_comm (as bs : List Value) : membersAgree as bs = membersAgree bs as := by
  cases as with
  | nil => cases bs <;> rfl
  | cons a as =>
    cases bs with
    | nil => rfl
    | cons b bs => rw [membersAgree, membersAgree, agrees_comm a b, membersAgree_comm as bs]

end

/-- The members that a stored column has, of which one that is absent has none. -/
def storedMembers (stored : Option Value) : List Value := (stored.map members).getD []

/-- Without sets on either side, to meet is to agree. -/
theorem meets_of_bare {v wanted : Value} (hv : ∀ items, v ≠ .set items) (hwanted : ∀ items, wanted ≠ .set items) :
    meets (some v) wanted = v.agrees wanted := by
  unfold meets
  dsimp only
  split
  · exact absurd rfl (hv _)
  · exact absurd rfl (hv _)
  · exact absurd rfl (hwanted _)
  · exact Bool.or_false _

/-- A column is the wanted value when both have the same members. -/
theorem meets_eq_membersAgree (stored : Option Value) (wanted : Value) :
    meets stored wanted = membersAgree (storedMembers stored) wanted.members := by
  cases stored with
  | none =>
    cases wanted with
    | set items => cases items <;> rfl
    | _ => rfl
  | some s =>
    cases s with
    | set items =>
      cases wanted with
      | set items' => exact Bool.or_false _
      | _ =>
        match items with
        | [] => rfl
        | [item] => exact (Bool.false_or _).trans (Bool.and_true _).symm
        | _ :: _ :: _ => exact (Bool.and_false _).symm
    | _ =>
      cases wanted with
      | set items' =>
        match items' with
        | [] => rfl
        | [item] => exact (Bool.false_or _).trans ((agrees_comm item _).trans (Bool.and_true _).symm)
        | _ :: _ :: _ => exact (Bool.and_false _).symm
      | _ => exact (meets_of_bare (by simp) (by simp)).trans (Bool.and_true _).symm

/-- What meets a wanted value does so whatever the signs of its zeros. -/
theorem meets_positiveZeros (stored : Option Value) (wanted : Value) : meets (stored.map positiveZeros) wanted = meets stored wanted := by
  have hmembers : storedMembers (stored.map positiveZeros) = (storedMembers stored).map positiveZeros := by
    cases stored with
    | none => rfl
    | some s => exact s.members_positiveZeros
  rw [meets_eq_membersAgree, meets_eq_membersAgree, hmembers, ← membersAgree_positiveZeros, map_positiveZeros_idem,
    membersAgree_positiveZeros]

end Value

/-- A row meets what is wanted by its wanted columns, up to the signs of zeros. -/
theorem Row.meets_congr {id : RowId} {row row' wanted : Row}
    (h : ∀ column v, wanted.get? column = some v → (row.get? column).map Value.positiveZeros = (row'.get? column).map Value.positiveZeros) :
    row.meets id wanted = row'.meets id wanted := by
  rw [meets, meets, Bool.eq_iff_iff, List.all_eq_true, List.all_eq_true]
  refine forall₂_congr ?_
  intro e he
  have hcolumn := h e.1 e.2 (SortedMap.mem_entries_iff.mp he)
  rw [← Value.meets_positiveZeros (row.get? e.1), hcolumn, Value.meets_positiveZeros]

/-- The signs of zeros have no part in what a row meets. -/
theorem Row.meets_of_positiveZeros_eq {id : RowId} {row row' : Row} (h : row.positiveZeros = row'.positiveZeros) (wanted : Row) :
    row.meets id wanted = row'.meets id wanted := by
  apply Row.meets_congr
  intro column _ _
  rw [← Row.get?_positiveZeros, h, Row.get?_positiveZeros]

namespace Cache

variable {c c' : Cache} {table : String}

/-- Searches by the rows that pass find the same rows. -/
theorem search_congr {test : RowId → Row → Bool} (hk : c'.knows table = c.knows table)
    (h : ∀ id, (∃ row, c'.row? table id = some row ∧ test id row = true) ↔ ∃ row, c.row? table id = some row ∧ test id row = true) :
    c'.search table test = c.search table test := by
  have hfound : ∀ {c : Cache} {rows : RowMap}, c.tables.get? table = some rows → c.search table test = .ok (rows.filter test).keys := by
    intro c rows hc
    rw [search, rows_eq_ok_iff.mpr hc]
    rfl
  cases hc : c.tables.get? table with
  | none =>
    cases hc' : c'.tables.get? table with
    | none => rw [search, search, Cache.rows, Cache.rows, hc, hc']
    | some rows' =>
      obtain ⟨rows, hc⟩ := (knows_iff c table).mp (hk ▸ (knows_iff c' table).mpr ⟨rows', hc'⟩)
      simp_all
  | some rows =>
    obtain ⟨rows', hc'⟩ := (knows_iff c' table).mp (hk.trans ((knows_iff c table).mpr ⟨rows, hc⟩))
    rw [hfound hc, hfound hc']
    congr 1
    apply SortedMap.keys_congr
    intro id
    rw [mem_of_search (hfound hc') id, mem_of_search (hfound hc) id]
    exact h id

/-- A table whose rows show the same wanted columns is searched with the same result. -/
theorem idsMeeting_congr {wanted : Row} (hk : c'.knows table = c.knows table)
    (h : ∀ id, (c'.row? table id).map (fun row => row.meets id wanted) = (c.row? table id).map (fun row => row.meets id wanted)) :
    c'.idsMeeting table wanted = c.idsMeeting table wanted := by
  rw [idsMeeting, idsMeeting]
  split
  · rfl
  · apply search_congr hk
    intro id
    have hid := h id
    cases hrow : c.row? table id <;> cases hrow' : c'.row? table id <;> simp_all

theorem nodup_of_idsMeeting {wanted : Row} {ids : List RowId} (h : c.idsMeeting table wanted = .ok ids) : ids.Nodup := by
  rw [idsMeeting] at h
  split at h
  · cases h
  · obtain ⟨rows, -, rfl⟩ := map_eq_ok_iff.mp h
    exact SortedMap.nodup_keys _

/-- A known table can be searched for anything but nothing. -/
theorem exists_idsMeeting {wanted : Row} (hk : c.knows table = true) (hwanted : wanted.isEmpty = false) :
    ∃ ids, c.idsMeeting table wanted = .ok ids := by
  obtain ⟨rows, hrows⟩ := (knows_iff c table).mp hk
  refine ⟨(rows.filter (fun id row => row.meets id wanted)).keys, ?_⟩
  rw [idsMeeting, hwanted, if_neg Bool.false_ne_true, search, rows_eq_ok_iff.mpr hrows]
  rfl

end Cache

/-! ## Sites of rules -/

namespace VirtualNetwork.RuleSite

variable {cache cache' : Cache} {site : RuleSite} {parent : Parent}

/-- A site is a row with a name, or a row that is known. -/
theorem selector_of_parent (h : site.parent cache = .ok parent) :
    (∃ name, parent.selector = .key (named name)) ∨ ∃ id, parent.selector = .id id := by
  cases site with
  | switch name =>
    cases h
    exact Or.inl ⟨name, rfl⟩
  | group name =>
    cases h
    exact Or.inl ⟨name, rfl⟩
  | row table id =>
    simp only [RuleSite.parent] at h
    split at h
    · cases h
      exact Or.inr ⟨id, rfl⟩
    · cases h
  | anyNamed name =>
    have h : (cache.idsAmong (named name) [(switchModel.table, ruleColumn), (groupModel.table, ruleColumn)]).bind _ = .ok parent := h
    obtain ⟨hits, -, h⟩ := bind_eq_ok_iff.mp h
    rcases hits with _ | ⟨hit, _ | ⟨_, _⟩⟩
    · cases h
    · cases h
      exact Or.inr ⟨hit.2.2, rfl⟩
    · cases h

/-- Where names are found in the same rows, a site has the same parent. -/
theorem parent_congr
    (hnames : ∀ table name, table = switchModel.table ∨ table = groupModel.table →
      cache'.idsMeeting table (named name) = cache.idsMeeting table (named name)) (site : RuleSite) :
    site.parent cache' = site.parent cache := by
  cases site with
  | anyNamed name =>
    simp only [RuleSite.parent, Cache.onlyParent, Cache.idsAmong, Cache.idsKnown, hnames _ name (Or.inl rfl),
      hnames _ name (Or.inr rfl)]
  | _ => rfl

/-- Where names are found in the same rows and no row has gone, the parent of a site is the same row. -/
theorem parentId_congr
    (hnames : ∀ table name, table = switchModel.table ∨ table = groupModel.table →
      cache'.idsMeeting table (named name) = cache.idsMeeting table (named name))
    (hparent : site.parent cache = .ok parent) {holder : RowId} (hfound : cache.parentId parent none = .ok holder)
    (hthere : (cache'.row? parent.table holder).isSome = true) : cache'.parentId parent none = .ok holder := by
  rw [Cache.parentId] at hfound ⊢
  rcases selector_of_parent hparent with ⟨name, hselector⟩ | ⟨id, hselector⟩
  · rw [hselector] at hfound ⊢
    simp only [Cache.onlyRow, hnames _ name (of_parent hparent).1] at hfound ⊢
    exact hfound
  · rw [hselector] at hfound ⊢
    obtain ⟨_, -, rfl⟩ := map_eq_ok_iff.mp hfound
    obtain ⟨row, hrow⟩ := Option.isSome_iff_exists.mp hthere
    exact map_eq_ok_iff.mpr ⟨row, Cache.row_eq_ok_iff.mpr hrow, rfl⟩

end VirtualNetwork.RuleSite

end TableReplica
