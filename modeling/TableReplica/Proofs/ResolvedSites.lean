import TableReplica.Proofs.LinkedRemoval
import TableReplica.Proofs.NamedParents

/-!
# Sites that are looked up by name alone

A rule may hang from a switch or from a group of ports, and its site may be given by a name without a table. The name is then looked for
in both tables, and it stands for a row only when that row is the only one that has it (`Cache.onlyParent_eq_ok_iff`); when several rows
have it they are all listed. Once it stands for a row, nothing tells it from the row by its identifier or from the name in the table of
the row (`VirtualNetwork.RuleSite.resolves_only_alone`).
-/

namespace TableReplica

namespace Cache

variable {c : Cache} {table : String} {key : Row}

/-- A row with the wanted columns in a table that may hold children, with that table and the column that holds them. -/
def IsCandidate (c : Cache) (candidates : List (String × String)) (key : Row) (hit : String × String × RowId) : Prop :=
  (hit.1, hit.2.1) ∈ candidates ∧ c.Matches hit.1 key hit.2.2

/-- A table that is not known has no rows. -/
theorem exists_idsKnown (c : Cache) (table : String) (hkey : key.isEmpty = false) :
    ∃ ids, c.idsKnown table key = .ok ids ∧ ids.Nodup ∧ ∀ id, id ∈ ids ↔ c.Matches table key id := by
  cases hk : c.knows table with
  | true =>
    obtain ⟨ids, hids⟩ := exists_idsMeeting hk hkey
    exact ⟨ids, by simp [idsKnown, hids], nodup_of_idsMeeting hids, mem_of_idsMeeting hids⟩
  | false =>
    have hrows : c.rows table = .error (.missing [table] .subscription) := by
      cases htable : c.tables.get? table with
      | none => simp [rows, htable]
      | some rows => simp [knows, SortedMap.contains, htable] at hk
    have hfound : c.idsMeeting table key = .error (.missing [table] .subscription) := by
      simp [idsMeeting, hkey, search, hrows, Except.map]
    refine ⟨[], by simp [idsKnown, hfound, Error.isMissing], List.nodup_nil, fun id => ?_⟩
    simp [Matches, row?_of_not_knows hk]

/-- The rows with the wanted columns in several tables are listed once each. -/
theorem exists_idsAmong (c : Cache) (hkey : key.isEmpty = false) (candidates : List (String × String))
    (htables : (candidates.map (·.1)).Nodup) :
    ∃ hits, c.idsAmong key candidates = .ok hits ∧ (hits.map (fun hit => (hit.1, hit.2.2))).Nodup ∧
      ∀ hit, hit ∈ hits ↔ c.IsCandidate candidates key hit := by
  induction candidates with
  | nil => exact ⟨[], rfl, List.nodup_nil, fun hit => by simp [IsCandidate]⟩
  | cons candidate rest ih =>
    obtain ⟨table, column⟩ := candidate
    rw [List.map_cons, List.nodup_cons] at htables
    obtain ⟨ids, hids, hnodup, hmem⟩ := exists_idsKnown c table hkey
    obtain ⟨others, hothers, hnodup', hmem'⟩ := ih htables.2
    refine ⟨ids.map (fun id => (table, column, id)) ++ others, ?_, ?_, ?_⟩
    · exact bind_eq_ok_iff.mpr ⟨ids, hids, bind_eq_ok_iff.mpr ⟨others, hothers, rfl⟩⟩
    · rw [List.map_append, List.map_map]
      refine List.nodup_append.mpr ⟨hnodup.map fun _ _ h => (Prod.mk.inj h).2, hnodup', ?_⟩
      have hotherTable : ∀ hit ∈ others, hit.1 ≠ table := by
        rintro hit hhit rfl
        exact htables.1 (List.mem_map.mpr ⟨_, ((hmem' hit).mp hhit).1, rfl⟩)
      rintro _ hfirst _ hlater rfl
      obtain ⟨id, -, rfl⟩ := List.mem_map.mp hfirst
      obtain ⟨hit, hhit, hpair⟩ := List.mem_map.mp hlater
      exact hotherTable hit hhit (congrArg Prod.fst hpair)
    · rintro ⟨table', column', id⟩
      simp only [List.mem_append, List.mem_map, Prod.mk.injEq, hmem, hmem', IsCandidate, List.mem_cons]
      constructor
      · rintro (⟨_, hmatches, rfl, rfl, rfl⟩ | ⟨hrest, hmatches⟩)
        · exact ⟨Or.inl ⟨rfl, rfl⟩, hmatches⟩
        · exact ⟨Or.inr hrest, hmatches⟩
      · rintro ⟨⟨rfl, rfl⟩ | hrest, hmatches⟩
        · exact Or.inl ⟨id, hmatches, rfl, rfl, rfl⟩
        · exact Or.inr ⟨hrest, hmatches⟩

section

variable {candidates : List (String × String)}

/-- What is answered follows from the list of the rows with the wanted columns: the row when there is one, and a refusal otherwise. -/
theorem exists_onlyParent (c : Cache) (hkey : key.isEmpty = false) (hsome : candidates ≠ [])
    (htables : (candidates.map (·.1)).Nodup) :
    ∃ hits : List (String × String × RowId), (hits.map (fun hit => (hit.1, hit.2.2))).Nodup ∧
      (∀ hit, hit ∈ hits ↔ c.IsCandidate candidates key hit) ∧
      c.onlyParent candidates key =
        match hits with
        | [] => .error (.missing (candidates.map (·.1)) (.key key))
        | [hit] => .ok ⟨hit.1, hit.2.1, .id hit.2.2⟩
        | hits => .error (.several none key (hits.map (fun hit => (hit.1, hit.2.2)))) := by
  obtain ⟨hits, hhits, hnodup, hmem⟩ := exists_idsAmong c hkey candidates htables
  refine ⟨hits, hnodup, hmem, ?_⟩
  rw [onlyParent, if_neg (by simpa using hsome), hhits]
  rcases hits with _ | ⟨hit, _ | ⟨hit', rest⟩⟩ <;> rfl

/-- A parent is found exactly when one row alone has the wanted columns. -/
theorem onlyParent_eq_ok_iff (hkey : key.isEmpty = false) (hsome : candidates ≠ []) (htables : (candidates.map (·.1)).Nodup)
    {parent : Parent} :
    c.onlyParent candidates key = .ok parent ↔
      ∃ table column id, parent = ⟨table, column, .id id⟩ ∧
        ∀ hit, c.IsCandidate candidates key hit ↔ hit = (table, column, id) := by
  obtain ⟨hits, hnodup, hmem, hanswer⟩ := exists_onlyParent c hkey hsome htables
  rw [hanswer]
  simp only [← hmem]
  constructor
  · intro h
    match hits with
    | [] => cases h
    | [(table, column, id)] =>
      cases h
      exact ⟨table, column, id, rfl, fun hit => List.mem_singleton⟩
    | _ :: _ :: _ => cases h
  · rintro ⟨table, column, id, rfl, honly⟩
    rw [eq_singleton_of_nodup hnodup.of_map honly]

/-- A parent is missing exactly when no row has the wanted columns. -/
theorem onlyParent_eq_missing_iff (hkey : key.isEmpty = false) (hsome : candidates ≠ []) (htables : (candidates.map (·.1)).Nodup) :
    c.onlyParent candidates key = .error (.missing (candidates.map (·.1)) (.key key)) ↔ ∀ hit, ¬c.IsCandidate candidates key hit := by
  obtain ⟨hits, -, hmem, hanswer⟩ := exists_onlyParent c hkey hsome htables
  rw [hanswer]
  simp only [← hmem]
  rw [← List.eq_nil_iff_forall_not_mem]
  match hits with
  | [] => simp
  | [_] => simp
  | _ :: _ :: _ => simp

/-- All rows with the wanted columns are listed when there are several. -/
theorem onlyParent_of_several (hkey : key.isEmpty = false) (hsome : candidates ≠ []) (htables : (candidates.map (·.1)).Nodup)
    {hit hit' : String × String × RowId} (h : c.IsCandidate candidates key hit) (h' : c.IsCandidate candidates key hit')
    (hne : hit ≠ hit') :
    ∃ hits : List (String × String × RowId), c.onlyParent candidates key =
        .error (.several none key (hits.map (fun hit => (hit.1, hit.2.2)))) ∧
      (hits.map (fun hit => (hit.1, hit.2.2))).Nodup ∧ ∀ hit, hit ∈ hits ↔ c.IsCandidate candidates key hit := by
  obtain ⟨hits, hnodup, hmem, hanswer⟩ := exists_onlyParent c hkey hsome htables
  refine ⟨hits, ?_, hnodup, hmem⟩
  rw [hanswer]
  rw [← hmem] at h h'
  match hits with
  | [] => cases h
  | [_] => exact absurd ((List.mem_singleton.mp h).trans (List.mem_singleton.mp h').symm) hne
  | _ :: _ :: _ => rfl

end

/-! ## Parents that are found alike -/

variable {parent parent' : Parent} {holder : RowId}

/-- A parent that can be found without its child is not the holder of a child. -/
theorem selector_ne_of_parentId (h : c.parentId parent none = .ok holder) : parent.selector ≠ .holder := by
  intro hselector
  rw [parentId, hselector] at h
  cases h

/-- Nothing but the column of a parent and the row that is found for it is used to take a child away. -/
theorem removeChild_congr (htable : parent.table = parent'.table) (hcolumn : parent.column = parent'.column)
    (h : c.parentId parent none = .ok holder) (h' : c.parentId parent' none = .ok holder) :
    c.removeChild table key parent = c.removeChild table key parent' := by
  have hchildren : c.childrenMeeting parent holder table key = c.childrenMeeting parent' holder table key := by
    simp only [childrenMeeting, htable, hcolumn]
  simp only [removeChild, onlyLink_of_parentId h, onlyLink_of_parentId h', hchildren, Operation.detach, htable, hcolumn]

end Cache

/-- Nothing but the column of a parent and the row that is found for it is used to hang a new row from it. -/
theorem NameSupply.insertUnder_congr {c : Cache} {parent parent' : Parent} {holder : RowId} (htable : parent.table = parent'.table)
    (hcolumn : parent.column = parent'.column) (h : c.parentId parent none = .ok holder) (h' : c.parentId parent' none = .ok holder)
    (names : NameSupply) (table : String) (row : Row) (key : RowKey) :
    names.insertUnder c table row key parent = names.insertUnder c table row key parent' := by
  have hcheck : checkChild c table row key parent = checkChild c table row key parent' := by
    simp only [checkChild, if_neg (Cache.selector_ne_of_parentId h), if_neg (Cache.selector_ne_of_parentId h'), h, h',
      Cache.childrenMeeting, htable, hcolumn]
  simp only [insertUnder, hcheck, Operation.attach, htable, hcolumn]

namespace VirtualNetwork

/-- The tables whose rows hold rules, with the column that holds them. -/
def ruleHolders : List (String × String) := [(switchModel.table, ruleColumn), (groupModel.table, ruleColumn)]

/-- The row is a switch or a group of ports, and its name is the text, or the set of that text alone. -/
def Bears (c : Cache) (name : String) (hit : String × RowId) : Prop :=
  (hit.1 = switchModel.table ∨ hit.1 = groupModel.table) ∧
    ∃ row, c.row? hit.1 hit.2 = some row ∧
      (row.get? "name" = some (.string name) ∨ row.get? "name" = some (.set [.string name]))

/-- The rows that are looked for by a name are those that bear it. -/
theorem isCandidate_named_iff {c : Cache} {name : String} {hit : String × String × RowId} :
    c.IsCandidate ruleHolders (named name) hit ↔ hit.2.1 = ruleColumn ∧ Bears c name (hit.1, hit.2.2) := by
  obtain ⟨table, column, id⟩ := hit
  have hnamed : ∀ row : Row, row.meets id (named name) = true ↔
      row.get? "name" = some (.string name) ∨ row.get? "name" = some (.set [.string name]) := by
    intro row
    rw [Row.meets_named_iff]
    cases row.get? "name" with
    | none => simp [Value.meets, Value.holdsNothing]
    | some v => simp [Value.meets_string_iff]
  simp only [Cache.IsCandidate, Cache.Matches, Bears, ruleHolders, hnamed, List.mem_cons, Prod.mk.injEq, List.not_mem_nil, or_false,
    ← or_and_right]
  rw [and_comm (b := column = ruleColumn), and_assoc]

namespace RuleSite

/-- The sites that say outright which row they are: the row by its identifier, and the name in the table of the row. -/
inductive Spells : String → RowId → String → RuleSite → Prop where
  | row (table : String) (id : RowId) (name : String) : Spells table id name (.row table id)
  | switch (id : RowId) (name : String) : Spells switchModel.table id name (.switch name)
  | group (id : RowId) (name : String) : Spells groupModel.table id name (.group name)

variable {c : Cache} {table name : String} {id : RowId} {site : RuleSite}

/-! ## What a name is found to be -/

theorem parent_anyNamed (c : Cache) (name : String) : (anyNamed name).parent c = c.onlyParent ruleHolders (named name) := rfl

/-- The tables that rules hang from are different. -/
theorem tables_ruleHolders : (ruleHolders.map (·.1)).Nodup := by decide

/-- A name without a table stands for the row that alone bears it. -/
theorem parent_anyNamed_eq_ok_iff {parent : Parent} :
    (anyNamed name).parent c = .ok parent ↔
      ∃ table id, parent = ⟨table, ruleColumn, .id id⟩ ∧ ∀ hit, Bears c name hit ↔ hit = (table, id) := by
  rw [parent_anyNamed, Cache.onlyParent_eq_ok_iff rfl (by decide) tables_ruleHolders]
  simp only [isCandidate_named_iff]
  constructor
  · rintro ⟨table, column, id, rfl, honly⟩
    obtain ⟨rfl, -⟩ := (honly (table, column, id)).mpr rfl
    refine ⟨table, id, rfl, fun hit => ?_⟩
    simpa [Prod.ext_iff] using honly (hit.1, ruleColumn, hit.2)
  · rintro ⟨table, id, rfl, honly⟩
    refine ⟨table, ruleColumn, id, rfl, fun hit => ?_⟩
    simp only [honly, Prod.ext_iff]
    tauto

/-- A name without a table is missing exactly when no row bears it. -/
theorem parent_anyNamed_eq_missing_iff :
    (anyNamed name).parent c = .error (.missing [switchModel.table, groupModel.table] (.key (named name))) ↔
      ∀ hit, ¬Bears c name hit := by
  refine (Cache.onlyParent_eq_missing_iff rfl (by decide) tables_ruleHolders).trans ?_
  simp only [isCandidate_named_iff]
  refine ⟨fun hnone hit hbears => ?_, fun hnone hit hcandidate => hnone _ hcandidate.2⟩
  exact hnone (hit.1, ruleColumn, hit.2) ⟨rfl, hbears⟩

/-- A name that several rows bear is refused, with all of them listed once. -/
theorem parent_anyNamed_of_several {hit hit' : String × RowId} (h : Bears c name hit) (h' : Bears c name hit') (hne : hit ≠ hit') :
    ∃ hits, (anyNamed name).parent c = .error (.several none (named name) hits) ∧ hits.Nodup ∧
      ∀ hit, hit ∈ hits ↔ Bears c name hit := by
  have hcandidate : ∀ hit, Bears c name hit → c.IsCandidate ruleHolders (named name) (hit.1, ruleColumn, hit.2) :=
    fun hit hbears => isCandidate_named_iff.mpr ⟨rfl, hbears⟩
  obtain ⟨hits, hanswer, hnodup, hmem⟩ := Cache.onlyParent_of_several rfl (by decide) tables_ruleHolders (hcandidate hit h)
    (hcandidate hit' h') (by simpa [Prod.ext_iff] using hne)
  refine ⟨_, hanswer, hnodup, fun hit => ?_⟩
  simp only [List.mem_map, hmem, isCandidate_named_iff]
  constructor
  · rintro ⟨_, ⟨-, hbears⟩, rfl⟩
    exact hbears
  · exact fun hbears => ⟨(hit.1, ruleColumn, hit.2), ⟨rfl, hbears⟩, rfl⟩

/-! ## Sites that are the same row -/

/-- A row that alone bears a name is found by every site that says outright which row it is. -/
theorem Spells.exists_parent (h : Spells table id name site) (honly : ∀ hit, Bears c name hit ↔ hit = (table, id)) :
    ∃ parent : Parent, site.parent c = .ok parent ∧ parent.table = table ∧ parent.column = ruleColumn ∧
      c.parentId parent none = .ok id := by
  obtain ⟨htable, row, hrow, -⟩ := (honly (table, id)).mpr rfl
  have hmatches : ∀ other, c.Matches table (named name) other ↔ other = id := by
    intro other
    have hother : c.IsCandidate ruleHolders (named name) (table, ruleColumn, other) ↔ other = id := by
      simp [isCandidate_named_iff, honly]
    have hcandidate : (table, ruleColumn) ∈ ruleHolders := by
      rcases htable with rfl | rfl <;> simp [ruleHolders]
    simpa [Cache.IsCandidate, hcandidate] using hother
  have hfound : c.onlyRow table (named name) = .ok id := Cache.onlyRow_eq_ok_iff.mpr ⟨rfl, hmatches⟩
  cases h with
  | row =>
    refine ⟨⟨table, ruleColumn, .id id⟩, by simp [RuleSite.parent, htable], rfl, rfl, ?_⟩
    exact map_eq_ok_iff.mpr ⟨row, Cache.row_eq_ok_iff.mpr hrow, rfl⟩
  | switch => exact ⟨_, rfl, rfl, rfl, hfound⟩
  | group => exact ⟨_, rfl, rfl, rfl, hfound⟩

section

variable {site' : RuleSite} {parent parent' : Parent}

/-- A rule is hung alike from two sites that are found to be one row. -/
theorem insertRule_congr (h : site.parent c = .ok parent) (h' : site'.parent c = .ok parent') (htable : parent.table = parent'.table)
    (hcolumn : parent.column = parent'.column) (hid : c.parentId parent none = .ok id) (hid' : c.parentId parent' none = .ok id)
    (schema : Schema) (names : NameSupply) (rule : AccessRule) :
    insertRule schema c names site rule = insertRule schema c names site' rule := by
  simp only [insertRule, h, h']
  show (schema.encode rule.toRecord >>= _) = (schema.encode rule.toRecord >>= _)
  simp only [NameSupply.insertUnder_congr htable hcolumn hid hid']

/-- A rule is taken alike from two sites that are found to be one row. -/
theorem deleteRule_congr (h : site.parent c = .ok parent) (h' : site'.parent c = .ok parent') (htable : parent.table = parent'.table)
    (hcolumn : parent.column = parent'.column) (hid : c.parentId parent none = .ok id) (hid' : c.parentId parent' none = .ok id)
    (direction : String) (priority : Int64) (packets : String) :
    deleteRule c site direction priority packets = deleteRule c site' direction priority packets := by
  simp only [deleteRule, h, h']
  exact Cache.removeChild_congr htable hcolumn hid hid'

end

/-- A name without a table stands for the row that alone bears it among the switches and the groups of ports, in whatever of these tables
are known. It is missing when no row bears it, and when several do they are all listed. Once it stands for a row, a rule is added or
removed through it as through the identifier of the row or through the name in the table of the row. -/
theorem resolves_only_alone (c : Cache) (name : String) :
    (∀ parent, (anyNamed name).parent c = .ok parent ↔
      ∃ table id, parent = ⟨table, ruleColumn, .id id⟩ ∧ ∀ hit, Bears c name hit ↔ hit = (table, id)) ∧
    ((anyNamed name).parent c = .error (.missing [switchModel.table, groupModel.table] (.key (named name))) ↔
      ∀ hit, ¬Bears c name hit) ∧
    (∀ hit hit', Bears c name hit → Bears c name hit' → hit ≠ hit' →
      ∃ hits, (anyNamed name).parent c = .error (.several none (named name) hits) ∧ hits.Nodup ∧ ∀ hit, hit ∈ hits ↔ Bears c name hit) ∧
    ∀ table id, (anyNamed name).parent c = .ok ⟨table, ruleColumn, .id id⟩ → ∀ site, Spells table id name site →
      (∀ schema names rule, insertRule schema c names site rule = insertRule schema c names (.anyNamed name) rule) ∧
      ∀ direction priority packets,
        deleteRule c site direction priority packets = deleteRule c (.anyNamed name) direction priority packets := by
  refine ⟨fun _ => parent_anyNamed_eq_ok_iff, parent_anyNamed_eq_missing_iff, fun _ _ => parent_anyNamed_of_several, ?_⟩
  intro table id hparent site hsite
  obtain ⟨_, _, heq, honly⟩ := parent_anyNamed_eq_ok_iff.mp hparent
  cases heq
  obtain ⟨parent, hsiteParent, htable, hcolumn, hid⟩ := hsite.exists_parent honly
  obtain ⟨parent', hrowParent, -, -, hid'⟩ := (Spells.row table id name).exists_parent honly
  obtain rfl : parent' = ⟨table, ruleColumn, .id id⟩ := by
    simp only [RuleSite.parent] at hrowParent
    split at hrowParent <;> cases hrowParent
    rfl
  exact ⟨insertRule_congr hsiteParent hparent htable hcolumn hid hid', deleteRule_congr hsiteParent hparent htable hcolumn hid hid'⟩

/-- A switch, a group of ports and, each in one of the two tables, two rows that share a name. -/
def fourSites : Cache :=
  let id := Draws.rowIds 0
  ⟨.ofList [(switchModel.table, .ofList [(id 0, named "a"), (id 1, named "shared")]),
    (groupModel.table, .ofList [(id 2, .singleton "name" (.set [.string "b"])), (id 3, named "shared")])]⟩

/-- The group `b` is found by its name, which stands for it; the name `shared` stands for no row, and both rows are listed. -/
theorem resolves_fourSites :
    (anyNamed "b").parent fourSites = .ok ⟨groupModel.table, ruleColumn, .id (Draws.rowIds 0 2)⟩ ∧
      (∀ schema names rule, insertRule schema fourSites names (.group "b") rule =
        insertRule schema fourSites names (.anyNamed "b") rule) ∧
      ∃ hits, (anyNamed "shared").parent fourSites = .error (.several none (named "shared") hits) ∧
        ∀ hit, hit ∈ hits ↔ Bears fourSites "shared" hit := by
  have hfound : (anyNamed "b").parent fourSites = .ok ⟨groupModel.table, ruleColumn, .id (Draws.rowIds 0 2)⟩ := by decide +kernel
  have hswitch : fourSites.row? switchModel.table (Draws.rowIds 0 1) = some (named "shared") := by decide +kernel
  have hgroup : fourSites.row? groupModel.table (Draws.rowIds 0 3) = some (named "shared") := by decide +kernel
  obtain ⟨-, -, -, halike⟩ := resolves_only_alone fourSites "b"
  obtain ⟨-, -, hseveral, -⟩ := resolves_only_alone fourSites "shared"
  obtain ⟨hits, hanswer, -, hmem⟩ := hseveral (switchModel.table, Draws.rowIds 0 1) (groupModel.table, Draws.rowIds 0 3)
    ⟨Or.inl rfl, _, hswitch, Or.inl rfl⟩ ⟨Or.inr rfl, _, hgroup, Or.inl rfl⟩ (by decide)
  exact ⟨hfound, (halike _ _ hfound (.group "b") (.group _ "b")).1, hits, hanswer, hmem⟩

end RuleSite

end VirtualNetwork

end TableReplica
