import TableReplica.SortedMap.Basic

/-!
# What a look-up finds

One equation per operation of `SortedMap`, all through `get?`: `get?_insert`, `get?_erase`, `get?_filterMap`, `get?_map`. Two maps
with the same look-ups are equal (`ext_get?`), and an entry is in the list exactly when its key finds its value
(`mem_entries_iff`).
-/

namespace TableReplica.SortedMap

variable {κ α β : Type} [LT κ] [DecidableEq κ]

@[simp] theorem get?_empty (k : κ) : (empty : SortedMap κ α).get? k = none := rfl

omit [LT κ] in
/-- A look-up takes the first entry of its key. -/
theorem lookup_cons_eq (e : κ × α) (rest : List (κ × α)) (k : κ) :
    (e :: rest).lookup k = if k = e.1 then some e.2 else rest.lookup k := by
  obtain ⟨k', v⟩ := e
  rw [List.lookup_cons]
  by_cases h : k = k'
  · subst h; simp
  · rw [beq_eq_false_iff_ne.mpr h]; simp [h]

/-- Looking up in a list with ascending keys finds exactly the entries of the list. -/
theorem lookup_eq_some_iff [KeyOrder κ] {es : List (κ × α)} (h : es.Pairwise (fun a b => a.1 < b.1)) {k : κ} {v : α} :
    es.lookup k = some v ↔ (k, v) ∈ es := by
  induction es with
  | nil => simp
  | cons e rest ih =>
    obtain ⟨hhead, htail⟩ := List.pairwise_cons.mp h
    obtain ⟨k', v'⟩ := e
    rw [lookup_cons_eq]
    by_cases hk : k = k'
    · subst hk
      simp only [if_true, Option.some.injEq, List.mem_cons, Prod.mk.injEq, true_and]
      refine ⟨fun h => Or.inl h.symm, fun h => h.elim Eq.symm fun hm => absurd (hhead _ hm) (KeyOrder.irrefl k)⟩
    · simp [hk, ih htail]

/-- A map holds an entry exactly when its key is looked up as its value. -/
theorem mem_entries_iff [KeyOrder κ] {m : SortedMap κ α} {k : κ} {v : α} : (k, v) ∈ m.entries ↔ m.get? k = some v :=
  (lookup_eq_some_iff m.ordered).symm

/-- After an insertion the new key has the new value, and every other key what it had. -/
theorem get?_insert [DecidableLT κ] [KeyOrder κ] (m : SortedMap κ α) (k k' : κ) (v : α) :
    (m.insert k v).get? k' = if k = k' then some v else m.get? k' := by
  unfold insert get?
  simp only
  induction m.entries with
  | nil =>
    rw [insertEntry, lookup_cons_eq]
    by_cases h : k = k' <;> simp [h, eq_comm]
  | cons e rest ih =>
    rw [insertEntry]
    split
    · rw [lookup_cons_eq]
      by_cases h : k = k' <;> simp [h, eq_comm]
    · split
      · rename_i heq
        subst heq
        simp only [lookup_cons_eq]
        by_cases h : k' = e.1
        · simp [h]
        · have h' : ¬e.1 = k' := fun e' => h e'.symm
          simp [h, h']
      · rename_i hne
        simp only [lookup_cons_eq, ih]
        by_cases he : k' = e.1
        · subst he
          simp [hne]
        · simp [he]

@[simp] theorem get?_insert_self [DecidableLT κ] [KeyOrder κ] (m : SortedMap κ α) (k : κ) (v : α) :
    (m.insert k v).get? k = some v := by
  simp [get?_insert]

theorem get?_insert_of_ne [DecidableLT κ] [KeyOrder κ] (m : SortedMap κ α) {k k' : κ} (v : α) (h : k ≠ k') :
    (m.insert k v).get? k' = m.get? k' := by
  simp [get?_insert, h]

/-- A filtered map keeps the value of a key if the value passes. -/
theorem get?_filter [KeyOrder κ] (p : κ → α → Bool) (m : SortedMap κ α) (k : κ) :
    (m.filter p).get? k = (m.get? k).filter (p k) := by
  apply Option.ext
  intro v
  rw [Option.filter_eq_some_iff, ← mem_entries_iff, ← mem_entries_iff]
  simp [filter]

/-- After a removal the key is gone, and every other key has what it had. -/
theorem get?_erase [KeyOrder κ] (m : SortedMap κ α) (k k' : κ) :
    (m.erase k).get? k' = if k = k' then none else m.get? k' := by
  rw [erase, get?_filter]
  by_cases h : k = k'
  · subst h
    cases m.get? k <;> simp
  · have h' : k' ≠ k := fun e => h e.symm
    cases hm : m.get? k' <;> simp [h, h']

/-- A value is mapped where it stands, and the key is dropped when nothing comes of it. -/
theorem get?_filterMap [KeyOrder κ] (f : κ → α → Option β) (m : SortedMap κ α) (k : κ) :
    (m.filterMap f).get? k = (m.get? k).bind (f k) := by
  apply Option.ext
  intro v
  rw [Option.bind_eq_some_iff, ← mem_entries_iff]
  simp only [filterMap, List.mem_filterMap, Option.map_eq_some_iff, Prod.mk.injEq]
  constructor
  · rintro ⟨⟨k', a⟩, hmem, b, hb, rfl, rfl⟩
    exact ⟨a, mem_entries_iff.mp hmem, hb⟩
  · rintro ⟨a, ha, hb⟩
    exact ⟨(k, a), mem_entries_iff.mpr ha, v, hb, rfl, rfl⟩

theorem get?_map [KeyOrder κ] (f : κ → α → β) (m : SortedMap κ α) (k : κ) :
    (m.map f).get? k = (m.get? k).map (f k) := by
  apply Option.ext
  intro v
  rw [Option.map_eq_some_iff, ← mem_entries_iff]
  simp only [map, List.mem_map, Prod.mk.injEq]
  constructor
  · rintro ⟨⟨k', a⟩, hmem, rfl, rfl⟩
    exact ⟨a, mem_entries_iff.mp hmem, rfl⟩
  · rintro ⟨a, ha, rfl⟩
    exact ⟨(k, a), mem_entries_iff.mpr ha, rfl, rfl⟩

theorem contains_iff [KeyOrder κ] (m : SortedMap κ α) (k : κ) : m.contains k = true ↔ ∃ v, m.get? k = some v := by
  rw [contains, Option.isSome_iff_exists]

theorem mem_keys_iff [KeyOrder κ] (m : SortedMap κ α) (k : κ) : k ∈ m.keys ↔ ∃ v, m.get? k = some v := by
  simp only [keys, List.mem_map]
  constructor
  · rintro ⟨⟨k', v⟩, hmem, rfl⟩
    exact ⟨v, mem_entries_iff.mp hmem⟩
  · rintro ⟨v, hv⟩
    exact ⟨(k, v), mem_entries_iff.mpr hv, rfl⟩

omit [DecidableEq κ] in
/-- Two lists with ascending keys and the same members are equal. -/
theorem eq_of_mem_iff [KeyOrder κ] {as bs : List (κ × α)} (ha : as.Pairwise (fun a b => a.1 < b.1))
    (hb : bs.Pairwise (fun a b => a.1 < b.1)) (h : ∀ x, x ∈ as ↔ x ∈ bs) : as = bs := by
  induction as generalizing bs with
  | nil =>
    cases bs with
    | nil => rfl
    | cons b bs => exact absurd ((h b).mpr List.mem_cons_self) (by simp)
  | cons a as ih =>
    cases bs with
    | nil => exact absurd ((h a).mp List.mem_cons_self) (by simp)
    | cons b bs =>
      obtain ⟨ha1, ha2⟩ := List.pairwise_cons.mp ha
      obtain ⟨hb1, hb2⟩ := List.pairwise_cons.mp hb
      have hab : a = b := by
        rcases List.mem_cons.mp ((h a).mp List.mem_cons_self) with e | hm
        · exact e
        · rcases List.mem_cons.mp ((h b).mpr List.mem_cons_self) with e | hm'
          · exact e.symm
          · exact absurd (KeyOrder.trans (ha1 b hm') (hb1 a hm)) (KeyOrder.irrefl a.1)
      subst hab
      congr 1
      refine ih ha2 hb2 fun x => ⟨fun hx => ?_, fun hx => ?_⟩
      · rcases List.mem_cons.mp ((h x).mp (List.mem_cons_of_mem _ hx)) with e | hm
        · exact absurd (e ▸ ha1 x hx) (KeyOrder.irrefl a.1)
        · exact hm
      · rcases List.mem_cons.mp ((h x).mpr (List.mem_cons_of_mem _ hx)) with e | hm
        · exact absurd (e ▸ hb1 x hx) (KeyOrder.irrefl a.1)
        · exact hm

/-- A map is determined by its look-ups. -/
theorem ext_get? [KeyOrder κ] {m m' : SortedMap κ α} (h : ∀ k, m.get? k = m'.get? k) : m = m' := by
  refine eq_of_entries_eq (eq_of_mem_iff m.ordered m'.ordered fun x => ?_)
  obtain ⟨k, v⟩ := x
  rw [mem_entries_iff, mem_entries_iff, h k]

end TableReplica.SortedMap
