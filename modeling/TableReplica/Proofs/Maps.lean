import Mathlib.Algebra.GroupWithZero.Nat
import TableReplica.SortedMap.Lemmas

/-!
# More about sorted maps

What `SortedMap.Lemmas` says of look-ups, said of whole maps: which maps are empty, what an inserted list of entries overwrites, when
the steps of `filterMapOk` all succeed, how maps that agree value by value are related, and which keys and how many entries there are.
-/

namespace TableReplica.SortedMap

variable {κ α β γ : Type} [LT κ] [DecidableEq κ]

/-- The key of the first entry is not among the others. -/
theorem lookup_tail_eq_none [KeyOrder κ] {e : κ × α} {rest : List (κ × α)}
    (h : (e :: rest).Pairwise (fun a b => a.1 < b.1)) : rest.lookup e.1 = none := by
  obtain ⟨hhead, htail⟩ := List.pairwise_cons.mp h
  rw [Option.eq_none_iff_forall_ne_some]
  intro v hv
  exact KeyOrder.irrefl _ (hhead (e.1, v) ((lookup_eq_some_iff htail).mp hv))

theorem isEmpty_iff [KeyOrder κ] (m : SortedMap κ α) : m.isEmpty = true ↔ ∀ k, m.get? k = none := by
  rw [isEmpty, List.isEmpty_iff]
  constructor
  · intro h k
    rw [get?, h]
    rfl
  · intro h
    cases hm : m.entries with
    | nil => rfl
    | cons e rest =>
      have he : (e.1, e.2) ∈ m.entries := by rw [hm]; exact List.mem_cons_self
      rw [mem_entries_iff, h] at he
      cases he

/-- The values of a map are those that a key has. -/
theorem mem_values_iff [KeyOrder κ] {m : SortedMap κ α} {v : α} : v ∈ m.values ↔ ∃ k, m.get? k = some v := by
  rw [values, List.mem_map]
  constructor
  · rintro ⟨e, he, rfl⟩
    exact ⟨e.1, mem_entries_iff.mp he⟩
  · rintro ⟨k, hk⟩
    exact ⟨(k, v), mem_entries_iff.mpr hk, rfl⟩

/-- After an insertion the new key has the new value, and every other key what it had or the default. -/
theorem getD_insert [DecidableLT κ] [KeyOrder κ] (m : SortedMap κ α) (k k' : κ) (v d : α) :
    (m.insert k v).getD k' d = if k = k' then v else m.getD k' d := by
  rw [getD, getD, get?_insert]
  split <;> rfl

/-- What one list of entries inserts after another, a third look-up sees last. -/
theorem get?_insertAll [DecidableLT κ] [KeyOrder κ] (m : SortedMap κ α) (changes : SortedMap κ α) (k : κ) :
    (m.insertAll changes.entries).get? k = (changes.get? k).or (m.get? k) := by
  obtain ⟨es, hes⟩ := changes
  show (es.foldl (fun m e => m.insert e.1 e.2) m).get? k = (es.lookup k).or (m.get? k)
  induction es generalizing m with
  | nil => simp
  | cons e rest ih =>
    rw [List.foldl_cons, ih _ hes.of_cons, get?_insert, lookup_cons_eq]
    by_cases hk : e.1 = k
    · subst hk
      simp [lookup_tail_eq_none hes]
    · simp [hk, Ne.symm hk]

omit [LT κ] in
/-- What is the same for values that agree is the same for entries that agree. -/
theorem map_eq_of_entriesAgree {same : α → α → Bool} {f : α → β} (hf : ∀ a b, same a b = true → f a = f b)
    {as bs : List (κ × α)} (h : entriesAgree same as bs = true) :
    as.map (fun e => (e.1, f e.2)) = bs.map (fun e => (e.1, f e.2)) := by
  induction as generalizing bs with
  | nil =>
    cases bs with
    | nil => rfl
    | cons b bs => simp [entriesAgree] at h
  | cons a as ih =>
    cases bs with
    | nil => simp [entriesAgree] at h
    | cons b bs =>
      simp only [entriesAgree, Bool.and_eq_true, decide_eq_true_eq] at h
      rw [List.map_cons, List.map_cons, h.1.1, hf _ _ h.1.2, ih h.2]

/-- Maps whose values agree pair by pair are the same up to what agreeing values have in common. -/
theorem map_eq_of_agrees {same : α → α → Bool} {f : α → β} (hf : ∀ a b, same a b = true → f a = f b) {m m' : SortedMap κ α}
    (h : m.agrees same m' = true) : m.map (fun _ => f) = m'.map (fun _ => f) :=
  eq_of_entries_eq (map_eq_of_entriesAgree hf h)

/-- The entries of a map taken one by one: at a key stands what becomes of its value. -/
theorem filter_filterMap_entries [KeyOrder κ] {f : κ → α → Option β} {key : β → κ} (hf : ∀ k v b, f k v = some b → key b = k)
    (m : SortedMap κ α) (k : κ) :
    (m.entries.filterMap (fun e => f e.1 e.2)).filter (fun b => decide (key b = k)) = ((m.get? k).bind (f k)).toList := by
  obtain ⟨es, hes⟩ := m
  simp only [get?]
  induction es with
  | nil => rfl
  | cons e rest ih =>
    have ih := ih hes.of_cons
    rw [List.filterMap_cons, lookup_cons_eq]
    by_cases hk : k = e.1
    · subst hk
      rw [lookup_tail_eq_none hes] at ih
      cases hfe : f e.1 e.2 with
      | none => simpa [hfe] using ih
      | some b => simpa [hfe, hf _ _ _ hfe] using ih
    · cases hfe : f e.1 e.2 with
      | none => simpa [hfe, hk] using ih
      | some b => simpa [hfe, hf _ _ _ hfe, hk, Ne.symm hk] using ih

/-- When every step succeeds the map is replaced by what the steps give. -/
theorem filterMapOk_of_forall_ok [KeyOrder κ] {ε : Type} {f : κ → α → Except ε (Option β)} {g : κ → α → Option β} {m : SortedMap κ α}
    (h : ∀ e ∈ m.entries, f e.1 e.2 = .ok (g e.1 e.2)) : m.filterMapOk f = .ok (m.filterMap g) := by
  unfold filterMapOk
  split
  · rename_i err herr
    obtain ⟨e, he, hfe⟩ := List.exists_of_findSome?_eq_some herr
    rw [h e he] at hfe
    cases hfe
  · congr 1
    apply ext_get?
    intro k
    rw [get?_filterMap, get?_filterMap]
    cases hm : m.get? k with
    | none => rfl
    | some v => simp [h (k, v) (mem_entries_iff.mpr hm)]

omit [DecidableEq κ] in
/-- The steps succeed on a map exactly when each of them succeeds. -/
theorem filterMapOk_isOk_iff {ε : Type} {f : κ → α → Except ε (Option β)} {m : SortedMap κ α} :
    (m.filterMapOk f).isOk = true ↔ ∀ e ∈ m.entries, (f e.1 e.2).isOk = true := by
  unfold filterMapOk
  split
  · rename_i err herr
    obtain ⟨e, he, hfe⟩ := List.exists_of_findSome?_eq_some herr
    constructor
    · intro h
      cases h
    · intro h
      have hok := h e he
      cases hstep : f e.1 e.2 <;> simp [hstep, Except.isOk, Except.toBool] at hok hfe
  · rename_i hnone
    refine ⟨fun _ => ?_, fun _ => rfl⟩
    intro e he
    have hstep := List.findSome?_eq_none_iff.mp hnone e he
    cases hfe : f e.1 e.2 with
    | error err => simp [hfe] at hstep
    | ok b => rfl

/-- What stands in the result of steps that all succeed is what a step gave. -/
theorem exists_of_filterMapOk [KeyOrder κ] {ε : Type} {f : κ → α → Except ε (Option β)} {m : SortedMap κ α} {m' : SortedMap κ β}
    (h : m.filterMapOk f = .ok m') {k : κ} {b : β} (hb : m'.get? k = some b) : ∃ v, m.get? k = some v ∧ f k v = .ok (some b) := by
  unfold filterMapOk at h
  split at h
  · cases h
  · cases h
    rw [get?_filterMap] at hb
    obtain ⟨v, hv, hfv⟩ := Option.bind_eq_some_iff.mp hb
    refine ⟨v, hv, ?_⟩
    cases hstep : f k v with
    | error err => simp only [hstep, reduceCtorEq] at hfv
    | ok result => exact congrArg Except.ok (by simpa only [hstep] using hfv)

/-- Inserting several entries leaves every other key what it had. -/
theorem get?_insertAll_of_not_mem [DecidableLT κ] [KeyOrder κ] (m : SortedMap κ α) {es : List (κ × α)} {k : κ}
    (h : k ∉ es.map (·.1)) : (m.insertAll es).get? k = m.get? k := by
  induction es generalizing m with
  | nil => rfl
  | cons e rest ih =>
    rw [List.map_cons, List.mem_cons, not_or] at h
    exact (ih (m.insert e.1 e.2) h.2).trans (get?_insert_of_ne m e.2 (Ne.symm h.1))

/-- A map made of entries with distinct keys has each of them. -/
theorem get?_ofList_of_mem [DecidableLT κ] [KeyOrder κ] {es : List (κ × α)} (hnodup : (es.map (·.1)).Nodup) {k : κ} {v : α}
    (h : (k, v) ∈ es) : (ofList es).get? k = some v := by
  rw [ofList]
  generalize (empty : SortedMap κ α) = m
  induction es generalizing m with
  | nil => cases h
  | cons e rest ih =>
    rw [List.map_cons, List.nodup_cons] at hnodup
    rcases List.mem_cons.mp h with rfl | h
    · exact (get?_insertAll_of_not_mem (m.insert k v) hnodup.1).trans (get?_insert_self m k v)
    · exact ih hnodup.2 h (m.insert e.1 e.2)

/-- A map of some entries says nothing of other keys. -/
theorem get?_ofList_of_not_mem [DecidableLT κ] [KeyOrder κ] {es : List (κ × α)} {k : κ} (h : k ∉ es.map (·.1)) :
    (ofList es).get? k = none :=
  get?_insertAll_of_not_mem empty h

/-- A map of entries with different keys holds each of them. -/
theorem get?_ofList_eq_some_iff [DecidableLT κ] [KeyOrder κ] {es : List (κ × α)} (hnodup : (es.map (·.1)).Nodup) {k : κ} {v : α} :
    (ofList es).get? k = some v ↔ (k, v) ∈ es := by
  refine ⟨fun h => ?_, get?_ofList_of_mem hnodup⟩
  by_cases hk : k ∈ es.map (·.1)
  · obtain ⟨e, he, rfl⟩ := List.mem_map.mp hk
    rw [get?_ofList_of_mem hnodup (show (e.1, e.2) ∈ es from he)] at h
    exact Option.some.inj h ▸ he
  · rw [get?_ofList_of_not_mem hk] at h
    cases h

/-- A map of entries with different keys contains these keys. -/
theorem contains_ofList_iff [DecidableLT κ] [KeyOrder κ] {es : List (κ × α)} (hnodup : (es.map (·.1)).Nodup) {k : κ} :
    (ofList es).contains k = true ↔ k ∈ es.map (·.1) := by
  rw [contains_iff, List.mem_map]
  constructor
  · rintro ⟨v, hv⟩
    exact ⟨(k, v), (get?_ofList_eq_some_iff hnodup).mp hv, rfl⟩
  · rintro ⟨e, he, rfl⟩
    exact ⟨e.2, get?_ofList_of_mem hnodup he⟩

/-- Of a list of entries only its last ones for each key matter. -/
theorem get?_insertAll_list [DecidableLT κ] [KeyOrder κ] (m : SortedMap κ α) (es : List (κ × α)) (k : κ) :
    (m.insertAll es).get? k = ((ofList es).get? k).or (m.get? k) := by
  induction es generalizing m with
  | nil => rfl
  | cons e rest ih =>
    have htail : (ofList (e :: rest)).get? k = ((ofList rest).get? k).or ((empty.insert e.1 e.2).get? k) := ih (empty.insert e.1 e.2)
    rw [htail, Option.or_assoc]
    refine (ih (m.insert e.1 e.2)).trans ?_
    congr 1
    rw [get?_insert, get?_insert]
    split <;> rfl

/-- An entry with a key of its own may be inserted first or last. -/
theorem ofList_cons_of_not_mem [DecidableLT κ] [KeyOrder κ] {e : κ × α} {es : List (κ × α)} (h : e.1 ∉ es.map (·.1)) :
    ofList (e :: es) = (ofList es).insert e.1 e.2 := by
  apply ext_get?
  intro k
  rw [show ofList (e :: es) = (empty.insert e.1 e.2).insertAll es from rfl, get?_insertAll_list, get?_insert, get?_insert]
  by_cases hk : e.1 = k
  · subst hk
    rw [get?_ofList_of_not_mem h, if_pos rfl, if_pos rfl, Option.none_or]
  · rw [if_neg hk, if_neg hk]
    exact Option.or_none

/-- Entries may be sorted before they are inserted. -/
theorem insertAll_entries_ofList [DecidableLT κ] [KeyOrder κ] (m : SortedMap κ α) (es : List (κ × α)) :
    m.insertAll (ofList es).entries = m.insertAll es := by
  apply ext_get?
  intro k
  rw [get?_insertAll, get?_insertAll_list]

/-! ## Keys and entries -/

omit [DecidableEq κ] in
theorem nodup_keys [KeyOrder κ] (m : SortedMap κ α) : m.keys.Nodup := by
  rw [keys, List.Nodup, List.pairwise_map]
  refine m.ordered.imp ?_
  intro a b hlt heq
  exact KeyOrder.irrefl a.1 (heq ▸ hlt)

omit [DecidableEq κ] in
theorem nodup_entries [KeyOrder κ] (m : SortedMap κ α) : m.entries.Nodup :=
  (List.pairwise_map.mp m.nodup_keys).imp (fun hne heq => hne (congrArg Prod.fst heq))

/-- The keys of a map depend on which they are. -/
theorem keys_congr [KeyOrder κ] {m : SortedMap κ α} {m' : SortedMap κ β} (h : ∀ k, k ∈ m.keys ↔ k ∈ m'.keys) : m.keys = m'.keys := by
  have hkeys : ∀ {γ : Type} (m : SortedMap κ γ), (m.map (fun _ _ => ())).keys = m.keys := by
    intro γ m
    rw [keys, map, List.map_map]
    rfl
  rw [← hkeys m, ← hkeys m']
  congr 1
  apply ext_get?
  intro k
  rw [get?_map, get?_map]
  have hk := h k
  rw [mem_keys_iff, mem_keys_iff] at hk
  cases hget : m.get? k with
  | none =>
    cases hget' : m'.get? k with
    | none => rfl
    | some v => rw [hget, hget'] at hk; simp at hk
  | some v =>
    obtain ⟨v', hv'⟩ := hk.mp ⟨v, hget⟩
    rw [hv']
    rfl

/-- Removing a key that has no value removes nothing. -/
theorem erase_of_get?_eq_none [KeyOrder κ] {m : SortedMap κ α} {k : κ} (h : m.get? k = none) : m.erase k = m := by
  apply ext_get?
  intro k'
  rw [get?_erase]
  split
  · rename_i heq
    rw [← heq, h]
  · rfl

/-- An entry stands in front of the others, up to the order. -/
theorem perm_of_get? [KeyOrder κ] {m : SortedMap κ α} {k : κ} {v : α} (h : m.get? k = some v) :
    m.entries.Perm ((k, v) :: (m.erase k).entries) := by
  have hnotin : (k, v) ∉ (m.erase k).entries := by
    rw [mem_entries_iff, get?_erase, if_pos rfl]
    simp
  rw [List.perm_ext_iff_of_nodup m.nodup_entries (List.nodup_cons.mpr ⟨hnotin, (m.erase k).nodup_entries⟩)]
  intro e
  rw [List.mem_cons, mem_entries_iff, mem_entries_iff, get?_erase]
  by_cases hk : k = e.1
  · rw [if_pos hk, ← hk, h, Prod.ext_iff]
    simp [hk, eq_comm]
  · rw [if_neg hk, Prod.ext_iff]
    simp [Ne.symm hk]

variable [DecidableLT κ] [KeyOrder κ]

/-- An insertion is undone by a removal, up to what the key had before. -/
theorem erase_insert (m : SortedMap κ α) (k : κ) (v : α) : (m.insert k v).erase k = m.erase k := by
  apply ext_get?
  intro k'
  rw [get?_erase, get?_erase, get?_insert]
  split <;> rfl

/-- Of two insertions of a key the later one counts. -/
theorem insert_insert (m : SortedMap κ α) (k : κ) (v v' : α) : (m.insert k v).insert k v' = m.insert k v' := by
  apply ext_get?
  intro k'
  rw [get?_insert, get?_insert, get?_insert]
  split <;> rfl

/-- Putting in what is there changes nothing. -/
theorem insert_of_get? {m : SortedMap κ α} {k : κ} {v : α} (h : m.get? k = some v) : m.insert k v = m := by
  apply ext_get?
  intro k'
  rw [get?_insert]
  split
  · rename_i hk
    rw [← hk, h]
  · rfl

/-- The entries after an insertion are the new one and those of the other keys. -/
theorem perm_insert (m : SortedMap κ α) (k : κ) (v : α) : (m.insert k v).entries.Perm ((k, v) :: (m.erase k).entries) := by
  have h := perm_of_get? (get?_insert_self m k v)
  rwa [erase_insert] at h

/-- After an insertion there is one entry more than there are of the other keys. -/
theorem size_insert (m : SortedMap κ α) (k : κ) (v : α) : (m.insert k v).size = (m.erase k).size + 1 :=
  (perm_insert m k v).length_eq

omit [DecidableLT κ] in
/-- A map that has a value for a key has one entry more than it has of the other keys. -/
theorem size_of_get? {m : SortedMap κ α} {k : κ} {v : α} (h : m.get? k = some v) : m.size = (m.erase k).size + 1 :=
  (perm_of_get? h).length_eq

/-- A sum over the values of a map when the value of a key is replaced. -/
theorem sum_insert_of_get? {m : SortedMap κ α} {k : κ} {old : α} (h : m.get? k = some old) (v : α) (f : α → Nat) :
    ((m.insert k v).values.map f).sum + f old = (m.values.map f).sum + f v := by
  have hnew : ((m.insert k v).values.map f).sum = f v + ((m.erase k).values.map f).sum :=
    (((perm_insert m k v).map Prod.snd).map f).sum_nat
  have hold : (m.values.map f).sum = f old + ((m.erase k).values.map f).sum :=
    (((perm_of_get? h).map Prod.snd).map f).sum_nat
  omega

/-- A map is the map of its entries. -/
theorem ofList_entries (m : SortedMap κ α) : ofList m.entries = m := by
  apply ext_get?
  intro k
  rw [ofList, get?_insertAll]
  exact Option.or_none

end TableReplica.SortedMap
