import TableReplica.Error

/-!
# Steps that may fail

What the success of a chain of steps says: every step succeeded, and the chain gave what its last step gave.
-/

namespace TableReplica

variable {ε α β γ : Type}

theorem map_eq_ok_iff {x : Except ε α} {f : α → β} {b : β} : x.map f = .ok b ↔ ∃ a, x = .ok a ∧ f a = b := by
  cases x <;> simp [Except.map]

theorem Except.toOption_eq_some_iff {x : Except ε α} {a : α} : x.toOption = some a ↔ x = .ok a := by
  cases x <;> simp [Except.toOption]

/-- Two steps give a result exactly when the first does and the second does with it. -/
theorem bind_eq_ok_iff {x : Except ε α} {f : α → Except ε β} {b : β} :
    (x >>= f) = .ok b ↔ ∃ a, x = .ok a ∧ f a = .ok b := by
  cases x <;> simp [bind, Except.bind]

/-- Two steps fail exactly when the first does, or the second does with the result of the first. -/
theorem bind_eq_error_iff {x : Except ε α} {f : α → Except ε β} {e : ε} :
    (x >>= f) = .error e ↔ x = .error e ∨ ∃ a, x = .ok a ∧ f a = .error e := by
  cases x <;> simp [bind, Except.bind]

/-- All items of a list are taken through a step exactly when the step takes each of them. -/
theorem mapM_eq_ok_iff {f : α → Except ε β} {items : List α} {results : List β} :
    items.mapM f = .ok results ↔ items.map f = results.map .ok := by
  induction items generalizing results with
  | nil => cases results <;> simp [pure, Except.pure]
  | cons item rest ih =>
    rw [List.mapM_cons, bind_eq_ok_iff]
    constructor
    · rintro ⟨b, hb, h⟩
      obtain ⟨bs, hbs, h⟩ := bind_eq_ok_iff.mp h
      cases h
      rw [List.map_cons, List.map_cons, hb, ih.mp hbs]
    · intro h
      cases results with
      | nil => cases h
      | cons b bs =>
        obtain ⟨hb, hbs⟩ := List.cons.inj h
        exact ⟨b, hb, bind_eq_ok_iff.mpr ⟨bs, ih.mpr hbs, rfl⟩⟩

/-- What a step gives for the items of a list, it gives for them one by one. -/
theorem exists_of_mem_mapM {f : α → Except ε β} {items : List α} {results : List β} (h : items.mapM f = .ok results) {b : β}
    (hb : b ∈ results) : ∃ a ∈ items, f a = .ok b := by
  have hmem : Except.ok b ∈ items.map f := by
    rw [mapM_eq_ok_iff.mp h]
    exact List.mem_map_of_mem hb
  obtain ⟨a, ha, hab⟩ := List.mem_map.mp hmem
  exact ⟨a, ha, hab⟩

/-- The results over a list are those of its members. -/
theorem mem_of_mapM_eq_ok {f : α → Except ε β} {items : List α} {results : List β} (h : items.mapM f = .ok results) (b : β) :
    b ∈ results ↔ ∃ a ∈ items, f a = .ok b := by
  rw [← List.mem_map, mapM_eq_ok_iff.mp h, List.mem_map]
  simp

/-- There are results over a list when there is one for each member. -/
theorem exists_mapM_eq_ok {f : α → Except ε β} {items : List α} (h : ∀ item ∈ items, ∃ b, f item = .ok b) :
    ∃ results, items.mapM f = .ok results := by
  induction items with
  | nil => exact ⟨[], rfl⟩
  | cons item rest ih =>
    obtain ⟨hitem, hrest⟩ := List.forall_mem_cons.mp h
    obtain ⟨b, hb⟩ := hitem
    obtain ⟨bs, hbs⟩ := ih hrest
    exact ⟨b :: bs, by rw [List.mapM_cons, hb, hbs]; rfl⟩

/-- Steps that give the same up to `g` for each item give the same up to `g` for the list. -/
theorem map_mapM_congr {f f' : α → Except ε β} (g : β → γ) {items : List α}
    (h : ∀ item ∈ items, (f item).map g = (f' item).map g) :
    (items.mapM f).map (List.map g) = (items.mapM f').map (List.map g) := by
  induction items with
  | nil => rfl
  | cons item rest ih =>
    obtain ⟨hitem, hrest⟩ := List.forall_mem_cons.mp h
    have ih := ih hrest
    rw [List.mapM_cons, List.mapM_cons]
    cases hf : f item with
    | error e => cases hf' : f' item <;> simp_all [Except.map, bind, Except.bind]
    | ok b =>
      cases hf' : f' item with
      | error e => simp [hf, hf', Except.map] at hitem
      | ok b' =>
        cases hr : rest.mapM f <;> cases hr' : rest.mapM f' <;>
          simp_all [Except.map, bind, Except.bind, pure, Except.pure]

/-- Something is read of every item of a list exactly when the list of what is read is all there. -/
theorem mapM_eq_some_iff {read : α → Option β} {items : List α} {results : List β} :
    items.mapM read = some results ↔ items.map read = results.map some := by
  induction items generalizing results with
  | nil => cases results <;> simp
  | cons item rest ih =>
    rw [List.mapM_cons]
    cases hitem : read item with
    | none => cases results <;> simp [hitem]
    | some b =>
      cases results with
      | nil => cases hrest : rest.mapM read <;> simp
      | cons b' results => cases hrest : rest.mapM read <;> simp_all

/-- What is read of a list is what is read of its members. -/
theorem mem_of_mapM_eq_some {read : α → Option β} {items : List α} {results : List β} (h : items.mapM read = some results) (b : β) :
    b ∈ results ↔ ∃ a ∈ items, read a = some b := by
  rw [← List.mem_map, mapM_eq_some_iff.mp h, List.mem_map]
  simp

theorem exists_mapM_eq_some {read : α → Option β} {items : List α} (h : ∀ item ∈ items, ∃ b, read item = some b) :
    ∃ results, items.mapM read = some results := by
  induction items with
  | nil => exact ⟨[], rfl⟩
  | cons item rest ih =>
    obtain ⟨hitem, hrest⟩ := List.forall_mem_cons.mp h
    obtain ⟨b, hb⟩ := hitem
    obtain ⟨bs, hbs⟩ := ih hrest
    exact ⟨b :: bs, by rw [List.mapM_cons, hb, hbs]; rfl⟩

/-- A list that is read item by item goes through steps that succeed on what is read. -/
theorem mapM_eq_ok_of_mapM_eq_some {read : α → Option β} {step : α → Except ε γ} {make : β → γ}
    (hstep : ∀ a b, read a = some b → step a = .ok (make b)) {items : List α} {results : List β} (h : items.mapM read = some results) :
    items.mapM step = .ok (results.map make) := by
  rw [mapM_eq_some_iff] at h
  rw [mapM_eq_ok_iff]
  induction items generalizing results with
  | nil =>
    cases results with
    | nil => rfl
    | cons b bs => cases h
  | cons a rest ih =>
    cases results with
    | nil => cases h
    | cons b bs =>
      obtain ⟨hfirst, hrest⟩ := List.cons.inj h
      rw [List.map_cons, List.map_cons, List.map_cons, hstep a b hfirst, ih hrest]

/-- What keeps to its contract is had as it is. -/
theorem asError_eq_ok_iff {x : Except Violation α} {a : α} : asError x = .ok a ↔ x = .ok a := by
  cases x <;> simp [asError]

end TableReplica
