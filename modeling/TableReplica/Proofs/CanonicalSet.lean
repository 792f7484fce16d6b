import TableReplica.Proofs.ValueOrder

/-!
# The one form of a set

Statements about `Value.canonicalItems`. Agreement and equality differ only where real numbers are involved: a definite value agrees
with itself and with nothing else. A set of definite items is determined by its members: its one form is the strictly ascending
list of them (`Value.canonicalItems_eq_of_ascending`), so two lists with the same members make the same set.
-/

namespace TableReplica.Value

/-- The value agrees with itself and with no other value. -/
def Definite (v : Value) : Prop := ∀ w, v.agrees w = true ↔ v = w

/-- A text agrees with itself and nothing else. -/
theorem definite_string (s : String) : Definite (.string s) := by
  intro w
  cases w <;> simp [agrees]

theorem definite_integer (n : Int64) : Definite (.integer n) := by
  intro w
  cases w <;> simp [agrees]

theorem definite_uuid (u : RowId) : Definite (.uuid u) := by
  intro w
  cases w <;> simp [agrees]

/-! ## Dropping repeats -/

/-- Dropping repeats leaves what remains in its order. -/
theorem dropRepeatsAfter_sublist (kept : Value) (items : List Value) : (dropRepeatsAfter kept items).Sublist items := by
  induction items generalizing kept with
  | nil => exact List.Sublist.refl _
  | cons item rest ih =>
    rw [dropRepeatsAfter]
    split
    · exact (ih kept).cons item
    · exact (ih item).cons_cons item

theorem dropRepeats_sublist (items : List Value) : (dropRepeats items).Sublist items := by
  cases items with
  | nil => exact List.Sublist.refl _
  | cons item rest => exact (dropRepeatsAfter_sublist item rest).cons_cons item

theorem dropRepeatsAfter_idem (kept : Value) (items : List Value) :
    dropRepeatsAfter kept (dropRepeatsAfter kept items) = dropRepeatsAfter kept items := by
  induction items generalizing kept with
  | nil => rfl
  | cons item rest ih =>
    rw [dropRepeatsAfter]
    split
    · exact ih kept
    · rename_i hagree
      rw [dropRepeatsAfter, if_neg hagree, ih item]

/-- Dropping repeats a second time drops nothing. -/
theorem dropRepeats_idem (items : List Value) : dropRepeats (dropRepeats items) = dropRepeats items := by
  cases items with
  | nil => rfl
  | cons item rest => rw [dropRepeats, dropRepeats, dropRepeatsAfter_idem]

/-- An item is dropped only after one it equals has been kept. -/
theorem mem_dropRepeatsAfter {kept v : Value} {items : List Value} (hk : kept.Definite) (hd : ∀ item ∈ items, item.Definite)
    (hv : v ∈ items) : v = kept ∨ v ∈ dropRepeatsAfter kept items := by
  induction items generalizing kept with
  | nil => cases hv
  | cons item rest ih =>
    obtain ⟨hitem, hrest⟩ := List.forall_mem_cons.mp hd
    rw [dropRepeatsAfter]
    split
    · rename_i hagree
      rw [hk] at hagree
      subst hagree
      rcases List.mem_cons.mp hv with rfl | hv
      · exact Or.inl rfl
      · exact ih hk hrest hv
    · right
      rcases List.mem_cons.mp hv with rfl | hv
      · exact List.mem_cons_self
      · rcases ih hitem hrest hv with rfl | hv
        · exact List.mem_cons_self
        · exact List.mem_cons_of_mem _ hv

/-- Of definite values, dropping repeats drops none altogether. -/
theorem mem_dropRepeats {items : List Value} (hd : ∀ item ∈ items, item.Definite) (v : Value) :
    v ∈ dropRepeats items ↔ v ∈ items := by
  refine ⟨fun h => (dropRepeats_sublist items).subset h, fun h => ?_⟩
  cases items with
  | nil => cases h
  | cons item rest =>
    obtain ⟨hitem, hrest⟩ := List.forall_mem_cons.mp hd
    rcases List.mem_cons.mp h with rfl | h
    · exact List.mem_cons_self
    · rcases mem_dropRepeatsAfter hitem hrest h with rfl | h
      · exact List.mem_cons_self
      · exact List.mem_cons_of_mem _ h

/-! ## Ascending lists -/

/-- The values ascend strictly. -/
def Ascending (items : List Value) : Prop := items.Pairwise (fun a b => order a b = .lt)

/-- In the total order every value is equal to itself, NaN included. -/
theorem order_self (v : Value) : order v v = .eq := (order_eq_iff v v).mpr rfl

/-- An ascending list has no repeats. -/
theorem Ascending.nodup {items : List Value} (h : Ascending items) : items.Nodup := by
  refine List.Pairwise.imp (fun {a b} hab heq => ?_) h
  subst heq
  rw [order_self] at hab
  cases hab

/-- In an ascending list no value comes after a later one. -/
theorem Ascending.notAfter {items : List Value} (h : Ascending items) : items.Pairwise NotAfter :=
  List.Pairwise.imp (fun {_ _} hab => by rw [NotAfter, hab]; decide) h

/-- Strictly ascending lists with the same members are equal. -/
theorem Ascending.eq_of_mem_iff {as bs : List Value} (ha : Ascending as) (hb : Ascending bs) (h : ∀ v, v ∈ as ↔ v ∈ bs) :
    as = bs :=
  List.Perm.eq_of_pairwise (fun _ _ _ _ hab hba => NotAfter.antisymm hab hba) ha.notAfter hb.notAfter
    ((List.perm_ext_iff_of_nodup ha.nodup hb.nodup).mpr h)

/-- Repeats dropped from a sorted list, after a value that is kept, leave an ascending one. -/
theorem ascending_dropRepeatsAfter {kept : Value} {items : List Value} (hd : ∀ item ∈ kept :: items, item.Definite)
    (hs : (kept :: items).Pairwise NotAfter) : Ascending (kept :: dropRepeatsAfter kept items) := by
  induction items generalizing kept with
  | nil => exact List.pairwise_singleton _ _
  | cons item rest ih =>
    obtain ⟨hkept, hitems⟩ := List.forall_mem_cons.mp hd
    obtain ⟨hfirst, htail⟩ := List.pairwise_cons.mp hs
    rw [dropRepeatsAfter]
    split
    · rename_i hagree
      rw [hkept] at hagree
      subst hagree
      exact ih hitems htail
    · rename_i hagree
      rw [hkept] at hagree
      have hlt : order kept item = .lt :=
        (notAfter_iff.mp (hfirst item List.mem_cons_self)).resolve_right hagree
      have hrest := ih hitems htail
      refine List.pairwise_cons.mpr ⟨fun v hv => ?_, hrest⟩
      rcases List.mem_cons.mp hv with rfl | hv
      · exact hlt
      · exact order_lt_trans hlt ((List.pairwise_cons.mp hrest).1 v hv)

/-- Repeats dropped from a sorted list leave an ascending one. -/
theorem ascending_dropRepeats {items : List Value} (hd : ∀ item ∈ items, item.Definite) (hs : items.Pairwise NotAfter) :
    Ascending (dropRepeats items) := by
  cases items with
  | nil => exact List.Pairwise.nil
  | cons item rest => exact ascending_dropRepeatsAfter hd hs

/-! ## The one form -/

/-- It does not matter how the members of a set were arranged. -/
theorem canonicalItems_perm {items items' : List Value} (h : items.Perm items') : canonicalItems items = canonicalItems items' := by
  rw [canonicalItems, canonicalItems, sorted_eq_of_perm (h.trans (sorted_perm items').symm) (pairwise_sorted items')]

/-- A set in its one form stays as it is. -/
theorem canonicalItems_idem (items : List Value) : canonicalItems (canonicalItems items) = canonicalItems items := by
  have hsorted : (canonicalItems items).Pairwise NotAfter := (pairwise_sorted items).sublist (dropRepeats_sublist (sorted items))
  calc canonicalItems (canonicalItems items) = dropRepeats (canonicalItems items) := by
        rw [canonicalItems, sorted_eq_of_perm (List.Perm.refl _) hsorted]
    _ = canonicalItems items := dropRepeats_idem (sorted items)

section Definite

variable {items : List Value} (hd : ∀ item ∈ items, item.Definite)

include hd

/-- Members that are definite are so when they are sorted. -/
theorem definite_sorted : ∀ item ∈ sorted items, item.Definite := by
  intro item h
  exact hd item ((sorted_perm items).mem_iff.mp h)

/-- A set of definite items has the members it was made of. -/
theorem mem_canonicalItems (v : Value) : v ∈ canonicalItems items ↔ v ∈ items := by
  rw [canonicalItems, mem_dropRepeats (definite_sorted hd), (sorted_perm items).mem_iff]

/-- The one form of a set ascends. -/
theorem ascending_canonicalItems : Ascending (canonicalItems items) :=
  ascending_dropRepeats (definite_sorted hd) (pairwise_sorted items)

/-- The one form of a set is the strictly ascending list of its members. -/
theorem canonicalItems_eq_of_ascending {ascending : List Value} (ha : Ascending ascending)
    (h : ∀ v, v ∈ items ↔ v ∈ ascending) : canonicalItems items = ascending :=
  (ascending_canonicalItems hd).eq_of_mem_iff ha (fun v => (mem_canonicalItems hd v).trans (h v))

/-- Lists with the same definite members make the same set. -/
theorem canonicalItems_eq_of_mem_iff {items' : List Value} (h : ∀ v, v ∈ items ↔ v ∈ items') :
    canonicalItems items = canonicalItems items' := by
  have hd' : ∀ item ∈ items', item.Definite := fun item hitem => hd item ((h item).mpr hitem)
  exact canonicalItems_eq_of_ascending hd (ascending_canonicalItems hd') (fun v => (h v).trans (mem_canonicalItems hd' v).symm)

end Definite

end TableReplica.Value
