import TableReplica.Proofs.SearchedForms

/-!
# Sets that agree

A set has one form, which its members decide. The order is total and tells any two values apart, so for every list of values, with sets
in it or patterns that are no numbers, neither the arrangement of the list nor making a set of a set's members changes anything. What
two sets have in common is another matter, since agreement is not the order: zeros of both signs are two values in the order and
agree. Among scalars that agree with themselves the values that agree stand next to each other, one of them is kept, and two sets agree
exactly when each value of either list agrees with a value of the other (`Value.agrees_ofList_iff`).
-/

namespace TableReplica.Value

/-- A boolean, an integer, text, an identifier, or a real that is a number. -/
def isProperScalar : Value → Bool
  | .real x => !x.isNaN
  | .set _ | .map _ => false
  | _ => true

/-- A proper scalar is a scalar. -/
theorem isScalar_of_isProperScalar {v : Value} (h : v.isProperScalar = true) : v.IsScalar := by
  cases v <;> simp [isProperScalar] at h <;> simp [IsScalar, rank]

/-- A proper scalar agrees with itself, since it is not NaN. -/
theorem agrees_self_of_isProperScalar {v : Value} (h : v.isProperScalar = true) : v.agrees v = true := by
  cases v with
  | real x =>
    have hnumber : x.isNaN = false := by simpa [isProperScalar] using h
    exact Binary64.numEq_iff.mpr ⟨⟨hnumber, hnumber⟩, rfl⟩
  | set items => simp [isProperScalar] at h
  | map entries => simp [isProperScalar] at h
  | _ => simp [agrees]

/-- Agreement is transitive. -/
theorem agrees_trans {a b c : Value} (hab : a.agrees b = true) (hbc : b.agrees c = true) : a.agrees c = true :=
  agrees_of_positiveZeros_eq (agrees_self_of_agrees hab)
    ((positiveZeros_eq_of_agrees hab).trans (positiveZeros_eq_of_agrees hbc))

/-! ## Lists that have agreeing values -/

/-- Each value of the first list agrees with a value of the second. -/
def AllAmong (as bs : List Value) : Prop := ∀ a ∈ as, ∃ b ∈ bs, a.agrees b = true

/-- What is among values that are among others is among these. -/
theorem AllAmong.trans {as bs cs : List Value} (h : AllAmong as bs) (h' : AllAmong bs cs) : AllAmong as cs := by
  intro a ha
  obtain ⟨b, hb, hab⟩ := h a ha
  obtain ⟨c, hc, hbc⟩ := h' b hb
  exact ⟨c, hc, agrees_trans hab hbc⟩

/-- Members of a list are among its members, if each of them agrees with itself. -/
theorem allAmong_of_subset {as bs : List Value} (hself : ∀ a ∈ as, a.agrees a = true) (h : as ⊆ bs) : AllAmong as bs :=
  fun a ha => ⟨a, h ha, hself a ha⟩

/-- Lists that agree member by member have their members among each other. -/
theorem allAmong_of_membersAgree {as bs : List Value} (h : membersAgree as bs = true) : AllAmong as bs := by
  intro a ha
  obtain ⟨b, hb, hba⟩ := exists_agrees_of_mem (membersAgree_comm as bs ▸ h) ha
  exact ⟨b, hb, agrees_comm b a ▸ hba⟩

/-- An item is dropped only after one that agrees with it has been kept. -/
theorem allAmong_dropRepeatsAfter {kept : Value} {items : List Value} (hself : ∀ item ∈ kept :: items, item.agrees item = true) :
    AllAmong (kept :: items) (kept :: dropRepeatsAfter kept items) := by
  induction items generalizing kept with
  | nil => exact allAmong_of_subset hself (List.Subset.refl _)
  | cons item rest ih =>
    obtain ⟨hkept, hitems⟩ := List.forall_mem_cons.mp hself
    rw [dropRepeatsAfter]
    split
    · rename_i hagree
      have hrest := ih (List.forall_mem_cons.mpr ⟨hkept, (List.forall_mem_cons.mp hitems).2⟩)
      intro v hv
      rcases List.mem_cons.mp hv with rfl | hv
      · exact hrest v List.mem_cons_self
      · rcases List.mem_cons.mp hv with rfl | hv
        · exact ⟨kept, List.mem_cons_self, agrees_comm kept v ▸ hagree⟩
        · exact hrest v (List.mem_cons_of_mem _ hv)
    · intro v hv
      rcases List.mem_cons.mp hv with rfl | hv
      · exact ⟨v, List.mem_cons_self, hkept⟩
      · obtain ⟨w, hw, hvw⟩ := ih hitems v hv
        exact ⟨w, List.mem_cons_of_mem _ hw, hvw⟩

/-- Nothing is lost in a set: each item agrees with a member. -/
theorem allAmong_canonicalItems {items : List Value} (hself : ∀ item ∈ items, item.agrees item = true) :
    AllAmong items (canonicalItems items) := by
  have hsorted : AllAmong items (sorted items) :=
    allAmong_of_subset hself (fun item hitem => (sorted_perm items).mem_iff.mpr hitem)
  have hself' : ∀ item ∈ sorted items, item.agrees item = true :=
    fun item hitem => hself item ((sorted_perm items).mem_iff.mp hitem)
  refine hsorted.trans ?_
  rw [canonicalItems]
  cases hlist : sorted items with
  | nil => exact fun _ h => absurd h List.not_mem_nil
  | cons item rest => exact allAmong_dropRepeatsAfter (hlist ▸ hself')

/-- The one form of a set has no member that the set does not have. -/
theorem canonicalItems_allAmong {items : List Value} (hself : ∀ item ∈ items, item.agrees item = true) :
    AllAmong (canonicalItems items) items :=
  allAmong_of_subset (fun item hitem => hself item (mem_of_mem_canonicalItems hitem)) (fun _ hitem => mem_of_mem_canonicalItems hitem)

/-! ## When sets agree -/

/-- With all zeros made positive, scalars that ascend and do not agree ascend still. -/
theorem Canonical.ascending_positiveZeros {items : List Value} (h : Canonical items)
    (hproper : ∀ item ∈ items, item.isProperScalar = true) : Ascending (items.map positiveZeros) := by
  rw [Ascending, List.pairwise_map]
  refine List.Pairwise.imp_of_mem (fun {a b} ha _ hab => ?_) h
  have hle : NotAfter a.positiveZeros b.positiveZeros :=
    notAfter_positiveZeros (isScalar_of_isProperScalar (hproper a ha)) (notAfter_iff.mpr (Or.inl hab.1))
  refine (notAfter_iff.mp hle).resolve_right (fun hsame => ?_)
  have hagrees := agrees_of_positiveZeros_eq (agrees_self_of_isProperScalar (hproper a ha)) hsame
  rw [hab.2] at hagrees
  cases hagrees

/-- With all zeros made positive, agreeing values are the same ones. -/
theorem AllAmong.map_positiveZeros_subset {as bs : List Value} (h : AllAmong as bs) : as.map positiveZeros ⊆ bs.map positiveZeros := by
  intro v hv
  obtain ⟨a, ha, rfl⟩ := List.mem_map.mp hv
  obtain ⟨b, hb, hab⟩ := h a ha
  exact List.mem_map.mpr ⟨b, hb, (positiveZeros_eq_of_agrees hab).symm⟩

/-- Lists in the one form agree when they have agreeing members. -/
theorem Canonical.membersAgree_iff {as bs : List Value} (has : Canonical as) (hbs : Canonical bs)
    (hproper : ∀ a ∈ as, a.isProperScalar = true) (hproper' : ∀ b ∈ bs, b.isProperScalar = true) :
    membersAgree as bs = true ↔ AllAmong as bs ∧ AllAmong bs as := by
  constructor
  · intro h
    exact ⟨allAmong_of_membersAgree h, allAmong_of_membersAgree (membersAgree_comm as bs ▸ h)⟩
  · rintro ⟨hab, hba⟩
    have hsame : as.map positiveZeros = bs.map positiveZeros :=
      (has.ascending_positiveZeros hproper).eq_of_mem_iff (hbs.ascending_positiveZeros hproper')
        (fun _ => ⟨fun hv => hab.map_positiveZeros_subset hv, fun hv => hba.map_positiveZeros_subset hv⟩)
    rw [← membersAgree_positiveZeros, ← hsame, membersAgree_positiveZeros]
    exact membersAgree_self (fun a ha => agrees_self_of_isProperScalar (hproper a ha))

section ProperScalars

variable {items items' : List Value} (hproper : ∀ item ∈ items, item.isProperScalar = true)

include hproper

/-- Proper scalars have a canonical form: ascending, and without two members that agree. -/
theorem canonical_of_properScalars : Canonical (canonicalItems items) :=
  canonical_canonicalItems (fun item hitem => isScalar_of_isProperScalar (hproper item hitem))
    (fun item hitem => agrees_self_of_isProperScalar (hproper item hitem))

/-- Two sets of scalars agree exactly when each item of either list agrees with an item of the other. -/
theorem agrees_ofList_iff (hproper' : ∀ item ∈ items', item.isProperScalar = true) :
    (ofList items).agrees (ofList items') = true ↔ AllAmong items items' ∧ AllAmong items' items := by
  have hself : ∀ item ∈ items, item.agrees item = true := fun item hitem => agrees_self_of_isProperScalar (hproper item hitem)
  have hself' : ∀ item ∈ items', item.agrees item = true := fun item hitem => agrees_self_of_isProperScalar (hproper' item hitem)
  have hiff := (canonical_of_properScalars hproper).membersAgree_iff (canonical_of_properScalars hproper')
    (fun item hitem => hproper item (mem_of_mem_canonicalItems hitem)) (fun item hitem => hproper' item (mem_of_mem_canonicalItems hitem))
  refine hiff.trans ⟨fun h => ?_, fun h => ?_⟩
  · exact ⟨(allAmong_canonicalItems hself).trans (h.1.trans (canonicalItems_allAmong hself')),
      (allAmong_canonicalItems hself').trans (h.2.trans (canonicalItems_allAmong hself))⟩
  · exact ⟨(canonicalItems_allAmong hself).trans (h.1.trans (allAmong_canonicalItems hself')),
      (canonicalItems_allAmong hself').trans (h.2.trans (allAmong_canonicalItems hself))⟩

end ProperScalars

/-- The order of values is total and tells any two of them apart. So the set of a list is decided by what is in the list, not by how it
is arranged, and the set of a set's members is that set. The set of scalars among which every real is a number ascends strictly and has
no two members that agree, and two such sets agree exactly when each value of either list agrees with a value of the other. -/
theorem sets_in_one_form :
    ((∀ a b, order a b = .eq ↔ a = b) ∧ (∀ a b, order b a = (order a b).swap) ∧
      ∀ a b c, order a b ≠ .gt → order b c ≠ .gt → order a c ≠ .gt) ∧
    (∀ items items' : List Value, items.Perm items' → ofList items = ofList items') ∧
    (∀ items, ofList (ofList items).members = ofList items) ∧
    (∀ items, (∀ item ∈ items, item.isProperScalar = true) →
      (ofList items).members.Pairwise (fun a b => order a b = .lt ∧ a.agrees b = false ∧ b.agrees a = false)) ∧
    ∀ items items', (∀ item ∈ items, item.isProperScalar = true) → (∀ item ∈ items', item.isProperScalar = true) →
      ((ofList items).agrees (ofList items') = true ↔
        (∀ a ∈ items, ∃ b ∈ items', a.agrees b = true) ∧ ∀ b ∈ items', ∃ a ∈ items, b.agrees a = true) := by
  refine ⟨⟨order_eq_iff, fun a b => (order_swap a b).symm, fun a b c hab hbc => NotAfter.trans hab hbc⟩, ?_, ?_, ?_, ?_⟩
  · intro items items' h
    rw [ofList, ofList, canonicalItems_perm h]
  · intro items
    show Value.set (canonicalItems (canonicalItems items)) = _
    rw [canonicalItems_idem, ofList]
  · intro items hproper
    exact (canonical_of_properScalars hproper).imp (fun {a b} h => ⟨h.1, h.2, agrees_comm a b ▸ h.2⟩)
  · intro items items' hproper hproper'
    exact agrees_ofList_iff hproper hproper'

/-- A set that was given both zeros and one that was given the positive zero alone agree, though they are different values. -/
theorem sets_in_one_form_zeros :
    (∀ item ∈ [Value.integer 3, .real .zero, .real ⟨0x8000000000000000⟩], item.isProperScalar = true) ∧
    (∀ item ∈ [Value.real .zero, .integer 3], item.isProperScalar = true) ∧
    (ofList [.integer 3, .real .zero, .real ⟨0x8000000000000000⟩]).agrees (ofList [.real .zero, .integer 3]) = true ∧
    ofList [.integer 3, .real .zero, .real ⟨0x8000000000000000⟩] ≠ ofList [.real .zero, .integer 3] := by
  have hleft : ∀ item ∈ [Value.integer 3, .real .zero, .real ⟨0x8000000000000000⟩], item.isProperScalar = true := by decide
  have hright : ∀ item ∈ [Value.real .zero, .integer 3], item.isProperScalar = true := by decide
  refine ⟨hleft, hright, (sets_in_one_form.2.2.2.2 _ _ hleft hright).mpr ⟨by decide, by decide⟩, by decide⟩

end TableReplica.Value
