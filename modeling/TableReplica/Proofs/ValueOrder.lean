import TableReplica.Value.Basic

/-!
# The order of values is total

Statements about `Value.order` and the sets built with it. The order is antisymmetric up to `Ordering.swap` and transitive
(`Value.order_swap`, `Value.order_lt_trans`), so sorting gives one list for all arrangements of its items
(`Value.sorted_eq_of_perm`).
-/

namespace TableReplica.Value

/-! ## Antisymmetry and transitivity -/

/-- Values of different kinds are ordered by kind. -/
theorem order_of_rank_ne {a b : Value} (h : a.rank ≠ b.rank) : order a b = compare a.rank b.rank := by
  cases a <;> cases b <;> first | rfl | exact absurd rfl h

/-- Values of different kinds are ordered by their kinds. -/
theorem order_lt_of_rank_lt {a b : Value} (h : a.rank < b.rank) : order a b = .lt := by
  rw [order_of_rank_ne (by omega), Nat.compare_eq_lt]
  exact h

/-- Of values in order, the first is of no later kind. -/
theorem rank_le_of_order_lt {a b : Value} (h : order a b = .lt) : a.rank ≤ b.rank := by
  by_cases hr : a.rank = b.rank
  · exact Nat.le_of_eq hr
  · rw [order_of_rank_ne hr, Nat.compare_eq_lt] at h
    exact Nat.le_of_lt h

instance : Std.TransCmp orderEntry := inferInstanceAs (Std.TransCmp (compareLex (compareOn Prod.fst) (compareOn Prod.snd)))

mutual

/-- Compared the other way round, two values stand the other way round. -/
theorem order_swap (a b : Value) : (order a b).swap = order b a := by
  by_cases hr : a.rank = b.rank
  · cases a with
    | set items =>
      cases b with
      | set items' => exact orderMembers_swap items items'
      | _ => simp [rank] at hr
    | _ =>
      cases b <;> simp [rank] at hr
      all_goals
        simp only [order, Binary64.order]
        exact Std.OrientedCmp.eq_swap.symm
  · rw [order_of_rank_ne hr, order_of_rank_ne (Ne.symm hr)]
    exact Std.OrientedCmp.eq_swap.symm

/-- Comparing lists the other way round gives the opposite. -/
theorem orderMembers_swap (as bs : List Value) : (orderMembers as bs).swap = orderMembers bs as := by
  cases as with
  | nil => cases bs <;> rfl
  | cons a as =>
    cases bs with
    | nil => rfl
    | cons b bs => rw [orderMembers, orderMembers, Ordering.swap_then, order_swap a b, orderMembers_swap as bs]

end

mutual

/-- The order is transitive; where two values are equal there is nothing to prove (`order_eq_iff`). -/
theorem order_lt_trans {a b c : Value} (hab : order a b = .lt) (hbc : order b c = .lt) : order a c = .lt := by
  have hr := rank_le_of_order_lt hab
  have hr' := rank_le_of_order_lt hbc
  by_cases h : a.rank < c.rank
  · exact order_lt_of_rank_lt h
  · have hb : b.rank = a.rank := by omega
    have hc : c.rank = a.rank := by omega
    cases a with
    | set as =>
      cases b with
      | set bs =>
        cases c with
        | set cs => exact orderMembers_lt_trans hab hbc
        | _ => simp [rank] at hc
      | _ => simp [rank] at hb
    | _ =>
      cases b <;> simp [rank] at hb
      all_goals
        cases c <;> simp [rank] at hc
        simp only [order, Binary64.order] at hab hbc ⊢
        exact Std.TransCmp.lt_trans hab hbc

/-- The order of lists is transitive. -/
theorem orderMembers_lt_trans {as bs cs : List Value} (hab : orderMembers as bs = .lt) (hbc : orderMembers bs cs = .lt) :
    orderMembers as cs = .lt := by
  cases as with
  | nil =>
    cases cs with
    | nil => cases bs <;> simp [orderMembers] at hab hbc
    | cons c cs => rfl
  | cons a as =>
    cases bs with
    | nil => simp [orderMembers] at hab
    | cons b bs =>
      cases cs with
      | nil => simp [orderMembers] at hbc
      | cons c cs =>
        rw [orderMembers, Ordering.then_eq_lt] at hab hbc ⊢
        rcases hab with hab | ⟨hab, hab'⟩
        · rcases hbc with hbc | ⟨hbc, -⟩
          · exact Or.inl (order_lt_trans hab hbc)
          · rw [order_eq_iff] at hbc
            exact Or.inl (hbc ▸ hab)
        · rw [order_eq_iff] at hab
          subst hab
          exact hbc.imp_right (fun hbc => ⟨hbc.1, orderMembers_lt_trans hab' hbc.2⟩)

end

/-! ## Sorting -/

/-- The first value does not come after the second. -/
def NotAfter (a b : Value) : Prop := order a b ≠ .gt

theorem notAfter_iff {a b : Value} : NotAfter a b ↔ order a b = .lt ∨ a = b := by
  rw [NotAfter, ← order_eq_iff]
  cases order a b <;> simp

theorem NotAfter.trans {a b c : Value} (hab : NotAfter a b) (hbc : NotAfter b c) : NotAfter a c := by
  rw [notAfter_iff] at hab hbc ⊢
  rcases hab with hab | rfl
  · rcases hbc with hbc | rfl
    · exact Or.inl (order_lt_trans hab hbc)
    · exact Or.inl hab
  · exact hbc

theorem NotAfter.antisymm {a b : Value} (hab : NotAfter a b) (hba : NotAfter b a) : a = b := by
  rw [notAfter_iff] at hab
  rcases hab with hab | hab
  · rw [NotAfter, ← order_swap, hab] at hba
    exact absurd rfl hba
  · exact hab

/-- A value that comes after another is not before it. -/
theorem notAfter_of_order_gt {a b : Value} (h : order a b = .gt) : NotAfter b a := by
  rw [NotAfter, ← order_swap, h]
  decide

theorem insertInOrder_perm (v : Value) (items : List Value) : (insertInOrder v items).Perm (v :: items) := by
  induction items with
  | nil => exact List.Perm.refl _
  | cons item rest ih =>
    rw [insertInOrder]
    split
    · exact (ih.cons item).trans (List.Perm.swap v item rest)
    · exact List.Perm.refl _

/-- Sorting neither adds nor loses anything. -/
theorem sorted_perm (items : List Value) : (sorted items).Perm items := by
  induction items with
  | nil => exact List.Perm.refl _
  | cons v rest ih => exact (insertInOrder_perm v (sorted rest)).trans (ih.cons v)

/-- A sorted list stays sorted when a value is inserted in its place. -/
theorem pairwise_insertInOrder (v : Value) {items : List Value} (h : items.Pairwise NotAfter) :
    (insertInOrder v items).Pairwise NotAfter := by
  induction items with
  | nil => exact List.pairwise_singleton _ _
  | cons item rest ih =>
    obtain ⟨hhead, htail⟩ := List.pairwise_cons.mp h
    rw [insertInOrder]
    split
    · rename_i hgt
      refine List.pairwise_cons.mpr ⟨fun x hx => ?_, ih htail⟩
      rcases List.mem_cons.mp ((insertInOrder_perm v rest).mem_iff.mp hx) with rfl | hx
      · exact notAfter_of_order_gt hgt
      · exact hhead x hx
    · rename_i hle
      refine List.pairwise_cons.mpr ⟨fun x hx => ?_, h⟩
      rcases List.mem_cons.mp hx with rfl | hx
      · exact hle
      · exact NotAfter.trans hle (hhead x hx)

/-- What is sorted is in order. -/
theorem pairwise_sorted (items : List Value) : (sorted items).Pairwise NotAfter := by
  induction items with
  | nil => exact List.Pairwise.nil
  | cons v rest ih => exact pairwise_insertInOrder v ih

/-- A list in ascending order is the sorted form of each of its arrangements. -/
theorem sorted_eq_of_perm {items ascending : List Value} (h : items.Perm ascending) (ha : ascending.Pairwise NotAfter) :
    sorted items = ascending :=
  List.Perm.eq_of_pairwise (fun _ _ _ _ hab hba => NotAfter.antisymm hab hba) (pairwise_sorted items) ha
    ((sorted_perm items).trans h)

end TableReplica.Value
