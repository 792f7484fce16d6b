import TableReplica.Proofs.CanonicalSet
import TableReplica.Proofs.Fallible
import TableReplica.SortedMap.Lemmas
import TableReplica.Model.Schema

/-!
# Data up to the signs of its zeros

Agreement takes zeros of both signs for one number, so a change that only turns the sign of a zero is never told. What a replica and
its server have in common is therefore compared with every zero made positive (`positiveZeros`). Values that agree are the same
up to that (`Value.positiveZeros_eq_of_agrees`), and so are the normal forms of values that are (`Value.normalize_positiveZeros`).
-/

namespace TableReplica

/-- The number, with a positive sign if it is zero. -/
def Binary64.positiveZero (x : Binary64) : Binary64 := if x.isZero then .zero else x

namespace Value

mutual

/-- The value with every zero in it made positive. -/
def positiveZeros : Value → Value
  | .real x => .real x.positiveZero
  | .set items => .set (membersPositiveZeros items)
  | .string s => .string s
  | .integer n => .integer n
  | .boolean b => .boolean b
  | .uuid u => .uuid u
  | .map entries => .map entries

def membersPositiveZeros : List Value → List Value
  | [] => []
  | v :: rest => positiveZeros v :: membersPositiveZeros rest

end

theorem membersPositiveZeros_eq (items : List Value) : membersPositiveZeros items = items.map positiveZeros := by
  induction items with
  | nil => rfl
  | cons v rest ih => rw [membersPositiveZeros, ih, List.map_cons]

@[simp] theorem positiveZeros_set (items : List Value) : positiveZeros (.set items) = .set (items.map positiveZeros) := by
  rw [positiveZeros, membersPositiveZeros_eq]

end Value

namespace Binary64

/-- Of the two zeros, one has the pattern of no bits and the other that of the sign bit. -/
theorem isZero_iff {x : Binary64} : x.isZero = true ↔ x = ⟨0⟩ ∨ x = ⟨0x8000000000000000⟩ := by
  obtain ⟨bits⟩ := x
  have hlt := bits.toNat_lt
  have h0 : (0 : UInt64).toNat = 0 := rfl
  have h1 : (0x8000000000000000 : UInt64).toNat = 0x8000000000000000 := rfl
  rw [isZero, decide_eq_true_eq, word, signWeight, Binary64.mk.injEq, Binary64.mk.injEq, ← UInt64.toNat_inj,
    ← UInt64.toNat_inj, h0, h1]
  simp only
  omega

/-- A zero is taken for the positive one. -/
theorem positiveZero_of_isZero {x : Binary64} (h : x.isZero = true) : x.positiveZero = .zero := by
  rw [positiveZero, if_pos h]

theorem positiveZero_of_not_isZero {x : Binary64} (h : ¬x.isZero = true) : x.positiveZero = x := by
  rw [positiveZero, if_neg h]

theorem isZero_positiveZero (x : Binary64) : x.positiveZero.isZero = x.isZero := by
  by_cases h : x.isZero = true
  · rw [positiveZero_of_isZero h, h]
    rfl
  · rw [positiveZero_of_not_isZero h]

theorem positiveZero_idem (x : Binary64) : x.positiveZero.positiveZero = x.positiveZero := by
  by_cases h : x.isZero = true
  · rw [positiveZero_of_isZero h]
    rfl
  · rw [positiveZero_of_not_isZero h, positiveZero_of_not_isZero h]

theorem isNaN_positiveZero (x : Binary64) : x.positiveZero.isNaN = x.isNaN := by
  by_cases h : x.isZero = true
  · rw [positiveZero_of_isZero h]
    rcases isZero_iff.mp h with rfl | rfl <;> decide
  · rw [positiveZero_of_not_isZero h]

/-- Making zeros positive takes two numbers together only when both are zeros. -/
theorem positiveZero_eq_iff {x y : Binary64} :
    x.positiveZero = y.positiveZero ↔ x = y ∨ x.isZero = true ∧ y.isZero = true := by
  constructor
  · intro h
    have hz : x.isZero = y.isZero := by rw [← isZero_positiveZero x, h, isZero_positiveZero]
    by_cases hx : x.isZero = true
    · exact Or.inr ⟨hx, hz ▸ hx⟩
    · rw [positiveZero_of_not_isZero hx, positiveZero_of_not_isZero (hz ▸ hx)] at h
      exact Or.inl h
  · rintro (rfl | ⟨hx, hy⟩)
    · rfl
    · rw [positiveZero_of_isZero hx, positiveZero_of_isZero hy]

/-- Reals are equal as numbers when they are the same up to the signs of zeros, and not NaN. -/
theorem numEq_iff {x y : Binary64} :
    x.numEq y = true ↔ (x.isNaN = false ∧ y.isNaN = false) ∧ x.positiveZero = y.positiveZero := by
  rw [positiveZero_eq_iff]
  cases x
  cases y
  simp [numEq]

/-- The signs of zeros have no part in equality. -/
theorem numEq_positiveZero (x y : Binary64) : x.positiveZero.numEq y.positiveZero = x.numEq y := by
  rw [Bool.eq_iff_iff, numEq_iff, numEq_iff, positiveZero_idem, positiveZero_idem, isNaN_positiveZero, isNaN_positiveZero]

/-- The two zeros stand next to each other in the order, so making them one keeps the order. -/
theorem orderKey_positiveZero_le {x y : Binary64} (h : x.orderKey ≤ y.orderKey) :
    x.positiveZero.orderKey ≤ y.positiveZero.orderKey := by
  have hkey : ∀ z : Binary64, z.isZero = true ↔ z.orderKey = 0 ∨ z.orderKey = -1 := by
    intro z
    have h0 : (⟨0⟩ : Binary64).orderKey = 0 := by decide
    have h1 : (⟨0x8000000000000000⟩ : Binary64).orderKey = -1 := by decide
    rw [isZero_iff, ← h0, ← h1, orderKey_inj, orderKey_inj]
  have hzero : Binary64.zero.orderKey = 0 := by decide
  have hx := hkey x
  have hy := hkey y
  by_cases hxz : x.isZero = true
  · rw [positiveZero_of_isZero hxz, hzero]
    by_cases hyz : y.isZero = true
    · have hyzero : y.positiveZero.orderKey = 0 := by rw [positiveZero_of_isZero hyz, hzero]
      omega
    · rw [positiveZero_of_not_isZero hyz]
      have := hx.mp hxz
      have := mt hy.mpr hyz
      omega
  · rw [positiveZero_of_not_isZero hxz]
    by_cases hyz : y.isZero = true
    · rw [positiveZero_of_isZero hyz, hzero]
      have := hy.mp hyz
      omega
    · rw [positiveZero_of_not_isZero hyz]
      exact h

theorem isFinite_of_isZero {x : Binary64} (h : x.isZero = true) : x.isFinite = true := by
  rcases isZero_iff.mp h with rfl | rfl <;> decide

/-- A zero of either sign is rounded to the integer zero. -/
theorem roundHalfAway_of_isZero {x : Binary64} (h : x.isZero = true) : x.roundHalfAway = 0 := by
  have hm : x.magnitude = 0 := by
    rcases isZero_iff.mp h with rfl | rfl <;> decide
  have hpos : 0 < oneScaled := Nat.lt_of_lt_of_eq (Nat.two_pow_pos 1074) (Nat.one_shiftLeft 1074).symm
  have hdiv : (2 * x.magnitude + oneScaled) / (2 * oneScaled) = 0 := by
    rw [hm]
    exact Nat.div_eq_of_lt (by omega)
  rw [roundHalfAway, hdiv]
  split <;> rfl

/-- The signs of zeros have no part in the integer that is taken for a real. -/
theorem nearestInteger_positiveZero (x : Binary64) : x.positiveZero.nearestInteger = x.nearestInteger := by
  by_cases h : x.isZero = true
  · have h0 : Binary64.zero.isZero = true := rfl
    have hholds : Quantity.integerColumn.Holds 0 := by decide
    rw [positiveZero_of_isZero h, nearestInteger, nearestInteger, isFinite_of_isZero h, isFinite_of_isZero h0,
      roundHalfAway_of_isZero h, roundHalfAway_of_isZero h0, if_pos hholds, if_pos hholds]
  · rw [positiveZero_of_not_isZero h]

theorem isFinite_positiveZero (x : Binary64) : x.positiveZero.isFinite = x.isFinite := by
  by_cases h : x.isZero = true
  · rw [positiveZero_of_isZero h, isFinite_of_isZero h]
    rfl
  · rw [positiveZero_of_not_isZero h]

end Binary64

namespace Value

/-! ## Agreement -/

mutual

/-- Values that agree are the same up to the signs of their zeros. -/
theorem positiveZeros_eq_of_agrees {a b : Value} (h : a.agrees b = true) : a.positiveZeros = b.positiveZeros := by
  cases a with
  | set as =>
    cases b with
    | set bs =>
      rw [positiveZeros_set, positiveZeros_set, positiveZeros_eq_of_membersAgree h]
    | _ => simp [agrees] at h
  | real x =>
    cases b <;> simp [agrees] at h
    rw [positiveZeros, positiveZeros, (Binary64.numEq_iff.mp h).2]
  | _ =>
    cases b <;> simp [agrees] at h
    rw [h]

/-- Lists that agree are the same up to the signs of zeros. -/
theorem positiveZeros_eq_of_membersAgree {as bs : List Value} (h : membersAgree as bs = true) :
    as.map positiveZeros = bs.map positiveZeros := by
  cases as with
  | nil =>
    cases bs with
    | nil => rfl
    | cons b bs => simp [membersAgree] at h
  | cons a as =>
    cases bs with
    | nil => simp [membersAgree] at h
    | cons b bs =>
      rw [membersAgree, Bool.and_eq_true] at h
      rw [List.map_cons, List.map_cons, positiveZeros_eq_of_agrees h.1, positiveZeros_eq_of_membersAgree h.2]

end

mutual

/-- The signs of zeros have no part in agreement. -/
theorem agrees_positiveZeros (a b : Value) : a.positiveZeros.agrees b.positiveZeros = a.agrees b := by
  cases a with
  | set as =>
    cases b with
    | set bs =>
      rw [positiveZeros_set, positiveZeros_set, agrees, agrees]
      exact membersAgree_positiveZeros as bs
    | _ => simp [positiveZeros, agrees]
  | real x => cases b <;> simp [positiveZeros, agrees, Binary64.numEq_positiveZero]
  | _ => cases b <;> simp [positiveZeros, agrees]

theorem membersAgree_positiveZeros (as bs : List Value) :
    membersAgree (as.map positiveZeros) (bs.map positiveZeros) = membersAgree as bs := by
  cases as with
  | nil => cases bs <;> rfl
  | cons a as =>
    cases bs with
    | nil => rfl
    | cons b bs =>
      rw [List.map_cons, List.map_cons, membersAgree, membersAgree, agrees_positiveZeros a b,
        membersAgree_positiveZeros as bs]

end

/-! ## Sets -/

/-- The value is neither a set nor a map. -/
def IsScalar (v : Value) : Prop := v.rank < 5

/-- A value keeps its kind when zeros lose their signs. -/
theorem rank_positiveZeros (v : Value) : v.positiveZeros.rank = v.rank := by
  cases v <;> simp [positiveZeros, rank]

/-- Scalars in order stay in order when zeros lose their signs. -/
theorem notAfter_positiveZeros {a b : Value} (ha : a.IsScalar) (h : NotAfter a b) :
    NotAfter a.positiveZeros b.positiveZeros := by
  by_cases hr : a.rank = b.rank
  · cases a with
    | set items => exact absurd ha (by simp [IsScalar, rank])
    | real x =>
      cases b <;> simp [rank] at hr
      rename_i y
      simp only [NotAfter, positiveZeros, order, Binary64.order, ne_eq, Int.compare_eq_gt, Int.not_lt] at h ⊢
      exact Binary64.orderKey_positiveZero_le h
    | _ =>
      cases b <;> simp [rank] at hr
      simpa only [positiveZeros] using h
  · have hr' : a.positiveZeros.rank ≠ b.positiveZeros.rank := by rwa [rank_positiveZeros, rank_positiveZeros]
    rw [NotAfter, order_of_rank_ne hr', rank_positiveZeros, rank_positiveZeros, ← order_of_rank_ne hr]
    exact h

/-- Zeros may lose their signs before or after sorting. -/
theorem sorted_positiveZeros {items : List Value} (hs : ∀ item ∈ items, item.IsScalar) :
    (sorted items).map positiveZeros = sorted (items.map positiveZeros) := by
  refine (sorted_eq_of_perm ((sorted_perm items).symm.map positiveZeros) ?_).symm
  rw [List.pairwise_map]
  refine List.Pairwise.imp_of_mem (fun {a b} ha _ hab => ?_) (pairwise_sorted items)
  exact notAfter_positiveZeros (hs a ((sorted_perm items).mem_iff.mp ha)) hab

/-- Zeros may lose their signs before or after repeats are dropped. -/
theorem dropRepeatsAfter_positiveZeros (kept : Value) (items : List Value) :
    (dropRepeatsAfter kept items).map positiveZeros = dropRepeatsAfter kept.positiveZeros (items.map positiveZeros) := by
  induction items generalizing kept with
  | nil => rfl
  | cons item rest ih =>
    rw [List.map_cons, dropRepeatsAfter, dropRepeatsAfter, agrees_positiveZeros]
    split
    · exact ih kept
    · rw [List.map_cons, ih item]

/-- A set of scalars has one form up to the signs of its zeros. -/
theorem canonicalItems_positiveZeros {items : List Value} (hs : ∀ item ∈ items, item.IsScalar) :
    (canonicalItems items).map positiveZeros = canonicalItems (items.map positiveZeros) := by
  rw [canonicalItems, canonicalItems, ← sorted_positiveZeros hs]
  cases sorted items with
  | nil => rfl
  | cons item rest => rw [dropRepeats, List.map_cons, List.map_cons, dropRepeats, dropRepeatsAfter_positiveZeros]

mutual

/-- Zeros are made positive once. -/
theorem positiveZeros_idem (v : Value) : v.positiveZeros.positiveZeros = v.positiveZeros := by
  cases v with
  | set items => rw [positiveZeros_set, positiveZeros_set, map_positiveZeros_idem items]
  | real x => rw [positiveZeros, positiveZeros, Binary64.positiveZero_idem]
  | _ => rfl

theorem map_positiveZeros_idem (items : List Value) :
    (items.map positiveZeros).map positiveZeros = items.map positiveZeros := by
  cases items with
  | nil => rfl
  | cons v rest => rw [List.map_cons, List.map_cons, positiveZeros_idem v, map_positiveZeros_idem rest]

end

/-! ## Normal forms -/

/-- A value in the form of a scalar kind is neither a set nor a map. -/
theorem isScalar_of_normalizeBase {k : BaseKind} {v w : Value} (h : normalizeBase k v = .ok w) : w.IsScalar := by
  unfold normalizeBase at h
  split at h
  · obtain ⟨n, -, rfl⟩ := map_eq_ok_iff.mp h
    simp [IsScalar, rank]
  · cases h
    simp [IsScalar, rank]
  · split at h <;> cases h
    simp [IsScalar, rank]
  · obtain ⟨u, -, rfl⟩ := map_eq_ok_iff.mp h
    simp [IsScalar, rank]
  all_goals
    cases h
  all_goals simp [IsScalar, rank]

/-- Up to the signs of zeros, the form of a value does not depend on them. -/
theorem normalizeBase_positiveZeros (k : BaseKind) (v : Value) :
    (normalizeBase k v.positiveZeros).map positiveZeros = (normalizeBase k v).map positiveZeros := by
  cases v with
  | real x =>
    cases k <;>
      simp [positiveZeros, normalizeBase, Binary64.nearestInteger_positiveZero, Binary64.isFinite_positiveZero]
    split <;> simp [Except.map, positiveZeros, Binary64.positiveZero_idem]
  | set items => cases k <;> rfl
  | _ => rfl

/-- The members of a value lose the signs of their zeros with it. -/
theorem members_positiveZeros (v : Value) : v.positiveZeros.members = v.members.map positiveZeros := by
  cases v <;> simp [members, positiveZeros, membersPositiveZeros_eq]

/-- The items of a set brought into the form of a scalar kind, each on its own. -/
theorem mapM_normalizeBase_positiveZeros (k : BaseKind) (items : List Value) :
    ((items.map positiveZeros).mapM (normalizeBase k)).map (List.map positiveZeros) =
      (items.mapM (normalizeBase k)).map (List.map positiveZeros) := by
  rw [List.mapM_map]
  exact map_mapM_congr positiveZeros (fun item _ => normalizeBase_positiveZeros k item)

/-- A set of scalars loses the signs of its zeros with its members. -/
theorem positiveZeros_ofList {items : List Value} (hs : ∀ item ∈ items, item.IsScalar) :
    (ofList items).positiveZeros = ofList (items.map positiveZeros) := by
  rw [ofList, ofList, positiveZeros_set, canonicalItems_positiveZeros hs]

/-- Normal forms are the same up to the signs of zeros when the values are. -/
theorem normalize_positiveZeros (kind : Kind) (v : Value) :
    (v.positiveZeros.normalize kind).map (Option.map positiveZeros) = (v.normalize kind).map (Option.map positiveZeros) := by
  have hbase : ∀ k w, ((normalizeBase k (positiveZeros w)).map some).map (Option.map positiveZeros) =
      ((normalizeBase k w).map some).map (Option.map positiveZeros) := by
    intro k w
    have h := normalizeBase_positiveZeros k w
    cases hw : normalizeBase k w <;> cases hw' : normalizeBase k (positiveZeros w) <;> simp_all [Except.map]
  have hscalar : ∀ k, (v.positiveZeros.normalize (.scalar k)).map (Option.map positiveZeros) =
      (v.normalize (.scalar k)).map (Option.map positiveZeros) := by
    intro k
    match v with
    | .set [] => rfl
    | .set [item] => exact hbase k item
    | .set (_ :: _ :: _) => rfl
    | .string s => exact hbase k (.string s)
    | .integer n => exact hbase k (.integer n)
    | .boolean b => exact hbase k (.boolean b)
    | .real x => exact hbase k (.real x)
    | .uuid u => exact hbase k (.uuid u)
    | .map entries => exact hbase k (.map entries)
  cases kind with
  | scalar k => exact hscalar k
  | optional k => exact hscalar k
  | set k =>
    have h := mapM_normalizeBase_positiveZeros k v.members
    rw [normalize, normalize, members_positiveZeros]
    cases hm : v.members.mapM (normalizeBase k) with
    | error e => cases hm' : (v.members.map positiveZeros).mapM (normalizeBase k) <;> simp_all [Except.map]
    | ok items =>
      cases hm' : (v.members.map positiveZeros).mapM (normalizeBase k) with
      | error e => simp [hm, hm', Except.map] at h
      | ok items' =>
        have hitems : items'.map positiveZeros = items.map positiveZeros := by simpa [hm, hm', Except.map] using h
        have hs : ∀ item ∈ items, item.IsScalar := fun item hitem =>
          have ⟨_, _, hb⟩ := exists_of_mem_mapM hm hitem
          isScalar_of_normalizeBase hb
        have hs' : ∀ item ∈ items', item.IsScalar := fun item hitem =>
          have ⟨_, _, hb⟩ := exists_of_mem_mapM hm' hitem
          isScalar_of_normalizeBase hb
        simp only [Except.map, Option.map_some, positiveZeros_ofList hs, positiveZeros_ofList hs', hitems]
  | map =>
    cases v with
    | set items => cases items <;> rfl
    | _ => rfl

end Value

end TableReplica
