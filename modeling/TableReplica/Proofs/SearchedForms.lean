import Mathlib.Data.List.Forall2
import TableReplica.Proofs.KindForms
import TableReplica.Proofs.SteadySearches

/-!
# Searches for values as they were given

A search compares what is stored, which is in form, with what is wanted as it was given. `Kind.Writes` says how a column has to be
written so that a search for it finds its own stored form: like that form, except that a scalar and the set that holds it alone do for one
another, and an empty set for a scalar that is absent. Every other value that has a form of the kind is stored as something that
the value itself does not meet (`Value.meets_normalize_iff`).
-/

namespace TableReplica

/-- The value is written as the kind stores it, up to sets of one and absent scalars. -/
def Kind.Writes : Kind → Value → Prop
  | .scalar kind, v => v.members.length ≤ 1 ∧ ∀ item ∈ v.members, kind.Holds item
  | .optional kind, v => v.members.length ≤ 1 ∧ ∀ item ∈ v.members, kind.Holds item
  | .set kind, v => Value.Canonical v.members ∧ ∀ item ∈ v.members, kind.Holds item
  | .map, v => ∃ entries, v = .map entries

/-- The value is written as the column stores it. What is stored in a column without a kind need only agree with itself. -/
def Schema.Writes (kinds : Kinds) (column : String) (v : Value) : Prop :=
  match kinds.get? column with
  | none => v.agrees v = true
  | some kind => kind.Writes v

namespace Value

/-! ## Agreement, member by member -/

/-- Lists agree when they are equally long and agree at every place. -/
theorem membersAgree_iff_forall₂ {as bs : List Value} :
    membersAgree as bs = true ↔ List.Forall₂ (fun a b => a.agrees b = true) as bs := by
  induction as generalizing bs with
  | nil => cases bs <;> simp [membersAgree]
  | cons a as ih =>
    cases bs with
    | nil => simp [membersAgree]
    | cons b bs => rw [membersAgree, Bool.and_eq_true, ih, List.forall₂_cons]

/-- A list agrees with itself when each of its members does. -/
theorem membersAgree_self {items : List Value} (h : ∀ item ∈ items, item.agrees item = true) : membersAgree items items = true :=
  membersAgree_iff_forall₂.mpr (List.forall₂_same.mpr h)

/-- Each member of a list agrees with one of a list that agrees with it. -/
theorem exists_agrees_of_mem {as bs : List Value} (h : membersAgree as bs = true) {b : Value} (hb : b ∈ bs) :
    ∃ a ∈ as, a.agrees b = true := by
  rw [membersAgree_iff_forall₂] at h
  induction h with
  | nil => cases hb
  | cons hab _ ih =>
    rcases List.mem_cons.mp hb with rfl | hb
    · exact ⟨_, List.mem_cons_self, hab⟩
    · obtain ⟨a', ha', hab'⟩ := ih hb
      exact ⟨a', List.mem_cons_of_mem _ ha', hab'⟩

/-- What agrees with something agrees with itself. -/
theorem agrees_self_of_agrees {a b : Value} (h : a.agrees b = true) : a.agrees a = true :=
  calc a.agrees a = a.positiveZeros.agrees a.positiveZeros := (agrees_positiveZeros a a).symm
    _ = a.positiveZeros.agrees b.positiveZeros := by rw [positiveZeros_eq_of_agrees h]
    _ = a.agrees b := agrees_positiveZeros a b
    _ = true := h

/-- Values that agree with two values that ascend and do not agree ascend and do not agree either: if they stood the other way round, they
would stand both ways round up to the signs of zeros. -/
theorem apart_of_agrees {a a' b b' : Value} (ha : a.IsScalar) (hb' : b'.IsScalar) (hab : a.agrees b = true) (hab' : a'.agrees b' = true)
    (h : order a a' = .lt ∧ a.agrees a' = false) : order b b' = .lt ∧ b.agrees b' = false := by
  have hzeros := positiveZeros_eq_of_agrees hab
  have hzeros' := positiveZeros_eq_of_agrees hab'
  have hapart : b.agrees b' = false := by
    rw [← agrees_positiveZeros, ← hzeros, ← hzeros', agrees_positiveZeros]
    exact h.2
  refine ⟨?_, hapart⟩
  cases horder : order b b' with
  | lt => rfl
  | eq =>
    rw [order_eq_iff] at horder
    rw [← horder, agrees_self_of_agrees (agrees_comm a b ▸ hab)] at hapart
    cases hapart
  | gt =>
    have hle : NotAfter a.positiveZeros a'.positiveZeros := notAfter_positiveZeros ha (notAfter_iff.mpr (Or.inl h.1))
    have hge : NotAfter b'.positiveZeros b.positiveZeros := notAfter_positiveZeros hb' (notAfter_of_order_gt horder)
    rw [← hzeros, ← hzeros'] at hge
    have hagrees := agrees_of_positiveZeros_eq (agrees_self_of_agrees hab) (hle.antisymm hge)
    rw [h.2] at hagrees
    cases hagrees

/-- A list of scalars that agrees with a canonical one is canonical. -/
theorem Canonical.of_membersAgree {as bs : List Value} (h : Canonical as) (has : ∀ a ∈ as, a.IsScalar) (hbs : ∀ b ∈ bs, b.IsScalar)
    (hagree : membersAgree as bs = true) : Canonical bs := by
  induction as generalizing bs with
  | nil =>
    cases bs with
    | nil => exact List.Pairwise.nil
    | cons b bs => cases hagree
  | cons a as ih =>
    cases bs with
    | nil => cases hagree
    | cons b bs =>
      obtain ⟨hfirst, hrest⟩ := List.pairwise_cons.mp h
      obtain ⟨ha, has⟩ := List.forall_mem_cons.mp has
      obtain ⟨hab, htail⟩ := Bool.and_eq_true_iff.mp hagree
      refine List.pairwise_cons.mpr ⟨?_, ih hrest has (List.forall_mem_cons.mp hbs).2 htail⟩
      intro b' hb'
      obtain ⟨a', ha', hab'⟩ := exists_agrees_of_mem htail hb'
      exact apart_of_agrees ha (hbs b' (List.mem_cons_of_mem _ hb')) hab hab' (hfirst a' ha')

end Value

namespace BaseKind

/-- The signs of zeros have no part in whether a value holds for a base kind. -/
theorem holds_positiveZeros (kind : BaseKind) (v : Value) : kind.Holds v.positiveZeros ↔ kind.Holds v := by
  cases v with
  | real x => cases kind <;> simp only [Value.positiveZeros, BaseKind.Holds, Binary64.isFinite_positiveZero]
  | set items =>
    rw [Value.positiveZeros_set]
    cases kind <;> exact Iff.rfl
  | _ => exact Iff.rfl

/-- What agrees with a scalar of a kind is a scalar of the kind. -/
theorem Holds.of_agrees {kind : BaseKind} {v w : Value} (h : kind.Holds v) (hagrees : v.agrees w = true) : kind.Holds w := by
  rw [← holds_positiveZeros, ← Value.positiveZeros_eq_of_agrees hagrees, holds_positiveZeros]
  exact h

end BaseKind

namespace Value

/-! ## What is met -/

theorem meets_some_self (v : Value) : meets (some v) v = v.agrees v := by
  rw [meets_eq_membersAgree]
  cases v with
  | set items => rw [agrees]; rfl
  | _ => exact Bool.and_true _

/-- A value agrees with its form exactly when it holds for the kind. -/
theorem agrees_normalizeBase_iff {kind : BaseKind} {v w : Value} (h : normalizeBase kind v = .ok w) : w.agrees v = true ↔ kind.Holds v := by
  constructor
  · intro hagrees
    exact (holds_of_normalizeBase h).of_agrees hagrees
  · intro hholds
    rw [normalizeBase_of_holds hholds] at h
    cases h
    exact hholds.agrees_self

theorem members_of_isScalar {v : Value} (h : v.IsScalar) : v.members = [v] := by
  cases v with
  | set items => exact absurd h (by simp [IsScalar, rank])
  | _ => rfl

/-- A search for a value meets its scalar form when it has one member at most, which holds for the kind. -/
theorem meets_normalize_scalar_iff {kind : BaseKind} {v : Value} {normal : Option Value} (h : v.normalize (.scalar kind) = .ok normal) :
    meets normal v = true ↔ v.members.length ≤ 1 ∧ ∀ item ∈ v.members, kind.Holds item := by
  rw [meets_eq_membersAgree]
  have hone : ∀ item, v.members = [item] → (normalizeBase kind item).map some = .ok normal →
      (membersAgree (storedMembers normal) v.members = true ↔ v.members.length ≤ 1 ∧ ∀ item ∈ v.members, kind.Holds item) := by
    intro item hitem hnormal
    obtain ⟨w, hw, rfl⟩ := map_eq_ok_iff.mp hnormal
    have hstored : storedMembers (some w) = [w] := members_of_isScalar (holds_of_normalizeBase hw).isScalar
    rw [hitem, hstored, membersAgree, membersAgree, Bool.and_true, agrees_normalizeBase_iff hw]
    simp
  cases v with
  | set items =>
    match items with
    | [] =>
      cases h
      simp [members, storedMembers, membersAgree]
    | [item] => exact hone item rfl h
    | _ :: _ :: _ => cases h
  | _ => exact hone _ rfl h

/-- A search for a value meets its form as a set when its members are canonical and hold for the kind. -/
theorem meets_normalize_set_iff {kind : BaseKind} {v : Value} {normal : Option Value} (h : v.normalize (.set kind) = .ok normal) :
    meets normal v = true ↔ Canonical v.members ∧ ∀ item ∈ v.members, kind.Holds item := by
  rw [meets_eq_membersAgree]
  obtain ⟨items, hitems, rfl⟩ := map_eq_ok_iff.mp h
  show membersAgree (canonicalItems items) v.members = true ↔ _
  have hholds : ∀ item ∈ items, kind.Holds item := by
    intro item hitem
    obtain ⟨raw, -, hraw⟩ := exists_of_mem_mapM hitems hitem
    exact holds_of_normalizeBase hraw
  have hcanonical : Canonical (canonicalItems items) :=
    canonical_canonicalItems (fun item hitem => (hholds item hitem).isScalar) (fun item hitem => (hholds item hitem).agrees_self)
  constructor
  · intro hagree
    have hmembers : ∀ item ∈ v.members, kind.Holds item := by
      intro item hitem
      obtain ⟨stored, hstored, hagrees⟩ := exists_agrees_of_mem hagree hitem
      exact (hholds stored (mem_of_mem_canonicalItems hstored)).of_agrees hagrees
    refine ⟨hcanonical.of_membersAgree ?_ (fun item hitem => (hmembers item hitem).isScalar) hagree, hmembers⟩
    intro stored hstored
    exact (hholds stored (mem_of_mem_canonicalItems hstored)).isScalar
  · rintro ⟨hcanonical', hmembers⟩
    rw [mapM_normalizeBase_of_holds hmembers] at hitems
    cases hitems
    rw [canonicalItems_of_canonical hcanonical']
    exact membersAgree_self (fun item hitem => (hmembers item hitem).agrees_self)

/-- A value meets its own stored form exactly when it is written as the kind stores it. -/
theorem meets_normalize_iff {kind : Kind} {v : Value} {normal : Option Value} (h : v.normalize kind = .ok normal) :
    meets normal v = true ↔ kind.Writes v := by
  cases kind with
  | scalar base => exact meets_normalize_scalar_iff h
  | optional base => exact meets_normalize_scalar_iff h
  | set base => exact meets_normalize_set_iff h
  | map =>
    unfold normalize at h
    dsimp only at h
    split at h
    · rename_i entries
      cases h
      simp [meets_some_self, agrees, Kind.Writes]
    · cases h
      simp [meets_eq_membersAgree, storedMembers, members, membersAgree, Kind.Writes]
    · cases h

end Value

/-- A value in the form of a kind is written as the kind stores it. -/
theorem Kind.Holds.writes {kind : Kind} {v : Value} (h : kind.Holds v) : kind.Writes v := by
  have hscalar : ∀ {base : BaseKind}, base.Holds v → v.members.length ≤ 1 ∧ ∀ item ∈ v.members, base.Holds item := by
    intro base hbase
    rw [Value.members_of_isScalar hbase.isScalar]
    exact ⟨Nat.le_refl 1, fun item hitem => List.mem_singleton.mp hitem ▸ hbase⟩
  cases kind with
  | scalar base => exact hscalar h
  | optional base => exact hscalar h
  | set base =>
    cases v with
    | set items => exact h.symm
    | _ => exact h.elim
  | map =>
    cases v with
    | map entries => exact ⟨entries, rfl⟩
    | _ => exact h.elim

/-! ## Columns -/

namespace Schema

/-- A column that fits is found by the value that was given for it exactly when it is written as it is stored. -/
theorem meets_normalizeColumn_iff {kinds : Kinds} {column : String} {v : Value} (h : columnFault? kinds column v = none) :
    Value.meets (normalizeColumn kinds column v) v = true ↔ Writes kinds column v := by
  unfold columnFault? at h
  unfold normalizeColumn Writes
  cases hkind : kinds.get? column with
  | none => exact Bool.coe_iff_coe.mpr (Value.meets_some_self v)
  | some kind =>
    simp only [hkind] at h ⊢
    cases hv : v.normalize kind with
    | error violation =>
      simp only [hv] at h
      cases h
    | ok normal => exact Value.meets_normalize_iff hv

/-- In a row without columns at fault, none is. -/
theorem columnFault?_eq_none {s : Schema} {table : String} {row : Row} (h : (s.normalize table row).2 = []) {column : String} {v : Value}
    (hv : row.get? column = some v) : columnFault? (s.kinds table) column v = none := by
  have hnone := List.filterMap_eq_nil_iff.mp h (column, v) (SortedMap.mem_entries_iff.mpr hv)
  exact Option.map_eq_none_iff.mp hnone

end Schema

end TableReplica
