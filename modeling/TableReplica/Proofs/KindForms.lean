import TableReplica.Proofs.KeptRows

/-!
# Values in the form of their kinds

`Kind.Holds` says what a column of a kind holds once it is in form: a scalar of the kind, a set of such scalars that ascend strictly
and of which no two agree, or a map. Bringing a value into the form of a kind gives such a value (`Value.holds_of_normalize`), and one
that is in form stays as it is (`Value.normalize_of_holds`), so doing it twice is doing it once. Negative and positive zero are
why a set says both: they are two values in the order and one number in agreement.
-/

namespace TableReplica

/-- The value is a scalar of the kind. A real must be finite. -/
def BaseKind.Holds : BaseKind → Value → Prop
  | .string, .string _ => True
  | .integer, .integer _ => True
  | .boolean, .boolean _ => True
  | .real, .real x => x.isFinite = true
  | .uuid, .uuid _ => True
  | _, _ => False

/-- The values ascend strictly, and no two of them agree. -/
def Value.Canonical (items : List Value) : Prop := items.Pairwise (fun a b => Value.order a b = .lt ∧ a.agrees b = false)

/-- The value is in the form of the kind. -/
def Kind.Holds : Kind → Value → Prop
  | .scalar kind, v => kind.Holds v
  | .optional kind, v => kind.Holds v
  | .set kind, .set items => (∀ item ∈ items, kind.Holds item) ∧ Value.Canonical items
  | .map, .map _ => True
  | _, _ => False

namespace Binary64

/-- A real is finite unless all the bits of its exponent are set. -/
theorem isFinite_iff (x : Binary64) : x.isFinite = true ↔ x.exponentField ≠ 2047 := by
  rw [isFinite, decide_eq_true_eq]

/-- The negative of a real has the bit of the sign flipped, by adding its weight. -/
theorem word_negate (x : Binary64) : x.negate.word = (x.word + signWeight) % 2 ^ 64 := UInt64.toNat_add _ _

/-- Turning the sign leaves the exponent alone. -/
theorem exponentField_negate (x : Binary64) : x.negate.exponentField = x.exponentField := by
  have hlt := x.bits.toNat_lt
  unfold exponentField
  rw [word_negate]
  unfold exponentWeight signWeight word
  omega

/-- The negative of a real is finite exactly when the real is. -/
theorem isFinite_negate (x : Binary64) : x.negate.isFinite = x.isFinite := by
  rw [isFinite, isFinite, exponentField_negate]

/-- Rounding to fewer digits adds one to what is left of the number, at most. -/
theorem roundShift_le (n shift : Nat) : roundShift n shift ≤ n / 2 ^ shift + 1 := by
  unfold roundShift
  simp only [Nat.one_shiftLeft]
  split
  · omega
  · split <;> omega

/-- A natural number of at most sixty-four binary digits is far below the overflow threshold. -/
theorem isFinite_ofNat {n : Nat} (h : n < 2 ^ 64) : (ofNat n).isFinite = true := by
  rw [isFinite_iff]
  by_cases hn : n = 0
  · subst hn
    decide
  · have hlength : n.log2 < 64 := (Nat.log2_lt hn).mpr h
    have hbound : n < 2 ^ (n.log2 + 1) := (Nat.log2_lt hn).mp (Nat.lt_succ_self _)
    have hdigits : (if n.log2 + 1 ≤ 53 then n <<< (53 - (n.log2 + 1)) else roundShift n (n.log2 + 1 - 53)) ≤ 2 ^ 53 := by
      split
      · rename_i hle
        rw [Nat.shiftLeft_eq]
        calc n * 2 ^ (53 - (n.log2 + 1)) ≤ 2 ^ (n.log2 + 1) * 2 ^ (53 - (n.log2 + 1)) := Nat.mul_le_mul_right _ (Nat.le_of_lt hbound)
          _ = 2 ^ 53 := by rw [← Nat.pow_add, Nat.add_sub_cancel' hle]
      · rename_i hlong
        have hquot : n / 2 ^ (n.log2 + 1 - 53) < 2 ^ 53 := by
          rw [Nat.div_lt_iff_lt_mul (Nat.two_pow_pos _), ← Nat.pow_add, Nat.add_sub_cancel' (by omega)]
          exact hbound
        have hround := roundShift_le n (n.log2 + 1 - 53)
        omega
    unfold ofNat exponentField word
    rw [if_neg hn]
    simp only [UInt64.toNat_ofNat']
    unfold exponentWeight
    omega

/-- Every integer of a column is a finite real. -/
theorem isFinite_ofInt (n : Int64) : (ofInt n.toInt).isFinite = true := by
  have hle := n.le_toInt
  have hlt := n.toInt_lt
  unfold ofInt
  split
  · rw [isFinite_negate]
    exact isFinite_ofNat (by omega)
  · exact isFinite_ofNat (by omega)

theorem numEq_self_of_isFinite {x : Binary64} (h : x.isFinite = true) : x.numEq x = true := by
  have hnan : x.isNaN = false := by
    unfold isNaN
    simp [(isFinite_iff x).mp h]
  exact numEq_iff.mpr ⟨⟨hnan, hnan⟩, rfl⟩

end Binary64

namespace BaseKind.Holds

variable {kind : BaseKind} {v : Value}

theorem isScalar (h : kind.Holds v) : v.IsScalar := by
  cases kind <;> cases v <;> simp [BaseKind.Holds] at h <;> simp [Value.IsScalar, Value.rank]

theorem agrees_self (h : kind.Holds v) : v.agrees v = true := by
  cases kind <;> cases v <;> simp only [BaseKind.Holds] at h <;> simp [Value.agrees]
  exact Binary64.numEq_self_of_isFinite h

theorem isFinite {x : Binary64} (h : kind.Holds (.real x)) : x.isFinite = true := by
  cases kind <;> simp only [BaseKind.Holds] at h
  exact h

end BaseKind.Holds

namespace Value

/-! ## Sets -/

/-- What agrees with itself agrees with what is the same up to the signs of zeros. -/
theorem agrees_of_positiveZeros_eq {v w : Value} (hself : v.agrees v = true) (h : v.positiveZeros = w.positiveZeros) :
    v.agrees w = true := by
  rw [← agrees_positiveZeros, ← h, agrees_positiveZeros]
  exact hself

/-- What stands between two scalars that agree agrees with them. -/
theorem agrees_of_between {a b c : Value} (ha : a.IsScalar) (hb : b.IsScalar) (hself : a.agrees a = true) (hab : NotAfter a b)
    (hbc : NotAfter b c) (hac : a.agrees c = true) : a.agrees b = true := by
  have hsame : a.positiveZeros = c.positiveZeros := positiveZeros_eq_of_agrees hac
  have hle : NotAfter a.positiveZeros b.positiveZeros := notAfter_positiveZeros ha hab
  have hge : NotAfter b.positiveZeros a.positiveZeros := hsame ▸ notAfter_positiveZeros hb hbc
  exact agrees_of_positiveZeros_eq hself (hle.antisymm hge)

/-- Among sorted scalars the repeats of a value stand next to it, so dropping neighbours that agree drops all that agree. -/
theorem canonical_dropRepeatsAfter {kept : Value} {items : List Value} (hscalar : ∀ item ∈ kept :: items, item.IsScalar)
    (hself : ∀ item ∈ kept :: items, item.agrees item = true) (hsorted : (kept :: items).Pairwise NotAfter) :
    Canonical (kept :: dropRepeatsAfter kept items) := by
  induction items generalizing kept with
  | nil => exact List.pairwise_singleton _ _
  | cons item rest ih =>
    obtain ⟨hkeptScalar, hscalar⟩ := List.forall_mem_cons.mp hscalar
    obtain ⟨hkeptSelf, hself⟩ := List.forall_mem_cons.mp hself
    obtain ⟨hfirst, htail⟩ := List.pairwise_cons.mp hsorted
    obtain ⟨hitem, hrest⟩ := List.pairwise_cons.mp htail
    rw [dropRepeatsAfter]
    split
    · refine ih (List.forall_mem_cons.mpr ⟨hkeptScalar, (List.forall_mem_cons.mp hscalar).2⟩)
        (List.forall_mem_cons.mpr ⟨hkeptSelf, (List.forall_mem_cons.mp hself).2⟩) ?_
      exact List.pairwise_cons.mpr ⟨fun v hv => hfirst v (List.mem_cons_of_mem _ hv), hrest⟩
    · rename_i hagree
      have hlt : order kept item = .lt := by
        rcases notAfter_iff.mp (hfirst item List.mem_cons_self) with hlt | heq
        · exact hlt
        · exact absurd (heq ▸ hkeptSelf) hagree
      refine List.pairwise_cons.mpr ⟨?_, ih hscalar hself htail⟩
      intro v hv
      rcases List.mem_cons.mp hv with rfl | hv
      · exact ⟨hlt, Bool.eq_false_iff.mpr hagree⟩
      · have hmem : v ∈ rest := (dropRepeatsAfter_sublist item rest).subset hv
        have hle : NotAfter item v := hitem v hmem
        constructor
        · rcases notAfter_iff.mp hle with hlt' | rfl
          · exact order_lt_trans hlt hlt'
          · exact hlt
        · rw [Bool.eq_false_iff]
          intro hkv
          exact hagree (agrees_of_between hkeptScalar (hscalar item List.mem_cons_self) hkeptSelf
            (hfirst item List.mem_cons_self) hle hkv)

/-- The one form of a set of scalars that agree with themselves has no two members that agree. -/
theorem canonical_canonicalItems {items : List Value} (hscalar : ∀ item ∈ items, item.IsScalar)
    (hself : ∀ item ∈ items, item.agrees item = true) : Canonical (canonicalItems items) := by
  have hmem : ∀ item ∈ sorted items, item ∈ items := fun item h => (sorted_perm items).mem_iff.mp h
  have hsorted := pairwise_sorted items
  rw [canonicalItems]
  cases hlist : sorted items with
  | nil => exact List.Pairwise.nil
  | cons item rest =>
    rw [hlist] at hmem hsorted
    exact canonical_dropRepeatsAfter (fun v hv => hscalar v (hmem v hv)) (fun v hv => hself v (hmem v hv)) hsorted

/-- A canonical list has no repeats to drop. -/
theorem dropRepeatsAfter_of_canonical {kept : Value} {items : List Value} (h : Canonical (kept :: items)) :
    dropRepeatsAfter kept items = items := by
  induction items generalizing kept with
  | nil => rfl
  | cons item rest ih =>
    obtain ⟨hfirst, htail⟩ := List.pairwise_cons.mp h
    have hagree : kept.agrees item = false := (hfirst item List.mem_cons_self).2
    rw [dropRepeatsAfter, if_neg (by rw [hagree]; decide), ih htail]

/-- A set in its one form stays as it is. -/
theorem canonicalItems_of_canonical {items : List Value} (h : Canonical items) : canonicalItems items = items := by
  have hsorted : items.Pairwise NotAfter := h.imp (fun hab => notAfter_iff.mpr (Or.inl hab.1))
  rw [canonicalItems, sorted_eq_of_perm (List.Perm.refl items) hsorted]
  cases items with
  | nil => rfl
  | cons item rest => rw [dropRepeats, dropRepeatsAfter_of_canonical h]

theorem mem_of_mem_canonicalItems {v : Value} {items : List Value} (h : v ∈ canonicalItems items) : v ∈ items :=
  (sorted_perm items).mem_iff.mp ((dropRepeats_sublist (sorted items)).subset h)

/-! ## Scalars -/

/-- A form holds for its base kind. -/
theorem holds_of_normalizeBase {kind : BaseKind} {v w : Value} (h : normalizeBase kind v = .ok w) : kind.Holds w := by
  unfold normalizeBase at h
  split at h
  · obtain ⟨n, -, rfl⟩ := map_eq_ok_iff.mp h
    trivial
  · cases h
    exact Binary64.isFinite_ofInt _
  · split at h
    · rename_i hfinite
      cases h
      exact hfinite
    · cases h
  · obtain ⟨u, -, rfl⟩ := map_eq_ok_iff.mp h
    trivial
  all_goals
    cases h
  all_goals trivial

/-- What holds for a base kind is its own form. -/
theorem normalizeBase_of_holds {kind : BaseKind} {v : Value} (h : kind.Holds v) : normalizeBase kind v = .ok v := by
  cases kind with
  | real =>
    cases v <;> simp only [BaseKind.Holds] at h
    rw [normalizeBase, if_pos h]
  | _ =>
    cases v <;> simp only [BaseKind.Holds] at h
    rfl

/-- Members that hold for a base kind are their own forms. -/
theorem mapM_normalizeBase_of_holds {kind : BaseKind} {items : List Value} (h : ∀ item ∈ items, kind.Holds item) :
    items.mapM (normalizeBase kind) = .ok items := by
  rw [mapM_eq_ok_iff]
  exact List.map_congr_left (fun item hitem => normalizeBase_of_holds (h item hitem))

/-! ## Columns -/

section Normalize

variable {kind : Kind} {v w : Value}

/-- A scalar column takes the only member of a set for the set. -/
theorem normalize_scalar_cases {base : BaseKind} (h : v.normalize (.scalar base) = .ok (some w)) :
    ∃ item, normalizeBase base item = .ok w := by
  unfold normalize at h
  dsimp only at h
  split at h
  · cases h
  · rename_i item
    obtain ⟨w', hw', heq⟩ := map_eq_ok_iff.mp h
    exact ⟨item, Option.some.inj heq ▸ hw'⟩
  · cases h
  · obtain ⟨w', hw', heq⟩ := map_eq_ok_iff.mp h
    exact ⟨v, Option.some.inj heq ▸ hw'⟩

/-- A value brought into the form of a kind is in the form of the kind. -/
theorem holds_of_normalize (h : v.normalize kind = .ok (some w)) : kind.Holds w := by
  cases kind with
  | scalar base =>
    obtain ⟨item, hitem⟩ := normalize_scalar_cases h
    exact holds_of_normalizeBase hitem
  | optional base =>
    obtain ⟨item, hitem⟩ := normalize_scalar_cases h
    exact holds_of_normalizeBase hitem
  | set base =>
    obtain ⟨items, hitems, heq⟩ := map_eq_ok_iff.mp h
    have hbase : ∀ item ∈ items, base.Holds item := by
      intro item hitem
      obtain ⟨raw, -, hraw⟩ := exists_of_mem_mapM hitems hitem
      exact holds_of_normalizeBase hraw
    cases heq
    exact ⟨fun item hitem => hbase item (mem_of_mem_canonicalItems hitem),
      canonical_canonicalItems (fun item hitem => (hbase item hitem).isScalar) (fun item hitem => (hbase item hitem).agrees_self)⟩
  | map =>
    unfold normalize at h
    dsimp only at h
    split at h <;> cases h <;> trivial

/-- A scalar that holds for its base kind is its own form. -/
theorem normalize_scalar_of_holds {base : BaseKind} (h : base.Holds v) : v.normalize (.scalar base) = .ok (some v) := by
  have hv : (normalizeBase base v).map some = .ok (some v) := by
    rw [normalizeBase_of_holds h]
    rfl
  cases v with
  | set items => exact absurd h.isScalar (by simp [IsScalar, rank])
  | _ => exact hv

/-- A value in the form of a kind stays as it is. -/
theorem normalize_of_holds (h : kind.Holds v) : v.normalize kind = .ok (some v) := by
  cases kind with
  | scalar base => exact normalize_scalar_of_holds h
  | optional base => exact normalize_scalar_of_holds h
  | set base =>
    cases v with
    | set items =>
      obtain ⟨hbase, hcanonical⟩ := h
      rw [normalize, members, mapM_normalizeBase_of_holds hbase, Except.map, ofList, canonicalItems_of_canonical hcanonical]
    | _ => exact h.elim
  | map =>
    cases v with
    | map entries => rfl
    | _ => exact h.elim

/-- Bringing a value into the form of a kind twice is doing it once. -/
theorem normalize_idem (h : v.normalize kind = .ok (some w)) : w.normalize kind = .ok (some w) :=
  normalize_of_holds (holds_of_normalize h)

end Normalize

end Value

/-! ## Rows -/

namespace Schema

/-- A column in the form of its kind stays as it is, and so does one that does not fit. -/
theorem normalizeColumn_idem {kinds : Kinds} {column : String} {v w : Value} (h : normalizeColumn kinds column v = some w) :
    normalizeColumn kinds column w = some w := by
  unfold normalizeColumn at h ⊢
  cases hkind : kinds.get? column with
  | none => rfl
  | some kind =>
    simp only [hkind] at h ⊢
    cases hv : v.normalize kind with
    | error violation =>
      simp only [hv, Option.some.injEq] at h
      subst h
      simp only [hv]
    | ok normal =>
      simp only [hv] at h
      subst h
      simp only [Value.normalize_idem hv]

/-- A row in the form of its table stays as it is. -/
theorem normalize_idem (s : Schema) (table : String) (row : Row) :
    (s.normalize table (s.normalize table row).1).1 = (s.normalize table row).1 := by
  apply SortedMap.ext_get?
  intro column
  rw [get?_normalize, get?_normalize]
  cases hraw : (row.get? column).bind (normalizeColumn (s.kinds table) column) with
  | none => rfl
  | some w =>
    obtain ⟨v, -, hv⟩ := Option.bind_eq_some_iff.mp hraw
    exact normalizeColumn_idem hv

end Schema

end TableReplica
