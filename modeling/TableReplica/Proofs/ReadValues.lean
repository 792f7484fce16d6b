import TableReplica.Proofs.WireTrip

/-!
# Values that are read

The wire says many things in more than one way: an integer column as a real, an identifier as plain text, a set in any order and with
repeats. What is read is always in one form, that of the kind of the column if it is known, and otherwise that of a scalar, a set of
scalars or a map (`Wire.Conforms`). These forms are exactly what can be read, and writing loses nothing of them
(`Wire.reads_what_conforms`).
-/

namespace TableReplica.Wire

/-- The value is in the form of its kind, if the kind is known. -/
def Conforms : Option Kind → Value → Prop
  | some kind, v => kind.Holds v
  | none, v => v.InLooseForm

/-! ## What is read conforms -/

/-- A scalar that was read is finite. -/
theorem isFiniteScalar_of_readScalar {j : Json} {v : Value} (h : readScalar j = .ok v) : v.IsFiniteScalar := by
  have hreal : ∀ x, readScalar.finiteReal x = .ok v → v.IsFiniteScalar := by
    intro x hx
    unfold readScalar.finiteReal at hx
    split at hx
    · rename_i hfinite
      cases hx
      exact ⟨.real, hfinite⟩
    · cases hx
  unfold readScalar at h
  split at h
  · cases h
    exact ⟨.string, trivial⟩
  · cases h
    exact ⟨.boolean, trivial⟩
  · split at h
    · cases h
      exact ⟨.integer, trivial⟩
    · exact hreal _ h
  · exact hreal _ h
  · split at h
    · split at h
      · obtain ⟨u, -, rfl⟩ := map_eq_ok_iff.mp h
        exact ⟨.uuid, trivial⟩
      · cases h
    · cases h
  · cases h

/-- The set of scalars is in form, whatever their order and however often each of them comes. -/
theorem inLooseForm_ofList {items : List Value} (h : ∀ item ∈ items, item.IsFiniteScalar) : (Value.ofList items).InLooseForm := by
  refine ⟨fun item hitem => h item (Value.mem_of_mem_canonicalItems hitem), Value.canonical_canonicalItems ?_ ?_⟩
  · intro item hitem
    exact (h item hitem).isScalar
  · intro item hitem
    obtain ⟨kind, hholds⟩ := h item hitem
    exact hholds.agrees_self

/-- What was read as it is written is in the loose form. -/
theorem inLooseForm_of_readLoose {j : Json} {v : Value} (h : readLoose j = .ok v) : v.InLooseForm := by
  unfold readLoose at h
  split at h
  · split at h
    · split at h
      · obtain ⟨items, hitems, rfl⟩ := map_eq_ok_iff.mp h
        refine inLooseForm_ofList (fun item hitem => ?_)
        obtain ⟨raw, -, hraw⟩ := exists_of_mem_mapM hitems hitem
        exact isFiniteScalar_of_readScalar hraw
      · cases h
    · split at h
      · split at h
        · obtain ⟨pairs, -, rfl⟩ := map_eq_ok_iff.mp h
          trivial
        · cases h
      · exact (isFiniteScalar_of_readScalar h).inLooseForm
  · exact (isFiniteScalar_of_readScalar h).inLooseForm

/-- What was read for a kind conforms to it. -/
theorem conforms_of_readValue {kind : Option Kind} {j : Json} {v : Value} (h : readValue kind j = .ok (some v)) : Conforms kind v := by
  obtain ⟨raw, hraw, h⟩ := bind_eq_ok_iff.mp h
  cases kind with
  | some kind => exact Value.holds_of_normalize h
  | none =>
    cases h
    exact inLooseForm_of_readLoose hraw

/-! ## What conforms is read as it was written -/

/-- What conforms to a kind is read back as it was written. -/
theorem readValue_writeValue {kind : Option Kind} {v : Value} (h : Conforms kind v) : readValue kind (writeValue v) = .ok (some v) := by
  cases kind with
  | some kind =>
    rw [readValue, readLoose_writeValue (Value.inLooseForm_of_holds h)]
    exact Value.normalize_of_holds h
  | none =>
    rw [readValue, readLoose_writeValue h]
    rfl

/-- Whether or not the kind of the column is known, what can be read of some JSON is exactly what conforms, and what conforms is exactly
what is read again as it was written. -/
theorem reads_what_conforms (kind : Option Kind) (v : Value) :
    ((∃ j, readValue kind j = .ok (some v)) ↔ Conforms kind v) ∧
      (Conforms kind v ↔ readValue kind (writeValue v) = .ok (some v)) := by
  refine ⟨⟨?_, fun h => ⟨writeValue v, readValue_writeValue h⟩⟩, readValue_writeValue, conforms_of_readValue⟩
  rintro ⟨j, hj⟩
  exact conforms_of_readValue hj

/-- Zeros of both signs are one member of a set, and the negative one stays. -/
example : readValue none (.array [.text "set", .array [.real .zero, .integer 0, .real Binary64.zero.negate]]) =
    .ok (some (.set [.integer 0, .real Binary64.zero.negate])) := by
  decide +kernel

end TableReplica.Wire
