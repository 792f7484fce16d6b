/-!
# Maps kept in key order

Every table, row, string map and batch of this library is a finite map whose order can be seen: rows come out by identifier,
columns by name. A `SortedMap` is the list of its entries together with the proof that the keys ascend strictly, so two maps with
the same look-ups are equal (`SortedMap.Lemmas`).
-/

namespace TableReplica

/-- The order of the keys is a strict total order. -/
class KeyOrder (κ : Type) [LT κ] : Prop where
  irrefl : ∀ a : κ, ¬a < a
  trans : ∀ {a b c : κ}, a < b → b < c → a < c
  total : ∀ a b : κ, a < b ∨ a = b ∨ b < a

/-- Text is ordered by code point. -/
instance : KeyOrder String where
  irrefl := String.lt_irrefl
  trans := String.lt_trans
  total a b := by
    by_cases hab : a < b
    · exact Or.inl hab
    · by_cases hba : b < a
      · exact Or.inr (Or.inr hba)
      · exact Or.inr (Or.inl (String.le_antisymm (String.not_lt.mp hba) (String.not_lt.mp hab)))

/-- An order that is read through an injective key is a strict total order when the order of the keys is one. -/
theorem KeyOrder.ofInjective {κ ι : Type} [LT κ] [LT ι] [KeyOrder ι] (f : κ → ι) (inj : ∀ a b, f a = f b → a = b)
    (lt_iff : ∀ a b : κ, a < b ↔ f a < f b) : KeyOrder κ where
  irrefl a h := KeyOrder.irrefl (f a) ((lt_iff a a).mp h)
  trans {a b c} hab hbc := (lt_iff a c).mpr (KeyOrder.trans ((lt_iff a b).mp hab) ((lt_iff b c).mp hbc))
  total a b := by
    rcases KeyOrder.total (f a) (f b) with h | h | h
    · exact Or.inl ((lt_iff a b).mpr h)
    · exact Or.inr (Or.inl (inj a b h))
    · exact Or.inr (Or.inr ((lt_iff b a).mpr h))

/-- A finite map: its entries, keys strictly ascending. -/
structure SortedMap (κ α : Type) [LT κ] where
  entries : List (κ × α)
  ordered : entries.Pairwise (fun a b => a.1 < b.1)

namespace SortedMap

variable {κ α β : Type} [LT κ]

/-- A map is determined by its entries, for what it says of their order is a proof. -/
theorem eq_of_entries_eq {a b : SortedMap κ α} (h : a.entries = b.entries) : a = b := by
  cases a
  cases b
  cases h
  rfl

instance [DecidableEq κ] [DecidableEq α] : DecidableEq (SortedMap κ α) := fun a b =>
  decidable_of_iff (a.entries = b.entries) ⟨eq_of_entries_eq, fun h => h ▸ rfl⟩

/-- The map without entries. -/
def empty : SortedMap κ α := ⟨[], .nil⟩

instance : EmptyCollection (SortedMap κ α) := ⟨empty⟩

instance : Inhabited (SortedMap κ α) := ⟨empty⟩

def isEmpty (m : SortedMap κ α) : Bool := m.entries.isEmpty

def size (m : SortedMap κ α) : Nat := m.entries.length

/-- The keys, ascending. -/
def keys (m : SortedMap κ α) : List κ := m.entries.map (·.1)

/-- The values, in the order of their keys. -/
def values (m : SortedMap κ α) : List α := m.entries.map (·.2)

def get? [DecidableEq κ] (m : SortedMap κ α) (k : κ) : Option α := m.entries.lookup k

def getD [DecidableEq κ] (m : SortedMap κ α) (k : κ) (default : α) : α := (m.get? k).getD default

def contains [DecidableEq κ] (m : SortedMap κ α) (k : κ) : Bool := (m.get? k).isSome

/-- An entry put in its place among ascending entries; an entry with the same key gives way. -/
def insertEntry [DecidableLT κ] [DecidableEq κ] (k : κ) (v : α) : List (κ × α) → List (κ × α)
  | [] => [(k, v)]
  | e :: rest =>
    if k < e.1 then (k, v) :: e :: rest
    else if k = e.1 then (k, v) :: rest
    else e :: insertEntry k v rest

/-- Inserting an entry into a list brings in that entry and nothing else. -/
theorem mem_insertEntry [DecidableLT κ] [DecidableEq κ] {k : κ} {v : α} {es : List (κ × α)} {x : κ × α}
    (h : x ∈ insertEntry k v es) : x = (k, v) ∨ x ∈ es := by
  induction es with
  | nil => simpa [insertEntry] using h
  | cons e rest ih =>
    rw [insertEntry] at h
    split at h
    · simpa using h
    · split at h
      · rcases List.mem_cons.mp h with h | h
        · exact Or.inl h
        · exact Or.inr (List.mem_cons_of_mem _ h)
      · rcases List.mem_cons.mp h with h | h
        · exact Or.inr (h ▸ List.mem_cons_self)
        · exact (ih h).imp_right (List.mem_cons_of_mem _)

/-- Inserting an entry keeps the keys ascending. -/
theorem pairwise_insertEntry [DecidableLT κ] [DecidableEq κ] [KeyOrder κ] (k : κ) (v : α) {es : List (κ × α)}
    (h : es.Pairwise (fun a b => a.1 < b.1)) : (insertEntry k v es).Pairwise (fun a b => a.1 < b.1) := by
  induction es with
  | nil => simp [insertEntry]
  | cons e rest ih =>
    obtain ⟨hhead, htail⟩ := List.pairwise_cons.mp h
    rw [insertEntry]
    split
    · rename_i hlt
      refine List.pairwise_cons.mpr ⟨fun x hx => ?_, h⟩
      rcases List.mem_cons.mp hx with rfl | hx
      · exact hlt
      · exact KeyOrder.trans hlt (hhead x hx)
    · split
      · rename_i heq
        subst heq
        exact List.pairwise_cons.mpr ⟨hhead, htail⟩
      · rename_i hlt hne
        refine List.pairwise_cons.mpr ⟨fun x hx => ?_, ih htail⟩
        rcases mem_insertEntry hx with rfl | hx
        · exact ((KeyOrder.total k e.1).resolve_left hlt).resolve_left hne
        · exact hhead x hx

/-- The map with `v` at `k`, whatever stood there. -/
def insert [DecidableLT κ] [DecidableEq κ] [KeyOrder κ] (m : SortedMap κ α) (k : κ) (v : α) : SortedMap κ α :=
  ⟨insertEntry k v m.entries, pairwise_insertEntry k v m.ordered⟩

/-- The entries that pass a test. -/
def filter (p : κ → α → Bool) (m : SortedMap κ α) : SortedMap κ α :=
  ⟨m.entries.filter (fun e => p e.1 e.2), m.ordered.filter _⟩

/-- The map without `k`. -/
def erase [DecidableEq κ] (m : SortedMap κ α) (k : κ) : SortedMap κ α := m.filter (fun k' _ => k' ≠ k)

/-- Each value replaced, or its entry left out. -/
def filterMap (f : κ → α → Option β) (m : SortedMap κ α) : SortedMap κ β where
  entries := m.entries.filterMap (fun e => (f e.1 e.2).map (e.1, ·))
  ordered := by
    refine List.Pairwise.filterMap _ ?_ m.ordered
    intro a b hab a' ha' b' hb'
    obtain ⟨_, _, rfl⟩ := Option.map_eq_some_iff.mp ha'
    obtain ⟨_, _, rfl⟩ := Option.map_eq_some_iff.mp hb'
    exact hab

/-- Each value replaced. -/
def map (f : κ → α → β) (m : SortedMap κ α) : SortedMap κ β where
  entries := m.entries.map (fun e => (e.1, f e.1 e.2))
  ordered := m.ordered.map _ (fun _ _ h => h)

/-- Each value replaced by a step that may refuse it or leave it out; the first refusal, in key order, refuses the map. -/
def filterMapOk {ε : Type} (f : κ → α → Except ε (Option β)) (m : SortedMap κ α) : Except ε (SortedMap κ β) :=
  match m.entries.findSome? (fun e => match f e.1 e.2 with | .error err => some err | .ok _ => none) with
  | some err => .error err
  | none => .ok (m.filterMap (fun k v => match f k v with | .error _ => none | .ok r => r))

/-- The entries of `changes` put over those of `m`. -/
def insertAll [DecidableLT κ] [DecidableEq κ] [KeyOrder κ] (m : SortedMap κ α) (changes : List (κ × α)) : SortedMap κ α :=
  changes.foldl (fun m e => m.insert e.1 e.2) m

/-- The map of a list of entries, where a later entry replaces an earlier one with the same key. -/
def ofList [DecidableLT κ] [DecidableEq κ] [KeyOrder κ] (es : List (κ × α)) : SortedMap κ α := empty.insertAll es

/-- The map with one entry. -/
def singleton (k : κ) (v : α) : SortedMap κ α := ⟨[(k, v)], List.pairwise_singleton _ _⟩

/-- Equal keys in order, and values that `same` accepts pair by pair. -/
def entriesAgree [DecidableEq κ] (same : α → β → Bool) : List (κ × α) → List (κ × β) → Bool
  | [], [] => true
  | a :: as, b :: bs => decide (a.1 = b.1) && same a.2 b.2 && entriesAgree same as bs
  | _, _ => false

/-- Two maps with the same keys whose values `same` accepts pair by pair. -/
def agrees [DecidableEq κ] (same : α → β → Bool) (m : SortedMap κ α) (m' : SortedMap κ β) : Bool :=
  entriesAgree same m.entries m'.entries

end SortedMap

end TableReplica
