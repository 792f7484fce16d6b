import TableReplica.Intent.Basic
import TableReplica.Proofs.ScopedLists

/-!
# What composers name

A composer takes a placeholder for each row it inserts from its supply, and the number of the next with it. Placeholders are the same only
when tag and number are, so as long as the numbers of a supply last no placeholder is defined in two of the transactions that are composed
with it, nor in transactions of supplies with different tags. Hence such transactions can always be merged
(`Transaction.merged_unless_names_meet`).
-/

namespace TableReplica

namespace Placeholder

/-! ## Placeholders by tag and number -/

/-- A tag is written with eight digits. -/
theorem length_tagDigits (tag : UInt32) : (tagDigits tag).length = 8 := by
  rw [tagDigits, List.length_map, List.length_range]

/-- Eight digits of base sixteen are all there is to a tag. -/
theorem tag_eq_of_tagDigits_eq {tag tag' : UInt32} (h : tagDigits tag = tagDigits tag') : tag = tag' := by
  have hdigit : ∀ i < 8, tag.toNat / 2 ^ (4 * (7 - i)) % 16 = tag'.toNat / 2 ^ (4 * (7 - i)) % 16 := by
    intro i hi
    have hchar := List.map_inj_left.mp h i (List.mem_range.mpr hi)
    rw [Nat.shiftRight_eq_div_pow, Nat.shiftRight_eq_div_pow] at hchar
    exact RowId.digitChar_inj (Nat.mod_lt _ (by decide)) (Nat.mod_lt _ (by decide)) hchar
  have h0 := hdigit 0 (by decide)
  have h1 := hdigit 1 (by decide)
  have h2 := hdigit 2 (by decide)
  have h3 := hdigit 3 (by decide)
  have h4 := hdigit 4 (by decide)
  have h5 := hdigit 5 (by decide)
  have h6 := hdigit 6 (by decide)
  have h7 := hdigit 7 (by decide)
  have htag := tag.toNat_lt
  have htag' := tag'.toNat_lt
  apply UInt32.toNat.inj
  omega

/-- Numbered names tell apart both tags and numbers. -/
theorem numbered_inj {tag tag' number number' : UInt32} :
    numbered tag number = numbered tag' number' ↔ tag = tag' ∧ number = number' := by
  constructor
  · intro h
    have hchars : numberedChars tag number = numberedChars tag' number' := String.ofList_injective (congrArg text h)
    simp only [numberedChars, List.cons.injEq, true_and] at hchars
    obtain ⟨hdigits, hrest⟩ := List.append_inj hchars ((length_tagDigits tag).trans (length_tagDigits tag').symm)
    have hnumber := congrArg (fun digits => Nat.ofDigitChars 10 digits 0) (List.cons.inj hrest).2
    simp only [Nat.ofDigitChars_ten_toDigits] at hnumber
    exact ⟨tag_eq_of_tagDigits_eq hdigits, UInt32.toNat.inj hnumber⟩
  · rintro ⟨rfl, rfl⟩
    rfl

/-- A placeholder is read back from its text. -/
theorem parse_text (p : Placeholder) : parse p.text = .ok p := by
  rw [parse]
  split
  · rename_i fault hfault
    rw [p.valid] at hfault
    cases hfault
  · rfl

end Placeholder

namespace NameSupply

/-! ## Requests -/

/-- What a composer may be asked, with what the cache holds when it is. -/
inductive Request where
  | insertRoot (cache : Cache) (table : String) (row : Row) (key : RowKey)
  | insertUnder (cache : Cache) (table : String) (row : Row) (key : RowKey) (parent : Parent)
  | removeChild (cache : Cache) (table : String) (key : Row) (parent : Parent)
  | removeRow (cache : Cache) (table : String) (key : Row)
  | changeRow (cache : Cache) (table : String) (key changes : Row)
  | changeSet (cache : Cache) (table : String) (key : Row) (column : String) (mutator : Mutator) (operand : Operand)
  | selectWhere (table : String) (key : Row)
  /-- A placeholder for the caller's own use. -/
  | placeholder

/-- The answer to a request, with the transaction it composes unless only a placeholder was asked for, and the supply afterwards. -/
def answer (names : NameSupply) : Request → Except Error (Option Transaction) × NameSupply
  | .insertRoot cache table row key =>
    let answered := names.insertRoot cache table row key
    (answered.1.map (fun ins => some ins.transaction), answered.2)
  | .insertUnder cache table row key parent =>
    let answered := names.insertUnder cache table row key parent
    (answered.1.map (fun ins => some ins.transaction), answered.2)
  | .removeChild cache table key parent => ((cache.removeChild table key parent).map some, names)
  | .removeRow cache table key => ((cache.removeRow table key).map some, names)
  | .changeRow cache table key changes => ((cache.changeRow table key changes).map some, names)
  | .changeSet cache table key column mutator operand => ((cache.changeSet table key column mutator operand).map some, names)
  | .selectWhere table key => ((Transaction.selectWhere table key).map some, names)
  | .placeholder => (.ok none, names.advance)

/-- The transaction composed for a request, if there is one. -/
def composedFor (names : NameSupply) (request : Request) : Option Transaction :=
  match (names.answer request).1 with
  | .ok txn => txn
  | .error _ => none

/-- The transactions composed for one request after the other. -/
def composed (names : NameSupply) : List Request → List Transaction
  | [] => []
  | request :: rest => (names.composedFor request).toList ++ (names.answer request).2.composed rest

/-- How many placeholders one request after the other takes. -/
def taken (names : NameSupply) : List Request → Nat
  | [] => 0
  | request :: rest => (if (names.answer request).2 = names then 0 else 1) + (names.answer request).2.taken rest

variable {names : NameSupply} {answered : Except Error (Option Transaction)}

/-- A request leaves the supply alone and composes nothing that defines, or it takes a placeholder and composes nothing that defines
another. -/
inductive Answered (names : NameSupply) (answered : Except Error (Option Transaction)) : NameSupply → Prop where
  | idle : (∀ txn, answered = .ok (some txn) → txn.operations.filterMap Operation.defined? = []) → Answered names answered names
  | taking : (∀ txn, answered = .ok (some txn) → txn.operations.filterMap Operation.defined? = [names.placeholder]) →
    Answered names answered names.advance

/-- A refused request takes no name. -/
theorem answered_error (e : Error) : Answered names (.error e) names := .idle nofun

/-- Operations that insert nothing define nothing. -/
theorem answered_compose {ops : List Operation} (h : ops.filterMap Operation.defined? = []) :
    Answered names ((Transaction.compose ops).map some) names := by
  refine .idle ?_
  intro txn htxn
  obtain ⟨_, hcompose, heq⟩ := map_eq_ok_iff.mp htxn
  cases heq
  rw [Transaction.compose_eq_ok_iff.mp hcompose]
  exact h

/-- A request that depends on a look-up is answered if it is answered for everything that may be found. -/
theorem answered_bind {α : Type} {looked : Except Error α} {next : α → Except Error Transaction}
    (h : ∀ a, Answered names ((next a).map some) names) : Answered names ((looked.bind next).map some) names := by
  cases looked with
  | error e => exact answered_error e
  | ok a => exact h a

/-- An insertion takes one name when it is composed, and none when it is refused. -/
theorem answered_insertion (table : String) (row : Row) {rest : Placeholder → List Operation}
    (hrest : ∀ name, (rest name).filterMap Operation.defined? = []) :
    Answered names ((names.insertion table row rest).1.map (fun ins => some ins.transaction)) (names.insertion table row rest).2 := by
  refine .taking ?_
  intro txn htxn
  obtain ⟨ins, hins, heq⟩ := map_eq_ok_iff.mp htxn
  cases heq
  have hname : ins.name = names.placeholder := by
    obtain ⟨_, -, heq⟩ := map_eq_ok_iff.mp hins
    rw [← heq]
  rw [operations_of_insertion hins, hname, List.filterMap_cons_some (show Operation.defined? _ = some names.placeholder from rfl), hrest]

/-- What any request does to the supply. -/
theorem answered_answer (names : NameSupply) (request : Request) :
    Answered names (names.answer request).1 (names.answer request).2 := by
  cases request with
  | insertRoot cache table row key =>
    simp only [answer, insertRoot]
    split
    · exact answered_error _
    · exact answered_insertion table row (fun _ => rfl)
  | insertUnder cache table row key parent =>
    simp only [answer, insertUnder]
    split
    · exact answered_error _
    · exact answered_insertion table row (fun _ => rfl)
  | removeChild cache table key parent => exact answered_bind (fun _ => answered_compose rfl)
  | removeRow cache table key => exact answered_bind (fun _ => answered_compose rfl)
  | changeRow cache table key changes =>
    simp only [answer, Cache.changeRow]
    split
    · exact answered_error _
    · split
      · exact answered_error _
      · exact answered_bind (fun _ => answered_compose rfl)
  | changeSet cache table key column mutator operand =>
    simp only [answer, Cache.changeSet]
    split
    · exact answered_error _
    · exact answered_bind (fun _ => answered_compose rfl)
  | selectWhere table key =>
    simp only [answer, Transaction.selectWhere]
    split
    · exact answered_error _
    · exact answered_compose rfl
  | placeholder =>
    refine .taking ?_
    intro txn htxn
    cases htxn

/-! ## Runs of requests -/

/-- A supply that has given a name is not the supply that it was. -/
theorem advance_ne (names : NameSupply) : names.advance ≠ names := by
  intro h
  have hnext : (names.next + 1).toNat = names.next.toNat := congrArg (fun names => names.next.toNat) h
  have hone : UInt32.toNat 1 = 1 := rfl
  have hlt := names.next.toNat_lt
  rw [UInt32.toNat_add, hone] at hnext
  omega

/-- Counting on adds one to the number of the next name. -/
theorem next_advance {n : Nat} (h : names.next = .ofNat n) : names.advance.next = .ofNat (n + 1) := by
  rw [advance, h, UInt32.ofNat_add]
  rfl

/-- A transaction that is composed for a request is the answer to it. -/
theorem answer_eq_of_composedFor {request : Request} {txn : Transaction} (h : names.composedFor request = some txn) :
    (names.answer request).1 = .ok (some txn) := by
  unfold composedFor at h
  split at h
  · rename_i hok
    rw [hok, h]
  · cases h

/-- A request either takes no name and defines none, or takes the next one and defines that one alone. -/
theorem answer_cases (names : NameSupply) (request : Request) :
    ((names.answer request).2 = names ∧
        ∀ txn, names.composedFor request = some txn → txn.operations.filterMap Operation.defined? = []) ∨
      ((names.answer request).2 = names.advance ∧
        ∀ txn, names.composedFor request = some txn → txn.operations.filterMap Operation.defined? = [names.placeholder]) := by
  have hanswered := answered_answer names request
  generalize hnext : (names.answer request).2 = next at hanswered
  cases hanswered with
  | idle hnone => exact Or.inl ⟨rfl, fun txn htxn => hnone txn (answer_eq_of_composedFor htxn)⟩
  | taking hown => exact Or.inr ⟨rfl, fun txn htxn => hown txn (answer_eq_of_composedFor htxn)⟩

/-- What is defined in the transactions of a supply carries its tag, and one of the numbers it has given out. -/
theorem exists_number_of_mem_composed {n : Nat} (hn : names.next = .ofNat n) {requests : List Request} {txn : Transaction}
    (htxn : txn ∈ names.composed requests) {p : Placeholder} (hp : p ∈ txn.operations.filterMap Operation.defined?) :
    ∃ m, n ≤ m ∧ m < n + names.taken requests ∧ p = .numbered names.tag (.ofNat m) := by
  induction requests generalizing names n with
  | nil => cases htxn
  | cons request rest ih =>
    rw [composed, List.mem_append, Option.mem_toList] at htxn
    rw [taken]
    rcases answer_cases names request with ⟨hnext, hnone⟩ | ⟨hnext, hown⟩
    · rw [hnext] at htxn ⊢
      rcases htxn with htxn | htxn
      · rw [hnone txn htxn] at hp
        cases hp
      · obtain ⟨m, hle, hlt, rfl⟩ := ih hn htxn
        exact ⟨m, hle, by omega, rfl⟩
    · rw [hnext] at htxn ⊢
      rw [if_neg names.advance_ne]
      rcases htxn with htxn | htxn
      · rw [hown txn htxn, List.mem_singleton] at hp
        exact ⟨n, Nat.le_refl n, by omega, by rw [hp, placeholder, hn]⟩
      · obtain ⟨m, hle, hlt, rfl⟩ := ih (next_advance hn) htxn
        exact ⟨m, by omega, by omega, rfl⟩

/-- A supply that gives out no number twice names apart what it names. -/
theorem pairwise_apart_composed {n : Nat} (hn : names.next = .ofNat n) {requests : List Request}
    (hlast : n + names.taken requests ≤ 2 ^ 32) : (names.composed requests).Pairwise Transaction.Apart := by
  induction requests generalizing names n with
  | nil => exact List.Pairwise.nil
  | cons request rest ih =>
    rw [composed, List.pairwise_append]
    rw [taken] at hlast
    have hhead : (names.composedFor request).toList.Pairwise Transaction.Apart := by
      cases names.composedFor request with
      | none => exact List.Pairwise.nil
      | some txn => exact List.pairwise_singleton _ txn
    rcases answer_cases names request with ⟨hnext, hnone⟩ | ⟨hnext, hown⟩
    · rw [hnext] at hlast ⊢
      refine ⟨hhead, ih hn (by omega), ?_⟩
      intro txn htxn other _
      rw [Transaction.apart_iff, hnone txn (Option.mem_toList.mp htxn)]
      exact fun p hp => nomatch hp
    · rw [hnext] at hlast ⊢
      rw [if_neg names.advance_ne] at hlast
      refine ⟨hhead, ih (next_advance hn) (by omega), ?_⟩
      intro txn htxn other hother
      rw [Transaction.apart_iff, hown txn (Option.mem_toList.mp htxn)]
      intro p hp hin
      obtain ⟨m, hle, hlt, heq⟩ := exists_number_of_mem_composed (next_advance hn) hother hin
      rw [List.mem_singleton] at hp
      have hnumber : UInt32.ofNat n = UInt32.ofNat m := by
        rw [hp, placeholder, hn] at heq
        exact (Placeholder.numbered_inj.mp heq).2
      have := congrArg UInt32.toNat hnumber
      rw [UInt32.toNat_ofNat_of_lt' (show n < 2 ^ 32 by omega), UInt32.toNat_ofNat_of_lt' (show m < 2 ^ 32 by omega)] at this
      omega

/-- Supplies with different tags name apart what they name. -/
theorem apart_of_tag_ne {tag tag' : UInt32} (hne : tag ≠ tag') {requests requests' : List Request} {a b : Transaction}
    (ha : a ∈ (ofTag tag).composed requests) (hb : b ∈ (ofTag tag').composed requests') : a.Apart b := by
  have hstart : ∀ tag, (ofTag tag).next = .ofNat 0 := fun _ => rfl
  rw [Transaction.apart_iff]
  intro p hp hin
  obtain ⟨m, -, -, rfl⟩ := exists_number_of_mem_composed (hstart tag) ha hp
  obtain ⟨m', -, -, heq⟩ := exists_number_of_mem_composed (hstart tag') hb hin
  exact hne (Placeholder.numbered_inj.mp heq).1

/-- The transactions of several composers, each with the requests that are made of it. -/
def composedByAll (runs : List (UInt32 × List Request)) : List Transaction := runs.flatMap (fun run => (ofTag run.1).composed run.2)

/-- Transactions of supplies with different tags define different names, as long as no supply has run out of numbers. -/
theorem pairwise_apart_composedByAll {runs : List (UInt32 × List Request)} (htags : (runs.map (·.1)).Nodup)
    (hlast : ∀ run ∈ runs, (ofTag run.1).taken run.2 ≤ 2 ^ 32) : (composedByAll runs).Pairwise Transaction.Apart := by
  rw [composedByAll, List.pairwise_flatMap]
  refine ⟨?_, ?_⟩
  · intro run hrun
    exact pairwise_apart_composed (show (ofTag run.1).next = .ofNat 0 from rfl) (by rw [Nat.zero_add]; exact hlast run hrun)
  · rw [List.Nodup, List.pairwise_map] at htags
    exact htags.imp (fun hne a ha b hb => apart_of_tag_ne hne ha hb)

end NameSupply

/-- Transactions are merged, with their operations one after the other, exactly if there are any and no two of them define the same
placeholder. The placeholders of composers are valid, and the same only for the same tag and number; so as long as each composer takes no
more of them than there are numbers, and no two composers have the same tag, whatever has been composed by them is merged, in any
order. -/
theorem Transaction.merged_unless_names_meet :
    (∀ parts, (∃ merged, merge parts = .ok merged) ↔ parts ≠ [] ∧ parts.Pairwise Apart) ∧
      (∀ parts merged, merge parts = .ok merged → merged.operations = parts.flatMap (·.operations)) ∧
      (∀ names : NameSupply, Placeholder.parse names.placeholder.text = .ok names.placeholder) ∧
      (∀ names names' : NameSupply, names.placeholder.text = names'.placeholder.text ↔ names = names') ∧
      ∀ (runs : List (UInt32 × List NameSupply.Request)) (parts : List Transaction), (runs.map (·.1)).Nodup →
        (∀ run ∈ runs, (NameSupply.ofTag run.1).taken run.2 ≤ 2 ^ 32) → parts.Subperm (NameSupply.composedByAll runs) →
        parts ≠ [] → ∃ merged, merge parts = .ok merged := by
  refine ⟨fun _ => exists_merge_iff, fun _ _ h => ofList_eq_ok_iff.mp h, fun names => names.placeholder.parse_text, ?_, ?_⟩
  · intro names names'
    constructor
    · intro h
      obtain ⟨htag, hnext⟩ := Placeholder.numbered_inj.mp (Placeholder.eq_of_text_eq h)
      cases names
      cases names'
      cases htag
      cases hnext
      rfl
    · rintro rfl
      rfl
  · intro runs parts htags hlast ⟨parts', hperm, hsub⟩ hne
    refine exists_merge_iff.mpr ⟨hne, ?_⟩
    have happart := (NameSupply.pairwise_apart_composedByAll htags hlast).sublist hsub
    exact (hperm.pairwise_iff (fun h => h.symm)).mp happart

/-- A switch is asked for. -/
def NameSupply.Request.switch (name : String) : NameSupply.Request :=
  .insertRoot (Cache.empty.subscribe "Logical_Switch") "Logical_Switch" (.ofList [("name", .string name)]) (.inTable ["name"])

/-- Two composers are asked for three switches, which are inserted in the opposite order. -/
theorem Transaction.merged_switches :
    (NameSupply.composedByAll [(7, [.switch "a", .switch "b"]), (8, [.switch "c"])]).length = 3 ∧
      ∃ merged, merge (NameSupply.composedByAll [(7, [.switch "a", .switch "b"]), (8, [.switch "c"])]).reverse = .ok merged := by
  have hlength : (NameSupply.composedByAll [(7, [.switch "a", .switch "b"]), (8, [.switch "c"])]).length = 3 := by decide +kernel
  refine ⟨hlength, ?_⟩
  refine merged_unless_names_meet.2.2.2.2 [(7, [.switch "a", .switch "b"]), (8, [.switch "c"])] _ ?_ ?_ ?_ ?_
  · decide +kernel
  · decide +kernel
  · exact ⟨_, (List.reverse_perm _).symm, List.Sublist.refl _⟩
  · intro hnil
    rw [List.reverse_eq_nil_iff.mp hnil] at hlength
    cases hlength

end TableReplica
