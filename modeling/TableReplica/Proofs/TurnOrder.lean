import Mathlib.Data.List.Induction
import Mathlib.Data.List.Nodup
import Mathlib.Data.List.Perm.Subperm
import TableReplica.Turnstile.Basic

/-!
# The order of turns

Where the submissions stand at a turnstile does not depend on what the executor answers: a schedule alone says who is answered, who is
with the executor and who waits. A `Queue` is this much of a turnstile, and moves by itself. It keeps the order of arrival
(`Queue.arrived_run`), and a schedule that comes back to everyone until their calls have returned serves everyone
(`Queue.exists_served`).
-/

namespace TableReplica

/-! ## Schedules -/

namespace Turn

/-- The submissions in the order in which they reach the turnstile: each comes where the schedule first looks at it. -/
def arrivals (count : Nat) (turns : List Turn) : List Nat := ((turns.map (·.index)).filter (· < count)).eraseDups

/-- The first turns of a schedule that never ends. -/
def before (schedule : Nat → Turn) (n : Nat) : List Turn := (List.range n).map schedule

/-- The schedule comes back to each submission again and again, with its call returned if there is one. -/
def Fair (count : Nat) (schedule : Nat → Turn) : Prop := ∀ i < count, ∀ n, ∃ m, n ≤ m ∧ schedule m = ⟨i, true⟩

theorem before_succ (schedule : Nat → Turn) (n : Nat) : before schedule (n + 1) = before schedule n ++ [schedule n] := by
  rw [before, List.range_succ, List.map_append, List.map_singleton, before]

/-- Those who have arrived are the submissions that have had a turn. -/
theorem mem_arrivals_iff {count : Nat} {turns : List Turn} {i : Nat} :
    i ∈ arrivals count turns ↔ i < count ∧ ∃ turn ∈ turns, turn.index = i := by
  rw [arrivals, List.mem_eraseDups, List.mem_filter, List.mem_map, decide_eq_true_iff, and_comm]

/-- An item at the end is dropped as a repeat when it is there already. -/
theorem eraseDups_concat (is : List Nat) (i : Nat) : (is ++ [i]).eraseDups = is.eraseDups ++ if i ∈ is then [] else [i] := by
  rw [List.eraseDups_append, List.removeAll]
  by_cases hmem : i ∈ is
  · rw [if_pos hmem, List.filter_cons_of_neg (by simpa using hmem)]
    rfl
  · rw [if_neg hmem, List.filter_cons_of_pos (by simpa using hmem)]
    rfl

/-- A turn adds its submission to those who have arrived, when it is one and is not there already. -/
theorem arrivals_concat (count : Nat) (turns : List Turn) (turn : Turn) :
    arrivals count (turns ++ [turn]) =
      arrivals count turns ++ if turn.index < count ∧ turn.index ∉ arrivals count turns then [turn.index] else [] := by
  rw [arrivals, arrivals, List.map_append, List.filter_append, List.map_singleton]
  by_cases hcount : turn.index < count
  · rw [List.filter_cons_of_pos (by simpa using hcount), List.filter_nil, eraseDups_concat]
    simp only [List.mem_eraseDups, hcount, true_and, ite_not]
  · rw [List.filter_cons_of_neg (by simpa using hcount), List.filter_nil, List.append_nil, if_neg fun h => hcount h.1,
      List.append_nil]

end Turn

/-! ## Queues -/

/-- Where the submissions stand that have reached the turnstile. -/
structure Queue where
  /-- Those that are answered, in the order of their calls. -/
  served : List Nat
  /-- The one with the executor. -/
  current : Option Nat
  waiting : List Nat

namespace Queue

/-- Nobody has come. -/
def empty : Queue := ⟨[], none, []⟩

/-- The submissions that have come and are not answered. -/
def line (q : Queue) : List Nat := q.current.toList ++ q.waiting

/-- The submissions that the executor has been called for. -/
def begun (q : Queue) : List Nat := q.served ++ q.current.toList

/-- The submissions that have come. -/
def arrived (q : Queue) : List Nat := q.served ++ q.line

/-- The submission comes to the end of the line. -/
def join (q : Queue) (index : Nat) : Queue := { q with waiting := q.waiting ++ [index] }

/-- The submission goes to the executor if nobody is there and it is the first of those who wait. -/
def beginCall (q : Queue) (index : Nat) : Queue :=
  if q.current = none ∧ q.waiting.head? = some index then ⟨q.served, some index, q.waiting.tail⟩ else q

/-- The executor is done with the submission. -/
def endCall (q : Queue) (index : Nat) : Queue := ⟨q.served ++ [index], none, q.waiting⟩

def step (count : Nat) (q : Queue) (turn : Turn) : Queue :=
  if turn.index ∈ q.served then q
  else if q.current = some turn.index then
    if turn.ready then q.endCall turn.index else q
  else if turn.index ∈ q.waiting then q.beginCall turn.index
  else if turn.index < count then (q.join turn.index).beginCall turn.index
  else q

def run (count : Nat) (turns : List Turn) : Queue := turns.foldl (step count) empty

theorem run_concat (count : Nat) (turns : List Turn) (turn : Turn) :
    run count (turns ++ [turn]) = (run count turns).step count turn := List.foldl_concat ..

variable {count : Nat} {q : Queue} {turn : Turn} {i : Nat}

/-- Those who have arrived have begun their call or wait. -/
theorem arrived_eq_begun_append (q : Queue) : q.arrived = q.begun ++ q.waiting := (List.append_assoc ..).symm

/-- Those who have arrived are served, are called or wait. -/
theorem mem_arrived_iff : i ∈ q.arrived ↔ i ∈ q.served ∨ q.current = some i ∨ i ∈ q.waiting := by
  rw [arrived, line, List.mem_append, List.mem_append, Option.mem_toList]

/-- Those who have begun their call are served or are called. -/
theorem mem_begun_iff : i ∈ q.begun ↔ i ∈ q.served ∨ q.current = some i := by
  rw [begun, List.mem_append, Option.mem_toList]

/-! ### What a turn does -/

/-- A turn of someone served does nothing. -/
theorem step_of_served (h : turn.index ∈ q.served) : q.step count turn = q := if_pos h

/-- A turn of the one who is called ends the call, when it is ready. -/
theorem step_of_current (hserved : turn.index ∉ q.served) (h : q.current = some turn.index) :
    q.step count turn = if turn.ready then q.endCall turn.index else q := by
  rw [step, if_neg hserved, if_pos h]

/-- A turn of someone who waits begins the call, if it is their turn. -/
theorem step_of_waiting (hbegun : turn.index ∉ q.begun) (h : turn.index ∈ q.waiting) :
    q.step count turn = q.beginCall turn.index := by
  rw [mem_begun_iff, not_or] at hbegun
  rw [step, if_neg hbegun.1, if_neg hbegun.2, if_pos h]

/-- A turn of someone new lets them join the line, and begins the call if nobody is before them. -/
theorem step_of_new (hcome : turn.index ∉ q.arrived) :
    q.step count turn = if turn.index < count then (q.join turn.index).beginCall turn.index else q := by
  rw [mem_arrived_iff, not_or, not_or] at hcome
  rw [step, if_neg hcome.1, if_neg hcome.2.1, if_neg hcome.2.2]

/-- A call begins only for the head of the line, and only when nobody is called. -/
theorem beginCall_cases (q : Queue) (i : Nat) :
    q.beginCall i = q ∨
    q.current = none ∧ q.waiting.head? = some i ∧ q.beginCall i = ⟨q.served, some i, q.waiting.tail⟩ := by
  rw [beginCall]
  split
  · rename_i h
    exact .inr ⟨h.1, h.2, rfl⟩
  · exact .inl rfl

/-- What a turn can do. -/
theorem step_cases (count : Nat) (q : Queue) (turn : Turn) :
    (turn.index < count → turn.index ∈ q.arrived) ∧ q.step count turn = q ∨
    q.current = some turn.index ∧ q.step count turn = q.endCall turn.index ∨
    turn.index ∈ q.waiting ∧ q.step count turn = q.beginCall turn.index ∨
    turn.index < count ∧ turn.index ∉ q.arrived ∧ q.step count turn = (q.join turn.index).beginCall turn.index := by
  by_cases hcome : turn.index ∈ q.arrived
  · by_cases hserved : turn.index ∈ q.served
    · exact .inl ⟨fun _ => hcome, step_of_served hserved⟩
    · by_cases hcurrent : q.current = some turn.index
      · have hstep : q.step count turn = _ := step_of_current hserved hcurrent
        cases hready : turn.ready with
        | true => exact .inr (.inl ⟨hcurrent, hstep.trans (if_pos hready)⟩)
        | false => exact .inl ⟨fun _ => hcome, hstep.trans (if_neg (by rw [hready]; exact Bool.false_ne_true))⟩
      · have hbegun : turn.index ∉ q.begun := fun h => (mem_begun_iff.mp h).elim hserved hcurrent
        have hwaiting : turn.index ∈ q.waiting := ((mem_arrived_iff.mp hcome).resolve_left hserved).resolve_left hcurrent
        exact .inr (.inr (.inl ⟨hwaiting, step_of_waiting hbegun hwaiting⟩))
  · by_cases hcount : turn.index < count
    · exact .inr (.inr (.inr ⟨hcount, hcome, (step_of_new hcome).trans (if_pos hcount)⟩))
    · exact .inl ⟨fun h => absurd h hcount, (step_of_new hcome).trans (if_neg hcount)⟩

/-! ### The order of arrival -/

/-- Whoever joins arrives last. -/
theorem arrived_join (q : Queue) (i : Nat) : (q.join i).arrived = q.arrived ++ [i] := by
  rw [arrived, arrived, line, line, List.append_assoc, List.append_assoc]
  rfl

/-- Beginning a call keeps the order of arrival. -/
theorem arrived_beginCall (q : Queue) (i : Nat) : (q.beginCall i).arrived = q.arrived := by
  obtain hrest | ⟨hcurrent, hhead, hbegun⟩ := q.beginCall_cases i
  · rw [hrest]
  · have hwaiting : q.waiting = i :: q.waiting.tail := (List.cons_head?_tail hhead).symm
    rw [hbegun, arrived, arrived, line, line, hcurrent, hwaiting]
    rfl

/-- Ending a call keeps the order of arrival. -/
theorem arrived_endCall (h : q.current = some i) : (q.endCall i).arrived = q.arrived := by
  rw [arrived, arrived, line, line, h]
  exact List.append_assoc q.served [i] q.waiting

/-- A turn brings at most the submission it looks at, to the end of the line. -/
theorem arrived_step (q : Queue) (turn : Turn) :
    (q.step count turn).arrived = q.arrived ++ if turn.index < count ∧ turn.index ∉ q.arrived then [turn.index] else [] := by
  by_cases hnew : turn.index < count ∧ turn.index ∉ q.arrived
  · rw [if_pos hnew]
    obtain ⟨hcome, -⟩ | ⟨hcurrent, -⟩ | ⟨hwaiting, -⟩ | ⟨-, -, hstep⟩ := q.step_cases count turn
    · exact absurd (hcome hnew.1) hnew.2
    · exact absurd (mem_arrived_iff.mpr (.inr (.inl hcurrent))) hnew.2
    · exact absurd (mem_arrived_iff.mpr (.inr (.inr hwaiting))) hnew.2
    · rw [hstep, arrived_beginCall, arrived_join]
  · rw [if_neg hnew, List.append_nil]
    obtain ⟨-, hstep⟩ | ⟨hcurrent, hstep⟩ | ⟨-, hstep⟩ | ⟨hcount, hcome, -⟩ := q.step_cases count turn
    · rw [hstep]
    · rw [hstep, arrived_endCall hcurrent]
    · rw [hstep, arrived_beginCall]
    · exact absurd ⟨hcount, hcome⟩ hnew

/-- Whoever has come is served, with the executor or waits, in the order of arrival. -/
theorem arrived_run (count : Nat) (turns : List Turn) : (run count turns).arrived = Turn.arrivals count turns := by
  induction turns using List.reverseRecOn with
  | nil => rfl
  | append_singleton turns turn ih => rw [run_concat, arrived_step, ih, Turn.arrivals_concat]

end Queue

namespace Turn

/-- Nobody arrives twice. -/
theorem nodup_arrivals (count : Nat) (turns : List Turn) : (arrivals count turns).Nodup := by
  induction turns using List.reverseRecOn with
  | nil => exact .nil
  | append_singleton turns turn ih =>
    rw [arrivals_concat]
    split
    · rename_i h
      exact ih.append (List.nodup_singleton _) (List.disjoint_singleton.mpr h.2)
    · rwa [List.append_nil]

theorem lt_of_mem_arrivals {count : Nat} {turns : List Turn} {i : Nat} (h : i ∈ arrivals count turns) : i < count :=
  (mem_arrivals_iff.mp h).1

/-- No more arrive than there are. -/
theorem arrivals_subperm (count : Nat) (turns : List Turn) : (arrivals count turns).Subperm (List.range count) :=
  List.subperm_of_subset (nodup_arrivals count turns) fun _ hi => List.mem_range.mpr (lt_of_mem_arrivals hi)

/-- Everyone has come once as many have come as there are. -/
theorem arrivals_perm {count : Nat} {turns : List Turn} (h : count ≤ (arrivals count turns).length) :
    (arrivals count turns).Perm (List.range count) :=
  (arrivals_subperm count turns).perm_of_length_le (by rwa [List.length_range])

end Turn

namespace Queue

variable {count : Nat} {q : Queue} {i : Nat}

/-! ### Progress -/

/-- A call counts once when it has begun and twice when it has returned. -/
def progress (q : Queue) : Nat := 2 * q.served.length + q.current.toList.length

theorem progress_join (q : Queue) (i : Nat) : (q.join i).progress = q.progress := rfl

/-- Ending a call is progress. -/
theorem progress_endCall (h : q.current = some i) : (q.endCall i).progress = q.progress + 1 := by
  rw [progress, progress, endCall, h, List.length_append]
  rfl

/-- Beginning a call is progress. -/
theorem progress_beginCall (q : Queue) (hcurrent : q.current = none) (hhead : q.waiting.head? = some i) :
    (q.beginCall i).progress = q.progress + 1 := by
  rw [beginCall, if_pos ⟨hcurrent, hhead⟩, progress, progress, hcurrent]
  rfl

theorem beginCall_eq_or_progress (q : Queue) (i : Nat) : q.beginCall i = q ∨ (q.beginCall i).progress = q.progress + 1 := by
  obtain hrest | ⟨hcurrent, hhead, -⟩ := q.beginCall_cases i
  · exact .inl hrest
  · exact .inr (progress_beginCall q hcurrent hhead)

theorem progress_le_beginCall (q : Queue) (i : Nat) : q.progress ≤ (q.beginCall i).progress := by
  obtain hrest | hbegun := q.beginCall_eq_or_progress i
  · exact Nat.le_of_eq (by rw [hrest])
  · omega

/-- No turn undoes progress. -/
theorem progress_le_step (q : Queue) (turn : Turn) : q.progress ≤ (q.step count turn).progress := by
  obtain ⟨-, hstep⟩ | ⟨hcurrent, hstep⟩ | ⟨-, hstep⟩ | ⟨-, -, hstep⟩ := q.step_cases count turn
  · exact Nat.le_of_eq (by rw [hstep])
  · rw [hstep, progress_endCall hcurrent]
    omega
  · rw [hstep]
    exact q.progress_le_beginCall turn.index
  · rw [hstep, ← q.progress_join turn.index]
    exact (q.join turn.index).progress_le_beginCall turn.index

/-- The submission whose turn makes progress: the first of the line, or anyone who has not come if the line is empty. -/
def IsNext (count : Nat) (q : Queue) (i : Nat) : Prop :=
  q.current = some i ∨ q.current = none ∧ (q.waiting.head? = some i ∨ q.waiting = [] ∧ i < count ∧ i ∉ q.served)

/-- As long as not all are served, someone is next. -/
theorem exists_isNext (hcome : ∀ i ∈ q.arrived, i < count) (hserved : q.served.length < count) : ∃ i < count, IsNext count q i := by
  cases hcurrent : q.current with
  | some i => exact ⟨i, hcome i (mem_arrived_iff.mpr (.inr (.inl hcurrent))), .inl hcurrent⟩
  | none =>
    cases hwaiting : q.waiting with
    | cons i rest =>
      have hmem : i ∈ q.waiting := hwaiting ▸ List.mem_cons_self
      exact ⟨i, hcome i (mem_arrived_iff.mpr (.inr (.inr hmem))), .inr ⟨hcurrent, .inl (by rw [hwaiting]; rfl)⟩⟩
    | nil =>
      obtain ⟨i, hi, hmissing⟩ : ∃ i < count, i ∉ q.served := by
        by_contra hall
        have hsub : List.range count ⊆ q.served := by
          intro i hi
          by_contra hmissing
          exact hall ⟨i, List.mem_range.mp hi, hmissing⟩
        have hle := (List.subperm_of_subset List.nodup_range hsub).length_le
        rw [List.length_range] at hle
        omega
      exact ⟨i, hi, .inr ⟨hcurrent, .inr ⟨hwaiting, hi, hmissing⟩⟩⟩

/-- As long as nothing comes of the turns, the same submission is next: whoever joined an empty line would go straight to the
executor. -/
theorem IsNext.step (h : IsNext count q i) (turn : Turn) (hsame : (q.step count turn).progress = q.progress) :
    IsNext count (q.step count turn) i := by
  obtain ⟨-, hstep⟩ | ⟨hcurrent, hstep⟩ | ⟨-, hstep⟩ | ⟨-, -, hstep⟩ := q.step_cases count turn
  · rwa [hstep]
  · rw [hstep, progress_endCall hcurrent] at hsame
    omega
  · obtain hrest | hbegun := q.beginCall_eq_or_progress turn.index
    · rwa [hstep, hrest]
    · rw [hstep] at hsame
      omega
  · obtain hrest | hbegun := (q.join turn.index).beginCall_eq_or_progress turn.index
    · rw [hstep, hrest]
      obtain hcurrent | ⟨hcurrent, hhead | ⟨hwaiting, -⟩⟩ := h
      · exact .inl hcurrent
      · exact .inr ⟨hcurrent, .inl (by rw [join, List.head?_append, hhead]; rfl)⟩
      · have hhead : (q.join turn.index).waiting.head? = some turn.index := by rw [join, hwaiting]; rfl
        rw [hstep, progress_beginCall (q.join turn.index) hcurrent hhead, progress_join] at hsame
        omega
    · rw [hstep, hbegun, progress_join] at hsame
      omega

/-- A turn of whoever is next, when it is ready, is progress. -/
theorem IsNext.progress_lt (h : IsNext count q i) (honce : q.arrived.Nodup) : q.progress < (q.step count ⟨i, true⟩).progress := by
  obtain hcurrent | ⟨hcurrent, hhead | ⟨hwaiting, hcount, hserved⟩⟩ := h
  · have hserved : i ∉ q.served := fun hserved =>
      List.disjoint_of_nodup_append honce hserved (List.mem_append_left _ (Option.mem_toList.mpr hcurrent))
    rw [step_of_current hserved hcurrent, if_pos rfl, progress_endCall hcurrent]
    omega
  · have hwaiting : i ∈ q.waiting := List.mem_of_mem_head? hhead
    have hbegun : i ∉ q.begun := fun hbegun =>
      List.disjoint_of_nodup_append (q.arrived_eq_begun_append ▸ honce) hbegun hwaiting
    rw [step_of_waiting hbegun hwaiting, progress_beginCall q hcurrent hhead]
    omega
  · have hnew : i ∉ q.arrived := by
      rw [mem_arrived_iff, hcurrent, hwaiting]
      simpa using hserved
    have hhead : (q.join i).waiting.head? = some i := by rw [join, hwaiting]; rfl
    rw [step_of_new hnew, if_pos hcount, progress_beginCall (q.join i) hcurrent hhead, progress_join]
    omega

/-! ### Fair schedules -/

section Fair

variable {schedule : Nat → Turn} {n : Nat}

theorem run_before_succ : run count (Turn.before schedule (n + 1)) = (run count (Turn.before schedule n)).step count (schedule n) := by
  rw [Turn.before_succ, run_concat]

/-- Later in a schedule there is no less progress. -/
theorem progress_le_of_le {m : Nat} (h : n ≤ m) :
    (run count (Turn.before schedule n)).progress ≤ (run count (Turn.before schedule m)).progress := by
  induction h with
  | refl => exact Nat.le_refl _
  | step _ ih =>
    rw [run_before_succ]
    exact Nat.le_trans ih (progress_le_step _ _)

/-- While someone is not served, some later turn makes progress: the one that comes back to who is next, or one before it. -/
theorem exists_progress (hfair : Turn.Fair count schedule) (hserved : (run count (Turn.before schedule n)).served.length < count) :
    ∃ m, n < m ∧ (run count (Turn.before schedule n)).progress < (run count (Turn.before schedule m)).progress := by
  obtain ⟨i, hi, hnext⟩ := exists_isNext (fun i hmem => Turn.lt_of_mem_arrivals (arrived_run count _ ▸ hmem)) hserved
  obtain ⟨m, hm, hturn⟩ := hfair i hi n
  by_contra hstuck
  have hsame : ∀ k, n ≤ k → (run count (Turn.before schedule k)).progress = (run count (Turn.before schedule n)).progress := by
    intro k hk
    obtain rfl | hlt := Nat.eq_or_lt_of_le hk
    · rfl
    · exact Nat.le_antisymm (Nat.le_of_not_lt fun h => hstuck ⟨k, hlt, h⟩) (progress_le_of_le hk)
  have hstays : IsNext count (run count (Turn.before schedule m)) i := by
    clear hturn
    induction hm with
    | refl => exact hnext
    | @step k hk ih =>
      rw [run_before_succ]
      refine ih.step (schedule k) ?_
      rw [← run_before_succ, hsame (k + 1) (Nat.le_succ_of_le hk), hsame k hk]
  have hlt := hstays.progress_lt (arrived_run count _ ▸ Turn.nodup_arrivals count _)
  rw [← hturn, ← run_before_succ, hsame m hm, hsame (m + 1) (Nat.le_succ_of_le hm)] at hlt
  exact Nat.lt_irrefl _ hlt

theorem length_arrived (q : Queue) : q.arrived.length = q.served.length + q.current.toList.length + q.waiting.length := by
  rw [arrived, line, List.length_append, List.length_append, Nat.add_assoc]

/-- No more have arrived than there are. -/
theorem length_arrived_run_le (count : Nat) (turns : List Turn) : (run count turns).arrived.length ≤ count := by
  have hle := (Turn.arrivals_subperm count turns).length_le
  rwa [← arrived_run, List.length_range] at hle

/-- Under a fair schedule there comes a time when all are served. -/
theorem exists_length_served (hfair : Turn.Fair count schedule) :
    ∃ n, (run count (Turn.before schedule n)).served.length = count := by
  by_contra hnever
  have hserved : ∀ n, (run count (Turn.before schedule n)).served.length < count := by
    intro n
    have hle := length_arrived_run_le count (Turn.before schedule n)
    rw [length_arrived] at hle
    exact Nat.lt_of_le_of_ne (by omega) fun h => hnever ⟨n, h⟩
  have hgrows : ∀ k, ∃ n, k ≤ (run count (Turn.before schedule n)).progress := by
    intro k
    induction k with
    | zero => exact ⟨0, Nat.zero_le _⟩
    | succ k ih =>
      obtain ⟨n, hn⟩ := ih
      obtain ⟨m, -, hm⟩ := exists_progress hfair (hserved n)
      exact ⟨m, by omega⟩
  obtain ⟨n, hn⟩ := hgrows (2 * count)
  have hle := length_arrived_run_le count (Turn.before schedule n)
  rw [length_arrived] at hle
  rw [progress] at hn
  have hless := hserved n
  omega

/-- When as many are served as there are, nobody is left in the line. -/
theorem run_eq_of_length_served {turns : List Turn} (hall : (run count turns).served.length = count) :
    run count turns = ⟨Turn.arrivals count turns, none, []⟩ := by
  have hle := length_arrived_run_le count turns
  rw [length_arrived, hall] at hle
  have hcurrent : (run count turns).current = none :=
    Option.toList_eq_nil_iff.mp (List.eq_nil_of_length_eq_zero (by omega))
  have hwaiting : (run count turns).waiting = [] := List.eq_nil_of_length_eq_zero (by omega)
  have hserved : (run count turns).served = Turn.arrivals count turns := by
    rw [← arrived_run, arrived, line, hcurrent, hwaiting]
    exact (List.append_nil _).symm
  rw [← hserved, ← hcurrent, ← hwaiting]

/-- Sooner or later everyone is served, and nothing changes after that. -/
theorem exists_served (hfair : Turn.Fair count schedule) :
    ∃ n order, order.Perm (List.range count) ∧ ∀ m, n ≤ m → run count (Turn.before schedule m) = ⟨order, none, []⟩ := by
  obtain ⟨n, hall⟩ := exists_length_served hfair
  have hrun := run_eq_of_length_served hall
  have hperm : (Turn.arrivals count (Turn.before schedule n)).Perm (List.range count) := by
    refine Turn.arrivals_perm (Nat.le_of_eq ?_)
    rw [hrun] at hall
    exact hall.symm
  refine ⟨n, _, hperm, fun m hm => ?_⟩
  induction hm with
  | refl => exact hrun
  | step _ ih =>
    rw [run_before_succ, ih]
    obtain ⟨-, hstep⟩ | ⟨hcurrent, -⟩ | ⟨hwaiting, -⟩ | ⟨hcount, hcome, -⟩ := step_cases count _ _
    · exact hstep
    · cases hcurrent
    · cases hwaiting
    · exact absurd (List.mem_append_left _ (hperm.mem_iff.mpr (List.mem_range.mpr hcount))) hcome

end Fair

end Queue

end TableReplica
