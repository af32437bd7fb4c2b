import Mathlib.Algebra.BigOperators.Group.Finset.Piecewise
import Mathlib.Algebra.Order.BigOperators.Group.Finset
import Mathlib.Data.List.Perm.Basic
import Mathlib.Logic.Function.Basic

/-!
# Taking a bounded share of a queue

A walk over a queue takes at most `limit` elements, and at most `cap` of each key. What
it does not take stays in its order.
-/

namespace FairTake

variable {α κ : Type*} [DecidableEq κ] (key : α → κ) (limit cap : Nat)

/-- The taken elements and the rest. `used` counts what each key has so far. -/
def fairTake (used : κ → Nat) (taken : Nat) : List α → List α × List α
  | [] => ([], [])
  | a :: rest =>
    if limit ≤ taken then ([], a :: rest)
    else if used (key a) < cap then
      let used := Function.update used (key a) (used (key a) + 1)
      let (batch, kept) := fairTake used (taken + 1) rest
      (a :: batch, kept)
    else
      let (batch, kept) := fairTake used taken rest
      (batch, a :: kept)

variable {key limit cap}

theorem fairTake_perm (used : κ → Nat) (taken : Nat) (queue : List α) :
    ((fairTake key limit cap used taken queue).1 ++ (fairTake key limit cap used taken queue).2).Perm
      queue := by
  induction queue generalizing used taken with
  | nil => exact .refl _
  | cons a rest ih =>
    unfold fairTake
    split
    · exact .refl _
    · split
      · exact (ih _ _).cons a
      · exact List.perm_middle.trans ((ih _ _).cons a)

theorem fairTake_rest_sublist (used : κ → Nat) (taken : Nat) (queue : List α) :
    (fairTake key limit cap used taken queue).2.Sublist queue := by
  induction queue generalizing used taken with
  | nil => exact .slnil
  | cons a rest ih =>
    unfold fairTake
    split
    · exact .refl _
    · split
      · exact (ih _ _).cons a
      · exact (ih _ _).cons_cons a

theorem fairTake_ne_nil {queue : List α} (hlimit : 0 < limit) (hcap : 0 < cap) (h : queue ≠ []) :
    (fairTake key limit cap (fun _ => 0) 0 queue).1 ≠ [] := by
  cases queue with
  | nil => exact absurd rfl h
  | cons a rest => simp [fairTake, Nat.pos_iff_ne_zero.mp hlimit, hcap]

theorem mem_fairTake_head {a : α} {rest : List α} (hlimit : 0 < limit) (hcap : 0 < cap) :
    a ∈ (fairTake key limit cap (fun _ => 0) 0 (a :: rest)).1 := by
  simp [fairTake, Nat.pos_iff_ne_zero.mp hlimit, hcap]

/-! ## The selection as marks -/

/-- The elements with a mark, in their order. -/
def picked : List Bool → List α → List α
  | true :: marks, a :: queue => a :: picked marks queue
  | false :: marks, _ :: queue => picked marks queue
  | _, _ => []

/-- The elements without one. -/
def skipped : List Bool → List α → List α
  | true :: marks, _ :: queue => skipped marks queue
  | false :: marks, a :: queue => a :: skipped marks queue
  | _, _ => []

theorem picked_take_sublist (i : Nat) (marks : List Bool) (queue : List α) :
    (picked (marks.take i) (queue.take i)).Sublist (picked marks queue) := by
  induction marks generalizing i queue with
  | nil => simp [picked]
  | cons mark marks ih =>
    cases i with
    | zero => simp [picked]
    | succ i =>
      cases queue with
      | nil => cases mark <;> simp [picked]
      | cons a queue =>
        rw [List.take_succ_cons, List.take_succ_cons]
        cases mark with
        | true =>
          rw [picked, picked]
          exact (ih i queue).cons_cons a
        | false =>
          rw [picked, picked]
          exact ih i queue

variable (key limit cap) in
/-- Which elements the walk takes. -/
def fairMarks (used : κ → Nat) (taken : Nat) : List α → List Bool
  | [] => []
  | a :: rest =>
    if limit ≤ taken then false :: fairMarks used taken rest
    else if used (key a) < cap then
      true :: fairMarks (Function.update used (key a) (used (key a) + 1)) (taken + 1) rest
    else false :: fairMarks used taken rest

@[simp]
theorem length_fairMarks (used : κ → Nat) (taken : Nat) (queue : List α) :
    (fairMarks key limit cap used taken queue).length = queue.length := by
  induction queue generalizing used taken with
  | nil => rfl
  | cons a rest ih =>
    unfold fairMarks
    split
    · simp [ih]
    · split <;> simp [ih]

theorem fairMarks_of_full (used : κ → Nat) {taken : Nat} (h : limit ≤ taken) (queue : List α) :
    fairMarks key limit cap used taken queue = List.replicate queue.length false := by
  induction queue with
  | nil => rfl
  | cons a rest ih => rw [fairMarks, if_pos h, ih, List.length_cons, List.replicate_succ]

theorem picked_replicate_false (queue : List α) : picked (List.replicate queue.length false) queue = [] := by
  induction queue with
  | nil => rfl
  | cons a rest ih => rwa [List.length_cons, List.replicate_succ, picked]

theorem skipped_replicate_false (queue : List α) : skipped (List.replicate queue.length false) queue = queue := by
  induction queue with
  | nil => rfl
  | cons a rest ih => rw [List.length_cons, List.replicate_succ, skipped, ih]

theorem fairTake_eq_marks (used : κ → Nat) (taken : Nat) (queue : List α) :
    fairTake key limit cap used taken queue =
      (picked (fairMarks key limit cap used taken queue) queue,
        skipped (fairMarks key limit cap used taken queue) queue) := by
  induction queue generalizing used taken with
  | nil => rfl
  | cons a rest ih =>
    rw [fairTake]
    by_cases hfull : limit ≤ taken
    · rw [if_pos hfull, fairMarks_of_full used hfull, picked_replicate_false, skipped_replicate_false]
    · rw [if_neg hfull, fairMarks, if_neg hfull]
      by_cases hused : used (key a) < cap
      · rw [if_pos hused, if_pos hused, picked, skipped]
        dsimp only
        rw [ih]
      · rw [if_neg hused, if_neg hused, picked, skipped, ih]

/-! ## Its bounds -/

variable (key cap) in
theorem length_picked_le (used : κ → Nat) {taken : Nat} (h : taken ≤ limit) (queue : List α) :
    taken + (picked (fairMarks key limit cap used taken queue) queue).length ≤ limit := by
  induction queue generalizing used taken with
  | nil => simpa [fairMarks, picked] using h
  | cons a rest ih =>
    rw [fairMarks]
    split
    · exact ih used h
    · split
      · have := ih (Function.update used (key a) (used (key a) + 1)) (by omega : taken + 1 ≤ limit)
        rw [picked, List.length_cons]
        omega
      · exact ih used h

variable (key) in
theorem update_count (used : κ → Nat) (a : α) (k : κ) :
    Function.update used (key a) (used (key a) + 1) k = used k + if key a = k then 1 else 0 := by
  by_cases hk : key a = k
  · rw [← hk, Function.update_self, if_pos rfl]
  · rw [Function.update_of_ne (Ne.symm hk), if_neg hk, Nat.add_zero]

variable (key limit) in
theorem count_picked_le (used : κ → Nat) (taken : Nat) (k : κ) (h : used k ≤ cap) (queue : List α) :
    used k + (picked (fairMarks key limit cap used taken queue) queue).countP (fun a => key a = k) ≤ cap := by
  induction queue generalizing used taken with
  | nil => simpa [fairMarks, picked] using h
  | cons a rest ih =>
    rw [fairMarks]
    split
    · exact ih used taken h
    · split
      · rename_i hused
        have hcount := update_count key used a k
        have hroom : Function.update used (key a) (used (key a) + 1) k ≤ cap := by
          rw [hcount]
          split
          · rename_i hk
            exact hk ▸ hused
          · exact h
        have := ih _ (taken + 1) hroom
        rw [picked, List.countP_cons]
        simp only [decide_eq_true_eq]
        omega
      · exact ih used taken h

theorem cap_le_of_skipped (used : κ → Nat) (taken : Nat) {i j : Nat} {queue : List α} {a : α} (hij : i < j)
    (hi : (fairMarks key limit cap used taken queue)[i]? = some false)
    (hj : (fairMarks key limit cap used taken queue)[j]? = some true) (ha : queue[i]? = some a) :
    cap ≤ used (key a) +
      (picked ((fairMarks key limit cap used taken queue).take i) (queue.take i)).countP (fun b => key b = key a) := by
  induction queue generalizing used taken i j with
  | nil => simp at ha
  | cons b rest ih =>
    by_cases hfull : limit ≤ taken
    · rw [fairMarks_of_full used hfull, List.getElem?_replicate] at hj
      split at hj <;> simp at hj
    rw [fairMarks, if_neg hfull] at hi hj ⊢
    obtain ⟨j, rfl⟩ : ∃ j', j = j' + 1 := ⟨j - 1, by omega⟩
    by_cases hused : used (key b) < cap
    · rw [if_pos hused] at hi hj ⊢
      cases i with
      | zero => simp at hi
      | succ i =>
        have := ih _ _ (Nat.lt_of_succ_lt_succ hij) hi hj ha
        rw [update_count] at this
        rw [List.take_succ_cons, List.take_succ_cons, picked, List.countP_cons]
        simp only [decide_eq_true_eq]
        omega
    · rw [if_neg hused] at hi hj ⊢
      cases i with
      | zero =>
        obtain rfl : b = a := by simpa using ha
        omega
      | succ i => exact ih _ _ (Nat.lt_of_succ_lt_succ hij) hi hj ha

/-! ## Who is served -/

variable (key cap) in
/-- How many the walk takes without a limit. -/
def unlimited (used : κ → Nat) : List α → Nat
  | [] => 0
  | a :: rest =>
    if used (key a) < cap then unlimited (Function.update used (key a) (used (key a) + 1)) rest + 1
    else unlimited used rest

variable (key cap) in
/-- What the keys of a queue ask for, each up to the cap. -/
def demand (queue : List α) : Nat :=
  (queue.map key).toFinset.sum fun k => min cap (queue.countP fun a => key a = k)

theorem unlimited_eq_sum (used : κ → Nat) (queue : List α) {keys : Finset κ} (h : ∀ a ∈ queue, key a ∈ keys) :
    unlimited key cap used queue = keys.sum fun k => min (cap - used k) (queue.countP fun a => key a = k) := by
  induction queue generalizing used with
  | nil => simp [unlimited]
  | cons a rest ih =>
    obtain ⟨ha, hrest⟩ := List.forall_mem_cons.mp h
    rw [unlimited]
    by_cases hused : used (key a) < cap
    · rw [if_pos hused, ih _ hrest]
      have hterm : ∀ k, min (cap - used k) ((a :: rest).countP fun a => key a = k) =
          min (cap - Function.update used (key a) (used (key a) + 1) k) (rest.countP fun a => key a = k) +
            if key a = k then 1 else 0 := by
        intro k
        rw [update_count, List.countP_cons]
        simp only [decide_eq_true_eq]
        split
        · rename_i hk
          rw [← hk]
          omega
        · simp
      simp only [hterm]
      rw [Finset.sum_add_distrib, Finset.sum_ite_eq, if_pos ha]
    · rw [if_neg hused, ih _ hrest]
      refine Finset.sum_congr rfl fun k _ => ?_
      rw [List.countP_cons]
      simp only [decide_eq_true_eq]
      split
      · rename_i hk
        rw [← hk]
        omega
      · simp

theorem unlimited_eq_demand (queue : List α) : unlimited key cap (fun _ => 0) queue = demand key cap queue :=
  unlimited_eq_sum _ queue fun a ha => by simpa using ⟨a, ha, rfl⟩

variable (limit) in
theorem exists_picked_iff (hcap : 0 < cap) (used : κ → Nat) (taken : Nat) {k : κ} (hk : used k = 0) {queue : List α}
    (h : ∃ a ∈ queue, key a = k) :
    (∃ a ∈ picked (fairMarks key limit cap used taken queue) queue, key a = k) ↔
      taken + unlimited key cap used (queue.takeWhile fun a => key a ≠ k) < limit := by
  induction queue generalizing used taken with
  | nil => simp at h
  | cons a rest ih =>
    by_cases hfull : limit ≤ taken
    · rw [fairMarks_of_full used hfull, picked_replicate_false]
      simp only [List.not_mem_nil, false_and, exists_false, false_iff]
      omega
    rw [fairMarks, if_neg hfull]
    by_cases ha : key a = k
    · rw [List.takeWhile_cons_of_neg (by simpa using ha), unlimited, if_pos (by rw [ha, hk]; exact hcap), picked]
      simp only [List.mem_cons, exists_eq_or_imp, ha, true_or, true_iff]
      omega
    · have hrest : ∃ b ∈ rest, key b = k := by simpa [ha] using h
      rw [List.takeWhile_cons_of_pos (by simpa using ha), unlimited]
      by_cases hused : used (key a) < cap
      · have hk' : Function.update used (key a) (used (key a) + 1) k = 0 := by
          rw [update_count, if_neg ha, hk]
        rw [if_pos hused, if_pos hused, picked]
        simp only [List.mem_cons, exists_eq_or_imp, ha, false_or]
        rw [ih _ (taken + 1) hk' hrest]
        omega
      · rw [if_neg hused, if_neg hused, picked]
        exact ih used taken hk hrest

theorem demand_le (queue : List α) : demand key cap queue ≤ (queue.map key).toFinset.card * cap := by
  calc demand key cap queue
    _ ≤ (queue.map key).toFinset.sum fun _ => cap := Finset.sum_le_sum fun k _ => Nat.min_le_left cap _
    _ = (queue.map key).toFinset.card * cap := Finset.sum_const_nat fun _ _ => rfl

/-! ## Removal by position -/

/-- The positions of the marks, counted from `i`. -/
def positions (i : Nat) : List Bool → List Nat
  | [] => []
  | true :: marks => i :: positions (i + 1) marks
  | false :: marks => positions (i + 1) marks

theorem positions_replicate_false (i n : Nat) : positions i (List.replicate n false) = [] := by
  induction n generalizing i with
  | zero => rfl
  | succ n ih => rw [List.replicate_succ, positions, ih]

/-- Removes the elements at the positions in their order. A position past the end has none. -/
def removeEach : List Nat → List α × List α → Option (List α × List α)
  | [], state => some state
  | i :: rest, (batch, queue) => (queue[i]?).bind fun a => removeEach rest (batch ++ [a], queue.eraseIdx i)

theorem removeEach_append (xs ys : List Nat) (state : List α × List α) :
    removeEach (xs ++ ys) state = (removeEach xs state).bind (removeEach ys) := by
  induction xs generalizing state with
  | nil => rfl
  | cons i xs ih =>
    obtain ⟨batch, queue⟩ := state
    simp only [List.cons_append, removeEach]
    cases queue[i]? with
    | none => rfl
    | some a => exact ih _

/-- In reverse order each position is still that of its element. -/
theorem removeEach_positions {marks : List Bool} {queue : List α} (hlength : marks.length = queue.length)
    (before batch : List α) :
    removeEach (positions before.length marks).reverse (batch, before ++ queue) =
      some (batch ++ (picked marks queue).reverse, before ++ skipped marks queue) := by
  induction marks generalizing queue before with
  | nil =>
    obtain rfl := List.length_eq_zero_iff.mp hlength.symm
    simp [positions, removeEach, picked, skipped]
  | cons mark marks ih =>
    cases queue with
    | nil => cases hlength
    | cons a queue =>
      have hrest : removeEach (positions (before.length + 1) marks).reverse (batch, before ++ a :: queue) =
          some (batch ++ (picked marks queue).reverse, before ++ a :: skipped marks queue) := by
        simpa using ih (Nat.succ.inj hlength) (before ++ [a])
      cases mark with
      | false =>
        rw [positions, picked, skipped]
        exact hrest
      | true =>
        rw [positions, picked, skipped, List.reverse_cons, removeEach_append, hrest]
        simp [removeEach, List.eraseIdx_append_of_length_le]

theorem removeEach_positions_zero {marks : List Bool} {queue : List α} (hlength : marks.length = queue.length) :
    removeEach (positions 0 marks).reverse ([], queue) = some ((picked marks queue).reverse, skipped marks queue) :=
  removeEach_positions hlength [] []

end FairTake
