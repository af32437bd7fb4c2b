import Mathlib.Data.List.Basic

/-!
# Words at a place of a list

What a scanner with a cursor reads: the word from one index of the input to another.
-/

namespace Span

variable {α : Type} {xs word a b : List α} {x : α} {start middle stop : Nat}

/-- `xs` has `word` from `start` to `stop`. -/
def Spells (xs : List α) (start : Nat) (word : List α) (stop : Nat) : Prop :=
  ∃ before after, xs = before ++ word ++ after ∧ before.length = start ∧ start + word.length = stop

theorem Spells.stop_eq (h : Spells xs start word stop) : stop = start + word.length := by
  obtain ⟨_, _, _, _, rfl⟩ := h
  rfl

theorem Spells.forward (h : Spells xs start word stop) : start ≤ stop := by
  rw [h.stop_eq]
  exact Nat.le_add_right _ _

theorem Spells.inside (h : Spells xs start word stop) : stop ≤ xs.length := by
  obtain ⟨before, after, rfl, rfl, rfl⟩ := h
  simp

theorem Spells.slice_eq (h : Spells xs start word stop) : (xs.drop start).take word.length = word := by
  obtain ⟨before, after, rfl, rfl, _⟩ := h
  simp

theorem spells_slice {n : Nat} (h : start + n ≤ xs.length) : Spells xs start ((xs.drop start).take n) (start + n) := by
  refine ⟨xs.take start, (xs.drop start).drop n, ?_, ?_, ?_⟩
  · rw [List.append_assoc, List.take_append_drop, List.take_append_drop]
  · simp only [List.length_take]
    omega
  · simp only [List.length_take, List.length_drop]
    omega

theorem spells_append : Spells xs start (a ++ b) stop ↔ ∃ middle, Spells xs start a middle ∧ Spells xs middle b stop := by
  constructor
  · rintro ⟨before, after, rfl, rfl, rfl⟩
    refine ⟨before.length + a.length, ⟨before, b ++ after, ?_, rfl, rfl⟩, ⟨before ++ a, after, ?_, ?_, ?_⟩⟩
    · simp only [List.append_assoc]
    · simp only [List.append_assoc]
    · rw [List.length_append]
    · rw [List.length_append, Nat.add_assoc]
  · rintro ⟨middle, ⟨before, rest, rfl, rfl, rfl⟩, ⟨before', after, heq, hlen, rfl⟩⟩
    have hbefore : before ++ a = before' := by
      rw [List.append_assoc before' b after] at heq
      exact (List.append_inj heq (by rw [List.length_append, hlen])).1
    refine ⟨before, after, ?_, rfl, ?_⟩
    · rw [heq, ← hbefore]
      simp only [List.append_assoc]
    · rw [List.length_append, Nat.add_assoc]

theorem spells_cons : Spells xs start (x :: word) stop ↔
    ∃ middle, Spells xs start [x] middle ∧ Spells xs middle word stop := by
  rw [← List.singleton_append, spells_append]

theorem spells_singleton : Spells xs start [x] stop ↔ xs[start]? = some x ∧ stop = start + 1 := by
  constructor
  · rintro ⟨before, after, rfl, rfl, rfl⟩
    simp
  · rintro ⟨hx, rfl⟩
    obtain ⟨hlt, rfl⟩ := List.getElem?_eq_some_iff.mp hx
    refine ⟨xs.take start, xs.drop (start + 1), ?_, ?_, rfl⟩
    · simp
    · simp only [List.length_take]
      omega

theorem Spells.unique {word' : List α} {stop' : Nat} (h : Spells xs start word stop)
    (h' : Spells xs start word' stop') (hlen : word.length = word'.length) : word = word' ∧ stop = stop' := by
  have hword : word = word' := by
    rw [← h.slice_eq, ← h'.slice_eq, hlen]
  subst hword
  exact ⟨rfl, h.stop_eq.trans h'.stop_eq.symm⟩

theorem Spells.append_right (h : Spells xs start word stop) (rest : List α) : Spells (xs ++ rest) start word stop := by
  obtain ⟨before, after, rfl, hbefore, hstop⟩ := h
  refine ⟨before, after ++ rest, ?_, hbefore, hstop⟩
  simp only [List.append_assoc]

end Span
