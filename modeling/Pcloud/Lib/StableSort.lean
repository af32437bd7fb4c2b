import Mathlib.Data.List.Sort
import Mathlib.Data.Finset.Card
import Mathlib.Data.Finset.Insert

/-!
# Stable sorting, and cutting after the first few keys

`List.insertionSort` is the stable sort. A loop that walks a sorted list group by
group and stops after `m` groups takes exactly the keys of rank below `m`.
-/

namespace StableSort

/-! ## Stability -/

section Stable

variable {α : Type*} (r : α → α → Prop) [DecidableRel r]

theorem filter_insertionSort (p : α → Bool) (l : List α)
    (h : ∀ a ∈ l, ∀ b ∈ l, p a = true → p b = true → r a b) :
    (l.insertionSort r).filter p = l.filter p := by
  have hpair : (l.filter p).Pairwise r := by
    rw [List.pairwise_iff_forall_sublist]
    intro a b hab
    have ha := List.mem_filter.mp (hab.subset List.mem_cons_self)
    have hb := List.mem_filter.mp (hab.subset (List.mem_cons_of_mem _ List.mem_cons_self))
    exact h a ha.1 b hb.1 ha.2 hb.2
  have hsub : (l.filter p).Sublist ((l.insertionSort r).filter p) := by
    have := (List.sublist_insertionSort hpair List.filter_sublist).filter p
    simpa [List.filter_filter] using this
  exact (hsub.eq_of_length ((List.perm_insertionSort r l).filter p).length_eq.symm).symm

end Stable

/-! ## Rank -/

section Rank

variable {κ : Type*} [LinearOrder κ]

/-- How many of the keys are below `k`. -/
def rank (keys : Finset κ) (k : κ) : Nat := (keys.filter (· < k)).card

@[simp]
theorem rank_empty (k : κ) : rank ∅ k = 0 := rfl

theorem rank_insert_self {keys : Finset κ} {k : κ} (h : ∀ x ∈ keys, k ≤ x) :
    rank (insert k keys) k = 0 := by
  rw [rank, Finset.card_eq_zero, Finset.filter_eq_empty_iff]
  intro x hx
  rcases Finset.mem_insert.mp hx with rfl | hx
  · exact lt_irrefl x
  · exact not_lt.mpr (h x hx)

theorem rank_insert_of_lt {keys : Finset κ} {k x : κ} (hk : k ∉ keys) (hlt : k < x) :
    rank (insert k keys) x = rank keys x + 1 := by
  rw [rank, Finset.filter_insert, if_pos hlt, Finset.card_insert_of_notMem, rank]
  intro hmem
  exact hk (Finset.mem_filter.mp hmem).1

end Rank

/-! ## The first group of a sorted list -/

section Groups

variable {α κ : Type*} [LinearOrder κ] (key : α → κ)

theorem takeWhile_eq_filter {k : κ} {l : List α} (hs : l.Pairwise fun a b => key a ≤ key b)
    (hk : ∀ a ∈ l, k ≤ key a) :
    l.takeWhile (fun a => key a = k) = l.filter fun a => key a = k := by
  induction l with
  | nil => rfl
  | cons a l ih =>
    rw [List.pairwise_cons] at hs
    by_cases ha : key a = k
    · rw [List.takeWhile_cons_of_pos (by simpa using ha), List.filter_cons_of_pos (by simpa using ha)]
      rw [ih hs.2 (fun b hb => hk b (List.mem_cons_of_mem _ hb))]
    · rw [List.takeWhile_cons_of_neg (by simpa using ha), List.filter_cons_of_neg (by simpa using ha)]
      refine (List.filter_eq_nil_iff.mpr fun b hb => ?_).symm
      -- Everything after `a` is at least `key a`, which is above `k`.
      have hak : k < key a := lt_of_le_of_ne (hk a List.mem_cons_self) (Ne.symm ha)
      simpa using (lt_of_lt_of_le hak (hs.1 b hb)).ne'

theorem dropWhile_eq_filter {k : κ} {l : List α} (hs : l.Pairwise fun a b => key a ≤ key b)
    (hk : ∀ a ∈ l, k ≤ key a) :
    l.dropWhile (fun a => key a = k) = l.filter fun a => key a ≠ k := by
  induction l with
  | nil => rfl
  | cons a l ih =>
    rw [List.pairwise_cons] at hs
    by_cases ha : key a = k
    · rw [List.dropWhile_cons_of_pos (by simpa using ha), List.filter_cons_of_neg (by simpa using ha)]
      exact ih hs.2 (fun b hb => hk b (List.mem_cons_of_mem _ hb))
    · rw [List.dropWhile_cons_of_neg (by simpa using ha), List.filter_cons_of_pos (by simpa using ha)]
      congr 1
      refine (List.filter_eq_self.mpr fun b hb => ?_).symm
      have hak : k < key a := lt_of_le_of_ne (hk a List.mem_cons_self) (Ne.symm ha)
      simpa using (lt_of_lt_of_le hak (hs.1 b hb)).ne'

theorem eq_append_of_sorted {l : List α} (hs : l.Pairwise fun a b => key a ≤ key b) (k : κ) :
    l = l.filter (fun a => key a < k) ++ (l.filter (fun a => key a = k) ++ l.filter fun a => k < key a) := by
  induction l with
  | nil => rfl
  | cons a l ih =>
    rw [List.pairwise_cons] at hs
    have hrest := ih hs.2
    rcases lt_trichotomy (key a) k with ha | ha | ha
    · simpa [ha, ha.ne, ha.le] using hrest
    · have hnone : l.filter (fun a => key a < k) = [] := by
        refine List.filter_eq_nil_iff.mpr fun b hb => ?_
        simpa [ha] using hs.1 b hb
      rw [hnone, List.nil_append] at hrest
      simpa [ha, hnone] using hrest
    · have hnone : ∀ b ∈ l, k < key b := fun b hb => lt_of_lt_of_le ha (hs.1 b hb)
      rw [List.filter_eq_nil_iff.mpr, List.filter_eq_nil_iff.mpr, List.filter_eq_self.mpr]
      · rfl
      · simpa [ha] using hnone
      · simpa [ha.ne'] using fun b hb => (hnone b hb).ne'
      · simpa [ha.le] using fun b hb => (hnone b hb).le

section Cut

variable {l : List α} (hs : l.Pairwise fun a b => key a ≤ key b) (k : κ) (n : Nat)

include hs

theorem filter_lt_take :
    (l.take n).filter (fun a => key a < k) = (l.filter fun a => key a < k).take n := by
  have heq : ∀ m, ((l.filter fun a => key a = k).take m).filter (fun a => key a < k) = [] := by
    intro m
    refine List.filter_eq_nil_iff.mpr fun a ha => ?_
    have := (List.mem_filter.mp (List.mem_of_mem_take ha)).2
    simp_all
  have hgt : ∀ m, ((l.filter fun a => k < key a).take m).filter (fun a => key a < k) = [] := by
    intro m
    refine List.filter_eq_nil_iff.mpr fun a ha => ?_
    have := (List.mem_filter.mp (List.mem_of_mem_take ha)).2
    simpa using le_of_lt (of_decide_eq_true this)
  conv_lhs => rw [eq_append_of_sorted key hs k]
  rw [List.take_append, List.take_append, List.filter_append, List.filter_append, heq, hgt]
  rw [List.append_nil, List.append_nil, List.filter_eq_self]
  exact fun a ha => (List.mem_filter.mp (List.mem_of_mem_take ha)).2

theorem filter_eq_take :
    (l.take n).filter (fun a => key a = k) =
      (l.filter fun a => key a = k).take (n - (l.filter fun a => key a < k).length) := by
  have hlt : ∀ m, ((l.filter fun a => key a < k).take m).filter (fun a => key a = k) = [] := by
    intro m
    refine List.filter_eq_nil_iff.mpr fun a ha => ?_
    have := (List.mem_filter.mp (List.mem_of_mem_take ha)).2
    simpa using (of_decide_eq_true this).ne
  have hgt : ∀ m, ((l.filter fun a => k < key a).take m).filter (fun a => key a = k) = [] := by
    intro m
    refine List.filter_eq_nil_iff.mpr fun a ha => ?_
    have := (List.mem_filter.mp (List.mem_of_mem_take ha)).2
    simpa using (of_decide_eq_true this).ne'
  conv_lhs => rw [eq_append_of_sorted key hs k]
  rw [List.take_append, List.take_append, List.filter_append, List.filter_append, hlt, hgt]
  rw [List.append_nil, List.nil_append, List.filter_eq_self]
  exact fun a ha => (List.mem_filter.mp (List.mem_of_mem_take ha)).2

end Cut

end Groups

end StableSort
