import Mathlib.Algebra.BigOperators.Group.List.Basic
import Mathlib.Algebra.Order.Field.Basic
import Mathlib.Tactic.Linarith
import Mathlib.Tactic.Ring

/-!
# Paced grants

Grants in the order of their times, each paid from a level that rises at most at a rate. What is granted up to a
time is bounded by the level at the start and by what the rate gives since, and what is granted in an interval, where
no grant is paid from more than a capacity, by the capacity and by what the rate gives in the interval.
-/

namespace Pacing

variable {K : Type*} [CommRing K]

structure Grant (K : Type*) where
  time : K
  amount : K
deriving DecidableEq, Repr

def total (grants : List (Grant K)) : K := (grants.map Grant.amount).sum

variable [LinearOrder K]

def upTo (t : K) (grants : List (Grant K)) : List (Grant K) := grants.filter fun grant => grant.time ≤ t

/-- What is granted in the closed interval. -/
def within (s t : K) (grants : List (Grant K)) : List (Grant K) :=
  grants.filter fun grant => s ≤ grant.time ∧ grant.time ≤ t

/-- The items come one after the other, none before a time. -/
def InOrder {α : Type*} (clock : α → K) (start : K) (items : List α) : Prop :=
  (∀ item ∈ items, start ≤ clock item) ∧ items.Pairwise fun item item' => clock item ≤ clock item'

/-- The grants that follow where the level at some time is at most the one given. Each leaves a level that is not
negative, and is paid from one that fits. -/
inductive Paced (fits : K → Prop) (rate : K) : K → K → List (Grant K) → Prop
  | nil (time level : K) : Paced fits rate time level []
  | cons {time level level' : K} {grant : Grant K} {grants : List (Grant K)} (htime : time ≤ grant.time)
      (hlevel : 0 ≤ level') (hfits : fits (level' + grant.amount))
      (hrate : level' + grant.amount ≤ level + rate * (grant.time - time))
      (hrest : Paced fits rate grant.time level' grants) : Paced fits rate time level (grant :: grants)

variable {fits : K → Prop} {capacity rate time level s t : K} {grant : Grant K} {grants : List (Grant K)}

omit [CommRing K] in
theorem InOrder.tail {α : Type*} {clock : α → K} {start : K} {item : α} {items : List α}
    (h : InOrder clock start (item :: items)) : start ≤ clock item ∧ InOrder clock (clock item) items := by
  obtain ⟨hstart, hpairs⟩ := h
  obtain ⟨hfirst, hrest⟩ := List.pairwise_cons.mp hpairs
  exact ⟨hstart item List.mem_cons_self, hfirst, hrest⟩

omit [LinearOrder K] in
@[simp]
theorem total_nil : total ([] : List (Grant K)) = 0 := rfl

omit [LinearOrder K] in
@[simp]
theorem total_cons (grant : Grant K) : total (grant :: grants) = grant.amount + total grants := by
  simp [total]

theorem total_filter_pos (keep : Grant K → Bool) (h : ∀ grant ∈ grants, 0 ≤ grant.amount) :
    total ((grants.filter (0 < ·.amount)).filter keep) = total (grants.filter keep) := by
  induction grants with
  | nil => rfl
  | cons grant grants ih =>
    obtain ⟨hgrant, hgrants⟩ := List.forall_mem_cons.mp h
    by_cases hzero : grant.amount = 0
    · rw [List.filter_cons_of_neg (by simp [hzero]), ih hgrants, List.filter_cons]
      split
      · rw [total_cons, hzero, zero_add]
      · rfl
    · have hpos : 0 < grant.amount := lt_of_le_of_ne hgrant (Ne.symm hzero)
      rw [List.filter_cons_of_pos (by simpa using hpos), List.filter_cons, List.filter_cons]
      split
      · rw [total_cons, total_cons, ih hgrants]
      · exact ih hgrants

theorem Paced.times (h : Paced fits rate time level grants) : InOrder Grant.time time grants := by
  induction h with
  | nil => simp [InOrder]
  | cons htime _ _ _ _ ih =>
    refine ⟨List.forall_mem_cons.mpr ⟨htime, fun grant hgrant => htime.trans (ih.1 grant hgrant)⟩, ?_⟩
    exact List.pairwise_cons.mpr ih

theorem Paced.upTo_eq_nil (hrest : Paced fits rate grant.time level grants) (hafter : t < grant.time) :
    upTo t (grant :: grants) = [] := by
  refine List.filter_eq_nil_iff.mpr fun other hother => ?_
  rcases List.mem_cons.mp hother with rfl | hmem
  · simpa using hafter
  · simpa using hafter.trans_le (hrest.times.1 other hmem)

omit [CommRing K] in
theorem within_eq_upTo (h : ∀ grant ∈ grants, s ≤ grant.time) : within s t grants = upTo t grants :=
  List.filter_congr fun grant hgrant => by simp [h grant hgrant]

variable [IsStrictOrderedRing K]

theorem Paced.total_upTo (h : Paced fits rate time level grants) (hrate : 0 ≤ rate) (hlevel : 0 ≤ level)
    (ht : time ≤ t) : total (upTo t grants) ≤ level + rate * (t - time) := by
  induction h with
  | nil time level =>
    have hrise := mul_nonneg hrate (sub_nonneg.mpr ht)
    rw [show upTo t ([] : List (Grant K)) = [] from rfl, total_nil]
    linarith
  | @cons time level level' grant grants htime hlevel' _ hstep hrest ih =>
    by_cases hgrant : grant.time ≤ t
    · have hfollow := ih hlevel' hgrant
      have hin : upTo t (grant :: grants) = grant :: upTo t grants := List.filter_cons_of_pos (by simpa using hgrant)
      have hsplit : rate * (t - time) = rate * (grant.time - time) + rate * (t - grant.time) := by ring
      rw [hin, total_cons]
      linarith
    · have hrise := mul_nonneg hrate (sub_nonneg.mpr ht)
      rw [hrest.upTo_eq_nil (not_le.mp hgrant), total_nil]
      linarith

theorem Paced.total_within (h : Paced (· ≤ capacity) rate time level grants) (hrate : 0 ≤ rate)
    (hcapacity : 0 ≤ capacity) (hst : s ≤ t) : total (within s t grants) ≤ capacity + rate * (t - s) := by
  have hrise := mul_nonneg hrate (sub_nonneg.mpr hst)
  induction h with
  | nil time level =>
    rw [show within s t ([] : List (Grant K)) = [] from rfl, total_nil]
    linarith
  | @cons time level level' grant grants htime hlevel' hfits _ hrest ih =>
    by_cases hbefore : grant.time < s
    · have hout : within s t (grant :: grants) = within s t grants :=
        List.filter_cons_of_neg (by simpa using fun h => absurd h (not_le.mpr hbefore))
      rw [hout]
      exact ih
    · have hstart := not_lt.mp hbefore
      have hall : ∀ other ∈ grant :: grants, s ≤ other.time :=
        List.forall_mem_cons.mpr ⟨hstart, fun other hother => hstart.trans (hrest.times.1 other hother)⟩
      rw [within_eq_upTo hall]
      by_cases hgrant : grant.time ≤ t
      · have hin : upTo t (grant :: grants) = grant :: upTo t grants := List.filter_cons_of_pos (by simpa using hgrant)
        have hfollow := hrest.total_upTo hrate hlevel' hgrant
        have hless : rate * (t - grant.time) ≤ rate * (t - s) := mul_le_mul_of_nonneg_left (by linarith) hrate
        rw [hin, total_cons]
        linarith
      · rw [hrest.upTo_eq_nil (not_le.mp hgrant), total_nil]
        linarith

end Pacing
