import Mathlib.Order.Nat
import Mathlib.Data.Nat.Init

/-!
# A ladder of age buckets

An item arrives at each time, and all grow older. A bucket keeps one of the items whose age it
covers. As long as every bucket keeps one, an item can climb into the next bucket only if all the
buckets below pass theirs on at the same time.
-/

/-- Item `j` arrives at time `j`. Bucket `k` covers the ages from `floor k` up to `floor (k + 1)`. -/
structure AgeLadder where
  floor : Nat → Nat
  levels : Nat
  age : Nat → Nat → Nat
  kept : Nat → Nat → Prop
  bottom : floor 0 = 0
  arrives : ∀ i, age i i < floor 1
  past : ∀ {i j}, kept i j → j ≤ i
  carried : ∀ {i j}, kept (i + 1) j → j ≤ i → kept i j
  older : ∀ {i j j'}, j ≤ j' → j' ≤ i → age i j' ≤ age i j
  grows : ∀ {i j}, j ≤ i → age i j ≤ age (i + 1) j
  unique : ∀ {i k j j'}, k < levels → kept i j → kept i j' → floor k ≤ age i j → age i j < floor (k + 1) →
    floor k ≤ age i j' → age i j' < floor (k + 1) → j = j'

namespace AgeLadder

variable (L : AgeLadder)

structure Holds (i k j : Nat) : Prop where
  kept : L.kept i j
  above : L.floor k ≤ L.age i j
  below : L.age i j < L.floor (k + 1)

/-- Every bucket keeps an item. -/
def Full (i : Nat) : Prop := ∀ k < L.levels, ∃ j, L.Holds i k j

/-- The bucket's item is in the next bucket at the next time. -/
def Promoted (i k j : Nat) : Prop := L.Holds i k j ∧ L.Holds (i + 1) (k + 1) j

variable {L} {i k j j' : Nat}

theorem Holds.eq (hk : k < L.levels) (h : L.Holds i k j) (h' : L.Holds i k j') : j = j' :=
  L.unique hk h.kept h'.kept h.above h.below h'.above h'.below

theorem Holds.le_of_above (hk : k < L.levels) (h : L.Holds i k j) (hkept : L.kept i j')
    (habove : L.floor k ≤ L.age i j') : j' ≤ j := by
  by_contra hlater
  have hage := L.older (Nat.le_of_not_le hlater) (L.past hkept)
  have h' : L.Holds i k j' := ⟨hkept, habove, hage.trans_lt h.below⟩
  exact hlater (h'.eq hk h).le

theorem Holds.above_of_lt (hk : k < L.levels) (h : L.Holds i k j) (hkept : L.kept i j') (hlt : j' < j) :
    L.floor (k + 1) ≤ L.age i j' := by
  by_contra hbelow
  have hage := L.older hlt.le (L.past h.kept)
  have h' : L.Holds i k j' := ⟨hkept, h.above.trans hage, Nat.lt_of_not_le hbelow⟩
  exact hlt.ne (h'.eq hk h)

theorem Holds.lt_of_succ (h : L.Holds i k j) (h' : L.Holds i (k + 1) j') : j' < j := by
  by_contra hlater
  have hage := L.older (Nat.le_of_not_lt hlater) (L.past h'.kept)
  have hbelow := h.below
  have habove := h'.above
  omega

/-! ## One step -/

theorem Holds.past_of_succ (h : L.Holds (i + 1) 1 j) : j ≤ i := by
  by_contra hnew
  obtain rfl : j = i + 1 := by
    have := L.past h.kept
    omega
  exact absurd h.above (Nat.not_le.mpr (L.arrives (i + 1)))

theorem holder_le (hfull : L.Full i) (hfull' : L.Full (i + 1)) (hk : k + 1 < L.levels)
    (h' : L.Holds (i + 1) (k + 1) j') (h : L.Holds i k j) : j' ≤ j := by
  induction k generalizing j j' with
  | zero =>
    have hkept := L.carried h'.kept h'.past_of_succ
    have habove : L.floor 0 ≤ L.age i j' := by
      rw [L.bottom]
      exact Nat.zero_le _
    exact h.le_of_above (by omega) hkept habove
  | succ k ih =>
    obtain ⟨below, hbelow⟩ := hfull k (by omega)
    obtain ⟨below', hbelow'⟩ := hfull' (k + 1) (by omega)
    have hlt : j' < below := (hbelow'.lt_of_succ h').trans_le (ih (by omega) hbelow' hbelow)
    have hkept := L.carried h'.kept (hlt.le.trans (L.past hbelow.kept))
    exact h.le_of_above (by omega) hkept (hbelow.above_of_lt (by omega) hkept hlt)

theorem Promoted.below (hfull : L.Full i) (hfull' : L.Full (i + 1)) (hk : k + 2 < L.levels)
    (h : L.Promoted i (k + 1) j) (hj' : L.Holds i k j') : L.Promoted i k j' := by
  obtain ⟨next, hnext⟩ := hfull' (k + 1) (by omega)
  have hle := holder_le hfull hfull' (by omega) hnext hj'
  have hlt := hnext.lt_of_succ h.2
  have hkept := L.carried hnext.kept (hle.trans (L.past hj'.kept))
  rcases hle.lt_or_eq with hbefore | rfl
  · have hpast := hj'.above_of_lt (by omega) hkept hbefore
    exact absurd (h.1.le_of_above (by omega) hkept hpast) (Nat.not_le.mpr hlt)
  · exact ⟨hj', hnext⟩

theorem Promoted.exists_below (hfull : L.Full i) (hfull' : L.Full (i + 1)) (hk : k + 1 < L.levels)
    (h : L.Promoted i k j) {m : Nat} (hm : m ≤ k) : ∃ j', L.Promoted i m j' := by
  induction k generalizing j with
  | zero =>
    obtain rfl : m = 0 := by omega
    exact ⟨j, h⟩
  | succ k ih =>
    rcases hm.lt_or_eq with hlt | rfl
    · obtain ⟨below, hbelow⟩ := hfull k (by omega)
      exact ih (by omega) (h.below hfull hfull' (by omega) hbelow) (by omega)
    · exact ⟨j, h⟩

theorem promoted_of_replaced (hfull : L.Full i) (hfull' : L.Full (i + 1)) (hk : k + 1 < L.levels)
    (h : L.Holds i (k + 1) j) (h' : L.Holds (i + 1) (k + 1) j') (hne : j' ≠ j) : L.Promoted i k j' := by
  obtain ⟨below, hbelow⟩ := hfull k (by omega)
  have hle := holder_le hfull hfull' hk h' hbelow
  have hkept := L.carried h'.kept (hle.trans (L.past hbelow.kept))
  rcases hle.lt_or_eq with hbefore | rfl
  · have hpast := hbelow.above_of_lt (by omega) hkept hbefore
    have hlt : j' < j := (h.le_of_above hk hkept hpast).lt_of_ne hne
    -- It was past the bucket already.
    have hage := h.above_of_lt hk hkept hlt
    exact absurd (hage.trans (L.grows (L.past hkept))) (Nat.not_le.mpr h'.below)
  · exact ⟨hbelow, h'⟩

theorem exists_replaced {n : Nat} (h : L.Holds i k j) (hfull : ∀ m ≤ n, L.Full (i + m)) (hk : k < L.levels)
    (hleaves : ¬ L.Holds (i + n) k j) :
    ∃ m < n, L.Holds (i + m) k j ∧ ∃ j', j' ≠ j ∧ L.Holds (i + m + 1) k j' := by
  induction n with
  | zero => exact absurd h hleaves
  | succ n ih =>
    by_cases hstays : L.Holds (i + n) k j
    · obtain ⟨j', hj'⟩ := hfull (n + 1) le_rfl k hk
      refine ⟨n, Nat.lt_succ_self n, hstays, j', ?_, hj'⟩
      rintro rfl
      exact hleaves hj'
    · obtain ⟨m, hm, hreplaced⟩ := ih (fun m hm => hfull m (by omega)) hstays
      exact ⟨m, by omega, hreplaced⟩

theorem kept_of_le {i' : Nat} (h : L.kept i' j) (hj : j ≤ i) (hi : i ≤ i') : L.kept i j := by
  induction i', hi using Nat.le_induction with
  | base => exact h
  | succ i' hi ih => exact ih (L.carried h (hj.trans hi))

end AgeLadder
