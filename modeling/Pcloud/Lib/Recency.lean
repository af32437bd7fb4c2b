import Mathlib.Data.List.Nodup

/-!
# The most recent values

A history is a list of keys with their values, newest first. `recent` keeps the newest value of
each key, and `held n` the `n` newest of those: what a buffer of `n` entries holds that drops
the key which was written longest ago.
-/

namespace Recency

variable {κ α : Type*} [DecidableEq κ]

def recent : List (κ × α) → List (κ × α)
  | [] => []
  | e :: history => e :: (recent history).filter (·.1 ≠ e.1)

def held (n : Nat) (history : List (κ × α)) : List (κ × α) := (recent history).take n

variable {n : Nat} {k : κ} {v : α} {e : κ × α} {history : List (κ × α)}

theorem lookup_isSome {l : List (κ × α)} : (l.lookup k).isSome ↔ k ∈ l.map Prod.fst := by
  induction l with
  | nil => simp
  | cons x l ih =>
    rw [List.lookup_cons, List.map_cons, List.mem_cons, ← ih]
    by_cases hk : k = x.1
    · simp [hk]
    · simp [hk, beq_false_of_ne hk]

theorem lookup_filter_ne {other : κ} (h : k ≠ other) (l : List (κ × α)) :
    (l.filter (·.1 ≠ other)).lookup k = l.lookup k := by
  induction l with
  | nil => rfl
  | cons x l ih =>
    rw [List.filter_cons, List.lookup_cons]
    split
    · rw [List.lookup_cons, ih]
    · rename_i hx
      have hother : x.1 = other := by simpa using hx
      rw [ih, hother, beq_false_of_ne h]

theorem lookup_eq_some_iff_mem {l : List (κ × α)} (h : (l.map Prod.fst).Nodup) : l.lookup k = some v ↔ (k, v) ∈ l := by
  induction l with
  | nil => simp
  | cons e l ih =>
    rw [List.map_cons, List.nodup_cons] at h
    rw [List.lookup_cons, List.mem_cons, Prod.ext_iff]
    by_cases hk : k = e.1
    · have habsent : (k, v) ∉ l := fun hmem => h.1 (hk ▸ List.mem_map_of_mem hmem)
      simp [hk ▸ habsent, hk, eq_comm]
    · simp [hk, beq_false_of_ne hk, ih h.2]

theorem lookup_recent (k : κ) (history : List (κ × α)) : (recent history).lookup k = history.lookup k := by
  induction history with
  | nil => rfl
  | cons e history ih =>
    rw [recent, List.lookup_cons, List.lookup_cons]
    by_cases hk : k = e.1
    · simp [hk]
    · rw [lookup_filter_ne hk, ih]

theorem recent_keys_nodup (history : List (κ × α)) : ((recent history).map Prod.fst).Nodup := by
  induction history with
  | nil => exact List.nodup_nil
  | cons e history ih =>
    rw [recent, List.map_cons, List.nodup_cons]
    refine ⟨by simp, ?_⟩
    exact ih.sublist (List.filter_sublist.map _)

theorem lookup_of_held (h : (held n history).lookup k = some v) : history.lookup k = some v := by
  rw [← lookup_recent, ← List.take_append_drop n (recent history), List.lookup_append]
  unfold held at h
  rw [h]
  rfl

theorem take_filter_take {l : List (κ × α)} (h : (l.map Prod.fst).Nodup) (n : Nat) :
    ((l.take (n + 1)).filter (·.1 ≠ k)).take n = (l.filter (·.1 ≠ k)).take n := by
  induction l generalizing n with
  | nil => simp
  | cons x l ih =>
    rw [List.map_cons, List.nodup_cons] at h
    rw [List.take_succ_cons, List.filter_cons, List.filter_cons]
    split
    · cases n with
      | zero => simp
      | succ n => rw [List.take_succ_cons, List.take_succ_cons, ih h.2]
    · rename_i hx
      have hkey : x.1 = k := by simpa using hx
      have hrest : ∀ y ∈ l, (decide (y.1 ≠ k)) = true := by
        intro y hy
        refine decide_eq_true fun heq => h.1 ?_
        rw [hkey, ← heq]
        exact List.mem_map_of_mem hy
      rw [List.filter_eq_self.mpr hrest,
        List.filter_eq_self.mpr fun y hy => hrest y (List.mem_of_mem_take hy), List.take_take, Nat.min_self]

theorem held_cons (n : Nat) (e : κ × α) (history : List (κ × α)) :
    held n (e :: history) = (e :: (held n history).filter (·.1 ≠ e.1)).take n := by
  unfold held
  cases n with
  | zero => rfl
  | succ n =>
    rw [recent, List.take_succ_cons, List.take_succ_cons, take_filter_take (recent_keys_nodup history)]

theorem held_keys_nodup (n : Nat) (history : List (κ × α)) : ((held n history).map Prod.fst).Nodup :=
  (recent_keys_nodup history).sublist ((List.take_sublist n _).map _)

end Recency
