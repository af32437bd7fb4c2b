import Mathlib.Data.List.Induction
import Mathlib.Data.List.Nodup

/-!
# The last of each key

A list that is filled item by item. An item takes the place of the one of its key, or the end of the list.
-/

namespace Coalesce

variable {α κ : Type*} [DecidableEq κ] (key : α → κ)

def put (a : α) : List α → List α
  | [] => [a]
  | b :: kept => if key b = key a then a :: kept else b :: put a kept

def collect (items : List α) : List α := items.foldl (fun kept a => put key a kept) []

theorem collect_concat (items : List α) (a : α) : collect key (items ++ [a]) = put key a (collect key items) :=
  List.foldl_concat ..

/-! ## One item -/

section Put

variable {key}
variable {a b : α} {kept : List α}

theorem put_of_notMem (h : key a ∉ kept.map key) : put key a kept = kept ++ [a] := by
  induction kept with
  | nil => rfl
  | cons b kept ih =>
    rw [List.map_cons, List.mem_cons, not_or] at h
    rw [put, if_neg (Ne.symm h.1), ih h.2, List.cons_append]

theorem map_put_of_mem (h : key a ∈ kept.map key) : (put key a kept).map key = kept.map key := by
  induction kept with
  | nil => cases h
  | cons b kept ih =>
    rw [put]
    split
    · rename_i hb
      rw [List.map_cons, List.map_cons, hb]
    · rename_i hb
      rcases List.mem_cons.mp h with ha | ha
      · exact absurd ha.symm hb
      · rw [List.map_cons, List.map_cons, ih ha]

theorem mem_put (hnodup : (kept.map key).Nodup) (h : b ∈ put key a kept) :
    b = a ∨ b ∈ kept ∧ key b ≠ key a := by
  induction kept with
  | nil => exact .inl (List.mem_singleton.mp h)
  | cons c kept ih =>
    obtain ⟨hc, hrest⟩ := List.nodup_cons.mp hnodup
    rw [put] at h
    split at h
    · rename_i hca
      rcases List.mem_cons.mp h with rfl | h
      · exact .inl rfl
      · refine .inr ⟨List.mem_cons_of_mem _ h, fun hba => hc ?_⟩
        rw [hca, ← hba]
        exact List.mem_map_of_mem h
    · rename_i hca
      rcases List.mem_cons.mp h with rfl | h
      · exact .inr ⟨List.mem_cons_self, hca⟩
      · exact (ih hrest h).imp_right fun ⟨hb, hne⟩ => ⟨List.mem_cons_of_mem _ hb, hne⟩

end Put

/-! ## All items -/

theorem map_collect [BEq κ] [LawfulBEq κ] (items : List α) :
    (collect key items).map key = (items.map key).eraseDups := by
  induction items using List.reverseRecOn with
  | nil => rfl
  | append_singleton items a ih =>
    rw [collect_concat, List.map_append, List.eraseDups_append, ← ih]
    by_cases ha : key a ∈ items.map key
    · have hkept : key a ∈ (collect key items).map key := by rwa [ih, List.mem_eraseDups]
      rw [map_put_of_mem hkept, List.map_singleton, List.removeAll, List.filter_cons_of_neg (by simpa using ha),
        List.filter_nil, List.eraseDups_nil, List.append_nil]
    · have hkept : key a ∉ (collect key items).map key := by rwa [ih, List.mem_eraseDups]
      rw [put_of_notMem hkept, List.map_append, List.map_singleton, List.removeAll,
        List.filter_cons_of_pos (by simpa using ha)]
      rfl

theorem nodup_collect (items : List α) : ((collect key items).map key).Nodup := by
  induction items using List.reverseRecOn with
  | nil => exact .nil
  | append_singleton items a ih =>
    rw [collect_concat]
    by_cases ha : key a ∈ (collect key items).map key
    · rwa [map_put_of_mem ha]
    · rw [put_of_notMem ha, List.map_append]
      exact ih.append (List.nodup_singleton _) (by simpa using ha)

variable {key}

theorem getLast_of_mem_collect {items : List α} {a : α} (h : a ∈ collect key items) :
    (items.filter fun b => key b = key a).getLast? = some a := by
  induction items using List.reverseRecOn with
  | nil => cases h
  | append_singleton items b ih =>
    rw [collect_concat] at h
    rw [List.filter_append]
    rcases mem_put (nodup_collect key items) h with rfl | ⟨ha, hne⟩
    · simp
    · rw [List.filter_cons_of_neg (by simpa using Ne.symm hne), List.filter_nil, List.append_nil]
      exact ih ha

theorem mem_of_mem_collect {items : List α} {a : α} (h : a ∈ collect key items) : a ∈ items :=
  (List.mem_filter.mp (List.mem_of_getLast? (getLast_of_mem_collect h))).1

theorem collect_congr {ι : Type*} [DecidableEq ι] {key' : α → ι} {items : List α}
    (h : ∀ a ∈ items, ∀ b ∈ items, key a = key b ↔ key' a = key' b) : collect key items = collect key' items := by
  have hput : ∀ (a : α) (kept : List α), (∀ b ∈ kept, key b = key a ↔ key' b = key' a) →
      put key a kept = put key' a kept := by
    intro a kept hkept
    induction kept with
    | nil => rfl
    | cons b kept ih =>
      have hb := hkept b List.mem_cons_self
      rw [put, put, ih fun c hc => hkept c (List.mem_cons_of_mem _ hc)]
      simp only [hb]
  induction items using List.reverseRecOn with
  | nil => rfl
  | append_singleton items a ih =>
    have hold : ∀ b ∈ items, b ∈ items ++ [a] := fun b hb => List.mem_append_left _ hb
    rw [collect_concat, collect_concat, ← ih fun b hb c hc => h b (hold b hb) c (hold c hc)]
    refine hput a _ fun b hb => ?_
    exact h b (hold b (mem_of_mem_collect hb)) a (List.mem_append_right _ (List.mem_singleton_self a))

end Coalesce
