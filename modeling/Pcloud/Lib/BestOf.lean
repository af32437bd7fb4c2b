import Mathlib.Data.List.Induction
import Mathlib.Data.List.Nodup

/-!
# The best of each bucket

A table with one entry for each bucket, filled from a list. An entry gives way to an item of more weight only.
-/

namespace BestOf

variable {κ α β : Type*} [DecidableEq κ]

/-- Offers `item` of weight `m` to its bucket. -/
def pick (slots : List (κ × Nat × α)) (bucket : κ) (m : Nat) (item : α) : List (κ × Nat × α) :=
  match slots with
  | [] => [(bucket, m, item)]
  | (b, t, existing) :: rest =>
    if b = bucket then (if t < m then (b, m, item) else (b, t, existing)) :: rest
    else (b, t, existing) :: pick rest bucket m item

/-- An input without a bucket is passed over. -/
def offer (place : β → Option (κ × Nat × α)) (slots : List (κ × Nat × α)) (x : β) : List (κ × Nat × α) :=
  match place x with
  | some (bucket, m, item) => pick slots bucket m item
  | none => slots

def collect (place : β → Option (κ × Nat × α)) (inputs : List β) : List (κ × Nat × α) :=
  inputs.foldl (offer place) []

/-! ## One item -/

section Pick

variable {slots : List (κ × Nat × α)} {bucket k : κ} {m t : Nat} {item a : α}

-- The attribute has the equations of `pick` made here, once for all the proofs below.
attribute [local simp] pick in
theorem mem_pick (h : (k, t, a) ∈ pick slots bucket m item) :
    (k, t, a) ∈ slots ∨ (k, t, a) = (bucket, m, item) := by
  induction slots with
  | nil => exact .inr (List.mem_singleton.mp h)
  | cons slot rest ih =>
    obtain ⟨b, t', existing⟩ := slot
    rw [pick] at h
    split at h
    · rename_i hb
      rcases List.mem_cons.mp h with heq | hrest
      · split at heq
        · exact .inr (hb ▸ heq)
        · exact .inl (heq ▸ List.mem_cons_self)
      · exact .inl (List.mem_cons_of_mem _ hrest)
    · rcases List.mem_cons.mp h with heq | hrest
      · exact .inl (heq ▸ List.mem_cons_self)
      · exact (ih hrest).imp_left (List.mem_cons_of_mem _)

theorem exists_pick (slots : List (κ × Nat × α)) (bucket : κ) (m : Nat) (item : α) :
    ∃ t a, (bucket, t, a) ∈ pick slots bucket m item ∧ m ≤ t := by
  induction slots with
  | nil => exact ⟨m, item, List.mem_singleton_self _, Nat.le_refl _⟩
  | cons slot rest ih =>
    obtain ⟨b, t', existing⟩ := slot
    rw [pick]
    split
    · rename_i hb
      subst hb
      split
      · exact ⟨m, item, List.mem_cons_self, Nat.le_refl _⟩
      · exact ⟨t', existing, List.mem_cons_self, by omega⟩
    · obtain ⟨t, a, hmem, hle⟩ := ih
      exact ⟨t, a, List.mem_cons_of_mem _ hmem, hle⟩

theorem exists_pick_of_mem (bucket : κ) (m : Nat) (item : α) (h : (k, t, a) ∈ slots) :
    ∃ t' a', (k, t', a') ∈ pick slots bucket m item ∧ t ≤ t' := by
  induction slots with
  | nil => cases h
  | cons slot rest ih =>
    obtain ⟨b, t₀, existing⟩ := slot
    rw [pick]
    rcases List.mem_cons.mp h with heq | hrest
    · obtain ⟨rfl, rfl, rfl⟩ : k = b ∧ t = t₀ ∧ a = existing := by simpa using heq
      split
      · split
        · rename_i hlt
          exact ⟨m, item, List.mem_cons_self, Nat.le_of_lt hlt⟩
        · exact ⟨t, a, List.mem_cons_self, Nat.le_refl _⟩
      · exact ⟨t, a, List.mem_cons_self, Nat.le_refl _⟩
    · split
      · exact ⟨t, a, List.mem_cons_of_mem _ hrest, Nat.le_refl _⟩
      · obtain ⟨t', a', hmem, hle⟩ := ih hrest
        exact ⟨t', a', List.mem_cons_of_mem _ hmem, hle⟩

theorem map_fst_pick (slots : List (κ × Nat × α)) (bucket : κ) (m : Nat) (item : α) :
    (pick slots bucket m item).map Prod.fst =
      if bucket ∈ slots.map Prod.fst then slots.map Prod.fst else slots.map Prod.fst ++ [bucket] := by
  induction slots with
  | nil => simp [pick]
  | cons slot rest ih =>
    obtain ⟨b, t', existing⟩ := slot
    rw [pick]
    by_cases hb : b = bucket
    · subst hb
      rw [if_pos rfl, List.map_cons, List.map_cons, if_pos List.mem_cons_self]
      split <;> rfl
    · rw [if_neg hb, List.map_cons, ih, List.map_cons]
      have hne : bucket ≠ b := fun h => hb h.symm
      simp only [List.mem_cons, hne, false_or]
      split <;> rfl

theorem nodup_pick (h : (slots.map Prod.fst).Nodup) : ((pick slots bucket m item).map Prod.fst).Nodup := by
  rw [map_fst_pick]
  split
  · exact h
  · rename_i hmem
    exact List.Nodup.append h (List.nodup_singleton bucket)
      (List.disjoint_singleton.mpr hmem)

end Pick

/-! ## All of them -/

section Collect

variable {place : β → Option (κ × Nat × α)} {inputs : List β} {x : β} {k : κ} {m t : Nat} {a a' : α}

theorem collect_append_singleton (inputs : List β) (x : β) :
    collect place (inputs ++ [x]) = offer place (collect place inputs) x := by
  simp [collect, List.foldl_append]

theorem mem_collect (h : (k, t, a) ∈ collect place inputs) : ∃ x ∈ inputs, place x = some (k, t, a) := by
  induction inputs using List.reverseRecOn with
  | nil => cases h
  | append_singleton inputs x ih =>
    rw [collect_append_singleton, offer] at h
    split at h
    · rename_i bucket m item hplace
      rcases mem_pick h with hold | hnew
      · obtain ⟨y, hy, hpy⟩ := ih hold
        exact ⟨y, List.mem_append_left _ hy, hpy⟩
      · exact ⟨x, List.mem_append_right _ (List.mem_singleton_self x), hplace.trans (congrArg some hnew.symm)⟩
    · obtain ⟨y, hy, hpy⟩ := ih h
      exact ⟨y, List.mem_append_left _ hy, hpy⟩

theorem exists_collect (hx : x ∈ inputs) (hplace : place x = some (k, m, a)) :
    ∃ t a', (k, t, a') ∈ collect place inputs ∧ m ≤ t := by
  induction inputs using List.reverseRecOn with
  | nil => cases hx
  | append_singleton inputs y ih =>
    rw [collect_append_singleton, offer]
    rcases List.mem_append.mp hx with hx | hx
    · obtain ⟨t, a', hmem, hle⟩ := ih hx
      split
      · rename_i bucket m' item _
        obtain ⟨t', a'', hmem', hle'⟩ := exists_pick_of_mem bucket m' item hmem
        exact ⟨t', a'', hmem', Nat.le_trans hle hle'⟩
      · exact ⟨t, a', hmem, hle⟩
    · obtain rfl := List.mem_singleton.mp hx
      rw [hplace]
      exact exists_pick _ k m a

theorem nodup_collect (place : β → Option (κ × Nat × α)) (inputs : List β) :
    ((collect place inputs).map Prod.fst).Nodup := by
  induction inputs using List.reverseRecOn with
  | nil => exact List.nodup_nil
  | append_singleton inputs x ih =>
    rw [collect_append_singleton, offer]
    split
    · exact nodup_pick ih
    · exact ih

theorem collect_unique {t t' : Nat} (h : (k, t, a) ∈ collect place inputs) (h' : (k, t', a') ∈ collect place inputs) :
    t = t' ∧ a = a' := by
  have := List.inj_on_of_nodup_map (nodup_collect place inputs) h h' rfl
  simpa using this

theorem le_of_mem_collect (h : (k, t, a) ∈ collect place inputs) (hx : x ∈ inputs) (hplace : place x = some (k, m, a')) :
    m ≤ t := by
  obtain ⟨t', a'', hmem, hle⟩ := exists_collect hx hplace
  rwa [(collect_unique h hmem).1]

theorem mem_collect_of_best (hx : x ∈ inputs) (hplace : place x = some (k, m, a))
    (hbest : ∀ y ∈ inputs, ∀ m' a', place y = some (k, m', a') → m ≤ m' → m' = m ∧ a' = a) :
    (k, m, a) ∈ collect place inputs := by
  obtain ⟨t, a', hmem, hle⟩ := exists_collect hx hplace
  obtain ⟨y, hy, hpy⟩ := mem_collect hmem
  obtain ⟨rfl, rfl⟩ := hbest y hy t a' hpy hle
  exact hmem

theorem notMem_collect_of_lt {y : β} {m' : Nat} (hy : y ∈ inputs) (hplace : place y = some (k, m', a'))
    (hlt : m < m') : (k, m, a) ∉ collect place inputs := by
  intro hmem
  have hle := le_of_mem_collect hmem hy hplace
  omega

end Collect

end BestOf
