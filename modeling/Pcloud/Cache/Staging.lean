import Mathlib.Data.List.AList
import Pcloud.Lib.Recency

/-!
# The staging buffer (`pcloud-cache/src/staging.rs`)

Staged bytes by path, at most `maxOpenFiles` of them. A write beyond that drops the path that was
staged longest ago. `α` is what is staged: the buffer never looks at it.
-/

open Recency

namespace Pcloud

structure StagingCache (α : Type) where
  maxOpenFiles : Nat := 64
  files : AList fun _ : String => α := ∅
  openOrder : List String := []

namespace StagingCache

variable {α : Type}

/-- The loop of `evict_if_needed`, on the files and the order. -/
def evictIfNeeded (maxOpenFiles : Nat) (files : AList fun _ : String => α) :
    List String → (AList fun _ : String => α) × List String
  | [] => (files, [])
  | oldest :: order =>
    if maxOpenFiles < files.keys.length then evictIfNeeded maxOpenFiles (files.erase oldest) order
    else (files, oldest :: order)

variable (c : StagingCache α) (path : String)

def get : Option α := c.files.lookup path

def stage (bytes : α) : StagingCache α :=
  let order := if (c.files.lookup path).isSome then c.openOrder.filter (· ≠ path) else c.openOrder
  let (files, openOrder) :=
    evictIfNeeded c.maxOpenFiles (c.files.insert path bytes) (order ++ [path])
  { c with files, openOrder }

/-! ## What it holds -/

/-- The buffer holds the newest entries of a history, in the order in which they were staged. -/
structure Holds (history : List (String × α)) : Prop where
  order : c.openOrder = ((held c.maxOpenFiles history).map Prod.fst).reverse
  files : ∀ path, c.files.lookup path = (held c.maxOpenFiles history).lookup path

variable {c}

theorem evictIfNeeded_eq (maxOpenFiles : Nat) {order : List String}
    {files : AList fun _ : String => α} (h : files.keys.Perm order) :
    (evictIfNeeded maxOpenFiles files order).2 = order.drop (order.length - maxOpenFiles) ∧
      ∀ path, (evictIfNeeded maxOpenFiles files order).1.lookup path =
        if path ∈ order.drop (order.length - maxOpenFiles) then files.lookup path else none := by
  induction order generalizing files with
  | nil =>
    refine ⟨by simp [evictIfNeeded], fun path => ?_⟩
    have hnone : files.lookup path = none := by
      rw [AList.lookup_eq_none, AList.mem_keys, h.mem_iff]
      exact List.not_mem_nil
    simp [evictIfNeeded, hnone]
  | cons oldest order ih =>
    have hlen := h.length_eq
    have hnodup := h.nodup_iff.mp files.keys_nodup
    rw [evictIfNeeded]
    split
    · rename_i hlt
      have hdrop : (oldest :: order).drop ((oldest :: order).length - maxOpenFiles) =
          order.drop (order.length - maxOpenFiles) := by
        rw [List.length_cons, show order.length + 1 - maxOpenFiles =
          order.length - maxOpenFiles + 1 by simp at hlen; omega, List.drop_succ_cons]
      have herase : (files.erase oldest).keys.Perm order := by
        rw [AList.keys_erase]
        simpa using h.erase oldest
      obtain ⟨horder, hfiles⟩ := ih herase
      rw [hdrop]
      refine ⟨horder, fun path => ?_⟩
      rw [hfiles]
      split
      · rename_i hmem
        have hne : path ≠ oldest := by
          rintro rfl
          exact (List.nodup_cons.mp hnodup).1 (List.mem_of_mem_drop hmem)
        rw [AList.lookup_erase_ne hne]
      · rfl
    · rename_i hle
      have hzero : (oldest :: order).length - maxOpenFiles = 0 := by omega
      rw [hzero, List.drop_zero]
      refine ⟨rfl, fun path => ?_⟩
      split
      · rfl
      · rename_i hmem
        rw [AList.lookup_eq_none, AList.mem_keys, h.mem_iff]
        exact hmem

theorem lookup_take (l : List (String × α)) (n : Nat) (path : String) :
    (l.take n).lookup path = if path ∈ (l.take n).map Prod.fst then l.lookup path else none := by
  split
  · rename_i hmem
    obtain ⟨v, hv⟩ := Option.isSome_iff_exists.mp (lookup_isSome.mpr hmem)
    have hall : l.lookup path = ((l.take n).lookup path).or ((l.drop n).lookup path) := by
      rw [← List.lookup_append, List.take_append_drop]
    rw [hall, hv, Option.some_or]
  · rename_i hmem
    rwa [← lookup_isSome, Option.not_isSome_iff_eq_none] at hmem

theorem Holds.mem_iff {history : List (String × α)} (h : c.Holds history) :
    path ∈ c.files ↔ path ∈ (held c.maxOpenFiles history).map Prod.fst := by
  rw [← AList.lookup_isSome, h.files, lookup_isSome]

theorem Holds.order_filter {history : List (String × α)} (h : c.Holds history) :
    (if (c.files.lookup path).isSome then c.openOrder.filter (· ≠ path) else c.openOrder) =
      c.openOrder.filter (· ≠ path) := by
  split
  · rfl
  · rename_i hnone
    have habsent : path ∉ c.openOrder := by
      rw [h.order, List.mem_reverse, ← h.mem_iff, ← AList.lookup_isSome]
      exact hnone
    symm
    rw [List.filter_eq_self]
    intro other hother
    refine decide_eq_true fun heq => habsent ?_
    rwa [← heq]

theorem holds_new (maxOpenFiles : Nat) : ({ maxOpenFiles } : StagingCache α).Holds [] :=
  ⟨by simp [held, recent], fun path => by simp [held, recent]⟩

theorem Holds.stage {history : List (String × α)} (h : c.Holds history) (bytes : α) :
    (c.stage path bytes).Holds ((path, bytes) :: history) := by
  set kept := (path, bytes) :: (held c.maxOpenFiles history).filter (·.1 ≠ path) with hkept
  have horder : (if (c.files.lookup path).isSome then c.openOrder.filter (· ≠ path) else c.openOrder) ++
      [path] = (kept.map Prod.fst).reverse := by
    rw [h.order_filter, h.order, hkept]
    simp [List.filter_map, Function.comp_def]
  have hlookup : ∀ other, (c.files.insert path bytes).lookup other = kept.lookup other := by
    intro other
    rw [hkept, List.lookup_cons]
    by_cases hsame : other = path
    · subst hsame
      simp
    · rw [AList.lookup_insert_ne hsame, h.files, lookup_filter_ne hsame, beq_false_of_ne hsame]
  have hnodup : (kept.map Prod.fst).Nodup := by
    rw [hkept, List.map_cons, List.nodup_cons]
    refine ⟨by simp, ?_⟩
    exact (held_keys_nodup _ _).sublist (List.filter_sublist.map _)
  have hperm : (c.files.insert path bytes).keys.Perm (kept.map Prod.fst).reverse := by
    refine List.Perm.trans ?_ (List.reverse_perm _).symm
    rw [List.perm_ext_iff_of_nodup (AList.keys_nodup _) hnodup]
    intro other
    rw [← AList.mem_keys, ← AList.lookup_isSome, hlookup, lookup_isSome]
  obtain ⟨hevict, hfiles⟩ := evictIfNeeded_eq c.maxOpenFiles hperm
  have htake : (kept.map Prod.fst).reverse.drop ((kept.map Prod.fst).reverse.length - c.maxOpenFiles) =
      ((held c.maxOpenFiles ((path, bytes) :: history)).map Prod.fst).reverse := by
    rw [held_cons, ← hkept, List.map_take, List.reverse_take, List.length_reverse]
  simp only [StagingCache.stage, horder]
  constructor
  · exact hevict.trans htake
  · intro other
    refine (hfiles other).trans ?_
    rw [htake, hlookup, held_cons, ← hkept, lookup_take]
    simp

end StagingCache

end Pcloud
