import Pcloud.Lib.Recency
import Pcloud.Model.Bytes

/-!
# The page cache (`pcloud-cache/src/page_cache.rs`)

Pages by key, the page put longest ago first. Over `maxBytes` the first pages go.
A read does not move a page.
-/

namespace Pcloud

structure PageCache where
  maxBytes : Nat := 256 * 1024 * 1024
  usedBytes : Nat := 0
  entries : List (String × Bytes) := []
  nodup : (entries.map Prod.fst).Nodup := by simp

namespace PageCache

/-- The loop of `evict_if_needed`, on the used bytes and the pages. -/
def evictIfNeeded (maxBytes : Nat) : Nat → List (String × Bytes) → Nat × List (String × Bytes)
  | used, [] => (used, [])
  | used, page :: pages =>
    if maxBytes < used then evictIfNeeded maxBytes (used - page.2.length) pages else (used, page :: pages)

theorem evictIfNeeded_suffix (maxBytes used : Nat) (pages : List (String × Bytes)) :
    (evictIfNeeded maxBytes used pages).2 <:+ pages := by
  induction pages generalizing used with
  | nil => exact List.suffix_rfl
  | cons page pages ih =>
    unfold evictIfNeeded
    split
    · exact (ih _).trans (List.suffix_cons page pages)
    · exact List.suffix_rfl

/-- `LinkedHashMap::insert`, the key removed first. -/
def insert (entries : List (String × Bytes)) (key : String) (data : Bytes) : List (String × Bytes) :=
  entries.filter (·.1 ≠ key) ++ [(key, data)]

theorem nodup_insert {entries : List (String × Bytes)} (h : (entries.map Prod.fst).Nodup) (key : String)
    (data : Bytes) : ((insert entries key data).map Prod.fst).Nodup := by
  unfold insert
  rw [List.map_append, List.nodup_append]
  refine ⟨h.sublist (List.filter_sublist.map _), by simp, ?_⟩
  simp +contextual

variable (c : PageCache) (key : String)

def get : Option Bytes := c.entries.lookup key

def setMaxBytes (maxBytes : Nat) : PageCache where
  maxBytes
  usedBytes := (evictIfNeeded maxBytes c.usedBytes c.entries).1
  entries := (evictIfNeeded maxBytes c.usedBytes c.entries).2
  nodup := c.nodup.sublist ((evictIfNeeded_suffix maxBytes c.usedBytes c.entries).sublist.map _)

def put (data : Bytes) : PageCache :=
  let usedBytes := match c.entries.lookup key with
    | some previous => c.usedBytes - previous.length
    | none => c.usedBytes
  { c with
    usedBytes := usedBytes + data.length
    entries := insert c.entries key data
    nodup := nodup_insert c.nodup key data : PageCache }.setMaxBytes c.maxBytes

/-! ## What it holds -/

variable {c key} {data page : Bytes}

theorem get_eq_some : c.get key = some page ↔ (key, page) ∈ c.entries :=
  Recency.lookup_eq_some_iff_mem c.nodup

theorem mem_setMaxBytes {maxBytes : Nat} (h : (c.setMaxBytes maxBytes).get key = some page) :
    c.get key = some page := by
  rw [get_eq_some] at h ⊢
  exact (evictIfNeeded_suffix maxBytes c.usedBytes c.entries).subset h

theorem get_put {other : String} (h : (c.put key data).get other = some page) :
    other = key ∧ page = data ∨ other ≠ key ∧ c.get other = some page := by
  have hmem := get_eq_some.mp (mem_setMaxBytes h)
  simp only [insert, List.mem_append, List.mem_filter, List.mem_singleton, Prod.mk.injEq] at hmem
  rcases hmem with hmem | hmem
  · exact .inr ⟨of_decide_eq_true hmem.2, get_eq_some.mpr hmem.1⟩
  · exact .inl hmem

end PageCache

end Pcloud
