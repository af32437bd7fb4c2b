import Mathlib.Algebra.Order.BigOperators.Group.List
import Mathlib.Algebra.Order.Ring.Nat
import Pcloud.Lib.Recency

/-!
# A map in the order of use

The entries of a map, the one used longest ago first. A write puts its entry at the end, and so does a read that is
to count as a use.
-/

@[ext]
structure LruMap (κ α : Type) where
  entries : List (κ × α)
  nodup : (entries.map Prod.fst).Nodup

namespace LruMap

variable {κ α : Type} [DecidableEq κ]

def empty : LruMap κ α := ⟨[], List.nodup_nil⟩

variable (m : LruMap κ α) (k : κ) (v : α)

def keys : List κ := m.entries.map Prod.fst

def find : Option α := m.entries.lookup k

/-- The entries that pass a test, in their order. -/
def restrict (p : κ × α → Bool) : LruMap κ α := ⟨m.entries.filter p, m.nodup.sublist (List.filter_sublist.map _)⟩

def erase : LruMap κ α := m.restrict fun e => e.1 ≠ k

theorem nodup_put : (((m.erase k).entries ++ [(k, v)]).map Prod.fst).Nodup := by
  rw [List.map_append, List.nodup_append]
  refine ⟨(m.erase k).nodup, by simp, ?_⟩
  simp +contextual [erase, restrict]

def put : LruMap κ α := ⟨(m.erase k).entries ++ [(k, v)], m.nodup_put k v⟩

/-- The entry of a key is used. -/
def touch : LruMap κ α :=
  match m.find k with
  | some v => m.put k v
  | none => m

/-- The entry used longest ago, and the others. -/
def popLru : Option ((κ × α) × LruMap κ α) :=
  match m with
  | ⟨[], _⟩ => none
  | ⟨e :: entries, nodup⟩ => some (e, ⟨entries, nodup.sublist (List.sublist_cons_self _ _)⟩)

/-- Without the `n` entries used longest ago. -/
def dropLru (n : Nat) : LruMap κ α := ⟨m.entries.drop n, m.nodup.sublist ((List.drop_sublist n _).map _)⟩

def total (weight : α → Nat) : Nat := (m.entries.map fun e => weight e.2).sum

/-! ## What is found -/

variable {m k v} {k' : κ} {v' : α} {p : κ × α → Bool} {weight : α → Nat}

theorem find_eq_some : m.find k = some v ↔ (k, v) ∈ m.entries := Recency.lookup_eq_some_iff_mem m.nodup

theorem find_eq_none : m.find k = none ↔ k ∉ m.keys := by
  rw [keys, ← Recency.lookup_isSome, find, Option.not_isSome_iff_eq_none]

theorem mem_keys : k ∈ m.keys ↔ ∃ v, m.find k = some v := by
  rw [← Option.isSome_iff_exists, find, Recency.lookup_isSome, keys]

theorem find_restrict_eq_some : (m.restrict p).find k = some v ↔ m.find k = some v ∧ p (k, v) = true := by
  rw [find_eq_some, find_eq_some, restrict, List.mem_filter]

@[simp]
theorem find_erase_self (m : LruMap κ α) (k : κ) : (m.erase k).find k = none := by
  apply Option.eq_none_iff_forall_ne_some.mpr
  intro v h
  have hne := (find_restrict_eq_some.mp h).2
  simp at hne

theorem find_erase_of_ne (h : k' ≠ k) : (m.erase k).find k' = m.find k' := by
  apply Option.ext
  intro v
  rw [erase, find_restrict_eq_some]
  simp [h]

theorem erase_of_find_none (h : m.find k = none) : m.erase k = m := by
  have hfilter : m.entries.filter (fun e => decide (e.1 ≠ k)) = m.entries := by
    rw [List.filter_eq_self]
    intro e he
    refine decide_eq_true ?_
    rintro rfl
    exact find_eq_none.mp h (List.mem_map_of_mem he)
  exact LruMap.ext hfilter

theorem mem_keys_erase : k' ∈ (m.erase k).keys ↔ k' ∈ m.keys ∧ k' ≠ k := by
  by_cases h : k' = k
  · rw [h, mem_keys, find_erase_self]
    simp
  · rw [mem_keys, mem_keys, find_erase_of_ne h]
    simp [h]

theorem mem_keys_restrict (q : κ → Bool) : k ∈ (m.restrict fun e => q e.1).keys ↔ k ∈ m.keys ∧ q k = true := by
  simp only [mem_keys, find_restrict_eq_some, exists_and_right]

omit [DecidableEq κ] in
theorem restrict_restrict {q : κ × α → Bool} : (m.restrict p).restrict q = m.restrict fun e => p e && q e := by
  apply LruMap.ext
  show (m.entries.filter p).filter q = m.entries.filter fun e => p e && q e
  rw [List.filter_filter]
  exact List.filter_congr fun e _ => Bool.and_comm _ _

omit [DecidableEq κ] in
theorem restrict_congr {q : κ × α → Bool} (h : ∀ e ∈ m.entries, p e = q e) : m.restrict p = m.restrict q :=
  LruMap.ext (List.filter_congr h)

@[simp]
theorem find_put_self (m : LruMap κ α) (k : κ) (v : α) : (m.put k v).find k = some v := by
  rw [find_eq_some]
  simp [put]

theorem find_put_of_ne (h : k' ≠ k) : (m.put k v).find k' = m.find k' := by
  apply Option.ext
  intro w
  rw [← @find_erase_of_ne _ _ _ m k k' h, find_eq_some, find_eq_some]
  simp [put, h]

theorem mem_keys_put : k' ∈ (m.put k v).keys ↔ k' ∈ m.keys ∨ k' = k := by
  by_cases h : k' = k
  · simp [h, mem_keys]
  · rw [mem_keys, mem_keys, find_put_of_ne h]
    simp [h]

theorem touch_of_find (h : m.find k = some v) : m.touch k = m.put k v := by rw [touch, h]

theorem touch_of_none (h : m.find k = none) : m.touch k = m := by rw [touch, h]

@[simp]
theorem find_touch (m : LruMap κ α) (k k' : κ) : (m.touch k).find k' = m.find k' := by
  rcases hfind : m.find k with _ | v
  · rw [touch_of_none hfind]
  · rw [touch_of_find hfind]
    by_cases h : k' = k
    · rw [h, find_put_self, hfind]
    · exact find_put_of_ne h

/-! ## What the entries come to together -/

theorem total_erase (weight : α → Nat) (h : m.find k = some v) :
    m.total weight = (m.erase k).total weight + weight v := by
  obtain ⟨entries, hnodup⟩ := m
  have hmem : (k, v) ∈ entries := find_eq_some.mp h
  simp only [total, erase, restrict]
  clear h
  induction entries with
  | nil => simp at hmem
  | cons e entries ih =>
    rw [List.map_cons, List.nodup_cons] at hnodup
    by_cases he : e.1 = k
    · -- No other entry has the key.
      have hrest : entries.filter (fun e => decide (e.1 ≠ k)) = entries := by
        rw [List.filter_eq_self]
        intro e' he'
        refine decide_eq_true ?_
        rintro rfl
        exact hnodup.1 (he ▸ List.mem_map_of_mem he')
      obtain rfl : e = (k, v) := by
        rcases List.mem_cons.mp hmem with rfl | hmem
        · rfl
        · exact absurd (he ▸ List.mem_map_of_mem hmem) hnodup.1
      rw [List.filter_cons_of_neg (by simp), hrest, List.map_cons, List.sum_cons, Nat.add_comm]
    · have hmem' : (k, v) ∈ entries := by
        rcases List.mem_cons.mp hmem with rfl | hmem
        · exact absurd rfl he
        · exact hmem
      rw [List.filter_cons_of_pos (by simp [he]), List.map_cons, List.map_cons, List.sum_cons, List.sum_cons,
        ih hnodup.2 hmem', Nat.add_assoc]

omit [DecidableEq κ] in
theorem total_restrict_le (m : LruMap κ α) (p : κ × α → Bool) : (m.restrict p).total weight ≤ m.total weight :=
  (List.filter_sublist.map _).sum_le_sum fun _ _ => Nat.zero_le _

theorem total_put (m : LruMap κ α) (k : κ) (v : α) :
    (m.put k v).total weight = (m.erase k).total weight + weight v := by
  simp [total, put]

@[simp]
theorem total_touch (m : LruMap κ α) (k : κ) : (m.touch k).total weight = m.total weight := by
  rcases hfind : m.find k with _ | v
  · rw [touch_of_none hfind]
  · rw [touch_of_find hfind, total_put, total_erase weight hfind]

theorem length_touch (m : LruMap κ α) (k : κ) : (m.touch k).entries.length = m.entries.length := by
  have htotal : (m.touch k).total (fun _ => 1) = m.total fun _ => 1 := total_touch m k
  simpa [total] using htotal

/-! ## The end that goes first -/

omit [DecidableEq κ] in
theorem popLru_eq_none (h : m.popLru = none) : m.entries = [] := by
  obtain ⟨_ | ⟨e, entries⟩, hnodup⟩ := m
  · rfl
  · cases h

variable {e : κ × α} {rest : LruMap κ α}

omit [DecidableEq κ] in
theorem entries_of_popLru (h : m.popLru = some (e, rest)) : m.entries = e :: rest.entries := by
  obtain ⟨_ | ⟨e', entries⟩, hnodup⟩ := m
  · cases h
  · cases h
    rfl

theorem rest_of_popLru (h : m.popLru = some (e, rest)) : rest = m.erase e.1 ∧ m.find e.1 = some e.2 := by
  have hentries := entries_of_popLru h
  have hnodup := m.nodup
  rw [hentries, List.map_cons, List.nodup_cons] at hnodup
  constructor
  · have hrest : rest.entries.filter (fun e' => decide (e'.1 ≠ e.1)) = rest.entries := by
      rw [List.filter_eq_self]
      intro e' he'
      refine decide_eq_true fun heq => hnodup.1 ?_
      rw [← heq]
      exact List.mem_map_of_mem he'
    apply LruMap.ext
    show rest.entries = m.entries.filter fun e' => decide (e'.1 ≠ e.1)
    rw [hentries, List.filter_cons_of_neg (by simp), hrest]
  · rw [find_eq_some, hentries]
    exact List.mem_cons_self

end LruMap
