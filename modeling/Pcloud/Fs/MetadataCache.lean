import Mathlib.Data.List.AList
import Pcloud.Lib.Answers
import Pcloud.Lib.LruMap

/-!
# The metadata cache of the mount (`pcloud-fs/src/metadata_cache.rs`)

Entries by path, and a queue of their uses in which a used or forgotten entry leaves a tombstone behind. Only the
sequence numbers tell the two apart. The numbers do not wrap here, and times are those of a monotonic clock.
-/

namespace Pcloud.Fs

structure CacheSlot (Meta : Type) where
  metadata : Meta
  insertedAt : Nat
  seq : Nat

structure OrderEntry where
  path : String
  seq : Nat
deriving DecidableEq

/-- In nanoseconds. -/
def defaultTtl : Nat := 30 * 1000 * 1000 * 1000

def defaultCapacity : Nat := 4096

structure MetadataCacheConfig where
  ttl : Nat := defaultTtl
  capacity : Nat := defaultCapacity

abbrev Slots (Meta : Type) := AList fun _ : String => CacheSlot Meta

structure MetadataCache (Meta : Type) where
  config : MetadataCacheConfig
  entries : Slots Meta := ∅
  order : List OrderEntry := []
  nextSeq : Nat := 0

/-- A call and what the clock says. A put looks at the clock twice: for the entry and for the sweep. -/
inductive MetadataCacheCall (Meta : Type)
  | get (path : String) (now : Nat)
  | put (path : String) (metadata : Meta) (now swept : Nat)
  | invalidate (path : String)
  | clear

namespace MetadataCache

variable {Meta : Type}

/-- A zero capacity is clamped to one. -/
def new (config : MetadataCacheConfig) : MetadataCache Meta where
  config := { config with capacity := max config.capacity 1 }

variable (c : MetadataCache Meta)

/-- The live element of the queue goes to its end, under a new number. -/
def touch (path : String) : MetadataCache Meta :=
  match c.entries.lookup path with
  | none => c
  | some slot =>
    if ⟨path, slot.seq⟩ ∈ c.order then
      { c with
        entries := c.entries.insert path { slot with seq := c.nextSeq }
        order := c.order.erase ⟨path, slot.seq⟩ ++ [⟨path, c.nextSeq⟩]
        nextSeq := c.nextSeq + 1 }
    else c

/-- `retain`, whose test removes the entries that are expired. -/
def retainLive (ttl now : Nat) : List OrderEntry → Slots Meta → List OrderEntry × Slots Meta
  | [], entries => ([], entries)
  | e :: order, entries =>
    match entries.lookup e.path with
    | some slot =>
      if slot.seq = e.seq then
        if now - slot.insertedAt ≤ ttl then
          let (kept, entries) := retainLive ttl now order entries
          (e :: kept, entries)
        else retainLive ttl now order (entries.erase e.path)
      else retainLive ttl now order entries
    | none => retainLive ttl now order entries

def evictExpired (now : Nat) : MetadataCache Meta :=
  let (order, entries) := retainLive c.config.ttl now c.order c.entries
  { c with entries, order }

/-- The loop of `evict_if_over_capacity`. -/
def popOldest (capacity : Nat) : List OrderEntry → Slots Meta → List OrderEntry × Slots Meta
  | [], entries => ([], entries)
  | oldest :: order, entries =>
    if entries.keys.length > capacity then
      match entries.lookup oldest.path with
      | some slot => popOldest capacity order (if slot.seq = oldest.seq then entries.erase oldest.path else entries)
      | none => popOldest capacity order entries
    else (oldest :: order, entries)

def evictIfOverCapacity : MetadataCache Meta :=
  let (order, entries) := popOldest c.config.capacity c.order c.entries
  { c with entries, order }

def get (path : String) (now : Nat) : Option Meta × MetadataCache Meta :=
  match c.entries.lookup path with
  | none => (none, c)
  | some slot =>
    if now - slot.insertedAt > c.config.ttl then (none, { c with entries := c.entries.erase path })
    else (some slot.metadata, c.touch path)

def put (path : String) (metadata : Meta) (now swept : Nat) : MetadataCache Meta :=
  let slot : CacheSlot Meta := ⟨metadata, now, c.nextSeq⟩
  let clean := ({ c with nextSeq := c.nextSeq + 1 } : MetadataCache Meta).evictExpired swept
  ({ clean with
    entries := clean.entries.insert path slot
    order := clean.order ++ [⟨path, slot.seq⟩] } : MetadataCache Meta).evictIfOverCapacity

def invalidate (path : String) : MetadataCache Meta := { c with entries := c.entries.erase path }

def clear : MetadataCache Meta := { c with entries := ∅, order := [] }

/-- A call other than `get` has no answer. -/
def call : MetadataCacheCall Meta → Option Meta × MetadataCache Meta
  | .get path now => c.get path now
  | .put path metadata now swept => (none, c.put path metadata now swept)
  | .invalidate path => (none, c.invalidate path)
  | .clear => (none, c.clear)

end MetadataCache

/-! ## What it stands for -/

/-- A map in the order of use whose entries are forgotten some time after their put. -/
structure LruTtlMap (Meta : Type) where
  config : MetadataCacheConfig
  entries : LruMap String (Meta × Nat)

namespace LruTtlMap

variable {Meta : Type}

/-- Not more than the TTL has passed since the put. -/
def fresh (ttl now : Nat) (e : String × Meta × Nat) : Bool := now - e.2.2 ≤ ttl

def new (config : MetadataCacheConfig) : LruTtlMap Meta where
  config := { config with capacity := max config.capacity 1 }
  entries := .empty

variable (m : LruTtlMap Meta)

/-- What is expired is forgotten. -/
def forget (now : Nat) : LruTtlMap Meta := { m with entries := m.entries.restrict (fresh m.config.ttl now) }

/-- Of too many entries the ones used longest ago go. -/
def fit : LruTtlMap Meta := { m with entries := m.entries.dropLru (m.entries.entries.length - m.config.capacity) }

/-- The reference, call by call. -/
def call : MetadataCacheCall Meta → Option Meta × LruTtlMap Meta
  | .get path now =>
    (((m.forget now).entries.find path).map Prod.fst,
      { m.forget now with entries := (m.forget now).entries.touch path })
  | .put path metadata now swept =>
    (none, { m.forget swept with entries := (m.forget swept).entries.put path (metadata, now) : LruTtlMap Meta }.fit)
  | .invalidate path => (none, { m with entries := m.entries.erase path })
  | .clear => (none, { m with entries := .empty })

end LruTtlMap

/-! ## The queue, read with its entries -/

namespace MetadataCache

section uses

variable {Meta : Type} {entries entries' : Slots Meta} {order : List OrderEntry} {ttl now capacity : Nat}
  {path : String} {x : String × Meta × Nat}

/-- What an element of the queue is about. A tombstone is about nothing. -/
def useOf (entries : Slots Meta) (e : OrderEntry) : Option (String × Meta × Nat) :=
  match entries.lookup e.path with
  | some slot => if slot.seq = e.seq then some (e.path, slot.metadata, slot.insertedAt) else none
  | none => none

def uses (entries : Slots Meta) (order : List OrderEntry) : List (String × Meta × Nat) :=
  order.filterMap (useOf entries)

/-- Every entry has its element in the queue. -/
def AllListed (entries : Slots Meta) (order : List OrderEntry) : Prop :=
  ∀ path slot, entries.lookup path = some slot → ⟨path, slot.seq⟩ ∈ order

theorem useOf_eq_some {e : OrderEntry} :
    useOf entries e = some x ↔
      ∃ slot, entries.lookup e.path = some slot ∧ slot.seq = e.seq ∧ x = (e.path, slot.metadata, slot.insertedAt) := by
  unfold useOf
  rcases entries.lookup e.path with _ | slot
  · simp
  · by_cases hseq : slot.seq = e.seq
    · simp [hseq, eq_comm]
    · simp [hseq]

theorem useOf_congr {e : OrderEntry} (h : entries'.lookup e.path = entries.lookup e.path) :
    useOf entries' e = useOf entries e := by rw [useOf, useOf, h]

theorem mem_uses : x ∈ uses entries order ↔
    ∃ slot, entries.lookup x.1 = some slot ∧ ⟨x.1, slot.seq⟩ ∈ order ∧ x.2 = (slot.metadata, slot.insertedAt) := by
  rw [uses, List.mem_filterMap]
  simp only [useOf_eq_some]
  constructor
  · rintro ⟨⟨path, seq⟩, he, slot, hslot, rfl, rfl⟩
    exact ⟨slot, hslot, he, rfl⟩
  · rintro ⟨slot, hslot, he, hx⟩
    exact ⟨⟨x.1, slot.seq⟩, he, slot, hslot, rfl, Prod.ext rfl hx⟩

theorem uses_change (hother : ∀ p ≠ path, entries'.lookup p = entries.lookup p)
    (hdead : ∀ e ∈ order, e.path = path → useOf entries' e = none) :
    uses entries' order = (uses entries order).filter (·.1 ≠ path) := by
  rw [uses, uses, List.filter_filterMap]
  apply List.filterMap_congr
  intro e he
  by_cases hpath : e.path = path
  · rw [hdead e he hpath, eq_comm, Option.filter_eq_none_iff]
    intro x hx
    obtain ⟨slot, -, -, rfl⟩ := useOf_eq_some.mp hx
    simp [hpath]
  · rw [useOf_congr (hother e.path hpath)]
    rcases hx : useOf entries e with _ | x
    · rfl
    · obtain ⟨slot, -, -, rfl⟩ := useOf_eq_some.mp hx
      simp [Option.filter, hpath]

theorem uses_forget (entries : Slots Meta) (order : List OrderEntry) (path : String) :
    uses (entries.erase path) order = (uses entries order).filter (·.1 ≠ path) := by
  refine uses_change (fun p hp => AList.lookup_erase_ne hp) fun e _ hpath => ?_
  rw [useOf, hpath, AList.lookup_erase]

theorem uses_erase (e : OrderEntry) :
    (uses entries (order.erase e)).filter (·.1 ≠ e.path) = (uses entries order).filter (·.1 ≠ e.path) := by
  have hnone : (useOf entries e).filter (·.1 ≠ e.path) = none := by
    rw [Option.filter_eq_none_iff]
    intro x hx
    obtain ⟨slot, -, -, rfl⟩ := useOf_eq_some.mp hx
    simp
  rw [uses, uses, List.filter_filterMap, List.filter_filterMap]
  induction order with
  | nil => rfl
  | cons e' order ih =>
    by_cases he : e' = e
    · rw [he, List.erase_cons_head, List.filterMap_cons, hnone]
    · rw [List.erase_cons_tail (by simpa using he), List.filterMap_cons, List.filterMap_cons, ih]

/-! ### Whose uses they are -/

theorem nodup_uses (h : order.Nodup) : ((uses entries order).map Prod.fst).Nodup := by
  rw [uses, List.map_filterMap]
  refine h.filterMap fun e e' path he he' => ?_
  simp only [Option.mem_def, Option.map_eq_some_iff, useOf_eq_some] at he he'
  obtain ⟨_, ⟨slot, hslot, hseq, rfl⟩, rfl⟩ := he
  obtain ⟨_, ⟨slot', hslot', hseq', rfl⟩, hpath⟩ := he'
  simp only at hpath
  rw [hpath, hslot] at hslot'
  obtain rfl := Option.some.inj hslot'
  cases e
  cases e'
  simp_all

theorem mem_keys_iff : path ∈ entries.keys ↔ ∃ slot, entries.lookup path = some slot := by
  rw [← AList.mem_keys, ← AList.lookup_isSome, Option.isSome_iff_exists]

theorem length_uses (h : order.Nodup) (hlisted : AllListed entries order) :
    (uses entries order).length = entries.keys.length := by
  have hperm : ((uses entries order).map Prod.fst).Perm entries.keys := by
    refine (List.perm_ext_iff_of_nodup (nodup_uses h) entries.nodupKeys).mpr fun path => ?_
    rw [List.mem_map]
    constructor
    · rintro ⟨x, hx, rfl⟩
      obtain ⟨slot, hslot, -, -⟩ := mem_uses.mp hx
      exact mem_keys_iff.mpr ⟨slot, hslot⟩
    · intro hpath
      obtain ⟨slot, hslot⟩ := mem_keys_iff.mp hpath
      exact ⟨(path, slot.metadata, slot.insertedAt), mem_uses.mpr ⟨slot, hslot, hlisted path slot hslot, rfl⟩, rfl⟩
  rw [← hperm.length_eq, List.length_map]

/-! ### The two sweeps -/

/-- An element is live, and its entry is not expired. -/
def good (ttl now : Nat) (entries : Slots Meta) (e : OrderEntry) : Bool :=
  match entries.lookup e.path with
  | some slot => slot.seq = e.seq ∧ now - slot.insertedAt ≤ ttl
  | none => false

theorem good_iff {e : OrderEntry} : good ttl now entries e = true ↔
    ∃ slot, entries.lookup e.path = some slot ∧ slot.seq = e.seq ∧ now - slot.insertedAt ≤ ttl := by
  unfold good
  rcases entries.lookup e.path with _ | slot <;> simp

theorem retainLive_cons (e : OrderEntry) : retainLive ttl now (e :: order) entries =
    if good ttl now entries e then
      (e :: (retainLive ttl now order entries).1, (retainLive ttl now order entries).2)
    else retainLive ttl now order (if (useOf entries e).isSome then entries.erase e.path else entries) := by
  rw [retainLive, useOf, good]
  rcases entries.lookup e.path with _ | slot
  · simp
  · by_cases hseq : slot.seq = e.seq
    · by_cases hfresh : now - slot.insertedAt ≤ ttl <;> simp [hseq, hfresh]
    · simp [hseq]

theorem good_erase {e e' : OrderEntry} (h : good ttl now entries e = false) (huse : (useOf entries e).isSome) :
    good ttl now (entries.erase e.path) e' = good ttl now entries e' := by
  unfold good
  by_cases hpath : e'.path = e.path
  · rw [hpath, AList.lookup_erase]
    obtain ⟨x, hx⟩ := Option.isSome_iff_exists.mp huse
    obtain ⟨slot, hslot, hseq, -⟩ := useOf_eq_some.mp hx
    have hexpired : ¬ now - slot.insertedAt ≤ ttl := by
      intro hfresh
      rw [good_iff.mpr ⟨slot, hslot, hseq, hfresh⟩] at h
      cases h
    simp [hslot, hexpired]
  · rw [AList.lookup_erase_ne hpath]

theorem retainLive_fst (ttl now : Nat) (order : List OrderEntry) (entries : Slots Meta) :
    (retainLive ttl now order entries).1 = order.filter (good ttl now entries) := by
  induction order generalizing entries with
  | nil => rfl
  | cons e order ih =>
    rw [retainLive_cons]
    rcases hgood : good ttl now entries e
    · rw [if_neg (by simp), ih, List.filter_cons_of_neg (by simp [hgood])]
      split_ifs with huse
      · exact List.filter_congr fun e' _ => good_erase hgood huse
      · rfl
    · rw [if_pos rfl, List.filter_cons_of_pos hgood, ih]

theorem retainLive_lookup {slot : CacheSlot Meta} :
    (retainLive ttl now order entries).2.lookup path = some slot ↔
      entries.lookup path = some slot ∧ (⟨path, slot.seq⟩ ∈ order → now - slot.insertedAt ≤ ttl) := by
  induction order generalizing entries with
  | nil => simp [retainLive]
  | cons e order ih =>
    rw [retainLive_cons, List.mem_cons]
    by_cases he : ⟨path, slot.seq⟩ = e ∧ entries.lookup path = some slot
    · -- The element is this entry's own.
      obtain ⟨rfl, hslot⟩ := he
      have hgood : good ttl now entries ⟨path, slot.seq⟩ = true ↔ now - slot.insertedAt ≤ ttl := by
        simp [good, hslot]
      have huse : (useOf entries ⟨path, slot.seq⟩).isSome = true := by simp [useOf, hslot]
      by_cases hfresh : now - slot.insertedAt ≤ ttl
      · rw [if_pos (hgood.mpr hfresh), ih]
        simp [hfresh]
      · rw [if_neg (fun h => hfresh (hgood.mp h)), if_pos huse, ih, AList.lookup_erase]
        simp [hfresh]
    · have hsame : ∀ entries' : Slots Meta, (entries'.lookup path = some slot ↔ entries.lookup path = some slot) →
          ((retainLive ttl now order entries').2.lookup path = some slot ↔
            entries.lookup path = some slot ∧ (⟨path, slot.seq⟩ = e ∨ ⟨path, slot.seq⟩ ∈ order →
              now - slot.insertedAt ≤ ttl)) := by
        intro entries' hentries
        rw [ih, hentries]
        refine and_congr_right fun hslot => imp_congr_left ?_
        exact (or_iff_right fun heq => he ⟨heq, hslot⟩).symm
      split_ifs with hgood huse
      · exact hsame entries Iff.rfl
      · refine hsame _ ?_
        by_cases hpath : path = e.path
        · -- The entry that goes is another.
          rw [hpath, AList.lookup_erase]
          refine iff_of_false nofun fun hslot => he ⟨?_, hpath ▸ hslot⟩
          obtain ⟨x, hx⟩ := Option.isSome_iff_exists.mp huse
          obtain ⟨slot', hslot', hseq, -⟩ := useOf_eq_some.mp hx
          rw [hslot] at hslot'
          cases e
          simp_all
        · rw [AList.lookup_erase_ne hpath]
      · exact hsame entries Iff.rfl

theorem uses_retainLive (ttl now : Nat) (order : List OrderEntry) (entries : Slots Meta) :
    uses (retainLive ttl now order entries).2 (retainLive ttl now order entries).1 =
      (uses entries order).filter (LruTtlMap.fresh ttl now) := by
  rw [retainLive_fst, uses, uses, List.filterMap_filter, List.filter_filterMap]
  apply List.filterMap_congr
  intro e he
  split_ifs with hgood
  · obtain ⟨slot, hslot, hseq, hfresh⟩ := good_iff.mp hgood
    have hkept : (retainLive ttl now order entries).2.lookup e.path = entries.lookup e.path := by
      rw [hslot, retainLive_lookup]
      exact ⟨hslot, fun _ => hfresh⟩
    have hx : LruTtlMap.fresh ttl now (e.path, slot.metadata, slot.insertedAt) = true := decide_eq_true hfresh
    rw [useOf_congr hkept, useOf_eq_some.mpr ⟨slot, hslot, hseq, rfl⟩, Option.filter_some, if_pos hx]
  · rw [eq_comm, Option.filter_eq_none_iff]
    intro x hx hfresh
    obtain ⟨slot, hslot, hseq, rfl⟩ := useOf_eq_some.mp hx
    exact hgood (good_iff.mpr ⟨slot, hslot, hseq, of_decide_eq_true hfresh⟩)

theorem length_retainLive (ttl now : Nat) (order : List OrderEntry) (entries : Slots Meta) :
    (uses (retainLive ttl now order entries).2 (retainLive ttl now order entries).1).length =
      (retainLive ttl now order entries).1.length := by
  rw [uses, List.length_filterMap_eq_countP, List.countP_eq_length, retainLive_fst]
  intro e he
  obtain ⟨slot, hslot, hseq, hfresh⟩ := good_iff.mp (List.mem_filter.mp he).2
  have hkept : (retainLive ttl now order entries).2.lookup e.path = some slot :=
    retainLive_lookup.mpr ⟨hslot, fun _ => hfresh⟩
  rw [useOf_eq_some.mpr ⟨slot, hkept, hseq, rfl⟩]
  rfl

theorem length_keys_erase {slot : CacheSlot Meta} (h : entries.lookup path = some slot) :
    (entries.erase path).keys.length + 1 = entries.keys.length := by
  have hmem : path ∈ entries.keys := mem_keys_iff.mpr ⟨slot, h⟩
  rw [AList.keys_erase, List.length_erase_of_mem hmem]
  have hpos := List.length_pos_of_mem hmem
  omega

theorem popOldest_cons (e : OrderEntry) : popOldest capacity (e :: order) entries =
    if entries.keys.length > capacity then
      popOldest capacity order (if (useOf entries e).isSome then entries.erase e.path else entries)
    else (e :: order, entries) := by
  rw [popOldest, useOf]
  rcases entries.lookup e.path with _ | slot
  · simp
  · by_cases hseq : slot.seq = e.seq <;> simp [hseq]

theorem uses_erase_of_notMem (h : path ∉ (uses entries order).map Prod.fst) :
    uses (entries.erase path) order = uses entries order := by
  rw [uses_forget, List.filter_eq_self]
  intro x hx
  refine decide_eq_true fun heq => h ?_
  have hmem : x.1 ∈ (uses entries order).map Prod.fst := List.mem_map_of_mem hx
  rwa [heq] at hmem

theorem AllListed.erase {entries : Slots Meta} {order : List OrderEntry} (h : AllListed entries order) (path : String) :
    AllListed (entries.erase path) order := by
  intro p slot hslot
  by_cases hp : p = path
  · rw [hp, AList.lookup_erase] at hslot
    cases hslot
  · rw [AList.lookup_erase_ne hp] at hslot
    exact h p slot hslot

theorem AllListed.tail {e : OrderEntry} (h : AllListed entries (e :: order)) (hnone : useOf entries e = none) :
    AllListed entries order := by
  intro path slot hslot
  refine (List.mem_cons.mp (h path slot hslot)).resolve_left ?_
  rintro rfl
  simp [useOf, hslot] at hnone

theorem AllListed.erase_head {e : OrderEntry} (h : AllListed entries (e :: order)) :
    AllListed (entries.erase e.path) order :=
  (h.erase e.path).tail (by rw [useOf, AList.lookup_erase])

theorem popOldest_spec (capacity : Nat) (hnodup : ((uses entries order).map Prod.fst).Nodup)
    (hlisted : AllListed entries order) :
    uses (popOldest capacity order entries).2 (popOldest capacity order entries).1 =
        (uses entries order).drop (entries.keys.length - capacity) ∧
      (popOldest capacity order entries).1 <:+ order ∧
      AllListed (popOldest capacity order entries).2 (popOldest capacity order entries).1 ∧
      (popOldest capacity order entries).2.keys.length ≤ capacity := by
  induction order generalizing entries with
  | nil =>
    have hempty : entries.keys.length = 0 := by
      rw [List.length_eq_zero_iff, List.eq_nil_iff_forall_not_mem]
      intro path hpath
      obtain ⟨slot, hslot⟩ := mem_keys_iff.mp hpath
      exact nomatch hlisted path slot hslot
    exact ⟨by simp [popOldest, uses], List.suffix_rfl, hlisted, by simp only [popOldest]; omega⟩
  | cons e order ih =>
    rw [popOldest_cons]
    split_ifs with hover huse
    · obtain ⟨x, hx⟩ := Option.isSome_iff_exists.mp huse
      obtain ⟨slot, hslot, hseq, rfl⟩ := useOf_eq_some.mp hx
      rw [uses, List.filterMap_cons_some hx, ← uses, List.map_cons, List.nodup_cons] at hnodup
      -- The path has no other use.
      have huses : uses (entries.erase e.path) order = uses entries order := uses_erase_of_notMem hnodup.1
      obtain ⟨hdrop, hsuffix, hrest, hle⟩ := ih (by rw [huses]; exact hnodup.2) hlisted.erase_head
      have hlength := length_keys_erase hslot
      have hcount : entries.keys.length - capacity = (entries.erase e.path).keys.length - capacity + 1 := by omega
      refine ⟨?_, hsuffix.trans (List.suffix_cons e order), hrest, hle⟩
      rw [hdrop, huses, hcount, uses, uses, List.filterMap_cons_some hx, List.drop_succ_cons]
    · have hnone : useOf entries e = none := Option.not_isSome_iff_eq_none.mp huse
      have huses : uses entries (e :: order) = uses entries order := List.filterMap_cons_none hnone
      obtain ⟨hdrop, hsuffix, hrest, hle⟩ := ih (by rwa [huses] at hnodup) (hlisted.tail hnone)
      exact ⟨by rw [hdrop, huses], hsuffix.trans (List.suffix_cons e order), hrest, hle⟩
    · refine ⟨?_, List.suffix_rfl, hlisted, Nat.le_of_not_lt hover⟩
      rw [Nat.sub_eq_zero_of_le (Nat.le_of_not_lt hover), List.drop_zero]

end uses

/-! ## Every call keeps the queue in order -/

variable {Meta : Type} {c : MetadataCache Meta} {path : String} {slot : CacheSlot Meta}

structure Sound (c : MetadataCache Meta) : Prop where
  older : ∀ e ∈ c.order, e.seq < c.nextSeq
  nodup : (c.order.map OrderEntry.seq).Nodup
  listed : AllListed c.entries c.order
  entries_le : c.entries.keys.length ≤ c.config.capacity
  order_le : c.order.length ≤ c.config.capacity + 1

theorem Sound.nodup_order (h : Sound c) : c.order.Nodup := List.Nodup.of_map _ h.nodup

theorem Sound.count_eq_one (h : Sound c) (hslot : c.entries.lookup path = some slot) :
    c.order.count ⟨path, slot.seq⟩ = 1 :=
  List.count_eq_one_of_mem h.nodup_order (h.listed path slot hslot)

theorem length_keys_erase_le (entries : Slots Meta) (path : String) :
    (entries.erase path).keys.length ≤ entries.keys.length := by
  rw [AList.keys_erase]
  exact List.length_erase_le

theorem Sound.invalidate (h : Sound c) (path : String) : Sound (c.invalidate path) where
  older := h.older
  nodup := h.nodup
  listed := h.listed.erase path
  entries_le := Nat.le_trans (length_keys_erase_le c.entries path) h.entries_le
  order_le := h.order_le

theorem push_spec {entries : Slots Meta} {order : List OrderEntry} {n : Nat} (holder : ∀ e ∈ order, e.seq < n)
    (hnodup : (order.map OrderEntry.seq).Nodup)
    (hlisted : ∀ p ≠ path, ∀ slot, entries.lookup p = some slot → OrderEntry.mk p slot.seq ∈ order)
    (metadata : Meta) (insertedAt : Nat) :
    (∀ e ∈ order ++ [OrderEntry.mk path n], e.seq < n + 1) ∧
      ((order ++ [OrderEntry.mk path n]).map OrderEntry.seq).Nodup ∧
      AllListed (entries.insert path ⟨metadata, insertedAt, n⟩) (order ++ [OrderEntry.mk path n]) ∧
      uses (entries.insert path ⟨metadata, insertedAt, n⟩) (order ++ [OrderEntry.mk path n]) =
        (uses entries order).filter (·.1 ≠ path) ++ [(path, metadata, insertedAt)] := by
  refine ⟨?_, ?_, ?_, ?_⟩
  · intro e he
    rcases List.mem_append.mp he with he | he
    · exact Nat.lt_succ_of_lt (holder e he)
    · rw [List.mem_singleton.mp he]
      exact Nat.lt_succ_self n
  · rw [List.map_append, List.nodup_append]
    refine ⟨hnodup, List.nodup_singleton _, ?_⟩
    rintro _ hold _ hnew rfl
    obtain ⟨e, he, hseq⟩ := List.mem_map.mp hold
    have hlt := holder e he
    rw [hseq, List.mem_singleton.mp hnew] at hlt
    exact absurd hlt (Nat.lt_irrefl n)
  · intro p slot hslot
    by_cases hp : p = path
    · rw [hp, AList.lookup_insert] at hslot
      obtain rfl := Option.some.inj hslot
      simp [hp]
    · rw [AList.lookup_insert_ne hp] at hslot
      exact List.mem_append_left _ (hlisted p hp slot hslot)
  · have hdead : ∀ e ∈ order, e.path = path →
        useOf (entries.insert path ⟨metadata, insertedAt, n⟩) e = none := by
      intro e he hpath
      have hne : n ≠ e.seq := Nat.ne_of_gt (holder e he)
      rw [useOf, hpath, AList.lookup_insert]
      simp [hne]
    rw [← uses_change (fun p hp => AList.lookup_insert_ne hp) hdead, uses, uses, List.filterMap_append]
    congr 1
    simp [useOf]

theorem length_keys_insert {entries : Slots Meta} (new : CacheSlot Meta) :
    (entries.insert path new).keys.length = (entries.erase path).keys.length + 1 := by
  simp

theorem Sound.touch (h : Sound c) (hslot : c.entries.lookup path = some slot) :
    Sound (c.touch path) ∧ (c.touch path).config = c.config ∧
      uses (c.touch path).entries (c.touch path).order =
        (uses c.entries c.order).filter (·.1 ≠ path) ++ [(path, slot.metadata, slot.insertedAt)] := by
  have hmem := h.listed path slot hslot
  have hsub : (c.order.erase ⟨path, slot.seq⟩).Sublist c.order := List.erase_sublist
  have hlisted : ∀ p ≠ path, ∀ slot', c.entries.lookup p = some slot' →
      ⟨p, slot'.seq⟩ ∈ c.order.erase ⟨path, slot.seq⟩ := by
    intro p hp slot' hslot'
    refine (List.mem_erase_of_ne fun heq => hp ?_).mpr (h.listed p slot' hslot')
    exact congrArg OrderEntry.path heq
  obtain ⟨holder, hnodup, hall, huses⟩ := push_spec (fun e he => h.older e (hsub.subset he))
    (h.nodup.sublist (hsub.map _)) hlisted slot.metadata slot.insertedAt
  have htouch : c.touch path = { c with
      entries := c.entries.insert path { slot with seq := c.nextSeq }
      order := c.order.erase ⟨path, slot.seq⟩ ++ [⟨path, c.nextSeq⟩]
      nextSeq := c.nextSeq + 1 } := by
    simp only [MetadataCache.touch, hslot, hmem, if_true]
  rw [htouch]
  refine ⟨⟨holder, hnodup, hall, ?_, ?_⟩, rfl, ?_⟩
  · simp only
    rw [length_keys_insert, length_keys_erase hslot]
    exact h.entries_le
  · simp only
    rw [List.length_append, List.length_erase_of_mem hmem, List.length_singleton]
    have hle := h.order_le
    have hpos := List.length_pos_of_mem hmem
    omega
  · rw [huses]
    exact congrArg (· ++ _) (uses_erase ⟨path, slot.seq⟩)

/-- The uses after a put: of those that are not expired, with the new one, the most recent. -/
def usesOfPut (c : MetadataCache Meta) (path : String) (metadata : Meta) (now swept : Nat) :
    List (String × Meta × Nat) :=
  ((uses c.entries c.order).filter (LruTtlMap.fresh c.config.ttl swept)).filter (·.1 ≠ path) ++ [(path, metadata, now)]

theorem Sound.put (h : Sound c) (path : String) (metadata : Meta) (now swept : Nat) :
    Sound (c.put path metadata now swept) ∧ (c.put path metadata now swept).config = c.config ∧
      uses (c.put path metadata now swept).entries (c.put path metadata now swept).order =
        (usesOfPut c path metadata now swept).drop
          ((usesOfPut c path metadata now swept).length - c.config.capacity) := by
  have hlisted : AllListed (retainLive c.config.ttl swept c.order c.entries).2
      (retainLive c.config.ttl swept c.order c.entries).1 := by
    intro p slot hslot
    obtain ⟨hold, hfresh⟩ := retainLive_lookup.mp hslot
    have hmem := h.listed p slot hold
    rw [retainLive_fst]
    exact List.mem_filter.mpr ⟨hmem, good_iff.mpr ⟨slot, hold, rfl, hfresh hmem⟩⟩
  have huses := uses_retainLive c.config.ttl swept c.order c.entries
  have hlength : (retainLive c.config.ttl swept c.order c.entries).1.length ≤ c.config.capacity := by
    rw [← length_retainLive, huses]
    refine Nat.le_trans (List.length_filter_le _ _) ?_
    rw [length_uses h.nodup_order h.listed]
    exact h.entries_le
  have hsub : (retainLive c.config.ttl swept c.order c.entries).1.Sublist c.order := by
    rw [retainLive_fst]
    exact List.filter_sublist
  obtain ⟨holder, hnodup, hall, hpushed⟩ := push_spec (fun e he => h.older e (hsub.subset he))
    (h.nodup.sublist (hsub.map _)) (fun p _ slot hslot => hlisted p slot hslot) metadata now
  rw [huses] at hpushed
  obtain ⟨hdrop, hsuffix, hrest, hle⟩ :=
    popOldest_spec c.config.capacity (nodup_uses (List.Nodup.of_map _ hnodup)) hall
  rw [← length_uses (List.Nodup.of_map _ hnodup) hall, hpushed] at hdrop
  refine ⟨⟨fun e he => holder e (hsuffix.subset he), hnodup.sublist (hsuffix.sublist.map _), hrest, hle, ?_⟩,
    rfl, hdrop⟩
  refine Nat.le_trans hsuffix.length_le ?_
  rw [List.length_append, List.length_singleton]
  exact Nat.succ_le_succ hlength

theorem Sound.get (h : Sound c) (path : String) (now : Nat) : Sound (c.get path now).2 := by
  unfold MetadataCache.get
  rcases hslot : c.entries.lookup path with _ | slot
  · exact h
  · simp only
    split_ifs
    · exact h.invalidate path
    · exact (h.touch hslot).1

theorem Sound.clear (c : MetadataCache Meta) : Sound c.clear where
  older := by simp [MetadataCache.clear]
  nodup := List.nodup_nil
  listed _ _ hslot := nomatch hslot
  entries_le := Nat.zero_le _
  order_le := Nat.zero_le _

theorem Sound.new (config : MetadataCacheConfig) : Sound (MetadataCache.new config : MetadataCache Meta) where
  older := by simp [MetadataCache.new]
  nodup := List.nodup_nil
  listed _ _ hslot := nomatch hslot
  entries_le := Nat.zero_le _
  order_le := Nat.zero_le _

theorem Sound.call (h : Sound c) (k : MetadataCacheCall Meta) : Sound (c.call k).2 := by
  cases k with
  | get path now => exact h.get path now
  | put path metadata now swept => exact (h.put path metadata now swept).1
  | invalidate path => exact h.invalidate path
  | clear => exact .clear c

/-! ## It answers as the map does -/

theorem filter_fresh_fresh {ttl t t' : Nat} (h : t ≤ t') (l : List (String × Meta × Nat)) :
    (l.filter (LruTtlMap.fresh ttl t)).filter (LruTtlMap.fresh ttl t') = l.filter (LruTtlMap.fresh ttl t') := by
  rw [List.filter_filter]
  refine List.filter_congr fun e _ => ?_
  simp only [LruTtlMap.fresh, ← Bool.decide_and]
  refine decide_eq_decide.mpr ⟨fun hboth => hboth.1, fun hlate => ⟨hlate, ?_⟩⟩
  omega

/-- At time `t` the queue and the map have the same entries that are not expired, in the same order. -/
structure Simulates (t : Nat) (c : MetadataCache Meta) (m : LruTtlMap Meta) : Prop where
  sound : Sound c
  config : m.config = c.config
  same : m.entries.entries.filter (LruTtlMap.fresh c.config.ttl t) =
    (uses c.entries c.order).filter (LruTtlMap.fresh c.config.ttl t)

variable {m : LruTtlMap Meta} {t now : Nat}

theorem Simulates.later (h : Simulates t c m) (hle : t ≤ now) : Simulates now c m where
  sound := h.sound
  config := h.config
  same := by
    rw [← filter_fresh_fresh hle, h.same, filter_fresh_fresh hle]

theorem Simulates.forget (h : Simulates t c m) :
    (m.forget t).entries.entries = (uses c.entries c.order).filter (LruTtlMap.fresh c.config.ttl t) := by
  rw [← h.same, ← h.config]
  rfl

theorem Simulates.find (h : Simulates t c m) {v : Meta × Nat} : (m.forget t).entries.find path = some v ↔
    ∃ slot, c.entries.lookup path = some slot ∧ t - slot.insertedAt ≤ c.config.ttl ∧
      v = (slot.metadata, slot.insertedAt) := by
  rw [LruMap.find_eq_some, h.forget, List.mem_filter, mem_uses]
  constructor
  · rintro ⟨⟨slot, hslot, -, hv⟩, hfresh⟩
    have hv' : v = (slot.metadata, slot.insertedAt) := hv
    rw [hv'] at hfresh
    exact ⟨slot, hslot, of_decide_eq_true hfresh, hv'⟩
  · rintro ⟨slot, hslot, hfresh, rfl⟩
    exact ⟨⟨slot, hslot, h.sound.listed path slot hslot, rfl⟩, decide_eq_true hfresh⟩

theorem Simulates.find_eq_none (h : Simulates t c m)
    (hgone : ∀ slot, c.entries.lookup path = some slot → ¬ t - slot.insertedAt ≤ c.config.ttl) :
    (m.forget t).entries.find path = none := by
  rw [Option.eq_none_iff_forall_ne_some]
  rintro v hv
  obtain ⟨slot, hslot, hfresh, -⟩ := h.find.mp hv
  exact hgone slot hslot hfresh

theorem Simulates.get (h : Simulates t c m) (path : String) :
    (c.get path t).1 = (m.call (.get path t)).1 ∧ Simulates t (c.get path t).2 (m.call (.get path t)).2 := by
  have hsound := h.sound.get path t
  -- Nothing is found: the map forgets what is expired and is as it was.
  have hmiss : (m.forget t).entries.find path = none → m.call (.get path t) = (none, m.forget t) := by
    intro hnone
    simp only [LruTtlMap.call, hnone, LruMap.touch_of_none hnone, Option.map_none]
  have hforget := h.forget
  unfold MetadataCache.get at hsound ⊢
  rcases hslot : c.entries.lookup path with _ | slot
  · have hgone : ∀ slot, c.entries.lookup path = some slot → ¬ t - slot.insertedAt ≤ c.config.ttl := by
      intro slot hsome
      rw [hslot] at hsome
      cases hsome
    rw [hmiss (h.find_eq_none hgone)]
    exact ⟨rfl, h.sound, h.config, by rw [hforget, filter_fresh_fresh (Nat.le_refl t)]⟩
  · simp only [hslot] at hsound ⊢
    split_ifs at hsound ⊢ with hexpired
    · have hgone : ∀ slot', c.entries.lookup path = some slot' → ¬ t - slot'.insertedAt ≤ c.config.ttl := by
        intro slot' hsome
        rw [hslot] at hsome
        rw [← Option.some.inj hsome]
        omega
      rw [hmiss (h.find_eq_none hgone)]
      refine ⟨rfl, hsound, h.config, ?_⟩
      simp only
      rw [hforget, filter_fresh_fresh (Nat.le_refl t), uses_forget, List.filter_filter]
      refine List.filter_congr fun e he => ?_
      obtain ⟨slot', hslot', -, hv⟩ := mem_uses.mp he
      by_cases hpath : e.1 = path
      · have hstale : LruTtlMap.fresh c.config.ttl t e = false := by
          rw [LruTtlMap.fresh, hv]
          exact decide_eq_false (hgone slot' (hpath ▸ hslot'))
        rw [hstale, Bool.false_and]
      · simp [hpath]
    · have hfind : (m.forget t).entries.find path = some (slot.metadata, slot.insertedAt) :=
        h.find.mpr ⟨slot, hslot, by omega, rfl⟩
      obtain ⟨-, hconfig, huses⟩ := h.sound.touch hslot
      have hhit : m.call (.get path t) = (some slot.metadata,
          { m.forget t with entries := (m.forget t).entries.put path (slot.metadata, slot.insertedAt) }) := by
        simp only [LruTtlMap.call, hfind, LruMap.touch_of_find hfind, Option.map_some]
      rw [hhit]
      refine ⟨rfl, hsound, h.config.trans hconfig.symm, ?_⟩
      rw [hconfig, huses]
      show List.filter _ (List.filter _ (m.forget t).entries.entries ++ _) = _
      rw [hforget, List.filter_append, List.filter_append, List.filter_filter, List.filter_filter, List.filter_filter]
      congr 1
      refine List.filter_congr fun e _ => ?_
      cases LruTtlMap.fresh c.config.ttl t e <;> simp

theorem Simulates.put (h : Simulates t c m) (path : String) (metadata : Meta) (now : Nat) :
    Simulates t (c.put path metadata now t) (m.call (.put path metadata now t)).2 := by
  obtain ⟨hsound, hconfig, huses⟩ := h.sound.put path metadata now t
  have hkept : ((m.forget t).entries.put path (metadata, now)).entries = usesOfPut c path metadata now t := by
    show (m.forget t).entries.entries.filter _ ++ _ = _
    rw [h.forget]
    rfl
  refine ⟨hsound, h.config.trans hconfig.symm, ?_⟩
  rw [hconfig, huses]
  show List.filter _ (((m.forget t).entries.put path (metadata, now)).entries.drop
    (((m.forget t).entries.put path (metadata, now)).entries.length - m.config.capacity)) = _
  rw [hkept, h.config]

theorem Simulates.invalidate (h : Simulates t c m) (path : String) :
    Simulates t (c.invalidate path) (m.call (.invalidate path)).2 := by
  refine ⟨h.sound.invalidate path, h.config, ?_⟩
  have hcomm : ∀ l : List (String × Meta × Nat),
      (l.filter (·.1 ≠ path)).filter (LruTtlMap.fresh c.config.ttl t) =
        (l.filter (LruTtlMap.fresh c.config.ttl t)).filter (·.1 ≠ path) := by
    intro l
    rw [List.filter_filter, List.filter_filter]
    exact List.filter_congr fun e _ => Bool.and_comm _ _
  show List.filter (LruTtlMap.fresh c.config.ttl t) (m.entries.entries.filter _) =
    List.filter (LruTtlMap.fresh c.config.ttl t) (uses (c.entries.erase path) c.order)
  rw [uses_forget, hcomm, hcomm]
  exact congrArg _ h.same

theorem Simulates.clear (h : Simulates t c m) : Simulates t c.clear (m.call .clear).2 where
  sound := .clear c
  config := h.config
  same := rfl

end MetadataCache

/-! ### Whole runs -/

section runs

variable {Meta : Type}

/-- What the clock said last. -/
def MetadataCacheCall.clock (t : Nat) : MetadataCacheCall Meta → Nat
  | .get _ now => now
  | .put _ _ _ swept => swept
  | _ => t

/-- The clock does not go back. -/
def MetadataCacheCall.InTime (t : Nat) : MetadataCacheCall Meta → Prop
  | .get _ now => t ≤ now
  | .put _ _ now swept => t ≤ now ∧ now ≤ swept
  | _ => True

namespace MetadataCache

variable {c : MetadataCache Meta} {m : LruTtlMap Meta} {t : Nat}

theorem Simulates.call (h : Simulates t c m) (k : MetadataCacheCall Meta) (hk : k.InTime t) :
    (c.call k).1 = (m.call k).1 ∧ Simulates (k.clock t) (c.call k).2 (m.call k).2 := by
  cases k with
  | get path now => exact (h.later hk).get path
  | put path metadata now swept => exact ⟨rfl, (h.later (Nat.le_trans hk.1 hk.2)).put path metadata now⟩
  | invalidate path => exact ⟨rfl, h.invalidate path⟩
  | clear => exact ⟨rfl, h.clear⟩

theorem length_lruTtlMap_le (h : m.entries.entries.length ≤ m.config.capacity) (k : MetadataCacheCall Meta) :
    (m.call k).2.entries.entries.length ≤ (m.call k).2.config.capacity := by
  cases k with
  | get path now =>
    show ((m.forget now).entries.touch path).entries.length ≤ m.config.capacity
    rw [LruMap.length_touch]
    exact Nat.le_trans (List.length_filter_le _ _) h
  | put path metadata now swept =>
    show (((m.forget swept).entries.put path (metadata, now)).entries.drop
      (((m.forget swept).entries.put path (metadata, now)).entries.length - m.config.capacity)).length ≤
        m.config.capacity
    rw [List.length_drop]
    omega
  | invalidate path => exact Nat.le_trans (List.length_filter_le _ _) h
  | clear => exact Nat.zero_le _

/-- A live entry has one element that matches it, and the queue is not longer than the capacity and one. -/
def ExactQueue (c : MetadataCache Meta) : Prop :=
  (∀ path slot, c.entries.lookup path = some slot → c.order.count ⟨path, slot.seq⟩ = 1) ∧
    c.order.length ≤ c.config.capacity + 1

/-- Whatever the calls, at times that do not go back, the cache answers as a map of the latest uses whose entries are
forgotten when they are expired. -/
theorem refines_lruTtlMap (config : MetadataCacheConfig) (calls : List (MetadataCacheCall Meta))
    (hclock : Runs.AllSteps MetadataCacheCall.clock MetadataCacheCall.InTime 0 calls) :
    Answers.answers call (new config) calls = Answers.answers LruTtlMap.call (LruTtlMap.new config) calls ∧
      Runs.AllStates (fun m k => (LruTtlMap.call m k).2) (fun m => m.entries.entries.length ≤ m.config.capacity)
        (LruTtlMap.new config) calls ∧
      Runs.AllStates (fun c k => (call c k).2) ExactQueue (new config) calls := by
  have hany : ∀ k ∈ calls, True := fun _ _ => trivial
  refine ⟨?_, ?_, ?_⟩
  · exact Answers.answers_eq (R := Simulates) (fun _ _ _ k h hk => h.call k hk) ⟨.new config, rfl, rfl⟩ hclock
  · exact (Runs.allSteps_of_calls hany).allStates (Nat.zero_le _) (fun _ k h _ => length_lruTtlMap_le h k) fun _ h => h
  · exact (Runs.allSteps_of_calls hany).allStates (I := Sound) (.new config) (fun _ k h _ => h.call k)
      fun _ h => ⟨fun _ _ hslot => h.count_eq_one hslot, h.order_le⟩

/-- Room for one path, used, put again and forgotten in time. -/
def oneRoom : List (MetadataCacheCall Nat) :=
  [.put "/a" 1 0 0, .get "/a" 1, .put "/b" 2 2 3, .get "/a" 3, .get "/b" 4, .invalidate "/b", .get "/b" 20]

theorem refines_lruTtlMap_oneRoom :
    Answers.answers call (new ⟨10, 1⟩) oneRoom = Answers.answers LruTtlMap.call (LruTtlMap.new ⟨10, 1⟩) oneRoom ∧
      Runs.AllStates (fun m k => (LruTtlMap.call m k).2) (fun m => m.entries.entries.length ≤ m.config.capacity)
        (LruTtlMap.new ⟨10, 1⟩) oneRoom ∧
      Runs.AllStates (fun c k => (call c k).2) ExactQueue (new ⟨10, 1⟩) oneRoom :=
  refines_lruTtlMap ⟨10, 1⟩ oneRoom
    (by simp [oneRoom, Runs.AllSteps, MetadataCacheCall.InTime, MetadataCacheCall.clock])

end MetadataCache

end runs

end Pcloud.Fs
