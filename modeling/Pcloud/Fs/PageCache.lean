import Mathlib.Data.List.AList
import Pcloud.Lib.LruMap
import Pcloud.Lib.Runs
import Pcloud.Model.Bytes

/-!
# The page cache of the mount (`pcloud-fs/src/page_cache.rs`)

Pages by file and place, in the order of use, with an index of the pages of each file. The `lru` crate is a map in
that order. Sizes are natural numbers: the pages that are resident and the one that comes in are in memory together,
so that no sum of theirs saturates.
-/

namespace Pcloud.Fs

@[ext]
structure PageKey where
  fileId : UInt64
  pageIndex : UInt64
deriving DecidableEq, Repr

def defaultPageSize : Nat := 64 * 1024

def defaultMaxBytes : Nat := 128 * 1024 * 1024

structure PageCacheConfig where
  pageSize : Nat := defaultPageSize
  maxBytes : Nat := defaultMaxBytes

/-- A set of pages is a list here. -/
abbrev FileIndex := AList fun _ : UInt64 => List UInt64

namespace FileIndex

variable (byFile : FileIndex) (key : PageKey)

/-- A page that goes, and its file with the last of them. -/
def forget : FileIndex :=
  match byFile.lookup key.fileId with
  | some set =>
    let left := set.filter (· ≠ key.pageIndex)
    if left.isEmpty then AList.erase key.fileId byFile else AList.insert key.fileId left byFile
  | none => byFile

def record : FileIndex :=
  AList.insert key.fileId (((byFile.lookup key.fileId).getD []).insert key.pageIndex) byFile

end FileIndex

structure PageCache where
  config : PageCacheConfig
  entries : LruMap PageKey Bytes := .empty
  byFile : FileIndex := ∅
  bytesResident : Nat := 0
  hits : Nat := 0
  misses : Nat := 0
  bytesRejectedOversized : Nat := 0

namespace PageCache

def new (config : PageCacheConfig) : PageCache :=
  let pageSize := if config.pageSize = 0 then defaultPageSize else config.pageSize
  { config := ⟨pageSize, if config.maxBytes < pageSize then pageSize else config.maxBytes⟩ }

variable (c : PageCache)

def get (key : PageKey) : Option Bytes × PageCache :=
  match c.entries.find key with
  | some bytes => (some bytes, { c with entries := c.entries.touch key, hits := satAdd c.hits 1 })
  | none => (none, { c with misses := satAdd c.misses 1 })

/-- `entries.pop`, and the bytes of the page with it. -/
def pop (key : PageKey) : PageCache :=
  match c.entries.find key with
  | some old => { c with entries := c.entries.erase key, bytesResident := c.bytesResident - old.length }
  | none => c

/-- The loop takes a page at each turn. -/
def evictUntilFits (incomingBytes : Nat) : (pages : Nat) → PageCache → PageCache
  | 0, c => c
  | pages + 1, c =>
    if c.bytesResident + incomingBytes - c.config.maxBytes > 0 then
      match c.entries.popLru with
      | none => c
      | some (evicted, rest) =>
        evictUntilFits incomingBytes pages
          { c with
            entries := rest
            bytesResident := c.bytesResident - evicted.2.length
            byFile := c.byFile.forget evicted.1 }
    else c

def put (key : PageKey) (bytes : Bytes) : PageCache :=
  let newLen := bytes.length
  if newLen > c.config.maxBytes then
    { c with bytesRejectedOversized := satAdd c.bytesRejectedOversized newLen }
  else
    let popped := c.pop key
    let fitting := evictUntilFits newLen popped.entries.entries.length popped
    { fitting with
      entries := fitting.entries.put key bytes
      bytesResident := fitting.bytesResident + newLen
      byFile := fitting.byFile.record key }

def invalidateFile (fileId : UInt64) : PageCache :=
  match c.byFile.lookup fileId with
  | none => c
  | some pageIndices =>
    pageIndices.foldl (fun c pageIndex => c.pop ⟨fileId, pageIndex⟩)
      { c with byFile := AList.erase fileId c.byFile }

def clear : PageCache := { c with entries := .empty, byFile := ∅, bytesResident := 0 }

inductive Call
  | get (key : PageKey)
  | put (key : PageKey) (bytes : Bytes)
  | invalidateFile (fileId : UInt64)
  | clear

def step : Call → PageCache
  | .get key => (c.get key).2
  | .put key bytes => c.put key bytes
  | .invalidateFile fileId => c.invalidateFile fileId
  | .clear => c.clear

/-! ## The books -/

/-- The index has the page of a key. -/
def Listed (byFile : FileIndex) (key : PageKey) : Prop :=
  ∃ set, byFile.lookup key.fileId = some set ∧ key.pageIndex ∈ set

structure Balanced (c : PageCache) : Prop where
  resident : c.bytesResident = c.entries.total List.length
  bounded : c.bytesResident ≤ c.config.maxBytes
  listed : ∀ key, Listed c.byFile key ↔ key ∈ c.entries.keys
  nonempty : ∀ fileId, c.byFile.lookup fileId ≠ some []

/-! ### The index -/

section index

variable {byFile : FileIndex} {key k : PageKey}

theorem listed_forget : Listed (byFile.forget key) k ↔ Listed byFile k ∧ k ≠ key := by
  unfold FileIndex.forget
  rcases hset : byFile.lookup key.fileId with _ | set
  · -- No page of the file is in the index.
    refine ⟨fun h => ⟨h, ?_⟩, fun h => h.1⟩
    rintro rfl
    obtain ⟨set, hsome, -⟩ := h
    exact nomatch hset.symm.trans hsome
  · have hleft : ∀ i, i ∈ set.filter (· ≠ key.pageIndex) ↔ i ∈ set ∧ i ≠ key.pageIndex := by simp
    by_cases hfile : k.fileId = key.fileId
    · have hne : k ≠ key ↔ k.pageIndex ≠ key.pageIndex := by
        rw [Ne, PageKey.ext_iff]
        simp [hfile]
      have hold : Listed byFile k ↔ k.pageIndex ∈ set := by
        rw [Listed, hfile, hset]
        simp
      rw [hold, hne, ← hleft]
      dsimp only
      split_ifs with hempty
      · rw [Listed, hfile, AList.lookup_erase]
        simp only [List.isEmpty_iff.mp hempty, List.not_mem_nil]
        simp
      · rw [Listed, hfile, AList.lookup_insert]
        simp
    · have hne : k ≠ key := fun h => hfile (congrArg PageKey.fileId h)
      dsimp only
      split_ifs
      · rw [Listed, AList.lookup_erase_ne hfile]
        simp [Listed, hne]
      · rw [Listed, AList.lookup_insert_ne hfile]
        simp [Listed, hne]

theorem lookup_forget_ne_nil (h : ∀ fileId, byFile.lookup fileId ≠ some []) (fileId : UInt64) :
    (byFile.forget key).lookup fileId ≠ some [] := by
  unfold FileIndex.forget
  split
  · dsimp only
    split_ifs with hempty <;>
    by_cases hfile : fileId = key.fileId
    · rw [hfile, AList.lookup_erase]
      simp
    · rw [AList.lookup_erase_ne hfile]
      exact h fileId
    · rw [hfile, AList.lookup_insert]
      intro hnil
      exact hempty (List.isEmpty_iff.mpr (Option.some.inj hnil))
    · rw [AList.lookup_insert_ne hfile]
      exact h fileId
  · exact h fileId

theorem listed_record : Listed (byFile.record key) k ↔ Listed byFile k ∨ k = key := by
  unfold FileIndex.record
  by_cases hfile : k.fileId = key.fileId
  · have heq : k = key ↔ k.pageIndex = key.pageIndex := by
      rw [PageKey.ext_iff]
      simp [hfile]
    rw [Listed, hfile, AList.lookup_insert, Listed, hfile, heq]
    rcases byFile.lookup key.fileId with _ | set
    · simp
    · simp [List.mem_insert_iff, or_comm]
  · have hne : k ≠ key := fun h => hfile (congrArg PageKey.fileId h)
    rw [Listed, AList.lookup_insert_ne hfile]
    simp [Listed, hne]

theorem lookup_record_ne_nil (h : ∀ fileId, byFile.lookup fileId ≠ some []) (fileId : UInt64) :
    (byFile.record key).lookup fileId ≠ some [] := by
  unfold FileIndex.record
  by_cases hfile : fileId = key.fileId
  · rw [hfile, AList.lookup_insert]
    intro hnil
    have hmem : key.pageIndex ∈ ((byFile.lookup key.fileId).getD []).insert key.pageIndex := by simp
    rw [Option.some.inj hnil] at hmem
    cases hmem
  · rw [AList.lookup_insert_ne hfile]
    exact h fileId

end index

/-! ### One call -/

variable {c} {key : PageKey}

/-- The books while a page is being put: it is not there, and the index may have it or not. -/
structure Making (key : PageKey) (c : PageCache) : Prop where
  resident : c.bytesResident = c.entries.total List.length
  absent : c.entries.find key = none
  listed : ∀ k ≠ key, (Listed c.byFile k ↔ k ∈ c.entries.keys)
  nonempty : ∀ fileId, c.byFile.lookup fileId ≠ some []

theorem entries_pop (c : PageCache) (key : PageKey) : (c.pop key).entries = c.entries.erase key := by
  unfold pop
  split
  · rfl
  · rename_i hnone
    exact (LruMap.erase_of_find_none hnone).symm

theorem byFile_pop (c : PageCache) (key : PageKey) : (c.pop key).byFile = c.byFile := by
  unfold pop
  split <;> rfl

theorem config_pop (c : PageCache) (key : PageKey) : (c.pop key).config = c.config := by
  unfold pop
  split <;> rfl

theorem resident_pop (h : c.bytesResident = c.entries.total List.length) (key : PageKey) :
    (c.pop key).bytesResident = (c.pop key).entries.total List.length := by
  rw [entries_pop]
  unfold pop
  split
  · rename_i old hfind
    have htotal := LruMap.total_erase List.length hfind
    simp only
    omega
  · rename_i hnone
    rw [LruMap.erase_of_find_none hnone, h]

theorem Balanced.pop (h : Balanced c) (key : PageKey) : Making key (c.pop key) where
  resident := resident_pop h.resident key
  absent := by rw [entries_pop, LruMap.find_erase_self]
  listed k hk := by
    rw [entries_pop, byFile_pop, LruMap.mem_keys_erase, h.listed]
    simp [hk]
  nonempty := by
    rw [byFile_pop]
    exact h.nonempty

theorem Making.evict (h : Making key c) {evicted : PageKey × Bytes} {rest : LruMap PageKey Bytes}
    (hpop : c.entries.popLru = some (evicted, rest)) :
    Making key { c with
      entries := rest
      bytesResident := c.bytesResident - evicted.2.length
      byFile := c.byFile.forget evicted.1 } := by
  obtain ⟨rfl, hfind⟩ := LruMap.rest_of_popLru hpop
  have hne : key ≠ evicted.1 := by
    rintro rfl
    exact nomatch h.absent.symm.trans hfind
  constructor
  · have htotal := LruMap.total_erase List.length hfind
    have hresident := h.resident
    simp only
    omega
  · simp only
    rw [LruMap.find_erase_of_ne hne]
    exact h.absent
  · intro k hk
    simp only
    rw [listed_forget, LruMap.mem_keys_erase, h.listed k hk]
  · exact lookup_forget_ne_nil h.nonempty

theorem Making.room_of_empty (h : Making key c) {incoming : Nat} (hroom : incoming ≤ c.config.maxBytes)
    (hnil : c.entries.entries = []) : c.bytesResident + incoming ≤ c.config.maxBytes := by
  have hresident := h.resident
  rw [LruMap.total, hnil, List.map_nil, List.sum_nil] at hresident
  omega

theorem Making.evictUntilFits (h : Making key c) {incoming pages : Nat} (hroom : incoming ≤ c.config.maxBytes)
    (hpages : c.entries.entries.length ≤ pages) :
    Making key (PageCache.evictUntilFits incoming pages c) ∧
      (PageCache.evictUntilFits incoming pages c).config = c.config ∧
      (PageCache.evictUntilFits incoming pages c).bytesResident + incoming ≤ c.config.maxBytes ∧
      ∀ k bytes, (PageCache.evictUntilFits incoming pages c).entries.find k = some bytes →
        c.entries.find k = some bytes := by
  induction pages generalizing c with
  | zero =>
    have hnil := List.eq_nil_of_length_eq_zero (Nat.le_zero.mp hpages)
    exact ⟨h, rfl, h.room_of_empty hroom hnil, fun _ _ hfind => hfind⟩
  | succ pages ih =>
    unfold PageCache.evictUntilFits
    split_ifs with hover
    · rcases hpop : c.entries.popLru with _ | ⟨evicted, rest⟩
      · exact ⟨h, rfl, h.room_of_empty hroom (LruMap.popLru_eq_none hpop), fun _ _ hfind => hfind⟩
      · have hlength : c.entries.entries.length = rest.entries.length + 1 := by
          rw [LruMap.entries_of_popLru hpop, List.length_cons]
        obtain ⟨hmaking, hconfig, hfits, hfind⟩ := ih (h.evict hpop) hroom (by simp only; omega)
        refine ⟨hmaking, hconfig, hfits, fun k bytes hbytes => ?_⟩
        rw [LruMap.find_eq_some, LruMap.entries_of_popLru hpop]
        exact List.mem_cons_of_mem _ (LruMap.find_eq_some.mp (hfind k bytes hbytes))
    · exact ⟨h, rfl, by omega, fun _ _ hfind => hfind⟩

theorem Balanced.put (h : Balanced c) (key : PageKey) (bytes : Bytes) : Balanced (c.put key bytes) := by
  unfold PageCache.put
  dsimp only
  split_ifs with hover
  · exact ⟨h.resident, h.bounded, h.listed, h.nonempty⟩
  · have hroom : bytes.length ≤ (c.pop key).config.maxBytes := by
      rw [config_pop]
      omega
    obtain ⟨hmaking, hconfig, hfits, -⟩ := (h.pop key).evictUntilFits hroom (Nat.le_refl _)
    generalize PageCache.evictUntilFits bytes.length (c.pop key).entries.entries.length (c.pop key) = fitting
      at hmaking hconfig hfits
    constructor
    · have hresident := hmaking.resident
      simp only
      rw [LruMap.total_put, LruMap.erase_of_find_none hmaking.absent, hresident]
    · simp only
      rw [hconfig]
      exact hfits
    · intro k
      simp only
      rw [listed_record, LruMap.mem_keys_put]
      by_cases hk : k = key
      · simp [hk]
      · rw [hmaking.listed k hk]
    · exact lookup_record_ne_nil hmaking.nonempty

theorem Balanced.get (h : Balanced c) (key : PageKey) : Balanced (c.get key).2 := by
  unfold PageCache.get
  split
  · refine ⟨?_, h.bounded, ?_, h.nonempty⟩
    · simp only [LruMap.total_touch]
      exact h.resident
    · intro k
      simp only [LruMap.mem_keys, LruMap.find_touch]
      rw [← LruMap.mem_keys]
      exact h.listed k
  · exact ⟨h.resident, h.bounded, h.listed, h.nonempty⟩

theorem foldl_pop (fileId : UInt64) (pageIndices : List UInt64) (c : PageCache)
    (h : c.bytesResident = c.entries.total List.length) :
    let c' := pageIndices.foldl (fun c pageIndex => c.pop ⟨fileId, pageIndex⟩) c
    c'.entries = c.entries.restrict (fun e => ¬ (e.1.fileId = fileId ∧ e.1.pageIndex ∈ pageIndices)) ∧
      c'.bytesResident = c'.entries.total List.length ∧ c'.byFile = c.byFile ∧ c'.config = c.config := by
  induction pageIndices generalizing c with
  | nil =>
    refine ⟨?_, h, rfl, rfl⟩
    apply LruMap.ext
    simp [LruMap.restrict]
  | cons pageIndex pageIndices ih =>
    obtain ⟨hentries, hresident, hbyFile, hconfig⟩ := ih (c.pop ⟨fileId, pageIndex⟩) (resident_pop h _)
    refine ⟨?_, hresident, hbyFile.trans (byFile_pop c _), hconfig.trans (config_pop c _)⟩
    rw [List.foldl_cons, hentries, entries_pop, LruMap.erase, LruMap.restrict_restrict]
    apply LruMap.restrict_congr
    intro e _
    rw [← Bool.decide_and]
    refine decide_eq_decide.mpr ?_
    rw [Ne, PageKey.ext_iff, List.mem_cons]
    tauto

theorem Balanced.entries_invalidateFile (h : Balanced c) (fileId : UInt64) :
    (c.invalidateFile fileId).entries = c.entries.restrict fun e => e.1.fileId ≠ fileId := by
  have hlisted : ∀ e ∈ c.entries.entries, Listed c.byFile e.1 := fun e he =>
    (h.listed e.1).mpr (List.mem_map_of_mem he)
  unfold PageCache.invalidateFile
  rcases hset : c.byFile.lookup fileId with _ | pageIndices
  · apply LruMap.ext
    refine (List.filter_eq_self.mpr fun e he => decide_eq_true ?_).symm
    rintro rfl
    obtain ⟨set, hsome, -⟩ := hlisted e he
    exact nomatch hset.symm.trans hsome
  · rw [(foldl_pop fileId pageIndices { c with byFile := AList.erase fileId c.byFile } h.resident).1]
    apply LruMap.restrict_congr
    intro e he
    refine decide_eq_decide.mpr (not_congr ⟨fun hpage => hpage.1, fun hfile => ⟨hfile, ?_⟩⟩)
    obtain ⟨set, hsome, hmem⟩ := hlisted e he
    rw [hfile, hset] at hsome
    rwa [Option.some.inj hsome]

theorem Balanced.invalidateFile (h : Balanced c) (fileId : UInt64) : Balanced (c.invalidateFile fileId) := by
  have hentries := h.entries_invalidateFile fileId
  unfold PageCache.invalidateFile at hentries ⊢
  rcases hset : c.byFile.lookup fileId with _ | pageIndices
  · exact h
  · simp only [hset] at hentries ⊢
    obtain ⟨-, hresident, hbyFile, hconfig⟩ :=
      foldl_pop fileId pageIndices { c with byFile := AList.erase fileId c.byFile } h.resident
    constructor
    · exact hresident
    · rw [hresident, hconfig, hentries]
      refine Nat.le_trans (LruMap.total_restrict_le _ _) ?_
      rw [← h.resident]
      exact h.bounded
    · intro k
      rw [hentries, hbyFile, LruMap.mem_keys_restrict fun key : PageKey => decide (key.fileId ≠ fileId), ← h.listed k]
      by_cases hfile : k.fileId = fileId
      · rw [Listed, hfile, AList.lookup_erase]
        simp
      · rw [Listed, AList.lookup_erase_ne hfile]
        simp [Listed, hfile]
    · intro fileId'
      rw [hbyFile]
      by_cases hfile : fileId' = fileId
      · rw [hfile, AList.lookup_erase]
        exact nofun
      · rw [AList.lookup_erase_ne hfile]
        exact h.nonempty fileId'

theorem Balanced.clear (c : PageCache) : Balanced c.clear where
  resident := rfl
  bounded := Nat.zero_le _
  listed key := by simp [Listed, PageCache.clear, LruMap.keys, LruMap.empty]
  nonempty fileId := by simp [PageCache.clear]

theorem Balanced.new (config : PageCacheConfig) : Balanced (PageCache.new config) where
  resident := rfl
  bounded := Nat.zero_le _
  listed key := by simp [Listed, PageCache.new, LruMap.keys, LruMap.empty]
  nonempty fileId := by simp [PageCache.new]

theorem Balanced.step (h : Balanced c) (call : Call) : Balanced (c.step call) := by
  cases call with
  | get key => exact h.get key
  | put key bytes => exact h.put key bytes
  | invalidateFile fileId => exact h.invalidateFile fileId
  | clear => exact .clear c

theorem Balanced.config_step (h : Balanced c) (call : Call) : (c.step call).config = c.config := by
  cases call with
  | get key =>
    simp only [PageCache.step, PageCache.get]
    split <;> rfl
  | put key bytes =>
    simp only [PageCache.step, PageCache.put]
    split_ifs with hover
    · rfl
    · have hroom : bytes.length ≤ (c.pop key).config.maxBytes := by
        rw [config_pop]
        omega
      exact ((h.pop key).evictUntilFits hroom (Nat.le_refl _)).2.1.trans (config_pop c key)
  | invalidateFile fileId =>
    simp only [PageCache.step, PageCache.invalidateFile]
    split
    · rfl
    · rename_i pageIndices _
      exact (foldl_pop fileId pageIndices { c with byFile := AList.erase fileId c.byFile } h.resident).2.2.2
  | clear => rfl

/-! ### Whole runs -/

/-- In every state of every run the books are right, under the limit the cache was made with. A file that is then
invalidated has no page left, and the pages of the other files stay as they are. -/
theorem balanced_run (config : PageCacheConfig) (calls : List Call) :
    Balanced (Runs.run step (new config) calls) ∧
      (Runs.run step (new config) calls).config = (new config).config ∧
      ∀ fileId key, ((Runs.run step (new config) calls).invalidateFile fileId).entries.find key =
        if key.fileId = fileId then none else (Runs.run step (new config) calls).entries.find key := by
  have hinvariant : Balanced (Runs.run step (new config) calls) ∧
      (Runs.run step (new config) calls).config = (new config).config :=
    Runs.run_invariant (I := fun c => Balanced c ∧ c.config = (new config).config) ⟨.new config, rfl⟩
      fun _ call h => ⟨h.1.step call, (h.1.config_step call).trans h.2⟩
  refine ⟨hinvariant.1, hinvariant.2, fun fileId key => ?_⟩
  rw [hinvariant.1.entries_invalidateFile fileId]
  apply Option.ext
  intro bytes
  rw [LruMap.find_restrict_eq_some]
  split_ifs with hfile <;>
  simp [hfile]

/-! ## Superseded pages -/

/-- A cache, and what was put into it, the newest first. -/
structure Served where
  cache : PageCache
  puts : List (PageKey × Bytes) := []

def Served.step (s : Served) (call : Call) : Served where
  cache := s.cache.step call
  puts := match call with
    | .put key bytes => (key, bytes) :: s.puts
    | _ => s.puts

/-- What a read gives are the bytes put last under its key. -/
def Served.Latest (s : Served) : Prop :=
  ∀ key bytes, (s.cache.get key).1 = some bytes → s.puts.lookup key = some bytes

/-- A page larger than the whole cache is put where there is none of its key. -/
def Served.PutsFit (s : Served) : Call → Prop
  | .put key bytes => s.cache.config.maxBytes < bytes.length → (s.cache.get key).1 = none
  | _ => True

theorem get_fst (c : PageCache) (key : PageKey) : (c.get key).1 = c.entries.find key := by
  unfold PageCache.get
  split
  · rename_i bytes hfind
    exact hfind.symm
  · rename_i hnone
    exact hnone.symm

theorem Balanced.length_le (h : Balanced c) {bytes : Bytes} (hfind : c.entries.find key = some bytes) :
    bytes.length ≤ c.config.maxBytes := by
  have htotal := LruMap.total_erase List.length hfind
  have hresident := h.resident
  have hbounded := h.bounded
  omega

theorem Balanced.find_put (h : Balanced c) {bytes bytes' : Bytes} (hroom : bytes.length ≤ c.config.maxBytes)
    {k : PageKey} (hfind : (c.put key bytes).entries.find k = some bytes') :
    k = key ∧ bytes' = bytes ∨ k ≠ key ∧ c.entries.find k = some bytes' := by
  have hroom' : bytes.length ≤ (c.pop key).config.maxBytes := by rwa [config_pop]
  obtain ⟨-, -, -, hkept⟩ := (h.pop key).evictUntilFits hroom' (Nat.le_refl _)
  unfold PageCache.put at hfind
  simp only [gt_iff_lt, Nat.not_lt.mpr hroom, if_false] at hfind
  by_cases hk : k = key
  · left
    rw [hk, LruMap.find_put_self] at hfind
    exact ⟨hk, (Option.some.inj hfind).symm⟩
  · right
    rw [LruMap.find_put_of_ne hk] at hfind
    have hold := hkept k bytes' hfind
    rw [entries_pop, LruMap.find_erase_of_ne hk] at hold
    exact ⟨hk, hold⟩

theorem Balanced.find_step (h : Balanced c) {call : Call} (hcall : ∀ key bytes, call ≠ .put key bytes) {k : PageKey}
    {bytes : Bytes} (hfind : (c.step call).entries.find k = some bytes) : c.entries.find k = some bytes := by
  cases call with
  | get key =>
    simp only [PageCache.step, PageCache.get] at hfind
    split at hfind
    · rwa [LruMap.find_touch] at hfind
    · exact hfind
  | put key bytes => exact absurd rfl (hcall key bytes)
  | invalidateFile fileId =>
    simp only [PageCache.step, h.entries_invalidateFile fileId] at hfind
    exact (LruMap.find_restrict_eq_some.mp hfind).1
  | clear => cases hfind

namespace Served

variable {s : Served}

theorem latest_put_iff (h : Balanced s.cache) (hlatest : s.Latest) (key : PageKey) (bytes : Bytes) :
    (s.step (.put key bytes)).Latest ↔ s.PutsFit (.put key bytes) := by
  simp only [Latest, PutsFit, get_fst] at hlatest ⊢
  by_cases hover : s.cache.config.maxBytes < bytes.length
  · have hsame : (s.cache.put key bytes).entries = s.cache.entries := by
      unfold PageCache.put
      simp only [gt_iff_lt, hover, if_true]
    simp only [step, PageCache.step, hsame, hover, true_imp_iff]
    constructor
    · intro hnext
      rw [Option.eq_none_iff_forall_ne_some]
      intro old hold
      have hlookup := hnext key old hold
      rw [List.lookup_cons_self] at hlookup
      have hlength := h.length_le hold
      rw [← Option.some.inj hlookup] at hlength
      omega
    · intro hnone k old hold
      have hk : k ≠ key := by
        rintro rfl
        rw [hnone] at hold
        cases hold
      rw [List.lookup_cons, beq_false_of_ne hk]
      exact hlatest k old hold
  · refine iff_of_true (fun k page hpage => ?_) fun hbad => absurd hbad hover
    rcases h.find_put (Nat.le_of_not_lt hover) hpage with ⟨rfl, rfl⟩ | ⟨hk, hold⟩
    · exact List.lookup_cons_self
    · simp only [step]
      rw [List.lookup_cons, beq_false_of_ne hk]
      exact hlatest k page hold

theorem latest_step_iff (h : Balanced s.cache) (hlatest : s.Latest) (call : Call) :
    (s.step call).Latest ↔ s.PutsFit call := by
  have hother : (∀ key bytes, call ≠ .put key bytes) → (s.step call).puts = s.puts → (s.step call).Latest := by
    intro hcall hputs key page hpage
    rw [get_fst] at hpage
    rw [hputs]
    exact hlatest key page ((get_fst s.cache key).trans (h.find_step hcall hpage))
  cases call with
  | put key bytes => exact latest_put_iff h hlatest key bytes
  | get key => exact iff_of_true (hother nofun rfl) trivial
  | invalidateFile fileId => exact iff_of_true (hother nofun rfl) trivial
  | clear => exact iff_of_true (hother nofun rfl) trivial

/-- Every read of a run gives the bytes put last just where no page too large for the cache is put over one that is
there. -/
theorem latest_run_iff (config : PageCacheConfig) (calls : List Call) :
    Runs.AllStates step Latest { cache := new config } calls ↔
      Runs.AllSteps step PutsFit { cache := new config } calls := by
  have hany : ∀ call ∈ calls, True := fun _ _ => trivial
  refine Runs.allStates_iff_allSteps_of_invariant (I := fun s => Balanced s.cache) hany ?_ ?_ (Balanced.new config) ?_
  · exact fun _ call _ h => h.step call
  · exact fun _ call _ h hlatest => latest_step_iff h hlatest call
  · intro key bytes hbytes
    rw [get_fst] at hbytes
    cases hbytes

/-- A page of two bytes, and one of five where four is all there is room for. -/
def tooLarge : List Call := [.put ⟨1, 0⟩ [1, 2], .put ⟨1, 0⟩ [1, 2, 3, 4, 5]]

theorem not_latest : ¬ Runs.AllStates step Latest { cache := new ⟨4, 4⟩ } tooLarge := by
  intro h
  have hlatest := h.run
  have hstale : (Runs.run step { cache := new ⟨4, 4⟩ } tooLarge).puts.lookup ⟨1, 0⟩ = some [1, 2] :=
    hlatest ⟨1, 0⟩ [1, 2] (by decide)
  exact absurd hstale (by decide)

end Served

end PageCache

end Pcloud.Fs
