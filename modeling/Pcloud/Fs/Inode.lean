import Mathlib.Data.List.AList
import Pcloud.Lib.Inverse
import Pcloud.Lib.Runs
import Pcloud.Model.Bytes

/-!
# The inode table (`pcloud-fs/src/inode.rs`)

Paths and inode numbers, each found from the other. A number is given out once: a path that was
evicted gets a new one when it comes back. The kernel's references to a number are counted, and the
last `forget` evicts it.
-/

open Runs

namespace Pcloud

inductive FsEntryKind
  | directory
  | regularFile
  | symlink
deriving DecidableEq

inductive FsError
  | inodeSpaceExhausted
deriving DecidableEq

def rootInode : Nat := 1

structure InodeEntry where
  path : String
  kind : FsEntryKind
  generation : Nat
deriving DecidableEq

structure InodeTable where
  byIno : AList fun _ : Nat => InodeEntry
  byPath : AList fun _ : String => Nat
  nextIno : Nat
  lookupCounts : AList fun _ : Nat => Nat

namespace InodeTable

def new : InodeTable where
  byIno := AList.insert rootInode { path := "/", kind := .directory, generation := 1 } ∅
  byPath := AList.insert "/" rootInode ∅
  nextIno := rootInode + 1
  lookupCounts := ∅

variable (t : InodeTable)

def resolve (ino : Nat) : Option (String × Nat × FsEntryKind) :=
  (t.byIno.lookup ino).map fun e => (e.path, e.generation, e.kind)

def inoForPath (path : String) : Option Nat := t.byPath.lookup path

/-- The part of `insert_or_get` after no entry was found. -/
def allocate (path : String) (kind : FsEntryKind) : Except FsError (Nat × Nat) × InodeTable :=
  let ino := t.nextIno
  if u64Max < t.nextIno + 1 then (.error .inodeSpaceExhausted, t)
  else (.ok (ino, 1),
    { t with
      nextIno := t.nextIno + 1
      byIno := t.byIno.insert ino { path, kind, generation := 1 }
      byPath := t.byPath.insert path ino })

def insertOrGet (path : String) (kind : FsEntryKind) : Except FsError (Nat × Nat) × InodeTable :=
  match t.byPath.lookup path with
  | some ino =>
    match t.byIno.lookup ino with
    | some entry => (.ok (ino, entry.generation), { t with byIno := t.byIno.insert ino { entry with kind } })
    | none => t.allocate path kind
  | none => t.allocate path kind

/-- The second critical section of `insert_with_lookup`. -/
def bootstrapLookup (ino : Nat) : InodeTable :=
  match t.lookupCounts.lookup ino with
  | some _ => t
  | none => { t with lookupCounts := t.lookupCounts.insert ino 0 }

def insertWithLookup (path : String) (kind : FsEntryKind) : Except FsError (Nat × Nat) × InodeTable :=
  match t.insertOrGet path kind with
  | (.error e, t) => (.error e, t)
  | (.ok (ino, generation), t) => (.ok (ino, generation), t.bootstrapLookup ino)

def invalidatePath (path : String) : Option Nat × InodeTable :=
  if path = "/" then (none, t)
  else match t.byPath.lookup path with
    | none => (none, t)
    | some ino => (some ino, { t with byPath := t.byPath.erase path, byIno := t.byIno.erase ino })

/-- The entry is removed from both maps, the path as the entry has it. -/
def evict (ino : Nat) : InodeTable :=
  match t.byIno.lookup ino with
  | none => t
  | some entry => { t with byIno := t.byIno.erase ino, byPath := t.byPath.erase entry.path }

def invalidateIno (ino : Nat) : Option String × InodeTable :=
  if ino = rootInode then (none, t)
  else match t.byIno.lookup ino with
    | none => (none, t)
    | some entry => (some entry.path, t.evict ino)

def incrementLookup (ino : Nat) : InodeTable :=
  { t with lookupCounts := t.lookupCounts.insert ino ((t.lookupCounts.lookup ino).getD 0 + 1) }

def forget (ino nlookup : Nat) : InodeTable :=
  if ino = rootInode then t
  else match t.lookupCounts.lookup ino with
    | some count =>
      if count - nlookup = 0 then { t with lookupCounts := t.lookupCounts.erase ino }.evict ino
      else { t with lookupCounts := t.lookupCounts.insert ino (count - nlookup) }
    | none => t.evict ino

def bumpGeneration (ino : Nat) : Option Nat × InodeTable :=
  match t.byIno.lookup ino with
  | none => (none, t)
  | some entry =>
    let generation := if u64Max < entry.generation + 1 then 1 else entry.generation + 1
    (some generation, { t with byIno := t.byIno.insert ino { entry with generation } })

inductive Call
  | insertOrGet (path : String) (kind : FsEntryKind)
  | insertWithLookup (path : String) (kind : FsEntryKind)
  | invalidatePath (path : String)
  | invalidateIno (ino : Nat)
  | incrementLookup (ino : Nat)
  | forget (ino nlookup : Nat)
  | bumpGeneration (ino : Nat)

def step : Call → InodeTable
  | .insertOrGet path kind => (t.insertOrGet path kind).2
  | .insertWithLookup path kind => (t.insertWithLookup path kind).2
  | .invalidatePath path => (t.invalidatePath path).2
  | .invalidateIno ino => (t.invalidateIno ino).2
  | .incrementLookup ino => t.incrementLookup ino
  | .forget ino nlookup => t.forget ino nlookup
  | .bumpGeneration ino => (t.bumpGeneration ino).2

/-! ## The pairs of the table -/

/-- The path a number is bound to. -/
def pathOf (ino : Nat) : Option String := (t.byIno.lookup ino).map InodeEntry.path

/-- The two maps are inverse to each other, the root is bound, and the numbers to come are free. -/
structure Bijective : Prop where
  inverse : Inverse t.pathOf t.inoForPath
  root : t.pathOf rootInode = some "/"
  below : ∀ ino path, t.pathOf ino = some path → ino < t.nextIno

/-- What a call can do to the pairs: nothing, bind the next number, or evict one that is not the root. -/
inductive Change (t t' : InodeTable) : Prop
  | same : t'.pathOf = t.pathOf → t'.inoForPath = t.inoForPath → t'.nextIno = t.nextIno → Change t t'
  | bind (path : String) : t.inoForPath path = none →
    t'.pathOf = Function.update t.pathOf t.nextIno (some path) →
    t'.inoForPath = Function.update t.inoForPath path (some t.nextIno) → t'.nextIno = t.nextIno + 1 → Change t t'
  | evict (ino : Nat) (path : String) : ino ≠ rootInode → t.pathOf ino = some path →
    t'.pathOf = Function.update t.pathOf ino none →
    t'.inoForPath = Function.update t.inoForPath path none → t'.nextIno = t.nextIno → Change t t'

variable {t} {t' : InodeTable} {path : String} {ino : Nat}

theorem lookup_insert_eq_update {κ α : Type} [DecidableEq κ] (l : AList fun _ : κ => α) (k : κ) (v : α) :
    (fun other => (l.insert k v).lookup other) = Function.update (fun other => l.lookup other) k (some v) := by
  funext other
  rcases eq_or_ne other k with rfl | hother
  · simp
  · simp [hother]

theorem lookup_erase_eq_update {κ α : Type} [DecidableEq κ] (l : AList fun _ : κ => α) (k : κ) :
    (fun other => (l.erase k).lookup other) = Function.update (fun other => l.lookup other) k none := by
  funext other
  rcases eq_or_ne other k with rfl | hother
  · simp
  · simp [hother]

theorem pathOf_eq (t : InodeTable) : t.pathOf = fun ino => (t.byIno.lookup ino).map InodeEntry.path := rfl

theorem pathOf_insert (byIno : AList fun _ : Nat => InodeEntry) (ino : Nat) (entry : InodeEntry) :
    (fun other => ((byIno.insert ino entry).lookup other).map InodeEntry.path) =
      Function.update (fun other => (byIno.lookup other).map InodeEntry.path) ino (some entry.path) := by
  funext other
  rcases eq_or_ne other ino with rfl | hother
  · simp
  · simp [hother]

theorem pathOf_erase (byIno : AList fun _ : Nat => InodeEntry) (ino : Nat) :
    (fun other => ((byIno.erase ino).lookup other).map InodeEntry.path) =
      Function.update (fun other => (byIno.lookup other).map InodeEntry.path) ino none := by
  funext other
  rcases eq_or_ne other ino with rfl | hother
  · simp
  · simp [hother]

theorem Change.refl (t : InodeTable) : Change t t := .same rfl rfl rfl

theorem pathOf_refresh {entry entry' : InodeEntry} (hlookup : t.byIno.lookup ino = some entry)
    (hpath : entry'.path = entry.path) : pathOf { t with byIno := t.byIno.insert ino entry' } = t.pathOf := by
  rw [pathOf_eq, pathOf_insert, hpath]
  apply Function.update_eq_self_iff.mpr
  simp [hlookup]

theorem Bijective.insertOrGet (h : t.Bijective) (path : String) (kind : FsEntryKind) :
    Change t (t.insertOrGet path kind).2 := by
  unfold InodeTable.insertOrGet
  rcases hpath : t.byPath.lookup path with _ | ino
  · unfold allocate
    simp only
    split_ifs
    · exact .refl t
    · exact .bind path hpath (pathOf_insert _ _ _) (lookup_insert_eq_update _ _ _) rfl
  · have hbound : t.pathOf ino = some path := (h.inverse ino path).mpr hpath
    obtain ⟨entry, hentry, -⟩ := Option.map_eq_some_iff.mp hbound
    simp only [hentry]
    exact .same (pathOf_refresh hentry rfl) rfl rfl

theorem change_evict (hroot : ino ≠ rootInode) : Change t (t.evict ino) := by
  unfold InodeTable.evict
  rcases hentry : t.byIno.lookup ino with _ | entry
  · exact .refl t
  · exact .evict ino entry.path hroot (by simp [pathOf, hentry]) (pathOf_erase _ _) (lookup_erase_eq_update _ _) rfl

theorem Change.counts {lookupCounts : AList fun _ : Nat => Nat} (h : Change { t with lookupCounts } t') :
    Change t t' := by
  rcases h with ⟨hpath, hino, hnext⟩ | ⟨path, hfree, hpath, hino, hnext⟩ |
    ⟨ino, path, hroot, hbound, hpath, hino, hnext⟩
  · exact .same hpath hino hnext
  · exact .bind path hfree hpath hino hnext
  · exact .evict ino path hroot hbound hpath hino hnext

theorem bootstrapLookup_eq (t : InodeTable) (ino : Nat) :
    t.bootstrapLookup ino = { t with lookupCounts := (t.bootstrapLookup ino).lookupCounts } := by
  unfold bootstrapLookup
  split <;> rfl

theorem Change.bootstrapLookup (h : Change t t') (ino : Nat) : Change t (t'.bootstrapLookup ino) := by
  rw [bootstrapLookup_eq]
  rcases h with ⟨hpath, hino, hnext⟩ | ⟨path, hfree, hpath, hino, hnext⟩ |
    ⟨ino, path, hroot, hbound, hpath, hino, hnext⟩
  · exact .same hpath hino hnext
  · exact .bind path hfree hpath hino hnext
  · exact .evict ino path hroot hbound hpath hino hnext

theorem change_forget (ino nlookup : Nat) : Change t (t.forget ino nlookup) := by
  unfold forget
  split_ifs with hroot
  · exact .refl t
  · split
    · split_ifs
      · exact (change_evict hroot).counts
      · exact .same rfl rfl rfl
    · exact change_evict hroot

theorem Bijective.step (h : t.Bijective) (c : Call) : Change t (t.step c) := by
  rcases c with ⟨path, kind⟩ | ⟨path, kind⟩ | path | ino | ino | ⟨ino, nlookup⟩ | ino
  · exact h.insertOrGet path kind
  · have hinsert := h.insertOrGet path kind
    show Change t (t.insertWithLookup path kind).2
    unfold insertWithLookup
    split
    · rename_i heq
      rwa [heq] at hinsert
    · rename_i heq
      rw [heq] at hinsert
      exact hinsert.bootstrapLookup _
  · show Change t (t.invalidatePath path).2
    unfold invalidatePath
    split_ifs with hroot
    · exact .refl t
    · split
      · exact .refl t
      · rename_i ino hino
        have hbound : t.pathOf ino = some path := (h.inverse ino path).mpr hino
        have hnotroot : ino ≠ rootInode := by
          rintro rfl
          exact hroot (Option.some.inj (hbound.symm.trans h.root))
        exact .evict ino path hnotroot hbound (pathOf_erase _ _) (lookup_erase_eq_update _ _) rfl
  · show Change t (t.invalidateIno ino).2
    unfold invalidateIno
    split_ifs with hroot
    · exact .refl t
    · split
      · exact .refl t
      · exact change_evict hroot
  · exact .same rfl rfl rfl
  · exact change_forget ino nlookup
  · show Change t (t.bumpGeneration ino).2
    unfold bumpGeneration
    split
    · exact .refl t
    · rename_i entry hentry
      exact .same (pathOf_refresh hentry rfl) rfl rfl

/-! ## Over whole runs -/

theorem bijective_new : new.Bijective := by
  have hpath : new.pathOf = Function.update (fun _ => none) rootInode (some "/") := by
    rw [pathOf_eq]
    exact pathOf_insert ∅ rootInode _
  have hino : new.inoForPath = Function.update (fun _ => none) "/" (some rootInode) :=
    lookup_insert_eq_update ∅ "/" rootInode
  refine ⟨?_, ?_, ?_⟩
  · rw [hpath, hino]
    have hempty : Inverse (fun _ : Nat => (none : Option String)) fun _ => none := by simp [Inverse]
    exact hempty.insert rfl rfl
  · simp [hpath]
  · intro ino path hbound
    rw [hpath] at hbound
    by_contra hbelow
    have hother : ino ≠ rootInode := by
      rintro rfl
      exact hbelow (Nat.lt_succ_self _)
    simp [hother] at hbound

theorem Bijective.free (h : t.Bijective) : t.pathOf t.nextIno = none := by
  rcases hbound : t.pathOf t.nextIno with _ | path
  · rfl
  · exact absurd (h.below _ path hbound) (Nat.lt_irrefl _)

theorem Bijective.change (h : t.Bijective) (hchange : Change t t') : t'.Bijective := by
  rcases hchange with ⟨hpath, hino, hnext⟩ | ⟨path, hfree, hpath, hino, hnext⟩ |
    ⟨ino, path, hroot, hbound, hpath, hino, hnext⟩
  · exact ⟨by rw [hpath, hino]; exact h.inverse, by rw [hpath]; exact h.root, by rw [hpath, hnext]; exact h.below⟩
  · refine ⟨?_, ?_, ?_⟩
    · rw [hpath, hino]
      exact h.inverse.insert h.free hfree
    · have hother : rootInode ≠ t.nextIno := Nat.ne_of_lt (h.below _ _ h.root)
      rw [hpath, Function.update_of_ne hother]
      exact h.root
    · intro ino other hbound
      rw [hpath] at hbound
      rcases eq_or_ne ino t.nextIno with rfl | hother
      · omega
      · rw [Function.update_of_ne hother] at hbound
        have := h.below ino other hbound
        omega
  · refine ⟨?_, ?_, ?_⟩
    · rw [hpath, hino]
      exact h.inverse.erase hbound
    · rw [hpath, Function.update_of_ne (Ne.symm hroot)]
      exact h.root
    · intro other path' hbound'
      rw [hpath] at hbound'
      rcases eq_or_ne other ino with rfl | hother
      · simp at hbound'
      · rw [Function.update_of_ne hother] at hbound'
        exact hnext ▸ h.below other path' hbound'

theorem Change.nextIno_le (h : Change t t') : t.nextIno ≤ t'.nextIno := by
  rcases h with ⟨-, -, hnext⟩ | ⟨_, -, -, -, hnext⟩ | ⟨_, _, -, -, -, -, hnext⟩ <;> omega

/-- A number given out and evicted: it is below the next one, and bound to nothing. -/
def Retired (t : InodeTable) (ino : Nat) : Prop := ino < t.nextIno ∧ t.pathOf ino = none

theorem Retired.change (h : t.Retired ino) (hchange : Change t t') : t'.Retired ino := by
  rcases hchange with ⟨hpath, -, hnext⟩ | ⟨path, -, hpath, -, hnext⟩ | ⟨evicted, path, -, -, hpath, -, hnext⟩
  · exact ⟨hnext ▸ h.1, hpath ▸ h.2⟩
  · refine ⟨by have := h.1; omega, ?_⟩
    rw [hpath, Function.update_of_ne (Nat.ne_of_lt h.1)]
    exact h.2
  · refine ⟨hnext ▸ h.1, ?_⟩
    rw [hpath]
    rcases eq_or_ne ino evicted with rfl | hother
    · simp
    · rw [Function.update_of_ne hother]
      exact h.2

theorem bijective_run (calls : List Call) : (run step new calls).Bijective :=
  run_invariant bijective_new fun _ c h => h.change (h.step c)

/-- In every run the two maps are inverse to each other, the root stays bound, live numbers are below the
next one, and a number once evicted is never bound again. -/
theorem bijective_always (calls : List Call) :
    AllStates step Bijective new calls ∧
      ∀ ino path later, (run step new calls).pathOf ino = some path → ∀ more,
        (run step new (calls ++ later)).pathOf ino = none → (run step new (calls ++ later ++ more)).pathOf ino = none := by
  constructor
  · have hsteps : AllSteps step (fun _ _ => True) new calls := allSteps_of_calls fun _ _ => trivial
    exact hsteps.allStates bijective_new (fun _ c h _ => h.change (h.step c)) fun _ h => h
  · intro ino path later hbound more hevicted
    have hlive := bijective_run calls
    have hgiven : ino < (run step new (calls ++ later)).nextIno := by
      rw [run_append]
      exact (run_invariant (I := fun t : InodeTable => t.Bijective ∧ ino < t.nextIno)
        ⟨hlive, hlive.below ino path hbound⟩
        fun t c h => ⟨h.1.change (h.1.step c), Nat.lt_of_lt_of_le h.2 (h.1.step c).nextIno_le⟩).2
    have hretired : (run step new (calls ++ later)).Bijective ∧ (run step new (calls ++ later)).Retired ino :=
      ⟨bijective_run _, hgiven, hevicted⟩
    rw [run_append]
    exact (run_invariant (I := fun t : InodeTable => t.Bijective ∧ t.Retired ino) hretired
      fun t c h => ⟨h.1.change (h.1.step c), h.2.change (h.1.step c)⟩).2.2

/-- A path that is invalidated and inserted again leaves its first number free. -/
theorem bijective_always_reinserted :
    (run step new ([.insertOrGet "/x" .regularFile] ++ [.invalidatePath "/x"] ++
      [.insertOrGet "/x" .regularFile])).pathOf 2 = none :=
  (bijective_always [.insertOrGet "/x" .regularFile]).2 2 "/x" [.invalidatePath "/x"] (by decide)
    [.insertOrGet "/x" .regularFile] (by decide)

end InodeTable

end Pcloud
