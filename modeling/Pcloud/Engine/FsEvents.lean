import Pcloud.Lib.Coalesce
import Pcloud.Engine.Normalize

/-!
# Watcher events (`pcloud-engine/src/fs_events.rs`)

Events of one path become one candidate, that of the last of them. Paths are relative to a sync root, so a file is a
root and a path, but the search is by path alone.
-/

open Coalesce

namespace Pcloud

inductive FsEventError where
  | InvalidPath (path : String)
  deriving DecidableEq, Repr

namespace FsEventIngestor

/-- The first entry of the path takes over the event, or the event is added. -/
def coalesce (event : FsEvent) : List FsEvent → List FsEvent
  | [] => [event]
  | existing :: rest =>
    if existing.path = event.path then
      { existing with
        kind := event.kind
        entryKind := event.entryKind
        syncId := event.syncId } :: rest
    else existing :: coalesce event rest

def coalesceEvents (coalesced : List FsEvent) : List FsEvent → Except FsEventError (List FsEvent)
  | [] => .ok coalesced
  | event :: rest => do
    validateRelativePath .InvalidPath event.path
    coalesceEvents (coalesce event coalesced) rest

def candidateOf (event : FsEvent) : SyncCandidate where
  syncId := event.syncId
  source := .Local
  path := event.path
  entryKind := event.entryKind
  changeKind := match event.kind with
    | .Remove => .Delete
    | .Write | .Create => .Upsert
  remoteFileId := none
  remoteFolderId := none

def normalizeEvents (events : List FsEvent) : Except FsEventError (List SyncCandidate) := do
  let coalesced ← coalesceEvents [] events
  return coalesced.map candidateOf

/-! ## The loop -/

theorem coalesce_eq_put (event : FsEvent) (coalesced : List FsEvent) :
    coalesce event coalesced = put FsEvent.path event coalesced := by
  induction coalesced with
  | nil => rfl
  | cons existing rest ih =>
    rw [coalesce, put, ih]
    split
    · rename_i hpath
      rw [hpath]
    · rfl

theorem coalesceEvents_eq (coalesced events : List FsEvent) :
    coalesceEvents coalesced events = (events.find? fun event => !isValidRelativePath event.path).elim
      (.ok (events.foldl (fun kept event => put FsEvent.path event kept) coalesced))
      fun event => .error (.InvalidPath event.path) := by
  induction events generalizing coalesced with
  | nil => rfl
  | cons event rest ih =>
    rw [coalesceEvents, validateRelativePath]
    cases hvalid : isValidRelativePath event.path with
    | false =>
      rw [List.find?_cons_of_pos (by simp [hvalid])]
      rfl
    | true =>
      rw [List.find?_cons_of_neg (by simp [hvalid]), List.foldl_cons, ← coalesce_eq_put]
      exact ih (coalesce event coalesced)

theorem normalizeEvents_eq (events : List FsEvent) :
    normalizeEvents events = (events.find? fun event => !isValidRelativePath event.path).elim
      (.ok ((collect FsEvent.path events).map candidateOf)) fun event => .error (.InvalidPath event.path) := by
  rw [normalizeEvents, coalesceEvents_eq]
  cases events.find? fun event => !isValidRelativePath event.path with
  | none => rfl
  | some event => rfl

theorem normalizeEvents_of_valid {events : List FsEvent} (h : ∀ event ∈ events, isValidRelativePath event.path) :
    normalizeEvents events = .ok ((collect FsEvent.path events).map candidateOf) := by
  have hnone : (events.find? fun event => !isValidRelativePath event.path) = none := by
    simpa using h
  rw [normalizeEvents_eq, hnone]
  rfl

/-! ## One candidate for each file -/

/-- A file is a path within a root. -/
def fileOf (event : FsEvent) : SyncId × String := (event.syncId, event.path)

/-- One candidate for each file, in the order of their first events, and each is that of its file's last event. -/
structure LastOfEachFile (events : List FsEvent) (candidates : List SyncCandidate) : Prop where
  files : candidates.map (fun c => (c.syncId, c.path)) = (events.map fileOf).eraseDups
  last : ∀ c ∈ candidates, ∃ event,
    (events.filter fun e => fileOf e = (c.syncId, c.path)).getLast? = some event ∧ c = candidateOf event

/-- No path has events of two roots. -/
def OneRootEachPath (events : List FsEvent) : Prop :=
  ∀ e ∈ events, ∀ e' ∈ events, e.path = e'.path → e.syncId = e'.syncId

instance (events : List FsEvent) : Decidable (OneRootEachPath events) :=
  inferInstanceAs (Decidable (∀ e ∈ events, ∀ e' ∈ events, e.path = e'.path → e.syncId = e'.syncId))

theorem lastOfEachFile_collect (events : List FsEvent) :
    LastOfEachFile events ((collect fileOf events).map candidateOf) where
  files := by
    rw [← map_collect fileOf events, List.map_map]
    rfl
  last := by
    intro c hc
    obtain ⟨event, hevent, rfl⟩ := List.mem_map.mp hc
    exact ⟨event, getLast_of_mem_collect hevent, rfl⟩

theorem collect_path_eq {events : List FsEvent} (h : OneRootEachPath events) :
    collect FsEvent.path events = collect fileOf events := by
  refine collect_congr fun e he e' he' => ?_
  constructor
  · intro hpath
    rw [fileOf, fileOf, hpath, h e he e' he' hpath]
  · intro hfile
    exact (Prod.mk.inj hfile).2

theorem oneRootEachPath_of_lastOfEachFile {events : List FsEvent}
    (h : LastOfEachFile events ((collect FsEvent.path events).map candidateOf)) : OneRootEachPath events := by
  have hnodup : (((collect FsEvent.path events).map candidateOf).map SyncCandidate.path).Nodup := by
    rw [List.map_map]
    exact nodup_collect FsEvent.path events
  have hkept : ∀ e ∈ events, ∃ c ∈ (collect FsEvent.path events).map candidateOf, (c.syncId, c.path) = fileOf e := by
    intro e he
    have hfile : fileOf e ∈ (events.map fileOf).eraseDups := List.mem_eraseDups.mpr (List.mem_map_of_mem he)
    rw [← h.files] at hfile
    exact List.mem_map.mp hfile
  intro e he e' he' hpath
  obtain ⟨c, hc, hce⟩ := hkept e he
  obtain ⟨c', hc', hce'⟩ := hkept e' he'
  obtain ⟨hroot, hcpath⟩ := Prod.mk.inj hce
  obtain ⟨hroot', hcpath'⟩ := Prod.mk.inj hce'
  have hsame : c = c' := List.inj_on_of_nodup_map hnodup hc hc' (hcpath.trans (hpath.trans hcpath'.symm))
  rw [← hroot, hsame, hroot']

/-- Every file keeps its last event exactly when no path has events of two roots. -/
theorem normalizeEvents_lastOfEachFile_iff {events : List FsEvent}
    (h : ∀ event ∈ events, isValidRelativePath event.path) :
    (∃ candidates, normalizeEvents events = .ok candidates ∧ LastOfEachFile events candidates) ↔
      OneRootEachPath events := by
  rw [normalizeEvents_of_valid h]
  constructor
  · rintro ⟨candidates, hok, hlast⟩
    rw [← Except.ok.inj hok] at hlast
    exact oneRootEachPath_of_lastOfEachFile hlast
  · intro hone
    refine ⟨_, rfl, ?_⟩
    rw [collect_path_eq hone]
    exact lastOfEachFile_collect events

/-- A file is written and then removed. -/
def writeThenRemove : List FsEvent := [⟨⟨1⟩, "a", .File, .Write⟩, ⟨⟨1⟩, "a", .File, .Remove⟩]

theorem normalizeEvents_lastOfEachFile_one :
    (∀ event ∈ writeThenRemove, isValidRelativePath event.path) ∧
      ∃ candidates, normalizeEvents writeThenRemove = .ok candidates ∧ LastOfEachFile writeThenRemove candidates :=
  ⟨by decide, (normalizeEvents_lastOfEachFile_iff (by decide)).mpr (by decide)⟩

/-- Two roots have a file `a`. One is written, the other removed. -/
def sharedPath : List FsEvent := [⟨⟨1⟩, "a", .File, .Write⟩, ⟨⟨2⟩, "a", .File, .Remove⟩]

theorem not_lastOfEachFile : ¬ ∀ events : List FsEvent, (∀ event ∈ events, isValidRelativePath event.path) →
    ∃ candidates, normalizeEvents events = .ok candidates ∧ LastOfEachFile events candidates := by
  intro hall
  obtain ⟨candidates, hok, hlast⟩ := hall sharedPath (by decide)
  have hone : normalizeEvents sharedPath = .ok [candidateOf ⟨⟨2⟩, "a", .File, .Remove⟩] := by decide
  rw [hone] at hok
  have hfiles := hlast.files
  rw [← Except.ok.inj hok] at hfiles
  exact absurd hfiles (by decide)

end FsEventIngestor

end Pcloud
