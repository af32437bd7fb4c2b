import Pcloud.Lib.Runs
import Pcloud.Daemon.Runtime

/-!
# Local deletions

A watcher event is the only sign of a local deletion. An incremental scan hands it to the
engine. A full scan drops it, and the walk that is to cover it reports only what is there.
-/

open Runs

namespace Pcloud

/-- The local delete candidate that a `Remove` event stands for. -/
def FsEvent.deleteCandidate (event : FsEvent) : SyncCandidate where
  syncId := event.syncId
  source := .Local
  path := event.path
  entryKind := event.entryKind
  changeKind := .Delete
  remoteFileId := none
  remoteFolderId := none

/-! ## The decision -/

namespace IncrementalScanTracker

variable {t : IncrementalScanTracker} {now : Nat} {syncId : SyncId}

/-- A full scan is on record and its interval has not elapsed. -/
def Recent (t : IncrementalScanTracker) (now : Nat) (syncId : SyncId) : Prop :=
  ∃ last, t.lastFullScan syncId = some last ∧ now - last < t.fullScanInterval

theorem decide_of_recent (h : t.Recent now syncId) :
    (t.decide now syncId).1 = .IncrementalOnly ((t.pendingEvents syncId).map (·.val)) := by
  obtain ⟨last, hlast, hlt⟩ := h
  unfold decide
  simp only [hlast]
  rw [if_neg]
  simpa using hlt

theorem decide_of_not_recent (h : ¬ t.Recent now syncId) : (t.decide now syncId).1 = .FullScan := by
  unfold Recent at h
  unfold decide
  cases hlast : t.lastFullScan syncId with
  | none => rfl
  | some last =>
    have hle : t.fullScanInterval ≤ now - last := by
      by_contra hlt
      exact h ⟨last, hlast, by omega⟩
    simp [hle]

end IncrementalScanTracker

/-! ## One scan -/

namespace Runtime

variable (rt : Runtime) (root : SyncRootRecord) (input : ScanInput)

def drained : IncrementalScanTracker := drainWatcherEvents rt.scanTracker root.syncId input.events

/-- The events that wait when the scan decides. -/
def pendingEvents : List FsEvent := ((rt.drained root input).pendingEvents root.syncId).map (·.val)

/-- The path was removed and does not reappear: no later event brings it back, and the tree does
not have it. -/
structure Removed (event : FsEvent) : Prop where
  removed : event.kind = .Remove
  last : ∃ before after, rt.pendingEvents root input = before ++ event :: after ∧
    ∀ later ∈ after, later.path = event.path → later.kind = .Remove
  absent : ∀ found, input.walk = .ok found → ∀ f ∈ found, f.path ≠ event.path

variable {rt root input}

theorem Removed.mem {event : FsEvent} (h : rt.Removed root input event) :
    event ∈ rt.pendingEvents root input := by
  obtain ⟨before, after, heq, -⟩ := h.last
  rw [heq]
  simp

theorem scanEntries_of_not_recent (h : ¬ (rt.drained root input).Recent input.now root.syncId) :
    (rt.scanEntries root input).1 = input.walk.map fun found => some (walkLocalTree root found) := by
  have hdecide := IncrementalScanTracker.decide_of_not_recent h
  unfold scanEntries
  simp only
  split
  · cases input.walk <;> rfl
  · rename_i heq
    rw [drained, heq] at hdecide
    cases hdecide

theorem scanEntries_of_recent (h : (rt.drained root input).Recent input.now root.syncId)
    (hne : rt.pendingEvents root input ≠ []) :
    (rt.scanEntries root input).1 =
      .ok (some (fsEventsToLocalScanEntries (rt.pendingEvents root input))) := by
  have hdecide := IncrementalScanTracker.decide_of_recent h
  unfold scanEntries
  simp only
  split
  · rename_i heq
    rw [drained, heq] at hdecide
    cases hdecide
  · rename_i pending tracker heq
    rw [drained, heq] at hdecide
    have hpending : pending = rt.pendingEvents root input := ScanDecision.IncrementalOnly.inj hdecide
    rw [hpending, if_neg (by simpa using hne)]

/-- A walk reports what is there, so a full scan hands no deletion on. -/
theorem scanCandidates_of_not_recent (h : ¬ (rt.drained root input).Recent input.now root.syncId)
    {candidates : List SyncCandidate} (hfound : rt.scanCandidates root input = some candidates)
    {c : SyncCandidate} (hc : c ∈ candidates) : c.changeKind = .Upsert := by
  obtain ⟨entries, hentries, hnorm⟩ := rt.scanCandidates_eq_some.mp hfound
  rw [scanEntries_of_not_recent h] at hentries
  cases hwalk : input.walk with
  | error err =>
    rw [hwalk] at hentries
    cases hentries
  | ok found =>
    rw [hwalk] at hentries
    obtain rfl := Option.some.inj (Except.ok.inj hentries)
    obtain ⟨-, rfl⟩ := normalizeEntries_eq_ok.mp hnorm
    obtain ⟨entry, hentry, rfl⟩ := List.mem_map.mp hc
    obtain ⟨f, -, rfl⟩ := List.mem_map.mp hentry
    rfl

theorem scanCandidates_of_recent (h : (rt.drained root input).Recent input.now root.syncId)
    (hne : rt.pendingEvents root input ≠ []) {candidates : List SyncCandidate} :
    rt.scanCandidates root input = some candidates ↔
      (∀ event ∈ rt.pendingEvents root input, isValidRelativePath event.path = true) ∧
        candidates = (fsEventsToLocalScanEntries (rt.pendingEvents root input)).map
          LocalScanner.candidateOf := by
  have hvalid : (∀ entry ∈ fsEventsToLocalScanEntries (rt.pendingEvents root input),
      isValidRelativePath entry.path = true) ↔
      ∀ event ∈ rt.pendingEvents root input, isValidRelativePath event.path = true := by
    simp [fsEventsToLocalScanEntries]
  rw [← hvalid, ← normalizeEntries_eq_ok, scanCandidates_eq_some, scanEntries_of_recent h hne]
  simp

theorem deleteCandidate_mem {events : List FsEvent} {event : FsEvent} (h : event ∈ events)
    (hkind : event.kind = .Remove) :
    event.deleteCandidate ∈ (fsEventsToLocalScanEntries events).map LocalScanner.candidateOf := by
  refine List.mem_map.mpr ⟨_, List.mem_map.mpr ⟨event, h, rfl⟩, ?_⟩
  simp [LocalScanner.candidateOf, FsEvent.deleteCandidate, hkind]

/-! ## Runs -/

/-- Each removal that waits is handed to the engine by the scan. -/
def HandsDeletions (rt : Runtime) : SyncCall → Prop
  | .runLocalScan root input => ∀ event, rt.Removed root input event →
    ∃ candidates, rt.scanCandidates root input = some candidates ∧ event.deleteCandidate ∈ candidates
  | _ => True

/-- A scan that a removal waits for is incremental, and no event that waits has an invalid
path. -/
def RemovalsWaitForEvents (rt : Runtime) : SyncCall → Prop
  | .runLocalScan root input => (∃ event, rt.Removed root input event) →
    (rt.drained root input).Recent input.now root.syncId ∧
      ∀ event ∈ rt.pendingEvents root input, isValidRelativePath event.path = true
  | _ => True

theorem handsDeletions_iff (rt : Runtime) (call : SyncCall) :
    rt.HandsDeletions call ↔ rt.RemovalsWaitForEvents call := by
  cases call with
  | runLocalScan root input =>
    constructor
    · rintro hhands ⟨event, hremoved⟩
      obtain ⟨candidates, hscan, hmem⟩ := hhands event hremoved
      have hrecent : (rt.drained root input).Recent input.now root.syncId := by
        by_contra hnot
        have hupsert := scanCandidates_of_not_recent hnot hscan hmem
        cases hupsert
      have hne := List.ne_nil_of_mem hremoved.mem
      exact ⟨hrecent, ((scanCandidates_of_recent hrecent hne).mp hscan).1⟩
    · intro hkeeps event hremoved
      obtain ⟨hrecent, hvalid⟩ := hkeeps ⟨event, hremoved⟩
      have hne := List.ne_nil_of_mem hremoved.mem
      exact ⟨_, (scanCandidates_of_recent hrecent hne).mpr ⟨hvalid, rfl⟩,
        deleteCandidate_mem hremoved.mem hremoved.removed⟩
  | _ => exact Iff.rfl

/-- In a run, every removal that waits for a scan is handed on by it, exactly when each such
scan is incremental and has only valid paths to report. -/
theorem deletions_handed_iff (rt : Runtime) (calls : List SyncCall) :
    AllSteps step HandsDeletions rt calls ↔ AllSteps step RemovalsWaitForEvents rt calls :=
  allSteps_congr (I := fun _ => True) trivial (fun rt call _ => handsDeletions_iff rt call)
    fun _ _ _ _ => trivial

/-- A file is found by the first walk and removed. The next scan is a full one again, and it
says nothing of the file. -/
theorem removal_dropped_by_full_scan :
    let root : SyncRootRecord := { syncId := ⟨1⟩, syncType := .Full }
    let scan : SyncCall := .runLocalScan root { walk := .ok [⟨"a", .File, none⟩] }
    let next : ScanInput := { events := [⟨"a", .File, .Remove⟩], now := 300 }
    let rt := (new [root] {} 300 true).step scan
    rt.scanCandidates root next = some [] ∧
      ¬ AllSteps step HandsDeletions (new [root] {} 300 true) [scan, .runLocalScan root next] := by
  refine ⟨by decide +kernel, ?_⟩
  rintro ⟨-, hhands, -⟩
  obtain ⟨candidates, hscan, hmem⟩ := hhands ⟨⟨1⟩, "a", .File, .Remove⟩
    ⟨rfl, ⟨[], [], by decide +kernel, by simp⟩, by simp⟩
  have hempty : candidates = [] := by
    refine Option.some.inj (hscan.symm.trans ?_)
    decide +kernel
  rw [hempty] at hmem
  cases hmem

end Runtime

end Pcloud
