import Pcloud.Lib.Runs
import Pcloud.Daemon.Execute

/-!
# The bytes of an upload

Both staging areas are keyed by the path alone, and downloads write to them as well as local
writes do. What an upload sends is what was staged last at its path, by whoever staged it.
-/

open Runs Recency

namespace Pcloud

/-! ## What a call stages -/

namespace StagingCache

variable {α : Type} {c : StagingCache α}

@[simp]
theorem stage_maxOpenFiles (path : String) (bytes : α) :
    (c.stage path bytes).maxOpenFiles = c.maxOpenFiles := rfl

theorem Holds.stageAll {history : List (String × α)} (h : c.Holds history) (entries : List (String × α)) :
    (entries.foldl (fun c entry => c.stage entry.1 entry.2) c).Holds (entries.reverse ++ history) := by
  induction entries generalizing c history with
  | nil => exact h
  | cons entry entries ih =>
    rw [List.reverse_cons, List.append_assoc]
    exact ih (h.stage entry.1 entry.2)

theorem stageAll_maxOpenFiles (entries : List (String × α)) :
    (entries.foldl (fun c entry => c.stage entry.1 entry.2) c).maxOpenFiles = c.maxOpenFiles := by
  induction entries generalizing c with
  | nil => rfl
  | cons entry entries ih => exact ih

end StagingCache

namespace Daemon

/-- What a call stages in the filesystem shell, in order. -/
def seeds (d : Daemon) : DaemonCall → List (String × Staged)
  | .executeDownloads answers => d.mirrors answers
  | .seedStagedFile syncId path bytes => [(path, ⟨bytes, .Local syncId path⟩)]
  | _ => []

/-- What a call stages in the cache, in order. -/
def caches (d : Daemon) : DaemonCall → List (String × Staged)
  | .executeDownloads answers => d.mirrors answers
  | _ => []

variable (d : Daemon)

theorem step_filesystem (call : DaemonCall) :
    (d.step call).filesystem = (d.seeds call).foldl (fun c entry => c.stage entry.1 entry.2) d.filesystem := by
  cases call with
  | executeDownloads answers => simp only [step, executeDownloads, foldl_stageBoth, seeds]
  | _ => rfl

theorem step_cache (call : DaemonCall) :
    (d.step call).cache = (d.caches call).foldl (fun c entry => c.stage entry.1 entry.2) d.cache := by
  cases call with
  | executeDownloads answers => simp only [step, executeDownloads, foldl_stageBoth, caches]
  | _ => rfl

theorem mem_caches {call : DaemonCall} {entry : String × Staged} (h : entry ∈ d.caches call) :
    ∃ syncId path, entry.2.origin = .Mirror syncId path := by
  cases call with
  | executeDownloads answers =>
    obtain ⟨⟨task, i⟩, -, hmirrored⟩ := List.mem_filterMap.mp h
    simp only [mirrored] at hmirrored
    split at hmirrored
    · split at hmirrored
      · obtain rfl := Option.some.inj hmirrored
        exact ⟨_, _, rfl⟩
      · cases hmirrored
    · cases hmirrored
  | _ => cases h

end Daemon

/-! ## Histories -/

/-- The daemon with all that was staged in each area, newest first. -/
structure Recorded where
  daemon : Daemon
  seeded : List (String × Staged) := []
  cached : List (String × Staged) := []

namespace Recorded

def step (r : Recorded) (call : DaemonCall) : Recorded where
  daemon := r.daemon.step call
  seeded := (r.daemon.seeds call).reverse ++ r.seeded
  cached := (r.daemon.caches call).reverse ++ r.cached

/-- The staging areas hold the newest 64 paths of their histories, and the cache only mirrors. -/
structure InStep (r : Recorded) : Prop where
  filesystem : r.daemon.filesystem.Holds r.seeded
  cache : r.daemon.cache.Holds r.cached
  filesystemSize : r.daemon.filesystem.maxOpenFiles = 64
  cacheSize : r.daemon.cache.maxOpenFiles = 64
  mirrors : ∀ entry ∈ r.cached, ∃ syncId path, entry.2.origin = .Mirror syncId path

variable {r : Recorded}

theorem InStep.step (h : r.InStep) (call : DaemonCall) : (r.step call).InStep where
  filesystem := by
    simp only [Recorded.step, Daemon.step_filesystem]
    exact h.filesystem.stageAll _
  cache := by
    simp only [Recorded.step, Daemon.step_cache]
    exact h.cache.stageAll _
  filesystemSize := by
    simp only [Recorded.step, Daemon.step_filesystem, StagingCache.stageAll_maxOpenFiles]
    exact h.filesystemSize
  cacheSize := by
    simp only [Recorded.step, Daemon.step_cache, StagingCache.stageAll_maxOpenFiles]
    exact h.cacheSize
  mirrors := by
    intro entry hentry
    rcases List.mem_append.mp hentry with hnew | hold
    · exact r.daemon.mem_caches (List.mem_reverse.mp hnew)
    · exact h.mirrors entry hold

theorem InStep.payload (h : r.InStep) (path : String) :
    r.daemon.borrowUploadPayload path =
      ((held 64 r.seeded).lookup path).or ((held 64 r.cached).lookup path) := by
  have hfilesystem := h.filesystem.files path
  have hcache := h.cache.files path
  rw [h.filesystemSize] at hfilesystem
  rw [h.cacheSize] at hcache
  unfold Daemon.borrowUploadPayload StagingCache.get
  rw [hfilesystem, hcache]
  cases (held 64 r.seeded).lookup path <;> rfl

/-! ## Uploads -/

/-- The bytes of each upload that completes are local content of its own root and path. -/
def Attributed (r : Recorded) : DaemonCall → Prop
  | .executeUploads answers => ∀ report ∈ r.daemon.uploadReports answers, report.outcome = none →
    ∃ staged, report.sent = some staged ∧
      staged.origin = .Local report.operation.syncId report.operation.path
  | _ => True

/-- What an upload reads is the last that was staged at its path, if that is one of the last 64
paths, else the last that was mirrored there, if that is. Either there is nothing to read, or it
is the former and a local write of the upload's own root. -/
def LastStagedLocally (r : Recorded) (syncId : SyncId) (path : String) : Prop :=
  match (held 64 r.seeded).lookup path with
  | some staged => staged.origin = .Local syncId path
  | none => (held 64 r.cached).lookup path = none

def SendsLocalWrites (r : Recorded) : DaemonCall → Prop
  | .executeUploads answers => ∀ i task, r.daemon.engine.uploads.active[i]? = some task →
    ∀ syncId path parent name, task.operation = .UploadFile syncId path parent name →
      Daemon.parentPath path = "" ∨ parent.isSome → (answers i).create = .ok () → (answers i).bytes = .ok () →
        r.LastStagedLocally syncId path
  | _ => True

theorem InStep.cached_mirror (h : r.InStep) {path : String} {staged : Staged}
    (hcached : (held 64 r.cached).lookup path = some staged) :
    ∃ syncId path, staged.origin = .Mirror syncId path := by
  have hlast := lookup_of_held hcached
  obtain ⟨before, after, heq, -⟩ := List.lookup_eq_some_iff.mp hlast
  refine h.mirrors (path, staged) ?_
  rw [heq]
  simp

theorem InStep.payload_local_iff (h : r.InStep) {syncId : SyncId} {path : String} :
    (∀ staged, r.daemon.borrowUploadPayload path = some staged → staged.origin = .Local syncId path) ↔
      r.LastStagedLocally syncId path := by
  rw [h.payload, LastStagedLocally]
  cases (held 64 r.seeded).lookup path with
  | some staged => simp
  | none =>
    rw [Option.none_or]
    constructor
    · intro hlocal
      cases hcached : (held 64 r.cached).lookup path with
      | none => rfl
      | some staged =>
        obtain ⟨id, p, hmirror⟩ := h.cached_mirror hcached
        have horigin := hlocal staged hcached
        rw [hmirror] at horigin
        cases horigin
    · intro hnone staged hstaged
      rw [hnone] at hstaged
      cases hstaged

theorem attributed_iff (h : r.InStep) (call : DaemonCall) : r.Attributed call ↔ r.SendsLocalWrites call := by
  cases call with
  | executeUploads answers =>
    constructor
    · intro hall i task htask syncId path parent name hop hparent hcreate hbytes
      rw [← h.payload_local_iff]
      intro staged hstaged
      have hdone : (r.daemon.uploadFile (.UploadFile syncId path parent name) (answers i)).outcome = none :=
        r.daemon.uploadFile_completed.mpr ⟨hparent, ⟨staged, hstaged⟩, hcreate, hbytes⟩
      have hreport : r.daemon.uploadFile task.operation (answers i) ∈ r.daemon.uploadReports answers :=
        r.daemon.mem_uploadReports.mpr ⟨i, task, htask, by rw [hop]; rfl, rfl⟩
      rw [hop] at hreport
      obtain ⟨sent, hsent, horigin⟩ := hall _ hreport hdone
      rw [r.daemon.uploadFile_sent hdone, hstaged] at hsent
      rw [Daemon.uploadFile_operation] at horigin
      obtain rfl := Option.some.inj hsent
      exact horigin
    · intro hlocal report hreport hdone
      obtain ⟨i, task, htask, hexec, rfl⟩ := r.daemon.mem_uploadReports.mp hreport
      cases hop : task.operation with
      | UploadFile syncId path parent name =>
        rw [hop] at hdone
        obtain ⟨hparent, ⟨staged, hstaged⟩, hcreate, hbytes⟩ := r.daemon.uploadFile_completed.mp hdone
        have hlast := hlocal i task htask syncId path parent name hop hparent hcreate hbytes
        refine ⟨staged, ?_, ?_⟩
        · rw [r.daemon.uploadFile_sent hdone, hstaged]
        · rw [Daemon.uploadFile_operation]
          exact h.payload_local_iff.mpr hlast staged hstaged
      | _ =>
        rw [hop] at hexec
        cases hexec
  | _ => exact Iff.rfl

/-- In a run, the bytes of every completed upload are local content of its own root and path,
exactly when no upload that the server takes finds a download, or a write of another root, staged
last at its path. -/
theorem payloads_attributed_iff (roots : List SyncRootRecord) (store : Store) (fullScanInterval : Nat)
    (propagateDeletes : Bool) (calls : List DaemonCall) :
    AllSteps step Attributed ⟨Daemon.new roots store fullScanInterval propagateDeletes, [], []⟩ calls ↔
      AllSteps step SendsLocalWrites ⟨Daemon.new roots store fullScanInterval propagateDeletes, [], []⟩ calls := by
  refine allSteps_congr (I := InStep) ?_ (fun r call h => attributed_iff h call) fun r call h _ => h.step call
  exact ⟨StagingCache.holds_new 64, StagingCache.holds_new 64, rfl, rfl, by simp⟩

/-- Root 1 downloads the file at `a`. The next scan finds it in the tree, and what its upload
sends is the copy that the download left. -/
theorem upload_sends_mirror :
    let root : SyncRootRecord := { syncId := ⟨1⟩, syncType := .Full }
    let calls : List DaemonCall :=
      [.pollRemoteDiff root (some ⟨7, false, [⟨none, ⟨"a", false, some 5, none, some 0, false⟩⟩]⟩),
        .advanceTransfers, .executeDownloads fun _ => ⟨.ok (), .ok 3, .ok [1, 2, 3]⟩,
        .runLocalScan root { walk := .ok [⟨"a", .File, some ⟨0⟩⟩] }, .advanceTransfers]
    let r := run step ⟨Daemon.new [root] {} 300 true, [], []⟩ calls
    let answers : Nat → Daemon.UploadAnswers := fun _ => ⟨.ok (), .ok ()⟩
    (r.daemon.uploadReports answers).map (fun report => (report.operation, report.sent, report.outcome)) =
        [(.UploadFile ⟨1⟩ "a" (some ⟨0⟩) "a", some ⟨[1, 2, 3], .Mirror ⟨1⟩ "a"⟩, none)] ∧
      ¬ AllSteps step Attributed ⟨Daemon.new [root] {} 300 true, [], []⟩
        (calls ++ [.executeUploads answers]) := by
  intro root calls r answers
  have hreports : (r.daemon.uploadReports answers).map
      (fun report => (report.operation, report.sent, report.outcome)) =
        [(.UploadFile ⟨1⟩ "a" (some ⟨0⟩) "a", some ⟨[1, 2, 3], .Mirror ⟨1⟩ "a"⟩, none)] := by decide +kernel
  refine ⟨hreports, fun hall => ?_⟩
  obtain ⟨-, hattributed, -⟩ := allSteps_append.mp hall
  obtain ⟨report, hreport, heq⟩ : ∃ report ∈ r.daemon.uploadReports answers,
      (report.operation, report.sent, report.outcome) =
        (.UploadFile ⟨1⟩ "a" (some ⟨0⟩) "a", some ⟨[1, 2, 3], .Mirror ⟨1⟩ "a"⟩, none) := by
    refine List.mem_map.mp ?_
    rw [hreports]
    exact List.mem_singleton_self _
  simp only [Prod.mk.injEq] at heq
  obtain ⟨staged, hsent, horigin⟩ := hattributed report hreport heq.2.2
  rw [heq.2.1] at hsent
  obtain rfl := Option.some.inj hsent
  cases horigin

end Recorded

end Pcloud
