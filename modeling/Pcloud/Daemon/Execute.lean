import Pcloud.Cache.Staging
import Pcloud.Daemon.Runtime
import Pcloud.Engine.Recovery

/-!
# Executing transfers (`pcloud-daemon/src/sync_loop_runtime.rs`)

What `execute_downloads` and `execute_uploads` do for one task: the requests that they send, what
they stage, and the message that a failed task keeps. The answers of the transport are inputs,
request by request.
-/

namespace Pcloud

/-! ## Staged bytes -/

/-- Where staged bytes come from: written locally at a path of a root, or mirrored by a download.
The code keeps no record of it. -/
inductive Origin where
  | Local (syncId : SyncId) (path : String)
  | Mirror (syncId : SyncId) (path : String)
  deriving DecidableEq, Repr

structure Staged where
  bytes : List UInt8
  origin : Origin
  deriving DecidableEq, Repr

/-- The runtime with its two staging areas: `filesystem.writeback.staging` and `cache.staging`. -/
structure Daemon where
  runtime : Runtime
  filesystem : StagingCache Staged := {}
  cache : StagingCache Staged := {}
  recovery : RecoveryManager := {}

def downloadInmemMirrorThreshold : Nat := 4 * 1024 * 1024

namespace Daemon

variable (d : Daemon)

abbrev engine : EngineShell := d.runtime.engine

def failed (operation : PlannedOperation) (failure : RecoveryFailure) (err : String) : String :=
  failureMessage err (d.recovery.classifyFailure operation failure).disposition

/-! ## Downloads -/

/-- The answers to `get_file_link` and to the download, with the number of bytes that it wrote,
and what reading the file back gives. -/
structure DownloadAnswers where
  link : Except String Unit
  body : Except String Nat
  readBack : Except String (List UInt8)

def downloadOutcome (operation : PlannedOperation) (answers : DownloadAnswers) : Option String :=
  match answers.link with
  | .error err => some (d.failed operation .RetryableNetworkError err)
  | .ok () => match answers.body with
    | .error err => some (d.failed operation .RetryableNetworkError err)
    | .ok _ => none

/-- What a download leaves in the staging areas, small ones only. -/
def mirrored (operation : PlannedOperation) (answers : DownloadAnswers) : Option (String × Staged) :=
  match operation, answers.link, answers.body, answers.readBack with
  | .DownloadFile syncId path (some _), .ok (), .ok written, .ok bytes =>
    if written < downloadInmemMirrorThreshold then some (path, ⟨bytes, .Mirror syncId path⟩) else none
  | _, _, _, _ => none

def stageBoth (entry : String × Staged) : Daemon :=
  { d with
    filesystem := d.filesystem.stage entry.1 entry.2
    cache := d.cache.stage entry.1 entry.2 }

/-- All that a call mirrors, in the order of its tasks. -/
def mirrors (answers : Nat → DownloadAnswers) : List (String × Staged) :=
  d.engine.downloads.active.zipIdx.filterMap fun (task, i) => mirrored task.operation (answers i)

def downloadOutcomes (answers : Nat → DownloadAnswers) : Runtime.Outcomes := fun i =>
  d.engine.downloads.active[i]?.bind fun task => d.downloadOutcome task.operation (answers i)

-- No download looks at what another one staged, so the two parts are separate here.
def executeDownloads (answers : Nat → DownloadAnswers) : Daemon :=
  { (d.mirrors answers).foldl stageBoth d with
    runtime := (d.runtime.executeDownloads (d.downloadOutcomes answers)).2 }

/-! ## Uploads -/

/-- `rsplit_once('/')`: what stands before the last slash, or nothing. -/
def parentPath (path : String) : String :=
  String.ofList (((path.toList.reverse.dropWhile (· ≠ '/')).drop 1).reverse)

def resolveUploadParent (path : String) (remoteParentFolderId : Option RemoteFolderId) :
    Except RecoveryFailure UInt64 :=
  if parentPath path = "" then .ok 0
  else match remoteParentFolderId with
    | some id => .ok id.get
    | none => .error .RetryableNetworkError

def borrowUploadPayload (path : String) : Option Staged :=
  match d.filesystem.get path with
  | some staged => some staged
  | none => d.cache.get path

def resolveUploadPayloadLen (path : String) : Option Nat :=
  match d.filesystem.get path with
  | some staged => some staged.bytes.length
  | none => (d.cache.get path).map (·.bytes.length)

/-- The answers to `upload_create` and to `upload_bytes`. -/
structure UploadAnswers where
  create : Except String Unit
  bytes : Except String Unit

structure UploadCreate where
  parentFolderId : UInt64
  name : String
  length : Nat
  deriving DecidableEq, Repr

/-- The arguments of the `upload_create` of an upload, the bytes that it sends, and its end. -/
structure UploadReport where
  operation : PlannedOperation
  created : Option UploadCreate := none
  sent : Option Staged := none
  outcome : Option String := none
  deriving DecidableEq, Repr

def uploadFile (operation : PlannedOperation) (answers : UploadAnswers) : UploadReport :=
  match operation with
  | .UploadFile _ path remoteParentFolderId remoteName =>
    match resolveUploadParent path remoteParentFolderId with
    | .error failure =>
      { operation, outcome := some (d.failed operation failure "missing upload destination metadata") }
    | .ok parentFolderId => match d.resolveUploadPayloadLen path with
      | none =>
        { operation, outcome := some (d.failed operation .InvalidPath "missing staged upload payload") }
      | some length =>
        let created := some ⟨parentFolderId, remoteName, length⟩
        match answers.create with
        | .error err => { operation, created, outcome := some (d.failed operation .RetryableNetworkError err) }
        | .ok () => match d.borrowUploadPayload path with
          | none =>
            { operation, created,
              outcome := some (d.failed operation .InvalidPath "staged upload payload evicted mid-upload") }
          | some staged => match answers.bytes with
            | .error err =>
              { operation, created, sent := some staged,
                outcome := some (d.failed operation .RetryableNetworkError err) }
            | .ok () => { operation, created, sent := some staged }
  | _ => { operation }

/-- The uploads that a call executes, in the order of its tasks. -/
def uploadReports (answers : Nat → UploadAnswers) : List UploadReport :=
  (d.engine.uploads.active.zipIdx.filter fun (task, _) => Runtime.executesUpload task.operation).map
    fun (task, i) => d.uploadFile task.operation (answers i)

def uploadOutcomes (answers : Nat → UploadAnswers) : Runtime.Outcomes := fun i =>
  d.engine.uploads.active[i]?.bind fun task => (d.uploadFile task.operation (answers i)).outcome

def executeUploads (answers : Nat → UploadAnswers) : Daemon :=
  { d with runtime := (d.runtime.executeUploads (d.uploadOutcomes answers)).2 }

/-! ## Roots and local writes -/

/-- Bytes that were written locally at a path of a root. -/
def seedStagedFile (syncId : SyncId) (path : String) (bytes : List UInt8) : Daemon :=
  { d with filesystem := d.filesystem.stage path ⟨bytes, .Local syncId path⟩ }

-- The id that the engine notes for its watcher is drained in the same call.
def evictRemovedRoot (syncId : SyncId) : Daemon :=
  let engine := { d.engine.evictSyncRoot syncId with pendingWatcherEvictions := [] }
  let runtime : Runtime := { d.runtime with engine, scanTracker := d.runtime.scanTracker.untrack syncId }
  { d with runtime := runtime.persistSchedulerQueue }

def new (roots : List SyncRootRecord) (store : Store) (fullScanInterval : Nat)
    (propagateDeletes : Bool) : Daemon :=
  { runtime := Runtime.new roots store fullScanInterval propagateDeletes }

end Daemon

/-! ## Calls -/

inductive DaemonCall where
  | pollRemoteDiff (root : SyncRootRecord) (response : Option DiffBatch)
  | runLocalScan (root : SyncRootRecord) (input : Runtime.ScanInput)
  | advanceTransfers
  | executeDownloads (answers : Nat → Daemon.DownloadAnswers)
  | executeUploads (answers : Nat → Daemon.UploadAnswers)
  | seedStagedFile (syncId : SyncId) (path : String) (bytes : List UInt8)
  | evictRemovedRoot (syncId : SyncId)

namespace Daemon

def step (d : Daemon) : DaemonCall → Daemon
  | .pollRemoteDiff root response => { d with runtime := (d.runtime.pollRemoteDiff root response).2 }
  | .runLocalScan root input => { d with runtime := (d.runtime.runLocalScan root input).2 }
  | .advanceTransfers => { d with runtime := d.runtime.advanceTransfers.2 }
  | .executeDownloads answers => d.executeDownloads answers
  | .executeUploads answers => d.executeUploads answers
  | .seedStagedFile syncId path bytes => d.seedStagedFile syncId path bytes
  | .evictRemovedRoot syncId => d.evictRemovedRoot syncId

variable (d : Daemon)

theorem resolveUploadPayloadLen_eq (path : String) :
    d.resolveUploadPayloadLen path = (d.borrowUploadPayload path).map (·.bytes.length) := by
  unfold resolveUploadPayloadLen borrowUploadPayload
  cases d.filesystem.get path <;> rfl

theorem resolveUploadParent_eq_ok {path : String} {remoteParentFolderId : Option RemoteFolderId} :
    (∃ id, resolveUploadParent path remoteParentFolderId = .ok id) ↔
      parentPath path = "" ∨ remoteParentFolderId.isSome := by
  unfold resolveUploadParent
  by_cases htop : parentPath path = ""
  · simp [htop]
  · cases remoteParentFolderId <;> simp [htop]

theorem uploadFile_completed {syncId : SyncId} {path name : String} {parent : Option RemoteFolderId}
    {answers : UploadAnswers} :
    (d.uploadFile (.UploadFile syncId path parent name) answers).outcome = none ↔
      (parentPath path = "" ∨ parent.isSome) ∧ (∃ staged, d.borrowUploadPayload path = some staged) ∧
        answers.create = .ok () ∧ answers.bytes = .ok () := by
  rw [← resolveUploadParent_eq_ok]
  have hlength := d.resolveUploadPayloadLen_eq path
  cases hparent : resolveUploadParent path parent with
  | error failure => simp [uploadFile, hparent]
  | ok id =>
    cases hstaged : d.borrowUploadPayload path with
    | none => simp [uploadFile, hparent, hlength, hstaged]
    | some staged =>
      cases hcreate : answers.create with
      | error err => simp [uploadFile, hparent, hlength, hstaged, hcreate]
      | ok =>
        cases hbytes : answers.bytes with
        | error err => simp [uploadFile, hparent, hlength, hstaged, hcreate, hbytes]
        | ok => simp [uploadFile, hparent, hlength, hstaged, hcreate, hbytes]

theorem uploadFile_sent {syncId : SyncId} {path name : String} {parent : Option RemoteFolderId}
    {answers : UploadAnswers}
    (h : (d.uploadFile (.UploadFile syncId path parent name) answers).outcome = none) :
    (d.uploadFile (.UploadFile syncId path parent name) answers).sent = d.borrowUploadPayload path := by
  obtain ⟨hparent, ⟨staged, hstaged⟩, hcreate, hbytes⟩ := d.uploadFile_completed.mp h
  obtain ⟨id, hid⟩ := resolveUploadParent_eq_ok.mpr hparent
  have hlength := d.resolveUploadPayloadLen_eq path
  simp [uploadFile, hid, hlength, hstaged, hcreate, hbytes]

@[simp]
theorem uploadFile_operation (operation : PlannedOperation) (answers : UploadAnswers) :
    (d.uploadFile operation answers).operation = operation := by
  unfold uploadFile
  repeat' split
  all_goals rfl

theorem mem_uploadReports {answers : Nat → UploadAnswers} {report : UploadReport} :
    report ∈ d.uploadReports answers ↔ ∃ i task, d.engine.uploads.active[i]? = some task ∧
      Runtime.executesUpload task.operation = true ∧ report = d.uploadFile task.operation (answers i) := by
  simp only [uploadReports, List.mem_map, List.mem_filter, List.mem_zipIdx_iff_getElem?, Prod.exists]
  grind

theorem foldl_stageBoth (entries : List (String × Staged)) :
    entries.foldl stageBoth d =
      { d with
        filesystem := entries.foldl (fun c entry => c.stage entry.1 entry.2) d.filesystem
        cache := entries.foldl (fun c entry => c.stage entry.1 entry.2) d.cache } := by
  induction entries generalizing d with
  | nil => rfl
  | cons entry entries ih =>
    rw [List.foldl_cons, ih]
    rfl

end Daemon

end Pcloud
