import Pcloud.Backends.SyncBackend
import Pcloud.Engine.Shell

/-!
# The sync loop (`pcloud-daemon/src/sync_loop.rs`, `sync_loop_runtime.rs`)

The runtime is the engine, the scan tracker and the store. What comes from outside is an
input of each call: the server's answer, the watcher's events, the tree found by a walk, the
clock, and how each transfer ends. A `none` answer stands for a request that failed. The store
refuses a number that does not fit into its column; other failures of its writes are left out.
-/

namespace Pcloud

/-! ## The store -/

/-- An integer column is signed. -/
def fitsColumn (n : UInt64) : Bool := n.toNat < 2 ^ 63

/-- A row of the table of roots. -/
structure SyncRootRecord where
  syncId : SyncId
  syncType : SyncType
  paused : Bool := false
  stored : fitsColumn syncId.get = true := by decide
  deriving DecidableEq, Repr

/-- What the sync loop keeps on disk: the diff cursors, the ids in the metadata cache, the
dead-letter overflow and the scheduler queue. -/
structure Store where
  diffState : SyncId → Option Nat := fun _ => none
  fileMetadata : Finset UInt64 := ∅
  plannerOverflow : List SyncCandidate := []
  schedulerQueue : List PlannedOperation := []

def Store.cursor (store : Store) (syncId : SyncId) : Nat := (store.diffState syncId).getD 0

def deletedId (entry : RemoteDiffEntry) : Option UInt64 :=
  if entry.changeKind = .Delete then
    if entry.entryKind = .Folder then entry.remoteFolderId.map (·.get)
    else entry.remoteFileId.map (·.get)
  else none

/-- `DiffStateRepository::save`. -/
def Store.saveCursor (store : Store) (syncId : SyncId) (diffid : Nat) : Option Store :=
  if fitsColumn syncId.get ∧ diffid < 2 ^ 63 then
    some { store with diffState := Function.update store.diffState syncId (some diffid) }
  else none

/-- One transaction: the metadata deletes, and the cursor if it is ahead. `none` is the error of a
number that does not fit. -/
def commitDiffBatch (store : Store) (syncId : SyncId) (previousCursor : Nat)
    (batch : RemoteDiffBatch) : Option Store :=
  let deleted := batch.entries.filterMap deletedId
  if deleted.all fitsColumn then
    let store := { store with fileMetadata := store.fileMetadata \ deleted.toFinset }
    if previousCursor < batch.cursor then store.saveCursor syncId batch.cursor else some store
  else none

/-! ## The runtime -/

structure Runtime where
  engine : EngineShell
  store : Store
  scanTracker : IncrementalScanTracker
  propagateDeletes : Bool

namespace Runtime

/-- `RealSyncLoopRuntime::new`: paused roots first, then the overflow, then the queue. -/
def new (roots : List SyncRootRecord) (store : Store) (fullScanInterval : Nat)
    (propagateDeletes : Bool) : Runtime :=
  let engine := (roots.filter (·.paused)).foldl (fun e root => (e.pauseSyncRoot root.syncId).2) {}
  let engine := if store.plannerOverflow.isEmpty then engine
    else engine.restorePlannerOverflow store.plannerOverflow
  let engine := if store.schedulerQueue.isEmpty then engine
    else engine.restoreSchedulerQueue store.schedulerQueue
  { engine, store, scanTracker := .new fullScanInterval, propagateDeletes }

variable (rt : Runtime)

def deletePolicy (root : SyncRootRecord) : DeletePolicy :=
  DeletePolicy.forSyncType root.syncType rt.propagateDeletes

def persistPlannerOverflow : Runtime :=
  { rt with store := { rt.store with plannerOverflow := rt.engine.plannerOverflow } }

def persistSchedulerQueue : Runtime :=
  { rt with store := { rt.store with schedulerQueue := rt.engine.snapshotSchedulerDurable } }

def ingest (root : SyncRootRecord) (candidates : List SyncCandidate) : Runtime :=
  { rt with engine := rt.engine.ingestCandidatesFiltered candidates (rt.deletePolicy root) }

def commit (root : SyncRootRecord) (batch : RemoteDiffBatch) : Option Runtime :=
  (commitDiffBatch rt.store root.syncId (rt.store.cursor root.syncId) batch).map ({ rt with store := · })

/-! ## Polling -/

/-- The number of operations in the queue, or `none` where the source returns an error. -/
def pollRemoteDiff (root : SyncRootRecord) (response : Option DiffBatch) : Option Nat × Runtime :=
  match response with
  | none => (none, rt)
  | some answer =>
    let batch := convertDiffBatch answer
    match DiffPoller.normalizeBatch batch with
    | .error _ => (none, rt)
    | .ok candidates =>
      let rt := rt.ingest root candidates
      let opCount := rt.engine.scheduler.queuedOperations.length
      let rt := rt.persistPlannerOverflow
      match rt.commit root batch with
      | none => (none, rt)
      | some rt => (some opCount, rt)

/-! ## Scanning -/

structure Found where
  path : String
  entryKind : EntryKind
  remoteParentFolderId : Option RemoteFolderId
  deriving DecidableEq, Repr

def walkLocalTree (root : SyncRootRecord) (found : List Found) : List LocalScanEntry :=
  found.map fun f => ⟨root.syncId, f.path, f.entryKind, false, f.remoteParentFolderId⟩

structure Observed where
  path : String
  entryKind : EntryKind
  kind : FsEventKind
  deriving DecidableEq, Repr

structure ScanInput where
  events : List Observed := []
  now : Nat := 0
  /-- The tree, or why the walk fails. -/
  walk : Except String (List Found) := .ok []

def drainWatcherEvents (t : IncrementalScanTracker) (syncId : SyncId) (events : List Observed) :
    IncrementalScanTracker :=
  events.foldl (fun t e => t.pushEvent ⟨syncId, e.path, e.entryKind, e.kind⟩) t

/-- The entries to ingest and the tracker after it; no entries where there is nothing to do. -/
def scanEntries (root : SyncRootRecord) (input : ScanInput) :
    Except String (Option (List LocalScanEntry)) × IncrementalScanTracker :=
  let tracker := drainWatcherEvents rt.scanTracker root.syncId input.events
  match tracker.decide input.now root.syncId with
  | (.FullScan, tracker) =>
    match input.walk with
    | .error err => (.error err, tracker)
    | .ok found =>
      (.ok (some (walkLocalTree root found)), tracker.recordFullScan input.now root.syncId)
  | (.IncrementalOnly pendingEvents, tracker) =>
    if pendingEvents.isEmpty then (.ok none, tracker)
    else (.ok (some (fsEventsToLocalScanEntries pendingEvents)), tracker)

def runLocalScan (root : SyncRootRecord) (input : ScanInput) : Option Nat × Runtime :=
  let (entries, scanTracker) := rt.scanEntries root input
  let rt := { rt with scanTracker }
  match entries with
  | .error _ => (none, rt)
  | .ok none => (some 0, rt)
  | .ok (some entries) =>
    match LocalScanner.normalizeEntries entries with
    | .error _ => (none, rt)
    | .ok candidates =>
      let rt := rt.ingest root candidates
      let opCount := rt.engine.scheduler.queuedOperations.length
      let rt := rt.persistPlannerOverflow
      (some opCount, rt.persistSchedulerQueue)

/-! ## Transfers -/

def advanceTransfers : Nat × Runtime :=
  let rt := { rt with engine := rt.engine.advanceTransferCycle }
  let dispatched := rt.engine.lastDispatchedBatch.length
  (dispatched, if 0 < dispatched then rt.persistSchedulerQueue else rt)

/-- How each transfer ends: well, or with the message that the task keeps. -/
abbrev Outcomes := Nat → Option String

/-- The end of one transfer. A completed one counts, and is acknowledged, if its mark found a
task. -/
def finishTransfer (engine : EngineShell) (operation : PlannedOperation) (outcome : Option String) :
    Bool × EngineShell :=
  match outcome with
  | none =>
    match engine.markTransferCompleted operation.path with
    | (true, engine) => (true, engine.ackDispatchedPath operation.syncId operation.path)
    | (false, engine) => (false, engine)
  | some message => (false, (engine.markTransferFailed operation.path message).2)

/-- A download needs a file id; tasks without one are passed over. -/
def executesDownload : PlannedOperation → Bool
  | .DownloadFile _ _ (some _) => true
  | _ => false

def executesUpload : PlannedOperation → Bool
  | .UploadFile .. => true
  | _ => false

def executeTasks (tasks : List TransferTask) (executes : PlannedOperation → Bool)
    (outcomes : Outcomes) : Nat × Runtime :=
  let (completed, engine) := tasks.zipIdx.foldl (fun (completed, engine) (task, i) =>
    if executes task.operation then
      match finishTransfer engine task.operation (outcomes i) with
      | (true, engine) => (completed + 1, engine)
      | (false, engine) => (completed, engine)
    else (completed, engine)) (0, rt.engine)
  (completed, { rt with engine })

def executeDownloads (outcomes : Outcomes) : Nat × Runtime :=
  rt.executeTasks rt.engine.downloads.active executesDownload outcomes

def executeUploads (outcomes : Outcomes) : Nat × Runtime :=
  rt.executeTasks rt.engine.uploads.active executesUpload outcomes

end Runtime

/-! ## Calls -/

inductive SyncCall where
  | pollRemoteDiff (root : SyncRootRecord) (response : Option DiffBatch)
  | runLocalScan (root : SyncRootRecord) (input : Runtime.ScanInput)
  | advanceTransfers
  | executeDownloads (outcomes : Runtime.Outcomes)
  | executeUploads (outcomes : Runtime.Outcomes)

def Runtime.step (rt : Runtime) : SyncCall → Runtime
  | .pollRemoteDiff root response => (rt.pollRemoteDiff root response).2
  | .runLocalScan root input => (rt.runLocalScan root input).2
  | .advanceTransfers => rt.advanceTransfers.2
  | .executeDownloads outcomes => (rt.executeDownloads outcomes).2
  | .executeUploads outcomes => (rt.executeUploads outcomes).2

structure TurnInput where
  response : Option DiffBatch
  scan : Runtime.ScanInput
  downloads : Runtime.Outcomes
  uploads : Runtime.Outcomes

/-- The calls that `sync_one_root` makes, in their order. -/
def syncOneRoot (root : SyncRootRecord) (input : TurnInput) : List SyncCall :=
  (if root.syncType ≠ .UploadOnly then [.pollRemoteDiff root input.response] else []) ++
  (if root.syncType ≠ .DownloadOnly then [.runLocalScan root input.scan] else []) ++
  [.advanceTransfers] ++
  (if root.syncType ≠ .UploadOnly then [.executeDownloads input.downloads] else []) ++
  (if root.syncType ≠ .DownloadOnly then [.executeUploads input.uploads] else [])

/-! ## The transaction of a poll -/

/-- The store takes the batch: each id fits, and so does the cursor if it is written. -/
def Storable (store : Store) (root : SyncRootRecord) (batch : RemoteDiffBatch) : Prop :=
  (∀ id ∈ batch.entries.filterMap deletedId, fitsColumn id = true) ∧
    (store.cursor root.syncId < batch.cursor → batch.cursor < 2 ^ 63)

instance (store : Store) (root : SyncRootRecord) (batch : RemoteDiffBatch) :
    Decidable (Storable store root batch) :=
  -- Over the ids of the batch, and not over all there are.
  @instDecidableAnd _ _ (List.decidableBAll _ _) (inferInstanceAs (Decidable (_ → _)))

section Commit

variable {store : Store} {root : SyncRootRecord} {batch : RemoteDiffBatch}

theorem commitDiffBatch_of_storable (h : Storable store root batch) :
    commitDiffBatch store root.syncId (store.cursor root.syncId) batch =
      some { store with
        fileMetadata := store.fileMetadata \ (batch.entries.filterMap deletedId).toFinset
        diffState :=
          if store.cursor root.syncId < batch.cursor then
            Function.update store.diffState root.syncId (some batch.cursor)
          else store.diffState } := by
  unfold commitDiffBatch
  rw [if_pos (List.all_eq_true.mpr h.1)]
  by_cases hahead : store.cursor root.syncId < batch.cursor
  · rw [if_pos hahead, if_pos hahead, Store.saveCursor, if_pos ⟨root.stored, h.2 hahead⟩]
  · rw [if_neg hahead, if_neg hahead]

theorem commitDiffBatch_of_not_storable (h : ¬ Storable store root batch) :
    commitDiffBatch store root.syncId (store.cursor root.syncId) batch = none := by
  unfold commitDiffBatch
  by_cases hids : (batch.entries.filterMap deletedId).all fitsColumn = true
  · have hcursor : store.cursor root.syncId < batch.cursor ∧ ¬ batch.cursor < 2 ^ 63 := by
      by_contra hfits
      exact h ⟨List.all_eq_true.mp hids, fun hahead => not_not.mp fun hbig => hfits ⟨hahead, hbig⟩⟩
    rw [if_pos hids, if_pos hcursor.1, Store.saveCursor, if_neg fun hfits => hcursor.2 hfits.2]
  · rw [if_neg hids]

theorem commitDiffBatch_isSome :
    (commitDiffBatch store root.syncId (store.cursor root.syncId) batch).isSome ↔ Storable store root batch := by
  by_cases h : Storable store root batch
  · simp [commitDiffBatch_of_storable h, h]
  · simp [commitDiffBatch_of_not_storable h, h]

end Commit

/-! ## What a call does to the engine -/

def EngineShell.ingestSome (s : EngineShell) (deletePolicy : DeletePolicy) :
    Option (List SyncCandidate) → EngineShell
  | none => s
  | some candidates => s.ingestCandidatesFiltered candidates deletePolicy

namespace Runtime

variable (rt : Runtime)

def scanCandidates (root : SyncRootRecord) (input : ScanInput) : Option (List SyncCandidate) :=
  match (rt.scanEntries root input).1 with
  | .ok (some entries) => (LocalScanner.normalizeEntries entries).toOption
  | _ => none

def pollCandidates (response : Option DiffBatch) : Option (List SyncCandidate) :=
  response.bind fun answer => (DiffPoller.normalizeBatch (convertDiffBatch answer)).toOption

theorem scanEntries_root {root : SyncRootRecord} {input : ScanInput} {entries : List LocalScanEntry}
    (h : (rt.scanEntries root input).1 = .ok (some entries)) {e : LocalScanEntry} (he : e ∈ entries) :
    e.syncId = root.syncId := by
  unfold scanEntries at h
  simp only at h
  split at h
  · split at h
    · cases h
    · obtain rfl := Option.some.inj (Except.ok.inj h)
      obtain ⟨f, -, rfl⟩ := List.mem_map.mp he
      rfl
  · rename_i pendingEvents tracker hdecide
    split at h
    · cases h
    · obtain rfl := Option.some.inj (Except.ok.inj h)
      obtain ⟨event, hevent, rfl⟩ := List.mem_map.mp he
      exact IncrementalScanTracker.decide_syncId (by rw [hdecide]) hevent

theorem scanCandidates_eq_some {root : SyncRootRecord} {input : ScanInput}
    {candidates : List SyncCandidate} :
    rt.scanCandidates root input = some candidates ↔
      ∃ entries, (rt.scanEntries root input).1 = .ok (some entries) ∧
        LocalScanner.normalizeEntries entries = .ok candidates := by
  unfold scanCandidates
  split
  · rename_i entries hentries
    rw [toOption_eq_some, hentries]
    simp
  · rename_i hnone
    simp only [reduceCtorEq, false_iff]
    rintro ⟨entries, hentries, -⟩
    exact hnone entries hentries

theorem pollCandidates_some {answer : DiffBatch} {candidates : List SyncCandidate} :
    pollCandidates (some answer) = some candidates ↔
      DiffPoller.normalizeBatch (convertDiffBatch answer) = .ok candidates := by
  unfold pollCandidates
  rw [Option.bind_some, toOption_eq_some]

theorem mem_scanCandidates {root : SyncRootRecord} {input : ScanInput} {candidates : List SyncCandidate}
    (h : rt.scanCandidates root input = some candidates) {c : SyncCandidate} (hc : c ∈ candidates) :
    c.source = .Local ∧ c.syncId = root.syncId := by
  obtain ⟨entries, hentries, hnorm⟩ := rt.scanCandidates_eq_some.mp h
  obtain ⟨hsource, e, he, hid⟩ := mem_normalizeEntries hnorm hc
  exact ⟨hsource, hid.trans (rt.scanEntries_root hentries he)⟩

theorem pollRemoteDiff_of_none {root : SyncRootRecord} {response : Option DiffBatch}
    (h : pollCandidates response = none) : (rt.pollRemoteDiff root response).2 = rt := by
  rcases response with _ | answer
  · rfl
  · rcases hnorm : DiffPoller.normalizeBatch (convertDiffBatch answer) with err | candidates
    · simp only [pollRemoteDiff, hnorm]
    · have hsome := pollCandidates_some.mpr hnorm
      rw [h] at hsome
      cases hsome

/-- What is left of a poll: a batch that the store refuses leaves the cursor where it was. -/
def committed (root : SyncRootRecord) (batch : RemoteDiffBatch) : Runtime := (rt.commit root batch).getD rt

theorem committed_eq (root : SyncRootRecord) (batch : RemoteDiffBatch) :
    ∃ fileMetadata diffState, rt.committed root batch =
      { rt with store := { rt.store with fileMetadata, diffState } } := by
  unfold committed commit
  by_cases h : Storable rt.store root batch
  · rw [commitDiffBatch_of_storable h]
    exact ⟨_, _, rfl⟩
  · rw [commitDiffBatch_of_not_storable h]
    exact ⟨rt.store.fileMetadata, rt.store.diffState, rfl⟩

@[simp]
theorem committed_engine (root : SyncRootRecord) (batch : RemoteDiffBatch) :
    (rt.committed root batch).engine = rt.engine := by
  obtain ⟨fileMetadata, diffState, heq⟩ := rt.committed_eq root batch
  rw [heq]

@[simp]
theorem committed_overflow (root : SyncRootRecord) (batch : RemoteDiffBatch) :
    (rt.committed root batch).store.plannerOverflow = rt.store.plannerOverflow := by
  obtain ⟨fileMetadata, diffState, heq⟩ := rt.committed_eq root batch
  rw [heq]

@[simp]
theorem committed_queue (root : SyncRootRecord) (batch : RemoteDiffBatch) :
    (rt.committed root batch).store.schedulerQueue = rt.store.schedulerQueue := by
  obtain ⟨fileMetadata, diffState, heq⟩ := rt.committed_eq root batch
  rw [heq]

theorem pollRemoteDiff_of_some {root : SyncRootRecord} {answer : DiffBatch}
    {candidates : List SyncCandidate} (h : pollCandidates (some answer) = some candidates) :
    (rt.pollRemoteDiff root (some answer)).2 =
      (rt.ingest root candidates).persistPlannerOverflow.committed root (convertDiffBatch answer) := by
  simp only [pollRemoteDiff, pollCandidates_some.mp h, committed]
  cases (rt.ingest root candidates).persistPlannerOverflow.commit root (convertDiffBatch answer) <;> rfl

theorem runLocalScan_of_none {root : SyncRootRecord} {input : ScanInput}
    (h : rt.scanCandidates root input = none) :
    ∃ scanTracker, (rt.runLocalScan root input).2 = { rt with scanTracker } := by
  refine ⟨(rt.scanEntries root input).2, ?_⟩
  rcases hentries : (rt.scanEntries root input).1 with err | _ | entries
  · simp only [runLocalScan, hentries]
  · simp only [runLocalScan, hentries]
  · rcases hnorm : LocalScanner.normalizeEntries entries with err | candidates
    · simp only [runLocalScan, hentries, hnorm]
    · have hsome := rt.scanCandidates_eq_some.mpr ⟨entries, hentries, hnorm⟩
      rw [h] at hsome
      cases hsome

theorem runLocalScan_of_some {root : SyncRootRecord} {input : ScanInput}
    {candidates : List SyncCandidate} (h : rt.scanCandidates root input = some candidates) :
    ∃ scanTracker, (rt.runLocalScan root input).2 =
      { (rt.ingest root candidates).persistPlannerOverflow.persistSchedulerQueue with scanTracker } := by
  obtain ⟨entries, hentries, hnorm⟩ := rt.scanCandidates_eq_some.mp h
  refine ⟨(rt.scanEntries root input).2, ?_⟩
  simp only [runLocalScan, hentries, hnorm]
  rfl

theorem pollRemoteDiff_engine (root : SyncRootRecord) (response : Option DiffBatch) :
    (rt.pollRemoteDiff root response).2.engine =
      rt.engine.ingestSome (rt.deletePolicy root) (pollCandidates response) := by
  rcases hpolled : pollCandidates response with _ | candidates
  · rw [rt.pollRemoteDiff_of_none hpolled]
    rfl
  · rcases response with _ | answer
    · cases hpolled
    · rw [rt.pollRemoteDiff_of_some hpolled, committed_engine]
      rfl

theorem runLocalScan_engine (root : SyncRootRecord) (input : ScanInput) :
    (rt.runLocalScan root input).2.engine =
      rt.engine.ingestSome (rt.deletePolicy root) (rt.scanCandidates root input) := by
  rcases hfound : rt.scanCandidates root input with _ | candidates
  · obtain ⟨tracker, heq⟩ := rt.runLocalScan_of_none hfound
    rw [heq]
    rfl
  · obtain ⟨tracker, heq⟩ := rt.runLocalScan_of_some hfound
    rw [heq]
    rfl

theorem advanceTransfers_engine :
    rt.advanceTransfers.2.engine = rt.engine.advanceTransferCycle := by
  unfold advanceTransfers
  simp only
  split <;> rfl

theorem finishTransfer_eq (engine : EngineShell) (operation : PlannedOperation)
    (outcome : Option String) :
    ∃ uploads downloads dispatched, downloads.active.Sublist engine.downloads.active ∧
      dispatched.Sublist engine.scheduler.dispatchedOperations ∧
      (finishTransfer engine operation outcome).2 =
        { engine with
          uploads, downloads
          scheduler := { engine.scheduler with dispatchedOperations := dispatched } } := by
  unfold finishTransfer
  split
  · obtain ⟨u, d, hactive, heq⟩ := engine.markTransferCompleted_eq operation.path
    split
    · rename_i hmark
      rw [hmark] at heq
      simp only at heq
      subst heq
      exact ⟨u, d, _, hactive, List.filter_sublist, rfl⟩
    · rename_i hmark
      rw [hmark] at heq
      exact ⟨u, d, _, hactive, List.Sublist.refl _, heq⟩
  · obtain ⟨u, d, hactive, heq⟩ := engine.markTransferFailed_eq operation.path _
    exact ⟨u, d, _, hactive, List.Sublist.refl _, heq⟩

/-- The rule for the loop: what the end of each executed transfer keeps, the whole loop keeps. -/
theorem executeTasks_invariant {I : EngineShell → Prop} {tasks : List TransferTask}
    {executes : PlannedOperation → Bool} {outcomes : Outcomes} (hI : I rt.engine)
    (hstep : ∀ task i, tasks[i]? = some task → executes task.operation = true → ∀ engine, I engine →
      I (finishTransfer engine task.operation (outcomes i)).2) :
    I (rt.executeTasks tasks executes outcomes).2.engine := by
  unfold executeTasks
  simp only
  have hitems : ∀ item ∈ tasks.zipIdx, executes item.1.operation = true → ∀ engine, I engine →
      I (finishTransfer engine item.1.operation (outcomes item.2)).2 := by
    intro item hitem
    exact hstep item.1 item.2 (List.mem_zipIdx_iff_getElem?.mp hitem)
  clear hstep
  generalize tasks.zipIdx = items at hitems ⊢
  generalize (0 : Nat) = completed
  generalize rt.engine = engine at hI ⊢
  induction items generalizing completed engine with
  | nil => exact hI
  | cons item items ih =>
    obtain ⟨hitem, hitems⟩ := List.forall_mem_cons.mp hitems
    rw [List.foldl_cons]
    split
    · rename_i hexec
      have hnext := hitem hexec engine hI
      split
      all_goals
        rename_i hfinish
        rw [hfinish] at hnext
        exact ih hitems _ _ hnext
    · exact ih hitems completed engine hI

theorem executeTasks_engine (tasks : List TransferTask) (executes : PlannedOperation → Bool)
    (outcomes : Outcomes) :
    ∃ uploads downloads dispatched, downloads.active.Sublist rt.engine.downloads.active ∧
      dispatched.Sublist rt.engine.scheduler.dispatchedOperations ∧
      (rt.executeTasks tasks executes outcomes).2.engine =
        { rt.engine with
          uploads, downloads
          scheduler := { rt.engine.scheduler with dispatchedOperations := dispatched } } := by
  refine rt.executeTasks_invariant (I := fun engine => ∃ uploads downloads dispatched,
    downloads.active.Sublist rt.engine.downloads.active ∧
      dispatched.Sublist rt.engine.scheduler.dispatchedOperations ∧
      engine = { rt.engine with
        uploads, downloads
        scheduler := { rt.engine.scheduler with dispatchedOperations := dispatched } }) ?_ ?_
  · exact ⟨_, _, _, List.Sublist.refl _, List.Sublist.refl _, rfl⟩
  · -- The same three parts change at each task, so the changes of a whole loop compose.
    rintro task i - - engine ⟨u, d, sent, hd, hsent, rfl⟩
    obtain ⟨u', d', sent', hd', hsent', hfinish⟩ := finishTransfer_eq _ task.operation (outcomes i)
    exact ⟨u', d', sent', hd'.trans hd, hsent'.trans hsent, hfinish⟩

section New

variable (roots : List SyncRootRecord) (store : Store) (fullScanInterval : Nat) (propagateDeletes : Bool)

theorem pauseAll_eq (roots : List SyncRootRecord) :
    ∃ pausedSyncRoots, roots.foldl (fun e root => (e.pauseSyncRoot root.syncId).2) {} =
      ({ pausedSyncRoots } : EngineShell) := by
  suffices h : ∀ paused, ∃ pausedSyncRoots,
      roots.foldl (fun e root => (EngineShell.pauseSyncRoot e root.syncId).2) { pausedSyncRoots := paused } =
        ({ pausedSyncRoots } : EngineShell) from h ∅
  induction roots with
  | nil => exact fun paused => ⟨paused, rfl⟩
  | cons root roots ih =>
    intro paused
    rw [List.foldl_cons, EngineShell.pauseSyncRoot]
    split
    · exact ih paused
    · exact ih (insert root.syncId paused)

theorem new_engine :
    ∃ pausedSyncRoots, (new roots store fullScanInterval propagateDeletes).engine =
      { pausedSyncRoots
        plannerOverflow := store.plannerOverflow
        scheduler :=
          { queuedOperations := store.schedulerQueue.insertionSort PlannedOperation.Before } } := by
  obtain ⟨paused, hpaused⟩ := pauseAll_eq (roots.filter (·.paused))
  refine ⟨paused, ?_⟩
  unfold new
  simp only [hpaused]
  cases store.plannerOverflow with
  | nil => cases store.schedulerQueue <;> rfl
  | cons c cs => cases store.schedulerQueue <;> rfl

theorem new_planner : (new roots store fullScanInterval propagateDeletes).engine.planner = {} := by
  obtain ⟨paused, heq⟩ := new_engine roots store fullScanInterval propagateDeletes
  rw [heq]

theorem new_overflow :
    (new roots store fullScanInterval propagateDeletes).engine.plannerOverflow = store.plannerOverflow := by
  obtain ⟨paused, heq⟩ := new_engine roots store fullScanInterval propagateDeletes
  rw [heq]

theorem mem_new_queue {op : PlannedOperation} :
    op ∈ (new roots store fullScanInterval propagateDeletes).engine.scheduler.queuedOperations ↔
      op ∈ store.schedulerQueue := by
  obtain ⟨paused, heq⟩ := new_engine roots store fullScanInterval propagateDeletes
  rw [heq, List.mem_insertionSort]

end New

def ingests : SyncCall → Option (DeletePolicy × List SyncCandidate)
  | .pollRemoteDiff root response => (pollCandidates response).map (rt.deletePolicy root, ·)
  | .runLocalScan root input => (rt.scanCandidates root input).map (rt.deletePolicy root, ·)
  | _ => none

variable {rt} {call : SyncCall}

theorem ingests_cases {policy : DeletePolicy} {candidates : List SyncCandidate}
    (h : rt.ingests call = some (policy, candidates)) :
    (∃ root answer, call = .pollRemoteDiff root (some answer) ∧ policy = rt.deletePolicy root ∧
      pollCandidates (some answer) = some candidates ∧
      rt.step call =
        (rt.ingest root candidates).persistPlannerOverflow.committed root (convertDiffBatch answer)) ∨
    ∃ root input scanTracker, call = .runLocalScan root input ∧ policy = rt.deletePolicy root ∧
      rt.scanCandidates root input = some candidates ∧
      rt.step call =
        { (rt.ingest root candidates).persistPlannerOverflow.persistSchedulerQueue with scanTracker } := by
  cases call with
  | pollRemoteDiff root response =>
    obtain ⟨cs, hcs, heq⟩ := Option.map_eq_some_iff.mp h
    obtain ⟨rfl, rfl⟩ := Prod.mk.inj heq
    rcases response with _ | answer
    · cases hcs
    · exact .inl ⟨root, answer, rfl, rfl, hcs, rt.pollRemoteDiff_of_some hcs⟩
  | runLocalScan root input =>
    obtain ⟨cs, hcs, heq⟩ := Option.map_eq_some_iff.mp h
    obtain ⟨rfl, rfl⟩ := Prod.mk.inj heq
    obtain ⟨tracker, hstep⟩ := rt.runLocalScan_of_some hcs
    exact .inr ⟨root, input, tracker, rfl, rfl, hcs, hstep⟩
  | advanceTransfers => cases h
  | executeDownloads outcomes => cases h
  | executeUploads outcomes => cases h

theorem step_of_ingests {policy : DeletePolicy} {candidates : List SyncCandidate}
    (h : rt.ingests call = some (policy, candidates)) :
    (rt.step call).engine = rt.engine.ingestCandidatesFiltered candidates policy := by
  rcases ingests_cases h with ⟨root, answer, -, rfl, -, heq⟩ | ⟨root, input, tracker, -, rfl, -, heq⟩
  · rw [heq, committed_engine]
    rfl
  · rw [heq]
    rfl

theorem step_of_no_ingest (h : rt.ingests call = none) :
    (rt.step call).engine.planner = rt.engine.planner ∧
      (rt.step call).engine.plannerOverflow = rt.engine.plannerOverflow ∧
      ∀ op ∈ (rt.step call).engine.scheduler.queuedOperations,
        op ∈ rt.engine.scheduler.queuedOperations := by
  cases call with
  | pollRemoteDiff root response =>
    rw [step, pollRemoteDiff_engine, Option.map_eq_none_iff.mp h]
    exact ⟨rfl, rfl, fun _ hop => hop⟩
  | runLocalScan root input =>
    rw [step, runLocalScan_engine, Option.map_eq_none_iff.mp h]
    exact ⟨rfl, rfl, fun _ hop => hop⟩
  | advanceTransfers =>
    rw [step, advanceTransfers_engine]
    refine ⟨rfl, rfl, fun op hop => ?_⟩
    exact (rt.engine.scheduler.nextBatch_perm.subset (List.mem_append_right _ hop))
  | executeDownloads outcomes =>
    obtain ⟨u, d, sent, -, -, heq⟩ :=
      rt.executeTasks_engine rt.engine.downloads.active executesDownload outcomes
    rw [step, executeDownloads, heq]
    exact ⟨rfl, rfl, fun _ hop => hop⟩
  | executeUploads outcomes =>
    obtain ⟨u, d, sent, -, -, heq⟩ :=
      rt.executeTasks_engine rt.engine.uploads.active executesUpload outcomes
    rw [step, executeUploads, heq]
    exact ⟨rfl, rfl, fun _ hop => hop⟩

end Runtime

end Pcloud
