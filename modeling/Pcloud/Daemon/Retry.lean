import Pcloud.Daemon.Credit
import Pcloud.Daemon.Execute

/-!
# Retries

A network failure is classified as one to retry later. Its task goes to the failed list, where
nothing looks for it, and its operation stays dispatched, so the scheduler does not have it
either. It is stranded there until something else reports the path.
-/

open Runs

namespace Pcloud

/-! ## Failed tasks -/

namespace Coordinator

variable {c c' : Coordinator} {path error : String}

theorem moveTask_moved {source destination source' destination' : List TransferTask}
    {state : TransferState} {err : Option String}
    (h : moveTask path source destination state err = some (source', destination')) :
    ∃ task : TransferTask, task.lastError = err ∧ destination' = destination ++ [task] := by
  unfold moveTask at h
  split at h
  · cases h
  · obtain ⟨-, rfl⟩ := Prod.mk.inj (Option.some.inj h)
    exact ⟨_, rfl, rfl⟩

theorem moveOpen_moved {destination destination' : List TransferTask} {state : TransferState}
    {err : Option String} (h : c.moveOpen path destination state err = some (c', destination')) :
    ∃ task : TransferTask, task.lastError = err ∧ destination' = destination ++ [task] := by
  unfold moveOpen at h
  split at h
  · rename_i hmove
    obtain ⟨-, rfl⟩ := Prod.mk.inj (Option.some.inj h)
    exact moveTask_moved hmove
  · split at h
    · rename_i hmove
      obtain ⟨-, rfl⟩ := Prod.mk.inj (Option.some.inj h)
      exact moveTask_moved hmove
    · split at h
      · rename_i hmove
        obtain ⟨-, rfl⟩ := Prod.mk.inj (Option.some.inj h)
        exact moveTask_moved hmove
      · cases h

theorem markFailed_failed (h : c.markFailed path error = some c') :
    ∃ task : TransferTask, task.lastError = some error ∧ c'.failed = c.failed ++ [task] := by
  obtain ⟨⟨d, failed⟩, hmove, rfl⟩ := Option.map_eq_some_iff.mp h
  exact moveOpen_moved hmove

theorem markCompleted_failed (h : c.markCompleted path = some c') : c'.failed = c.failed := by
  obtain ⟨⟨d, completed⟩, hmove, rfl⟩ := Option.map_eq_some_iff.mp h
  obtain ⟨task, moved, -, -, -, -, -, hfailed⟩ := moveOpen_perm hmove
  exact hfailed

end Coordinator

namespace EngineShell

def failedTasks (s : EngineShell) : List TransferTask := s.uploads.failed ++ s.downloads.failed

variable {s : EngineShell}

theorem markTransferCompleted_failed (path : String) :
    (s.markTransferCompleted path).2.failedTasks = s.failedTasks := by
  unfold markTransferCompleted failedTasks
  split
  · rename_i hmark
    rw [Coordinator.markCompleted_failed hmark]
  · split
    · rename_i hmark
      rw [Coordinator.markCompleted_failed hmark]
    · rfl

theorem markTransferFailed_failed {path error : String} {task : TransferTask}
    (h : task ∈ (s.markTransferFailed path error).2.failedTasks) :
    task ∈ s.failedTasks ∨ task.lastError = some error := by
  unfold markTransferFailed failedTasks at h
  unfold failedTasks
  split at h
  · rename_i hmark
    obtain ⟨moved, herror, hfailed⟩ := Coordinator.markFailed_failed hmark
    simp only [hfailed, List.mem_append, List.mem_singleton] at h ⊢
    rcases h with (h | rfl) | h
    · exact .inl (.inl h)
    · exact .inr herror
    · exact .inl (.inr h)
  · split at h
    · rename_i hmark
      obtain ⟨moved, herror, hfailed⟩ := Coordinator.markFailed_failed hmark
      simp only [hfailed, List.mem_append, List.mem_singleton] at h ⊢
      rcases h with h | h | rfl
      · exact .inl (.inl h)
      · exact .inl (.inr h)
      · exact .inr herror
    · exact .inl h

theorem finishTransfer_failed {operation : PlannedOperation} {outcome : Option String}
    {task : TransferTask} (h : task ∈ (Runtime.finishTransfer s operation outcome).2.failedTasks) :
    task ∈ s.failedTasks ∨ ∃ message, outcome = some message ∧ task.lastError = some message := by
  cases outcome with
  | none =>
    left
    rw [← markTransferCompleted_failed operation.path]
    unfold Runtime.finishTransfer at h
    simp only at h
    split at h <;> rename_i hmark <;> rw [hmark] <;> exact h
  | some message =>
    rcases markTransferFailed_failed h with hold | herror
    · exact .inl hold
    · exact .inr ⟨message, rfl, herror⟩

@[simp]
theorem ingest_failedTasks (candidates : List SyncCandidate) (policy : DeletePolicy) :
    (s.ingestCandidatesFiltered candidates policy).failedTasks = s.failedTasks := by
  simp [failedTasks]

theorem ingestSome_failedTasks (policy : DeletePolicy) (candidates : Option (List SyncCandidate)) :
    (s.ingestSome policy candidates).failedTasks = s.failedTasks := by
  cases candidates with
  | none => rfl
  | some candidates => exact ingest_failedTasks candidates policy

theorem evictSyncRoot_failedTasks {syncId : SyncId} {task : TransferTask}
    (h : task ∈ (s.evictSyncRoot syncId).failedTasks) : task ∈ s.failedTasks := by
  unfold failedTasks at h ⊢
  rcases List.mem_append.mp h with h | h
  · exact List.mem_append_left _ (List.mem_of_mem_filter h)
  · exact List.mem_append_right _ (List.mem_of_mem_filter h)

/-! ## Dispatching from one state on -/

theorem advances_failedTasks (n : Nat) : (s.advances n).failedTasks = s.failedTasks := by
  induction n generalizing s with
  | zero => rfl
  | succ n ih => exact ih

theorem advances_paused (n : Nat) : (s.advances n).pausedSyncRoots = s.pausedSyncRoots := by
  induction n generalizing s with
  | zero => rfl
  | succ n ih => exact ih

theorem advances_dispatched {op : PlannedOperation} (h : op ∈ s.scheduler.dispatchedOperations) (n : Nat) :
    op ∈ (s.advances n).scheduler.dispatchedOperations := by
  induction n generalizing s with
  | zero => exact h
  | succ n ih => exact ih (List.mem_append_left _ h)

theorem advances_succ_last (s : EngineShell) (n : Nat) :
    s.advances (n + 1) = (s.advances n).advanceTransferCycle := by
  induction n generalizing s with
  | zero => rfl
  | succ n ih => exact ih s.advanceTransferCycle

theorem advances_queue_nil {n : Nat} (h : s.scheduler.queuedOperations.length ≤ n) :
    (s.advances n).scheduler.queuedOperations = [] := by
  induction n generalizing s with
  | zero => exact List.eq_nil_of_length_eq_zero (Nat.le_zero.mp h)
  | succ n ih =>
    refine ih ?_
    by_cases hempty : s.scheduler.queuedOperations = []
    · have hlen := s.scheduler.nextBatch_sublist.length_le
      rw [hempty] at hlen
      exact hlen.trans (Nat.zero_le n)
    · exact Nat.le_of_lt_succ ((advance_queue_lt hempty).trans_le h)

theorem nextBatch_eq_nil (h : s.scheduler.queuedOperations = []) : s.scheduler.nextBatch.1 = [] := by
  have hperm := s.scheduler.nextBatch_perm
  rw [h, List.perm_nil] at hperm
  exact (List.append_eq_nil_iff.mp hperm).1

theorem advances_idle (h : s.scheduler.queuedOperations = []) (n : Nat) :
    (s.advances (n + 1)).lastDispatchedBatch = [] := by
  have hqueue : (s.advances n).scheduler.queuedOperations = [] := by
    refine advances_queue_nil ?_
    rw [h]
    exact Nat.zero_le n
  rw [advances_succ_last]
  exact nextBatch_eq_nil hqueue

theorem advance_closes (h : s.scheduler.queuedOperations = []) :
    s.advanceTransferCycle.uploads.openLists.flatten = [] ∧
      s.advanceTransferCycle.downloads.openLists.flatten = [] := by
  have hbatch := nextBatch_eq_nil h
  simp [advanceTransferCycle, hbatch, UploadCoordinator.acceptBatch, DownloadCoordinator.acceptBatch,
    Coordinator.acceptBatch, Coordinator.started, Coordinator.openLists]

/-! ## Stranded tasks -/

/-- A task that is to be retried is nowhere but in the failed list and the dispatched
operations, and dispatching finds nothing from here on. -/
structure Stranded (s : EngineShell) (task : TransferTask) : Prop where
  failed : task ∈ s.failedTasks
  awaits : task.AwaitsRetry
  unpaused : task.operation.syncId ∉ s.pausedSyncRoots
  dispatched : task.operation ∈ s.scheduler.dispatchedOperations
  unqueued : task.operation ∉ s.scheduler.queuedOperations
  closed : ∀ other ∈ s.uploads.openLists.flatten ++ s.downloads.openLists.flatten,
    other.operation ≠ task.operation
  idle : ∀ n, (s.advances (n + 1)).lastDispatchedBatch = []

theorem exists_stranded {task : TransferTask} (hfailed : task ∈ s.failedTasks)
    (hawaits : task.AwaitsRetry) (hunpaused : task.operation.syncId ∉ s.pausedSyncRoots)
    (hdispatched : task.operation ∈ s.scheduler.dispatchedOperations) :
    ∃ n, (s.advances n).Stranded task := by
  set n := s.scheduler.queuedOperations.length with hn
  have hempty : (s.advances n).scheduler.queuedOperations = [] := advances_queue_nil le_rfl
  have hnext : (s.advances (n + 1)).scheduler.queuedOperations = [] := advances_queue_nil (by omega)
  obtain ⟨huploads, hdownloads⟩ := advance_closes hempty
  rw [← advances_succ_last] at huploads hdownloads
  refine ⟨n + 1, ⟨?_, hawaits, ?_, advances_dispatched hdispatched _, ?_, ?_, advances_idle hnext⟩⟩
  · rwa [advances_failedTasks]
  · rwa [advances_paused]
  · rw [hnext]
    exact List.not_mem_nil
  · rw [huploads, hdownloads]
    exact fun other hother => absurd hother List.not_mem_nil

/-- A transfer whose task is the first at its path fails, and its failure is to be retried later:
then dispatching alone strands it. -/
theorem failure_strands {side : Side} {task : TransferTask} {err : String}
    (hid : s.Identified side task (some (failureMessage err .RetryLater)))
    (hdispatched : task.operation ∈ s.scheduler.dispatchedOperations)
    (hunpaused : task.operation.syncId ∉ s.pausedSyncRoots) :
    ∃ n, ((Runtime.finishTransfer s task.operation (some (failureMessage err .RetryLater))).2.advances n).Stranded
      (task.ended (some (failureMessage err .RetryLater))) := by
  set message := failureMessage err .RetryLater with hmessage
  have hmark := Coordinator.mark_of_find hid.first (some message)
  have hawaits : (task.ended (some message)).AwaitsRetry := ⟨err, rfl⟩
  cases side with
  | Upload =>
    rw [finishTransfer_upload hmark]
    exact exists_stranded (by simp [failedTasks, withCoordinator, withDispatched, Coordinator.settled])
      hawaits hunpaused hdispatched
  | Download =>
    have hnone := (Coordinator.mark_eq_none (some message)).mpr (hid.noUpload rfl)
    rw [finishTransfer_download hnone hmark]
    exact exists_stranded (by simp [failedTasks, withCoordinator, withDispatched, Coordinator.settled])
      hawaits hunpaused hdispatched

end EngineShell

/-! ## Runs -/

namespace Daemon

variable (d : Daemon)

/-- No request of the upload fails on the network, and a nested file knows its parent folder. -/
def Delivers (operation : PlannedOperation) (answers : UploadAnswers) : Prop :=
  match operation with
  | .UploadFile _ path remoteParentFolderId _ =>
    (parentPath path = "" ∨ remoteParentFolderId.isSome) ∧
      (d.borrowUploadPayload path = none ∨ answers.create = .ok () ∧ answers.bytes = .ok ())
  | _ => True

/-- No transfer that the call executes fails in a way that is to be retried. -/
def NetworkHolds : DaemonCall → Prop
  | .executeDownloads answers => ∀ i task, d.engine.downloads.active[i]? = some task →
    Runtime.executesDownload task.operation = true →
      (answers i).link = .ok () ∧ ∃ written, (answers i).body = .ok written
  | .executeUploads answers => ∀ i task, d.engine.uploads.active[i]? = some task →
    d.Delivers task.operation (answers i)
  | _ => True

def NoneAwaits : Prop := ∀ task ∈ d.engine.failedTasks, ¬ task.AwaitsRetry

variable {d}

theorem failed_invalidPath_ne (operation : PlannedOperation) (err err' : String) :
    d.failed operation .InvalidPath err ≠ failureMessage err' .RetryLater := by
  intro heq
  have hdisposition := failureMessage_disposition heq
  cases hdisposition

theorem uploadFile_ne_retryLater {operation : PlannedOperation} {answers : UploadAnswers}
    (h : d.Delivers operation answers) (err : String) :
    (d.uploadFile operation answers).outcome ≠ some (failureMessage err .RetryLater) := by
  cases operation with
  | UploadFile syncId path parent name =>
    obtain ⟨hparent, hpayload⟩ := h
    obtain ⟨id, hid⟩ := resolveUploadParent_eq_ok.mpr hparent
    have hlength := d.resolveUploadPayloadLen_eq path
    simp only [uploadFile, hid]
    rcases hpayload with hnone | ⟨hcreate, hbytes⟩
    · rw [hnone] at hlength
      simp only [hlength, Option.map_none, ne_eq, Option.some.injEq]
      exact failed_invalidPath_ne _ _ _
    · cases hstaged : d.borrowUploadPayload path with
      | none =>
        rw [hstaged] at hlength
        simp only [hlength, Option.map_none, ne_eq, Option.some.injEq]
        exact failed_invalidPath_ne _ _ _
      | some staged =>
        rw [hstaged] at hlength
        simp [hlength, hcreate, hbytes]
  | _ => simp [uploadFile]

theorem executeTasks_noneAwaits {rt : Runtime} {tasks : List TransferTask}
    {executes : PlannedOperation → Bool} {outcomes : Runtime.Outcomes}
    (h : ∀ task ∈ rt.engine.failedTasks, ¬ task.AwaitsRetry)
    (hends : ∀ task i, tasks[i]? = some task → executes task.operation = true →
      ∀ err, outcomes i ≠ some (failureMessage err .RetryLater)) :
    ∀ task ∈ (rt.executeTasks tasks executes outcomes).2.engine.failedTasks, ¬ task.AwaitsRetry := by
  refine rt.executeTasks_invariant (I := fun engine => ∀ task ∈ engine.failedTasks, ¬ task.AwaitsRetry) h ?_
  intro task i htask hexec engine hnone failed hfailed
  rcases EngineShell.finishTransfer_failed hfailed with hold | ⟨message, houtcome, herror⟩
  · exact hnone failed hold
  · rintro ⟨err, hlater⟩
    rw [herror] at hlater
    exact hends task i htask hexec err (houtcome.trans hlater)

theorem noneAwaits_step (h : d.NoneAwaits) {call : DaemonCall} (hok : d.NetworkHolds call) :
    (d.step call).NoneAwaits := by
  unfold NoneAwaits
  cases call with
  | pollRemoteDiff root response =>
    simp only [step, engine, Runtime.pollRemoteDiff_engine, EngineShell.ingestSome_failedTasks]
    exact h
  | runLocalScan root input =>
    simp only [step, engine, Runtime.runLocalScan_engine, EngineShell.ingestSome_failedTasks]
    exact h
  | advanceTransfers =>
    simp only [step, engine, Runtime.advanceTransfers_engine]
    exact h
  | executeDownloads answers =>
    refine executeTasks_noneAwaits h ?_
    intro task i htask hexec err
    obtain ⟨hlink, written, hbody⟩ := hok i task htask hexec
    simp [downloadOutcomes, htask, downloadOutcome, hlink, hbody]
  | executeUploads answers =>
    refine executeTasks_noneAwaits h ?_
    intro task i htask hexec err
    simp only [uploadOutcomes, htask, Option.bind_some]
    exact uploadFile_ne_retryLater (hok i task htask) err
  | seedStagedFile syncId path bytes => exact h
  | evictRemovedRoot syncId =>
    intro task htask
    exact h task (EngineShell.evictSyncRoot_failedTasks htask)

theorem noneAwaits_new (roots : List SyncRootRecord) (store : Store) (fullScanInterval : Nat)
    (propagateDeletes : Bool) : (new roots store fullScanInterval propagateDeletes).NoneAwaits := by
  obtain ⟨paused, heq⟩ := Runtime.new_engine roots store fullScanInterval propagateDeletes
  intro task htask
  simp [engine, new, heq, EngineShell.failedTasks] at htask

/-- In a run where no transfer fails in a way that is to be retried, no task is ever stranded. -/
theorem none_stranded (roots : List SyncRootRecord) (store : Store) (fullScanInterval : Nat)
    (propagateDeletes : Bool) (calls : List DaemonCall)
    (h : AllSteps step NetworkHolds (new roots store fullScanInterval propagateDeletes) calls) :
    AllStates step (fun d => ∀ task, ¬ d.engine.Stranded task)
      (new roots store fullScanInterval propagateDeletes) calls := by
  refine h.allStates (noneAwaits_new roots store fullScanInterval propagateDeletes)
    (fun d call hnone hok => noneAwaits_step hnone hok) ?_
  intro d hnone task hstranded
  exact hnone task hstranded.failed hstranded.awaits

/-- Root 1 learns of the remote file `a` and downloads it well. -/
theorem none_stranded_download :
    let poll : DaemonCall := .pollRemoteDiff { syncId := ⟨1⟩, syncType := .Full }
      (some ⟨7, false, [⟨none, ⟨"a", false, some 5, none, some 0, false⟩⟩]⟩)
    AllStates step (fun d => ∀ task, ¬ d.engine.Stranded task) (new [] {} 300 true)
      [poll, .advanceTransfers, .executeDownloads fun _ => ⟨.ok (), .ok 3, .ok [1, 2, 3]⟩] := by
  refine none_stranded [] {} 300 true _ ⟨trivial, trivial, ?_, trivial⟩
  intro i task _ _
  exact ⟨rfl, 3, rfl⟩

/-- The server does not answer the download. Its task awaits a retry, and no call of the loop
will make one. -/
theorem download_stranded :
    let poll : DaemonCall := .pollRemoteDiff { syncId := ⟨1⟩, syncType := .Full }
      (some ⟨7, false, [⟨none, ⟨"a", false, some 5, none, some 0, false⟩⟩]⟩)
    (run step (new [] {} 300 true) [poll, .advanceTransfers,
      .executeDownloads fun _ => ⟨.error "timed out", .error "", .error ""⟩]).engine.Stranded
        ⟨.DownloadFile ⟨1⟩ "a" (some ⟨5⟩), .Failed, some "timed out; recovery=RetryLater"⟩ := by
  refine ⟨?_, ⟨"timed out", ?_⟩, ?_, ?_, ?_, ?_, EngineShell.advances_idle ?_⟩
  all_goals decide +kernel

end Daemon

end Pcloud
