import Mathlib.Data.Finset.Basic
import Pcloud.Engine.RootGroups
import Pcloud.Engine.Scheduler
import Pcloud.Engine.Transfers
import Pcloud.Lib.Reps

/-!
# The engine (`pcloud-engine/src/lib.rs`)

`EngineShell` wires the planner, the scheduler and the two coordinators. Its methods are
functions from one shell to the next; a method that also answers returns the answer first.
-/

namespace Pcloud

def plannerOverflowMax : Nat := 100000

/-- The root of all candidates, when there is exactly one. -/
def singleSyncId : List SyncCandidate → Option SyncId
  | [] => none
  | first :: rest =>
    if (first :: rest).all (fun c => c.syncId = first.syncId) then some first.syncId else none

structure EngineShell where
  planner : Planner := {}
  scheduler : Scheduler := {}
  downloads : DownloadCoordinator := {}
  uploads : UploadCoordinator := {}
  pausedSyncRoots : Finset SyncId := ∅
  plannerOverflow : List SyncCandidate := []
  pendingWatcherEvictions : List SyncId := []
  lastDispatchedBatch : List PlannedOperation := []
  deriving DecidableEq

namespace EngineShell

def fresh (maxOperationsPerTick : Nat) (maxParallelUploads maxParallelDownloads : UInt64) : EngineShell :=
  { planner := ⟨maxOperationsPerTick⟩, scheduler := { maxParallelUploads, maxParallelDownloads } }

variable (s : EngineShell)

/-! ## Ingest -/

def mergeWithOverflow (candidates : List SyncCandidate) : List SyncCandidate :=
  if s.plannerOverflow.isEmpty then candidates else s.plannerOverflow ++ candidates

def capOverflow (overflow : List SyncCandidate) : List SyncCandidate :=
  overflow.take plannerOverflowMax

/-- How both ingests end. The queue is replaced for one root, or as a whole. -/
def enqueue (combined : List SyncCandidate) (operations : List PlannedOperation)
    (overflow : List SyncCandidate) : EngineShell :=
  { s with
    plannerOverflow := capOverflow overflow
    scheduler := match singleSyncId combined with
      | some syncId => s.scheduler.replaceQueueForSyncId syncId operations
      | none => s.scheduler.replaceQueue operations }

def ingestCandidates (candidates : List SyncCandidate) : EngineShell :=
  let combined := s.mergeWithOverflow candidates
  let (operations, overflow) := s.planner.planWithOverflow combined
  s.enqueue combined operations overflow

def ingestCandidatesFiltered (candidates : List SyncCandidate) (deletePolicy : DeletePolicy) :
    EngineShell :=
  let combined := s.mergeWithOverflow candidates
  let (operations, overflow) := s.planner.planFilteredWithOverflow combined deletePolicy
  s.enqueue combined operations overflow

def restorePlannerOverflow (candidates : List SyncCandidate) : EngineShell :=
  { s with plannerOverflow := candidates }

/-! ## Transfers -/

def advanceTransferCycle : EngineShell :=
  let (batch, scheduler) := s.scheduler.nextBatch
  { s with
    scheduler
    uploads := s.uploads.acceptBatch batch
    downloads := DownloadCoordinator.acceptBatch s.downloads batch
    lastDispatchedBatch := batch }

def markTransferCompleted (path : String) : Bool × EngineShell :=
  match s.uploads.markCompleted path with
  | some uploads => (true, { s with uploads })
  | none => match s.downloads.markCompleted path with
    | some downloads => (true, { s with downloads })
    | none => (false, s)

def markTransferFailed (path error : String) : Bool × EngineShell :=
  match s.uploads.markFailed path error with
  | some uploads => (true, { s with uploads })
  | none => match s.downloads.markFailed path error with
    | some downloads => (true, { s with downloads })
    | none => (false, s)

def ackDispatchedPath (syncId : SyncId) (path : String) : EngineShell :=
  { s with scheduler := s.scheduler.ackBatch [(syncId, path)] }

/-! ## Roots -/

def dropWork (syncId : SyncId) : EngineShell :=
  { s with
    scheduler := s.scheduler.evictSyncId syncId
    uploads := s.uploads.evictSyncId syncId
    downloads := s.downloads.evictSyncId syncId }

def evictSyncRoot (syncId : SyncId) : EngineShell :=
  let s := s.dropWork syncId
  { s with
    pausedSyncRoots := s.pausedSyncRoots.erase syncId
    pendingWatcherEvictions :=
      if s.pendingWatcherEvictions.contains syncId then s.pendingWatcherEvictions
      else s.pendingWatcherEvictions ++ [syncId] }

def pauseSyncRoot (syncId : SyncId) : Bool × EngineShell :=
  if syncId ∈ s.pausedSyncRoots then (false, s)
  else (true, { s.dropWork syncId with pausedSyncRoots := insert syncId s.pausedSyncRoots })

def resumeSyncRoot (syncId : SyncId) : Bool × EngineShell :=
  (decide (syncId ∈ s.pausedSyncRoots), { s with pausedSyncRoots := s.pausedSyncRoots.erase syncId })

/-! ## The durable queue -/

/-- The order of the persisted queue: root, priority, path. -/
def DurableBefore (a b : PlannedOperation) : Prop :=
  a.syncId.get < b.syncId.get ∨ a.syncId.get = b.syncId.get ∧ PlannedOperation.Before a b

instance : DecidableRel DurableBefore :=
  fun a b => inferInstanceAs (Decidable (a.syncId.get < b.syncId.get ∨
    a.syncId.get = b.syncId.get ∧ PlannedOperation.Before a b))

/-- Queued and dispatched operations, sorted, neighbours of one root and path merged. -/
def snapshotSchedulerDurable : List PlannedOperation :=
  let combined := s.scheduler.queuedOperations ++ s.scheduler.dispatchedOperations
  (combined.insertionSort DurableBefore).eraseRepsBy
    fun a b => a.syncId = b.syncId ∧ a.path = b.path

def restoreSchedulerQueue (operations : List PlannedOperation) : EngineShell :=
  { s with scheduler := { s.scheduler.replaceQueue operations with dispatchedOperations := [] } }

end EngineShell

/-! ## The root of a batch -/

theorem singleSyncId_eq_some {candidates : List SyncCandidate} {syncId : SyncId} :
    singleSyncId candidates = some syncId ↔
      candidates ≠ [] ∧ ∀ c ∈ candidates, c.syncId = syncId := by
  cases candidates with
  | nil => simp [singleSyncId]
  | cons first rest =>
    rw [singleSyncId]
    constructor
    · intro h
      split at h
      · rename_i hall
        rw [← Option.some.inj h]
        exact ⟨by simp, by simpa using hall⟩
      · cases h
    · rintro ⟨-, hall⟩
      have hfirst := hall first List.mem_cons_self
      rw [if_pos (by simpa [hfirst] using hall), hfirst]

@[simp]
theorem DeletePolicy.suppresses_default (op : PlannedOperation) :
    ({} : DeletePolicy).suppresses op = false := by
  cases op <;> rfl

namespace EngineShell

variable (s : EngineShell) (candidates : List SyncCandidate) (policy : DeletePolicy)

theorem markTransferCompleted_eq (path : String) :
    ∃ uploads downloads, downloads.active.Sublist s.downloads.active ∧
      (s.markTransferCompleted path).2 = { s with uploads, downloads } := by
  unfold markTransferCompleted
  split
  · exact ⟨_, s.downloads, List.Sublist.refl _, rfl⟩
  · split
    · rename_i hmark
      exact ⟨s.uploads, _, (Coordinator.markCompleted_moves hmark).active_sublist, rfl⟩
    · exact ⟨s.uploads, s.downloads, List.Sublist.refl _, rfl⟩

theorem markTransferFailed_eq (path error : String) :
    ∃ uploads downloads, downloads.active.Sublist s.downloads.active ∧
      (s.markTransferFailed path error).2 = { s with uploads, downloads } := by
  unfold markTransferFailed
  split
  · exact ⟨_, s.downloads, List.Sublist.refl _, rfl⟩
  · split
    · rename_i hmark
      exact ⟨s.uploads, _, (Coordinator.markFailed_moves hmark).active_sublist, rfl⟩
    · exact ⟨s.uploads, s.downloads, List.Sublist.refl _, rfl⟩

@[simp]
theorem markTransferCompleted_scheduler (path : String) :
    (s.markTransferCompleted path).2.scheduler = s.scheduler := by
  obtain ⟨uploads, downloads, -, heq⟩ := s.markTransferCompleted_eq path
  rw [heq]

@[simp]
theorem markTransferFailed_scheduler (path error : String) :
    (s.markTransferFailed path error).2.scheduler = s.scheduler := by
  obtain ⟨uploads, downloads, -, heq⟩ := s.markTransferFailed_eq path error
  rw [heq]

theorem snapshot_subset {op : PlannedOperation} (h : op ∈ s.snapshotSchedulerDurable) :
    op ∈ s.scheduler.queuedOperations ++ s.scheduler.dispatchedOperations := by
  have hsorted := Reps.mem_of_mem_eraseRepsBy h
  rwa [List.mem_insertionSort] at hsorted

theorem mergeWithOverflow_eq : s.mergeWithOverflow candidates = s.plannerOverflow ++ candidates := by
  unfold mergeWithOverflow
  split
  · rename_i h
    simp [List.isEmpty_iff.mp h]
  · rfl

theorem ingestCandidates_eq :
    s.ingestCandidates candidates = s.ingestCandidatesFiltered candidates {} := by
  simp [ingestCandidates, ingestCandidatesFiltered, Planner.planFilteredWithOverflow]

/-- What is planned by an ingest and not suppressed. -/
def planned : List PlannedOperation :=
  (s.planner.plan (s.plannerOverflow ++ candidates)).filter fun op => !policy.suppresses op

theorem ingestCandidatesFiltered_eq :
    s.ingestCandidatesFiltered candidates policy =
      s.enqueue (s.plannerOverflow ++ candidates) (s.planned candidates policy)
        (s.planner.planWithOverflow (s.plannerOverflow ++ candidates)).2 := by
  rw [ingestCandidatesFiltered, mergeWithOverflow_eq]
  rfl

@[simp]
theorem ingest_overflow : (s.ingestCandidatesFiltered candidates policy).plannerOverflow =
    capOverflow (s.planner.planWithOverflow (s.plannerOverflow ++ candidates)).2 := by
  rw [ingestCandidatesFiltered_eq]
  rfl

@[simp]
theorem ingest_planner : (s.ingestCandidatesFiltered candidates policy).planner = s.planner := by
  rw [ingestCandidatesFiltered_eq]
  rfl

@[simp]
theorem ingest_paused :
    (s.ingestCandidatesFiltered candidates policy).pausedSyncRoots = s.pausedSyncRoots := by
  rw [ingestCandidatesFiltered_eq]
  rfl

@[simp]
theorem ingest_uploads : (s.ingestCandidatesFiltered candidates policy).uploads = s.uploads := by
  rw [ingestCandidatesFiltered_eq]
  rfl

@[simp]
theorem ingest_downloads : (s.ingestCandidatesFiltered candidates policy).downloads = s.downloads := by
  rw [ingestCandidatesFiltered_eq]
  rfl

@[simp]
theorem ingest_dispatched :
    (s.ingestCandidatesFiltered candidates policy).scheduler.dispatchedOperations =
      s.scheduler.dispatchedOperations := by
  rw [ingestCandidatesFiltered_eq, enqueue]
  cases singleSyncId (s.plannerOverflow ++ candidates) <;> rfl

variable {s candidates policy}

theorem mem_ingest_queue {op : PlannedOperation} :
    op ∈ (s.ingestCandidatesFiltered candidates policy).scheduler.queuedOperations ↔
      (∃ syncId, singleSyncId (s.plannerOverflow ++ candidates) = some syncId ∧
        op ∈ s.scheduler.queuedOperations ∧ op.syncId ≠ syncId) ∨
      op ∈ s.planned candidates policy := by
  rw [ingestCandidatesFiltered_eq, enqueue]
  cases h : singleSyncId (s.plannerOverflow ++ candidates) with
  | none => simp
  | some syncId => simp

theorem mem_planned {op : PlannedOperation} :
    op ∈ s.planned candidates policy ↔
      policy.suppresses op = false ∧ ∃ p ∈ pathsOf (s.plannerOverflow ++ candidates),
        Due s.planner.maxOperationsPerTick (s.plannerOverflow ++ candidates) p ∧
        planPair (lastAt .Local p (s.plannerOverflow ++ candidates))
          (lastAt .Remote p (s.plannerOverflow ++ candidates)) = some op := by
  rw [planned, List.mem_filter, Planner.mem_plan, and_comm]
  simp

theorem planned_from {op : PlannedOperation} (h : op ∈ s.planned candidates policy) :
    ∃ c ∈ s.plannerOverflow ++ candidates, op.syncId = c.syncId ∧ op.path = c.path := by
  obtain ⟨-, p, -, -, hplan⟩ := mem_planned.mp h
  obtain ⟨hpath, c, hc, hcp, hid⟩ := planPair_lastAt_from hplan
  exact ⟨c, hc, hid, hpath.trans hcp.symm⟩

theorem mem_ingest_overflow {c : SyncCandidate}
    (hlen : (s.plannerOverflow ++ candidates).length ≤ plannerOverflowMax) :
    c ∈ (s.ingestCandidatesFiltered candidates policy).plannerOverflow ↔
      c ∈ s.plannerOverflow ++ candidates ∧
        ¬ Due s.planner.maxOperationsPerTick (s.plannerOverflow ++ candidates) c.path := by
  have hcut : (s.planner.planWithOverflow (s.plannerOverflow ++ candidates)).2.length ≤
      plannerOverflowMax := by
    rw [Planner.planWithOverflow_overflow]
    refine (List.length_filter_le _ _).trans ?_
    rw [List.length_insertionSort]
    exact hlen
  rw [ingest_overflow, capOverflow, List.take_of_length_le hcut, Planner.mem_overflow]

theorem exists_planned_of_due {c : SyncCandidate} (hc : c ∈ s.plannerOverflow ++ candidates)
    (hdue : Due s.planner.maxOperationsPerTick (s.plannerOverflow ++ candidates) c.path) :
    ∃ op ∈ s.planned candidates {}, op.path = c.path := by
  obtain ⟨op, hop⟩ := planPair_lastAt_isSome hc
  refine ⟨op, mem_planned.mpr ⟨DeletePolicy.suppresses_default op, c.path, ?_, hdue, hop⟩, ?_⟩
  · exact mem_pathsOf.mpr ⟨c, hc, rfl⟩
  · exact (planPair_lastAt_from hop).1

theorem ingest_overflow_subset {c : SyncCandidate}
    (h : c ∈ (s.ingestCandidatesFiltered candidates policy).plannerOverflow) :
    c ∈ s.plannerOverflow ++ candidates := by
  rw [ingest_overflow, capOverflow] at h
  exact ((s.planner.mem_overflow _).mp (List.mem_of_mem_take h)).1

theorem ingest_overflow_length_le :
    (s.ingestCandidatesFiltered candidates policy).plannerOverflow.length ≤
      (s.plannerOverflow ++ candidates).length := by
  rw [ingest_overflow, capOverflow, Planner.planWithOverflow_overflow]
  refine (List.length_take_le' _ _).trans ((List.length_filter_le _ _).trans ?_)
  rw [List.length_insertionSort]

end EngineShell

/-! ## Calls -/

inductive EngineCall where
  | ingestCandidates (candidates : List SyncCandidate)
  | ingestCandidatesFiltered (candidates : List SyncCandidate) (deletePolicy : DeletePolicy)
  | advanceTransferCycle
  | markTransferCompleted (path : String)
  | markTransferFailed (path error : String)
  | ackDispatchedPath (syncId : SyncId) (path : String)
  | pauseSyncRoot (syncId : SyncId)
  | resumeSyncRoot (syncId : SyncId)
  | evictSyncRoot (syncId : SyncId)
  | restorePlannerOverflow (candidates : List SyncCandidate)
  | restoreSchedulerQueue (operations : List PlannedOperation)
  deriving DecidableEq, Repr

def EngineShell.step (s : EngineShell) : EngineCall → EngineShell
  | .ingestCandidates candidates => s.ingestCandidates candidates
  | .ingestCandidatesFiltered candidates policy => s.ingestCandidatesFiltered candidates policy
  | .advanceTransferCycle => s.advanceTransferCycle
  | .markTransferCompleted path => (s.markTransferCompleted path).2
  | .markTransferFailed path error => (s.markTransferFailed path error).2
  | .ackDispatchedPath syncId path => s.ackDispatchedPath syncId path
  | .pauseSyncRoot syncId => (s.pauseSyncRoot syncId).2
  | .resumeSyncRoot syncId => (s.resumeSyncRoot syncId).2
  | .evictSyncRoot syncId => s.evictSyncRoot syncId
  | .restorePlannerOverflow candidates => s.restorePlannerOverflow candidates
  | .restoreSchedulerQueue operations => s.restoreSchedulerQueue operations

end Pcloud
