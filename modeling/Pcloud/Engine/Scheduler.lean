import Mathlib.Data.List.Sort
import Mathlib.Data.String.Basic
import Pcloud.Lib.FairTake
import Pcloud.Model.Sync

/-!
# The scheduler (`pcloud-engine/src/scheduler.rs`)

The queue of planned operations, and the operations that were handed out and not yet
acknowledged.
-/

open FairTake

namespace Pcloud

/-- The order of the queue: priority first, then path. -/
def PlannedOperation.Before (left right : PlannedOperation) : Prop :=
  left.priority < right.priority ∨ left.priority = right.priority ∧ left.path ≤ right.path

instance : DecidableRel PlannedOperation.Before :=
  fun left right => inferInstanceAs (Decidable (left.priority < right.priority ∨
    left.priority = right.priority ∧ left.path ≤ right.path))

instance : Std.Total PlannedOperation.Before where
  total a b := by
    rcases lt_trichotomy a.priority b.priority with h | h | h
    · exact .inl (.inl h)
    · exact (le_total a.path b.path).imp (fun hp => .inr ⟨h, hp⟩) (fun hp => .inr ⟨h.symm, hp⟩)
    · exact .inr (.inl h)

instance : IsTrans PlannedOperation PlannedOperation.Before where
  trans a b c hab hbc := by
    rcases hab with hab | ⟨hab, hpab⟩ <;> rcases hbc with hbc | ⟨hbc, hpbc⟩
    · exact .inl (hab.trans hbc)
    · exact .inl (hbc ▸ hab)
    · exact .inl (hab ▸ hbc)
    · exact .inr ⟨hab.trans hbc, hpab.trans hpbc⟩

structure Scheduler where
  maxParallelUploads : UInt64 := 4
  maxParallelDownloads : UInt64 := 4
  queuedOperations : List PlannedOperation := []
  dispatchedOperations : List PlannedOperation := []
  deriving DecidableEq, Repr

namespace Scheduler

variable (s : Scheduler)

def replaceQueue (operations : List PlannedOperation) : Scheduler :=
  { s with queuedOperations := operations.insertionSort PlannedOperation.Before }

def replaceQueueForSyncId (syncId : SyncId) (operations : List PlannedOperation) : Scheduler :=
  let merged := s.queuedOperations.filter (fun op => op.syncId ≠ syncId) ++ operations
  { s with queuedOperations := merged.insertionSort PlannedOperation.Before }

def evictSyncId (syncId : SyncId) : Scheduler :=
  { s with
    queuedOperations := s.queuedOperations.filter fun op => op.syncId ≠ syncId
    dispatchedOperations := s.dispatchedOperations.filter fun op => op.syncId ≠ syncId }

/-- The sum wraps around, as in a release build. -/
def globalLimit : Nat := max (s.maxParallelUploads + s.maxParallelDownloads).toNat 1

def perRootCap : Nat :=
  let numRoots := max (s.queuedOperations.map (·.syncId)).dedup.length 1
  max ((s.globalLimit + numRoots - 1) / numRoots) 1

def takeFairBatch : List PlannedOperation × List PlannedOperation :=
  fairTake PlannedOperation.syncId s.globalLimit s.perRootCap (fun _ => 0) 0 s.queuedOperations

def nextBatch : List PlannedOperation × Scheduler :=
  let (batch, queue) := s.takeFairBatch
  (batch, { s with
    queuedOperations := queue
    dispatchedOperations := s.dispatchedOperations ++ batch })

def ackBatch (items : List (SyncId × String)) : Scheduler :=
  { s with
    dispatchedOperations := s.dispatchedOperations.filter fun op => (op.syncId, op.path) ∉ items }

/-! ## What each operation does to the queue -/

@[simp]
theorem mem_replaceQueue {operations : List PlannedOperation} {op : PlannedOperation} :
    op ∈ (s.replaceQueue operations).queuedOperations ↔ op ∈ operations := by
  simp [replaceQueue]

@[simp]
theorem mem_replaceQueueForSyncId {syncId : SyncId} {operations : List PlannedOperation}
    {op : PlannedOperation} :
    op ∈ (s.replaceQueueForSyncId syncId operations).queuedOperations ↔
      op ∈ s.queuedOperations ∧ op.syncId ≠ syncId ∨ op ∈ operations := by
  simp [replaceQueueForSyncId]

theorem nextBatch_sublist : s.nextBatch.2.queuedOperations.Sublist s.queuedOperations :=
  fairTake_rest_sublist _ _ _

theorem nextBatch_perm :
    (s.nextBatch.1 ++ s.nextBatch.2.queuedOperations).Perm s.queuedOperations :=
  fairTake_perm _ _ _

theorem mem_nextBatch {op : PlannedOperation} :
    op ∈ s.queuedOperations ↔ op ∈ s.nextBatch.1 ∨ op ∈ s.nextBatch.2.queuedOperations := by
  rw [← s.nextBatch_perm.mem_iff, List.mem_append]

theorem nextBatch_ne_nil (h : s.queuedOperations ≠ []) : s.nextBatch.1 ≠ [] :=
  fairTake_ne_nil (by simp [globalLimit]) (by simp [perRootCap]) h

theorem head_mem_nextBatch {op : PlannedOperation} {rest : List PlannedOperation}
    (h : s.queuedOperations = op :: rest) : op ∈ s.nextBatch.1 := by
  unfold nextBatch takeFairBatch
  rw [h]
  exact mem_fairTake_head (by simp [globalLimit]) (by simp [perRootCap])

end Scheduler

end Pcloud
