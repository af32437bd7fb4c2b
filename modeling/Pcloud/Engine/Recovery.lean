import Pcloud.Engine.Transfers

/-!
# Recovery (`pcloud-engine/src/recovery.rs`, `pcloud-model/src/transfer.rs`)

The classifier maps a failure to what is to be done about it. The sync loop writes the answer at
the end of the message that the failed task keeps, and nowhere else.
-/

namespace Pcloud

inductive FailureDisposition where
  | RetryNow
  | RetryLater
  | ManualIntervention
  | Terminal
  deriving DecidableEq, Repr

inductive RecoveryFailure where
  | RetryableNetworkError
  | ChecksumMismatch
  | InvalidPath
  | PermissionDenied
  deriving DecidableEq, Repr

structure RecoveryDecision where
  operation : PlannedOperation
  disposition : FailureDisposition
  reason : String
  deriving DecidableEq, Repr

structure RecoveryManager where
  automaticRepairEnabled : Bool := true
  deriving DecidableEq, Repr

def RecoveryManager.classifyFailure (m : RecoveryManager) (operation : PlannedOperation)
    (failure : RecoveryFailure) : RecoveryDecision where
  operation
  disposition := match failure with
    | .RetryableNetworkError => if m.automaticRepairEnabled then .RetryLater else .ManualIntervention
    | .ChecksumMismatch => .ManualIntervention
    | .InvalidPath => .Terminal
    | .PermissionDenied => .ManualIntervention
  reason := match failure with
    | .RetryableNetworkError => "transient network failure should be retried"
    | .ChecksumMismatch => "checksum mismatch requires integrity review"
    | .InvalidPath => "invalid path is terminal until state is repaired"
    | .PermissionDenied => "permission denied requires operator intervention"

/-! ## The message of a failed task -/

/-- The name that `{:?}` prints. -/
def FailureDisposition.debug : FailureDisposition → String
  | .RetryNow => "RetryNow"
  | .RetryLater => "RetryLater"
  | .ManualIntervention => "ManualIntervention"
  | .Terminal => "Terminal"

def failureMessage (err : String) (disposition : FailureDisposition) : String :=
  err ++ "; recovery=" ++ disposition.debug

/-- The task failed and its failure is to be retried. -/
def TransferTask.AwaitsRetry (task : TransferTask) : Prop :=
  ∃ err, task.lastError = some (failureMessage err .RetryLater)

theorem failureMessage_last (err : String) (disposition : FailureDisposition) :
    (failureMessage err disposition).toList.getLast? = disposition.debug.toList.getLast? := by
  unfold failureMessage
  rw [String.toList_append, List.getLast?_append]
  cases disposition <;> rfl

theorem failureMessage_disposition {err err' : String} {d d' : FailureDisposition}
    (h : failureMessage err d = failureMessage err' d') : d = d' := by
  have hlast := failureMessage_last err d
  rw [h, failureMessage_last err' d'] at hlast
  revert hlast
  cases d <;> cases d' <;> simp [FailureDisposition.debug]

theorem awaitsRetry_iff {task : TransferTask} {err : String} {d : FailureDisposition}
    (h : task.lastError = some (failureMessage err d)) : task.AwaitsRetry ↔ d = .RetryLater := by
  constructor
  · rintro ⟨err', herr⟩
    rw [h] at herr
    exact failureMessage_disposition (Option.some.inj herr)
  · rintro rfl
    exact ⟨err, h⟩

end Pcloud
