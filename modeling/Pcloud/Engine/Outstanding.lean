import Pcloud.Lib.Runs
import Pcloud.Engine.Shell

/-!
# One outstanding dispatch for each path

A dispatch moves what it takes from the queue to the dispatched operations, where it waits for
its acknowledgement. An ingest plans anew what it is told of and looks only at the queue, so a
path that is reported again while its operation waits is dispatched a second time.
-/

open Runs

namespace Pcloud

/-- What an acknowledgement names. -/
def PlannedOperation.key (op : PlannedOperation) : SyncId × String := (op.syncId, op.path)

namespace EngineShell

def outstanding (s : EngineShell) : List (SyncId × String) :=
  s.scheduler.dispatchedOperations.map PlannedOperation.key

def DispatchedOnce (s : EngineShell) : Prop := s.outstanding.Nodup

/-- The batch plans nothing for a path whose operation is dispatched and not acknowledged. A
restored queue has no path twice. -/
def PlansNothingOutstanding (s : EngineShell) : EngineCall → Prop
  | .ingestCandidates candidates => ∀ op ∈ s.planned candidates {}, op.key ∉ s.outstanding
  | .ingestCandidatesFiltered candidates policy =>
    ∀ op ∈ s.planned candidates policy, op.key ∉ s.outstanding
  | .restoreSchedulerQueue operations => (operations.map PlannedOperation.key).Nodup
  | _ => True

/-- No path is both queued and dispatched, or either of it twice. -/
def Once (s : EngineShell) : Prop :=
  ((s.scheduler.queuedOperations ++ s.scheduler.dispatchedOperations).map PlannedOperation.key).Nodup

variable {s : EngineShell}

/-! ## Ingest -/

/-- What an ingest leaves in the queue of what was there. -/
def keptQueue (s : EngineShell) (candidates : List SyncCandidate) : List PlannedOperation :=
  match singleSyncId (s.plannerOverflow ++ candidates) with
  | some syncId => s.scheduler.queuedOperations.filter fun op => op.syncId ≠ syncId
  | none => []

theorem ingest_queue_perm (candidates : List SyncCandidate) (policy : DeletePolicy) :
    (s.ingestCandidatesFiltered candidates policy).scheduler.queuedOperations.Perm
      (s.keptQueue candidates ++ s.planned candidates policy) := by
  unfold keptQueue
  rw [ingestCandidatesFiltered_eq, enqueue]
  cases singleSyncId (s.plannerOverflow ++ candidates) with
  | none => exact List.perm_insertionSort PlannedOperation.Before _
  | some syncId => exact List.perm_insertionSort PlannedOperation.Before _

theorem keptQueue_sublist (candidates : List SyncCandidate) :
    (s.keptQueue candidates).Sublist s.scheduler.queuedOperations := by
  unfold keptQueue
  split
  · exact List.filter_sublist
  · exact List.nil_sublist _

theorem planned_keys_nodup (candidates : List SyncCandidate) (policy : DeletePolicy) :
    ((s.planned candidates policy).map PlannedOperation.key).Nodup := by
  have hpaths : ((s.planner.plan (s.plannerOverflow ++ candidates)).map (·.path)).Nodup :=
    (s.planner.plan_paths _).imp fun h => ne_of_lt h
  have hsub : ((s.planned candidates policy).map (·.path)).Nodup :=
    hpaths.sublist (List.filter_sublist.map _)
  apply List.Nodup.of_map Prod.snd
  rwa [List.map_map]

theorem kept_ne_planned {candidates : List SyncCandidate} {policy : DeletePolicy}
    {a b : PlannedOperation} (ha : a ∈ s.keptQueue candidates) (hb : b ∈ s.planned candidates policy) :
    a.key ≠ b.key := by
  unfold keptQueue at ha
  split at ha
  · rename_i syncId hsingle
    have hne : a.syncId ≠ syncId := by simpa using (List.mem_filter.mp ha).2
    obtain ⟨c, hc, hid, -⟩ := planned_from hb
    have hroot : b.syncId = syncId := hid.trans ((singleSyncId_eq_some.mp hsingle).2 c hc)
    intro hkey
    exact hne ((congrArg Prod.fst hkey).trans hroot)
  · cases ha

theorem once_ingest_iff (h : s.Once) (candidates : List SyncCandidate) (policy : DeletePolicy) :
    (s.ingestCandidatesFiltered candidates policy).Once ↔
      ∀ op ∈ s.planned candidates policy, op.key ∉ s.outstanding := by
  set kept := s.keptQueue candidates with hkept
  set planned := s.planned candidates policy with hplanned
  set dispatched := s.scheduler.dispatchedOperations with hdispatched
  have hperm : ((s.ingestCandidatesFiltered candidates policy).scheduler.queuedOperations ++
      dispatched).Perm (planned ++ (kept ++ dispatched)) := by
    refine ((ingest_queue_perm candidates policy).append_right dispatched).trans ?_
    rw [← List.append_assoc]
    exact List.perm_append_comm.append_right dispatched
  have hold : ((kept ++ dispatched).map PlannedOperation.key).Nodup :=
    List.Nodup.sublist (((keptQueue_sublist candidates).append_right dispatched).map _) h
  rw [Once, ingest_dispatched, (hperm.map _).nodup_iff, List.map_append, List.nodup_append]
  constructor
  · rintro ⟨-, -, hdisjoint⟩ op hop hout
    refine hdisjoint op.key (List.mem_map_of_mem hop) op.key ?_ rfl
    rw [List.map_append]
    exact List.mem_append_right _ hout
  · intro hnew
    refine ⟨planned_keys_nodup candidates policy, hold, ?_⟩
    intro key hkey other hother heq
    subst heq
    obtain ⟨op, hop, rfl⟩ := List.mem_map.mp hkey
    rw [List.map_append] at hother
    rcases List.mem_append.mp hother with hother | hother
    · obtain ⟨old, hold, hkeys⟩ := List.mem_map.mp hother
      exact kept_ne_planned hold hop hkeys
    · exact hnew op hop hother

/-! ## One call -/

theorem Once.of_sublist {s' : EngineShell} (h : s.Once)
    (hqueue : s'.scheduler.queuedOperations.Sublist s.scheduler.queuedOperations)
    (hdispatched : s'.scheduler.dispatchedOperations.Sublist s.scheduler.dispatchedOperations) :
    s'.Once :=
  List.Nodup.sublist ((hqueue.append hdispatched).map _) h

theorem advance_perm (s : EngineShell) :
    (s.advanceTransferCycle.scheduler.queuedOperations ++
      s.advanceTransferCycle.scheduler.dispatchedOperations).Perm
      (s.scheduler.queuedOperations ++ s.scheduler.dispatchedOperations) := by
  have hbatch := s.scheduler.nextBatch_perm.append_right s.scheduler.dispatchedOperations
  refine List.Perm.trans ?_ hbatch
  change (s.scheduler.nextBatch.2.queuedOperations ++
    (s.scheduler.dispatchedOperations ++ s.scheduler.nextBatch.1)).Perm _
  rw [← List.append_assoc, List.append_assoc s.scheduler.nextBatch.1]
  exact List.perm_append_comm

theorem once_dropWork (h : s.Once) (syncId : SyncId) : (s.dropWork syncId).Once :=
  Once.of_sublist h List.filter_sublist List.filter_sublist

theorem once_step_iff (h : s.Once) (call : EngineCall) :
    (s.step call).Once ↔ s.PlansNothingOutstanding call := by
  rcases call with c | ⟨c, p⟩ | _ | p | ⟨p, e⟩ | ⟨i, p⟩ | i | i | i | c | o
  case ingestCandidates =>
    simp only [step, ingestCandidates_eq, PlansNothingOutstanding]
    exact once_ingest_iff h c {}
  case ingestCandidatesFiltered => exact once_ingest_iff h c p
  case restoreSchedulerQueue =>
    have hperm : ((s.restoreSchedulerQueue o).scheduler.queuedOperations ++ []).Perm o := by
      rw [List.append_nil]
      exact List.perm_insertionSort PlannedOperation.Before o
    exact (hperm.map PlannedOperation.key).nodup_iff
  -- No other call queues anything.
  all_goals refine iff_of_true ?_ trivial
  case advanceTransferCycle => exact ((s.advance_perm.map _).nodup_iff).mpr h
  case markTransferCompleted =>
    simp only [step, Once, markTransferCompleted_scheduler]
    exact h
  case markTransferFailed =>
    simp only [step, Once, markTransferFailed_scheduler]
    exact h
  case ackDispatchedPath => exact Once.of_sublist h (List.Sublist.refl _) List.filter_sublist
  case restorePlannerOverflow => exact h
  case resumeSyncRoot => exact h
  case evictSyncRoot => exact once_dropWork h i
  case pauseSyncRoot =>
    simp only [step, pauseSyncRoot]
    split
    · exact h
    · exact once_dropWork h i

/-! ## Dispatching from one state on -/

def advances (s : EngineShell) (n : Nat) : EngineShell :=
  run step s (List.replicate n .advanceTransferCycle)

theorem once_advances (h : s.Once) (n : Nat) : (s.advances n).Once := by
  induction n generalizing s with
  | zero => exact h
  | succ n ih => exact ih ((once_step_iff h .advanceTransferCycle).mpr trivial)

theorem DispatchedOnce.of_once (h : s.Once) : s.DispatchedOnce := by
  unfold Once at h
  rw [List.map_append] at h
  exact h.of_append_right

theorem advance_queue_lt (h : s.scheduler.queuedOperations ≠ []) :
    s.advanceTransferCycle.scheduler.queuedOperations.length <
      s.scheduler.queuedOperations.length := by
  have hlen := s.scheduler.nextBatch_perm.length_eq
  have hpos := List.length_pos_of_ne_nil (s.scheduler.nextBatch_ne_nil h)
  rw [List.length_append] at hlen
  change s.scheduler.nextBatch.2.queuedOperations.length < _
  omega

/-- Enough dispatches empty the queue, so what is queued twice is dispatched twice. -/
theorem once_of_advances (h : ∀ n, (s.advances n).DispatchedOnce) : s.Once := by
  induction hn : s.scheduler.queuedOperations.length using Nat.strong_induction_on generalizing s with
  | _ n ih =>
    by_cases hempty : s.scheduler.queuedOperations = []
    · unfold Once
      rw [hempty]
      exact h 0
    · have hlt := advance_queue_lt hempty
      have hnext := ih _ (hn ▸ hlt) (fun k => h (k + 1)) rfl
      exact ((s.advance_perm.map _).nodup_iff).mp hnext

theorem once_iff_advances : (∀ n, (s.advances n).DispatchedOnce) ↔ s.Once :=
  ⟨once_of_advances, fun h n => .of_once (once_advances h n)⟩

/-! ## Whole runs -/

/-- Along a run, and however often one dispatches from any of its states on, no path is
dispatched twice at a time: exactly when no ingest plans a path that is still outstanding. -/
theorem dispatchedOnce_run_iff (m : Nat) (up down : UInt64) (calls : List EngineCall) :
    AllStates step (fun s => ∀ n, (s.advances n).DispatchedOnce) (fresh m up down) calls ↔
      AllSteps step PlansNothingOutstanding (fresh m up down) calls := by
  simp only [once_iff_advances]
  refine allStates_iff_allSteps (fun s call h => once_step_iff h call) ?_
  exact List.nodup_nil

/-- Two full scans report the same file before its upload is acknowledged. -/
theorem full_scans_dispatch_twice :
    let scan : EngineCall := .ingestCandidates [⟨⟨1⟩, .Local, "a", .File, .Upsert, none, none⟩]
    ¬ (run step (fresh 1024 4 4) [scan, .advanceTransferCycle, scan, .advanceTransferCycle]).DispatchedOnce := by
  unfold DispatchedOnce
  decide +kernel

end EngineShell

end Pcloud
