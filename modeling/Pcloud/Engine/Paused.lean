import Pcloud.Lib.Runs
import Pcloud.Engine.Shell

/-!
# Paused and evicted roots

A root is blocked while it is paused, and from its eviction until a candidate of it is
ingested. A dispatch takes what is queued and does not look at the paused set, so blocked
roots stay out of it exactly as long as no call queues an operation for them.
-/

open Runs

namespace Pcloud

/-- The engine, and the evicted roots with no candidate ingested since. -/
structure Watched where
  engine : EngineShell
  evicted : Finset SyncId

namespace Watched

def start (m : Nat) (up down : UInt64) : Watched := ⟨EngineShell.fresh m up down, ∅⟩

def evictedAfter (w : Watched) : EngineCall → Finset SyncId
  | .ingestCandidates candidates | .ingestCandidatesFiltered candidates _ =>
    w.evicted.filter fun syncId => ∀ c ∈ candidates, c.syncId ≠ syncId
  | .evictSyncRoot syncId => insert syncId w.evicted
  | _ => w.evicted

def step (w : Watched) (call : EngineCall) : Watched := ⟨w.engine.step call, w.evictedAfter call⟩

def Blocked (w : Watched) (syncId : SyncId) : Prop :=
  syncId ∈ w.engine.pausedSyncRoots ∨ syncId ∈ w.evicted

def CleanAdvance (w : Watched) (call : EngineCall) : Prop :=
  call = .advanceTransferCycle →
    ∀ op ∈ w.engine.advanceTransferCycle.lastDispatchedBatch, ¬ w.Blocked op.syncId

/-- At every point of the run, dispatches from there on never return a blocked root. -/
def NeverDispatchesBlocked (w : Watched) (calls : List EngineCall) : Prop :=
  ∀ before after, calls = before ++ after → ∀ n,
    AllSteps step CleanAdvance w (before ++ List.replicate n .advanceTransferCycle)

def enqueues (w : Watched) : EngineCall → List PlannedOperation
  | .ingestCandidates candidates => w.engine.planned candidates {}
  | .ingestCandidatesFiltered candidates policy => w.engine.planned candidates policy
  | .restoreSchedulerQueue operations => operations
  | _ => []

/-- The call plans or restores nothing for a root that is paused, or evicted without a
candidate since. -/
def EnqueuesUnblocked (w : Watched) (call : EngineCall) : Prop :=
  ∀ op ∈ w.enqueues call, op.syncId ∉ w.engine.pausedSyncRoots ∧ op.syncId ∉ w.evictedAfter call

def QueueClean (w : Watched) : Prop :=
  ∀ op ∈ w.engine.scheduler.queuedOperations, ¬ w.Blocked op.syncId

variable {w : Watched}

/-! ## One call -/

theorem mem_ingest_unblocked {candidates : List SyncCandidate} {policy : DeletePolicy}
    (h : w.QueueClean) {evicted : Finset SyncId} (hsub : evicted ⊆ w.evicted) :
    QueueClean ⟨w.engine.ingestCandidatesFiltered candidates policy, evicted⟩ ↔
      ∀ op ∈ w.engine.planned candidates policy,
        op.syncId ∉ w.engine.pausedSyncRoots ∧ op.syncId ∉ evicted := by
  unfold QueueClean Blocked
  simp only [EngineShell.mem_ingest_queue, EngineShell.ingest_paused, not_or]
  constructor
  · intro hclean op hop
    exact hclean op (.inr hop)
  · rintro hplanned op (⟨-, -, hop, -⟩ | hop)
    · have hold := h op hop
      unfold Blocked at hold
      rw [not_or] at hold
      exact ⟨hold.1, fun hmem => hold.2 (hsub hmem)⟩
    · exact hplanned op hop

theorem queueClean_of_subset {w' : Watched} (h : w.QueueClean)
    (hqueue : ∀ op ∈ w'.engine.scheduler.queuedOperations, op ∈ w.engine.scheduler.queuedOperations)
    (hblocked : ∀ syncId, w'.Blocked syncId → w.Blocked syncId) : w'.QueueClean :=
  fun op hop hb => h op (hqueue op hop) (hblocked _ hb)

theorem queueClean_of_dropWork {w' : Watched} (syncId : SyncId) (h : w.QueueClean)
    (hqueue : w'.engine.scheduler.queuedOperations =
      (w.engine.dropWork syncId).scheduler.queuedOperations)
    (hblocked : ∀ other, w'.Blocked other → other = syncId ∨ w.Blocked other) : w'.QueueClean := by
  intro op hop hb
  rw [hqueue] at hop
  simp only [EngineShell.dropWork, Scheduler.evictSyncId, List.mem_filter, decide_eq_true_eq] at hop
  rcases hblocked _ hb with heq | hb
  · exact hop.2 heq
  · exact h op hop.1 hb

theorem queueClean_step_iff (h : w.QueueClean) (call : EngineCall) :
    (w.step call).QueueClean ↔ w.EnqueuesUnblocked call := by
  rcases call with c | ⟨c, p⟩ | _ | p | ⟨p, e⟩ | ⟨i, p⟩ | i | i | i | c | o
  case ingestCandidates =>
    unfold step EngineShell.step
    simp only [EngineShell.ingestCandidates_eq]
    exact mem_ingest_unblocked h (Finset.filter_subset _ _)
  case ingestCandidatesFiltered => exact mem_ingest_unblocked h (Finset.filter_subset _ _)
  case restoreSchedulerQueue =>
    simp [QueueClean, EnqueuesUnblocked, step, EngineShell.step, EngineShell.restoreSchedulerQueue,
      enqueues, Blocked, evictedAfter]
  -- The remaining calls queue nothing, so the queue has to stay clean.
  all_goals refine iff_of_true ?_ (by simp [EnqueuesUnblocked, enqueues])
  case advanceTransferCycle =>
    refine queueClean_of_subset h (fun op hop => ?_) (fun _ hb => hb)
    exact w.engine.scheduler.mem_nextBatch.mpr (.inr hop)
  case markTransferCompleted =>
    obtain ⟨u, d, -, heq⟩ := w.engine.markTransferCompleted_eq p
    refine queueClean_of_subset h ?_ ?_
    · simp [step, EngineShell.step, heq]
    · simp [Blocked, step, EngineShell.step, heq, evictedAfter]
  case markTransferFailed =>
    obtain ⟨u, d, -, heq⟩ := w.engine.markTransferFailed_eq p e
    refine queueClean_of_subset h ?_ ?_
    · simp [step, EngineShell.step, heq]
    · simp [Blocked, step, EngineShell.step, heq, evictedAfter]
  case ackDispatchedPath => exact queueClean_of_subset h (fun _ hop => hop) (fun _ hb => hb)
  case restorePlannerOverflow => exact queueClean_of_subset h (fun _ hop => hop) (fun _ hb => hb)
  case resumeSyncRoot =>
    refine queueClean_of_subset h (fun _ hop => hop) ?_
    simp only [Blocked, step, EngineShell.step, EngineShell.resumeSyncRoot, evictedAfter, Finset.mem_erase]
    tauto
  case evictSyncRoot =>
    refine queueClean_of_dropWork i h rfl ?_
    simp only [Blocked, step, EngineShell.step, EngineShell.evictSyncRoot, EngineShell.dropWork,
      evictedAfter, Finset.mem_erase, Finset.mem_insert]
    tauto
  case pauseSyncRoot =>
    rcases Classical.em (i ∈ w.engine.pausedSyncRoots) with hi | hi
    · refine queueClean_of_subset h ?_ ?_
      · simp [step, EngineShell.step, EngineShell.pauseSyncRoot, hi]
      · simp [Blocked, step, EngineShell.step, EngineShell.pauseSyncRoot, hi, evictedAfter]
    · refine queueClean_of_dropWork i h ?_ ?_
      · simp [step, EngineShell.step, EngineShell.pauseSyncRoot, hi]
      · simp only [Blocked, step, EngineShell.step, EngineShell.pauseSyncRoot, hi, if_false, evictedAfter,
          Finset.mem_insert]
        tauto

/-! ## Dispatching from one state on -/

theorem cleanAdvance_of_queueClean (h : w.QueueClean) (call : EngineCall) : w.CleanAdvance call :=
  fun _ op hop => h op (w.engine.scheduler.mem_nextBatch.mpr (.inl hop))

theorem advances_clean (h : w.QueueClean) (n : Nat) :
    AllSteps step CleanAdvance w (List.replicate n .advanceTransferCycle) := by
  induction n generalizing w with
  | zero => trivial
  | succ n ih =>
    refine ⟨cleanAdvance_of_queueClean h _, ih ?_⟩
    exact (queueClean_step_iff h .advanceTransferCycle).mpr (by simp [EnqueuesUnblocked, enqueues])

theorem queueClean_of_advances
    (h : ∀ n, AllSteps step CleanAdvance w (List.replicate n .advanceTransferCycle)) :
    w.QueueClean := by
  induction hn : w.engine.scheduler.queuedOperations.length using Nat.strong_induction_on
    generalizing w with
  | _ n ih =>
    intro op hop
    have hfirst := (h 1).1 rfl
    have hlen := w.engine.scheduler.nextBatch_perm.length_eq
    have hpos := List.length_pos_of_ne_nil
      (w.engine.scheduler.nextBatch_ne_nil (List.ne_nil_of_mem hop))
    rw [List.length_append] at hlen
    rcases w.engine.scheduler.mem_nextBatch.mp hop with hbatch | hrest
    · exact hfirst op hbatch
    · refine ih _ ?_ (w := w.step .advanceTransferCycle) (fun k => (h (k + 1)).2) rfl op hrest
      change w.engine.scheduler.nextBatch.2.queuedOperations.length < n
      omega

/-! ## Whole runs -/

theorem neverDispatchesBlocked_iff_allStates {calls : List EngineCall} :
    w.NeverDispatchesBlocked calls ↔ AllStates step QueueClean w calls := by
  induction calls generalizing w with
  | nil =>
    constructor
    · intro h
      exact queueClean_of_advances (h [] [] rfl)
    · intro h before after heq n
      rw [(List.append_eq_nil_iff.mp heq.symm).1]
      exact advances_clean h n
  | cons call calls ih =>
    constructor
    · intro h
      refine ⟨queueClean_of_advances (h [] _ rfl), ih.mp ?_⟩
      intro before after heq n
      exact (h (call :: before) after (by rw [heq, List.cons_append]) n).2
    · rintro ⟨hclean, hrest⟩ before after heq n
      cases before with
      | nil => exact advances_clean hclean n
      | cons first before =>
        obtain ⟨rfl, htail⟩ := List.cons.inj heq
        exact ⟨cleanAdvance_of_queueClean hclean _, ih.mpr hrest before after htail n⟩

/-- No dispatch along a run, or from any of its states on, returns an operation of a blocked
root exactly when no ingest plans one and no restored queue holds one. -/
theorem neverDispatchesBlocked_iff (m : Nat) (up down : UInt64) (calls : List EngineCall) :
    (start m up down).NeverDispatchesBlocked calls ↔
      AllSteps step EnqueuesUnblocked (start m up down) calls := by
  rw [neverDispatchesBlocked_iff_allStates]
  refine allStates_iff_allSteps (fun w call h => queueClean_step_iff h call) ?_
  simp [QueueClean, start, EngineShell.fresh]

/-- The daemon's start: root 7 is paused, then the saved queue with its upload comes back.
And an eviction: the overflow of root 3 survives it and is planned by the next empty batch. -/
theorem dispatches_blocked :
    let upload : PlannedOperation := .UploadFile ⟨7⟩ "a" none "a"
    let a : SyncCandidate := ⟨⟨3⟩, .Local, "a", .File, .Upsert, none, none⟩
    let b : SyncCandidate := ⟨⟨3⟩, .Local, "b", .File, .Upsert, none, none⟩
    ¬ (start 1024 4 4).NeverDispatchesBlocked
        [.pauseSyncRoot ⟨7⟩, .restorePlannerOverflow [], .restoreSchedulerQueue [upload]] ∧
      ¬ (start 1 4 4).NeverDispatchesBlocked
        [.ingestCandidates [a, b], .evictSyncRoot ⟨3⟩, .ingestCandidates []] := by
  intro upload a b
  refine ⟨fun h => ?_, fun h => ?_⟩
  · have hsteps := h [.pauseSyncRoot ⟨7⟩, .restorePlannerOverflow [], .restoreSchedulerQueue [upload]]
      [] rfl 1
    have hclean := hsteps.2.2.2.1 rfl upload (by decide +kernel)
    exact hclean (.inl (by decide +kernel))
  · have hsteps := h [.ingestCandidates [a, b], .evictSyncRoot ⟨3⟩, .ingestCandidates []] [] rfl 1
    have hclean := hsteps.2.2.2.1 rfl (.UploadFile ⟨3⟩ "b" none "b") (by decide +kernel)
    exact hclean (.inr (by decide +kernel))

end Watched

end Pcloud
