import Pcloud.Lib.Runs
import Pcloud.Engine.Shell

/-!
# Whose delete policy applies

A filtered ingest applies the policy of the root being ingested to everything it plans, also
to the overflow of other roots. The queue respects each root's own policy exactly when no
ingest plans a delete that it lets through and that the delete's own root forbids.
-/

open Runs

namespace Pcloud

structure RootIngest where
  root : SyncId
  candidates : List SyncCandidate

section Policies

/-! The types of the roots and the global flag are fixed along a run. -/
variable (types : SyncId → SyncType) (propagateDeletes : Bool)

def policyOf (syncId : SyncId) : DeletePolicy :=
  DeletePolicy.forSyncType (types syncId) propagateDeletes

def ingestFor (s : EngineShell) (ingest : RootIngest) : EngineShell :=
  s.ingestCandidatesFiltered ingest.candidates (policyOf types propagateDeletes ingest.root)

def QueueRespectsPolicies (s : EngineShell) : Prop :=
  ∀ op ∈ s.scheduler.queuedOperations, (policyOf types propagateDeletes op.syncId).suppresses op = false

/-- The planner gives the candidate's own operation for its path, and the cap lets it. -/
def PlannedAsOwn (s : EngineShell) (combined : List SyncCandidate) (c : SyncCandidate) : Prop :=
  Due s.planner.maxOperationsPerTick combined c.path ∧
    planPair (lastAt .Local c.path combined) (lastAt .Remote c.path combined) = some (planSingle c)

/-- What is planned as it stands is suppressed by the ingest, or allowed by its own root. -/
def PoliciesAgree (s : EngineShell) (ingest : RootIngest) : Prop :=
  ∀ c ∈ s.plannerOverflow ++ ingest.candidates,
    PlannedAsOwn s (s.plannerOverflow ++ ingest.candidates) c →
      (policyOf types propagateDeletes ingest.root).suppresses (planSingle c) = true ∨
      (policyOf types propagateDeletes c.syncId).suppresses (planSingle c) = false

variable {types propagateDeletes}

theorem suppresses_conflict (policy : DeletePolicy) (c : SyncCandidate) (kind : ConflictKind) :
    policy.suppresses (conflict c kind) = false := rfl

theorem planPair_suppressed {combined : List SyncCandidate} {path : String} {op : PlannedOperation}
    {policy : DeletePolicy}
    (h : planPair (lastAt .Local path combined) (lastAt .Remote path combined) = some op)
    (hsup : policy.suppresses op = true) : ∃ c ∈ combined, c.path = path ∧ op = planSingle c := by
  rcases planPair_lastAt_cases h with ⟨l, hl, -, rfl⟩ | ⟨r, hr, -, rfl⟩ | ⟨l, r, kind, -, -, -, rfl⟩
  · obtain ⟨hmem, hpath, -⟩ := lastAt_mem hl
    exact ⟨l, hmem, hpath, rfl⟩
  · obtain ⟨hmem, hpath, -⟩ := lastAt_mem hr
    exact ⟨r, hmem, hpath, rfl⟩
  · rw [suppresses_conflict] at hsup
    cases hsup

theorem queueRespectsPolicies_step_iff {s : EngineShell} (ingest : RootIngest)
    (h : QueueRespectsPolicies types propagateDeletes s) :
    QueueRespectsPolicies types propagateDeletes (ingestFor types propagateDeletes s ingest) ↔
      PoliciesAgree types propagateDeletes s ingest := by
  unfold QueueRespectsPolicies ingestFor PoliciesAgree PlannedAsOwn
  simp only [EngineShell.mem_ingest_queue]
  constructor
  · intro hqueue c hc ⟨hdue, hplan⟩
    rw [or_iff_not_imp_left, Bool.not_eq_true]
    intro hallowed
    have hplanned := EngineShell.mem_planned.mpr
      ⟨hallowed, c.path, mem_pathsOf.mpr ⟨c, hc, rfl⟩, hdue, hplan⟩
    have hown := hqueue _ (.inr hplanned)
    rw [planSingle_syncId] at hown
    exact hown
  · rintro hagree op (⟨-, -, hop, -⟩ | hop)
    · exact h op hop
    · obtain ⟨hallowed, p, -, hdue, hplan⟩ := EngineShell.mem_planned.mp hop
      rw [← Bool.not_eq_true]
      intro hsup
      obtain ⟨c, hc, rfl, rfl⟩ := planPair_suppressed hplan hsup
      rcases hagree c hc ⟨hdue, hplan⟩ with hfor | hown
      · rw [hallowed] at hfor
        cases hfor
      · rw [planSingle_syncId, hown] at hsup
        cases hsup

/-- In every state of a run of ingests the queue respects the policy of each operation's own
root, exactly when the policies agree at each ingest. -/
theorem queueRespectsPolicies_run_iff (types : SyncId → SyncType) (propagateDeletes : Bool)
    (m : Nat) (up down : UInt64) (ingests : List RootIngest) :
    AllStates (ingestFor types propagateDeletes) (QueueRespectsPolicies types propagateDeletes)
        (EngineShell.fresh m up down) ingests ↔
      AllSteps (ingestFor types propagateDeletes) (PoliciesAgree types propagateDeletes)
        (EngineShell.fresh m up down) ingests := by
  refine allStates_iff_allSteps (fun s ingest h => queueRespectsPolicies_step_iff ingest h) ?_
  simp [QueueRespectsPolicies, EngineShell.fresh]

theorem queueRespectsPolicies_backupArchive {s : EngineShell}
    (h : QueueRespectsPolicies types propagateDeletes s) {syncId : SyncId}
    (htype : types syncId = .BackupArchive) (path : String) :
    .DeleteLocal syncId path ∉ s.scheduler.queuedOperations ∧
      .DeleteRemote syncId path ∉ s.scheduler.queuedOperations := by
  have hpolicy : policyOf types propagateDeletes syncId = ⟨false, false⟩ := by
    unfold policyOf DeletePolicy.forSyncType
    cases propagateDeletes <;> simp [htype]
  refine ⟨fun hop => ?_, fun hop => ?_⟩
  · have := h _ hop
    simp [PlannedOperation.syncId, hpolicy, DeletePolicy.suppresses] at this
  · have := h _ hop
    simp [PlannedOperation.syncId, hpolicy, DeletePolicy.suppresses] at this

end Policies

/-- Root 1 is a backup, root 2 a full sync. Root 1's delete does not fit under the cap, and
the next ingest, made for root 2, queues it. -/
theorem delete_queued_for_backupArchive :
    let types : SyncId → SyncType := fun syncId => if syncId = ⟨1⟩ then .BackupArchive else .Full
    let ingests : List RootIngest :=
      [⟨⟨1⟩,
          [⟨⟨1⟩, .Local, "a", .File, .Upsert, none, none⟩, ⟨⟨1⟩, .Local, "b", .File, .Delete, none, none⟩]⟩,
        ⟨⟨2⟩, []⟩]
    ¬ AllStates (ingestFor types true) (QueueRespectsPolicies types true)
      (EngineShell.fresh 1 4 4) ingests := by
  intro types ingests h
  have hlast : QueueRespectsPolicies types true
      (run (ingestFor types true) (EngineShell.fresh 1 4 4) ingests) := h.2.2
  have hdelete := hlast (.DeleteRemote ⟨1⟩ "b") (by decide +kernel)
  revert hdelete
  decide

end Pcloud
