import Mathlib.Data.Fintype.EquivFin
import Pcloud.Engine.Shell

/-!
# One root's ingest and the queue of the others

An ingest replaces the queue for the root of its candidates. It looks at the overflow and
the batch together, so an empty batch, or overflow of another root, replaces more than the
root's own part.
-/

namespace Pcloud

namespace EngineShell

def withQueue (s : EngineShell) (queue : List PlannedOperation) : EngineShell :=
  { s with scheduler := { s.scheduler with queuedOperations := queue } }

/-- Whatever is queued, no copy of an operation of another root goes away. -/
def KeepsOtherRoots (s : EngineShell) (A : SyncId) (ingest : EngineShell → EngineShell) : Prop :=
  ∀ (queue : List PlannedOperation) (op : PlannedOperation), op.syncId ≠ A →
    queue.count op ≤ (ingest (s.withQueue queue)).scheduler.queuedOperations.count op

variable {s : EngineShell} {batch : List SyncCandidate} {policy : DeletePolicy} {A : SyncId}

/-! ## The scoped branch keeps the others -/

theorem count_ingest_queue {op : PlannedOperation}
    (h : singleSyncId (s.plannerOverflow ++ batch) = some A) (hop : op.syncId ≠ A) :
    s.scheduler.queuedOperations.count op ≤
      (s.ingestCandidatesFiltered batch policy).scheduler.queuedOperations.count op := by
  have hqueue : (s.ingestCandidatesFiltered batch policy).scheduler.queuedOperations =
      (s.scheduler.queuedOperations.filter (fun x => x.syncId ≠ A) ++
        s.planned batch policy).insertionSort PlannedOperation.Before := by
    simp only [ingestCandidatesFiltered_eq, enqueue, h, Scheduler.replaceQueueForSyncId]
  rw [hqueue, (List.perm_insertionSort _ _).count_eq, List.count_append,
    List.count_filter (by simpa using hop)]
  omega

/-! ## The other branches lose something -/

theorem not_keepsOtherRoots {B : SyncId} (hB : B ≠ A)
    (h : singleSyncId (s.plannerOverflow ++ batch) = none ∨
      singleSyncId (s.plannerOverflow ++ batch) = some B) :
    ¬ s.KeepsOtherRoots A (·.ingestCandidatesFiltered batch policy) := by
  intro hkeeps
  -- An operation of `B` at a path that nothing planned here can have.
  obtain ⟨p, hp⟩ := Infinite.exists_notMem_finset (pathsOf (s.plannerOverflow ++ batch))
  have hcount := hkeeps [.DeleteLocal B p] (.DeleteLocal B p) hB
  simp only [List.count_singleton_self] at hcount
  have hmem := List.count_pos_iff.mp (Nat.lt_of_lt_of_le Nat.zero_lt_one hcount)
  rcases mem_ingest_queue.mp hmem with ⟨C, hC, -, hne⟩ | hplanned
  · have hC' : singleSyncId (s.plannerOverflow ++ batch) = some C := hC
    rcases h with h | h
    · rw [h] at hC'
      cases hC'
    · rw [h] at hC'
      exact hne (Option.some.inj hC')
  · obtain ⟨c, hc, -, hpath⟩ := planned_from hplanned
    exact hp (mem_pathsOf.mpr ⟨c, hc, hpath.symm⟩)

theorem keepsOtherRoots_filtered_iff :
    s.KeepsOtherRoots A (·.ingestCandidatesFiltered batch policy) ↔
      s.plannerOverflow ++ batch ≠ [] ∧ ∀ c ∈ s.plannerOverflow ++ batch, c.syncId = A := by
  rw [← singleSyncId_eq_some]
  constructor
  · intro hkeeps
    cases hs : singleSyncId (s.plannerOverflow ++ batch) with
    | none =>
      obtain ⟨B, hB⟩ : ∃ B : SyncId, B ≠ A := by
        by_cases h1 : A = ⟨1⟩
        · exact ⟨⟨2⟩, by rw [h1]; decide⟩
        · exact ⟨⟨1⟩, Ne.symm h1⟩
      exact absurd hkeeps (not_keepsOtherRoots hB (.inl hs))
    | some B =>
      by_cases hB : B = A
      · rw [hB]
      · exact absurd hkeeps (not_keepsOtherRoots hB (.inr hs))
  · intro h queue op hop
    exact count_ingest_queue (s := s.withQueue queue) h hop

/-- Both ingests leave the queues of the roots other than `A` alone exactly when overflow and
batch together are not empty and all of root `A`. -/
theorem ingest_keepsOtherRoots_iff (s : EngineShell) (A : SyncId) (batch : List SyncCandidate)
    (policy : DeletePolicy) :
    (s.KeepsOtherRoots A (·.ingestCandidates batch) ↔
      s.plannerOverflow ++ batch ≠ [] ∧ ∀ c ∈ s.plannerOverflow ++ batch, c.syncId = A) ∧
    (s.KeepsOtherRoots A (·.ingestCandidatesFiltered batch policy) ↔
      s.plannerOverflow ++ batch ≠ [] ∧ ∀ c ∈ s.plannerOverflow ++ batch, c.syncId = A) := by
  refine ⟨?_, keepsOtherRoots_filtered_iff⟩
  simp only [ingestCandidates_eq]
  exact keepsOtherRoots_filtered_iff

/-- The empty batch, as from a poll without changes, empties the queue of root 2. -/
theorem ingest_empty_drops_other_root :
    ¬ ∀ (s : EngineShell) (A : SyncId) (batch : List SyncCandidate), (∀ c ∈ batch, c.syncId = A) →
      ∀ op ∈ s.scheduler.queuedOperations, op.syncId ≠ A →
        op ∈ (s.ingestCandidatesFiltered batch {}).scheduler.queuedOperations := by
  intro h
  have := h ((({} : EngineShell)).withQueue [.UploadFile ⟨2⟩ "b" none "b"]) ⟨1⟩ [] (by simp)
    (.UploadFile ⟨2⟩ "b" none "b") (by decide) (by decide)
  revert this
  decide +kernel

end EngineShell

end Pcloud
