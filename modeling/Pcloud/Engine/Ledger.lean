import Pcloud.Lib.Runs
import Pcloud.Engine.Shell

/-!
# The ledger of dispatched transfers

A ledger keeps, beside the engine, every transfer that was dispatched and whose root was
not dropped since. The coordinators account for the ledger as long as no dispatch clears
lists that still hold tasks.
-/

open Runs

namespace Pcloud

def PlannedOperation.isTransfer : PlannedOperation → Bool
  | Conflict .. => false
  | _ => true

/-! ## What the coordinators hold -/

namespace EngineShell

def openLists (s : EngineShell) : List (List PlannedOperation) :=
  (s.uploads.openLists ++ s.downloads.openLists).map (·.map (·.operation))

def openOperations (s : EngineShell) : List PlannedOperation := s.openLists.flatten

def finishedOperations (s : EngineShell) : List PlannedOperation :=
  (s.uploads.finishedTasks ++ s.downloads.finishedTasks).map (·.operation)

end EngineShell

structure Ledger where
  engine : EngineShell
  dispatched : List PlannedOperation

namespace Ledger

def start (s : EngineShell) : Ledger where
  engine := { s with uploads := {}, downloads := {} }
  dispatched := []

/-- What a call enters into the ledger, or strikes from it. -/
def book (l : Ledger) : EngineCall → List PlannedOperation
  | .advanceTransferCycle =>
    l.dispatched ++ l.engine.advanceTransferCycle.lastDispatchedBatch.filter (·.isTransfer)
  | .evictSyncRoot syncId => l.dispatched.filter fun op => op.syncId ≠ syncId
  | .pauseSyncRoot syncId =>
    if syncId ∈ l.engine.pausedSyncRoots then l.dispatched
    else l.dispatched.filter fun op => op.syncId ≠ syncId
  | _ => l.dispatched

def step (l : Ledger) (call : EngineCall) : Ledger := ⟨l.engine.step call, l.book call⟩

/-- Every dispatched transfer is open or finished, and an open one is in exactly one list. -/
def Conserved (l : Ledger) : Prop :=
  (l.engine.openOperations ++ l.engine.finishedOperations).Perm l.dispatched ∧
    ∀ op ∈ l.engine.openOperations, l.engine.openLists.countP (op ∈ ·) = 1

def AdvancesIdle (l : Ledger) (call : EngineCall) : Prop :=
  call = .advanceTransferCycle → l.engine.uploads.activeCount = 0 ∧ l.engine.downloads.activeCount = 0

end Ledger

/-! ## Accepting a batch -/

theorem started_operations (laneOf : PlannedOperation → Option Lane) (lane : Lane)
    (operations : List PlannedOperation) :
    (Coordinator.started laneOf lane operations).map (·.operation) =
      operations.filter fun op => laneOf op = some lane := by
  unfold Coordinator.started
  simp [startedTask, Function.comp_def]

namespace EngineShell

variable (s : EngineShell)

theorem advance_openLists :
    s.advanceTransferCycle.openLists =
      ([.Active, .PendingDelete, .PendingDirectoryCreate].map fun lane =>
        s.advanceTransferCycle.lastDispatchedBatch.filter fun op => uploadLane op = some lane) ++
      [.Active, .PendingDelete, .PendingDirectoryCreate].map fun lane =>
        s.advanceTransferCycle.lastDispatchedBatch.filter fun op => downloadLane op = some lane := by
  unfold advanceTransferCycle openLists
  simp [UploadCoordinator.acceptBatch, DownloadCoordinator.acceptBatch, Coordinator.acceptBatch,
    Coordinator.openLists, started_operations]

theorem count_filter_eq (p : PlannedOperation → Bool) (l : List PlannedOperation)
    (op : PlannedOperation) : (l.filter p).count op = if p op then l.count op else 0 := by
  split
  · rename_i h
    exact List.count_filter h
  · rename_i h
    exact List.count_eq_zero.mpr (by simp [h])

theorem advance_openOperations :
    s.advanceTransferCycle.openOperations.Perm
      (s.advanceTransferCycle.lastDispatchedBatch.filter (·.isTransfer)) := by
  rw [openOperations, advance_openLists, List.perm_iff_count]
  intro op
  rw [count_filter_eq]
  simp only [List.map_cons, List.map_nil, List.cons_append, List.nil_append, List.flatten_cons,
    List.flatten_nil, List.count_append, List.count_nil, count_filter_eq]
  cases op <;> simp [uploadLane, downloadLane, PlannedOperation.isTransfer]

theorem advance_openLists_once {op : PlannedOperation}
    (h : op ∈ s.advanceTransferCycle.openOperations) :
    s.advanceTransferCycle.openLists.countP (op ∈ ·) = 1 := by
  have hmem := s.advance_openOperations.mem_iff.mp h
  rw [List.mem_filter] at hmem
  obtain ⟨hbatch, htransfer⟩ := hmem
  rw [advance_openLists]
  simp only [List.map_cons, List.map_nil, List.cons_append, List.nil_append, List.countP_cons,
    List.countP_nil, List.mem_filter, hbatch, true_and, decide_eq_true_eq]
  cases op <;> simp [uploadLane, downloadLane, PlannedOperation.isTransfer] at htransfer ⊢

@[simp]
theorem advance_finishedOperations :
    s.advanceTransferCycle.finishedOperations = s.finishedOperations := rfl

theorem openOperations_eq_nil :
    s.openOperations = [] ↔ s.uploads.activeCount = 0 ∧ s.downloads.activeCount = 0 := by
  have hlen : s.openOperations.length = s.uploads.activeCount + s.downloads.activeCount := by
    rw [← Coordinator.openLists_flatten_length, ← Coordinator.openLists_flatten_length]
    simp [openOperations, openLists, Coordinator.openLists]
    omega
  rw [← List.length_eq_zero_iff, hlen]
  omega

end EngineShell

/-! ## Shrinking lists -/

theorem countP_mem_le {lists lists' : List (List PlannedOperation)} (op : PlannedOperation)
    (h : List.Forall₂ List.Sublist lists' lists) :
    lists'.countP (op ∈ ·) ≤ lists.countP (op ∈ ·) := by
  induction h with
  | nil => exact Nat.le_refl _
  | @cons a b as bs hab _ ih =>
    rw [List.countP_cons, List.countP_cons]
    have hmem : op ∈ a → op ∈ b := fun hop => hab.subset hop
    by_cases ha : op ∈ a
    · simp [ha, hmem ha, ih]
    · simp only [ha, decide_false]
      simp
      omega

theorem flatten_subset {lists lists' : List (List PlannedOperation)}
    (h : List.Forall₂ List.Sublist lists' lists) : lists'.flatten ⊆ lists.flatten := by
  induction h with
  | nil => exact List.Subset.refl _
  | cons hab _ ih =>
    rw [List.flatten_cons, List.flatten_cons]
    exact List.append_subset.mpr
      ⟨List.subset_append_of_subset_left _ hab.subset, List.subset_append_of_subset_right _ ih⟩

theorem once_of_sublist {lists lists' : List (List PlannedOperation)} {op : PlannedOperation}
    (h : List.Forall₂ List.Sublist lists' lists) (honce : lists.countP (op ∈ ·) = 1)
    (hop : op ∈ lists'.flatten) : lists'.countP (op ∈ ·) = 1 := by
  have hle := countP_mem_le op h
  have hpos : 0 < lists'.countP (op ∈ ·) := by
    obtain ⟨list, hlist, hmem⟩ := List.mem_flatten.mp hop
    exact List.countP_pos_iff.mpr ⟨list, hlist, by simpa using hmem⟩
  omega

/-! ## The other calls -/

namespace EngineShell

variable (s : EngineShell)

theorem openOperations_eq : s.openOperations =
    s.uploads.openLists.flatten.map (·.operation) ++ s.downloads.openLists.flatten.map (·.operation) := by
  simp [openOperations, openLists, List.map_flatten]

theorem finishedOperations_eq : s.finishedOperations =
    s.uploads.finishedTasks.map (·.operation) ++ s.downloads.finishedTasks.map (·.operation) := by
  simp [finishedOperations]

/-- The calls that only move tasks to the finished lists, or do nothing to the tasks. -/
def Settles (s s' : EngineShell) : Prop :=
  (s'.openOperations ++ s'.finishedOperations).Perm (s.openOperations ++ s.finishedOperations) ∧
    List.Forall₂ List.Sublist s'.openLists s.openLists

theorem Settles.of_eq {s s' : EngineShell} (hu : s'.uploads = s.uploads)
    (hd : s'.downloads = s.downloads) : Settles s s' := by
  unfold Settles openOperations finishedOperations openLists
  rw [hu, hd]
  exact ⟨.refl _, List.forall₂_same.mpr fun _ _ => List.Sublist.refl _⟩

theorem forall₂_map_operation {lists lists' : List (List TransferTask)}
    (h : List.Forall₂ List.Sublist lists' lists) :
    List.Forall₂ List.Sublist (lists'.map (·.map (·.operation))) (lists.map (·.map (·.operation))) := by
  rw [List.forall₂_map_left_iff, List.forall₂_map_right_iff]
  exact h.imp fun _ _ hab => hab.map _

theorem Settles.of_uploads {c : UploadCoordinator} (h : s.uploads.Moves c) :
    Settles s { s with uploads := c } := by
  refine ⟨?_, ?_⟩
  · rw [List.perm_iff_count]
    intro op
    have hcount := h.1.count_eq op
    simp only [openOperations_eq, finishedOperations_eq, List.map_append, List.count_append] at hcount ⊢
    omega
  · unfold openLists
    rw [List.map_append, List.map_append]
    exact List.rel_append (forall₂_map_operation h.2) (List.forall₂_same.mpr fun _ _ => List.Sublist.refl _)

theorem Settles.of_downloads {c : DownloadCoordinator} (h : s.downloads.Moves c) :
    Settles s { s with downloads := c } := by
  refine ⟨?_, ?_⟩
  · rw [List.perm_iff_count]
    intro op
    have hcount := h.1.count_eq op
    simp only [openOperations_eq, finishedOperations_eq, List.map_append, List.count_append] at hcount ⊢
    omega
  · unfold openLists
    rw [List.map_append, List.map_append]
    exact List.rel_append (List.forall₂_same.mpr fun _ _ => List.Sublist.refl _) (forall₂_map_operation h.2)

theorem markTransferCompleted_settles (path : String) : Settles s (s.markTransferCompleted path).2 := by
  unfold markTransferCompleted
  split
  · rename_i c hc
    exact .of_uploads s (Coordinator.markCompleted_moves hc)
  · split
    · rename_i c hc
      exact .of_downloads s (Coordinator.markCompleted_moves hc)
    · exact .of_eq rfl rfl

theorem markTransferFailed_settles (path error : String) :
    Settles s (s.markTransferFailed path error).2 := by
  unfold markTransferFailed
  split
  · rename_i c hc
    exact .of_uploads s (Coordinator.markFailed_moves hc)
  · split
    · rename_i c hc
      exact .of_downloads s (Coordinator.markFailed_moves hc)
    · exact .of_eq rfl rfl

theorem retain_operations (tasks : List TransferTask) (syncId : SyncId) :
    (Coordinator.retainOtherSyncIds tasks syncId).map (·.operation) =
      (tasks.map (·.operation)).filter fun op => op.syncId ≠ syncId := by
  unfold Coordinator.retainOtherSyncIds
  rw [List.filter_map]
  rfl

theorem dropWork_openLists (syncId : SyncId) : (s.dropWork syncId).openLists =
    s.openLists.map (·.filter fun op => op.syncId ≠ syncId) := by
  simp [openLists, dropWork, Coordinator.evictSyncId, Coordinator.openLists, retain_operations]

theorem dropWork_finished (syncId : SyncId) : (s.dropWork syncId).finishedOperations =
    s.finishedOperations.filter fun op => op.syncId ≠ syncId := by
  simp [finishedOperations, dropWork, Coordinator.evictSyncId, Coordinator.finishedTasks, retain_operations]

end EngineShell

/-! ## One call -/

namespace Ledger

variable {l : Ledger}

theorem conserved_of_settles {l' : Ledger} (h : Conserved l) (hs : l.engine.Settles l'.engine)
    (hbook : l'.dispatched = l.dispatched) : Conserved l' := by
  refine ⟨?_, ?_⟩
  · rw [hbook]
    exact hs.1.trans h.1
  · intro op hop
    exact once_of_sublist hs.2 (h.2 op (flatten_subset hs.2 hop)) hop

theorem conserved_of_dropWork {l' : Ledger} (syncId : SyncId) (h : Conserved l)
    (hlists : l'.engine.openLists = (l.engine.dropWork syncId).openLists)
    (hfinished : l'.engine.finishedOperations = (l.engine.dropWork syncId).finishedOperations)
    (hbook : l'.dispatched = l.dispatched.filter fun op => op.syncId ≠ syncId) : Conserved l' := by
  rw [EngineShell.dropWork_openLists] at hlists
  rw [EngineShell.dropWork_finished] at hfinished
  have hopen : l'.engine.openOperations =
      l.engine.openOperations.filter fun op => op.syncId ≠ syncId := by
    rw [EngineShell.openOperations, hlists, EngineShell.openOperations, List.filter_flatten]
  refine ⟨?_, ?_⟩
  · rw [hbook, hopen, hfinished, ← List.filter_append]
    exact h.1.filter _
  · intro op hop
    have hsub : List.Forall₂ List.Sublist l'.engine.openLists l.engine.openLists := by
      rw [hlists, List.forall₂_map_left_iff]
      exact List.forall₂_same.mpr fun _ _ => List.filter_sublist
    rw [hopen] at hop
    refine once_of_sublist hsub (h.2 op (List.mem_filter.mp hop).1) ?_
    rw [← EngineShell.openOperations, hopen]
    exact hop

theorem conserved_advance_iff (h : Conserved l) :
    Conserved (l.step .advanceTransferCycle) ↔ l.AdvancesIdle .advanceTransferCycle := by
  have hnew := l.engine.advance_openOperations
  unfold AdvancesIdle
  simp only [forall_const]
  rw [← EngineShell.openOperations_eq_nil]
  constructor
  · rintro ⟨hperm, -⟩
    -- The new batch fills the lists, so what was open before has no place left.
    have hlen := hperm.length_eq
    have hold := h.1.length_eq
    have hbatch := hnew.length_eq
    simp only [step, book, EngineShell.step, List.length_append,
      EngineShell.advance_finishedOperations] at hlen hold
    rw [← List.length_eq_zero_iff]
    omega
  · intro hnil
    refine ⟨?_, fun op hop => l.engine.advance_openLists_once hop⟩
    have hold := h.1
    rw [hnil, List.nil_append] at hold
    exact (hnew.append hold).trans List.perm_append_comm

theorem conserved_step_iff (h : Conserved l) (call : EngineCall) :
    Conserved (l.step call) ↔ l.AdvancesIdle call := by
  rcases call with c | ⟨c, p⟩ | _ | p | ⟨p, e⟩ | ⟨i, p⟩ | i | i | i | c | o
  case advanceTransferCycle => exact conserved_advance_iff h
  -- Every other call is allowed at any time, so it has to keep the ledger.
  all_goals refine iff_of_true ?_ (by simp [AdvancesIdle])
  case ingestCandidates =>
    refine conserved_of_settles h (.of_eq ?_ ?_) rfl
    · simp [step, EngineShell.step, EngineShell.ingestCandidates_eq]
    · simp [step, EngineShell.step, EngineShell.ingestCandidates_eq]
  case ingestCandidatesFiltered =>
    refine conserved_of_settles h (.of_eq ?_ ?_) rfl
    · simp [step, EngineShell.step]
    · simp [step, EngineShell.step]
  case markTransferCompleted => exact conserved_of_settles h (l.engine.markTransferCompleted_settles p) rfl
  case markTransferFailed => exact conserved_of_settles h (l.engine.markTransferFailed_settles p e) rfl
  case ackDispatchedPath => exact conserved_of_settles h (.of_eq rfl rfl) rfl
  case resumeSyncRoot => exact conserved_of_settles h (.of_eq rfl rfl) rfl
  case restorePlannerOverflow => exact conserved_of_settles h (.of_eq rfl rfl) rfl
  case restoreSchedulerQueue => exact conserved_of_settles h (.of_eq rfl rfl) rfl
  case evictSyncRoot => exact conserved_of_dropWork i h rfl rfl rfl
  case pauseSyncRoot =>
    rcases Classical.em (i ∈ l.engine.pausedSyncRoots) with hi | hi
    · refine conserved_of_settles h (.of_eq ?_ ?_) ?_
      · simp [step, EngineShell.step, EngineShell.pauseSyncRoot, hi]
      · simp [step, EngineShell.step, EngineShell.pauseSyncRoot, hi]
      · simp [step, book, hi]
    · refine conserved_of_dropWork i h ?_ ?_ ?_
      · simp [step, EngineShell.step, EngineShell.pauseSyncRoot, hi, EngineShell.openLists]
      · simp [step, EngineShell.step, EngineShell.pauseSyncRoot, hi, EngineShell.finishedOperations]
      · simp [step, book, hi]

/-! ## Whole runs -/

/-- The coordinators account for every dispatched transfer in every state of a run exactly
when each dispatch of the run finds both coordinators without open tasks. -/
theorem conserved_run_iff (s : EngineShell) (calls : List EngineCall) :
    AllStates step Conserved (start s) calls ↔ AllSteps step AdvancesIdle (start s) calls := by
  refine allStates_iff_allSteps (fun l call h => conserved_step_iff h call) ⟨?_, ?_⟩
  · simp [start, EngineShell.openOperations, EngineShell.openLists, EngineShell.finishedOperations,
      Coordinator.openLists, Coordinator.finishedTasks]
  · simp [start, EngineShell.openOperations, EngineShell.openLists, Coordinator.openLists]

/-- Two dispatches with nothing executed between them: the download is gone. -/
theorem conserved_not_two_dispatches :
    let s : EngineShell := { scheduler := { queuedOperations := [.DownloadFile ⟨1⟩ "a" (some ⟨5⟩)] } }
    ¬ AllStates step Conserved (start s) [.advanceTransferCycle, .advanceTransferCycle] := by
  intro s h
  have hlast : Conserved (run step (start s) [.advanceTransferCycle, .advanceTransferCycle]) := h.2.2
  have hlen := hlast.1.length_eq
  revert hlen
  decide +kernel

end Ledger

end Pcloud
