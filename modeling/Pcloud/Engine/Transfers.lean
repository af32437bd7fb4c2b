import Mathlib.Data.List.Perm.Basic
import Pcloud.Model.Sync

/-!
# The transfer coordinators (`pcloud-engine/src/transfers/{uploads,downloads}.rs`)

The two coordinators keep the same five lists. They differ in the operations that they
take from a batch.
-/

namespace Pcloud

inductive TransferState where
  | Planned
  | Preparing
  | Streaming
  | Verifying
  | Committing
  | Retrying
  | Failed
  | Completed
  deriving DecidableEq, Repr

structure TransferTask where
  operation : PlannedOperation
  state : TransferState
  lastError : Option String
  deriving DecidableEq, Repr

def startedTask (operation : PlannedOperation) : TransferTask :=
  ⟨operation, .Streaming, none⟩

/-- The source and the destination once the first task at `path` has moved, or `none`. -/
def moveTask (path : String) (source destination : List TransferTask) (state : TransferState)
    (error : Option String) : Option (List TransferTask × List TransferTask) :=
  match source.find? (·.operation.path = path) with
  | none => none
  | some task =>
    some (source.eraseP (·.operation.path = path),
      destination ++ [{ task with state := state, lastError := error }])

inductive Lane where
  | Active
  | PendingDelete
  | PendingDirectoryCreate
  deriving DecidableEq, Repr

structure Coordinator where
  active : List TransferTask := []
  pendingDeletes : List TransferTask := []
  pendingDirectoryCreates : List TransferTask := []
  completed : List TransferTask := []
  failed : List TransferTask := []
  deriving DecidableEq, Repr

namespace Coordinator

def started (laneOf : PlannedOperation → Option Lane) (lane : Lane)
    (operations : List PlannedOperation) : List TransferTask :=
  (operations.filter fun op => laneOf op = some lane).map startedTask

/-- The lists of open tasks are cleared first. -/
def acceptBatch (laneOf : PlannedOperation → Option Lane) (c : Coordinator)
    (operations : List PlannedOperation) : Coordinator :=
  { c with
    active := started laneOf .Active operations
    pendingDeletes := started laneOf .PendingDelete operations
    pendingDirectoryCreates := started laneOf .PendingDirectoryCreate operations }

def retainOtherSyncIds (tasks : List TransferTask) (syncId : SyncId) : List TransferTask :=
  tasks.filter fun task => task.operation.syncId ≠ syncId

def evictSyncId (c : Coordinator) (syncId : SyncId) : Coordinator where
  active := retainOtherSyncIds c.active syncId
  pendingDeletes := retainOtherSyncIds c.pendingDeletes syncId
  pendingDirectoryCreates := retainOtherSyncIds c.pendingDirectoryCreates syncId
  completed := retainOtherSyncIds c.completed syncId
  failed := retainOtherSyncIds c.failed syncId

def activeCount (c : Coordinator) : Nat :=
  c.active.length + c.pendingDeletes.length + c.pendingDirectoryCreates.length

/-- Moves the first open task at `path`: in-flight files first, then deletes, then directories. -/
def moveOpen (c : Coordinator) (path : String) (destination : List TransferTask)
    (state : TransferState) (error : Option String) : Option (Coordinator × List TransferTask) :=
  match moveTask path c.active destination state error with
  | some (active, destination) => some ({ c with active }, destination)
  | none => match moveTask path c.pendingDeletes destination state error with
    | some (pendingDeletes, destination) => some ({ c with pendingDeletes }, destination)
    | none => match moveTask path c.pendingDirectoryCreates destination state error with
      | some (pendingDirectoryCreates, destination) =>
        some ({ c with pendingDirectoryCreates }, destination)
      | none => none

/-- The coordinator after the move, or `none` where the source returns `false`. -/
def markCompleted (c : Coordinator) (path : String) : Option Coordinator :=
  (c.moveOpen path c.completed .Completed none).map fun (c, completed) => { c with completed }

def markFailed (c : Coordinator) (path error : String) : Option Coordinator :=
  (c.moveOpen path c.failed .Failed (some error)).map fun (c, failed) => { c with failed }

end Coordinator

/-! ## The two coordinators -/

def uploadLane : PlannedOperation → Option Lane
  | .UploadFile .. => some .Active
  | .DeleteRemote .. => some .PendingDelete
  | .CreateRemoteDirectory .. => some .PendingDirectoryCreate
  | _ => none

def downloadLane : PlannedOperation → Option Lane
  | .DownloadFile .. => some .Active
  | .DeleteLocal .. => some .PendingDelete
  | .CreateLocalDirectory .. => some .PendingDirectoryCreate
  | _ => none

abbrev UploadCoordinator := Coordinator

abbrev DownloadCoordinator := Coordinator

def UploadCoordinator.acceptBatch (c : UploadCoordinator) (operations : List PlannedOperation) :
    UploadCoordinator :=
  Coordinator.acceptBatch uploadLane c operations

def DownloadCoordinator.acceptBatch (c : DownloadCoordinator) (operations : List PlannedOperation) :
    DownloadCoordinator :=
  Coordinator.acceptBatch downloadLane c operations

/-! ## Open and finished tasks -/

namespace Coordinator

def openLists (c : Coordinator) : List (List TransferTask) :=
  [c.active, c.pendingDeletes, c.pendingDirectoryCreates]

def finishedTasks (c : Coordinator) : List TransferTask := c.completed ++ c.failed

theorem openLists_flatten_length (c : Coordinator) : c.openLists.flatten.length = c.activeCount := by
  simp [openLists, activeCount, Nat.add_assoc]

end Coordinator

theorem perm_cons_eraseP {α : Type*} {p : α → Bool} {l : List α} {a : α} (h : l.find? p = some a) :
    l.Perm (a :: l.eraseP p) := by
  obtain ⟨hp, as, bs, rfl, has⟩ := List.find?_eq_some_iff_append.mp h
  rw [List.eraseP_append_right _ (by simpa using has), List.eraseP_cons_of_pos hp]
  exact List.perm_middle

theorem moveTask_perm {path : String} {source destination source' destination' : List TransferTask}
    {state : TransferState} {error : Option String}
    (h : moveTask path source destination state error = some (source', destination')) :
    ∃ task moved, moved.operation = task.operation ∧ source.Perm (task :: source') ∧
      source'.Sublist source ∧ destination' = destination ++ [moved] := by
  unfold moveTask at h
  split at h
  · cases h
  · rename_i task hfind
    simp only [Option.some.injEq, Prod.mk.injEq] at h
    obtain ⟨rfl, rfl⟩ := h
    exact ⟨task, { task with state := state, lastError := error }, rfl, perm_cons_eraseP hfind,
      List.eraseP_sublist, rfl⟩

namespace Coordinator

theorem moveOpen_perm {c c' : Coordinator} {path : String} {destination destination' : List TransferTask}
    {state : TransferState} {error : Option String}
    (h : c.moveOpen path destination state error = some (c', destination')) :
    ∃ task moved, moved.operation = task.operation ∧
      c.openLists.flatten.Perm (task :: c'.openLists.flatten) ∧
      List.Forall₂ List.Sublist c'.openLists c.openLists ∧ destination' = destination ++ [moved] ∧
      c'.completed = c.completed ∧ c'.failed = c.failed := by
  unfold moveOpen at h
  split at h
  · rename_i active dest hmove
    simp only [Option.some.injEq, Prod.mk.injEq] at h
    obtain ⟨rfl, rfl⟩ := h
    obtain ⟨task, moved, hop, hperm, hsub, hdest⟩ := moveTask_perm hmove
    refine ⟨task, moved, hop, ?_, by simp [openLists, hsub], hdest, rfl, rfl⟩
    exact hperm.append_right _
  · split at h
    · rename_i deletes dest hmove
      simp only [Option.some.injEq, Prod.mk.injEq] at h
      obtain ⟨rfl, rfl⟩ := h
      obtain ⟨task, moved, hop, hperm, hsub, hdest⟩ := moveTask_perm hmove
      refine ⟨task, moved, hop, ?_, by simp [openLists, hsub], hdest, rfl, rfl⟩
      exact ((hperm.append_right _).append_left _).trans List.perm_middle
    · split at h
      · rename_i creates dest hmove
        simp only [Option.some.injEq, Prod.mk.injEq] at h
        obtain ⟨rfl, rfl⟩ := h
        obtain ⟨task, moved, hop, hperm, hsub, hdest⟩ := moveTask_perm hmove
        refine ⟨task, moved, hop, ?_, by simp [openLists, hsub], hdest, rfl, rfl⟩
        have hlast := (hperm.append_right []).append_left c.pendingDeletes |>.trans List.perm_middle
        exact (hlast.append_left c.active).trans List.perm_middle
      · cases h

def Moves (c c' : Coordinator) : Prop :=
  ((c'.openLists.flatten ++ c'.finishedTasks).map (·.operation)).Perm
      ((c.openLists.flatten ++ c.finishedTasks).map (·.operation)) ∧
    List.Forall₂ List.Sublist c'.openLists c.openLists

theorem Moves.active_sublist {c c' : Coordinator} (h : Moves c c') : c'.active.Sublist c.active := by
  have hlists := h.2
  simp only [openLists, List.forall₂_cons] at hlists
  exact hlists.1

theorem moves_of {c c' : Coordinator} {task moved : TransferTask}
    (hop : moved.operation = task.operation)
    (hopen : c.openLists.flatten.Perm (task :: c'.openLists.flatten))
    (hfinished : c'.finishedTasks.Perm (moved :: c.finishedTasks))
    (hsub : List.Forall₂ List.Sublist c'.openLists c.openLists) : Moves c c' := by
  refine ⟨?_, hsub⟩
  have ho := hopen.map (·.operation)
  have hf := hfinished.map (·.operation)
  simp only [List.map_append, List.map_cons, hop] at ho hf ⊢
  exact (hf.append_left _).trans (List.perm_middle.trans (ho.symm.append_right _))

theorem markCompleted_moves {c c' : Coordinator} {path : String} (h : c.markCompleted path = some c') :
    Moves c c' := by
  unfold markCompleted at h
  obtain ⟨⟨d, completed⟩, hmove, rfl⟩ := Option.map_eq_some_iff.mp h
  obtain ⟨task, moved, hop, hopen, hsub, rfl, -, hfailed⟩ := moveOpen_perm hmove
  refine moves_of hop hopen ?_ hsub
  simp only [finishedTasks, hfailed, List.append_assoc, List.singleton_append]
  exact List.perm_middle

theorem markFailed_moves {c c' : Coordinator} {path error : String}
    (h : c.markFailed path error = some c') : Moves c c' := by
  unfold markFailed at h
  obtain ⟨⟨d, failed⟩, hmove, rfl⟩ := Option.map_eq_some_iff.mp h
  obtain ⟨task, moved, hop, hopen, hsub, rfl, hcompleted, -⟩ := moveOpen_perm hmove
  refine moves_of hop hopen ?_ hsub
  simp only [finishedTasks, hcompleted, ← List.append_assoc]
  exact List.perm_append_singleton _ _

end Coordinator

end Pcloud
