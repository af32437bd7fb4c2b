import Pcloud.Engine.Outstanding
import Pcloud.Daemon.Runtime

/-!
# Crediting a finished transfer

A transfer that ends is marked by its path alone, in the upload coordinator first, and it is
acknowledged by its root and path. Which task that is, and which operations, depends on what
else has the same path.
-/

namespace Pcloud

/-! ## Lists -/

section lists

variable {α : Type*} [DecidableEq α] {p : α → Bool} {l : List α} {a b : α}

theorem eraseP_eq_erase (h : l.find? p = some a) : l.eraseP p = l.erase a := by
  obtain ⟨hp, as, bs, rfl, has⟩ := List.find?_eq_some_iff_append.mp h
  have hnot : a ∉ as := by
    intro ha
    have hfalse := has a ha
    simp [hp] at hfalse
  rw [List.eraseP_append_right _ (by simpa using has), List.eraseP_cons_of_pos hp,
    List.erase_append_right _ hnot, List.erase_cons_head]

theorem eq_of_erase_eq_erase (ha : a ∈ l) (h : l.erase a = l.erase b) : a = b := by
  by_contra hne
  have hcount := congrArg (List.count a) h
  rw [List.count_erase_self, List.count_erase_of_ne hne] at hcount
  have hpos := List.count_pos_iff.mpr ha
  omega

theorem filter_erase (ha : p a = false) : (l.erase a).filter p = l.filter p := by
  induction l with
  | nil => rfl
  | cons x l ih =>
    by_cases hx : x = a
    · subst hx
      simp [ha]
    · rw [List.erase_cons_tail (by simpa using hx), List.filter_cons, List.filter_cons, ih]

theorem filter_eq_erase_iff (ha : p a = false) :
    l.filter p = l.erase a ↔ ∀ x ∈ l.erase a, p x = true := by
  rw [← filter_erase ha, List.filter_eq_self]

end lists

/-! ## Marks -/

inductive Side where
  | Upload
  | Download
  deriving DecidableEq, Repr

/-- A task as it stands when it ended so. -/
def TransferTask.ended (task : TransferTask) (outcome : Option String) : TransferTask :=
  match outcome with
  | none => { task with state := .Completed, lastError := none }
  | some message => { task with state := .Failed, lastError := some message }

namespace Coordinator

/-- The mark that a transfer makes when it ends. -/
def mark (c : Coordinator) (path : String) : Option String → Option Coordinator
  | none => c.markCompleted path
  | some message => c.markFailed path message

/-- `active` in the place of the open tasks, and one task more at the end of its list. -/
def settled (c : Coordinator) (active : List TransferTask) (task : TransferTask)
    (outcome : Option String) : Coordinator :=
  match outcome with
  | none => { c with active, completed := c.completed ++ [task.ended none] }
  | some message => { c with active, failed := c.failed ++ [task.ended (some message)] }

variable {c : Coordinator} {path : String}

theorem mark_of_find {task : TransferTask} (h : c.active.find? (·.operation.path = path) = some task)
    (outcome : Option String) :
    c.mark path outcome = some (c.settled (c.active.erase task) task outcome) := by
  have herase := eraseP_eq_erase h
  cases outcome with
  | none =>
    simp only [mark, markCompleted, moveOpen, moveTask, h, herase]
    rfl
  | some message =>
    simp only [mark, markFailed, moveOpen, moveTask, h, herase]
    rfl

theorem settled_inj {task other : TransferTask} {outcome : Option String} (h : task ∈ c.active)
    (heq : c.settled (c.active.erase task) task outcome = c.settled (c.active.erase other) other outcome) :
    task = other := by
  have hactive := congrArg Coordinator.active heq
  cases outcome <;> exact eq_of_erase_eq_erase h hactive

theorem moveTask_eq_none {source : List TransferTask} (destination : List TransferTask)
    (state : TransferState) (error : Option String) :
    moveTask path source destination state error = none ↔
      ∀ task ∈ source, task.operation.path ≠ path := by
  unfold moveTask
  split
  · rename_i hfind
    simpa using hfind
  · rename_i task hfind
    have hpath : task.operation.path = path := by simpa using List.find?_some hfind
    simp only [reduceCtorEq, false_iff, not_forall, not_not]
    exact ⟨task, List.mem_of_find?_eq_some hfind, hpath⟩

theorem moveOpen_eq_none {destination : List TransferTask} {state : TransferState}
    {error : Option String} :
    c.moveOpen path destination state error = none ↔
      ∀ task ∈ c.openLists.flatten, task.operation.path ≠ path := by
  have hlists : (∀ task ∈ c.openLists.flatten, task.operation.path ≠ path) ↔
      (∀ task ∈ c.active, task.operation.path ≠ path) ∧
      (∀ task ∈ c.pendingDeletes, task.operation.path ≠ path) ∧
      ∀ task ∈ c.pendingDirectoryCreates, task.operation.path ≠ path := by
    simp [openLists, or_imp, forall_and]
  rw [hlists, ← moveTask_eq_none destination state error, ← moveTask_eq_none destination state error,
    ← moveTask_eq_none destination state error]
  unfold moveOpen
  cases moveTask path c.active destination state error with
  | some moved => simp
  | none =>
    cases moveTask path c.pendingDeletes destination state error with
    | some moved => simp
    | none => cases moveTask path c.pendingDirectoryCreates destination state error <;> simp

theorem mark_eq_none (outcome : Option String) :
    c.mark path outcome = none ↔ ∀ task ∈ c.openLists.flatten, task.operation.path ≠ path := by
  cases outcome with
  | none => rw [mark, markCompleted, Option.map_eq_none_iff, moveOpen_eq_none]
  | some message => rw [mark, markFailed, Option.map_eq_none_iff, moveOpen_eq_none]

theorem mark_ne_self {c' : Coordinator} {outcome : Option String} (h : c.mark path outcome = some c') :
    c' ≠ c := by
  rintro rfl
  cases outcome with
  | none =>
    obtain ⟨⟨d, completed⟩, hmove, hd⟩ := Option.map_eq_some_iff.mp h
    obtain ⟨task, moved, -, -, -, hdest, -, -⟩ := moveOpen_perm hmove
    have hcompleted := congrArg (·.completed.length) hd
    simp [hdest] at hcompleted
  | some message =>
    obtain ⟨⟨d, failed⟩, hmove, hd⟩ := Option.map_eq_some_iff.mp h
    obtain ⟨task, moved, -, -, -, hdest, -, -⟩ := moveOpen_perm hmove
    have hfailed := congrArg (·.failed.length) hd
    simp [hdest] at hfailed

end Coordinator

/-! ## The end of a transfer -/

namespace EngineShell

variable (s : EngineShell)

def coordinator : Side → Coordinator
  | .Upload => s.uploads
  | .Download => s.downloads

def withCoordinator (side : Side) (c : Coordinator) : EngineShell :=
  match side with
  | .Upload => { s with uploads := c }
  | .Download => { s with downloads := c }

def withDispatched (dispatchedOperations : List PlannedOperation) : EngineShell :=
  { s with scheduler := { s.scheduler with dispatchedOperations } }

/-- What the end of a transfer should do: this one task moves, and a completed one leaves the
dispatched operations. -/
def credited (side : Side) (task : TransferTask) (outcome : Option String) : EngineShell :=
  let c := s.coordinator side
  (s.withCoordinator side (c.settled (c.active.erase task) task outcome)).withDispatched
    (match outcome with
      | none => s.scheduler.dispatchedOperations.erase task.operation
      | some _ => s.scheduler.dispatchedOperations)

/-- The task is the first that its path finds, and nothing else dispatched has its root and
path. -/
structure Identified (side : Side) (task : TransferTask) (outcome : Option String) : Prop where
  noUpload : side = .Download →
    ∀ other ∈ s.uploads.openLists.flatten, other.operation.path ≠ task.operation.path
  first : (s.coordinator side).active.find? (·.operation.path = task.operation.path) = some task
  noSibling : outcome = none →
    ∀ op ∈ s.scheduler.dispatchedOperations.erase task.operation, op.key ≠ task.operation.key

/-- The dispatched operations once a transfer ended so. -/
def acked (op : PlannedOperation) (outcome : Option String) : List PlannedOperation :=
  match outcome with
  | none => s.scheduler.dispatchedOperations.filter fun other => other.key ≠ op.key
  | some _ => s.scheduler.dispatchedOperations

variable {s}

theorem finishTransfer_upload {op : PlannedOperation} {outcome : Option String} {c : Coordinator}
    (h : s.uploads.mark op.path outcome = some c) :
    (Runtime.finishTransfer s op outcome).2 =
      (s.withCoordinator .Upload c).withDispatched (s.acked op outcome) := by
  cases outcome with
  | none =>
    simp only [Coordinator.mark] at h
    simp only [Runtime.finishTransfer, markTransferCompleted, h]
    simp [ackDispatchedPath, Scheduler.ackBatch, withDispatched, withCoordinator, acked,
      PlannedOperation.key]
  | some message =>
    simp only [Coordinator.mark] at h
    simp only [Runtime.finishTransfer, markTransferFailed, h]
    rfl

theorem finishTransfer_download {op : PlannedOperation} {outcome : Option String} {c : Coordinator}
    (hnone : s.uploads.mark op.path outcome = none) (h : s.downloads.mark op.path outcome = some c) :
    (Runtime.finishTransfer s op outcome).2 =
      (s.withCoordinator .Download c).withDispatched (s.acked op outcome) := by
  cases outcome with
  | none =>
    simp only [Coordinator.mark] at h hnone
    simp only [Runtime.finishTransfer, markTransferCompleted, hnone, h]
    simp [ackDispatchedPath, Scheduler.ackBatch, withDispatched, withCoordinator, acked,
      PlannedOperation.key]
  | some message =>
    simp only [Coordinator.mark] at h hnone
    simp only [Runtime.finishTransfer, markTransferFailed, hnone, h]
    rfl

theorem acked_eq_iff (op : PlannedOperation) (outcome : Option String) :
    s.acked op outcome = (match outcome with
      | none => s.scheduler.dispatchedOperations.erase op
      | some _ => s.scheduler.dispatchedOperations) ↔
    (outcome = none → ∀ other ∈ s.scheduler.dispatchedOperations.erase op, other.key ≠ op.key) := by
  cases outcome with
  | none => simp [acked, filter_eq_erase_iff]
  | some message => simp [acked]

theorem withDispatched_inj {side : Side} {c d : Coordinator}
    {x y : List PlannedOperation} :
    (s.withCoordinator side c).withDispatched x = (s.withCoordinator side d).withDispatched y ↔
      c = d ∧ x = y := by
  cases side <;> simp [withCoordinator, withDispatched, and_comm]

theorem credits_iff_of_mark {side : Side} {task first : TransferTask} {outcome : Option String}
    (hfirst : (s.coordinator side).active.find? (·.operation.path = task.operation.path) = some first)
    (hend : (Runtime.finishTransfer s task.operation outcome).2 = (s.withCoordinator side
      ((s.coordinator side).settled ((s.coordinator side).active.erase first) first outcome)).withDispatched
        (s.acked task.operation outcome)) :
    (Runtime.finishTransfer s task.operation outcome).2 = s.credited side task outcome ↔
      first = task ∧ (outcome = none → ∀ op ∈ s.scheduler.dispatchedOperations.erase task.operation,
        op.key ≠ task.operation.key) := by
  rw [hend]
  unfold credited
  rw [withDispatched_inj, acked_eq_iff]
  refine and_congr_left' ⟨?_, ?_⟩
  · exact Coordinator.settled_inj (List.mem_of_find?_eq_some hfirst)
  · rintro rfl
    rfl

/-- The calls that end a transfer credit it, and nothing else, exactly when its task is the
first one at its path, the upload coordinator included, and, if it completed, no other
operation of its root and path is dispatched. -/
theorem finishTransfer_credits_iff (side : Side) (task : TransferTask)
    (h : task ∈ (s.coordinator side).active) (outcome : Option String) :
    (Runtime.finishTransfer s task.operation outcome).2 = s.credited side task outcome ↔
      s.Identified side task outcome := by
  have hfound : ∃ first, (s.coordinator side).active.find?
      (·.operation.path = task.operation.path) = some first := by
    rw [← Option.isSome_iff_exists, List.find?_isSome]
    exact ⟨task, h, by simp⟩
  obtain ⟨first, hfirst⟩ := hfound
  have hmark := Coordinator.mark_of_find hfirst outcome
  cases side with
  | Upload =>
    rw [credits_iff_of_mark hfirst (finishTransfer_upload hmark)]
    constructor
    · rintro ⟨rfl, hsibling⟩
      exact ⟨nofun, hfirst, hsibling⟩
    · rintro ⟨-, htask, hsibling⟩
      exact ⟨Option.some.inj (hfirst.symm.trans htask), hsibling⟩
  | Download =>
    cases hupload : s.uploads.mark task.operation.path outcome with
    | none =>
      have hnoUpload := (Coordinator.mark_eq_none outcome).mp hupload
      rw [credits_iff_of_mark hfirst (finishTransfer_download hupload hmark)]
      constructor
      · rintro ⟨rfl, hsibling⟩
        exact ⟨fun _ => hnoUpload, hfirst, hsibling⟩
      · rintro ⟨-, htask, hsibling⟩
        exact ⟨Option.some.inj (hfirst.symm.trans htask), hsibling⟩
    | some uploads =>
      -- An upload-side task at the path takes the mark.
      refine iff_of_false ?_ ?_
      · intro heq
        rw [finishTransfer_upload hupload] at heq
        exact Coordinator.mark_ne_self hupload (congrArg EngineShell.uploads heq)
      · intro hid
        have hnone := (Coordinator.mark_eq_none outcome).mpr (hid.noUpload rfl)
        rw [hupload] at hnone
        cases hnone

/-- One root downloads the file at `a`, nothing else is open: the completion is credited. -/
theorem finishTransfer_credits_alone :
    let s := Runs.run step (fresh 1024 4 4) [.ingestCandidates
      [⟨⟨1⟩, .Remote, "a", .File, .Upsert, some ⟨5⟩, none⟩], .advanceTransferCycle]
    (Runtime.finishTransfer s (.DownloadFile ⟨1⟩ "a" (some ⟨5⟩)) none).2 =
      s.credited .Download (startedTask (.DownloadFile ⟨1⟩ "a" (some ⟨5⟩))) none := by
  refine (finishTransfer_credits_iff .Download (startedTask (.DownloadFile ⟨1⟩ "a" (some ⟨5⟩)))
    ?_ none).mpr ⟨?_, ?_, ?_⟩
  all_goals decide +kernel

/-- Root 1 uploads a file `a` while root 2 downloads one. The end of the download completes
the upload. -/
theorem download_completes_upload :
    let s := Runs.run step (fresh 1024 4 4)
      [.ingestCandidates [⟨⟨1⟩, .Local, "a", .File, .Upsert, none, none⟩],
        .ingestCandidates [⟨⟨2⟩, .Remote, "a", .File, .Upsert, some ⟨5⟩, none⟩], .advanceTransferCycle]
    let task := startedTask (.DownloadFile ⟨2⟩ "a" (some ⟨5⟩))
    task ∈ (s.coordinator .Download).active ∧
      (Runtime.finishTransfer s task.operation none).2 ≠ s.credited .Download task none ∧
      (Runtime.finishTransfer s task.operation none).2.uploads.completed.map (·.operation) =
        [.UploadFile ⟨1⟩ "a" none "a"] := by
  decide +kernel

end EngineShell

end Pcloud
