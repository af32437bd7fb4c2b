import Pcloud.Lib.Runs
import Pcloud.Engine.Isolation
import Pcloud.Engine.Outstanding

/-!
# Conflicts (`pcloud-engine/src/conflict_resolver.rs`)

A conflict waits in the queue, beside the work that is dispatched from it. It should leave the
list of unresolved conflicts only by a decision for it, or by a new plan for its path.
-/

open Runs

namespace Pcloud

/-! ## The resolver -/

inductive ConflictPolicy where
  | PreferLocal
  | PreferRemote
  | NewestWins
  | RenameBoth
  | Error
  | ManualReview
  deriving DecidableEq, Repr

inductive ConflictResolution where
  | Apply (operation : PlannedOperation)
  | ManualReview (path : String) (kind : ConflictKind) (reason : String)
  | RenameBoth (localRenamedPath remoteRenamedPath originalPath : String) (syncId : SyncId)
  deriving DecidableEq, Repr

def resolvePreferLocal (syncId : SyncId) (path : String) (kind : ConflictKind) : ConflictResolution :=
  match kind with
  | .LocalModifyVsRemoteModify | .RemoteDeleteVsLocalModify =>
    .Apply (.UploadFile syncId path none (basename path))
  | .LocalDeleteVsRemoteModify => .Apply (.DeleteRemote syncId path)
  | _ => .ManualReview path kind "conflict requires manual review even under prefer-local"

def resolvePreferRemote (syncId : SyncId) (path : String) (kind : ConflictKind) : ConflictResolution :=
  match kind with
  | .LocalModifyVsRemoteModify => .Apply (.DownloadFile syncId path none)
  | .LocalDeleteVsRemoteModify => .Apply (.DownloadFile syncId path none)
  | .RemoteDeleteVsLocalModify => .Apply (.DeleteLocal syncId path)
  | _ => .ManualReview path kind "conflict requires manual review even under prefer-remote"

/-- The newer side, and the server's on a tie or where a time is missing. -/
def resolveNewestWins (syncId : SyncId) (path : String) (kind : ConflictKind)
    (localMtimeSecs remoteMtimeSecs : Option Nat) : ConflictResolution :=
  match localMtimeSecs, remoteMtimeSecs with
  | some l, some r =>
    if l > r then resolvePreferLocal syncId path kind else resolvePreferRemote syncId path kind
  | _, _ => resolvePreferRemote syncId path kind

def rfind (c : Char) (text : List Char) : Option Nat :=
  (text.reverse.findIdx? (· = c)).map fun i => text.length - 1 - i

/-- `docs/report.txt` under `local` is `docs/report.conflict-local.txt`. -/
def conflictRenamePath (path label : String) : String :=
  let text := path.toList
  let lastSep := ((rfind '/' text).map (· + 1)).getD 0
  match rfind '.' text with
  | some dotPos =>
    if dotPos > lastSep then
      String.ofList (text.take dotPos) ++ ".conflict-" ++ label ++ "." ++
        String.ofList (text.drop (dotPos + 1))
    else path ++ ".conflict-" ++ label
  | none => path ++ ".conflict-" ++ label

def resolveRenameBoth (syncId : SyncId) (path : String) (kind : ConflictKind) : ConflictResolution :=
  match kind with
  | .LocalModifyVsRemoteModify =>
    .RenameBoth (conflictRenamePath path "local") (conflictRenamePath path "remote") path syncId
  | _ => .ManualReview path kind "rename-both: asymmetric conflict requires manual review"

def ConflictPolicy.resolve (defaultPolicy : ConflictPolicy) (operation : PlannedOperation)
    (localMtimeSecs remoteMtimeSecs : Option Nat) : Option ConflictResolution :=
  match operation with
  | .Conflict syncId path kind =>
    some (match defaultPolicy with
      | .PreferLocal => resolvePreferLocal syncId path kind
      | .PreferRemote => resolvePreferRemote syncId path kind
      | .NewestWins => resolveNewestWins syncId path kind localMtimeSecs remoteMtimeSecs
      | .RenameBoth => resolveRenameBoth syncId path kind
      | .Error | .ManualReview =>
        .ManualReview path kind "manual review required by conflict policy")
  | _ => none

def ConflictPolicy.ofString : String → ConflictPolicy
  | "prefer_local" => .PreferLocal
  | "prefer_remote" => .PreferRemote
  | "newest_wins" => .NewestWins
  | "rename_both" => .RenameBoth
  | _ => .ManualReview

/-! ## Listing and resolving -/

def PlannedOperation.isConflict : PlannedOperation → Bool
  | .Conflict .. => true
  | _ => false

def PlannedOperation.isConflictAt (path : String) (op : PlannedOperation) : Bool :=
  op.isConflict && op.path = path

/-- The name that `{kind:?}` prints. -/
def ConflictKind.label : ConflictKind → String
  | .LocalModifyVsRemoteModify => "LocalModifyVsRemoteModify"
  | .LocalDeleteVsRemoteModify => "LocalDeleteVsRemoteModify"
  | .RemoteDeleteVsLocalModify => "RemoteDeleteVsLocalModify"
  | .TypeMismatch => "TypeMismatch"
  | .RenameCollision => "RenameCollision"
  | .ParentPathConflict => "ParentPathConflict"
  | .ResumeChecksumMismatch => "ResumeChecksumMismatch"
  | .CryptoAvailabilityConflict => "CryptoAvailabilityConflict"

def PlannedOperation.listed : PlannedOperation → Option (String × String × UInt64)
  | .Conflict syncId path kind => some (path, kind.label, syncId.get)
  | _ => none

namespace EngineShell

variable (s : EngineShell)

def unresolvedConflictCount : Nat := s.scheduler.queuedOperations.countP (·.isConflict)

def listUnresolvedConflicts : List (String × String × UInt64) :=
  s.scheduler.queuedOperations.filterMap PlannedOperation.listed

def resolveConflictByPath (path policy : String) : Except String ConflictResolution × EngineShell :=
  match s.scheduler.queuedOperations.find? (·.isConflictAt path) with
  | none => (.error ("no queued conflict at path: " ++ path), s)
  | some op =>
    match (ConflictPolicy.ofString policy).resolve op none none with
    | none => (.error "conflict resolver returned None (internal error)", s)
    | some resolution =>
      (.ok resolution, s.withQueue
        (s.scheduler.queuedOperations.eraseP (·.isConflictAt path)))

end EngineShell

/-! ## Calls -/

inductive ConflictCall where
  | ingestCandidates (candidates : List SyncCandidate)
  | ingestCandidatesFiltered (candidates : List SyncCandidate) (deletePolicy : DeletePolicy)
  | advanceTransferCycle
  | resolveConflictByPath (path policy : String)

/-- The root and path that a decision is for. A manual review decides nothing. -/
def ConflictResolution.decidedFor : ConflictResolution → Option (SyncId × String)
  | .Apply operation => some operation.key
  | .RenameBoth _ _ originalPath syncId => some (syncId, originalPath)
  | .ManualReview .. => none

/-- The kinds that a policy decides. -/
def ConflictPolicy.decides (policy : ConflictPolicy) (kind : ConflictKind) : Bool :=
  match policy with
  | .PreferLocal | .PreferRemote | .NewestWins =>
    kind = .LocalModifyVsRemoteModify ∨ kind = .LocalDeleteVsRemoteModify ∨
      kind = .RemoteDeleteVsLocalModify
  | .RenameBoth => kind = .LocalModifyVsRemoteModify
  | .Error | .ManualReview => false

namespace EngineShell

variable (s : EngineShell)

def conflictStep : ConflictCall → EngineShell
  | .ingestCandidates candidates => s.ingestCandidates candidates
  | .ingestCandidatesFiltered candidates policy => s.ingestCandidatesFiltered candidates policy
  | .advanceTransferCycle => s.advanceTransferCycle
  | .resolveConflictByPath path policy => (s.resolveConflictByPath path policy).2

def Replans (candidates : List SyncCandidate) (syncId : SyncId) (path : String) : Prop :=
  ∃ op ∈ s.planner.plan (s.plannerOverflow ++ candidates), op.key = (syncId, path)

/-- What may take a conflict off the list: a decision for it, or a new plan for its path. -/
def SettlesConflict (syncId : SyncId) (path : String) : ConflictCall → Prop
  | .ingestCandidates candidates | .ingestCandidatesFiltered candidates _ =>
    s.Replans candidates syncId path
  | .advanceTransferCycle => False
  | .resolveConflictByPath at_ policy =>
    ∃ resolution, (s.resolveConflictByPath at_ policy).1 = .ok resolution ∧
      resolution.decidedFor = some (syncId, path)

/-- Every conflict that the call does not settle stays listed. -/
def KeepsConflicts (call : ConflictCall) : Prop :=
  ∀ syncId path kind, ¬ s.SettlesConflict syncId path call →
    s.listUnresolvedConflicts.count (path, ConflictKind.label kind, syncId.get) ≤
      (s.conflictStep call).listUnresolvedConflicts.count (path, ConflictKind.label kind, syncId.get)

def batchRoot (candidates : List SyncCandidate) : Option SyncId :=
  singleSyncId (s.plannerOverflow ++ candidates)

/-- No conflict of the batch's root goes unplanned: the ingest replaces that root's queue. -/
def IngestsConflicts (candidates : List SyncCandidate) : Prop :=
  ∀ syncId path kind, .Conflict syncId path kind ∈ s.scheduler.queuedOperations →
    (∃ root, s.batchRoot candidates = some root ∧ syncId ≠ root) ∨ s.Replans candidates syncId path

/-- The condition, call by call. -/
def ConflictSafe : ConflictCall → Prop
  | .ingestCandidates candidates | .ingestCandidatesFiltered candidates _ =>
    s.IngestsConflicts candidates
  | .advanceTransferCycle => ∀ op ∈ s.scheduler.queuedOperations, op.isConflict = false
  | .resolveConflictByPath path policy =>
    ∀ syncId kind, s.scheduler.queuedOperations.find? (·.isConflictAt path) =
      some (.Conflict syncId path kind) → (ConflictPolicy.ofString policy).decides kind

/-! ## What is listed -/

variable {s}

theorem label_injective : Function.Injective ConflictKind.label := by
  intro a b h
  cases a <;> cases b <;> simp_all [ConflictKind.label]

theorem listed_eq_iff {op : PlannedOperation} {syncId : SyncId} {path : String} {kind : ConflictKind} :
    op.listed = some (path, kind.label, syncId.get) ↔ op = .Conflict syncId path kind := by
  constructor
  · intro h
    cases op with
    | Conflict i p k =>
      simp only [PlannedOperation.listed, Option.some.injEq, Prod.mk.injEq] at h
      obtain ⟨rfl, hkind, hid⟩ := h
      rw [label_injective hkind, show i = syncId by cases i; cases syncId; simpa using hid]
    | _ => cases h
  · rintro rfl
    rfl

theorem count_listed (syncId : SyncId) (path : String) (kind : ConflictKind) :
    s.listUnresolvedConflicts.count (path, kind.label, syncId.get) =
      s.scheduler.queuedOperations.count (.Conflict syncId path kind) := by
  rw [listUnresolvedConflicts, List.count_filterMap, List.count]
  apply List.countP_congr
  intro op _
  simp [listed_eq_iff]

theorem length_listUnresolvedConflicts :
    s.listUnresolvedConflicts.length = s.unresolvedConflictCount := by
  rw [listUnresolvedConflicts, unresolvedConflictCount, List.length_filterMap_eq_countP]
  apply List.countP_congr
  intro op _
  cases op <;> simp [PlannedOperation.listed, PlannedOperation.isConflict]

/-! ## Ingest -/

theorem keepsConflicts_ingest_iff (candidates : List SyncCandidate) (policy : DeletePolicy) :
    s.KeepsConflicts (.ingestCandidatesFiltered candidates policy) ↔ s.IngestsConflicts candidates := by
  simp only [KeepsConflicts, SettlesConflict, conflictStep, count_listed]
  constructor
  · intro hkeeps syncId path kind hmem
    by_cases hplan : s.Replans candidates syncId path
    · exact .inr hplan
    · have hcount := hkeeps syncId path kind hplan
      have hstays := List.count_pos_iff.mp ((List.count_pos_iff.mpr hmem).trans_le hcount)
      rcases mem_ingest_queue.mp hstays with ⟨root, hroot, -, hne⟩ | hplanned
      · exact .inl ⟨root, hroot, hne⟩
      · exact absurd ⟨_, List.mem_of_mem_filter hplanned, rfl⟩ hplan
  · intro hsafe syncId path kind hplan
    by_cases hmem : .Conflict syncId path kind ∈ s.scheduler.queuedOperations
    · rcases hsafe syncId path kind hmem with ⟨root, hroot, hne⟩ | hreplans
      · exact count_ingest_queue hroot hne
      · exact absurd hreplans hplan
    · rw [List.count_eq_zero_of_not_mem hmem]
      exact Nat.zero_le _

/-! ## Dispatch -/

def QueueSorted (s : EngineShell) : Prop :=
  s.scheduler.queuedOperations.Pairwise PlannedOperation.Before

theorem isConflict_iff_priority {op : PlannedOperation} : op.isConflict = true ↔ op.priority = 0 := by
  cases op <;> simp [PlannedOperation.isConflict, PlannedOperation.priority]

theorem first_isConflict {first op : PlannedOperation} {rest : List PlannedOperation}
    (hsorted : (first :: rest).Pairwise PlannedOperation.Before) (hop : op ∈ first :: rest)
    (hconflict : op.isConflict = true) : first.isConflict = true := by
  rw [isConflict_iff_priority] at hconflict ⊢
  rcases List.mem_cons.mp hop with rfl | hop
  · exact hconflict
  · rcases List.rel_of_pairwise_cons hsorted hop with hlt | ⟨heq, -⟩
    · omega
    · exact heq.trans hconflict

theorem keepsConflicts_advance_iff (hsorted : s.QueueSorted) :
    s.KeepsConflicts .advanceTransferCycle ↔
      ∀ op ∈ s.scheduler.queuedOperations, op.isConflict = false := by
  simp only [KeepsConflicts, SettlesConflict, conflictStep, count_listed]
  constructor
  · intro hkeeps op hop
    by_contra hconflict
    obtain ⟨first, rest, hqueue⟩ := List.exists_cons_of_ne_nil (List.ne_nil_of_mem hop)
    have hfirst : first.isConflict = true := by
      unfold QueueSorted at hsorted
      rw [hqueue] at hsorted hop
      exact first_isConflict hsorted hop (by simpa using hconflict)
    cases first with
    | Conflict syncId path kind =>
      have hkept := hkeeps syncId path kind not_false
      have htaken := List.count_pos_iff.mpr (s.scheduler.head_mem_nextBatch hqueue)
      have hcount := s.scheduler.nextBatch_perm.count_eq (.Conflict syncId path kind)
      rw [List.count_append] at hcount
      have hqueue' : s.advanceTransferCycle.scheduler.queuedOperations =
          s.scheduler.nextBatch.2.queuedOperations := rfl
      rw [hqueue'] at hkept
      omega
    | _ => cases hfirst
  · intro hnone syncId path kind _
    have hmem : .Conflict syncId path kind ∉ s.scheduler.queuedOperations := by
      intro hmem
      cases hnone _ hmem
    rw [List.count_eq_zero_of_not_mem hmem]
    exact Nat.zero_le _

/-! ## Resolution -/

theorem resolve_decidedFor (policy : ConflictPolicy) (syncId : SyncId) (path : String)
    (kind : ConflictKind) :
    ∃ resolution, policy.resolve (.Conflict syncId path kind) none none = some resolution ∧
      resolution.decidedFor = if policy.decides kind then some (syncId, path) else none := by
  cases policy <;> cases kind <;> exact ⟨_, rfl, rfl⟩

theorem resolveConflictByPath_of_none {path policy : String}
    (h : s.scheduler.queuedOperations.find? (·.isConflictAt path) = none) :
    (s.resolveConflictByPath path policy).2 = s := by
  simp only [resolveConflictByPath, h]

theorem resolveConflictByPath_of_some (policy : String) {path : String} {syncId : SyncId} {kind : ConflictKind}
    (h : s.scheduler.queuedOperations.find? (·.isConflictAt path) = some (.Conflict syncId path kind)) :
    ∃ resolution, s.resolveConflictByPath path policy = (.ok resolution, s.withQueue
        (s.scheduler.queuedOperations.eraseP (·.isConflictAt path))) ∧
      resolution.decidedFor =
        if (ConflictPolicy.ofString policy).decides kind then some (syncId, path) else none := by
  obtain ⟨resolution, hresolve, hfor⟩ :=
    resolve_decidedFor (ConflictPolicy.ofString policy) syncId path kind
  refine ⟨resolution, ?_, hfor⟩
  simp only [resolveConflictByPath, h, hresolve]

theorem find_conflictAt {path : String} {op : PlannedOperation}
    (h : s.scheduler.queuedOperations.find? (·.isConflictAt path) = some op) :
    ∃ syncId kind, op = .Conflict syncId path kind := by
  have hat := List.find?_some h
  cases op with
  | Conflict syncId p kind =>
    simp only [PlannedOperation.isConflictAt, PlannedOperation.isConflict, PlannedOperation.path,
      Bool.true_and] at hat
    exact ⟨syncId, kind, by rw [of_decide_eq_true hat]⟩
  | _ => cases hat

theorem keepsConflicts_resolve_iff (path policy : String) :
    s.KeepsConflicts (.resolveConflictByPath path policy) ↔
      s.ConflictSafe (.resolveConflictByPath path policy) := by
  simp only [KeepsConflicts, SettlesConflict, ConflictSafe, conflictStep, count_listed]
  cases hfind : s.scheduler.queuedOperations.find? (·.isConflictAt path) with
  | none =>
    rw [resolveConflictByPath_of_none hfind]
    simp
  | some op =>
    obtain ⟨syncId, kind, rfl⟩ := find_conflictAt hfind
    obtain ⟨resolution, hresult, hfor⟩ := resolveConflictByPath_of_some policy hfind
    have hperm := perm_cons_eraseP hfind
    rw [hresult]
    constructor
    · intro hkeeps i k heq
      obtain ⟨rfl, -, rfl⟩ := PlannedOperation.Conflict.inj (Option.some.inj heq)
      by_contra hundecided
      have hkept := hkeeps syncId path kind ?_
      · have hcount := hperm.count_eq (.Conflict syncId path kind)
        rw [List.count_cons_self] at hcount
        change _ ≤ (s.scheduler.queuedOperations.eraseP (·.isConflictAt path)).count _ at hkept
        omega
      · rintro ⟨r, hr, hdecided⟩
        rw [← Except.ok.inj hr, hfor, if_neg hundecided] at hdecided
        cases hdecided
    · intro hdecides i p k hunsettled
      rw [if_pos (hdecides syncId kind rfl)] at hfor
      have hne : PlannedOperation.Conflict syncId path kind ≠ .Conflict i p k := by
        intro heq
        obtain ⟨rfl, rfl, -⟩ := PlannedOperation.Conflict.inj heq
        exact hunsettled ⟨resolution, rfl, hfor⟩
      have hcount := hperm.count_eq (.Conflict i p k)
      rw [List.count_cons_of_ne hne] at hcount
      exact hcount.le

theorem keepsConflicts_iff (hsorted : s.QueueSorted) (call : ConflictCall) :
    s.KeepsConflicts call ↔ s.ConflictSafe call := by
  cases call with
  | ingestCandidates candidates =>
    have hiff := keepsConflicts_ingest_iff (s := s) candidates {}
    simpa only [KeepsConflicts, SettlesConflict, conflictStep, ingestCandidates_eq, ConflictSafe] using hiff
  | ingestCandidatesFiltered candidates policy => exact keepsConflicts_ingest_iff candidates policy
  | advanceTransferCycle => exact keepsConflicts_advance_iff hsorted
  | resolveConflictByPath path policy => exact keepsConflicts_resolve_iff path policy

/-! ## The queue stays sorted -/

theorem queueSorted_ingest (candidates : List SyncCandidate) (policy : DeletePolicy) :
    (s.ingestCandidatesFiltered candidates policy).QueueSorted := by
  unfold QueueSorted
  rw [ingestCandidatesFiltered_eq, enqueue]
  cases singleSyncId (s.plannerOverflow ++ candidates) with
  | none => exact List.pairwise_insertionSort PlannedOperation.Before _
  | some syncId => exact List.pairwise_insertionSort PlannedOperation.Before _

theorem queueSorted_step (h : s.QueueSorted) (call : EngineCall) : (s.step call).QueueSorted := by
  have hdrop : ∀ syncId, (s.dropWork syncId).QueueSorted := fun _ => h.sublist List.filter_sublist
  rcases call with c | ⟨c, p⟩ | _ | p | ⟨p, e⟩ | ⟨i, p⟩ | i | i | i | c | o
  case ingestCandidates =>
    simp only [step, ingestCandidates_eq]
    exact queueSorted_ingest c {}
  case ingestCandidatesFiltered => exact queueSorted_ingest c p
  case advanceTransferCycle => exact h.sublist s.scheduler.nextBatch_sublist
  case markTransferCompleted =>
    simp only [step, QueueSorted, markTransferCompleted_scheduler]
    exact h
  case markTransferFailed =>
    simp only [step, QueueSorted, markTransferFailed_scheduler]
    exact h
  case ackDispatchedPath => exact h
  case restorePlannerOverflow => exact h
  case resumeSyncRoot => exact h
  case evictSyncRoot => exact hdrop i
  case pauseSyncRoot =>
    simp only [step, pauseSyncRoot]
    split
    · exact h
    · exact hdrop i
  case restoreSchedulerQueue => exact List.pairwise_insertionSort PlannedOperation.Before o

theorem queueSorted_conflictStep (h : s.QueueSorted) (call : ConflictCall) :
    (s.conflictStep call).QueueSorted := by
  cases call with
  | ingestCandidates candidates => exact queueSorted_step h (.ingestCandidates candidates)
  | ingestCandidatesFiltered candidates policy => exact queueSorted_ingest candidates policy
  | advanceTransferCycle => exact queueSorted_step h .advanceTransferCycle
  | resolveConflictByPath path policy =>
    simp only [conflictStep]
    cases hfind : s.scheduler.queuedOperations.find? (·.isConflictAt path) with
    | none =>
      rw [resolveConflictByPath_of_none hfind]
      exact h
    | some op =>
      obtain ⟨syncId, kind, rfl⟩ := find_conflictAt hfind
      obtain ⟨resolution, hresult, -⟩ := resolveConflictByPath_of_some policy hfind
      rw [hresult]
      exact h.sublist List.eraseP_sublist

theorem queueSorted_run (m : Nat) (up down : UInt64) (calls : List EngineCall) :
    (run step (fresh m up down) calls).QueueSorted :=
  run_invariant List.Pairwise.nil fun _ call h => queueSorted_step h call

/-- From every reachable state, a run keeps every conflict listed until it is settled exactly
when it dispatches no conflict, resolves none by a policy that does not decide its kind, and
ingests nothing of a conflict's root without planning the conflict's path. -/
theorem conflicts_kept_iff (m : Nat) (up down : UInt64) (before : List EngineCall) (calls : List ConflictCall) :
    AllSteps conflictStep KeepsConflicts (run step (fresh m up down) before) calls ↔
      AllSteps conflictStep ConflictSafe (run step (fresh m up down) before) calls := by
  refine allSteps_congr (queueSorted_run m up down before) ?_ ?_
  · intro s call h
    exact keepsConflicts_iff h call
  · intro s call h _
    exact queueSorted_conflictStep h call

/-- A file changed on both sides is a conflict. The next dispatch takes it off the list; so
does a manual review, which decides nothing. -/
theorem conflicts_dropped :
    let both : ConflictCall := .ingestCandidates
      [⟨⟨1⟩, .Local, "a", .File, .Upsert, none, none⟩, ⟨⟨1⟩, .Remote, "a", .File, .Upsert, none, none⟩]
    ¬ AllSteps conflictStep KeepsConflicts (run step (fresh 1024 4 4) []) [both, .advanceTransferCycle] ∧
      ¬ AllSteps conflictStep KeepsConflicts (run step (fresh 1024 4 4) [])
        [both, .resolveConflictByPath "a" "manual_review"] := by
  intro both
  constructor
  · rintro ⟨-, hkeeps, -⟩
    have hcount := hkeeps ⟨1⟩ "a" .LocalModifyVsRemoteModify not_false
    revert hcount
    decide +kernel
  · rintro ⟨-, hkeeps, -⟩
    have hcount := hkeeps ⟨1⟩ "a" .LocalModifyVsRemoteModify ?_
    · revert hcount
      decide +kernel
    · rintro ⟨resolution, hresult, hfor⟩
      have hreview : ((((fresh 1024 4 4).conflictStep both).resolveConflictByPath "a" "manual_review").1.toOption.bind
          ConflictResolution.decidedFor) = none := by decide +kernel
      have hresult' : (((fresh 1024 4 4).conflictStep both).resolveConflictByPath "a" "manual_review").1 =
          .ok resolution := hresult
      rw [hresult'] at hreview
      simp only [Except.toOption, Option.bind_some, hfor] at hreview
      cases hreview

end EngineShell

end Pcloud
