import Pcloud.Lib.Runs
import Pcloud.Daemon.Direction
import Pcloud.Daemon.Turn

/-!
# Crashes

The store is written in several steps: the overflow, then the cursor in a poll, the overflow,
then the queue in a scan, the queue in an advance. A crash leaves what was written so far. The
poll never writes the queue, so what it plans is lost with the cursor already moved. Changes
are safe only while they wait in the overflow.
-/

open Runs

namespace Pcloud

/-! ## The server's log -/

/-- The change of each diff id, ids from 1 on. -/
abbrev DiffLog := Nat → Option DiffEntry

/-- The answer to a request from `cursor` on: the changes after it, up to some id. -/
def DiffLog.answer (log : DiffLog) (cursor upTo : Nat) : DiffBatch where
  diffId := upTo
  hasMore := false
  entries := (List.range' (cursor + 1) (upTo - cursor)).filterMap log

/-- A call, with the server's choice of how far it answers. `none` is a request that fails. -/
inductive CycleCall where
  | pollRemoteDiff (root : SyncRootRecord) (upTo : Option Nat)
  | runLocalScan (root : SyncRootRecord) (input : Runtime.ScanInput)
  | advanceTransfers
  | executeDownloads (outcomes : Runtime.Outcomes)
  | executeUploads (outcomes : Runtime.Outcomes)

def CycleCall.toSyncCall (log : DiffLog) (store : Store) : CycleCall → SyncCall
  | .pollRemoteDiff root upTo => .pollRemoteDiff root (upTo.map (log.answer (store.cursor root.syncId)))
  | .runLocalScan root input => .runLocalScan root input
  | .advanceTransfers => .advanceTransfers
  | .executeDownloads outcomes => .executeDownloads outcomes
  | .executeUploads outcomes => .executeUploads outcomes

/-! ## Writes -/

/-- The store after each write of a call. -/
def Runtime.writes (rt : Runtime) : SyncCall → List Store
  | .pollRemoteDiff root response =>
    match pollCandidates response with
    | none => []
    | some candidates =>
      [(rt.ingest root candidates).persistPlannerOverflow.store,
        (rt.pollRemoteDiff root response).2.store]
  | .runLocalScan root input =>
    match rt.scanCandidates root input with
    | none => []
    | some candidates =>
      [(rt.ingest root candidates).persistPlannerOverflow.store, (rt.runLocalScan root input).2.store]
  | .advanceTransfers => [rt.advanceTransfers.2.store]
  | .executeDownloads _ | .executeUploads _ => []

/-! ## What became of each change -/

def succeeded (tasks : List TransferTask) (executes : PlannedOperation → Bool)
    (outcomes : Runtime.Outcomes) : List PlannedOperation :=
  (tasks.zipIdx.filter fun (task, i) => executes task.operation && (outcomes i).isNone).map
    (·.1.operation)

def Runtime.executedBy (rt : Runtime) : SyncCall → List PlannedOperation
  | .executeDownloads outcomes => succeeded rt.engine.downloads.active executesDownload outcomes
  | .executeUploads outcomes => succeeded rt.engine.uploads.active executesUpload outcomes
  | _ => []

/-- The candidates at the paths whose operation the policy suppresses. -/
def EngineShell.suppressedBy (s : EngineShell) (policy : DeletePolicy) (combined : List SyncCandidate) :
    List SyncCandidate :=
  combined.filter fun c => (s.planner.plan combined).any fun op => op.path = c.path && policy.suppresses op

/-- The runtime, with all operations executed so far and the changes whose operation was
suppressed when they were last ingested. -/
structure Journal where
  rt : Runtime
  executed : List PlannedOperation := []
  suppressed : List SyncCandidate := []

namespace Journal

def suppressedAfter (j : Journal) (call : SyncCall) : List SyncCandidate :=
  match j.rt.ingests call with
  | none => j.suppressed
  | some (policy, candidates) =>
    let combined := j.rt.engine.plannerOverflow ++ candidates
    j.suppressed.filter (· ∉ combined) ++ j.rt.engine.suppressedBy policy combined

def apply (j : Journal) (call : SyncCall) : Journal where
  rt := j.rt.step call
  executed := j.executed ++ j.rt.executedBy call
  suppressed := j.suppressedAfter call

def step (log : DiffLog) (j : Journal) (call : CycleCall) : Journal :=
  j.apply (call.toSyncCall log j.rt.store)

end Journal

/-- Some root's cursor has passed the change. -/
def Reported (log : DiffLog) (store : Store) (c : SyncCandidate) : Prop :=
  ∃ syncId id entry, 0 < id ∧ id ≤ store.cursor syncId ∧ log id = some entry ∧ c = remoteCandidate entry

/-- Each change that a cursor has passed is in the store, or was executed, or needs no
operation. -/
def Consistent (log : DiffLog) (store : Store) (executed : List PlannedOperation)
    (suppressed : List SyncCandidate) : Prop :=
  ∀ c, Reported log store c → c ∈ store.plannerOverflow ∨ c ∈ suppressed ∨
    ∃ op ∈ store.schedulerQueue ++ executed, Represents op c

/-- The store is consistent before the call and after each write that the call makes. -/
def CrashConsistent (log : DiffLog) (j : Journal) (call : CycleCall) : Prop :=
  Consistent log j.rt.store j.executed j.suppressed ∧
    ∀ store ∈ j.rt.writes (call.toSyncCall log j.rt.store),
      Consistent log store (j.step log call).executed (j.step log call).suppressed

/-- The store takes what the call polls, if it polls. -/
def Accepts (log : DiffLog) (store : Store) : CycleCall → Prop
  | .pollRemoteDiff root (some upTo) =>
    Storable store root (convertDiffBatch (log.answer (store.cursor root.syncId) upTo))
  | _ => True

/-- The ingest of the call, if it makes one, plans no change that a cursor has passed or is about to
pass, and cuts none off: each one stays in the overflow or is suppressed. -/
def RemoteWaits (log : DiffLog) (j : Journal) (call : CycleCall) : Prop :=
  ∀ policy candidates, j.rt.ingests (call.toSyncCall log j.rt.store) = some (policy, candidates) →
    ∀ c ∈ j.rt.engine.plannerOverflow ++ candidates,
      (Reported log j.rt.store c ∨ c ∈ candidates ∧ c.source = .Remote ∧ Accepts log j.rt.store call) →
        c ∈ j.rt.engine.deferred (j.rt.engine.plannerOverflow ++ candidates) ∨
        c ∈ j.rt.engine.suppressedBy policy (j.rt.engine.plannerOverflow ++ candidates)

/-! ## Restart -/

theorem restart_holds {log : DiffLog} {store : Store} {executed : List PlannedOperation}
    {suppressed : List SyncCandidate} (h : Consistent log store executed suppressed) {c : SyncCandidate}
    (hc : Reported log store c) (hneeded : c ∉ suppressed) (hopen : ∀ op ∈ executed, ¬ Represents op c)
    (roots : List SyncRootRecord) (fullScanInterval : Nat) (propagateDeletes : Bool) :
    (Runtime.new roots store fullScanInterval propagateDeletes).engine.Holds c := by
  rcases h c hc with hwaits | hsup | ⟨op, hop, hrep⟩
  · left
    rw [Runtime.new_overflow]
    exact hwaits
  · exact absurd hsup hneeded
  · rcases List.mem_append.mp hop with hstored | hexecuted
    · refine .inr ⟨op, List.mem_append_left _ ?_, hrep⟩
      exact (Runtime.mem_new_queue ..).mpr hstored
    · exact absurd hrep (hopen op hexecuted)

/-! ## The store after a call -/

namespace Runtime

variable {rt : Runtime} {call : SyncCall}

def operations (rt : Runtime) : List PlannedOperation :=
  rt.engine.scheduler.queuedOperations ++ rt.engine.scheduler.dispatchedOperations ++
    rt.store.schedulerQueue ++ rt.engine.downloads.active.map (·.operation)

theorem mem_operations {op : PlannedOperation} :
    op ∈ rt.operations ↔
      op ∈ rt.engine.scheduler.queuedOperations ∨ op ∈ rt.engine.scheduler.dispatchedOperations ∨
        op ∈ rt.store.schedulerQueue ∨ ∃ task ∈ rt.engine.downloads.active, task.operation = op := by
  simp [operations]

theorem operations_ingest {root : SyncRootRecord} {candidates : List SyncCandidate}
    {op : PlannedOperation} (h : op ∈ (rt.ingest root candidates).persistPlannerOverflow.operations) :
    op ∈ rt.operations ∨ op ∈ rt.engine.planned candidates (rt.deletePolicy root) := by
  unfold ingest persistPlannerOverflow at h
  rw [mem_operations] at h ⊢
  simp only [EngineShell.mem_ingest_queue, EngineShell.ingest_dispatched, EngineShell.ingest_downloads] at h
  rcases h with (⟨-, -, hop, -⟩ | hop) | hop | hop | hop
  · exact .inl (.inl hop)
  · exact .inr hop
  · exact .inl (.inr (.inl hop))
  · exact .inl (.inr (.inr (.inl hop)))
  · exact .inl (.inr (.inr (.inr hop)))

@[simp]
theorem operations_committed (root : SyncRootRecord) (batch : RemoteDiffBatch) :
    (rt.committed root batch).operations = rt.operations := by
  unfold operations
  rw [committed_engine, committed_queue]

theorem operations_persist {op : PlannedOperation} (h : op ∈ rt.persistSchedulerQueue.operations) :
    op ∈ rt.operations := by
  rw [mem_operations] at h ⊢
  rcases h with hop | hop | hop | hop
  · exact .inl hop
  · exact .inr (.inl hop)
  · rcases List.mem_append.mp (rt.engine.snapshot_subset hop) with hqueue | hsent
    · exact .inl hqueue
    · exact .inr (.inl hsent)
  · exact .inr (.inr (.inr hop))

theorem operations_advance {op : PlannedOperation} (h : op ∈ rt.advanceTransfers.2.operations) :
    op ∈ rt.operations := by
  have hcycle : op ∈ ({ rt with engine := rt.engine.advanceTransferCycle } : Runtime).operations := by
    unfold advanceTransfers at h
    simp only at h
    split at h
    · exact operations_persist h
    · exact h
  have hmoved : op ∈ rt.engine.scheduler.nextBatch.1 ∨ op ∈ rt.engine.scheduler.nextBatch.2.queuedOperations →
      op ∈ rt.engine.scheduler.queuedOperations := rt.engine.scheduler.mem_nextBatch.mpr
  rw [mem_operations] at hcycle ⊢
  rcases hcycle with hop | hop | hop | ⟨task, htask, rfl⟩
  · exact .inl (hmoved (.inr hop))
  · rcases List.mem_append.mp hop with hop | hop
    · exact .inr (.inl hop)
    · exact .inl (hmoved (.inl hop))
  · exact .inr (.inr (.inl hop))
  · obtain ⟨op, hop, rfl⟩ := List.mem_map.mp htask
    exact .inl (hmoved (.inl (List.mem_filter.mp hop).1))

theorem operations_execute {tasks : List TransferTask} {executes : PlannedOperation → Bool}
    {outcomes : Outcomes} {op : PlannedOperation}
    (h : op ∈ (rt.executeTasks tasks executes outcomes).2.operations) : op ∈ rt.operations := by
  obtain ⟨u, d, sent, hactive, hsent, heq⟩ := rt.executeTasks_engine tasks executes outcomes
  rw [mem_operations, heq] at h
  rw [mem_operations]
  rcases h with hop | hop | hop | ⟨task, htask, hop⟩
  · exact .inl hop
  · exact .inr (.inl (hsent.subset hop))
  · exact .inr (.inr (.inl hop))
  · exact .inr (.inr (.inr ⟨task, hactive.subset htask, hop⟩))

theorem operations_step_of_no_ingest (h : rt.ingests call = none) {op : PlannedOperation}
    (hop : op ∈ (rt.step call).operations) : op ∈ rt.operations := by
  cases call with
  | pollRemoteDiff root response =>
    rw [step, rt.pollRemoteDiff_of_none (Option.map_eq_none_iff.mp h)] at hop
    exact hop
  | runLocalScan root input =>
    obtain ⟨tracker, heq⟩ := rt.runLocalScan_of_none (Option.map_eq_none_iff.mp h)
    rw [step, heq] at hop
    exact hop
  | advanceTransfers => exact operations_advance hop
  | executeDownloads outcomes => exact operations_execute hop
  | executeUploads outcomes => exact operations_execute hop

theorem operations_step_of_ingests {policy : DeletePolicy} {candidates : List SyncCandidate}
    (h : rt.ingests call = some (policy, candidates)) {op : PlannedOperation}
    (hop : op ∈ (rt.step call).operations) :
    op ∈ rt.operations ∨ op ∈ rt.engine.planned candidates policy := by
  rcases ingests_cases h with ⟨root, answer, -, rfl, -, heq⟩ | ⟨root, input, tracker, -, rfl, -, heq⟩
  · rw [heq, operations_committed] at hop
    exact operations_ingest hop
  · rw [heq] at hop
    exact operations_ingest (operations_persist hop)

theorem executedBy_cases {op : PlannedOperation} (h : op ∈ rt.executedBy call) :
    op.writesRemote = true ∨ op ∈ rt.operations := by
  cases call with
  | executeDownloads outcomes =>
    obtain ⟨⟨task, i⟩, hmem, rfl⟩ := List.mem_map.mp h
    have htask := List.fst_mem_of_mem_zipIdx (List.mem_filter.mp hmem).1
    exact .inr (mem_operations.mpr (.inr (.inr (.inr ⟨task, htask, rfl⟩))))
  | executeUploads outcomes =>
    obtain ⟨⟨task, i⟩, hmem, rfl⟩ := List.mem_map.mp h
    have hexecutes := (List.mem_filter.mp hmem).2
    left
    cases hop : task.operation <;> simp_all [executesUpload, PlannedOperation.writesRemote]
  | pollRemoteDiff root response => cases h
  | runLocalScan root input => cases h
  | advanceTransfers => cases h

end Runtime

/-! ## The cursors after a call -/

section Cursors

variable {log : DiffLog} {store : Store} {rt : Runtime} {call : CycleCall} {c : SyncCandidate}

theorem mem_answer {cursor upTo : Nat} {entry : DiffEntry} :
    entry ∈ (log.answer cursor upTo).entries ↔ ∃ id, cursor < id ∧ id ≤ upTo ∧ log id = some entry := by
  simp only [DiffLog.answer, List.mem_filterMap, List.mem_range'_1]
  refine exists_congr fun id => ?_
  rw [← and_assoc]
  refine and_congr_left fun _ => ?_
  omega

theorem cursor_committed {root : SyncRootRecord} {batch : RemoteDiffBatch} {other : SyncId} :
    (rt.committed root batch).store.cursor other =
      if other = root.syncId ∧ Storable rt.store root batch then max (rt.store.cursor other) batch.cursor
      else rt.store.cursor other := by
  unfold Runtime.committed Runtime.commit
  by_cases hstorable : Storable rt.store root batch
  · rw [commitDiffBatch_of_storable hstorable]
    unfold Store.cursor
    by_cases hlt : (rt.store.diffState root.syncId).getD 0 < batch.cursor
    · by_cases hsame : other = root.syncId
      · simp [hlt, hsame, hstorable, max_eq_right hlt.le]
      · simp [hlt, hsame]
    · by_cases hsame : other = root.syncId
      · simp [hlt, hsame, hstorable, max_eq_left (Nat.le_of_not_lt hlt)]
      · simp [hlt, hsame]
  · rw [commitDiffBatch_of_not_storable hstorable, if_neg fun h => hstorable h.2]
    rfl

theorem reported_committed (rt : Runtime) {root : SyncRootRecord} {upTo : Nat} :
    Reported log (rt.committed root
        (convertDiffBatch (log.answer (rt.store.cursor root.syncId) upTo))).store c ↔
      Reported log rt.store c ∨
        c ∈ (log.answer (rt.store.cursor root.syncId) upTo).entries.map remoteCandidate ∧
          Accepts log rt.store (.pollRemoteDiff root (some upTo)) := by
  unfold Reported Accepts
  simp only [cursor_committed, List.mem_map, mem_answer]
  have hcursor : (convertDiffBatch (log.answer (rt.store.cursor root.syncId) upTo)).cursor = upTo := rfl
  rw [hcursor]
  constructor
  · rintro ⟨other, id, entry, hpos, hle, hlog, rfl⟩
    split at hle
    · rename_i hmoved
      obtain ⟨rfl, hstorable⟩ := hmoved
      rcases Nat.lt_or_ge (rt.store.cursor root.syncId) id with hnew | hold
      · exact .inr ⟨⟨entry, ⟨id, hnew, by omega, hlog⟩, rfl⟩, hstorable⟩
      · exact .inl ⟨root.syncId, id, entry, hpos, hold, hlog, rfl⟩
    · exact .inl ⟨other, id, entry, hpos, hle, hlog, rfl⟩
  · rintro (⟨other, id, entry, hpos, hle, hlog, rfl⟩ | ⟨⟨entry, ⟨id, hnew, hle, hlog⟩, rfl⟩, hstorable⟩)
    · refine ⟨other, id, entry, hpos, ?_, hlog, rfl⟩
      split
      · exact hle.trans (le_max_left _ _)
      · exact hle
    · refine ⟨root.syncId, id, entry, by omega, ?_, hlog, rfl⟩
      rw [if_pos ⟨rfl, hstorable⟩]
      exact hle.trans (le_max_right _ _)

theorem toSyncCall_poll {root : SyncRootRecord} {answer : DiffBatch}
    (h : call.toSyncCall log store = .pollRemoteDiff root (some answer)) :
    ∃ upTo, call = .pollRemoteDiff root (some upTo) ∧
      answer = log.answer (store.cursor root.syncId) upTo := by
  cases call with
  | pollRemoteDiff root' upTo =>
    obtain ⟨rfl, hanswer⟩ := SyncCall.pollRemoteDiff.inj h
    obtain ⟨upTo, rfl, rfl⟩ := Option.map_eq_some_iff.mp hanswer
    exact ⟨upTo, rfl, rfl⟩
  | runLocalScan root' input => cases h
  | advanceTransfers => cases h
  | executeDownloads outcomes => cases h
  | executeUploads outcomes => cases h

theorem reported_step_iff {policy : DeletePolicy} {candidates : List SyncCandidate}
    (h : rt.ingests (call.toSyncCall log rt.store) = some (policy, candidates)) :
    Reported log (rt.step (call.toSyncCall log rt.store)).store c ↔
      Reported log rt.store c ∨ c ∈ candidates ∧ c.source = .Remote ∧ Accepts log rt.store call := by
  rcases Runtime.ingests_cases h with
    ⟨root, answer, hcall, -, hpolled, heq⟩ | ⟨root, input, tracker, -, -, hfound, heq⟩
  · obtain ⟨upTo, rfl, rfl⟩ := toSyncCall_poll hcall
    obtain ⟨-, rfl⟩ := pollCandidates_eq_some.mp hpolled
    rw [heq]
    refine (reported_committed (rt.ingest root _).persistPlannerOverflow).trans ?_
    refine or_congr Iff.rfl ?_
    rw [← and_assoc]
    exact and_congr_left' ⟨fun hc => ⟨hc, (mem_remoteCandidates hc).1⟩, And.left⟩
  · rw [heq]
    refine ⟨.inl, ?_⟩
    rintro (hc | ⟨hc, hremote, -⟩)
    · exact hc
    · rw [(rt.mem_scanCandidates hfound hc).1] at hremote
      cases hremote

theorem Reported.remote (h : Reported log store c) : c.source = .Remote := by
  obtain ⟨-, -, entry, -, -, -, rfl⟩ := h
  rfl

theorem reported_congr {store' : Store} (h : store'.diffState = store.diffState) :
    Reported log store' c ↔ Reported log store c := by
  unfold Reported Store.cursor
  rw [h]

end Cursors

/-! ## Calls without an ingest -/

namespace Runtime

variable {rt : Runtime} {call : SyncCall}

theorem advanceTransfers_store :
    rt.advanceTransfers.2.store.plannerOverflow = rt.store.plannerOverflow ∧
      rt.advanceTransfers.2.store.diffState = rt.store.diffState := by
  unfold advanceTransfers
  simp only
  split
  · exact ⟨rfl, rfl⟩
  · exact ⟨rfl, rfl⟩

theorem writes_of_no_ingest (h : rt.ingests call = none) {store : Store} (hstore : store ∈ rt.writes call) :
    store.plannerOverflow = rt.store.plannerOverflow ∧ store.diffState = rt.store.diffState := by
  cases call with
  | pollRemoteDiff root response =>
    rw [writes, Option.map_eq_none_iff.mp h] at hstore
    cases hstore
  | runLocalScan root input =>
    rw [writes, Option.map_eq_none_iff.mp h] at hstore
    cases hstore
  | advanceTransfers =>
    obtain rfl := List.mem_singleton.mp hstore
    exact advanceTransfers_store
  | executeDownloads outcomes => cases hstore
  | executeUploads outcomes => cases hstore

theorem store_of_no_ingest (h : rt.ingests call = none) :
    (rt.step call).store.plannerOverflow = rt.store.plannerOverflow ∧
      (rt.step call).store.diffState = rt.store.diffState := by
  cases call with
  | pollRemoteDiff root response =>
    rw [step, rt.pollRemoteDiff_of_none (Option.map_eq_none_iff.mp h)]
    exact ⟨rfl, rfl⟩
  | runLocalScan root input =>
    obtain ⟨tracker, heq⟩ := rt.runLocalScan_of_none (Option.map_eq_none_iff.mp h)
    rw [step, heq]
    exact ⟨rfl, rfl⟩
  | advanceTransfers => exact advanceTransfers_store
  | executeDownloads outcomes => exact ⟨rfl, rfl⟩
  | executeUploads outcomes => exact ⟨rfl, rfl⟩

/-! ## Calls with an ingest -/

variable {policy : DeletePolicy} {candidates : List SyncCandidate}

theorem writes_of_ingests (h : rt.ingests call = some (policy, candidates)) :
    ∃ first, rt.writes call = [first, (rt.step call).store] ∧
      first.plannerOverflow = rt.engine.deferred (rt.engine.plannerOverflow ++ candidates) ∧
      first.diffState = rt.store.diffState ∧ first.schedulerQueue = rt.store.schedulerQueue := by
  rcases ingests_cases h with ⟨root, answer, rfl, -, hpolled, -⟩ | ⟨root, input, tracker, rfl, -, hfound, -⟩
  · refine ⟨(rt.ingest root candidates).persistPlannerOverflow.store, ?_, ?_, rfl, rfl⟩
    · rw [writes, hpolled]
      rfl
    · exact rt.engine.ingest_overflow candidates (rt.deletePolicy root)
  · refine ⟨(rt.ingest root candidates).persistPlannerOverflow.store, ?_, ?_, rfl, rfl⟩
    · rw [writes, hfound]
      rfl
    · exact rt.engine.ingest_overflow candidates (rt.deletePolicy root)

theorem overflow_of_ingests (h : rt.ingests call = some (policy, candidates)) :
    (rt.step call).engine.plannerOverflow = rt.engine.deferred (rt.engine.plannerOverflow ++ candidates) ∧
      (rt.step call).store.plannerOverflow = rt.engine.deferred (rt.engine.plannerOverflow ++ candidates) := by
  rcases ingests_cases h with ⟨root, answer, -, -, -, heq⟩ | ⟨root, input, tracker, -, -, -, heq⟩
  · have hoverflow := rt.engine.ingest_overflow candidates (rt.deletePolicy root)
    rw [heq, committed_engine, committed_overflow]
    exact ⟨hoverflow, hoverflow⟩
  · have hoverflow := rt.engine.ingest_overflow candidates (rt.deletePolicy root)
    rw [heq]
    exact ⟨hoverflow, hoverflow⟩

theorem queue_of_remote (h : rt.ingests call = some (policy, candidates)) {c : SyncCandidate}
    (hc : c ∈ candidates) (hremote : c.source = .Remote) :
    (rt.step call).store.schedulerQueue = rt.store.schedulerQueue := by
  rcases ingests_cases h with ⟨root, answer, -, -, -, heq⟩ | ⟨root, input, tracker, -, -, hfound, -⟩
  · rw [heq, committed_queue]
    rfl
  · rw [(rt.mem_scanCandidates hfound hc).1] at hremote
    cases hremote

end Runtime

/-! ## Waiting changes -/

/-- The changes that a cursor has passed wait in the overflow, in memory and in the store. -/
structure Waiting (log : DiffLog) (j : Journal) : Prop where
  persisted : j.rt.store.plannerOverflow = j.rt.engine.plannerOverflow
  waits : ∀ c, Reported log j.rt.store c → c ∈ j.rt.engine.plannerOverflow ∨ c ∈ j.suppressed

/-- What holds as long as the store takes every batch and no remote change is planned: nothing
else waits, and every operation is one of the local side. -/
structure Unplanned (log : DiffLog) (j : Journal) : Prop extends Waiting log j where
  reported : ∀ c ∈ j.rt.engine.plannerOverflow, c.source = .Remote → Reported log j.rt.store c
  pushes : ∀ op ∈ j.rt.operations ++ j.executed, op.writesRemote = true

section Waiting

variable {log : DiffLog} {j : Journal} {call : CycleCall}

theorem not_represents {op : PlannedOperation} {c : SyncCandidate} (hop : op.writesRemote = true)
    (hc : c.source = .Remote) : ¬ Represents op c := by
  rintro (rfl | ⟨syncId, kind, rfl⟩)
  · rw [planSingle_writesRemote, hc] at hop
    cases hop
  · cases hop

theorem EngineShell.not_due_of_deferred {s : EngineShell} {combined : List SyncCandidate}
    {c : SyncCandidate} (h : c ∈ s.deferred combined) :
    ¬ Due s.planner.maxOperationsPerTick combined c.path :=
  ((s.planner.mem_overflow combined).mp (List.mem_of_mem_take h)).2

theorem EngineShell.planned_writesRemote {s : EngineShell} {candidates : List SyncCandidate}
    {policy : DeletePolicy}
    (hwaits : ∀ c ∈ s.plannerOverflow ++ candidates, c.source = .Remote →
      c ∈ s.deferred (s.plannerOverflow ++ candidates) ∨
      c ∈ s.suppressedBy policy (s.plannerOverflow ++ candidates))
    {op : PlannedOperation} (hop : op ∈ s.planned candidates policy) : op.writesRemote = true := by
  obtain ⟨hplan, hallowed⟩ := List.mem_filter.mp hop
  obtain ⟨-, p, -, hdue, hpair⟩ := mem_planned.mp hop
  -- A remote change at the path would be under the cap, and its operation not suppressed.
  have hno : ∀ r, lastAt .Remote p (s.plannerOverflow ++ candidates) ≠ some r := by
    intro r hr
    obtain ⟨hmem, rfl, hsource⟩ := lastAt_mem hr
    rcases hwaits r hmem hsource with hdeferred | hsup
    · exact not_due_of_deferred hdeferred hdue
    · obtain ⟨op', hop', hpath⟩ := List.any_eq_true.mp (List.mem_filter.mp hsup).2
      simp only [Bool.and_eq_true, decide_eq_true_eq] at hpath
      have hsame := s.planner.plan_path_inj _ hop' hplan
        (hpath.1.trans (planPair_lastAt_from hpair).1.symm)
      rw [← hsame, hpath.2] at hallowed
      cases hallowed
  rcases planPair_lastAt_cases hpair with ⟨l, hl, -, rfl⟩ | ⟨r, hr, -⟩ | ⟨l, r, kind, -, hr, -⟩
  · rw [planSingle_writesRemote]
    exact (lastAt_mem hl).2.2
  · exact absurd hr (hno r)
  · exact absurd hr (hno r)

theorem Waiting.consistent (h : Waiting log j) : Consistent log j.rt.store j.executed j.suppressed := by
  intro c hc
  rw [h.persisted]
  rcases h.waits c hc with hwaits | hsup
  · exact .inl hwaits
  · exact .inr (.inl hsup)

theorem suppressed_of_no_ingest (hin : j.rt.ingests (call.toSyncCall log j.rt.store) = none) :
    (j.step log call).suppressed = j.suppressed := by
  unfold Journal.step Journal.apply Journal.suppressedAfter
  rw [hin]

section Ingest

variable {policy : DeletePolicy} {candidates : List SyncCandidate}
  (hin : j.rt.ingests (call.toSyncCall log j.rt.store) = some (policy, candidates))

include hin

theorem mem_suppressed_of_ingests {c : SyncCandidate} :
    c ∈ (j.step log call).suppressed ↔
      c ∈ j.suppressed ∧ c ∉ j.rt.engine.plannerOverflow ++ candidates ∨
        c ∈ j.rt.engine.suppressedBy policy (j.rt.engine.plannerOverflow ++ candidates) := by
  unfold Journal.step Journal.apply Journal.suppressedAfter
  rw [hin]
  simp

theorem Waiting.waits_step (h : Waiting log j) (hok : RemoteWaits log j call) {c : SyncCandidate}
    (hc : Reported log (j.rt.step (call.toSyncCall log j.rt.store)).store c) :
    c ∈ j.rt.engine.deferred (j.rt.engine.plannerOverflow ++ candidates) ∨
      c ∈ (j.step log call).suppressed := by
  rw [mem_suppressed_of_ingests hin]
  have hpassed := (reported_step_iff hin).mp hc
  by_cases hmem : c ∈ j.rt.engine.plannerOverflow ++ candidates
  · rcases hok policy candidates hin c hmem hpassed with hdeferred | hsup
    · exact .inl hdeferred
    · exact .inr (.inr hsup)
  · rcases hpassed with hold | ⟨hnew, -⟩
    · rcases h.waits c hold with hwaits | hsup
      · exact absurd (List.mem_append_left _ hwaits) hmem
      · exact .inr (.inl ⟨hsup, hmem⟩)
    · exact absurd (List.mem_append_right _ hnew) hmem

theorem exposed {c : SyncCandidate}
    (hc : Reported log j.rt.store c ∨ c ∈ candidates ∧ c.source = .Remote ∧ Accepts log j.rt.store call) :
    ∃ store ∈ j.rt.writes (call.toSyncCall log j.rt.store), Reported log store c ∧
      store.plannerOverflow = j.rt.engine.deferred (j.rt.engine.plannerOverflow ++ candidates) ∧
      store.schedulerQueue = j.rt.store.schedulerQueue := by
  obtain ⟨first, hwrites, hoverflow, hcursors, hqueue⟩ := Runtime.writes_of_ingests hin
  rw [hwrites]
  rcases hc with hold | ⟨hnew, hremote, haccepts⟩
  · exact ⟨first, by simp, (reported_congr hcursors).mpr hold, hoverflow, hqueue⟩
  · exact ⟨_, by simp, (reported_step_iff hin).mpr (.inr ⟨hnew, hremote, haccepts⟩),
      (Runtime.overflow_of_ingests hin).2, Runtime.queue_of_remote hin hnew hremote⟩

end Ingest

theorem Waiting.crashConsistent (h : Waiting log j) (hok : RemoteWaits log j call) :
    CrashConsistent log j call := by
  refine ⟨h.consistent, fun store hstore c hc => ?_⟩
  rcases hin : j.rt.ingests (call.toSyncCall log j.rt.store) with _ | ⟨policy, candidates⟩
  · obtain ⟨hoverflow, hcursors⟩ := Runtime.writes_of_no_ingest hin hstore
    rw [hoverflow, h.persisted, suppressed_of_no_ingest hin]
    rcases h.waits c ((reported_congr hcursors).mp hc) with hwaits | hsup
    · exact .inl hwaits
    · exact .inr (.inl hsup)
  · have hwaits := h.waits_step hin hok (c := c)
    obtain ⟨first, hwrites, hoverflow, hcursors, -⟩ := Runtime.writes_of_ingests hin
    rw [hwrites, List.mem_cons, List.mem_singleton] at hstore
    rcases hstore with rfl | rfl
    · rw [hoverflow]
      have hold := (reported_congr hcursors).mp hc
      exact (hwaits ((reported_step_iff hin).mpr (.inl hold))).imp_right .inl
    · rw [(Runtime.overflow_of_ingests hin).2]
      exact (hwaits hc).imp_right .inl

theorem Waiting.step (h : Waiting log j) (hok : RemoteWaits log j call) :
    Waiting log (j.step log call) := by
  rcases hin : j.rt.ingests (call.toSyncCall log j.rt.store) with _ | ⟨policy, candidates⟩
  · obtain ⟨hoverflow, hcursors⟩ := Runtime.store_of_no_ingest hin
    have hengine := (Runtime.step_of_no_ingest hin).2.1
    refine ⟨hoverflow.trans (h.persisted.trans hengine.symm), fun c hc => ?_⟩
    rw [suppressed_of_no_ingest hin]
    exact (h.waits c ((reported_congr hcursors).mp hc)).imp_left fun hwaits => hengine ▸ hwaits
  · obtain ⟨hengine, hstore⟩ := Runtime.overflow_of_ingests hin
    refine ⟨hstore.trans hengine.symm, fun c hc => ?_⟩
    rw [show (j.step log call).rt.engine.plannerOverflow = _ from hengine]
    exact h.waits_step hin hok hc

theorem Unplanned.executed_step (h : Unplanned log j) {op : PlannedOperation}
    (hop : op ∈ (j.step log call).executed) : op.writesRemote = true := by
  rcases List.mem_append.mp hop with hold | hnew
  · exact h.pushes op (List.mem_append_right _ hold)
  · rcases Runtime.executedBy_cases hnew with hremote | hmem
    · exact hremote
    · exact h.pushes op (List.mem_append_left _ hmem)

theorem Unplanned.crashConsistent_iff (h : Unplanned log j) :
    CrashConsistent log j call ↔ RemoteWaits log j call := by
  refine ⟨?_, h.toWaiting.crashConsistent⟩
  rintro ⟨-, hwrites⟩ policy candidates hin c hc hpassed
  have hremote : c.source = .Remote := by
    rcases hpassed with hold | ⟨-, hremote, -⟩
    · exact hold.remote
    · exact hremote
  obtain ⟨store, hstore, hreported, hoverflow, hqueue⟩ := exposed hin hpassed
  rcases hwrites store hstore c hreported with hwaits | hsup | ⟨op, hop, hrep⟩
  · rw [hoverflow] at hwaits
    exact .inl hwaits
  · rcases (mem_suppressed_of_ingests hin).mp hsup with ⟨-, hnot⟩ | hsup
    · exact absurd hc hnot
    · exact .inr hsup
  · -- Everything stored or executed so far is of the local side.
    refine absurd hrep (not_represents ?_ hremote)
    rcases List.mem_append.mp hop with hstored | hexecuted
    · rw [hqueue] at hstored
      exact h.pushes op (List.mem_append_left _ (Runtime.mem_operations.mpr (.inr (.inr (.inl hstored)))))
    · exact h.executed_step hexecuted

theorem Unplanned.step (h : Unplanned log j) (haccepts : Accepts log j.rt.store call)
    (hok : RemoteWaits log j call) : Unplanned log (j.step log call) := by
  refine { toWaiting := h.toWaiting.step hok, reported := ?_, pushes := ?_ }
  · rcases hin : j.rt.ingests (call.toSyncCall log j.rt.store) with _ | ⟨policy, candidates⟩
    · intro c hc hremote
      rw [show (j.step log call).rt.engine.plannerOverflow = _ from (Runtime.step_of_no_ingest hin).2.1] at hc
      exact (reported_congr (Runtime.store_of_no_ingest hin).2).mpr (h.reported c hc hremote)
    · intro c hc hremote
      rw [show (j.step log call).rt.engine.plannerOverflow = _ from (Runtime.overflow_of_ingests hin).1] at hc
      refine (reported_step_iff hin).mpr ?_
      rcases List.mem_append.mp ((j.rt.engine.planner.mem_overflow _).mp (List.mem_of_mem_take hc)).1 with
        hold | hnew
      · exact .inl (h.reported c hold hremote)
      · exact .inr ⟨hnew, hremote, haccepts⟩
  · intro op hop
    rcases List.mem_append.mp hop with hop | hop
    · rcases hin : j.rt.ingests (call.toSyncCall log j.rt.store) with _ | ⟨policy, candidates⟩
      · exact h.pushes op (List.mem_append_left _ (Runtime.operations_step_of_no_ingest hin hop))
      · rcases Runtime.operations_step_of_ingests hin hop with hold | hplanned
        · exact h.pushes op (List.mem_append_left _ hold)
        · refine EngineShell.planned_writesRemote (fun c hc hremote => ?_) hplanned
          refine hok policy candidates hin c hc ?_
          rcases List.mem_append.mp hc with hold | hnew
          · exact .inl (h.reported c hold hremote)
          · exact .inr ⟨hnew, hremote, haccepts⟩
    · exact h.executed_step hop

end Waiting

/-! ## Runs -/

def Journal.new (roots : List SyncRootRecord) (fullScanInterval : Nat) (propagateDeletes : Bool) :
    Journal where
  rt := Runtime.new roots {} fullScanInterval propagateDeletes

theorem unplanned_new (log : DiffLog) (roots : List SyncRootRecord) (fullScanInterval : Nat)
    (propagateDeletes : Bool) : Unplanned log (Journal.new roots fullScanInterval propagateDeletes) := by
  obtain ⟨paused, heq⟩ := Runtime.new_engine roots {} fullScanInterval propagateDeletes
  have hreported : ∀ c, ¬ Reported log ({} : Store) c := by
    rintro c ⟨syncId, id, entry, hpos, hle, -, -⟩
    exact absurd (hpos.trans_le hle) (Nat.lt_irrefl 0)
  unfold Journal.new
  refine ⟨⟨?_, fun c hc => absurd hc (hreported c)⟩, fun c hc => ?_, fun op hop => ?_⟩
  · simp only [heq]
    rfl
  · simp only [heq] at hc
    cases hc
  · simp only [Runtime.operations, heq] at hop
    cases hop

/-- Every crash of a run leaves a consistent store if no ingest of the run plans a change that a
cursor has passed or cuts one off. In a run whose batches the store takes that is also needed. -/
theorem crashConsistent_run_iff (log : DiffLog) (roots : List SyncRootRecord) (fullScanInterval : Nat)
    (propagateDeletes : Bool) (calls : List CycleCall) :
    let j := Journal.new roots fullScanInterval propagateDeletes
    (AllSteps (Journal.step log) (RemoteWaits log) j calls →
      AllSteps (Journal.step log) (CrashConsistent log) j calls) ∧
    (AllSteps (Journal.step log) (fun j call => Accepts log j.rt.store call) j calls →
      (AllSteps (Journal.step log) (CrashConsistent log) j calls ↔
        AllSteps (Journal.step log) (RemoteWaits log) j calls)) := by
  intro j
  have hnew := unplanned_new log roots fullScanInterval propagateDeletes
  constructor
  · intro hwaits
    exact hwaits.mono_of_invariant hnew.toWaiting (fun _ _ h hok => h.step hok)
      fun _ _ h hok => h.crashConsistent hok
  · intro haccepts
    exact allSteps_congr_under haccepts hnew (fun _ _ h _ => h.crashConsistent_iff)
      fun _ _ h haccepts hok => h.step haccepts (h.crashConsistent_iff.mp hok)

/-- A polled delete that the policy suppresses needs no operation. -/
theorem suppressed_delete_consistent :
    let root : SyncRootRecord := { syncId := ⟨1⟩, syncType := .Full }
    let entry : DiffEntry := ⟨none, ⟨"a", false, some 5, none, some 0, true⟩⟩
    let log : DiffLog := fun id => if id = 1 then some entry else none
    let j := Journal.new [root] 300 false
    let calls : List CycleCall := [.pollRemoteDiff root (some 1)]
    AllSteps (Journal.step log) (CrashConsistent log) j calls ∧
      (AllSteps (Journal.step log) (CrashConsistent log) j calls ↔
        AllSteps (Journal.step log) (RemoteWaits log) j calls) := by
  intro root entry log j calls
  have hiff := crashConsistent_run_iff log [root] 300 false calls
  have haccepts : Accepts log j.rt.store (.pollRemoteDiff root (some 1)) := by
    unfold Accepts
    decide +kernel
  refine ⟨hiff.1 ⟨?_, trivial⟩, hiff.2 ⟨haccepts, trivial⟩⟩
  intro policy candidates hin c hc _
  have hpolled : j.rt.ingests (.pollRemoteDiff root (some (log.answer 0 1))) =
      some (⟨false, false⟩, [remoteCandidate entry]) := by decide +kernel
  obtain ⟨rfl, rfl⟩ := Prod.mk.inj (Option.some.inj (hin.symm.trans hpolled))
  obtain rfl := List.mem_singleton.mp hc
  exact .inr (by decide +kernel)

/-- The first poll finds one file, plans its download and moves the cursor. A crash after that
loses the download. -/
theorem poll_crash_loses_download :
    let root : SyncRootRecord := { syncId := ⟨1⟩, syncType := .Full }
    let entry : DiffEntry := ⟨none, ⟨"a", false, some 5, none, some 0, false⟩⟩
    let log : DiffLog := fun id => if id = 1 then some entry else none
    ¬ AllSteps (Journal.step log) (CrashConsistent log) (Journal.new [root] 300 true)
      [.pollRemoteDiff root (some 1)] := by
  intro root entry log h
  have hin : (Journal.new [root] 300 true).rt.ingests
      (.pollRemoteDiff root (some (log.answer 0 1))) = some (⟨true, true⟩, [remoteCandidate entry]) := by
    decide +kernel
  obtain ⟨first, hwrites, -⟩ := Runtime.writes_of_ingests hin
  have hlast := h.1.2 _ (hwrites ▸ List.mem_cons_of_mem _ List.mem_cons_self) (remoteCandidate entry)
    ⟨⟨1⟩, 1, entry, by decide, by decide +kernel, rfl, rfl⟩
  rcases hlast with hwaits | hsup | ⟨op, hop, -⟩
  · revert hwaits
    decide +kernel
  · revert hsup
    decide +kernel
  · have hnone : ((Journal.new [root] 300 true).rt.step
        (.pollRemoteDiff root (some (log.answer 0 1)))).store.schedulerQueue = [] := by decide +kernel
    rw [hnone] at hop
    cases hop

theorem not_remoteWaits_of_poll {log : DiffLog} {j : Journal} {call : CycleCall} {policy : DeletePolicy}
    {candidates : List SyncCandidate}
    (hin : j.rt.ingests (call.toSyncCall log j.rt.store) = some (policy, candidates))
    (hcap : 0 < j.rt.engine.planner.maxOperationsPerTick) (hoverflow : j.rt.engine.plannerOverflow = [])
    (hfound : candidates ≠ []) (hremote : ∀ c ∈ candidates, c.source = .Remote)
    (hallowed : ∀ c ∈ candidates, policy.suppresses (planSingle c) = false)
    (haccepts : Accepts log j.rt.store call) : ¬ RemoteWaits log j call := by
  intro hwaits
  obtain ⟨c, hc, hdue⟩ := exists_due hcap hfound
  have hkept := hwaits policy candidates hin c (List.mem_append_right _ hc) (.inr ⟨hc, hremote c hc, haccepts⟩)
  rw [hoverflow, List.nil_append] at hkept
  rcases hkept with hdeferred | hsup
  · exact EngineShell.not_due_of_deferred hdeferred hdue
  · obtain ⟨op, hop, hpath⟩ := List.any_eq_true.mp (List.mem_filter.mp hsup).2
    obtain ⟨p, -, -, hpair⟩ := (j.rt.engine.planner.mem_plan candidates).mp hop
    have hlocal : lastAt .Local p candidates = none := by
      rw [lastAt_eq_none]
      intro x hx _ hsource
      rw [hremote x hx] at hsource
      cases hsource
    rcases hr : lastAt .Remote p candidates with _ | r
    · simp [hlocal, hr, planPair] at hpair
    · simp only [hlocal, hr, planPair, Option.some.injEq] at hpair
      simp [← hpair, hallowed r (lastAt_mem hr).1] at hpath

end Pcloud
