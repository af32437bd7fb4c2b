import Pcloud.Daemon.Direction
import Pcloud.Engine.Waiting

/-!
# Poll, then scan

In one turn of a root, the poll queues the remote changes and moves the cursor on. The scan
after it replaces the queue again. A change lives through the turn if it waits in the overflow,
was dispatched before, or is queued where the scan does not replace.
-/

namespace Pcloud

/-- The operation stands for the candidate: its own, or the conflict at its path. -/
def Represents (op : PlannedOperation) (c : SyncCandidate) : Prop :=
  op = planSingle c ∨ ∃ syncId kind, op = .Conflict syncId c.path kind

def EngineShell.Holds (s : EngineShell) (c : SyncCandidate) : Prop :=
  c ∈ s.plannerOverflow ∨
    ∃ op ∈ s.scheduler.queuedOperations ++ s.scheduler.dispatchedOperations, Represents op c

/-- An ingest of these candidates replaces the queue of one root, and not this operation's. -/
def SparedBy (combined : List SyncCandidate) (op : PlannedOperation) : Prop :=
  ∃ syncId, singleSyncId combined = some syncId ∧ op.syncId ≠ syncId

def PlansFor (s : EngineShell) (policy : DeletePolicy) (combined : List SyncCandidate)
    (c : SyncCandidate) : Prop :=
  Due s.planner.maxOperationsPerTick combined c.path ∧
    ∃ op, planPair (lastAt .Local c.path combined) (lastAt .Remote c.path combined) = some op ∧
      Represents op c ∧ policy.suppresses op = false

/-- The scan ingests what waits over the cap and what it finds. The queue that it replaces is that
of one root, and not this operation's. -/
def SparedByScan (m : Nat) (waiting found : List SyncCandidate) (op : PlannedOperation) : Prop :=
  ∃ syncId, op.syncId ≠ syncId ∧ beyondCap m waiting ++ found ≠ [] ∧
    (∀ x ∈ found, x.syncId = syncId) ∧
    ∀ x ∈ waiting, x ∈ waitingAt m x.path waiting → x.syncId = syncId

/-- The path comes under the cap of the scan, and the last remote change that waits there means
the same operation, or meets a local change. -/
def ScanPlansFor (m : Nat) (waiting found : List SyncCandidate) (c : SyncCandidate) : Prop :=
  let later := beyondCap m waiting ++ found
  Due m later c.path ∧ ∃ r, lastAt .Remote c.path (waitingAt m c.path waiting) = some r ∧
    (planSingle r = planSingle c ∨ ∃ l, lastAt .Local c.path later = some l ∧ ¬ BothDelete l r)

/-- How a polled change lives through the scan, which ingests `scan`, if anything. -/
def SurvivesTurn (s : EngineShell) (polled : List SyncCandidate) (scan : Option (List SyncCandidate))
    (c : SyncCandidate) : Prop :=
  let m := s.planner.maxOperationsPerTick
  let waiting := s.plannerOverflow ++ polled
  let spared := fun op => ∀ found, scan = some found → SparedByScan m waiting found op
  -- An operation for it was dispatched before,
  (∃ op ∈ s.scheduler.dispatchedOperations, Represents op c) ∨
  -- or queued before, where neither ingest replaces,
  (∃ op ∈ s.scheduler.queuedOperations, Represents op c ∧ SparedBy waiting op ∧ spared op) ∨
  -- or the poll plans it and the scan does not replace it,
  (Due m waiting c.path ∧
    ∃ op, planPair (lastAt .Local c.path s.plannerOverflow) (some c) = some op ∧ spared op) ∨
  -- or it is over the cap of the poll, with room in the overflow, and has its place in the scan.
  match scan with
  | none => c ∈ waitingAt m c.path waiting
  | some found =>
    c ∈ waitingAt m c.path waiting ∧ c ∈ waitingAt m c.path (beyondCap m waiting ++ found) ∨
      ScanPlansFor m waiting found c

/-! ## One ingest -/

theorem Represents.path_eq {op : PlannedOperation} {c : SyncCandidate} (h : Represents op c) :
    op.path = c.path := by
  rcases h with rfl | ⟨syncId, kind, rfl⟩
  · exact planSingle_path c
  · rfl

namespace EngineShell

variable {s : EngineShell} {candidates : List SyncCandidate} {policy : DeletePolicy} {c : SyncCandidate}

theorem mem_planned_represents {op : PlannedOperation} (hrep : Represents op c) :
    op ∈ s.planned candidates policy ↔
      policy.suppresses op = false ∧
        Due s.planner.maxOperationsPerTick (s.plannerOverflow ++ candidates) c.path ∧
        planPair (lastAt .Local c.path (s.plannerOverflow ++ candidates))
          (lastAt .Remote c.path (s.plannerOverflow ++ candidates)) = some op := by
  rw [mem_planned]
  constructor
  · rintro ⟨hallowed, p, -, hdue, hplan⟩
    have hp : p = c.path := (planPair_lastAt_from hplan).1.symm.trans hrep.path_eq
    rw [hp] at hdue hplan
    exact ⟨hallowed, hdue, hplan⟩
  · rintro ⟨hallowed, hdue, hplan⟩
    obtain ⟨-, x, hx, hxp, -⟩ := planPair_lastAt_from hplan
    exact ⟨hallowed, c.path, mem_pathsOf.mpr ⟨x, hx, hxp⟩, hdue, hplan⟩

theorem ingest_deferred (s : EngineShell) (candidates : List SyncCandidate) (policy : DeletePolicy)
    (combined : List SyncCandidate) :
    (s.ingestCandidatesFiltered candidates policy).deferred combined = s.deferred combined := by
  unfold deferred
  rw [ingest_planner]

theorem holds_ingest_iff : (s.ingestCandidatesFiltered candidates policy).Holds c ↔
    c ∈ s.deferred (s.plannerOverflow ++ candidates) ∨
      (∃ op ∈ s.scheduler.dispatchedOperations, Represents op c) ∨
      (∃ op ∈ s.scheduler.queuedOperations, Represents op c ∧
        SparedBy (s.plannerOverflow ++ candidates) op) ∨
      PlansFor s policy (s.plannerOverflow ++ candidates) c := by
  unfold Holds deferred PlansFor
  rw [ingest_overflow, ingest_dispatched]
  refine or_congr Iff.rfl ⟨?_, ?_⟩
  · rintro ⟨op, hop, hrep⟩
    rcases List.mem_append.mp hop with hqueue | hdispatched
    · rcases mem_ingest_queue.mp hqueue with ⟨syncId, hsingle, hold, hne⟩ | hplanned
      · exact .inr (.inl ⟨op, hold, hrep, syncId, hsingle, hne⟩)
      · obtain ⟨hallowed, hdue, hplan⟩ := (mem_planned_represents hrep).mp hplanned
        exact .inr (.inr ⟨hdue, op, hplan, hrep, hallowed⟩)
    · exact .inl ⟨op, hdispatched, hrep⟩
  · rintro (⟨op, hop, hrep⟩ | ⟨op, hop, hrep, syncId, hsingle, hne⟩ | ⟨hdue, op, hplan, hrep, hallowed⟩)
    · exact ⟨op, List.mem_append_right _ hop, hrep⟩
    · exact ⟨op, List.mem_append_left _ (mem_ingest_queue.mpr (.inl ⟨syncId, hsingle, hop, hne⟩)), hrep⟩
    · have hplanned := (mem_planned_represents hrep).mpr ⟨hallowed, hdue, hplan⟩
      exact ⟨op, List.mem_append_left _ (mem_ingest_queue.mpr (.inr hplanned)), hrep⟩

/-! ## The poll plans for what it ingests -/

theorem represents_of_planPair {l : Option SyncCandidate} {op : PlannedOperation}
    (hsource : c.source = .Remote) (hallowed : policy.suppresses (planSingle c) = false)
    (hl : ∀ x, l = some x → x.path = c.path) (hplan : planPair l (some c) = some op) :
    Represents op c ∧ policy.suppresses op = false := by
  rcases planPair_remote_cases (l := l) hsource with ⟨-, hown⟩ | ⟨x, kind, hx, -, hconflict⟩
  · rw [Option.some.inj (hplan.symm.trans hown)]
    exact ⟨.inl rfl, hallowed⟩
  · rw [Option.some.inj (hplan.symm.trans hconflict)]
    refine ⟨.inr ⟨x.syncId, kind, ?_⟩, rfl⟩
    rw [conflict, hl x hx]

theorem exists_queued_after_poll {entries : List DiffEntry} (Q : PlannedOperation → Prop)
    (hc : lastAt .Remote c.path (entries.map remoteCandidate) = some c)
    (hallowed : policy.suppresses (planSingle c) = false) :
    (∃ op ∈ (s.ingestCandidatesFiltered (entries.map remoteCandidate) policy).scheduler.queuedOperations,
      Represents op c ∧ Q op) ↔
    (∃ op ∈ s.scheduler.queuedOperations, Represents op c ∧
      SparedBy (s.plannerOverflow ++ entries.map remoteCandidate) op ∧ Q op) ∨
    Due s.planner.maxOperationsPerTick (s.plannerOverflow ++ entries.map remoteCandidate) c.path ∧
      ∃ op, planPair (lastAt .Local c.path s.plannerOverflow) (some c) = some op ∧ Q op := by
  have hremote : lastAt .Remote c.path (s.plannerOverflow ++ entries.map remoteCandidate) = some c := by
    rw [lastAt_append, hc, Option.some_or]
  have hsource := (lastAt_mem hc).2.2
  constructor
  · rintro ⟨op, hop, hrep, hQ⟩
    rcases mem_ingest_queue.mp hop with ⟨syncId, hsingle, hold, hne⟩ | hplanned
    · exact .inl ⟨op, hold, hrep, ⟨syncId, hsingle, hne⟩, hQ⟩
    · obtain ⟨-, hdue, hplan⟩ := (mem_planned_represents hrep).mp hplanned
      rw [lastAt_local_polled, hremote] at hplan
      exact .inr ⟨hdue, op, hplan, hQ⟩
  · rintro (⟨op, hop, hrep, ⟨syncId, hsingle, hne⟩, hQ⟩ | ⟨hdue, op, hplan, hQ⟩)
    · exact ⟨op, mem_ingest_queue.mpr (.inl ⟨syncId, hsingle, hop, hne⟩), hrep, hQ⟩
    · obtain ⟨hrep, hop⟩ := represents_of_planPair hsource hallowed
        (fun x hx => (lastAt_mem hx).2.1) hplan
      refine ⟨op, mem_ingest_queue.mpr (.inr ?_), hrep, hQ⟩
      refine (mem_planned_represents hrep).mpr ⟨hop, hdue, ?_⟩
      rw [lastAt_local_polled, hremote]
      exact hplan

/-! ## The scan after it -/

variable {waiting found : List SyncCandidate}

theorem sparedBy_deferred_iff {op : PlannedOperation} :
    SparedBy (s.deferred waiting ++ found) op ↔
      SparedByScan s.planner.maxOperationsPerTick waiting found op := by
  unfold SparedBy SparedByScan
  simp only [singleSyncId_eq_some]
  have hne : s.deferred waiting ++ found ≠ [] ↔
      beyondCap s.planner.maxOperationsPerTick waiting ++ found ≠ [] := by
    rw [ne_eq, ne_eq, List.append_eq_nil_iff, List.append_eq_nil_iff, not_and_or, not_and_or]
    exact or_congr (s.deferred_ne_nil waiting) Iff.rfl
  have hwaits : ∀ x, x ∈ s.deferred waiting ↔
      x ∈ waiting ∧ x ∈ waitingAt s.planner.maxOperationsPerTick x.path waiting := by
    intro x
    rw [← mem_deferred, and_iff_right_of_imp]
    exact fun h => ((s.planner.mem_overflow _).mp (List.mem_of_mem_take h)).1
  refine exists_congr fun syncId => ?_
  rw [hne, List.forall_mem_append]
  simp only [hwaits, and_imp]
  tauto

theorem not_represents_of_local {l : SyncCandidate} (hl : l.source = .Local) (hc : c.source = .Remote) :
    ¬ Represents (planSingle l) c := by
  have hwrites := planSingle_writesRemote.mpr hl
  rintro (heq | ⟨syncId, kind, heq⟩)
  · rw [heq, planSingle_writesRemote, hc] at hwrites
    cases hwrites
  · rw [heq] at hwrites
    cases hwrites

theorem represents_planSingle_iff {r : SyncCandidate} (hr : r.source = .Remote) :
    Represents (planSingle r) c ↔ planSingle r = planSingle c := by
  refine or_iff_left ?_
  rintro ⟨syncId, kind, heq⟩
  have hwrites := planSingle_writesLocal.mpr hr
  rw [heq] at hwrites
  cases hwrites

theorem plansFor_again_iff (s : EngineShell) (waiting : List SyncCandidate) (hc : c.source = .Remote)
    (hallowed : policy.suppresses (planSingle c) = false) (hfound : ∀ x ∈ found, x.source = .Local) :
    PlansFor s policy (s.deferred waiting ++ found) c ↔
      ScanPlansFor s.planner.maxOperationsPerTick waiting found c := by
  unfold PlansFor ScanPlansFor
  rw [lastAt_remote_again hfound]
  rcases hr : lastAt .Remote c.path (waitingAt s.planner.maxOperationsPerTick c.path waiting) with _ | r
  · -- Nothing remote waits at the path, so what is planned there is the local side's own.
    refine iff_of_false ?_ (by simp)
    rintro ⟨-, op, hplan, hrep, -⟩
    rcases hl : lastAt .Local c.path (s.deferred waiting ++ found) with _ | l
    · rw [hl] at hplan
      cases hplan
    · rw [hl] at hplan
      rw [← Option.some.inj hplan] at hrep
      exact not_represents_of_local (lastAt_mem hl).2.2 hc hrep
  · obtain ⟨hmem, -, hremote⟩ := lastAt_mem hr
    have hlocal : lastAt .Local c.path (s.deferred waiting ++ found) =
        lastAt .Local c.path (beyondCap s.planner.maxOperationsPerTick waiting ++ found) := by
      rw [lastAt_eq_sideAt, lastAt_eq_sideAt, sideAt_append, sideAt_append,
        locals_of_waiting hremote hmem]
    rw [hlocal]
    refine and_congr (((sameBelow_of_waiting hmem).append found).due le_rfl) ?_
    simp only [Option.some.injEq, exists_eq_left']
    rcases planPair_remote_cases (l := lastAt .Local c.path
        (beyondCap s.planner.maxOperationsPerTick waiting ++ found)) hremote with
      ⟨hboth, hown⟩ | ⟨l, kind, hl, hnot, hconflict⟩
    · rw [hown]
      simp only [Option.some.injEq, exists_eq_left', represents_planSingle_iff hremote]
      constructor
      · exact fun h => .inl h.1
      · rintro (heq | ⟨l, hl, hnot⟩)
        · exact ⟨heq, heq ▸ hallowed⟩
        · exact absurd (hboth l hl) hnot
    · refine iff_of_true ⟨_, hconflict, .inr ⟨l.syncId, kind, ?_⟩, rfl⟩ (.inr ⟨l, hl, hnot⟩)
      rw [conflict, (lastAt_mem hl).2.1]

theorem holds_turn_iff {entries : List DiffEntry} {scan : Option (List SyncCandidate)}
    (hc : lastAt .Remote c.path (entries.map remoteCandidate) = some c)
    (hallowed : policy.suppresses (planSingle c) = false)
    (hscan : ∀ found, scan = some found → ∀ x ∈ found, x.source = .Local) :
    ((s.ingestCandidatesFiltered (entries.map remoteCandidate) policy).ingestSome policy scan).Holds c ↔
      SurvivesTurn s (entries.map remoteCandidate) scan c := by
  have hsource := (lastAt_mem hc).2.2
  rcases scan with _ | found
  · have hqueue := exists_queued_after_poll (s := s) (fun _ => True) hc hallowed
    have horder : ∀ A B C D : Prop, A ∨ (B ∨ C) ∨ D ↔ D ∨ B ∨ C ∨ A := by
      intros
      tauto
    unfold ingestSome SurvivesTurn Holds
    simp only [reduceCtorEq, false_implies, implies_true, and_true, ingest_overflow, ingest_dispatched,
      List.mem_append, or_and_right, exists_or, ← mem_deferred, deferred] at hqueue ⊢
    rw [hqueue]
    exact horder _ _ _ _
  · have hfound := hscan found rfl
    have hqueue := exists_queued_after_poll (s := s)
      (SparedBy (s.deferred (s.plannerOverflow ++ entries.map remoteCandidate) ++ found)) hc hallowed
    have hagain := s.mem_deferred_again (s.plannerOverflow ++ entries.map remoteCandidate) hsource hfound
    have hplans := s.plansFor_again_iff (s.plannerOverflow ++ entries.map remoteCandidate) hsource hallowed hfound
    have horder : ∀ A B C D E : Prop, A ∨ D ∨ (B ∨ C) ∨ E ↔ D ∨ B ∨ C ∨ A ∨ E := by
      intros
      simp only [or_comm, or_left_comm]
    have hdeferred := s.ingest_deferred (entries.map remoteCandidate) policy
    have hoverflow := ingest_overflow s (entries.map remoteCandidate) policy
    rw [ingestSome, holds_ingest_iff, hdeferred, hoverflow, ingest_dispatched, PlansFor, ingest_planner]
    rw [PlansFor] at hplans
    simp only [deferred] at hqueue hagain hplans
    rw [deferred, hqueue, hplans, hagain]
    unfold SurvivesTurn
    simp only [Option.some.injEq, forall_eq', ← sparedBy_deferred_iff, deferred]
    exact horder _ _ _ _ _

end EngineShell

/-! ## The turn -/

namespace Runtime

variable (rt : Runtime)

def pollThenScan (root : SyncRootRecord) (answer : DiffBatch) (input : ScanInput) : Runtime :=
  ((rt.pollRemoteDiff root (some answer)).2.runLocalScan root input).2

/-- `c` is the last change of the batch at its path, and the root's policy lets it through. -/
def Polled (root : SyncRootRecord) (polled : List SyncCandidate) (c : SyncCandidate) : Prop :=
  lastAt .Remote c.path polled = some c ∧ (rt.deletePolicy root).suppresses (planSingle c) = false

theorem poll_frame (root : SyncRootRecord) (response : Option DiffBatch) :
    (rt.pollRemoteDiff root response).2.scanTracker = rt.scanTracker ∧
      (rt.pollRemoteDiff root response).2.propagateDeletes = rt.propagateDeletes := by
  rcases response with _ | answer
  · exact ⟨rfl, rfl⟩
  · rcases h : pollCandidates (some answer) with _ | candidates
    · rw [rt.pollRemoteDiff_of_none h]
      exact ⟨rfl, rfl⟩
    · obtain ⟨fileMetadata, diffState, heq⟩ :=
        (rt.ingest root candidates).persistPlannerOverflow.committed_eq root (convertDiffBatch answer)
      rw [rt.pollRemoteDiff_of_some h, heq]
      exact ⟨rfl, rfl⟩

theorem pollThenScan_engine (root : SyncRootRecord) (answer : DiffBatch) (input : ScanInput)
    {polled : List SyncCandidate} (h : pollCandidates (some answer) = some polled) :
    (rt.pollThenScan root answer input).engine =
      (rt.engine.ingestCandidatesFiltered polled (rt.deletePolicy root)).ingestSome (rt.deletePolicy root)
        (rt.scanCandidates root input) := by
  obtain ⟨htracker, hpropagate⟩ := rt.poll_frame root (some answer)
  have hscan : (rt.pollRemoteDiff root (some answer)).2.scanCandidates root input =
      rt.scanCandidates root input := by
    unfold scanCandidates scanEntries
    rw [htracker]
  have hpolicy : (rt.pollRemoteDiff root (some answer)).2.deletePolicy root = rt.deletePolicy root := by
    unfold deletePolicy
    rw [hpropagate]
  unfold pollThenScan
  rw [runLocalScan_engine, pollRemoteDiff_engine, hscan, hpolicy, h]
  rfl

end Runtime

end Pcloud
