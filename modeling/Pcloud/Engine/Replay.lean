import Pcloud.Lib.Runs
import Pcloud.Engine.Shell

/-!
# Replaying the overflow

One root's candidates are ingested into a fresh engine. From then on the empty batch replays
the overflow, in any order with dispatches and acknowledgements. A replay replaces the
root's queue, so it is free of loss exactly when the queue was empty before it.
-/

open Runs

namespace Pcloud

inductive ReplayCall where
  | replay
  | advance
  | ack (syncId : SyncId) (path : String)
  deriving DecidableEq, Repr

def ReplayCall.toEngineCall : ReplayCall → EngineCall
  | replay => .ingestCandidates []
  | advance => .advanceTransferCycle
  | ack syncId path => .ackDispatchedPath syncId path

/-- The engine, and every operation that it has handed out so far. -/
structure Replay where
  engine : EngineShell
  handedOut : List PlannedOperation

namespace Replay

def start (m : Nat) (up down : UInt64) (candidates : List SyncCandidate) : Replay where
  engine := (EngineShell.fresh m up down).ingestCandidates candidates
  handedOut := []

def handsOut (r : Replay) : ReplayCall → List PlannedOperation
  | .advance => r.engine.advanceTransferCycle.lastDispatchedBatch
  | _ => []

def step (r : Replay) (call : ReplayCall) : Replay where
  engine := r.engine.step call.toEngineCall
  handedOut := r.handedOut ++ r.handsOut call

/-- What was queued is still queued, or is handed out by this very call. -/
def KeepsQueued (r : Replay) (call : ReplayCall) : Prop :=
  ∀ op ∈ r.engine.scheduler.queuedOperations,
    op ∈ (r.step call).engine.scheduler.queuedOperations ∨ op ∈ r.handsOut call

def ReplaysDrained (r : Replay) (call : ReplayCall) : Prop :=
  call = .replay → r.engine.scheduler.queuedOperations = []

def Drained (r : Replay) : Prop :=
  r.engine.plannerOverflow = [] ∧ r.engine.scheduler.queuedOperations = []

def HandedOutAll (candidates : List SyncCandidate) (r : Replay) : Prop :=
  ∀ c ∈ candidates, ∃ op ∈ r.handedOut, op.syncId = c.syncId ∧ op.path = c.path

/-! ## The invariant -/

structure Inv (A : SyncId) (m : Nat) (r : Replay) : Prop where
  cap : r.engine.planner.maxOperationsPerTick = m
  overflowRoot : ∀ c ∈ r.engine.plannerOverflow, c.syncId = A
  overflowFits : r.engine.plannerOverflow.length ≤ plannerOverflowMax
  queueRoot : ∀ op ∈ r.engine.scheduler.queuedOperations, op.syncId = A
  apart : ∀ op ∈ r.engine.scheduler.queuedOperations, op.path ∉ pathsOf r.engine.plannerOverflow

/-- No path of the candidates is lost: it waits, is queued, or was handed out. -/
def Covered (A : SyncId) (candidates : List SyncCandidate) (r : Replay) : Prop :=
  ∀ c ∈ candidates, (∃ d ∈ r.engine.plannerOverflow, d.path = c.path) ∨
    ∃ op ∈ r.engine.scheduler.queuedOperations ++ r.handedOut, op.syncId = A ∧ op.path = c.path

end Replay

/-! ## One ingest of one root -/

section Ingest

variable {s : EngineShell} {batch : List SyncCandidate} {A : SyncId}

theorem EngineShell.planned_root {policy : DeletePolicy}
    (hroot : ∀ c ∈ s.plannerOverflow ++ batch, c.syncId = A) {op : PlannedOperation}
    (h : op ∈ s.planned batch policy) : op.syncId = A := by
  obtain ⟨c, hc, hid, -⟩ := planned_from h
  rw [hid, hroot c hc]

theorem EngineShell.ingest_queue_eq_planned {policy : DeletePolicy}
    (hroot : ∀ c ∈ s.plannerOverflow ++ batch, c.syncId = A)
    (hqueue : ∀ op ∈ s.scheduler.queuedOperations, op.syncId = A) {op : PlannedOperation} :
    op ∈ (s.ingestCandidatesFiltered batch policy).scheduler.queuedOperations ↔
      op ∈ s.planned batch policy := by
  rw [mem_ingest_queue]
  constructor
  · rintro (⟨B, hB, hop, hne⟩ | h)
    · obtain ⟨hnil, hall⟩ := singleSyncId_eq_some.mp hB
      obtain ⟨c, hc⟩ := List.exists_mem_of_ne_nil _ hnil
      have hAB : A = B := (hroot c hc).symm.trans (hall c hc)
      exact absurd ((hqueue op hop).trans hAB) hne
    · exact h
  · exact .inr

theorem Replay.inv_of_ingest (hroot : ∀ c ∈ s.plannerOverflow ++ batch, c.syncId = A)
    (hqueue : ∀ op ∈ s.scheduler.queuedOperations, op.syncId = A)
    (hlen : (s.plannerOverflow ++ batch).length ≤ plannerOverflowMax) {m : Nat}
    (hm : s.planner.maxOperationsPerTick = m) (handedOut : List PlannedOperation) :
    Inv A m ⟨s.ingestCandidates batch, handedOut⟩ := by
  rw [EngineShell.ingestCandidates_eq]
  constructor
  · simpa using hm
  · intro c hc
    exact hroot c (EngineShell.ingest_overflow_subset hc)
  · exact EngineShell.ingest_overflow_length_le.trans hlen
  · intro op hop
    rw [EngineShell.ingest_queue_eq_planned hroot hqueue] at hop
    exact EngineShell.planned_root hroot hop
  · intro op hop hmem
    rw [EngineShell.ingest_queue_eq_planned hroot hqueue] at hop
    -- The path of a planned operation is under the cap, that of an overflow candidate is not.
    obtain ⟨-, p, -, hdue, hplan⟩ := EngineShell.mem_planned.mp hop
    obtain ⟨c, hc, hpath⟩ := mem_pathsOf.mp hmem
    have hnot := ((EngineShell.mem_ingest_overflow hlen).mp hc).2
    rw [(planPair_lastAt_from hplan).1] at hpath
    rw [hpath] at hnot
    exact hnot hdue

theorem Replay.covered_of_ingest (batch : List SyncCandidate)
    (hroot : ∀ c ∈ s.plannerOverflow ++ batch, c.syncId = A)
    (hqueue : ∀ op ∈ s.scheduler.queuedOperations, op.syncId = A)
    (hlen : (s.plannerOverflow ++ batch).length ≤ plannerOverflowMax)
    (handedOut : List PlannedOperation) :
    Covered A (s.plannerOverflow ++ batch) ⟨s.ingestCandidates batch, handedOut⟩ := by
  rw [EngineShell.ingestCandidates_eq]
  intro c hc
  rcases Classical.em
    (Due s.planner.maxOperationsPerTick (s.plannerOverflow ++ batch) c.path) with hdue | hdue
  · obtain ⟨op, hop, hpath⟩ := EngineShell.exists_planned_of_due hc hdue
    refine .inr ⟨op, ?_, EngineShell.planned_root hroot hop, hpath⟩
    exact List.mem_append_left _ ((EngineShell.ingest_queue_eq_planned hroot hqueue).mpr hop)
  · exact .inl ⟨c, (EngineShell.mem_ingest_overflow hlen).mpr ⟨hc, hdue⟩, rfl⟩

end Ingest

/-! ## One call -/

namespace Replay

variable {A : SyncId} {m : Nat} {r : Replay}

theorem mem_queue_advance {op : PlannedOperation} :
    op ∈ r.engine.scheduler.queuedOperations ↔
      op ∈ r.handsOut .advance ∨ op ∈ (r.step .advance).engine.scheduler.queuedOperations :=
  r.engine.scheduler.mem_nextBatch

theorem inv_step (h : Inv A m r) (call : ReplayCall) : Inv A m (r.step call) := by
  obtain ⟨hcap, hover, hfits, hqueue, hapart⟩ := h
  rcases call with _ | _ | ⟨syncId, path⟩
  · exact inv_of_ingest (by simpa using hover) hqueue (by simpa using hfits) hcap _
  · have hsub : ∀ op ∈ (r.step .advance).engine.scheduler.queuedOperations,
        op ∈ r.engine.scheduler.queuedOperations := fun op hop => mem_queue_advance.mpr (.inr hop)
    exact ⟨hcap, hover, hfits, fun op hop => hqueue op (hsub op hop), fun op hop => hapart op (hsub op hop)⟩
  · exact ⟨hcap, hover, hfits, hqueue, hapart⟩

theorem keepsQueued_iff (h : Inv A m r) (call : ReplayCall) :
    r.KeepsQueued call ↔ r.ReplaysDrained call := by
  obtain ⟨-, hover, -, hqueue, hapart⟩ := h
  rcases call with _ | _ | ⟨syncId, path⟩
  · unfold KeepsQueued ReplaysDrained
    simp only [forall_const, handsOut, List.not_mem_nil, or_false]
    rw [List.eq_nil_iff_forall_not_mem]
    constructor
    · intro hkeeps op hop
      have hnew := hkeeps op hop
      unfold step ReplayCall.toEngineCall EngineShell.step at hnew
      simp only [EngineShell.ingestCandidates_eq] at hnew
      rw [EngineShell.ingest_queue_eq_planned (by simpa using hover) hqueue] at hnew
      obtain ⟨c, hc, -, hpath⟩ := EngineShell.planned_from hnew
      exact hapart op hop (mem_pathsOf.mpr ⟨c, by simpa using hc, hpath.symm⟩)
    · intro hnil op hop
      exact absurd hop (hnil op)
  · have hkeeps : r.KeepsQueued .advance := fun op hop => (mem_queue_advance.mp hop).symm
    have hdrained : r.ReplaysDrained .advance := by simp [ReplaysDrained]
    exact iff_of_true hkeeps hdrained
  · have hkeeps : r.KeepsQueued (.ack syncId path) := fun op hop => .inl hop
    have hdrained : r.ReplaysDrained (.ack syncId path) := by simp [ReplaysDrained]
    exact iff_of_true hkeeps hdrained

theorem covered_step {candidates : List SyncCandidate} (h : Inv A m r)
    (hcov : Covered A candidates r) {call : ReplayCall} (hok : r.ReplaysDrained call) :
    Covered A candidates (r.step call) := by
  obtain ⟨-, hover, hfits, hqueue, -⟩ := h
  intro c hc
  rcases call with _ | _ | ⟨syncId, path⟩
  · have hnil : r.engine.scheduler.queuedOperations = [] := hok rfl
    rcases hcov c hc with ⟨d, hd, hpath⟩ | ⟨op, hop, hid, hpath⟩
    · have hcover := covered_of_ingest (s := r.engine) [] (by simpa using hover) hqueue
        (by simpa using hfits) (r.handedOut ++ r.handsOut .replay) d (by simpa using hd)
      rw [hpath] at hcover
      exact hcover
    · rw [hnil, List.nil_append] at hop
      exact .inr ⟨op, by simp [step, hop], hid, hpath⟩
  · rcases hcov c hc with hwaits | ⟨op, hop, hid, hpath⟩
    · exact .inl hwaits
    · refine .inr ⟨op, ?_, hid, hpath⟩
      rw [List.mem_append, mem_queue_advance] at hop
      simp only [step, List.mem_append] at hop ⊢
      tauto
  · simpa [step, handsOut, ReplayCall.toEngineCall, EngineShell.step, EngineShell.ackDispatchedPath,
      Scheduler.ackBatch] using hcov c hc

theorem progress (hm : 0 < m) (h : Inv A m r) : r.Drained ∨ ∃ call, r.ReplaysDrained call ∧
    Inv A m (r.step call) ∧ Prod.Lex (· < ·) (· < ·)
      ((r.step call).engine.plannerOverflow.length, (r.step call).engine.scheduler.queuedOperations.length)
      (r.engine.plannerOverflow.length, r.engine.scheduler.queuedOperations.length) := by
  rcases Classical.em (r.engine.scheduler.queuedOperations = []) with hq | hq
  · rcases Classical.em (r.engine.plannerOverflow = []) with ho | ho
    · exact .inl ⟨ho, hq⟩
    · refine .inr ⟨.replay, fun _ => hq, inv_step h .replay, Prod.Lex.left _ _ ?_⟩
      have hlt := r.engine.planner.overflow_length_lt r.engine.plannerOverflow (by rw [h.cap]; exact hm) ho
      unfold step ReplayCall.toEngineCall EngineShell.step
      simp only [EngineShell.ingestCandidates_eq, EngineShell.ingest_overflow, List.append_nil,
        EngineShell.capOverflow]
      exact (List.length_take_le' _ _).trans_lt hlt
  · refine .inr ⟨.advance, by simp [ReplaysDrained], inv_step h .advance, Prod.Lex.right _ ?_⟩
    have hlen := r.engine.scheduler.nextBatch_perm.length_eq
    have hpos := List.length_pos_of_ne_nil (r.engine.scheduler.nextBatch_ne_nil hq)
    rw [List.length_append] at hlen
    change r.engine.scheduler.nextBatch.2.queuedOperations.length < _
    omega

/-! ## Whole runs -/

section Runs

variable {up down : UInt64} {candidates : List SyncCandidate} {calls : List ReplayCall}

theorem inv_start (hroot : ∀ c ∈ candidates, c.syncId = A)
    (hlen : candidates.length ≤ plannerOverflowMax) : Inv A m (start m up down candidates) :=
  inv_of_ingest (s := EngineShell.fresh m up down) (by simpa [EngineShell.fresh] using hroot)
    (by simp [EngineShell.fresh]) (by simpa [EngineShell.fresh] using hlen) rfl []

theorem covered_run (hroot : ∀ c ∈ candidates, c.syncId = A)
    (hlen : candidates.length ≤ plannerOverflowMax)
    (hok : AllSteps step ReplaysDrained (start m up down candidates) calls) :
    Inv A m (run step (start m up down candidates) calls) ∧
      Covered A candidates (run step (start m up down candidates) calls) := by
  refine hok.invariant (I := fun r => Inv A m r ∧ Covered A candidates r) ⟨inv_start hroot hlen, ?_⟩ ?_
  · exact covered_of_ingest (s := EngineShell.fresh m up down) candidates
      (by simpa [EngineShell.fresh] using hroot) (by simp [EngineShell.fresh])
      (by simpa [EngineShell.fresh] using hlen) []
  · rintro r call ⟨hinv, hcov⟩ hcall
    exact ⟨inv_step hinv call, covered_step hinv hcov hcall⟩

theorem handedOutAll_of_drained (hroot : ∀ c ∈ candidates, c.syncId = A) {r : Replay}
    (hcov : Covered A candidates r) (hdrained : r.Drained) : HandedOutAll candidates r := by
  obtain ⟨hover, hqueue⟩ := hdrained
  intro c hc
  rcases hcov c hc with ⟨d, hd, -⟩ | ⟨op, hop, hid, hpath⟩
  · rw [hover] at hd
    cases hd
  · rw [hqueue, List.nil_append] at hop
    exact ⟨op, hop, hid.trans (hroot c hc).symm, hpath⟩

/-- A run loses nothing, and hands out every path by the time it has drained, exactly when
each replay in it starts from an empty queue. Such a run can always be drained. -/
theorem replay_lossless_iff (A : SyncId) (m : Nat) (up down : UInt64) (hm : 1 ≤ m)
    (candidates : List SyncCandidate) (hroot : ∀ c ∈ candidates, c.syncId = A)
    (hlen : candidates.length ≤ plannerOverflowMax) (calls : List ReplayCall) :
    (AllSteps step KeepsQueued (start m up down candidates) calls ∧
        ((run step (start m up down candidates) calls).Drained →
          HandedOutAll candidates (run step (start m up down candidates) calls)) ↔
      AllSteps step ReplaysDrained (start m up down candidates) calls) ∧
    (AllSteps step ReplaysDrained (start m up down candidates) calls →
      ∃ more, AllSteps step ReplaysDrained (start m up down candidates) (calls ++ more) ∧
        (run step (start m up down candidates) (calls ++ more)).Drained) := by
  have hexact : AllSteps step KeepsQueued (start m up down candidates) calls ↔
      AllSteps step ReplaysDrained (start m up down candidates) calls :=
    allSteps_congr (inv_start hroot hlen) (fun r c h => keepsQueued_iff h c)
      (fun r c h _ => inv_step h c)
  refine ⟨⟨fun h => hexact.mp h.1, fun h => ⟨hexact.mpr h, ?_⟩⟩, fun h => ?_⟩
  · exact handedOutAll_of_drained hroot (covered_run hroot hlen h).2
  · obtain ⟨more, hmore, hdrained⟩ := exists_run_of_measure
      (WellFounded.prod_lex Nat.lt_wfRel.wf Nat.lt_wfRel.wf)
      (fun r : Replay => (r.engine.plannerOverflow.length, r.engine.scheduler.queuedOperations.length))
      (fun r hr => progress hm hr) (covered_run hroot hlen h).1
    exact ⟨more, allSteps_append.mpr ⟨h, hmore⟩, by rw [run_append]; exact hdrained⟩

end Runs

/-- Two paths under a cap of one: dispatch, replay, dispatch hands out both. -/
theorem replay_lossless_two :
    let candidates : List SyncCandidate :=
      [⟨⟨1⟩, .Local, "a", .File, .Upsert, none, none⟩, ⟨⟨1⟩, .Local, "b", .File, .Upsert, none, none⟩]
    HandedOutAll candidates (run step (start 1 4 4 candidates) [.advance, .replay, .advance]) := by
  intro candidates
  have hiff := (replay_lossless_iff ⟨1⟩ 1 4 4 (by decide) candidates (by simp [candidates])
    (by simp [candidates, plannerOverflowMax]) [.advance, .replay, .advance]).1
  have hok : AllSteps step ReplaysDrained (start 1 4 4 candidates) [.advance, .replay, .advance] := by
    refine ⟨by simp [ReplaysDrained], fun _ => ?_, by simp [ReplaysDrained], trivial⟩
    decide +kernel
  exact (hiff.mpr hok).2 ⟨by decide +kernel, by decide +kernel⟩

/-- A replay before the dispatch: the operation of `a` is gone, though the run drains. -/
theorem replay_loses_queued :
    let candidates : List SyncCandidate :=
      [⟨⟨1⟩, .Local, "a", .File, .Upsert, none, none⟩, ⟨⟨1⟩, .Local, "b", .File, .Upsert, none, none⟩]
    let last := run step (start 1 4 4 candidates) [.replay, .advance]
    ¬ AllSteps step KeepsQueued (start 1 4 4 candidates) [.replay, .advance] ∧
      last.Drained ∧ ¬ HandedOutAll candidates last := by
  intro candidates last
  refine ⟨?_, ⟨by decide +kernel, by decide +kernel⟩, ?_⟩
  · rintro ⟨hkeeps, -⟩
    have hlost := hkeeps (.UploadFile ⟨1⟩ "a" none "a") (by decide +kernel)
    revert hlost
    decide +kernel
  · intro h
    obtain ⟨op, hop, -, hpath⟩ := h ⟨⟨1⟩, .Local, "a", .File, .Upsert, none, none⟩ (by simp [candidates])
    have hout : last.handedOut = [.UploadFile ⟨1⟩ "b" none "b"] := by decide +kernel
    rw [hout, List.mem_singleton] at hop
    rw [hop] at hpath
    revert hpath
    decide

end Replay

end Pcloud
