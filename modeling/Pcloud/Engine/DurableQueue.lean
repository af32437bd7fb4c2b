import Pcloud.Engine.Shell
import Pcloud.Lib.Reps

/-!
# The queue across a restart

The persisted queue merges neighbours of one root and path, whatever is to be done there. So of two kinds of work for
one path the second is lost, unless the order puts an operation between them.
-/

namespace Pcloud

inductive OperationKind
  | UploadFile
  | DownloadFile
  | CreateLocalDirectory
  | CreateRemoteDirectory
  | DeleteLocal
  | DeleteRemote
  | Conflict
deriving DecidableEq, Repr

namespace PlannedOperation

def kind : PlannedOperation → OperationKind
  | UploadFile .. => .UploadFile
  | DownloadFile .. => .DownloadFile
  | CreateLocalDirectory .. => .CreateLocalDirectory
  | CreateRemoteDirectory .. => .CreateRemoteDirectory
  | DeleteLocal .. => .DeleteLocal
  | DeleteRemote .. => .DeleteRemote
  | Conflict .. => .Conflict

/-- What names a piece of work. -/
def work (op : PlannedOperation) : (SyncId × String) × OperationKind := ((op.syncId, op.path), op.kind)

theorem priority_eq_of_kind_eq {a b : PlannedOperation} (h : a.kind = b.kind) : a.priority = b.priority := by
  cases a <;> cases b <;> first | rfl | cases h

end PlannedOperation

namespace EngineShell

/-- Work that is queued or handed out. -/
def unfinished (s : EngineShell) : List PlannedOperation :=
  s.scheduler.queuedOperations ++ s.scheduler.dispatchedOperations

/-- The snapshot has all the work, each piece once, and gives it back. -/
structure DurableFaithful (s : EngineShell) : Prop where
  complete : ∀ op ∈ s.unfinished, ∃ op' ∈ s.snapshotSchedulerDurable, op'.work = op.work
  sound : ∀ op ∈ s.snapshotSchedulerDurable, op ∈ s.unfinished
  unique : (s.snapshotSchedulerDurable.map PlannedOperation.work).Nodup
  restored : (s.restoreSchedulerQueue s.snapshotSchedulerDurable).scheduler.queuedOperations.Perm
      s.snapshotSchedulerDurable ∧
    (s.restoreSchedulerQueue s.snapshotSchedulerDurable).scheduler.dispatchedOperations = []

/-- Before in the order of the snapshot, and not level with it. -/
def DurableLess (a b : PlannedOperation) : Prop := DurableBefore a b ∧ ¬ DurableBefore b a

/-- Of two kinds of work for one path, something else sorts between. -/
def Separated (s : EngineShell) : Prop :=
  ∀ a ∈ s.unfinished, ∀ b ∈ s.unfinished, a.syncId = b.syncId → a.path = b.path → a.kind ≠ b.kind →
    ∃ c ∈ s.unfinished, (DurableLess a c ∧ DurableLess c b) ∨ (DurableLess b c ∧ DurableLess c a)

section

variable {s : EngineShell} {a b c op : PlannedOperation}

instance : Std.Total DurableBefore where
  total a b := by
    rcases Nat.lt_trichotomy a.syncId.get.toNat b.syncId.get.toNat with h | h | h
    · exact .inl (.inl (UInt64.lt_iff_toNat_lt.mpr h))
    · have heq := UInt64.toNat_inj.mp h
      exact (Std.Total.total (r := PlannedOperation.Before) a b).imp (fun hp => .inr ⟨heq, hp⟩)
        (fun hp => .inr ⟨heq.symm, hp⟩)
    · exact .inr (.inl (UInt64.lt_iff_toNat_lt.mpr h))

instance : IsTrans PlannedOperation DurableBefore where
  trans a b c hab hbc := by
    rcases hab with hab | ⟨hab, hpab⟩ <;> rcases hbc with hbc | ⟨hbc, hpbc⟩
    · exact .inl (UInt64.lt_trans hab hbc)
    · exact .inl (hbc ▸ hab)
    · exact .inl (hab ▸ hbc)
    · exact .inr ⟨hab.trans hbc, Trans.trans hpab hpbc⟩

theorem DurableBefore.refl (op : PlannedOperation) : DurableBefore op op := .inr ⟨rfl, .inr ⟨rfl, le_rfl⟩⟩

theorem key_eq_of_level (hab : DurableBefore a b) (hba : DurableBefore b a) :
    (a.syncId, a.path) = (b.syncId, b.path) := by
  rcases hab with hlt | ⟨hroot, hab⟩
  · rcases hba with hlt' | ⟨hroot, -⟩
    · exact absurd hlt' (UInt64.lt_asymm hlt)
    · exact absurd hroot.symm (UInt64.ne_of_lt hlt)
  · rcases hba with hlt' | ⟨-, hba⟩
    · exact absurd hroot.symm (UInt64.ne_of_lt hlt')
    · have hpath : a.path = b.path := by
        rcases hab with hlt | ⟨hpriority, hab⟩
        · rcases hba with hlt' | ⟨hpriority, -⟩
          · omega
          · omega
        · rcases hba with hlt' | ⟨-, hba⟩
          · omega
          · exact le_antisymm hab hba
      have hid : a.syncId = b.syncId := congrArg SyncId.mk hroot
      rw [hid, hpath]

theorem before_of_work_eq (h : a.work = b.work) : DurableBefore a b := by
  obtain ⟨⟨hid, hpath⟩, hkind⟩ : (a.syncId = b.syncId ∧ a.path = b.path) ∧ a.kind = b.kind := by
    simpa [PlannedOperation.work] using h
  exact .inr ⟨congrArg SyncId.get hid, .inr ⟨PlannedOperation.priority_eq_of_kind_eq hkind, hpath.le⟩⟩

theorem durableLess_of_before (hab : DurableBefore a b) (hbc : DurableLess b c) : DurableLess a c :=
  ⟨Trans.trans hab hbc.1, fun hca => hbc.2 (Trans.trans hca hab)⟩

theorem before_of_durableLess (hab : DurableLess a b) (hbc : DurableBefore b c) : DurableLess a c :=
  ⟨Trans.trans hab.1 hbc, fun hca => hab.2 (Trans.trans hbc hca)⟩

theorem snapshot_eq (s : EngineShell) : s.snapshotSchedulerDurable =
    (s.unfinished.insertionSort DurableBefore).eraseRepsBy fun a b =>
      (a.syncId, a.path) = (b.syncId, b.path) := by
  simp only [snapshotSchedulerDurable, unfinished, Prod.mk.injEq]

theorem mem_sorted : op ∈ s.unfinished.insertionSort DurableBefore ↔ op ∈ s.unfinished :=
  List.mem_insertionSort DurableBefore

theorem pairwise_sorted (s : EngineShell) : (s.unfinished.insertionSort DurableBefore).Pairwise DurableBefore :=
  List.pairwise_insertionSort DurableBefore s.unfinished

theorem pairwise_snapshot (s : EngineShell) : s.snapshotSchedulerDurable.Pairwise DurableBefore := by
  rw [snapshot_eq]
  exact (pairwise_sorted s).sublist (Reps.eraseRepsBy_sublist _)

theorem snapshot_unique (s : EngineShell) : (s.snapshotSchedulerDurable.map PlannedOperation.work).Nodup := by
  rw [snapshot_eq]
  exact Reps.nodup_eraseRepsBy (pairwise_sorted s) (fun a b c => Trans.trans) (fun a b => before_of_work_eq)
    fun a b => key_eq_of_level

theorem snapshot_restored (s : EngineShell) :
    (s.restoreSchedulerQueue s.snapshotSchedulerDurable).scheduler.queuedOperations.Perm s.snapshotSchedulerDurable :=
  List.perm_insertionSort PlannedOperation.Before s.snapshotSchedulerDurable

/-- Neighbours of one root and path are of one kind, so each piece of work has its representative. -/
theorem snapshot_complete (h : s.Separated) :
    ∀ op ∈ s.unfinished, ∃ op' ∈ s.snapshotSchedulerDurable, op'.work = op.work := by
  intro op hop
  have hchain : (s.unfinished.insertionSort DurableBefore).IsChain fun a b =>
      (a.syncId, a.path) = (b.syncId, b.path) → a.kind = b.kind := by
    refine (Reps.isChain_neighbours (pairwise_sorted s) DurableBefore.refl).imp_of_mem_imp ?_
    rintro a b ha hb ⟨hab, hnone⟩ hkey
    obtain ⟨hid, hpath⟩ := Prod.mk.inj hkey
    by_contra hkind
    obtain ⟨c, hc, hbetween⟩ := h a (mem_sorted.mp ha) b (mem_sorted.mp hb) hid hpath hkind
    rcases hnone c (mem_sorted.mpr hc) with hca | hbc
    · rcases hbetween with ⟨hac, -⟩ | ⟨hbc, -⟩
      · exact hac.2 hca
      · exact hbc.2 (Trans.trans hca hab)
    · rcases hbetween with ⟨-, hcb⟩ | ⟨-, hca⟩
      · exact hcb.2 hbc
      · exact hca.2 (Trans.trans hab hbc)
  obtain ⟨op', hop', hkey, hkind⟩ := Reps.exists_rep _ PlannedOperation.kind hchain (mem_sorted.mpr hop)
  rw [snapshot_eq]
  exact ⟨op', hop', Prod.ext hkey hkind⟩

theorem separated_of_complete (h : ∀ op ∈ s.unfinished, ∃ op' ∈ s.snapshotSchedulerDurable, op'.work = op.work) :
    s.Separated := by
  intro a ha b hb hid hpath hkind
  obtain ⟨x, hx, hxa⟩ := h a ha
  obtain ⟨y, hy, hyb⟩ := h b hb
  have hxkey : (x.syncId, x.path) = (a.syncId, a.path) := congrArg Prod.fst hxa
  have hykey : (y.syncId, y.path) = (b.syncId, b.path) := congrArg Prod.fst hyb
  have hxy : x ≠ y := by
    rintro rfl
    exact hkind (congrArg Prod.snd (hxa.symm.trans hyb))
  have hsame : (x.syncId, x.path) = (y.syncId, y.path) := by
    rw [hxkey, hykey, hid, hpath]
  have hchain : s.snapshotSchedulerDurable.IsChain fun a b => (a.syncId, a.path) ≠ (b.syncId, b.path) := by
    rw [snapshot_eq]
    exact Reps.isChain_eraseRepsBy _ _
  obtain ⟨z, hz, hbetween⟩ :=
    Reps.exists_between (pairwise_snapshot s) hchain (fun a b => key_eq_of_level) hx hy hxy hsame
  refine ⟨z, s.snapshot_subset hz, ?_⟩
  -- `x` and `y` are level with `a` and `b`.
  rcases hbetween with ⟨hxz, hzx, hzy, hyz⟩ | ⟨hyz, hzy, hzx, hxz⟩
  · exact .inl ⟨durableLess_of_before (before_of_work_eq hxa.symm) ⟨hxz, hzx⟩,
      before_of_durableLess ⟨hzy, hyz⟩ (before_of_work_eq hyb)⟩
  · exact .inr ⟨durableLess_of_before (before_of_work_eq hyb.symm) ⟨hyz, hzy⟩,
      before_of_durableLess ⟨hzx, hxz⟩ (before_of_work_eq hxa)⟩

end

/-- The persisted queue is faithful exactly when two kinds of work for one path are never neighbours in its order. -/
theorem durableFaithful_iff (s : EngineShell) : s.DurableFaithful ↔ s.Separated := by
  constructor
  · intro h
    exact separated_of_complete h.complete
  · intro h
    exact ⟨snapshot_complete h, fun op hop => s.snapshot_subset hop, snapshot_unique s, snapshot_restored s, rfl⟩

/-- A download that was handed out, and a deletion planned since. -/
def downloadThenDelete : EngineShell where
  scheduler := {
    queuedOperations := [.DeleteRemote ⟨1⟩ "a"]
    dispatchedOperations := [.DownloadFile ⟨1⟩ "a" (some ⟨7⟩)] }

theorem not_durableFaithful : ¬ ∀ s : EngineShell, s.DurableFaithful := by
  intro hall
  obtain ⟨op, hop, hwork⟩ := (hall downloadThenDelete).complete (.DownloadFile ⟨1⟩ "a" (some ⟨7⟩)) (by decide)
  have hsnapshot : downloadThenDelete.snapshotSchedulerDurable = [.DeleteRemote ⟨1⟩ "a"] := by decide
  rw [hsnapshot, List.mem_singleton] at hop
  subst hop
  exact absurd hwork (by decide)

end EngineShell

end Pcloud
