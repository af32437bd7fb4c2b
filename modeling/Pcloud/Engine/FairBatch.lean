import Mathlib.Data.List.Dedup
import Mathlib.Data.List.TakeWhile
import Pcloud.Engine.Scheduler

/-!
# A batch of the queue

The source selects positions, removes them from the last to the first and turns the batch around. `takeFairBatch` is one
walk that does the same, and so is the peek, which leaves the queue as it is.
-/

open FairTake

namespace Pcloud

namespace Scheduler

variable (s : Scheduler)

/-! ## The loops of the source -/

/-- The loop of `take_fair_batch`, from position `i` on. -/
def selectIndices (perRoot : SyncId → Nat) (batchIndices : List Nat) (i : Nat) : List PlannedOperation → List Nat
  | [] => batchIndices
  | op :: rest =>
    if s.globalLimit ≤ batchIndices.length then batchIndices
    else if perRoot op.syncId < s.perRootCap then
      selectIndices (Function.update perRoot op.syncId (perRoot op.syncId + 1)) (batchIndices ++ [i]) (i + 1) rest
    else selectIndices perRoot batchIndices (i + 1) rest

/-- The addition of the limits, which a debug build checks. `none` is a panic, here and below. -/
def addLimits (debugBuild : Bool) : Option Nat :=
  if debugBuild ∧ 2 ^ 64 ≤ s.maxParallelUploads.toNat + s.maxParallelDownloads.toNat then none
  else some s.globalLimit

/-- `Vec::with_capacity`, which refuses more than `isize::MAX` bytes. -/
def withCapacity {α : Type} (elementSize capacity : Nat) : Option (List α) :=
  if capacity * elementSize < 2 ^ 63 then some [] else none

/-- `take_fair_batch`: the batch and the queue. A position takes eight bytes. -/
def takeFairBatchByIndex (debugBuild : Bool) : Option (List PlannedOperation × List PlannedOperation) := do
  let globalLimit ← s.addLimits debugBuild
  if s.queuedOperations.isEmpty then some ([], s.queuedOperations)
  else
    let batchIndices ← withCapacity 8 globalLimit
    let batchIndices := s.selectIndices (fun _ => 0) batchIndices 0 s.queuedOperations
    let (batch, queue) ← removeEach batchIndices.reverse ([], s.queuedOperations)
    some (batch.reverse, queue)

def nextBatchByIndex (debugBuild : Bool) : Option (List PlannedOperation × Scheduler) :=
  (s.takeFairBatchByIndex debugBuild).map fun (batch, queue) =>
    (batch, { s with
      queuedOperations := queue
      dispatchedOperations := s.dispatchedOperations ++ batch })

/-- The loop of `peek_fair_batch_cloned`. -/
def peekLoop (perRoot : SyncId → Nat) (out : List PlannedOperation) : List PlannedOperation → List PlannedOperation
  | [] => out
  | op :: rest =>
    if s.globalLimit ≤ out.length then out
    else if perRoot op.syncId < s.perRootCap then
      peekLoop (Function.update perRoot op.syncId (perRoot op.syncId + 1)) (out ++ [op]) rest
    else peekLoop perRoot out rest

/-- `operationSize` is the size of an operation in memory. -/
def peekFairBatchCloned (debugBuild : Bool) (operationSize : Nat) : Option (List PlannedOperation) := do
  let globalLimit ← s.addLimits debugBuild
  if s.queuedOperations.isEmpty then some []
  else
    let out ← withCapacity operationSize globalLimit
    some (s.peekLoop (fun _ => 0) out s.queuedOperations)

/-- It opens with an assertion of a debug build. -/
def peekBatch (debugBuild : Bool) (operationSize : Nat) : Option (List PlannedOperation) :=
  if debugBuild && s.queuedOperations.isEmpty && !s.dispatchedOperations.isEmpty then none
  else s.peekFairBatchCloned debugBuild operationSize

/-- The limits are too much for the build to add, or for a vector of elements of this size. -/
def LimitsTooLarge (debugBuild : Bool) (elementSize : Nat) : Prop :=
  debugBuild = true ∧ 2 ^ 64 ≤ s.maxParallelUploads.toNat + s.maxParallelDownloads.toNat ∨
    s.queuedOperations ≠ [] ∧ 2 ^ 63 ≤ s.globalLimit * elementSize

instance (debugBuild : Bool) (elementSize : Nat) : Decidable (s.LimitsTooLarge debugBuild elementSize) :=
  inferInstanceAs (Decidable (_ ∧ _ ∨ _ ∧ _))

/-! ## The loops are one walk -/

/-- The marks of the walk. -/
def batchMarks : List Bool :=
  fairMarks PlannedOperation.syncId s.globalLimit s.perRootCap (fun _ => 0) 0 s.queuedOperations

theorem selectIndices_eq (perRoot : SyncId → Nat) (batchIndices : List Nat) (i : Nat) (queue : List PlannedOperation) :
    s.selectIndices perRoot batchIndices i queue = batchIndices ++
      positions i (fairMarks PlannedOperation.syncId s.globalLimit s.perRootCap perRoot batchIndices.length queue) := by
  induction queue generalizing perRoot batchIndices i with
  | nil => simp [selectIndices, fairMarks, positions]
  | cons op rest ih =>
    by_cases hfull : s.globalLimit ≤ batchIndices.length
    · rw [selectIndices, if_pos hfull, fairMarks_of_full perRoot hfull, positions_replicate_false, List.append_nil]
    · rw [selectIndices, if_neg hfull, fairMarks, if_neg hfull]
      by_cases hroom : perRoot op.syncId < s.perRootCap
      · rw [if_pos hroom, if_pos hroom, ih, positions, List.length_append, List.append_assoc]
        rfl
      · rw [if_neg hroom, if_neg hroom, ih, positions]

theorem peekLoop_eq (perRoot : SyncId → Nat) (out queue : List PlannedOperation) :
    s.peekLoop perRoot out queue = out ++
      picked (fairMarks PlannedOperation.syncId s.globalLimit s.perRootCap perRoot out.length queue) queue := by
  induction queue generalizing perRoot out with
  | nil => simp [peekLoop, fairMarks, picked]
  | cons op rest ih =>
    by_cases hfull : s.globalLimit ≤ out.length
    · rw [peekLoop, if_pos hfull, fairMarks_of_full perRoot hfull, picked_replicate_false, List.append_nil]
    · rw [peekLoop, if_neg hfull, fairMarks, if_neg hfull]
      by_cases hroom : perRoot op.syncId < s.perRootCap
      · rw [if_pos hroom, if_pos hroom, ih, picked, List.length_append, List.append_assoc]
        rfl
      · rw [if_neg hroom, if_neg hroom, ih, picked]

theorem takeFairBatch_eq_marks :
    s.takeFairBatch = (picked s.batchMarks s.queuedOperations, skipped s.batchMarks s.queuedOperations) :=
  fairTake_eq_marks _ _ _

theorem addLimits_bind {α β : Type} {debugBuild : Bool} {elementSize : Nat} (onEmpty onQueue : β)
    (f : List α → Option β) (hf : f [] = some onQueue) (hempty : s.queuedOperations = [] → onEmpty = onQueue) :
    ((s.addLimits debugBuild).bind fun globalLimit =>
        if s.queuedOperations.isEmpty then some onEmpty else (withCapacity elementSize globalLimit).bind f) =
      if s.LimitsTooLarge debugBuild elementSize then none else some onQueue := by
  unfold addLimits withCapacity
  by_cases hsum : debugBuild = true ∧ 2 ^ 64 ≤ s.maxParallelUploads.toNat + s.maxParallelDownloads.toNat
  · have hlarge : s.LimitsTooLarge debugBuild elementSize := .inl hsum
    rw [if_pos hsum, if_pos hlarge, Option.bind_none]
  · rw [if_neg hsum, Option.bind_some]
    by_cases hqueue : s.queuedOperations = []
    · have hfit : ¬ s.LimitsTooLarge debugBuild elementSize := by
        rintro (hlarge | ⟨hne, -⟩)
        · exact hsum hlarge
        · exact hne hqueue
      rw [if_pos (List.isEmpty_iff.mpr hqueue), if_neg hfit, hempty hqueue]
    · rw [if_neg (by simpa using hqueue)]
      by_cases hcapacity : s.globalLimit * elementSize < 2 ^ 63
      · have hfit : ¬ s.LimitsTooLarge debugBuild elementSize := by
          rintro (hlarge | ⟨-, hlarge⟩)
          · exact hsum hlarge
          · exact Nat.not_lt.mpr hlarge hcapacity
        rw [if_pos hcapacity, if_neg hfit, Option.bind_some, hf]
      · have hlarge : s.LimitsTooLarge debugBuild elementSize := .inr ⟨hqueue, Nat.not_lt.mp hcapacity⟩
        rw [if_neg hcapacity, if_pos hlarge, Option.bind_none]

theorem takeFairBatchByIndex_eq (debugBuild : Bool) :
    s.takeFairBatchByIndex debugBuild = if s.LimitsTooLarge debugBuild 8 then none else some s.takeFairBatch := by
  refine s.addLimits_bind ([], s.queuedOperations) s.takeFairBatch _ ?_ fun hempty => ?_
  · rw [selectIndices_eq, List.nil_append, List.length_nil]
    dsimp only
    rw [removeEach_positions_zero (length_fairMarks _ _ _), takeFairBatch_eq_marks]
    simp [batchMarks]
  · rw [takeFairBatch_eq_marks, batchMarks, hempty]
    rfl

theorem peekFairBatchCloned_eq (debugBuild : Bool) (operationSize : Nat) :
    s.peekFairBatchCloned debugBuild operationSize =
      if s.LimitsTooLarge debugBuild operationSize then none else some s.nextBatch.1 := by
  refine s.addLimits_bind [] s.takeFairBatch.1 _ ?_ fun hempty => ?_
  · rw [peekLoop_eq, List.nil_append, takeFairBatch_eq_marks]
    rfl
  · rw [takeFairBatch_eq_marks, batchMarks, hempty]
    rfl

theorem nextBatchByIndex_eq (debugBuild : Bool) :
    s.nextBatchByIndex debugBuild = if s.LimitsTooLarge debugBuild 8 then none else some s.nextBatch := by
  rw [nextBatchByIndex, takeFairBatchByIndex_eq]
  split <;> rfl

/-! ## What a batch is -/

/-- The distinct roots in the queue. -/
def numRoots : Nat := (s.queuedOperations.map (·.syncId)).dedup.length

/-- The global limit over the roots, rounded up. -/
def rootShare : Nat := (s.globalLimit + s.numRoots - 1) / s.numRoots

/-- Every entry passed over before one that is taken is of a root that has its share by then. -/
def Greedy (marks : List Bool) : Prop :=
  ∀ i j op, i < j → marks[i]? = some false → marks[j]? = some true → s.queuedOperations[i]? = some op →
    (picked (marks.take i) (s.queuedOperations.take i)).countP (fun o => o.syncId = op.syncId) = s.rootShare

/-- `batch` and `queue` are the marked and the unmarked entries, in their order, and the batch is within its limits. -/
structure SplitsFairly (batch queue : List PlannedOperation) : Prop where
  interleaved : ∃ marks : List Bool, marks.length = s.queuedOperations.length ∧
    batch = picked marks s.queuedOperations ∧ queue = skipped marks s.queuedOperations ∧ s.Greedy marks
  bounded : batch.length ≤ s.globalLimit
  shared : ∀ root, batch.countP (fun op => op.syncId = root) ≤ s.rootShare
  nonempty : s.queuedOperations ≠ [] → batch ≠ []

theorem globalLimit_pos : 0 < s.globalLimit := by simp [globalLimit]

theorem numRoots_pos (h : s.queuedOperations ≠ []) : 0 < s.numRoots := by
  obtain ⟨op, hop⟩ := List.exists_mem_of_ne_nil _ h
  exact List.length_pos_of_mem (List.mem_dedup.mpr (List.mem_map_of_mem hop))

theorem perRootCap_eq (h : s.queuedOperations ≠ []) : s.perRootCap = s.rootShare := by
  have hroots := s.numRoots_pos h
  have hlimit := s.globalLimit_pos
  have hmax : max s.numRoots 1 = s.numRoots := Nat.max_eq_left hroots
  have hshare : 1 ≤ s.rootShare := (Nat.one_le_div_iff hroots).mpr (by omega)
  show max ((s.globalLimit + max s.numRoots 1 - 1) / max s.numRoots 1) 1 = s.rootShare
  rw [hmax]
  exact Nat.max_eq_left hshare

theorem count_picked_batchMarks (root : SyncId) :
    (picked s.batchMarks s.queuedOperations).countP (fun op => op.syncId = root) ≤ s.perRootCap := by
  have hcount := count_picked_le PlannedOperation.syncId s.globalLimit (fun _ => 0) 0 root (Nat.zero_le s.perRootCap)
    s.queuedOperations
  rwa [Nat.zero_add] at hcount

theorem greedy_batchMarks : s.Greedy s.batchMarks := by
  intro i j op hij hi hj hop
  have hne : s.queuedOperations ≠ [] := by
    intro hnil
    simp [hnil] at hop
  have hcap := cap_le_of_skipped (fun _ => 0) 0 hij hi hj hop
  have hle := (picked_take_sublist i s.batchMarks s.queuedOperations).countP_le
    (p := fun o => decide (o.syncId = op.syncId))
  have hall := s.count_picked_batchMarks op.syncId
  rw [Nat.zero_add] at hcap
  rw [← s.perRootCap_eq hne]
  exact Nat.le_antisymm (hle.trans hall) hcap

theorem splitsFairly_takeFairBatch : s.SplitsFairly s.takeFairBatch.1 s.takeFairBatch.2 := by
  rw [takeFairBatch_eq_marks]
  refine ⟨⟨s.batchMarks, length_fairMarks _ _ _, rfl, rfl, s.greedy_batchMarks⟩, ?_, fun root => ?_, fun hne => ?_⟩
  · have hlimit := length_picked_le PlannedOperation.syncId s.perRootCap (fun _ => 0)
      (Nat.zero_le s.globalLimit) s.queuedOperations
    rwa [Nat.zero_add] at hlimit
  · by_cases hne : s.queuedOperations = []
    · simp [batchMarks, hne, fairMarks, picked]
    · rw [← s.perRootCap_eq hne]
      exact s.count_picked_batchMarks root
  · have hbatch := s.nextBatch_ne_nil hne
    rwa [nextBatch, takeFairBatch_eq_marks] at hbatch

end Scheduler

/-- The batch is a bounded part of the queue in its order, by the loops of the source, unless the limits are too large.
The peek gives the same, but in a debug build it asserts that work is queued or none is dispatched. -/
theorem nextBatch_splitsFairly (s : Scheduler) (debugBuild : Bool) (operationSize : Nat) :
    ∃ batch s', s.nextBatch = (batch, s') ∧ s.SplitsFairly batch s'.queuedOperations ∧
      s.nextBatchByIndex debugBuild = (if s.LimitsTooLarge debugBuild 8 then none else some (batch, s')) ∧
      s.peekBatch debugBuild operationSize =
        if debugBuild ∧ s.queuedOperations = [] ∧ s.dispatchedOperations ≠ [] ∨
          s.LimitsTooLarge debugBuild operationSize then none else some batch := by
  refine ⟨s.nextBatch.1, s.nextBatch.2, rfl, s.splitsFairly_takeFairBatch, s.nextBatchByIndex_eq debugBuild, ?_⟩
  rw [Scheduler.peekBatch, Scheduler.peekFairBatchCloned_eq]
  simp only [Bool.and_eq_true, List.isEmpty_iff, Bool.not_eq_true', List.isEmpty_eq_false_iff, and_assoc, ite_or]

/-- One operation is dispatched and none is queued. -/
def dispatchedOnly : Scheduler where
  queuedOperations := []
  dispatchedOperations := [.DeleteLocal ⟨1⟩ "a"]

/-- One operation is queued, and each limit is half of all that a `usize` can count. -/
def hugeLimits : Scheduler where
  maxParallelUploads := 0x8000000000000000
  maxParallelDownloads := 0x8000000000000000
  queuedOperations := [.DeleteLocal ⟨1⟩ "a"]

theorem not_peekBatch_eq_nextBatch :
    (¬ ∀ (debugBuild : Bool) (s : Scheduler), (s.nextBatchByIndex debugBuild).isSome) ∧
      ¬ ∀ (debugBuild : Bool) (operationSize : Nat) (s : Scheduler) (batch : List PlannedOperation) (s' : Scheduler),
        s.nextBatchByIndex debugBuild = some (batch, s') → s.peekBatch debugBuild operationSize = some batch := by
  constructor
  · intro hall
    have hsome := hall true hugeLimits
    rw [hugeLimits.nextBatchByIndex_eq, if_pos (.inl ⟨rfl, by decide +kernel⟩)] at hsome
    cases hsome
  · intro hall
    have hbatch : dispatchedOnly.nextBatchByIndex true = some ([], dispatchedOnly) := by decide
    have hpanic : dispatchedOnly.peekBatch true 100 = none := by decide
    have hpeek := hall true 100 dispatchedOnly [] dispatchedOnly hbatch
    rw [hpanic] at hpeek
    cases hpeek

namespace Scheduler

variable (s : Scheduler)

/-! ## Who is served -/

/-- The batch has something of each root that has work, if there are no more roots than the limits add up to. -/
def RootsServed (debugBuild : Bool) : Prop :=
  s.numRoots ≤ max (s.maxParallelUploads.toNat + s.maxParallelDownloads.toNat) 1 →
    ∃ batch s', s.nextBatchByIndex debugBuild = some (batch, s') ∧
      ∀ op ∈ s.queuedOperations, ∃ op' ∈ batch, op'.syncId = op.syncId

/-- The limits are not too large, and ahead of the first entry of a root the other roots ask for less than the limit,
each for no more than its cap. -/
def RoomForEach (debugBuild : Bool) : Prop :=
  s.numRoots ≤ max (s.maxParallelUploads.toNat + s.maxParallelDownloads.toNat) 1 →
    ¬ s.LimitsTooLarge debugBuild 8 ∧ ∀ op ∈ s.queuedOperations,
      demand PlannedOperation.syncId s.perRootCap (s.queuedOperations.takeWhile fun o => o.syncId ≠ op.syncId) <
        s.globalLimit

theorem perRootCap_pos : 0 < s.perRootCap := by simp [perRootCap]

theorem served_iff {op : PlannedOperation} (h : op ∈ s.queuedOperations) :
    (∃ op' ∈ s.nextBatch.1, op'.syncId = op.syncId) ↔
      demand PlannedOperation.syncId s.perRootCap (s.queuedOperations.takeWhile fun o => o.syncId ≠ op.syncId) <
        s.globalLimit := by
  rw [nextBatch, takeFairBatch_eq_marks, ← unlimited_eq_demand, ← Nat.zero_add (unlimited ..)]
  exact exists_picked_iff s.globalLimit s.perRootCap_pos (fun _ => 0) 0 rfl ⟨op, h, rfl⟩

theorem roomForEach_of_dvd {debugBuild : Bool} (hlimits : ¬ s.LimitsTooLarge debugBuild 8)
    (h : s.numRoots ∣ s.globalLimit) : s.RoomForEach debugBuild := by
  refine fun _ => ⟨hlimits, fun op hop => ?_⟩
  have hne : s.queuedOperations ≠ [] := List.ne_nil_of_mem hop
  have hroots := s.numRoots_pos hne
  obtain ⟨share, hshare⟩ := h
  have hcap : s.perRootCap = share := by
    rw [s.perRootCap_eq hne, rootShare, hshare, Nat.add_sub_assoc hroots, Nat.mul_add_div hroots,
      Nat.div_eq_of_lt (by omega), Nat.add_zero]
  -- The roots ahead of the first entry of a root are the others.
  have hothers : ((s.queuedOperations.takeWhile fun o => o.syncId ≠ op.syncId).map (·.syncId)).toFinset.card <
      s.numRoots := by
    rw [numRoots, ← List.card_toFinset]
    refine Finset.card_lt_card (Finset.ssubset_iff_subset_ne.mpr ⟨fun root hroot => ?_, fun heq => ?_⟩)
    · obtain ⟨o, ho, rfl⟩ := List.mem_map.mp (List.mem_toFinset.mp hroot)
      exact List.mem_toFinset.mpr (List.mem_map_of_mem ((List.takeWhile_sublist _).subset ho))
    · have hmem : op.syncId ∈ (s.queuedOperations.map (·.syncId)).toFinset :=
        List.mem_toFinset.mpr (List.mem_map_of_mem hop)
      rw [← heq, List.mem_toFinset] at hmem
      obtain ⟨o, ho, hroot⟩ := List.mem_map.mp hmem
      exact absurd hroot (by simpa using List.mem_takeWhile_imp ho)
  calc demand PlannedOperation.syncId s.perRootCap (s.queuedOperations.takeWhile fun o => o.syncId ≠ op.syncId)
    _ ≤ _ * s.perRootCap := demand_le _
    _ < s.numRoots * s.perRootCap := Nat.mul_lt_mul_of_pos_right hothers s.perRootCap_pos
    _ = s.globalLimit := by rw [hcap, hshare]

end Scheduler

/-- No root is starved exactly when the roots ahead of it leave it a slot. -/
theorem rootsServed_iff (s : Scheduler) (debugBuild : Bool) : s.RootsServed debugBuild ↔ s.RoomForEach debugBuild := by
  refine imp_congr_right fun _ => ?_
  rw [s.nextBatchByIndex_eq]
  by_cases hlimits : s.LimitsTooLarge debugBuild 8
  · simp [hlimits]
  · rw [if_neg hlimits, and_iff_right hlimits]
    constructor
    · rintro ⟨batch, s', hbatch, hserved⟩ op hop
      refine (s.served_iff hop).mp ?_
      rw [Option.some.inj hbatch]
      exact hserved op hop
    · intro hroom
      exact ⟨_, _, rfl, fun op hop => (s.served_iff hop).mpr (hroom op hop)⟩

/-- Five roots at the default limits of four and four. The first four have two files each. -/
def fiveRoots : Scheduler where
  queuedOperations := [.DeleteLocal ⟨1⟩ "a", .DeleteLocal ⟨1⟩ "b", .DeleteLocal ⟨2⟩ "c", .DeleteLocal ⟨2⟩ "d",
    .DeleteLocal ⟨3⟩ "e", .DeleteLocal ⟨3⟩ "f", .DeleteLocal ⟨4⟩ "g", .DeleteLocal ⟨4⟩ "h", .DeleteLocal ⟨5⟩ "i"]

theorem not_rootsServed : ¬ ∀ (s : Scheduler) (debugBuild : Bool), s.RootsServed debugBuild := by
  intro hall
  obtain ⟨batch, s', hbatch, hserved⟩ := hall fiveRoots false (by decide)
  have height : fiveRoots.nextBatch.1 = fiveRoots.queuedOperations.take 8 := by decide
  rw [fiveRoots.nextBatchByIndex_eq, if_neg (by decide)] at hbatch
  obtain ⟨op, hop, hroot⟩ := hserved (.DeleteLocal ⟨5⟩ "i") (by decide)
  rw [← show fiveRoots.nextBatch.1 = batch from congrArg Prod.fst (Option.some.inj hbatch), height] at hop
  revert op
  decide

end Pcloud
