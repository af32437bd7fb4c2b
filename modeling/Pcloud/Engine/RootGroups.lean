import Pcloud.Engine.PlannerSpec

/-!
# Planning one root at a time

A path is relative to its sync root, so the unit of planning is a path under a root. The
planner groups by the path alone. The two agree exactly when no path under the cap has
candidates of two roots.
-/

namespace Pcloud

/-! ## Groups -/

def groupOf (syncId : SyncId) (path : String) (candidates : List SyncCandidate) :
    List SyncCandidate :=
  candidates.filter fun c => c.syncId = syncId ∧ c.path = path

/-- What `planPair` makes of one group alone. -/
def groupOperation (syncId : SyncId) (path : String) (candidates : List SyncCandidate) :
    Option PlannedOperation :=
  planPair (lastAt .Local path (groupOf syncId path candidates))
    (lastAt .Remote path (groupOf syncId path candidates))

def operationsOf (syncId : SyncId) (path : String) (operations : List PlannedOperation) :
    List PlannedOperation :=
  operations.filter fun op => op.syncId = syncId ∧ op.path = path

/-- Every group gives its own operation or is handed back whole, and there is nothing else. -/
def Lossless (candidates : List SyncCandidate) (operations : List PlannedOperation)
    (overflow : List SyncCandidate) : Prop :=
  (∀ c ∈ candidates,
    (∃ op, groupOperation c.syncId c.path candidates = some op ∧
        operationsOf c.syncId c.path operations = [op] ∧ groupOf c.syncId c.path overflow = []) ∨
      operationsOf c.syncId c.path operations = [] ∧
        (groupOf c.syncId c.path overflow).Perm (groupOf c.syncId c.path candidates)) ∧
  ∀ op ∈ operations, ∃ syncId path, groupOperation syncId path candidates = some op

/-- No path under the cap has candidates of two roots. -/
def OneRootPerDuePath (m : Nat) (candidates : List SyncCandidate) : Prop :=
  ∀ a ∈ candidates, ∀ b ∈ candidates, a.path = b.path → Due m candidates a.path →
    a.syncId = b.syncId

theorem groupOperation_eq {candidates : List SyncCandidate} {syncId : SyncId} {path : String}
    (h : ∀ c ∈ candidates, c.path = path → c.syncId = syncId) :
    groupOperation syncId path candidates =
      planPair (lastAt .Local path candidates) (lastAt .Remote path candidates) := by
  have hside : ∀ source, lastAt source path (groupOf syncId path candidates) =
      lastAt source path candidates := by
    intro source
    rw [lastAt, lastAt, groupOf, List.filter_filter]
    congr 1
    apply List.filter_congr
    intro c hc
    by_cases hp : c.path = path
    · simp [hp, h c hc hp]
    · simp [hp]
  rw [groupOperation, hside, hside]

/-! ## One operation for each path -/

namespace Planner

variable (planner : Planner) (candidates : List SyncCandidate)

theorem plan_path_inj {a b : PlannedOperation} (ha : a ∈ planner.plan candidates)
    (hb : b ∈ planner.plan candidates) (hp : a.path = b.path) : a = b := by
  have hnodup : ((planner.plan candidates).map (·.path)).Nodup :=
    (planner.plan_paths candidates).imp fun h => ne_of_lt h
  exact List.inj_on_of_nodup_map hnodup ha hb hp

theorem plan_nodup : (planner.plan candidates).Nodup :=
  List.Nodup.of_map _ ((planner.plan_paths candidates).imp fun h => ne_of_lt h)

theorem operationsOf_plan_eq {op : PlannedOperation} (h : op ∈ planner.plan candidates) :
    operationsOf op.syncId op.path (planner.plan candidates) = [op] := by
  have honly : ∀ x, x ∈ operationsOf op.syncId op.path (planner.plan candidates) ↔ x = op := by
    intro x
    rw [operationsOf, List.mem_filter]
    constructor
    · rintro ⟨hx, hkey⟩
      simp only [decide_eq_true_eq] at hkey
      exact planner.plan_path_inj candidates hx h hkey.2
    · rintro rfl
      exact ⟨h, by simp⟩
  have hnodup : (operationsOf op.syncId op.path (planner.plan candidates)).Nodup :=
    (planner.plan_nodup candidates).filter _
  refine List.perm_singleton.mp ((List.perm_ext_iff_of_nodup hnodup (by simp)).mpr ?_)
  simpa using honly

theorem groupOf_overflow_of_due {syncId : SyncId} {path : String}
    (h : Due planner.maxOperationsPerTick candidates path) :
    groupOf syncId path (planner.planWithOverflow candidates).2 = [] := by
  rw [groupOf, List.filter_eq_nil_iff]
  intro c hc
  obtain ⟨-, hnot⟩ := planner.mem_overflow candidates |>.mp hc
  simp only [decide_eq_true_eq, not_and]
  rintro - rfl
  exact hnot h

theorem groupOf_overflow_of_not_due {syncId : SyncId} {path : String}
    (h : ¬ Due planner.maxOperationsPerTick candidates path) :
    (groupOf syncId path (planner.planWithOverflow candidates).2).Perm
      (groupOf syncId path candidates) := by
  have hall : groupOf syncId path (planner.planWithOverflow candidates).2 =
      groupOf syncId path (candidates.insertionSort SyncCandidate.Before) := by
    rw [planWithOverflow_overflow, groupOf, groupOf, List.filter_filter]
    apply List.filter_congr
    intro c _
    by_cases hp : c.path = path
    · simp [hp, h]
    · simp [hp]
  rw [hall]
  exact (List.perm_insertionSort _ _).filter _

theorem plan_path_due {op : PlannedOperation} (h : op ∈ planner.plan candidates) :
    Due planner.maxOperationsPerTick candidates op.path := by
  obtain ⟨p, -, hdue, hplan⟩ := (planner.mem_plan candidates).mp h
  rw [(planPair_lastAt_from hplan).1]
  exact hdue

/-! ## When the planner keeps roots apart -/

theorem lossless_of_oneRoot (h : OneRootPerDuePath planner.maxOperationsPerTick candidates) :
    Lossless candidates (planner.plan candidates) (planner.planWithOverflow candidates).2 := by
  have hgroup : ∀ c ∈ candidates, Due planner.maxOperationsPerTick candidates c.path →
      groupOperation c.syncId c.path candidates =
        planPair (lastAt .Local c.path candidates) (lastAt .Remote c.path candidates) := by
    intro c hc hdue
    exact groupOperation_eq fun x hx hp => (h c hc x hx hp.symm hdue).symm
  refine ⟨?_, ?_⟩
  · intro c hc
    by_cases hdue : Due planner.maxOperationsPerTick candidates c.path
    · left
      obtain ⟨op, hop⟩ := planPair_lastAt_isSome hc
      have hmem : op ∈ planner.plan candidates :=
        (planner.mem_plan candidates).mpr ⟨c.path, mem_pathsOf.mpr ⟨c, hc, rfl⟩, hdue, hop⟩
      obtain ⟨hpath, x, hx, hxp, hid⟩ := planPair_lastAt_from hop
      have hxid : op.syncId = c.syncId := hid.trans (h c hc x hx hxp.symm hdue).symm
      refine ⟨op, (hgroup c hc hdue).trans hop, ?_, planner.groupOf_overflow_of_due candidates hdue⟩
      rw [← hxid, ← hpath]
      exact planner.operationsOf_plan_eq candidates hmem
    · right
      refine ⟨?_, planner.groupOf_overflow_of_not_due candidates hdue⟩
      rw [operationsOf, List.filter_eq_nil_iff]
      intro op hop
      simp only [decide_eq_true_eq, not_and]
      intro _ hp
      exact hdue (hp ▸ planner.plan_path_due candidates hop)
  · intro op hop
    obtain ⟨p, hp, hdue, hplan⟩ := (planner.mem_plan candidates).mp hop
    obtain ⟨c, hc, rfl⟩ := mem_pathsOf.mp hp
    exact ⟨c.syncId, c.path, (hgroup c hc hdue).trans hplan⟩

theorem oneRoot_of_lossless
    (h : Lossless candidates (planner.plan candidates) (planner.planWithOverflow candidates).2) :
    OneRootPerDuePath planner.maxOperationsPerTick candidates := by
  -- A due group is not in the overflow, so it has an operation of its own.
  have hown : ∀ c ∈ candidates, Due planner.maxOperationsPerTick candidates c.path →
      ∃ op ∈ planner.plan candidates, op.syncId = c.syncId ∧ op.path = c.path := by
    intro c hc hdue
    rcases h.1 c hc with ⟨op, -, hops, -⟩ | ⟨-, hperm⟩
    · have hop : op ∈ operationsOf c.syncId c.path (planner.plan candidates) := by simp [hops]
      rw [operationsOf, List.mem_filter] at hop
      exact ⟨op, hop.1, by simpa using hop.2⟩
    · have hmem : c ∈ groupOf c.syncId c.path candidates := by simp [groupOf, hc]
      rw [planner.groupOf_overflow_of_due candidates hdue] at hperm
      rw [List.nil_perm.mp hperm] at hmem
      cases hmem
  intro a ha b hb hp hdue
  obtain ⟨x, hx, hxid, hxp⟩ := hown a ha hdue
  obtain ⟨y, hy, hyid, hyp⟩ := hown b hb (hp ▸ hdue)
  rw [← hxid, ← hyid, planner.plan_path_inj candidates hx hy (hxp.trans (hp.trans hyp.symm))]

/-- The planner is lossless exactly when no path under the cap is shared by two roots. -/
theorem plan_lossless_iff :
    Lossless candidates (planner.plan candidates) (planner.planWithOverflow candidates).2 ↔
      OneRootPerDuePath planner.maxOperationsPerTick candidates :=
  ⟨planner.oneRoot_of_lossless candidates, planner.lossless_of_oneRoot candidates⟩

/-- Two roots that both change `a.txt`: one operation comes out, a conflict. -/
theorem plan_not_lossless :
    let candidates : List SyncCandidate :=
      [⟨⟨1⟩, .Local, "a.txt", .File, .Upsert, none, none⟩,
        ⟨⟨2⟩, .Remote, "a.txt", .File, .Upsert, some ⟨9⟩, none⟩]
    ¬ Lossless candidates (({} : Planner).plan candidates)
      (({} : Planner).planWithOverflow candidates).2 := by
  intro candidates h
  have hplan : ({} : Planner).plan candidates =
      [.Conflict ⟨1⟩ "a.txt" .LocalModifyVsRemoteModify] := by decide +kernel
  have hover : (({} : Planner).planWithOverflow candidates).2 = [] := by decide +kernel
  rw [hplan, hover] at h
  rcases h.1 ⟨⟨2⟩, .Remote, "a.txt", .File, .Upsert, some ⟨9⟩, none⟩ (by simp [candidates]) with h | h
  · obtain ⟨op, -, hop, -⟩ := h
    revert hop
    simp [operationsOf, PlannedOperation.syncId]
  · have := h.2.length_eq
    revert this
    decide

end Planner

end Pcloud
