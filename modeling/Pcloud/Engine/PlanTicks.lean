import Pcloud.Engine.PlannerSpec

/-!
# Planning in ticks

Each tick plans up to its cap and leaves an overflow, which the next tick plans. The overflow is what is left of the
sorted list at the boundary of a path, so the ticks together plan what one tick without a cap does.
-/

open StableSort

namespace Pcloud

/-- Plans the overflow until there is none. -/
def Planner.planUntilDone (planner : Planner) : Nat → List SyncCandidate → Option (List PlannedOperation)
  | 0, _ => none
  | ticks + 1, candidates =>
    let (operations, overflow) := planner.planWithOverflow candidates
    if overflow.isEmpty then some operations
    else (planner.planUntilDone ticks overflow).map fun later => operations ++ later

section

variable {m cap : Nat} {operations : List PlannedOperation} {c : SyncCandidate} {rest : List SyncCandidate}

/-- What one path adds to the plan. -/
def pathPlan (c : SyncCandidate) (rest : List SyncCandidate) : List PlannedOperation :=
  (planPair (takeGroup c.path none none (c :: rest)).1 (takeGroup c.path none none (c :: rest)).2.1).toList

theorem planLoop_of_lt (hlt : operations.length < m) :
    planLoop m operations (c :: rest) =
      planLoop m (operations ++ pathPlan c rest) (takeGroup c.path none none (c :: rest)).2.2 := by
  rw [planLoop, if_pos hlt, pathPlan]
  dsimp only
  cases planPair (takeGroup c.path none none (c :: rest)).1 (takeGroup c.path none none (c :: rest)).2.1 with
  | none => rw [Option.toList_none, List.append_nil]
  | some operation => rw [Option.toList_some]

theorem planLoop_of_ge (hge : m ≤ operations.length) : planLoop m operations (c :: rest) = (operations, c :: rest) := by
  rw [planLoop, if_neg (not_lt.mpr hge)]

/-- Induction along the outer loop, over a list in any order. -/
@[elab_as_elim]
theorem path_induction {motive : List SyncCandidate → Prop} (nil : motive [])
    (cons : ∀ c rest, motive (takeGroup c.path none none (c :: rest)).2.2 → motive (c :: rest))
    (xs : List SyncCandidate) : motive xs := by
  induction hn : xs.length using Nat.strong_induction_on generalizing xs with
  | _ n ih =>
    cases xs with
    | nil => exact nil
    | cons c rest => exact cons c rest (ih _ (hn ▸ takeGroup_rest_lt c rest) _ rfl)

theorem planLoop_resume (hcap : m ≤ cap) (operations : List PlannedOperation) (xs : List SyncCandidate) :
    planLoop cap operations xs = planLoop cap (planLoop m operations xs).1 (planLoop m operations xs).2 := by
  induction xs using path_induction generalizing operations with
  | nil => simp [planLoop]
  | cons c rest ih =>
    rcases Nat.lt_or_ge operations.length m with hlt | hge
    · rw [planLoop_of_lt hlt, planLoop_of_lt (hlt.trans_le hcap)]
      exact ih _
    · rw [planLoop_of_ge hge]

theorem planLoop_append (pre operations : List PlannedOperation) (xs : List SyncCandidate) :
    planLoop (pre.length + m) (pre ++ operations) xs =
      (pre ++ (planLoop m operations xs).1, (planLoop m operations xs).2) := by
  induction xs using path_induction generalizing operations with
  | nil => simp [planLoop]
  | cons c rest ih =>
    rcases Nat.lt_or_ge operations.length m with hlt | hge
    · rw [planLoop_of_lt hlt, planLoop_of_lt (by simpa using hlt), List.append_assoc]
      exact ih _
    · rw [planLoop_of_ge hge, planLoop_of_ge (by simpa using hge)]

theorem planLoop_length (m : Nat) (operations : List PlannedOperation) (xs : List SyncCandidate) :
    (planLoop m operations xs).1.length + (planLoop m operations xs).2.length ≤ operations.length + xs.length := by
  induction xs using path_induction generalizing operations with
  | nil => simp [planLoop]
  | cons c rest ih =>
    rcases Nat.lt_or_ge operations.length m with hlt | hge
    · rw [planLoop_of_lt hlt]
      have hplan : (pathPlan c rest).length ≤ 1 := Option.length_toList_le
      have hrest := takeGroup_rest_lt c rest
      have := ih (operations ++ pathPlan c rest)
      rw [List.length_append] at this
      omega
    · rw [planLoop_of_ge hge]

end

namespace Planner

variable (planner : Planner) (candidates : List SyncCandidate)

theorem overflow_sorted : (planner.planWithOverflow candidates).2.insertionSort SyncCandidate.Before =
    (planner.planWithOverflow candidates).2 := by
  refine List.Pairwise.insertionSort_eq ?_
  rw [planWithOverflow_overflow]
  exact (List.pairwise_insertionSort SyncCandidate.Before candidates).filter _

theorem plan_overflow (cap : Nat) : (Planner.mk cap).plan (planner.planWithOverflow candidates).2 =
    (planLoop cap [] (planner.planWithOverflow candidates).2).1 := by
  show (planLoop cap [] ((planner.planWithOverflow candidates).2.insertionSort SyncCandidate.Before)).1 = _
  rw [overflow_sorted]

theorem planWithOverflow_length :
    (planner.planWithOverflow candidates).1.length + (planner.planWithOverflow candidates).2.length ≤
      candidates.length := by
  have hlength := planLoop_length planner.maxOperationsPerTick [] (candidates.insertionSort SyncCandidate.Before)
  rw [List.length_nil, List.length_insertionSort, Nat.zero_add] at hlength
  exact hlength

theorem plan_eq_append {cap : Nat} (hcap : planner.maxOperationsPerTick ≤ cap)
    (hlength : (planner.planWithOverflow candidates).1.length ≤ cap) :
    (Planner.mk cap).plan candidates = (planner.planWithOverflow candidates).1 ++
      (Planner.mk (cap - (planner.planWithOverflow candidates).1.length)).plan
        (planner.planWithOverflow candidates).2 := by
  have hresume := planLoop_resume hcap [] (candidates.insertionSort SyncCandidate.Before)
  have happend := planLoop_append (m := cap - (planner.planWithOverflow candidates).1.length)
    (planner.planWithOverflow candidates).1 [] (planner.planWithOverflow candidates).2
  rw [Nat.add_sub_cancel' hlength, List.append_nil] at happend
  calc (Planner.mk cap).plan candidates
    _ = (planLoop cap (planner.planWithOverflow candidates).1 (planner.planWithOverflow candidates).2).1 :=
      congrArg Prod.fst hresume
    _ = (planner.planWithOverflow candidates).1 ++
        (planLoop (cap - (planner.planWithOverflow candidates).1.length) []
          (planner.planWithOverflow candidates).2).1 := congrArg Prod.fst happend
    _ = _ := by rw [plan_overflow]

theorem due_of_length_le {c : SyncCandidate} (hc : c ∈ candidates) {m : Nat} (h : candidates.length ≤ m) :
    Due m candidates c.path := by
  have hlt : rank (pathsOf candidates) c.path < (pathsOf candidates).card := by
    refine Finset.card_lt_card (Finset.filter_ssubset.mpr ⟨c.path, mem_pathsOf.mpr ⟨c, hc, rfl⟩, lt_irrefl _⟩)
  have hcard : (pathsOf candidates).card ≤ candidates.length := by
    have := List.toFinset_card_le (candidates.map (·.path))
    rwa [List.length_map] at this
  exact (hlt.trans_le hcard).trans_le h

theorem overflow_eq_nil (h : candidates.length ≤ planner.maxOperationsPerTick) :
    (planner.planWithOverflow candidates).2 = [] := by
  rw [List.eq_nil_iff_forall_not_mem]
  intro c hc
  obtain ⟨hmem, hdue⟩ := (planner.mem_overflow candidates).mp hc
  exact hdue (due_of_length_le candidates hmem h)

theorem plan_nil : planner.plan [] = [] := by
  simp [plan, planWithOverflow, planLoop]

theorem plan_eq_of_length_le {cap cap' : Nat} (h : candidates.length ≤ cap) (hcap : cap ≤ cap') :
    (Planner.mk cap').plan candidates = (Planner.mk cap).plan candidates := by
  have hlength := planWithOverflow_length (Planner.mk cap) candidates
  rw [plan_eq_append (Planner.mk cap) candidates hcap (by omega), overflow_eq_nil (Planner.mk cap) candidates h,
    plan_nil, List.append_nil]
  rfl

theorem planUntilDone_eq_some (hm : 0 < planner.maxOperationsPerTick) {cap ticks : Nat}
    (hcap : candidates.length ≤ cap) (hticks : candidates.length < ticks) :
    planner.planUntilDone ticks candidates = some ((Planner.mk cap).plan candidates) := by
  induction ticks generalizing candidates cap with
  | zero => omega
  | succ ticks ih =>
    have hlength := planWithOverflow_length planner candidates
    have htop : candidates.length ≤ max cap planner.maxOperationsPerTick := le_max_of_le_left hcap
    have hplan := plan_eq_append planner candidates (le_max_right cap _) (by omega)
    rw [← plan_eq_of_length_le candidates hcap (le_max_left cap planner.maxOperationsPerTick), hplan, planUntilDone]
    dsimp only
    by_cases hdone : (planner.planWithOverflow candidates).2 = []
    · rw [hdone, plan_nil, List.append_nil]
      rfl
    · have hne : candidates ≠ [] := by
        rintro rfl
        exact hdone (overflow_eq_nil planner [] (Nat.zero_le _))
      have hshorter := overflow_length_lt planner candidates hm hne
      have hlater : planner.planUntilDone ticks (planner.planWithOverflow candidates).2 =
          some ((Planner.mk (max cap planner.maxOperationsPerTick -
            (planner.planWithOverflow candidates).1.length)).plan (planner.planWithOverflow candidates).2) :=
        ih _ (by omega) (by omega)
      rw [if_neg (by simpa using hdone), hlater, Option.map_some]

theorem mem_plan_paths {cap : Nat} (h : candidates.length ≤ cap) {path : String} :
    path ∈ ((Planner.mk cap).plan candidates).map (·.path) ↔ ∃ c ∈ candidates, c.path = path := by
  rw [List.mem_map]
  constructor
  · rintro ⟨op, hop, rfl⟩
    obtain ⟨p, -, -, hplan⟩ := (mem_plan _ candidates).mp hop
    obtain ⟨hpath, c, hc, hcp, -⟩ := planPair_lastAt_from hplan
    exact ⟨c, hc, hcp.trans hpath.symm⟩
  · rintro ⟨c, hc, rfl⟩
    obtain ⟨op, hplan⟩ := planPair_lastAt_isSome hc
    refine ⟨op, (mem_plan _ candidates).mpr ?_, (planPair_lastAt_from hplan).1⟩
    exact ⟨c.path, mem_pathsOf.mpr ⟨c, hc, rfl⟩, due_of_length_le candidates hc h, hplan⟩

end Planner

/-- The ticks together are the plan without a cap, with each path of the candidates once and in order. -/
theorem ticks_eq_plan (planner : Planner) (hm : 1 ≤ planner.maxOperationsPerTick) (candidates : List SyncCandidate)
    (cap : Nat) (hcap : candidates.length ≤ cap) :
    ∃ operations, (∀ ticks, candidates.length < ticks → planner.planUntilDone ticks candidates = some operations) ∧
      operations = (Planner.mk cap).plan candidates ∧ (operations.map (·.path)).Pairwise (· < ·) ∧
      ∀ path, path ∈ operations.map (·.path) ↔ ∃ c ∈ candidates, c.path = path := by
  refine ⟨(Planner.mk cap).plan candidates, fun ticks hticks => ?_, rfl, Planner.plan_paths _ candidates,
    fun path => ?_⟩
  · exact planner.planUntilDone_eq_some candidates hm hcap hticks
  · exact Planner.mem_plan_paths candidates hcap

/-- Both sides changed one file, and one side another. -/
def threeChanges : List SyncCandidate :=
  [⟨⟨1⟩, .Local, "b", .File, .Upsert, none, none⟩, ⟨⟨1⟩, .Remote, "a", .File, .Delete, none, none⟩,
    ⟨⟨1⟩, .Remote, "b", .File, .Upsert, none, none⟩]

theorem ticks_eq_plan_one : ∃ operations,
    (∀ ticks, 3 < ticks → (Planner.mk 1).planUntilDone ticks threeChanges = some operations) ∧
      operations = (Planner.mk 3).plan threeChanges ∧ (operations.map (·.path)).Pairwise (· < ·) ∧
      ∀ path, path ∈ operations.map (·.path) ↔ ∃ c ∈ threeChanges, c.path = path :=
  ticks_eq_plan ⟨1⟩ (by decide) threeChanges 3 (by decide)

end Pcloud
