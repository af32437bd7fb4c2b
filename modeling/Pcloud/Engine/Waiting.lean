import Pcloud.Engine.Shell

/-!
# What waits over the cap

An ingest hands back the candidates of the paths over the cap, by path and the local ones of a
path first. The overflow keeps the first of them, up to its bound. So what of one path is kept
follows from how many candidates over the cap have a smaller path.
-/

open StableSort

namespace Pcloud

def sideAt (source : ChangeSource) (path : String) (candidates : List SyncCandidate) :
    List SyncCandidate :=
  candidates.filter fun c => c.path = path ∧ c.source = source

def below (path : String) (candidates : List SyncCandidate) : List SyncCandidate :=
  candidates.filter fun c => c.path < path

/-- The candidates whose path is not among the first `m`. -/
def beyondCap (m : Nat) (candidates : List SyncCandidate) : List SyncCandidate :=
  candidates.filter fun c => ¬ Due m candidates c.path

/-- What the overflow has room for at a path, after all that is over the cap before it. -/
def waitingAt (m : Nat) (path : String) (candidates : List SyncCandidate) : List SyncCandidate :=
  let beyond := beyondCap m candidates
  (sideAt .Local path beyond ++ sideAt .Remote path beyond).take
    (plannerOverflowMax - (below path beyond).length)

def EngineShell.deferred (s : EngineShell) (combined : List SyncCandidate) : List SyncCandidate :=
  capOverflow (s.planner.planWithOverflow combined).2

/-! ## The sides of a path -/

section Sides

variable {source : ChangeSource} {path : String} {xs : List SyncCandidate} {c : SyncCandidate}

theorem mem_sideAt : c ∈ sideAt source path xs ↔ c ∈ xs ∧ c.path = path ∧ c.source = source := by
  unfold sideAt
  simp [List.mem_filter]

theorem lastAt_eq_sideAt : lastAt source path xs = (sideAt source path xs).getLast? := rfl

theorem mem_below : c ∈ below path xs ↔ c ∈ xs ∧ c.path < path := by
  unfold below
  rw [List.mem_filter, decide_eq_true_iff]

theorem sideAt_append (ys : List SyncCandidate) :
    sideAt source path (xs ++ ys) = sideAt source path xs ++ sideAt source path ys := by
  unfold sideAt
  rw [List.filter_append]

theorem sideAt_filter (p : SyncCandidate → Bool) :
    sideAt source path (xs.filter p) = (sideAt source path xs).filter p := by
  unfold sideAt
  rw [List.filter_comm]

theorem sideAt_at : sideAt source path xs =
    (xs.filter fun c => c.path = path).filter fun c => c.source = source := by
  unfold sideAt
  rw [List.filter_filter]
  exact List.filter_congr fun c _ => by simp [Bool.and_comm]

theorem sideAt_eq_nil_of_local (h : ∀ c ∈ xs, c.source = .Local) : sideAt .Remote path xs = [] := by
  refine List.eq_nil_iff_forall_not_mem.mpr fun c hc => ?_
  obtain ⟨hmem, -, hremote⟩ := mem_sideAt.mp hc
  rw [h c hmem] at hremote
  cases hremote

theorem local_append_remote {l : List SyncCandidate}
    (h : l.Pairwise fun a b => a.source = .Local ∨ b.source = .Remote) :
    l = l.filter (fun c => c.source = .Local) ++ l.filter fun c => c.source = .Remote := by
  induction l with
  | nil => rfl
  | cons a l ih =>
    rw [List.pairwise_cons] at h
    cases ha : a.source with
    | Local => simpa [ha] using ih h.2
    | Remote =>
      have hrest : ∀ b ∈ l, b.source = .Remote := fun b hb =>
        (h.1 b hb).resolve_left (by simp [ha])
      rw [List.filter_eq_nil_iff.mpr, List.filter_eq_self.mpr]
      · rfl
      · simpa [ha] using hrest
      · intro b hb
        rcases List.mem_cons.mp hb with rfl | hb
        · simp [ha]
        · simp [hrest b hb]

/-- The planner's sort puts the local candidates of a path first, and is stable on each side. -/
theorem sorted_at (path : String) (xs : List SyncCandidate) :
    (xs.insertionSort SyncCandidate.Before).filter (fun c => c.path = path) =
      sideAt .Local path xs ++ sideAt .Remote path xs := by
  have hside : ∀ source, sideAt source path (xs.insertionSort SyncCandidate.Before) =
      sideAt source path xs := by
    intro source
    refine filter_insertionSort _ _ _ fun a _ b _ ha hb => ?_
    simp only [decide_eq_true_eq] at ha hb
    refine .inr ⟨ha.1.trans hb.1.symm, ?_⟩
    cases source with
    | Local => exact .inl ha.2
    | Remote => exact .inr hb.2
  have hpair : ((xs.insertionSort SyncCandidate.Before).filter (fun c => c.path = path)).Pairwise
      fun a b => a.source = .Local ∨ b.source = .Remote := by
    refine List.Pairwise.imp_of_mem ?_ ((List.pairwise_insertionSort _ xs).filter _)
    rintro a b ha hb (hlt | ⟨-, hsource⟩)
    · have hpa := of_decide_eq_true (List.mem_filter.mp ha).2
      have hpb := of_decide_eq_true (List.mem_filter.mp hb).2
      rw [hpa, hpb] at hlt
      exact absurd hlt (lt_irrefl path)
    · exact hsource
  rw [local_append_remote hpair, ← sideAt_at, ← sideAt_at, hside, hside]

end Sides

/-! ## The overflow at one path -/

theorem mem_beyondCap {m : Nat} {xs : List SyncCandidate} {c : SyncCandidate} :
    c ∈ beyondCap m xs ↔ c ∈ xs ∧ ¬ Due m xs c.path := by
  unfold beyondCap
  simp [List.mem_filter]

namespace EngineShell

variable (s : EngineShell) (xs : List SyncCandidate) {c : SyncCandidate}

theorem deferred_eq : s.deferred xs =
    ((xs.insertionSort SyncCandidate.Before).filter
      fun c => ¬ Due s.planner.maxOperationsPerTick xs c.path).take plannerOverflowMax := by
  rw [deferred, capOverflow, Planner.planWithOverflow_overflow]

theorem deferred_at (path : String) :
    (s.deferred xs).filter (fun c => c.path = path) =
      waitingAt s.planner.maxOperationsPerTick path xs := by
  have hsorted := (sorted_by_path xs).filter
    fun c => ¬ Due s.planner.maxOperationsPerTick xs c.path
  rw [deferred_eq, filter_eq_take (fun c : SyncCandidate => c.path) hsorted, waitingAt]
  congr 1
  · -- How much room is left.
    refine congrArg (plannerOverflowMax - ·) (List.Perm.length_eq ?_)
    exact ((List.perm_insertionSort _ xs).filter _).filter _
  · rw [List.filter_comm, sorted_at, List.filter_append, beyondCap, sideAt_filter, sideAt_filter]

theorem mem_deferred :
    c ∈ s.deferred xs ↔ c ∈ waitingAt s.planner.maxOperationsPerTick c.path xs := by
  rw [← deferred_at]
  simp [List.mem_filter]

theorem sideAt_deferred (source : ChangeSource) (path : String) :
    sideAt source path (s.deferred xs) =
      (waitingAt s.planner.maxOperationsPerTick path xs).filter fun c => c.source = source := by
  rw [sideAt_at, deferred_at]

theorem deferred_ne_nil : s.deferred xs ≠ [] ↔ beyondCap s.planner.maxOperationsPerTick xs ≠ [] := by
  have hperm : (beyondCap s.planner.maxOperationsPerTick xs).length =
      ((xs.insertionSort SyncCandidate.Before).filter
        fun c => ¬ Due s.planner.maxOperationsPerTick xs c.path).length :=
    ((List.perm_insertionSort _ xs).filter _).length_eq.symm
  rw [deferred_eq, ← List.length_pos_iff, ← List.length_pos_iff, List.length_take, hperm]
  unfold plannerOverflowMax
  omega

end EngineShell

/-! ## The next ingest

Where a remote candidate still waits at a path, nothing before that path was cut off, and no
local candidate of the path. So a later ingest sees there what it would see without the cut.
-/

/-- The same candidates before a path, in some order. -/
def SameBelow (path : String) (xs ys : List SyncCandidate) : Prop :=
  (below path xs).Perm (below path ys)

section SameBelow

variable {path : String} {xs ys : List SyncCandidate} {m : Nat}

theorem SameBelow.append (h : SameBelow path xs ys) (zs : List SyncCandidate) :
    SameBelow path (xs ++ zs) (ys ++ zs) := by
  unfold SameBelow below
  rw [List.filter_append, List.filter_append]
  exact h.append_right _

theorem SameBelow.due (h : SameBelow path xs ys) {p : String} (hp : p ≤ path) :
    Due m xs p ↔ Due m ys p := by
  have hmem : ∀ x : SyncCandidate, x.path < p → (x ∈ xs ↔ x ∈ ys) := by
    intro x hx
    have hbelow := List.Perm.mem_iff (a := x) h
    rwa [mem_below, mem_below, and_iff_left (hx.trans_le hp), and_iff_left (hx.trans_le hp)] at hbelow
  have hpaths : (pathsOf xs).filter (· < p) = (pathsOf ys).filter (· < p) := by
    ext q
    rw [Finset.mem_filter, Finset.mem_filter, mem_pathsOf, mem_pathsOf]
    refine and_congr_left fun hq => exists_congr fun x => and_congr_left fun hx => ?_
    exact hmem x (hx ▸ hq)
  rw [Due, Due, rank, rank, hpaths]

theorem SameBelow.beyondCap_length (h : SameBelow path xs ys) :
    (below path (beyondCap m xs)).length = (below path (beyondCap m ys)).length := by
  unfold below beyondCap
  rw [List.filter_comm, List.filter_comm (l := ys)]
  have hcongr : (below path ys).filter (fun c => ¬ Due m ys c.path) =
      (below path ys).filter fun c => ¬ Due m xs c.path := by
    refine List.filter_congr fun c hc => decide_eq_decide.mpr (not_congr ?_)
    exact (h.due (mem_below.mp hc).2.le).symm
  refine List.Perm.length_eq ?_
  have hperm := h.filter fun c => ¬ Due m xs c.path
  rw [← hcongr] at hperm
  exact hperm

end SameBelow

namespace EngineShell

variable {s : EngineShell} {waiting found : List SyncCandidate} {c r : SyncCandidate}

theorem sameBelow_of_waiting {path : String}
    (h : r ∈ waitingAt s.planner.maxOperationsPerTick path waiting) :
    SameBelow path (s.deferred waiting) (beyondCap s.planner.maxOperationsPerTick waiting) := by
  have hsorted := (sorted_by_path waiting).filter
    fun c => ¬ Due s.planner.maxOperationsPerTick waiting c.path
  have hperm : (below path ((waiting.insertionSort SyncCandidate.Before).filter
      fun c => ¬ Due s.planner.maxOperationsPerTick waiting c.path)).Perm
        (below path (beyondCap s.planner.maxOperationsPerTick waiting)) :=
    ((List.perm_insertionSort _ waiting).filter _).filter _
  -- Something is kept at the path, so all that comes before it is.
  have hroom : (below path (beyondCap s.planner.maxOperationsPerTick waiting)).length ≤
      plannerOverflowMax := by
    by_contra hfull
    rw [waitingAt, Nat.sub_eq_zero_of_le (by omega), List.take_zero] at h
    cases h
  unfold SameBelow
  rw [deferred_eq, below, filter_lt_take (fun c : SyncCandidate => c.path) hsorted,
    List.take_of_length_le]
  · exact hperm
  · exact hperm.length_eq.le.trans hroom

theorem locals_of_waiting {path : String} (hr : r.source = .Remote)
    (h : r ∈ waitingAt s.planner.maxOperationsPerTick path waiting) :
    sideAt .Local path (s.deferred waiting) =
      sideAt .Local path (beyondCap s.planner.maxOperationsPerTick waiting) := by
  rw [sideAt_deferred]
  unfold waitingAt at h ⊢
  rw [List.take_append] at h ⊢
  have hremotes : ∀ n, ((sideAt .Remote path
      (beyondCap s.planner.maxOperationsPerTick waiting)).take n).filter
        (fun c => c.source = .Local) = [] := by
    intro n
    refine List.filter_eq_nil_iff.mpr fun c hc => ?_
    simp [(mem_sideAt.mp (List.mem_of_mem_take hc)).2.2]
  rcases List.mem_append.mp h with hlocal | hremote
  · have := (mem_sideAt.mp (List.mem_of_mem_take hlocal)).2.2
    rw [hr] at this
    cases this
  · -- A remote one is kept, so the room is more than all the local ones.
    have hroom : (sideAt .Local path (beyondCap s.planner.maxOperationsPerTick waiting)).length ≤
        plannerOverflowMax - (below path (beyondCap s.planner.maxOperationsPerTick waiting)).length := by
      by_contra hfull
      rw [Nat.sub_eq_zero_of_le (by omega), List.take_zero] at hremote
      cases hremote
    rw [List.filter_append, hremotes, List.append_nil, List.take_of_length_le hroom]
    exact List.filter_eq_self.mpr fun c hc => by simp [(mem_sideAt.mp hc).2.2]

theorem sideAt_beyondCap {m : Nat} {path : String} (source : ChangeSource) {xs : List SyncCandidate}
    (h : ¬ Due m xs path) : sideAt source path (beyondCap m xs) = sideAt source path xs := by
  unfold beyondCap
  rw [sideAt_filter, List.filter_eq_self]
  intro c hc
  rw [(mem_sideAt.mp hc).2.1]
  exact decide_eq_true h

theorem mem_waitingAt_remote {m : Nat} {xs : List SyncCandidate} (hc : c.source = .Remote) :
    c ∈ waitingAt m c.path xs ↔ c ∈ (sideAt .Remote c.path (beyondCap m xs)).take
      (plannerOverflowMax - (below c.path (beyondCap m xs)).length -
        (sideAt .Local c.path (beyondCap m xs)).length) := by
  unfold waitingAt
  rw [List.take_append, List.mem_append, or_iff_right]
  intro hlocal
  have := (mem_sideAt.mp (List.mem_of_mem_take hlocal)).2.2
  rw [hc] at this
  cases this

theorem sideAt_remote_deferred (path : String) :
    sideAt .Remote path (s.deferred waiting) =
      (sideAt .Remote path (beyondCap s.planner.maxOperationsPerTick waiting)).take
        (plannerOverflowMax - (below path (beyondCap s.planner.maxOperationsPerTick waiting)).length -
          (sideAt .Local path (beyondCap s.planner.maxOperationsPerTick waiting)).length) := by
  rw [sideAt_deferred, waitingAt, List.take_append, List.filter_append, List.filter_eq_nil_iff.mpr,
    List.nil_append, List.filter_eq_self]
  · exact fun c hc => decide_eq_true (mem_sideAt.mp (List.mem_of_mem_take hc)).2.2
  · intro c hc
    simp [(mem_sideAt.mp (List.mem_of_mem_take hc)).2.2]

theorem mem_deferred_again (s : EngineShell) (waiting : List SyncCandidate) (hc : c.source = .Remote)
    (hfound : ∀ x ∈ found, x.source = .Local) :
    c ∈ s.deferred (s.deferred waiting ++ found) ↔
      c ∈ waitingAt s.planner.maxOperationsPerTick c.path waiting ∧
        c ∈ waitingAt s.planner.maxOperationsPerTick c.path
          (beyondCap s.planner.maxOperationsPerTick waiting ++ found) := by
  by_cases hwaits : c ∈ waitingAt s.planner.maxOperationsPerTick c.path waiting
  · have hbelow := (sameBelow_of_waiting hwaits).append found
    rw [mem_deferred, and_iff_right hwaits, mem_waitingAt_remote hc, mem_waitingAt_remote hc,
      hbelow.beyondCap_length]
    by_cases hdue : Due s.planner.maxOperationsPerTick
        (beyondCap s.planner.maxOperationsPerTick waiting ++ found) c.path
    · -- The path moves under the cap: nothing of it waits, with the cut or without.
      have hnone : ∀ xs n, Due s.planner.maxOperationsPerTick xs c.path →
          ¬ c ∈ (sideAt .Remote c.path (beyondCap s.planner.maxOperationsPerTick xs)).take n :=
        fun xs n h hmem =>
          (mem_beyondCap.mp (mem_sideAt.mp (List.mem_of_mem_take hmem)).1).2 h
      exact iff_of_false (hnone _ _ ((hbelow.due le_rfl).mpr hdue)) (hnone _ _ hdue)
    · have hdue' := mt (hbelow.due le_rfl).mp hdue
      rw [sideAt_beyondCap _ hdue, sideAt_beyondCap _ hdue, sideAt_beyondCap _ hdue',
        sideAt_beyondCap _ hdue', sideAt_append, sideAt_append, sideAt_append, sideAt_append,
        locals_of_waiting hc hwaits, sideAt_eq_nil_of_local hfound, List.append_nil, List.append_nil,
        sideAt_remote_deferred, List.take_take]
      rw [mem_waitingAt_remote hc] at hwaits
      rcases min_choice (plannerOverflowMax -
          (below c.path (beyondCap s.planner.maxOperationsPerTick
            (beyondCap s.planner.maxOperationsPerTick waiting ++ found))).length -
          (sideAt .Local c.path (beyondCap s.planner.maxOperationsPerTick waiting) ++
            sideAt .Local c.path found).length)
        (plannerOverflowMax - (below c.path (beyondCap s.planner.maxOperationsPerTick waiting)).length -
          (sideAt .Local c.path (beyondCap s.planner.maxOperationsPerTick waiting)).length)
        with hmin | hmin
      · rw [hmin]
      · rw [hmin]
        refine iff_of_true hwaits ?_
        exact (List.take_prefix_take_left (min_eq_right_iff.mp hmin)).subset hwaits
  · refine iff_of_false (fun hagain => ?_) (fun h => hwaits h.1)
    have hmem := (s.planner.mem_overflow _).mp (List.mem_of_mem_take hagain)
    rcases List.mem_append.mp hmem.1 with hkept | hnew
    · exact hwaits ((s.mem_deferred waiting).mp hkept)
    · rw [hfound c hnew] at hc
      cases hc

theorem lastAt_remote_again {path : String} (hfound : ∀ x ∈ found, x.source = .Local) :
    lastAt .Remote path (s.deferred waiting ++ found) =
      lastAt .Remote path (waitingAt s.planner.maxOperationsPerTick path waiting) := by
  rw [lastAt_eq_sideAt, lastAt_eq_sideAt, sideAt_append, sideAt_eq_nil_of_local hfound, List.append_nil,
    ← deferred_at, sideAt_filter, List.filter_eq_self.mpr]
  exact fun c hc => decide_eq_true (mem_sideAt.mp hc).2.1

end EngineShell

end Pcloud
