import Mathlib.Data.Finset.Max
import Pcloud.Lib.StableSort
import Pcloud.Engine.Planner

/-!
# What the planner computes

The loops of `Planner.lean` give one operation for each of the first few paths, made of
the last local and the last remote candidate of that path, and hand back every
candidate of the other paths.
-/

open StableSort

namespace Pcloud

/-! ## Paths, sides and the cap -/

def pathsOf (candidates : List SyncCandidate) : Finset String :=
  (candidates.map (·.path)).toFinset

theorem mem_pathsOf {candidates : List SyncCandidate} {path : String} :
    path ∈ pathsOf candidates ↔ ∃ c ∈ candidates, c.path = path := by
  simp [pathsOf]

/-- Fewer than `m` of the candidates' paths come before this one. -/
def Due (m : Nat) (candidates : List SyncCandidate) (path : String) : Prop :=
  rank (pathsOf candidates) path < m

instance (m : Nat) (candidates : List SyncCandidate) (path : String) :
    Decidable (Due m candidates path) :=
  inferInstanceAs (Decidable (rank (pathsOf candidates) path < m))

theorem exists_due {m : Nat} {candidates : List SyncCandidate} (hm : 0 < m) (h : candidates ≠ []) :
    ∃ c ∈ candidates, Due m candidates c.path := by
  have hne : (pathsOf candidates).Nonempty := by
    obtain ⟨c, hc⟩ := List.exists_mem_of_ne_nil candidates h
    exact ⟨c.path, mem_pathsOf.mpr ⟨c, hc, rfl⟩⟩
  obtain ⟨c, hc, hpath⟩ := mem_pathsOf.mp ((pathsOf candidates).min'_mem hne)
  refine ⟨c, hc, ?_⟩
  have hrank : rank (pathsOf candidates) c.path = 0 := by
    rw [rank, Finset.card_eq_zero, Finset.filter_eq_empty_iff]
    intro p hp
    rw [hpath, not_lt]
    exact Finset.min'_le _ p hp
  rw [Due, hrank]
  exact hm

/-- The last candidate that one side has for a path. -/
def lastAt (source : ChangeSource) (path : String) (candidates : List SyncCandidate) :
    Option SyncCandidate :=
  (candidates.filter fun c => c.path = path ∧ c.source = source).getLast?

theorem lastAt_mem {source : ChangeSource} {path : String} {candidates : List SyncCandidate}
    {c : SyncCandidate} (h : lastAt source path candidates = some c) :
    c ∈ candidates ∧ c.path = path ∧ c.source = source := by
  have hmem := List.mem_of_getLast? h
  rw [List.mem_filter] at hmem
  simpa using hmem

theorem lastAt_eq_none {source : ChangeSource} {path : String} {candidates : List SyncCandidate} :
    lastAt source path candidates = none ↔
      ∀ c ∈ candidates, c.path = path → c.source ≠ source := by
  simp [lastAt]

theorem lastAt_append (source : ChangeSource) (path : String) (xs ys : List SyncCandidate) :
    lastAt source path (xs ++ ys) = (lastAt source path ys).or (lastAt source path xs) := by
  unfold lastAt
  rw [List.filter_append, List.getLast?_append]

/-! ## The pair -/

theorem planSingle_path (c : SyncCandidate) : (planSingle c).path = c.path := by
  obtain ⟨s, src, p, ek, ck, f, d⟩ := c
  cases src <;> cases ek <;> cases ck <;> rfl

theorem planSingle_syncId (c : SyncCandidate) : (planSingle c).syncId = c.syncId := by
  obtain ⟨s, src, p, ek, ck, f, d⟩ := c
  cases src <;> cases ek <;> cases ck <;> rfl

/-- Both sides removed the same kind of entry. -/
def BothDelete (l r : SyncCandidate) : Prop :=
  l.entryKind = r.entryKind ∧ l.changeKind = .Delete ∧ r.changeKind = .Delete

theorem planConflictOrResolution_cases (l r : SyncCandidate) (hr : r.source = .Remote) :
    (¬ BothDelete l r ∧ ∃ kind, planConflictOrResolution l r = conflict l kind) ∨
      BothDelete l r ∧ planConflictOrResolution l r = planSingle r := by
  unfold planConflictOrResolution BothDelete
  split
  · rename_i hk
    exact .inl ⟨fun h => hk h.1, _, rfl⟩
  · rename_i hk
    split
    · rename_i hl hd
      exact .inl ⟨by simp [hl], _, rfl⟩
    · rename_i hl hd
      exact .inl ⟨by simp [hd], _, rfl⟩
    · rename_i hl hd
      exact .inl ⟨by simp [hl], _, rfl⟩
    · rename_i hl hd
      refine .inr ⟨⟨by simpa using hk, hl, hd⟩, ?_⟩
      simp [planSingle, hr, hd]

theorem planPair_remote_cases {l : Option SyncCandidate} {r : SyncCandidate} (hr : r.source = .Remote) :
    ((∀ x, l = some x → BothDelete x r) ∧ planPair l (some r) = some (planSingle r)) ∨
      ∃ x kind, l = some x ∧ ¬ BothDelete x r ∧ planPair l (some r) = some (conflict x kind) := by
  rcases l with _ | x
  · exact .inl ⟨by simp, rfl⟩
  · rcases planConflictOrResolution_cases x r hr with ⟨hnot, kind, hk⟩ | ⟨hboth, hk⟩
    · exact .inr ⟨x, kind, rfl, hnot, by simp [planPair, hk]⟩
    · refine .inl ⟨?_, by simp [planPair, hk]⟩
      rintro y hy
      rw [← Option.some.inj hy]
      exact hboth

theorem planPair_from {l r : Option SyncCandidate} {op : PlannedOperation}
    (h : planPair l r = some op) :
    ∃ c, (l = some c ∨ r = some c) ∧ op.syncId = c.syncId ∧ op.path = c.path := by
  match l, r with
  | none, none => simp [planPair] at h
  | none, some r =>
    simp only [planPair, Option.some.injEq] at h
    exact ⟨r, .inr rfl, h ▸ planSingle_syncId r, h ▸ planSingle_path r⟩
  | some l, none =>
    simp only [planPair, Option.some.injEq] at h
    exact ⟨l, .inl rfl, h ▸ planSingle_syncId l, h ▸ planSingle_path l⟩
  | some l, some r =>
    simp only [planPair, Option.some.injEq] at h
    subst h
    unfold planConflictOrResolution
    split
    · exact ⟨l, .inl rfl, rfl, rfl⟩
    · split
      · exact ⟨l, .inl rfl, rfl, rfl⟩
      · exact ⟨l, .inl rfl, rfl, rfl⟩
      · exact ⟨l, .inl rfl, rfl, rfl⟩
      · exact ⟨r, .inr rfl, rfl, rfl⟩

theorem planPair_lastAt_cases {path : String} {candidates : List SyncCandidate} {op : PlannedOperation}
    (h : planPair (lastAt .Local path candidates) (lastAt .Remote path candidates) = some op) :
    (∃ l, lastAt .Local path candidates = some l ∧ lastAt .Remote path candidates = none ∧
      op = planSingle l) ∨
    (∃ r, lastAt .Remote path candidates = some r ∧
      (∀ l, lastAt .Local path candidates = some l → BothDelete l r) ∧ op = planSingle r) ∨
    ∃ l r kind, lastAt .Local path candidates = some l ∧ lastAt .Remote path candidates = some r ∧
      ¬ BothDelete l r ∧ op = conflict l kind := by
  rcases hr : lastAt .Remote path candidates with _ | r
  · rcases hl : lastAt .Local path candidates with _ | l
    · simp [hl, hr, planPair] at h
    · simp only [hl, hr, planPair, Option.some.injEq] at h
      exact .inl ⟨l, rfl, rfl, h.symm⟩
  · rw [hr] at h
    rcases planPair_remote_cases (l := lastAt .Local path candidates) (lastAt_mem hr).2.2 with
      ⟨hboth, hown⟩ | ⟨l, kind, hl, hnot, hconflict⟩
    · exact .inr (.inl ⟨r, rfl, hboth, Option.some.inj (h.symm.trans hown)⟩)
    · exact .inr (.inr ⟨l, r, kind, hl, rfl, hnot, Option.some.inj (h.symm.trans hconflict)⟩)

theorem planPair_lastAt_from {path : String} {candidates : List SyncCandidate} {op : PlannedOperation}
    (h : planPair (lastAt .Local path candidates) (lastAt .Remote path candidates) = some op) :
    op.path = path ∧ ∃ c ∈ candidates, c.path = path ∧ op.syncId = c.syncId := by
  obtain ⟨c, hc, hid, hpath⟩ := planPair_from h
  rcases hc with hc | hc
  · obtain ⟨hmem, hp, -⟩ := lastAt_mem hc
    exact ⟨hpath.trans hp, c, hmem, hp, hid⟩
  · obtain ⟨hmem, hp, -⟩ := lastAt_mem hc
    exact ⟨hpath.trans hp, c, hmem, hp, hid⟩

theorem planPair_eq_none {l r : Option SyncCandidate} :
    planPair l r = none ↔ l = none ∧ r = none := by
  cases l <;> cases r <;> simp [planPair]

theorem planPair_lastAt_isSome {candidates : List SyncCandidate} {c : SyncCandidate}
    (h : c ∈ candidates) :
    ∃ op, planPair (lastAt .Local c.path candidates) (lastAt .Remote c.path candidates) = some op := by
  rw [← Option.ne_none_iff_exists']
  intro hnone
  obtain ⟨hl, hr⟩ := planPair_eq_none.mp hnone
  cases hs : c.source with
  | Local => exact lastAt_eq_none.mp hl c h rfl hs
  | Remote => exact lastAt_eq_none.mp hr c h rfl hs

/-! ## The inner loop -/

theorem takeGroup_sides (path : String) (l r : Option SyncCandidate) (xs : List SyncCandidate) :
    (takeGroup path l r xs).1 =
        (((xs.takeWhile fun c => c.path = path).filter fun c => c.source = .Local).getLast?).or l ∧
      (takeGroup path l r xs).2.1 =
        (((xs.takeWhile fun c => c.path = path).filter fun c => c.source = .Remote).getLast?).or r := by
  induction xs generalizing l r with
  | nil => simp [takeGroup]
  | cons c xs ih =>
    by_cases hc : c.path = path
    · cases hs : c.source with
      | Local =>
        obtain ⟨h1, h2⟩ := ih (some c) r
        simp only [takeGroup, hc, if_true, hs, h1, h2, List.takeWhile_cons, decide_true,
          List.filter_cons, List.getLast?_cons, reduceCtorEq, decide_false, Bool.false_eq_true,
          if_false, and_true]
        cases ((xs.takeWhile fun c => c.path = path).filter fun c => c.source = .Local).getLast? <;> rfl
      | Remote =>
        obtain ⟨h1, h2⟩ := ih l (some c)
        simp only [takeGroup, hc, if_true, hs, h1, h2, List.takeWhile_cons, decide_true,
          List.filter_cons, List.getLast?_cons, reduceCtorEq, decide_false, Bool.false_eq_true,
          if_false, true_and]
        cases ((xs.takeWhile fun c => c.path = path).filter fun c => c.source = .Remote).getLast? <;> rfl
    · simp [takeGroup, hc]

theorem takeGroup_sorted (c : SyncCandidate) (rest : List SyncCandidate)
    (hs : (c :: rest).Pairwise fun a b => a.path ≤ b.path) :
    takeGroup c.path none none (c :: rest) =
      (lastAt .Local c.path (c :: rest), lastAt .Remote c.path (c :: rest),
        (c :: rest).filter fun x => x.path ≠ c.path) := by
  have hmin : ∀ x ∈ c :: rest, c.path ≤ x.path := by
    intro x hx
    rcases List.mem_cons.mp hx with rfl | hx
    · exact le_refl _
    · exact (List.pairwise_cons.mp hs).1 x hx
  have htake := takeWhile_eq_filter (fun x : SyncCandidate => x.path) hs hmin
  obtain ⟨h1, h2⟩ := takeGroup_sides c.path none none (c :: rest)
  have hside : ∀ source, (((c :: rest).takeWhile fun x => x.path = c.path).filter
      fun x => x.source = source).getLast? = lastAt source c.path (c :: rest) := by
    intro source
    rw [htake, List.filter_filter, lastAt]
    congr 1
    apply List.filter_congr
    intro x _
    simp [Bool.and_comm]
  refine Prod.ext ?_ (Prod.ext ?_ ?_)
  · rw [h1, hside, Option.or_none]
  · rw [h2, hside, Option.or_none]
  · rw [takeGroup_rest]
    exact dropWhile_eq_filter (fun x : SyncCandidate => x.path) hs hmin

/-! ## The outer loop -/

section OuterLoop

variable {c : SyncCandidate} {rest : List SyncCandidate}

theorem pathsOf_cons (hs : (c :: rest).Pairwise fun a b => a.path ≤ b.path) :
    let later := (c :: rest).filter fun x => x.path ≠ c.path
    pathsOf (c :: rest) = insert c.path (pathsOf later) ∧ c.path ∉ pathsOf later ∧
      ∀ x ∈ later, c.path < x.path := by
  intro later
  refine ⟨?_, ?_, ?_⟩
  · ext p
    rw [Finset.mem_insert, mem_pathsOf, mem_pathsOf]
    constructor
    · rintro ⟨x, hx, rfl⟩
      by_cases hp : x.path = c.path
      · exact .inl hp
      · exact .inr ⟨x, List.mem_filter.mpr ⟨hx, by simpa using hp⟩, rfl⟩
    · rintro (rfl | ⟨x, hx, rfl⟩)
      · exact ⟨c, List.mem_cons_self, rfl⟩
      · exact ⟨x, (List.mem_filter.mp hx).1, rfl⟩
  · rw [mem_pathsOf]
    rintro ⟨x, hx, hp⟩
    have := (List.mem_filter.mp hx).2
    simp [hp] at this
  · intro x hx
    obtain ⟨hmem, hne⟩ := List.mem_filter.mp hx
    rcases List.mem_cons.mp hmem with rfl | hmem
    · simp at hne
    · exact lt_of_le_of_ne ((List.pairwise_cons.mp hs).1 x hmem) (by simpa using Ne.symm (by simpa using hne))

theorem due_first (hs : (c :: rest).Pairwise fun a b => a.path ≤ b.path) {m : Nat} (hm : 0 < m) :
    Due m (c :: rest) c.path := by
  obtain ⟨hpaths, -, hlt⟩ := pathsOf_cons hs
  rw [Due, hpaths, rank_insert_self]
  · exact hm
  · intro p hp
    obtain ⟨x, hx, rfl⟩ := mem_pathsOf.mp hp
    exact (hlt x hx).le

theorem due_later (hs : (c :: rest).Pairwise fun a b => a.path ≤ b.path) {m : Nat} {x : SyncCandidate}
    (hx : x ∈ (c :: rest).filter fun x => x.path ≠ c.path) :
    Due (m + 1) (c :: rest) x.path ↔ Due m ((c :: rest).filter fun x => x.path ≠ c.path) x.path := by
  obtain ⟨hpaths, hnot, hlt⟩ := pathsOf_cons hs
  rw [Due, Due, hpaths, rank_insert_of_lt hnot (hlt x hx), Nat.add_lt_add_iff_right]

theorem lastAt_later (source : ChangeSource) {path : String} (hp : path ≠ c.path) :
    lastAt source path ((c :: rest).filter fun x => x.path ≠ c.path) =
      lastAt source path (c :: rest) := by
  rw [lastAt, lastAt, List.filter_filter]
  congr 1
  apply List.filter_congr
  intro x _
  by_cases hx : x.path = path
  · simp [hx, hp]
  · simp [hx]

theorem planLoop_cons (hs : (c :: rest).Pairwise fun a b => a.path ≤ b.path) {m : Nat}
    {operations : List PlannedOperation} (hlt : operations.length < m) :
    ∃ op, planPair (lastAt .Local c.path (c :: rest)) (lastAt .Remote c.path (c :: rest)) = some op ∧
      planLoop m operations (c :: rest) =
        planLoop m (operations ++ [op]) ((c :: rest).filter fun x => x.path ≠ c.path) := by
  obtain ⟨op, hop⟩ := planPair_lastAt_isSome (List.mem_cons_self (a := c) (l := rest))
  refine ⟨op, hop, ?_⟩
  rw [planLoop, if_pos hlt]
  simp only [takeGroup_sorted c rest hs, hop]

end OuterLoop

/-- Induction along the outer loop: one path at a time. -/
@[elab_as_elim]
theorem group_induction
    {motive : (xs : List SyncCandidate) → xs.Pairwise (fun a b => a.path ≤ b.path) → Prop}
    (nil : motive [] List.Pairwise.nil)
    (cons : ∀ c rest (hs : (c :: rest).Pairwise fun a b => a.path ≤ b.path),
      motive ((c :: rest).filter fun x => x.path ≠ c.path) (hs.filter _) → motive (c :: rest) hs)
    (xs : List SyncCandidate) (hs : xs.Pairwise fun a b => a.path ≤ b.path) : motive xs hs := by
  induction hn : xs.length using Nat.strong_induction_on generalizing xs with
  | _ n ih =>
    cases xs with
    | nil => exact nil
    | cons c rest =>
      refine cons c rest hs (ih _ ?_ _ (hs.filter _) rfl)
      rw [← hn, List.filter_cons_of_neg (by simp), List.length_cons]
      exact Nat.lt_succ_of_le (List.length_filter_le _ _)

theorem planLoop_overflow (m : Nat) (xs : List SyncCandidate)
    (hs : xs.Pairwise fun a b => a.path ≤ b.path) (operations : List PlannedOperation) :
    (planLoop m operations xs).2 = xs.filter fun c => ¬ Due (m - operations.length) xs c.path := by
  induction xs, hs using group_induction generalizing operations with
  | nil => simp [planLoop]
  | cons c rest hs ih =>
    by_cases hlt : operations.length < m
    · obtain ⟨op, -, hrec⟩ := planLoop_cons hs hlt
      obtain ⟨k, hk⟩ : ∃ k, m - operations.length = k + 1 := ⟨m - operations.length - 1, by omega⟩
      have hk' : m - (operations ++ [op]).length = k := by simp; omega
      rw [hrec, ih, hk, hk']
      -- The first path is under the cap, and each later one moves up by one.
      rw [show ((c :: rest).filter fun x => ¬ Due (k + 1) (c :: rest) x.path) =
          ((c :: rest).filter fun x => x.path ≠ c.path).filter
            fun x => ¬ Due (k + 1) (c :: rest) x.path from ?_]
      · apply List.filter_congr
        intro x hx
        exact decide_eq_decide.mpr (not_congr (due_later hs hx).symm)
      · rw [List.filter_filter]
        apply List.filter_congr
        intro x _
        by_cases hp : x.path = c.path
        · simp [hp, due_first hs (Nat.succ_pos k)]
        · simp [hp]
    · rw [planLoop, if_neg hlt, Nat.sub_eq_zero_of_le (by omega)]
      exact (List.filter_eq_self.mpr fun x _ => by simp [Due]).symm

theorem planLoop_operations (m : Nat) (xs : List SyncCandidate)
    (hs : xs.Pairwise fun a b => a.path ≤ b.path) (operations : List PlannedOperation) :
    ∃ planned, (planLoop m operations xs).1 = operations ++ planned ∧
      (planned.map (·.path)).Pairwise (· < ·) ∧
      ∀ op, op ∈ planned ↔ ∃ p ∈ pathsOf xs, Due (m - operations.length) xs p ∧
        planPair (lastAt .Local p xs) (lastAt .Remote p xs) = some op := by
  induction xs, hs using group_induction generalizing operations with
  | nil => exact ⟨[], by simp [planLoop], by simp, by simp [pathsOf]⟩
  | cons c rest hs ih =>
    by_cases hlt : operations.length < m
    · obtain ⟨op, hop, hrec⟩ := planLoop_cons hs hlt
      obtain ⟨planned, heq, hord, hmem⟩ := ih (operations ++ [op])
      obtain ⟨k, hk⟩ : ∃ k, m - operations.length = k + 1 := ⟨m - operations.length - 1, by omega⟩
      have hk' : m - (operations ++ [op]).length = k := by simp; omega
      obtain ⟨hpaths, hnot, hfirst⟩ := pathsOf_cons hs
      rw [hk'] at hmem
      have hopPath : op.path = c.path := (planPair_lastAt_from hop).1
      have hlater : ∀ o ∈ planned, c.path < o.path := by
        intro o ho
        obtain ⟨p, hp, -, hplan⟩ := (hmem o).mp ho
        obtain ⟨x, hx, rfl⟩ := mem_pathsOf.mp hp
        rw [(planPair_lastAt_from hplan).1]
        exact hfirst x hx
      refine ⟨op :: planned, by rw [hrec, heq]; simp, ?_, ?_⟩
      · rw [List.map_cons, List.pairwise_cons]
        refine ⟨?_, hord⟩
        intro p hp
        obtain ⟨o, ho, rfl⟩ := List.mem_map.mp hp
        rw [hopPath]
        exact hlater o ho
      · intro o
        rw [hk, List.mem_cons, hmem]
        constructor
        · rintro (rfl | ⟨p, hp, hdue, hplan⟩)
          · exact ⟨c.path, by simp [hpaths], due_first hs (Nat.succ_pos k), hop⟩
          · obtain ⟨x, hx, rfl⟩ := mem_pathsOf.mp hp
            have hne : x.path ≠ c.path := (hfirst x hx).ne'
            refine ⟨x.path, by rw [hpaths]; exact Finset.mem_insert_of_mem hp, (due_later hs hx).mpr hdue, ?_⟩
            rw [← lastAt_later _ hne, ← lastAt_later _ hne]
            exact hplan
        · rintro ⟨p, hp, hdue, hplan⟩
          rw [hpaths, Finset.mem_insert] at hp
          rcases hp with rfl | hp
          · left
            rw [hop] at hplan
            exact (Option.some.inj hplan).symm
          · right
            obtain ⟨x, hx, rfl⟩ := mem_pathsOf.mp hp
            have hne : x.path ≠ c.path := (hfirst x hx).ne'
            refine ⟨x.path, hp, (due_later hs hx).mp hdue, ?_⟩
            rw [lastAt_later _ hne, lastAt_later _ hne]
            exact hplan
    · refine ⟨[], by rw [planLoop, if_neg hlt]; simp, by simp, ?_⟩
      intro op
      rw [Nat.sub_eq_zero_of_le (by omega)]
      simp [Due]

/-! ## The planner -/

instance : Std.Total SyncCandidate.Before where
  total a b := by
    unfold SyncCandidate.Before
    rcases lt_trichotomy a.path b.path with h | h | h
    · exact .inl (.inl h)
    · cases ha : a.source with
      | Local => exact .inl (.inr ⟨h, .inl rfl⟩)
      | Remote => exact .inr (.inr ⟨h.symm, .inr rfl⟩)
    · exact .inr (.inl h)

instance : IsTrans SyncCandidate SyncCandidate.Before where
  trans a b c := by
    unfold SyncCandidate.Before
    rintro (hab | ⟨hab, hs⟩) (hbc | ⟨hbc, ht⟩)
    · exact .inl (hab.trans hbc)
    · exact .inl (hbc ▸ hab)
    · exact .inl (hab ▸ hbc)
    · refine .inr ⟨hab.trans hbc, ?_⟩
      rcases hs with hs | hs
      · exact .inl hs
      · rcases ht with ht | ht
        · rw [hs] at ht
          cases ht
        · exact .inr ht

theorem sorted_by_path (candidates : List SyncCandidate) :
    (candidates.insertionSort SyncCandidate.Before).Pairwise fun a b => a.path ≤ b.path := by
  refine (List.pairwise_insertionSort SyncCandidate.Before candidates).imp ?_
  rintro a b (h | ⟨h, -⟩)
  · exact h.le
  · exact h.le

theorem pathsOf_sorted (candidates : List SyncCandidate) :
    pathsOf (candidates.insertionSort SyncCandidate.Before) = pathsOf candidates := by
  ext p
  simp [mem_pathsOf]

/-- The sort is stable, so the last candidate of a side is the last one given. -/
theorem lastAt_sorted (source : ChangeSource) (path : String) (candidates : List SyncCandidate) :
    lastAt source path (candidates.insertionSort SyncCandidate.Before) =
      lastAt source path candidates := by
  rw [lastAt, lastAt, filter_insertionSort]
  intro a _ b _ ha hb
  simp only [decide_eq_true_eq] at ha hb
  refine .inr ⟨ha.1.trans hb.1.symm, ?_⟩
  cases hs : source with
  | Local => exact .inl (ha.2.trans hs)
  | Remote => exact .inr (hb.2.trans hs)

namespace Planner

variable (planner : Planner) (candidates : List SyncCandidate)

theorem planWithOverflow_overflow :
    (planner.planWithOverflow candidates).2 =
      (candidates.insertionSort SyncCandidate.Before).filter
        fun c => ¬ Due planner.maxOperationsPerTick candidates c.path := by
  rw [planWithOverflow, planLoop_overflow _ _ (sorted_by_path candidates)]
  simp [Due, pathsOf_sorted]

theorem mem_overflow {c : SyncCandidate} :
    c ∈ (planner.planWithOverflow candidates).2 ↔
      c ∈ candidates ∧ ¬ Due planner.maxOperationsPerTick candidates c.path := by
  simp [planWithOverflow_overflow, List.mem_filter]

theorem mem_plan {op : PlannedOperation} :
    op ∈ planner.plan candidates ↔
      ∃ p ∈ pathsOf candidates, Due planner.maxOperationsPerTick candidates p ∧
        planPair (lastAt .Local p candidates) (lastAt .Remote p candidates) = some op := by
  obtain ⟨planned, heq, -, hmem⟩ := planLoop_operations planner.maxOperationsPerTick _
    (sorted_by_path candidates) []
  rw [plan, planWithOverflow, heq, List.nil_append, hmem]
  simp [Due, pathsOf_sorted, lastAt_sorted]

theorem overflow_length_lt (hm : 0 < planner.maxOperationsPerTick) (h : candidates ≠ []) :
    (planner.planWithOverflow candidates).2.length < candidates.length := by
  obtain ⟨c, hc, hdue⟩ := exists_due hm h
  have hlt := List.length_filter_lt_length_iff_exists
    (p := fun c => decide (¬ Due planner.maxOperationsPerTick candidates c.path))
    (l := candidates.insertionSort SyncCandidate.Before) |>.mpr ⟨c, by simpa using hc, by simpa using hdue⟩
  rw [List.length_insertionSort] at hlt
  rw [planWithOverflow_overflow]
  exact hlt

theorem plan_paths : ((planner.plan candidates).map (·.path)).Pairwise (· < ·) := by
  obtain ⟨planned, heq, hord, -⟩ := planLoop_operations planner.maxOperationsPerTick _
    (sorted_by_path candidates) []
  rw [plan, planWithOverflow, heq, List.nil_append]
  exact hord

end Planner

end Pcloud
