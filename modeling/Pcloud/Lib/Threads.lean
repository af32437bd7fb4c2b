import Mathlib.Algebra.Order.Ring.Nat
import Pcloud.Lib.Runs

/-!
# Threads over shared memory

Threads take their steps on a shared state one at a time, in any order. Two rules carry
the proofs: a tally, where what the shared state counts is what the threads hold, and an
assertion about each thread, which its own step brings about and the steps of the others
leave alone.
-/

namespace Threads

variable {S L K I : Type*}

/-- How a thread begins a task, and what its next atomic step does. Input settles what the
step leaves open. A thread that has to wait stays as it is. -/
structure Program (S L K I : Type*) where
  enter : K → L
  next : S → L → I → S × L

/-- The shared state, and the threads in the order they were started. -/
structure System (S L : Type*) where
  shared : S
  threads : List L

/-- One decision of the scheduler. -/
inductive Move (K I : Type*) where
  | start (task : K)
  | run (index : Nat) (input : I)

namespace System

variable (program : Program S L K I)

def step (system : System S L) : Move K I → System S L
  | .start task => { system with threads := system.threads ++ [program.enter task] }
  | .run index input =>
    match system.threads[index]? with
    | none => system
    | some thread =>
      let (shared, thread) := program.next system.shared thread input
      ⟨shared, system.threads.set index thread⟩

variable {program}

theorem step_run_cases (system : System S L) (index : Nat) (input : I) :
    system.step program (.run index input) = system ∨
    ∃ before thread after, system.threads = before ++ thread :: after ∧ before.length = index ∧
      system.step program (.run index input) =
        ⟨(program.next system.shared thread input).1,
          before ++ (program.next system.shared thread input).2 :: after⟩ := by
  cases h : system.threads[index]? with
  | none => exact .inl (by simp [step, h])
  | some thread =>
    obtain ⟨hlt, hthread⟩ := List.getElem?_eq_some_iff.mp h
    refine .inr ⟨system.threads.take index, thread, system.threads.drop (index + 1), ?_, ?_, ?_⟩
    · rw [← hthread, ← List.drop_eq_getElem_cons hlt, List.take_append_drop]
    · exact List.length_take_of_le (Nat.le_of_lt hlt)
    · simp only [step, h, List.set_eq_take_append_cons_drop, if_pos hlt]

theorem step_run (before after : List L) (thread : L) (shared : S) (input : I) :
    step program ⟨shared, before ++ thread :: after⟩ (.run before.length input) =
      ⟨(program.next shared thread input).1, before ++ (program.next shared thread input).2 :: after⟩ := by
  simp [step]

theorem run_replicate (before after : List L) (thread : L) (shared : S) (input : I) (n : Nat) :
    Runs.run (step program) ⟨shared, before ++ thread :: after⟩ (List.replicate n (.run before.length input)) =
      ⟨((fun moving => program.next moving.1 moving.2 input)^[n] (shared, thread)).1,
        before ++ ((fun moving => program.next moving.1 moving.2 input)^[n] (shared, thread)).2 :: after⟩ := by
  induction n generalizing shared thread with
  | zero => rfl
  | succ n ih =>
    rw [List.replicate_succ, Runs.run_cons, step_run, ih]
    rfl

/-- What starting a task and a step of any one thread keep, every schedule keeps. -/
theorem allStates_of_moves {Inv P : System S L → Prop} (allowed : K → Prop) {system : System S L}
    {moves : List (Move K I)} (hmoves : ∀ task, Move.start task ∈ moves → allowed task) (h : Inv system)
    (hstart : ∀ shared threads task, allowed task → Inv ⟨shared, threads⟩ →
      Inv ⟨shared, threads ++ [program.enter task]⟩)
    (hrun : ∀ shared before thread after input, Inv ⟨shared, before ++ thread :: after⟩ →
      Inv ⟨(program.next shared thread input).1, before ++ (program.next shared thread input).2 :: after⟩)
    (hP : ∀ system, Inv system → P system) : Runs.AllStates (step program) P system moves := by
  have hsteps : Runs.AllSteps (step program) (fun _ move => ∀ task, move = .start task → allowed task)
      system moves := by
    refine Runs.allSteps_of_calls fun move hmem task hmove => hmoves task ?_
    exact hmove ▸ hmem
  refine hsteps.allStates h (fun system move hinv hmove => ?_) hP
  cases move with
  | start task => exact hstart _ _ task (hmove task rfl) hinv
  | run index input =>
    rcases step_run_cases system index input with hsame | ⟨before, thread, after, hthreads, -, hstep⟩
    · rw [hsame]; exact hinv
    · rw [hstep]
      exact hrun _ _ _ _ _ (hthreads ▸ hinv)

/-- Some schedule leads from one system to the other. -/
def Reaches (program : Program S L K I) (system after : System S L) : Prop :=
  ∃ moves, Runs.run (step program) system moves = after

namespace Reaches

theorem refl (system : System S L) : Reaches program system system := ⟨[], rfl⟩

theorem trans {system between after : System S L} (h : Reaches program system between)
    (h' : Reaches program between after) : Reaches program system after := by
  obtain ⟨moves, rfl⟩ := h
  obtain ⟨moves', rfl⟩ := h'
  exact ⟨moves ++ moves', Runs.run_append ..⟩

variable (program)

theorem start (shared : S) (threads : List L) (task : K) :
    Reaches program ⟨shared, threads⟩ ⟨shared, threads ++ [program.enter task]⟩ := ⟨[.start task], rfl⟩

theorem run (before after : List L) (thread : L) (shared : S) (input : I) :
    Reaches program ⟨shared, before ++ thread :: after⟩
      ⟨(program.next shared thread input).1, before ++ (program.next shared thread input).2 :: after⟩ :=
  ⟨[.run before.length input], step_run ..⟩

theorem called (shared : S) (threads : List L) (task : K) (input : I) :
    Reaches program ⟨shared, threads⟩
      ⟨(program.next shared (program.enter task) input).1,
        threads ++ [(program.next shared (program.enter task) input).2]⟩ :=
  (start program shared threads task).trans (run program threads [] (program.enter task) shared input)

end Reaches

variable (program) in
/-- A thread that gets closer to its end with each of its steps reaches it where it runs alone. -/
theorem exists_run_alone (ready : S → L → Prop) (rank : S → L → Nat) (before after : List L) (input : I)
    (hstep : ∀ shared thread, ready shared thread → rank shared thread ≠ 0 →
      ready (program.next shared thread input).1 (program.next shared thread input).2 ∧
      rank (program.next shared thread input).1 (program.next shared thread input).2 < rank shared thread)
    {shared : S} {thread : L} (h : ready shared thread) :
    ∃ n shared' thread',
      Runs.run (step program) ⟨shared, before ++ thread :: after⟩ (List.replicate n (.run before.length input)) =
        ⟨shared', before ++ thread' :: after⟩ ∧ ready shared' thread' ∧ rank shared' thread' = 0 := by
  induction hrank : rank shared thread using Nat.strong_induction_on generalizing shared thread with
  | h m ih =>
    subst hrank
    by_cases hzero : rank shared thread = 0
    · exact ⟨0, shared, thread, rfl, h, hzero⟩
    · obtain ⟨hready, hlt⟩ := hstep shared thread h hzero
      obtain ⟨n, shared', thread', hrun, hend⟩ := ih _ hlt hready rfl
      refine ⟨n + 1, shared', thread', ?_, hend⟩
      rw [List.replicate_succ, Runs.run_cons, step_run]
      exact hrun

end System

/-! ## Tallies -/

/-- What the threads hold between them. -/
def tally (weight : L → Nat) (threads : List L) : Nat := (threads.map weight).sum

variable {weight : L → Nat} {threads before after : List L} {thread : L}

@[simp]
theorem tally_nil : tally weight [] = 0 := rfl

@[simp]
theorem tally_cons : tally weight (thread :: threads) = weight thread + tally weight threads := by
  simp [tally]

@[simp]
theorem tally_append : tally weight (before ++ after) = tally weight before + tally weight after := by
  simp [tally]

theorem tally_eq_zero (h : ∀ thread ∈ threads, weight thread = 0) : tally weight threads = 0 := by
  induction threads with
  | nil => rfl
  | cons thread threads ih =>
    obtain ⟨hthread, hthreads⟩ := List.forall_mem_cons.mp h
    rw [tally_cons, hthread, ih hthreads]

theorem exists_of_tally_ne_zero (h : tally weight threads ≠ 0) : ∃ thread ∈ threads, weight thread ≠ 0 := by
  by_contra hnone
  push Not at hnone
  exact h (tally_eq_zero hnone)

theorem le_tally (weight : L → Nat) (h : thread ∈ threads) : weight thread ≤ tally weight threads := by
  obtain ⟨before, after, rfl⟩ := List.append_of_mem h
  rw [tally_append, tally_cons]
  omega

theorem tally_le_tally {weight' : L → Nat} (h : ∀ thread ∈ threads, weight thread ≤ weight' thread) :
    tally weight threads ≤ tally weight' threads := by
  induction threads with
  | nil => exact Nat.le_refl 0
  | cons thread threads ih =>
    obtain ⟨hthread, hthreads⟩ := List.forall_mem_cons.mp h
    rw [tally_cons, tally_cons]
    exact Nat.add_le_add hthread (ih hthreads)

theorem countP_le_tally {held : L → Bool} (h : ∀ thread ∈ threads, held thread = true → 1 ≤ weight thread) :
    threads.countP held ≤ tally weight threads := by
  induction threads with
  | nil => exact Nat.le_refl 0
  | cons thread threads ih =>
    obtain ⟨hthread, hthreads⟩ := List.forall_mem_cons.mp h
    rw [tally_cons]
    cases hheld : held thread with
    | true =>
      rw [List.countP_cons_of_pos hheld]
      have := hthread hheld
      have := ih hthreads
      omega
    | false =>
      rw [List.countP_cons_of_neg (by simp [hheld])]
      exact (ih hthreads).trans (Nat.le_add_left _ _)

theorem le_tally_rest (weight : L → Nat) (thread : L) {other : L} (h : other ∈ before ++ after) :
    weight thread + weight other ≤ tally weight (before ++ thread :: after) := by
  have hle : weight other ≤ tally weight (before ++ after) := le_tally weight h
  rw [tally_append] at hle
  rw [tally_append, tally_cons]
  omega

theorem tally_moved {moved : L} {count count' : Nat} (h : count = tally weight (before ++ thread :: after))
    (hstep : count' + weight thread = count + weight moved) :
    count' = tally weight (before ++ moved :: after) := by
  rw [tally_append, tally_cons] at h ⊢
  omega

/-! ## Assertions -/

theorem forall_mem_moved {asserts asserts' : L → Prop} {moved : L}
    (h : ∀ other ∈ before ++ thread :: after, asserts other) (hmoved : asserts thread → asserts' moved)
    (hothers : ∀ other ∈ before ++ after, asserts other → asserts' other) :
    ∀ other ∈ before ++ moved :: after, asserts' other := by
  intro other hmem
  rcases List.mem_append.mp hmem with hbefore | htail
  · exact hothers other (List.mem_append_left _ hbefore) (h other (List.mem_append_left _ hbefore))
  · rcases List.mem_cons.mp htail with rfl | hafter
    · exact hmoved (h thread (by simp))
    · exact hothers other (List.mem_append_right _ hafter) (h other (by simp [hafter]))

/-! ## Atomic cells -/

/-- An atomic variable with the values it had before, the latest first. -/
structure Cell (α : Type*) where
  value : α
  past : List α := []

namespace Cell

variable {α : Type*} (cell : Cell α)

def store (value : α) : Cell α := ⟨value, cell.value :: cell.past⟩

/-- A relaxed load may answer with a value of the past. -/
def load (age : Nat) : α := (cell.value :: cell.past).getD age cell.value

def Had (value : α) : Prop := value ∈ cell.value :: cell.past

@[simp]
theorem value_store (value : α) : (cell.store value).value = value := rfl

@[simp]
theorem load_zero : cell.load 0 = cell.value := rfl

theorem had_load (age : Nat) : cell.Had (cell.load age) := by
  unfold load Had
  cases h : (cell.value :: cell.past)[age]? with
  | none => rw [List.getD_eq_getElem?_getD, h]; exact List.mem_cons_self ..
  | some value => rw [List.getD_eq_getElem?_getD, h]; exact List.mem_of_getElem? h

variable {cell}

theorem had_store {value value' : α} : (cell.store value).Had value' ↔ value' = value ∨ cell.Had value' :=
  List.mem_cons

end Cell

end Threads
