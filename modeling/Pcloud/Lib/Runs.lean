import Mathlib.Data.List.Basic

/-!
# Runs of a state machine

A run applies a list of calls to a state. A guard says, call by call, in which
states a call may be made. The rules below turn facts about one call into facts
about whole runs.
-/

namespace Runs

variable {σ κ : Type*} (step : σ → κ → σ)

def run (s : σ) (calls : List κ) : σ := calls.foldl step s

@[simp]
theorem run_nil (s : σ) : run step s [] = s := rfl

@[simp]
theorem run_cons (s : σ) (c : κ) (cs : List κ) : run step s (c :: cs) = run step (step s c) cs := rfl

theorem run_append (s : σ) (cs ds : List κ) :
    run step s (cs ++ ds) = run step (run step s cs) ds := List.foldl_append ..

/-- Every call of the run is made in a state where `ok` allows it. -/
def AllSteps (ok : σ → κ → Prop) : σ → List κ → Prop
  | _, [] => True
  | s, c :: cs => ok s c ∧ AllSteps ok (step s c) cs

/-- `P` holds in every state of the run, the first and the last included. -/
def AllStates (P : σ → Prop) : σ → List κ → Prop
  | s, [] => P s
  | s, c :: cs => P s ∧ AllStates P (step s c) cs

variable {step} {ok : σ → κ → Prop} {P I : σ → Prop} {s : σ} {cs ds : List κ}

theorem AllStates.head (h : AllStates step P s cs) : P s := by
  cases cs with
  | nil => exact h
  | cons c cs => exact h.1

theorem AllStates.run (h : AllStates step P s cs) : P (run step s cs) := by
  induction cs generalizing s with
  | nil => exact h
  | cons c cs ih => exact ih h.2

theorem AllStates.mono {Q : σ → Prop} (h : AllStates step P s cs) (hPQ : ∀ s, P s → Q s) : AllStates step Q s cs := by
  induction cs generalizing s with
  | nil => exact hPQ s h
  | cons c cs ih => exact ⟨hPQ s h.1, ih h.2⟩

theorem AllStates.allSteps (h : AllStates step P s cs) (hstep : ∀ s c, P s → P (step s c) → ok s c) :
    AllSteps step ok s cs := by
  induction cs generalizing s with
  | nil => trivial
  | cons c cs ih => exact ⟨hstep s c h.1 h.2.head, ih h.2⟩

theorem allSteps_append :
    AllSteps step ok s (cs ++ ds) ↔ AllSteps step ok s cs ∧ AllSteps step ok (run step s cs) ds := by
  induction cs generalizing s with
  | nil => simp [AllSteps]
  | cons c cs ih => simp [AllSteps, ih, and_assoc]

theorem allSteps_of_calls {allowed : κ → Prop} (hcs : ∀ c ∈ cs, allowed c) :
    AllSteps step (fun _ c => allowed c) s cs := by
  induction cs generalizing s with
  | nil => trivial
  | cons c cs ih =>
    obtain ⟨hc, hcs⟩ := List.forall_mem_cons.mp hcs
    exact ⟨hc, ih hcs⟩

theorem AllSteps.and {ok' : σ → κ → Prop} (h : AllSteps step ok s cs) (h' : AllSteps step ok' s cs) :
    AllSteps step (fun s c => ok s c ∧ ok' s c) s cs := by
  induction cs generalizing s with
  | nil => trivial
  | cons c cs ih => exact ⟨⟨h.1, h'.1⟩, ih h.2 h'.2⟩

theorem AllSteps.mono {ok' : σ → κ → Prop} (h : AllSteps step ok s cs) (himp : ∀ s c, ok s c → ok' s c) :
    AllSteps step ok' s cs := by
  induction cs generalizing s with
  | nil => trivial
  | cons c cs ih => exact ⟨himp s c h.1, ih h.2⟩

/-- The invariant rule: what every allowed call keeps, every allowed run keeps. -/
theorem AllSteps.invariant (h : AllSteps step ok s cs) (hI : I s)
    (hstep : ∀ s c, I s → ok s c → I (step s c)) : I (run step s cs) := by
  induction cs generalizing s with
  | nil => exact hI
  | cons c cs ih => exact ih h.2 (hstep s c hI h.1)

theorem AllSteps.allStates (h : AllSteps step ok s cs) (hI : I s)
    (hstep : ∀ s c, I s → ok s c → I (step s c)) (hP : ∀ s, I s → P s) : AllStates step P s cs := by
  induction cs generalizing s with
  | nil => exact hP s hI
  | cons c cs ih => exact ⟨hP s hI, ih h.2 (hstep s c hI h.1)⟩

theorem run_invariant (hI : I s) (hstep : ∀ s c, I s → I (step s c)) : I (run step s cs) := by
  induction cs generalizing s with
  | nil => exact hI
  | cons c cs ih => exact ih (hstep s c hI)

theorem allStates_of_invariant (hI : I s) (hstep : ∀ s c, I s → I (step s c)) (hP : ∀ s, I s → P s) :
    AllStates step P s cs := by
  induction cs generalizing s with
  | nil => exact hP s hI
  | cons c cs ih => exact ⟨hP s hI, ih (hstep s c hI)⟩

theorem AllSteps.mono_of_invariant {ok' : σ → κ → Prop} (h : AllSteps step ok s cs) (hI : I s)
    (hstep : ∀ s c, I s → ok s c → I (step s c)) (himp : ∀ s c, I s → ok s c → ok' s c) :
    AllSteps step ok' s cs := by
  induction cs generalizing s with
  | nil => trivial
  | cons c cs ih => exact ⟨himp s c hI h.1, ih h.2 (hstep s c hI h.1)⟩

theorem allSteps_of_invariant {allowed : κ → Prop} (hcs : ∀ c ∈ cs, allowed c) (hI : I s)
    (hstep : ∀ s c, allowed c → I s → ok s c ∧ I (step s c)) : AllSteps step ok s cs := by
  induction cs generalizing s with
  | nil => trivial
  | cons c cs ih =>
    obtain ⟨hc, hcs⟩ := List.forall_mem_cons.mp hcs
    obtain ⟨hok, hI⟩ := hstep s c hc hI
    exact ⟨hok, ih hcs hI⟩

theorem allSteps_congr_under {ok' guard : σ → κ → Prop} (hguard : AllSteps step guard s cs) (hI : I s)
    (hiff : ∀ s c, I s → guard s c → (ok s c ↔ ok' s c))
    (hstep : ∀ s c, I s → guard s c → ok s c → I (step s c)) :
    AllSteps step ok s cs ↔ AllSteps step ok' s cs := by
  induction cs generalizing s with
  | nil => exact Iff.rfl
  | cons c cs ih =>
    obtain ⟨hc, hcs⟩ := hguard
    constructor
    · rintro ⟨hok, h⟩
      exact ⟨(hiff s c hI hc).mp hok, (ih hcs (hstep s c hI hc hok)).mp h⟩
    · rintro ⟨hok', h⟩
      have hok := (hiff s c hI hc).mpr hok'
      exact ⟨hok, (ih hcs (hstep s c hI hc hok)).mpr h⟩

theorem allSteps_congr {ok' : σ → κ → Prop} (hI : I s)
    (hiff : ∀ s c, I s → (ok s c ↔ ok' s c)) (hstep : ∀ s c, I s → ok s c → I (step s c)) :
    AllSteps step ok s cs ↔ AllSteps step ok' s cs := by
  have hguard : AllSteps step (fun _ _ => True) s cs := allSteps_of_calls fun _ _ => trivial
  exact allSteps_congr_under hguard hI (fun s c hI _ => hiff s c hI) fun s c hI _ hok => hstep s c hI hok

theorem allSteps_congr_of_calls {ok' : σ → κ → Prop} {allowed : κ → Prop} (hcs : ∀ c ∈ cs, allowed c) (hI : I s)
    (hiff : ∀ s c, allowed c → I s → (ok s c ↔ ok' s c)) (hkeep : ∀ s c, allowed c → I s → I (step s c)) :
    AllSteps step ok s cs ↔ AllSteps step ok' s cs := by
  induction cs generalizing s with
  | nil => exact Iff.rfl
  | cons c cs ih =>
    obtain ⟨hc, hcs⟩ := List.forall_mem_cons.mp hcs
    exact and_congr (hiff s c hc hI) (ih hcs (hkeep s c hc hI))

/-- The progress rule: where every state short of the goal allows a call that lowers a
well-founded measure, some allowed run reaches the goal. -/
theorem exists_run_of_measure {ι : Type*} {lt : ι → ι → Prop} (hwf : WellFounded lt) (μ : σ → ι)
    {goal : σ → Prop}
    (hstep : ∀ s, I s → goal s ∨ ∃ c, ok s c ∧ I (step s c) ∧ lt (μ (step s c)) (μ s)) (hI : I s) :
    ∃ cs, AllSteps step ok s cs ∧ goal (run step s cs) := by
  induction hn : μ s using hwf.induction generalizing s with
  | _ n ih =>
    rcases hstep s hI with hgoal | ⟨c, hc, hI', hlt⟩
    · exact ⟨[], trivial, hgoal⟩
    · obtain ⟨cs, hcs, hgoal⟩ := ih _ (hn ▸ hlt) hI' rfl
      exact ⟨c :: cs, ⟨hc, hcs⟩, hgoal⟩

/-- A guard that is exact where `P` and an invariant hold is exact for whole runs. `allowed` is
what is known of the calls themselves. -/
theorem allStates_iff_allSteps_of_invariant {allowed : κ → Prop} (hcs : ∀ c ∈ cs, allowed c)
    (hkeep : ∀ s c, allowed c → I s → I (step s c))
    (hstep : ∀ s c, allowed c → I s → P s → (P (step s c) ↔ ok s c)) (hI : I s) (hs : P s) :
    AllStates step P s cs ↔ AllSteps step ok s cs := by
  induction cs generalizing s with
  | nil => simpa [AllStates, AllSteps] using hs
  | cons c cs ih =>
    obtain ⟨hc, hcs⟩ := List.forall_mem_cons.mp hcs
    have hnext := hkeep s c hc hI
    constructor
    · rintro ⟨_, h⟩
      exact ⟨(hstep s c hc hI hs).mp h.head, (ih hcs hnext h.head).mp h⟩
    · rintro ⟨hok, h⟩
      have hP := (hstep s c hc hI hs).mpr hok
      exact ⟨hs, (ih hcs hnext hP).mpr h⟩

theorem allStates_and_allSteps_iff {ok' : σ → κ → Prop} (hkeep : ∀ s c, I s → I (step s c))
    (hstep : ∀ s c, I s → P s → (P (step s c) ∧ ok' s c ↔ ok s c)) (hI : I s) (hs : P s) :
    AllStates step P s cs ∧ AllSteps step ok' s cs ↔ AllSteps step ok s cs := by
  induction cs generalizing s with
  | nil => simpa [AllStates, AllSteps] using hs
  | cons c cs ih =>
    constructor
    · rintro ⟨⟨_, hstates⟩, hc, hsteps⟩
      have hok := (hstep s c hI hs).mp ⟨hstates.head, hc⟩
      exact ⟨hok, (ih (hkeep s c hI) hstates.head).mp ⟨hstates, hsteps⟩⟩
    · rintro ⟨hok, h⟩
      obtain ⟨hP, hc⟩ := (hstep s c hI hs).mpr hok
      obtain ⟨hstates, hsteps⟩ := (ih (hkeep s c hI) hP).mpr h
      exact ⟨⟨hs, hstates⟩, hc, hsteps⟩

theorem run_iff_allSteps_of_invariant (hkeep : ∀ s c, I s → I (step s c))
    (hstep : ∀ s c, I s → (P (step s c) ↔ P s ∧ ok s c)) (hI : I s) :
    P (run step s cs) ↔ P s ∧ AllSteps step ok s cs := by
  induction cs generalizing s with
  | nil => simp [AllSteps]
  | cons c cs ih =>
    calc P (run step s (c :: cs)) ↔ P (step s c) ∧ AllSteps step ok (step s c) cs := ih (hkeep s c hI)
      _ ↔ (P s ∧ ok s c) ∧ AllSteps step ok (step s c) cs := and_congr_left' (hstep s c hI)
      _ ↔ P s ∧ AllSteps step ok s (c :: cs) := and_assoc

theorem allStates_iff_allSteps (hstep : ∀ s c, P s → (P (step s c) ↔ ok s c)) (hs : P s) :
    AllStates step P s cs ↔ AllSteps step ok s cs :=
  allStates_iff_allSteps_of_invariant (I := fun _ => True) (fun _ _ => trivial)
    (fun _ _ _ _ => trivial) (fun s c _ _ h => hstep s c h) trivial hs

end Runs
