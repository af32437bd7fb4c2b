import Pcloud.Lib.Threads

/-!
# The global retry budget

Callers on any number of threads take tokens from one shared counter and put tokens back.
A call that finds no token has already taken one, and gives it back in a second step;
`replenish` clamps to the capacity what it has read, and tries again until nobody came
between. The loads are relaxed and the exchange may fail for no reason.
-/

namespace Pcloud.GlobalRetryBudget

open Runs Threads

inductive Task where
  | tryConsume
  | replenish (n : UInt32)

/-- Where a caller stands: what it does next, or what it was answered. -/
inductive Caller where
  | tryConsume
  | restoring
  | consumed (granted : Bool)
  | replenish (n : UInt32)
  | exchanging (n : UInt32) (current : Int)
  | replenished (n : UInt32)
  deriving DecidableEq

/-- How old the value is that a load answers with, and whether an exchange fails spuriously. -/
structure Weak where
  age : Nat := 0
  spurious : Bool := false

section
variable (capacity : UInt32) (tokens : Cell Int)

def tryConsume : Cell Int × Caller :=
  let prev := tokens.value
  (tokens.store (prev - 1), if prev ≤ 0 then .restoring else .consumed true)

def restore : Cell Int × Caller := (tokens.store (tokens.value + 1), .consumed false)

def replenish (n : UInt32) (age : Nat) : Caller :=
  if n = 0 then .replenished n else .exchanging n (tokens.load age)

def exchange (n : UInt32) (current : Int) (spurious : Bool) : Cell Int × Caller :=
  let desired := min (current + n.toNat) capacity.toNat
  if tokens.value = current ∧ !spurious then (tokens.store desired, .replenished n)
  else (tokens, .replenish n)

def next (caller : Caller) (weak : Weak) : Cell Int × Caller :=
  match caller with
  | .tryConsume => tryConsume tokens
  | .restoring => restore tokens
  | .replenish n => (tokens, replenish tokens n weak.age)
  | .exchanging n current => exchange capacity tokens n current weak.spurious
  | .consumed granted => (tokens, .consumed granted)
  | .replenished n => (tokens, .replenished n)

def available : Nat := (max tokens.value 0).toNat % 2 ^ 32

end

def enter : Task → Caller
  | .tryConsume => .tryConsume
  | .replenish n => .replenish n

def budget (capacity : UInt32) : Program (Cell Int) Caller Task Weak := ⟨enter, next capacity⟩

def fresh (capacity : UInt32) : System (Cell Int) Caller := ⟨⟨capacity.toNat, []⟩, []⟩

/-- A new budget, or the panic of one without capacity. -/
def new (capacity : UInt32) : Option (System (Cell Int) Caller) :=
  if 0 < capacity then some (fresh capacity) else none

namespace Caller

def restores : Caller → Nat
  | .restoring => 1
  | _ => 0

def grants : Caller → Nat
  | .consumed true => 1
  | _ => 0

def refuses : Caller → Nat
  | .consumed false => 1
  | _ => 0

def replenishes : Caller → Nat
  | .replenished n => n.toNat
  | _ => 0

def Returned : Caller → Prop
  | .consumed _ | .replenished _ => True
  | _ => False

end Caller

open Caller

variable {capacity : UInt32} {moves : List (Move Task Weak)}

/-- The accounts of the budget. What is lent out until it is given back counts as there. -/
structure Balanced (capacity : UInt32) (system : System (Cell Int) Caller) : Prop where
  solvent : 0 ≤ system.shared.value + tally restores system.threads
  bounded : system.shared.value + tally restores system.threads + tally grants system.threads ≤
    capacity.toNat + tally replenishes system.threads
  clamped : system.shared.value ≤ capacity.toNat + tally refuses system.threads

theorem Balanced.start {shared : Cell Int} {threads : List Caller} (h : Balanced capacity ⟨shared, threads⟩)
    (task : Task) : Balanced capacity ⟨shared, threads ++ [enter task]⟩ := by
  obtain ⟨hsolvent, hbounded, hclamped⟩ := h
  cases task <;> constructor <;>
    simpa [enter, restores, grants, refuses, replenishes] using by assumption

theorem Balanced.run {shared : Cell Int} {before after : List Caller} {caller : Caller} (weak : Weak)
    (h : Balanced capacity ⟨shared, before ++ caller :: after⟩) :
    Balanced capacity ⟨(next capacity shared caller weak).1,
      before ++ (next capacity shared caller weak).2 :: after⟩ := by
  obtain ⟨hsolvent, hbounded, hclamped⟩ := h
  simp only [tally_append, tally_cons] at hsolvent hbounded hclamped
  cases caller with
  | tryConsume =>
    simp only [next, tryConsume]
    split <;> constructor <;>
      simp only [Cell.value_store, tally_append, tally_cons, restores, grants, refuses, replenishes] at * <;> omega
  | restoring =>
    constructor <;>
      simp only [next, restore, Cell.value_store, tally_append, tally_cons, restores, grants, refuses,
        replenishes] at * <;> omega
  | consumed granted => constructor <;> simpa [next] using by assumption
  | replenished n => constructor <;> simpa [next] using by assumption
  | replenish n =>
    simp only [next, replenish]
    split <;> constructor <;>
      simp only [tally_append, tally_cons, restores, grants, refuses, replenishes] at * <;> omega
  | exchanging n current =>
    simp only [next, exchange]
    split
    · rename_i hexchanged
      have hcurrent := hexchanged.1
      constructor <;>
        simp only [Cell.value_store, tally_append, tally_cons, restores, grants, refuses, replenishes] at * <;> omega
    · constructor <;>
        simp only [tally_append, tally_cons, restores, grants, refuses, replenishes] at * <;> omega

/-- However the callers come between each other, no more retries are granted than the budget had
and was given. The counter is below zero by no more than what is about to be given back, and above
the capacity by no more than the refusals. -/
theorem allStates_accounts (capacity : UInt32) (moves : List (Move Task Weak)) :
    AllStates (System.step (budget capacity)) (fun system =>
      tally grants system.threads ≤ capacity.toNat + tally replenishes system.threads ∧
      0 ≤ system.shared.value + tally restores system.threads ∧
      system.shared.value ≤ capacity.toNat + tally refuses system.threads) (fresh capacity) moves := by
  have hfresh : Balanced capacity (fresh capacity) := by
    constructor <;> simp [fresh]
  refine System.allStates_of_moves (fun _ => True) (fun _ _ => trivial) hfresh
    (fun _ _ task _ h => h.start task) (fun _ _ _ _ weak h => h.run weak)
    fun system h => ⟨?_, h.solvent, h.clamped⟩
  have hsolvent := h.solvent
  have hbounded := h.bounded
  omega

/-! ## Above the capacity -/

section
variable (capacity : UInt32) (threads : List Caller)

theorem reaches_granted (n : Nat) (past : List Int) :
    ∃ past', System.Reaches (budget capacity) ⟨⟨n, past⟩, threads⟩
      ⟨⟨0, past'⟩, threads ++ List.replicate n (.consumed true)⟩ := by
  induction n generalizing past threads with
  | zero => exact ⟨past, by simpa using System.Reaches.refl _⟩
  | succ n ih =>
    have htaken : next capacity ⟨(n + 1 : Nat), past⟩ .tryConsume {} =
        (⟨n, (n + 1 : Nat) :: past⟩, .consumed true) := by
      simp [next, tryConsume, Cell.store]
    have hcall := System.Reaches.called (budget capacity) ⟨(n + 1 : Nat), past⟩ threads .tryConsume {}
    simp only [budget, enter, htaken] at hcall
    obtain ⟨past', hrest⟩ := ih (threads ++ [.consumed true]) ((n + 1 : Nat) :: past)
    rw [List.replicate_succ, List.append_cons]
    exact ⟨past', hcall.trans hrest⟩

theorem reaches_refusing (k : Nat) {value : Int} (hvalue : value ≤ 0) (past : List Int) :
    ∃ past', System.Reaches (budget capacity) ⟨⟨value, past⟩, threads⟩
      ⟨⟨value - k, past'⟩, threads ++ List.replicate k .restoring⟩ := by
  induction k generalizing value past threads with
  | zero => exact ⟨past, by simpa using System.Reaches.refl _⟩
  | succ k ih =>
    have htaken : next capacity ⟨value, past⟩ .tryConsume {} = (⟨value - 1, value :: past⟩, .restoring) := by
      simp [next, tryConsume, Cell.store, hvalue]
    have hcall := System.Reaches.called (budget capacity) ⟨value, past⟩ threads .tryConsume {}
    simp only [budget, enter, htaken] at hcall
    obtain ⟨past', hrest⟩ := ih (threads ++ [.restoring]) (show value - 1 ≤ 0 by omega) (value :: past)
    have hvalue' : value - 1 - k = value - (k + 1 : Nat) := by omega
    rw [List.replicate_succ, List.append_cons, ← hvalue']
    exact ⟨past', hcall.trans hrest⟩

theorem reaches_replenished (n : Nat) {value : Int} (hvalue : value + n ≤ capacity.toNat) (past : List Int) :
    ∃ past', System.Reaches (budget capacity) ⟨⟨value, past⟩, threads⟩
      ⟨⟨value + n, past'⟩, threads ++ List.replicate n (.replenished 1)⟩ := by
  induction n generalizing value past threads with
  | zero => exact ⟨past, by simpa using System.Reaches.refl _⟩
  | succ n ih =>
    have hread : next capacity ⟨value, past⟩ (.replenish 1) {} = (⟨value, past⟩, .exchanging 1 value) := by
      simp [next, replenish]
    have hexchanged : next capacity ⟨value, past⟩ (.exchanging 1 value) {} =
        (⟨value + 1, value :: past⟩, .replenished 1) := by
      have hmin : min (value + 1) (capacity.toNat : Int) = value + 1 := by omega
      simp [next, exchange, Cell.store, hmin]
    have hcall := System.Reaches.called (budget capacity) ⟨value, past⟩ threads (.replenish 1) {}
    have hrun := System.Reaches.run (budget capacity) threads [] (.exchanging 1 value) ⟨value, past⟩ {}
    simp only [budget, enter, hread, hexchanged] at hcall hrun
    obtain ⟨past', hrest⟩ := ih (threads ++ [.replenished 1])
      (show value + 1 + n ≤ (capacity.toNat : Int) by omega) (value :: past)
    have hvalue' : value + 1 + n = value + (n + 1 : Nat) := by omega
    rw [List.replicate_succ, List.append_cons, ← hvalue']
    exact ⟨past', (hcall.trans hrun).trans hrest⟩

theorem reaches_refused (k : Nat) (value : Int) (past : List Int) (after : List Caller) :
    ∃ past', System.Reaches (budget capacity)
      ⟨⟨value, past⟩, threads ++ (List.replicate k .restoring ++ after)⟩
      ⟨⟨value + k, past'⟩, threads ++ (List.replicate k (.consumed false) ++ after)⟩ := by
  induction k generalizing value past threads with
  | zero => exact ⟨past, by simpa using System.Reaches.refl _⟩
  | succ k ih =>
    have hrun := System.Reaches.run (budget capacity) threads
      (List.replicate k .restoring ++ after) .restoring ⟨value, past⟩ {}
    simp only [budget, next, restore, Cell.store] at hrun
    obtain ⟨past', hrest⟩ := ih (threads ++ [.consumed false]) (value + 1) (value :: past)
    have hvalue' : value + 1 + k = value + (k + 1 : Nat) := by omega
    simp only [List.replicate_succ, List.cons_append]
    rw [← hvalue']
    simp only [List.append_assoc, List.singleton_append] at hrest
    exact ⟨past', hrun.trans hrest⟩

end

/-- The bound above the capacity is met: any number of callers that are refused while others fill
the budget up leave that many tokens more in it than it has room for. -/
theorem exists_overfull (capacity : UInt32) (k : Nat) :
    ∃ moves, let system := run (System.step (budget capacity)) (fresh capacity) moves
      system.shared.value = capacity.toNat + k ∧ tally refuses system.threads = k ∧
      ∀ caller ∈ system.threads, caller.Returned := by
  obtain ⟨past, hgranted⟩ := reaches_granted capacity [] capacity.toNat []
  obtain ⟨past, hrefusing⟩ := reaches_refusing capacity
    ([] ++ List.replicate capacity.toNat (.consumed true)) k (Int.le_refl 0) past
  obtain ⟨past, hfilled⟩ := reaches_replenished capacity
    ([] ++ List.replicate capacity.toNat (.consumed true) ++ List.replicate k .restoring) (capacity.toNat + k)
    (show (0 - k : Int) + (capacity.toNat + k : Nat) ≤ capacity.toNat by omega) past
  obtain ⟨past, hrefused⟩ := reaches_refused capacity (List.replicate capacity.toNat (.consumed true)) k
    capacity.toNat past (List.replicate (capacity.toNat + k) (.replenished 1))
  have hvalue : (0 : Int) - k + (capacity.toNat + k : Nat) = capacity.toNat := by omega
  rw [hvalue] at hfilled
  simp only [List.nil_append, List.append_assoc] at hgranted hrefusing hfilled
  obtain ⟨moves, hmoves⟩ := ((hgranted.trans hrefusing).trans hfilled).trans hrefused
  refine ⟨moves, ?_⟩
  simp only [fresh, hmoves, true_and]
  constructor
  · simp [tally, refuses]
  · intro caller hmem
    simp only [List.mem_append, List.mem_replicate] at hmem
    rcases hmem with ⟨-, rfl⟩ | ⟨-, rfl⟩ | ⟨-, rfl⟩ <;> trivial

end Pcloud.GlobalRetryBudget
