import Pcloud.Resilience.Transport

/-!
# How many requests a call sends

A `429` with a hint gives the attempt back that its request took. So the budget bounds the requests up to the number
of such answers, and does not bound that number.
-/

namespace Pcloud

section

variable (parseF64 : List Char → Option Float) (config : ResilientTransportConfig) (cls : RetryClass)
variable (answers : Nat → TransportAnswer)

/-- How many of the first `n` answers are a `429` with a hint. -/
def throttles (n : Nat) : Nat := (List.range n).countP fun i => ((answers i).rateHint parseF64).isSome

namespace ResilientTransportConfig

/-- The call returns after at most `n` requests. -/
def ReturnsWithin (n : Nat) : Prop := ∃ outcome, config.executeAfter parseF64 cls answers n = .returned outcome

/-- What the budget allows, whatever the answers are. -/
def budget : Nat := max 1 config.maxTotalAttempts

end ResilientTransportConfig

/-- The bound of the requests depends only on the configuration. -/
def RequestsBounded : Prop :=
  ∀ (config : ResilientTransportConfig) (cls : RetryClass), ∃ bound, ∀ answers,
    config.ReturnsWithin parseF64 cls answers bound

end

section

variable {parseF64 : List Char → Option Float} {config : ResilientTransportConfig} {cls : RetryClass}
variable {answers : Nat → TransportAnswer} {attempt : Nat}

namespace ResilientTransportConfig

theorem returnsWithin_iff {n : Nat} :
    config.ReturnsWithin parseF64 cls answers n ↔ config.requested parseF64 cls answers n = false := by
  unfold ReturnsWithin requested
  cases config.executeAfter parseF64 cls answers n with
  | sending attempt => simp [Execution.isSending]
  | returned outcome => simp [Execution.isSending]

theorem charged_add_throttles {n : Nat} (h : config.requested parseF64 cls answers n) :
    config.charged parseF64 cls answers n + throttles parseF64 answers n = n := by
  induction n with
  | zero => rfl
  | succ n ih =>
    have hn := (requested_succ h).1
    have hbefore := ih hn
    rw [charged_succ, hn, throttles, List.range_succ, List.countP_append, List.countP_singleton]
    unfold throttles at hbefore
    cases (answers n).rateHint parseF64 with
    | none =>
      simp only [Option.isNone_none, Option.isSome_none, Bool.and_true, if_true, Bool.false_eq_true, if_false]
      omega
    | some hint =>
      simp only [Option.isNone_some, Option.isSome_some, Bool.and_false, if_true, Bool.false_eq_true, if_false]
      omega

theorem lt_of_requested {n : Nat} (h : config.requested parseF64 cls answers n) :
    n < config.budget + throttles parseF64 answers n := by
  obtain ⟨attempt, hattempt⟩ := (requested_iff n).mp h
  obtain ⟨hcharged, hroom⟩ := charged_eq n hattempt
  have hall := charged_add_throttles h
  unfold budget
  rcases Nat.eq_zero_or_pos attempt with hzero | hpos
  · omega
  · have := (hroom hpos).2
    omega

theorem not_requested_one (h : config.maxTotalAttempts ≤ 1) : config.requested parseF64 cls answers 1 = false := by
  by_contra hone
  obtain ⟨-, attempt, wait, attempt', -, hround, -⟩ := requested_succ (Bool.not_eq_false _ ▸ hone)
  have := (round_eq_waits hround).2.1
  omega

end ResilientTransportConfig

/-- The requests of a call are bounded by the budget and the `429`s with a hint. -/
theorem execute_returns (parseF64 : List Char → Option Float) (config : ResilientTransportConfig) (cls : RetryClass)
    (answers : Nat → TransportAnswer) :
    (∀ k, throttles parseF64 answers (config.budget + k) ≤ k →
      config.ReturnsWithin parseF64 cls answers (config.budget + k)) ∧
    (config.maxTotalAttempts ≤ 1 → config.ReturnsWithin parseF64 cls answers 1) := by
  constructor
  · intro k hk
    rw [ResilientTransportConfig.returnsWithin_iff]
    by_contra hrequested
    have := ResilientTransportConfig.lt_of_requested (Bool.not_eq_false _ ▸ hrequested)
    omega
  · intro hone
    exact ResilientTransportConfig.returnsWithin_iff.mpr (ResilientTransportConfig.not_requested_one hone)

/-! ## A server that always says when to come back -/

namespace ResilientTransportConfig

theorem executeAfter_of_throttled (hbudget : 2 ≤ config.maxTotalAttempts)
    (hanswers : ∀ i, (answers i).response.error = none ∧ ((answers i).rateHint parseF64).isSome) (n : Nat) :
    config.executeAfter parseF64 cls answers n = .sending 0 := by
  induction n with
  | zero => rfl
  | succ n ih =>
    obtain ⟨herror, hhint⟩ := hanswers n
    obtain ⟨hint, hhint⟩ := Option.isSome_iff_exists.mp hhint
    have hlimited : (answers n).response.status = 429 := by
      simpa [TransportResponse.isRateLimited] using TransportAnswer.isRateLimited_of_rateHint hhint
    have hround : config.round parseF64 cls 1 (answers n) = .waits hint 0 := by
      unfold round
      have hterminal : (answers n).response.isTerminal = false := by simp [TransportResponse.isTerminal, herror]
      have hsuccess : (answers n).response.isSuccess = false := by simp [TransportResponse.isSuccess, hlimited]
      have hrefusal : (answers n).response.isRefusal = false := by simp [TransportResponse.isRefusal, hlimited]
      dsimp only
      rw [hterminal, hsuccess, hrefusal, hhint]
      simp only [Bool.false_eq_true, if_false]
      rw [if_neg (by omega)]
    rw [executeAfter_succ_of_sending n ih, hround]
    rfl

end ResilientTransportConfig

/-- A `429` with a date that is still to come. -/
def overloaded : TransportAnswer where
  response := { status := 429, headers := [("retry-after", "Fri, 31 Dec 1999 23:59:59 GMT")] }
  now := some 0

def tenAttempts : ResilientTransportConfig where
  methodPolicy := .secureDefault ⟨1, fun _ => 0, Nat.one_pos⟩

/-- One such answer before a success. -/
theorem execute_returns_throttledOnce :
    tenAttempts.ReturnsWithin (fun _ => none) .Idempotent
      (fun i => if i = 0 then overloaded else { response := .ok 200 }) 11 :=
  (execute_returns (fun _ => none) tenAttempts .Idempotent
    (fun i => if i = 0 then overloaded else { response := .ok 200 })).1 1 (by decide +kernel)

theorem not_requestsBounded : ¬ RequestsBounded fun _ => none := by
  intro hbounded
  obtain ⟨bound, hbound⟩ := hbounded tenAttempts .Idempotent
  obtain ⟨outcome, hreturned⟩ := hbound fun _ => overloaded
  have hhint : (overloaded.rateHint fun _ => none).isSome := by decide +kernel
  rw [ResilientTransportConfig.executeAfter_of_throttled (by decide) fun _ => ⟨rfl, hhint⟩] at hreturned
  cases hreturned

end

end Pcloud
