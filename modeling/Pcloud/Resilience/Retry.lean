import Mathlib.Order.Basic

/-!
# Retry policies (`pcloud-resilience/src/retry.rs`)

A policy says of each attempt, counted from one, whether another may follow and after which wait.
-/

namespace Pcloud

/-- In nanoseconds. -/
abbrev Duration := Nat

inductive RetryDecision
  | Retry (wait : Duration)
  | GiveUp
deriving DecidableEq, Repr

/-- `computeWait` is what the schedule makes of the number of an attempt, in floating point: any function here. -/
structure RetryPolicy where
  maxAttempts : Nat
  computeWait : Nat → Duration
  attempts_pos : 1 ≤ maxAttempts

namespace RetryPolicy

variable (policy : RetryPolicy) (attempt : Nat) (overrideWait : Option Duration)

def nextWait : RetryDecision :=
  if policy.maxAttempts ≤ attempt then .GiveUp
  else .Retry (overrideWait.getD (policy.computeWait attempt))

def next : RetryDecision := policy.nextWait attempt none

variable {policy attempt overrideWait}

theorem lt_of_nextWait {wait : Duration} (h : policy.nextWait attempt overrideWait = .Retry wait) :
    attempt < policy.maxAttempts := by
  unfold nextWait at h
  split at h
  · cases h
  · omega

theorem next_of_lt (h : attempt < policy.maxAttempts) : policy.next attempt = .Retry (policy.computeWait attempt) :=
  if_neg (by omega)

theorem le_of_next (h : policy.next attempt = .GiveUp) : policy.maxAttempts ≤ attempt := by
  by_contra hlt
  rw [next_of_lt (by omega)] at h
  cases h

theorem next_of_le (h : policy.maxAttempts ≤ attempt) : policy.next attempt = .GiveUp := if_pos h

end RetryPolicy

inductive RetryClass
  | Idempotent
  | Mutation
  | Unknown
deriving DecidableEq, Repr

structure MethodRetryPolicy where
  inner : RetryPolicy
  retryIdempotent : Bool
  retryMutations : Bool
  retryUnknown : Bool

namespace MethodRetryPolicy

def secureDefault (inner : RetryPolicy) : MethodRetryPolicy where
  inner := inner
  retryIdempotent := true
  retryMutations := false
  retryUnknown := false

variable (policy : MethodRetryPolicy) (cls : RetryClass) (attempt : Nat) (overrideWait : Option Duration)

def allowed : Bool :=
  match cls with
  | .Idempotent => policy.retryIdempotent
  | .Mutation => policy.retryMutations
  | .Unknown => policy.retryUnknown

def nextWait : RetryDecision :=
  if !policy.allowed cls then .GiveUp else policy.inner.nextWait attempt overrideWait

def next : RetryDecision := policy.nextWait cls attempt none

variable {policy cls attempt overrideWait}

theorem allowed_of_nextWait {wait : Duration} (h : policy.nextWait cls attempt overrideWait = .Retry wait) :
    policy.allowed cls ∧ attempt < policy.inner.maxAttempts := by
  unfold nextWait at h
  split at h
  · cases h
  · next hallowed => exact ⟨by simpa using hallowed, RetryPolicy.lt_of_nextWait h⟩

end MethodRetryPolicy

end Pcloud
