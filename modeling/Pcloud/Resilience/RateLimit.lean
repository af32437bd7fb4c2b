import Mathlib.Algebra.Order.Field.Rat
import Pcloud.Lib.Pacing

/-!
# The token bucket (`pcloud-resilience/src/rate_limit.rs`)

Tokens, the rate and times are exact: seconds are rational numbers, and a wait is not rounded.
-/

namespace Pcloud

open Pacing

structure TokenBucketConfig where
  capacity : Nat
  refillRatePerSec : ℚ
  capacity_pos : 0 < capacity
  refillRatePerSec_pos : 0 < refillRatePerSec

inductive RateLimitError
  | InvalidConfig (reason : String)
  | RequestExceedsCapacity (requested capacity : Nat)
deriving DecidableEq, Repr

def TokenBucketConfig.new (capacity : Nat) (refillRatePerSec : ℚ) : Except RateLimitError TokenBucketConfig :=
  if hcapacity : capacity = 0 then .error (.InvalidConfig "capacity must be > 0")
  else if hrate : 0 < refillRatePerSec then .ok ⟨capacity, refillRatePerSec, Nat.pos_of_ne_zero hcapacity, hrate⟩
  else .error (.InvalidConfig "refill_rate_per_sec must be a positive finite number")

structure BucketState where
  tokens : ℚ
  lastRefill : ℚ
deriving DecidableEq, Repr

namespace TokenBucket

variable (cfg : TokenBucketConfig)

def withClock (now : ℚ) : BucketState where
  tokens := cfg.capacity
  lastRefill := now

def refillLocked (now : ℚ) (state : BucketState) : BucketState :=
  if now ≤ state.lastRefill then state
  else
    let elapsed := now - state.lastRefill
    let added := elapsed * cfg.refillRatePerSec
    { tokens := min (state.tokens + added) cfg.capacity, lastRefill := now }

def tryAcquire (now : ℚ) (n : Nat) (state : BucketState) : Except RateLimitError Bool × BucketState :=
  if n = 0 then (.ok true, state)
  else if cfg.capacity < n then (.error (.RequestExceedsCapacity n cfg.capacity), state)
  else
    let state := refillLocked cfg now state
    if n ≤ state.tokens then (.ok true, { state with tokens := state.tokens - n }) else (.ok false, state)

/-- The answer is the time to wait. -/
def acquire (now : ℚ) (n : Nat) (state : BucketState) : Except RateLimitError ℚ × BucketState :=
  if n = 0 then (.ok 0, state)
  else if cfg.capacity < n then (.error (.RequestExceedsCapacity n cfg.capacity), state)
  else
    let state := refillLocked cfg now state
    let state := { state with tokens := state.tokens - n }
    if 0 ≤ state.tokens then (.ok 0, state)
    else
      let deficit := -state.tokens
      (.ok (deficit / cfg.refillRatePerSec), state)

/-! ## Runs -/

inductive BucketOp
  | tryAcquire (n : Nat)
  | acquire (n : Nat)
deriving DecidableEq, Repr

structure BucketCall where
  now : ℚ
  op : BucketOp
deriving DecidableEq, Repr

/-- One call: what it grants and when, and the state it leaves. -/
def call (c : BucketCall) (state : BucketState) : Option (Grant ℚ) × BucketState :=
  match c.op with
  | .tryAcquire n =>
    match tryAcquire cfg c.now n state with
    | (.ok true, state) => (some ⟨c.now, n⟩, state)
    | (_, state) => (none, state)
  | .acquire n =>
    match acquire cfg c.now n state with
    | (.ok wait, state) => (some ⟨c.now + wait, n⟩, state)
    | (.error _, state) => (none, state)

/-- The grants of a run in the order of its calls, each with the call. -/
def grants (state : BucketState) : List BucketCall → List (BucketCall × Grant ℚ)
  | [] => []
  | c :: calls =>
    match call cfg c state with
    | (some grant, state) => (c, grant) :: grants state calls
    | (none, state) => grants state calls

/-- The grants of the `acquire` calls. -/
def acquired (granted : List (BucketCall × Grant ℚ)) : List (Grant ℚ) :=
  (granted.filter fun (c, _) => c.op matches .acquire _).map Prod.snd

/-- The calls are made one after the other, none before a time. -/
def Ordered (start : ℚ) (calls : List BucketCall) : Prop := InOrder BucketCall.now start calls

/-! ## The debt and the last grant -/

variable {cfg} {time level now : ℚ} {n : Nat} {state : BucketState} {c : BucketCall} {calls : List BucketCall}

/-- The state goes on from a grant: since then the tokens have risen by no more than the rate gives, and the grant
is no later than the time at which the debt is paid. -/
structure Behind (cfg : TokenBucketConfig) (time level : ℚ) (state : BucketState) : Prop where
  capped : state.tokens ≤ cfg.capacity
  risen : state.tokens ≤ level + cfg.refillRatePerSec * (state.lastRefill - time)
  due : cfg.refillRatePerSec * (time - state.lastRefill) ≤ max (-state.tokens) 0

theorem Behind.refillLocked (h : Behind cfg time level state) (now : ℚ) :
    Behind cfg time level (refillLocked cfg now state) := by
  have hrate := cfg.refillRatePerSec_pos
  unfold TokenBucket.refillLocked
  split
  · exact h
  next hlater =>
  have hrise : 0 < cfg.refillRatePerSec * (now - state.lastRefill) := mul_pos hrate (by linarith)
  have hmin := min_le_left (state.tokens + (now - state.lastRefill) * cfg.refillRatePerSec) (cfg.capacity : ℚ)
  have hsplit : cfg.refillRatePerSec * (now - time) =
      cfg.refillRatePerSec * (now - state.lastRefill) + cfg.refillRatePerSec * (state.lastRefill - time) := by ring
  have hrisen := h.risen
  refine ⟨min_le_right _ _, ?_, ?_⟩
  · show min _ _ ≤ level + cfg.refillRatePerSec * (now - time)
    linarith
  · have hdue := h.due
    have hneg : cfg.refillRatePerSec * (time - now) =
        cfg.refillRatePerSec * (time - state.lastRefill) - cfg.refillRatePerSec * (now - state.lastRefill) := by ring
    show cfg.refillRatePerSec * (time - now) ≤ max (-min _ _) 0
    rcases le_max_iff.mp hdue with hdebt | hnone
    · exact le_max_of_le_left (by linarith)
    · exact le_max_of_le_right (by linarith)

theorem lastRefill_refillLocked (h : state.lastRefill ≤ now) : (refillLocked cfg now state).lastRefill = now := by
  unfold refillLocked
  split
  · next hle => exact le_antisymm h hle
  · rfl

/-- The level right after a grant. -/
def levelAfter (state : BucketState) (n : Nat) : ℚ := max (state.tokens - n) 0

/-- The wait for the tokens that a state does not have. -/
def waitFor (cfg : TokenBucketConfig) (state : BucketState) (n : Nat) : ℚ :=
  if 0 ≤ state.tokens - n then 0 else -(state.tokens - n) / cfg.refillRatePerSec

theorem rate_mul_waitFor (state : BucketState) (n : Nat) :
    cfg.refillRatePerSec * waitFor cfg state n = max (-(state.tokens - n)) 0 := by
  unfold waitFor
  split
  · next h => rw [mul_zero, max_eq_right (by linarith)]
  · next h => rw [mul_div_cancel₀ _ cfg.refillRatePerSec_pos.ne', max_eq_left (by linarith)]

theorem levelAfter_eq (state : BucketState) (n : Nat) :
    levelAfter state n = state.tokens - n + cfg.refillRatePerSec * waitFor cfg state n := by
  rw [rate_mul_waitFor, levelAfter]
  rcases le_total 0 (state.tokens - n) with h | h
  · rw [max_eq_left h, max_eq_right (by linarith), add_zero]
  · rw [max_eq_right h, max_eq_left (by linarith), add_neg_cancel]

theorem Behind.paced (h : Behind cfg time level state) (hn : n ≤ cfg.capacity) {grants : List (Grant ℚ)}
    (hrest : Paced (· ≤ (cfg.capacity : ℚ)) cfg.refillRatePerSec (state.lastRefill + waitFor cfg state n)
      (levelAfter state n) grants) :
    Paced (· ≤ (cfg.capacity : ℚ)) cfg.refillRatePerSec time level
      (⟨state.lastRefill + waitFor cfg state n, n⟩ :: grants) := by
  have hwait := @rate_mul_waitFor cfg state n
  have hlevel := @levelAfter_eq cfg state n
  have hn' : (n : ℚ) ≤ cfg.capacity := by exact_mod_cast hn
  have hnonneg : (0 : ℚ) ≤ n := Nat.cast_nonneg n
  refine .cons ?_ (le_max_right _ _) ?_ ?_ hrest
  · have hdue : cfg.refillRatePerSec * (time - state.lastRefill) ≤ cfg.refillRatePerSec * waitFor cfg state n := by
      rw [hwait]
      exact h.due.trans (max_le_max_right 0 (by linarith))
    have := le_of_mul_le_mul_left hdue cfg.refillRatePerSec_pos
    show time ≤ state.lastRefill + waitFor cfg state n
    linarith
  · have hcapped := h.capped
    show levelAfter state n + n ≤ cfg.capacity
    rcases max_cases (state.tokens - n) 0 with ⟨hmax, -⟩ | ⟨hmax, -⟩
    · rw [levelAfter, hmax]
      linarith
    · rw [levelAfter, hmax]
      linarith
  · have hrisen := h.risen
    show levelAfter state n + n ≤ level + cfg.refillRatePerSec * (state.lastRefill + waitFor cfg state n - time)
    have hsplit : cfg.refillRatePerSec * (state.lastRefill + waitFor cfg state n - time) =
        cfg.refillRatePerSec * (state.lastRefill - time) + cfg.refillRatePerSec * waitFor cfg state n := by ring
    linarith

theorem Behind.after (h : Behind cfg time level state) (n : Nat) :
    Behind cfg (state.lastRefill + waitFor cfg state n) (levelAfter state n)
      { state with tokens := state.tokens - n } := by
  have hnonneg : (0 : ℚ) ≤ n := Nat.cast_nonneg n
  have hcapped := h.capped
  refine ⟨?_, ?_, ?_⟩
  · show state.tokens - n ≤ cfg.capacity
    linarith
  · have hlevel := @levelAfter_eq cfg state n
    show state.tokens - n ≤
      levelAfter state n + cfg.refillRatePerSec * (state.lastRefill - (state.lastRefill + waitFor cfg state n))
    have hsplit : cfg.refillRatePerSec * (state.lastRefill - (state.lastRefill + waitFor cfg state n)) =
        -(cfg.refillRatePerSec * waitFor cfg state n) := by ring
    linarith
  · show cfg.refillRatePerSec * (state.lastRefill + waitFor cfg state n - state.lastRefill) ≤
      max (-(state.tokens - n)) 0
    rw [add_sub_cancel_left, rate_mul_waitFor]

/-- What a call may do: it refuses, it grants what is nothing, or the refilled state pays for the tokens. -/
inductive CallStep (cfg : TokenBucketConfig) (c : BucketCall) (state : BucketState) :
    Option (Grant ℚ) → BucketState → Prop
  | refused : CallStep cfg c state none state
  | lacking : CallStep cfg c state none (refillLocked cfg c.now state)
  | nothing : CallStep cfg c state (some ⟨c.now, 0⟩) state
  | paid (n : Nat) (hpos : 0 < n) (hn : n ≤ cfg.capacity) :
      CallStep cfg c state (some ⟨c.now + waitFor cfg (refillLocked cfg c.now state) n, n⟩)
        { refillLocked cfg c.now state with tokens := (refillLocked cfg c.now state).tokens - n }

theorem callStep (c : BucketCall) (state : BucketState) :
    CallStep cfg c state (call cfg c state).1 (call cfg c state).2 := by
  obtain ⟨now, op⟩ := c
  cases op with
  | tryAcquire n =>
    unfold call tryAcquire
    by_cases hzero : n = 0
    · subst hzero
      exact .nothing
    by_cases hlarge : cfg.capacity < n
    · simp only [hzero, hlarge, ↓reduceIte]
      exact .refused
    by_cases hthere : (n : ℚ) ≤ (refillLocked cfg now state).tokens
    · simp only [hzero, hlarge, hthere, ↓reduceIte]
      have hpaid := @CallStep.paid cfg ⟨now, .tryAcquire n⟩ state n (Nat.pos_of_ne_zero hzero) (not_lt.mp hlarge)
      rwa [waitFor, if_pos (sub_nonneg.mpr hthere), add_zero] at hpaid
    · simp only [hzero, hlarge, hthere, ↓reduceIte]
      exact .lacking
  | acquire n =>
    unfold call acquire
    by_cases hzero : n = 0
    · subst hzero
      show CallStep cfg _ state (some ⟨now + 0, 0⟩) state
      rw [add_zero]
      exact .nothing
    by_cases hlarge : cfg.capacity < n
    · simp only [hzero, hlarge, ↓reduceIte]
      exact .refused
    have hpaid := @CallStep.paid cfg ⟨now, .acquire n⟩ state n (Nat.pos_of_ne_zero hzero) (not_lt.mp hlarge)
    unfold waitFor at hpaid
    by_cases hthere : 0 ≤ (refillLocked cfg now state).tokens - n
    · simp only [hzero, hlarge, hthere, ↓reduceIte] at hpaid ⊢
      exact hpaid
    · simp only [hzero, hlarge, hthere, ↓reduceIte] at hpaid ⊢
      exact hpaid

theorem lastRefill_call (hclock : state.lastRefill ≤ c.now) : (call cfg c state).2.lastRefill ≤ c.now := by
  have hstep := @callStep cfg c state
  generalize call cfg c state = result at hstep ⊢
  obtain ⟨granted, state'⟩ := result
  cases hstep with
  | refused => exact hclock
  | lacking => exact (lastRefill_refillLocked hclock).le
  | nothing => exact hclock
  | paid n => exact (lastRefill_refillLocked hclock).le

theorem grants_cons (c : BucketCall) (calls : List BucketCall) (state : BucketState) :
    grants cfg state (c :: calls) =
      ((call cfg c state).1.map (c, ·)).toList ++ grants cfg (call cfg c state).2 calls := by
  rw [grants]
  generalize call cfg c state = result
  obtain ⟨granted, state'⟩ := result
  cases granted <;> rfl

/-- The grants of a run that grant something. -/
def paidGrants (cfg : TokenBucketConfig) (state : BucketState) (calls : List BucketCall) : List (Grant ℚ) :=
  ((grants cfg state calls).map Prod.snd).filter (0 < ·.amount)

theorem paced_paidGrants (h : Behind cfg time level state) (hcalls : Ordered now calls)
    (hclock : state.lastRefill ≤ now) :
    Paced (· ≤ (cfg.capacity : ℚ)) cfg.refillRatePerSec time level (paidGrants cfg state calls) := by
  induction calls generalizing time level now state with
  | nil => exact .nil _ _
  | cons c calls ih =>
    obtain ⟨hnow, hrest⟩ := hcalls.tail
    have hclock' := @lastRefill_call cfg _ _ (hclock.trans hnow)
    have hrefill := @lastRefill_refillLocked cfg _ _ (hclock.trans hnow)
    have hstep := @callStep cfg c state
    unfold paidGrants
    rw [grants_cons, List.map_append, List.filter_append]
    generalize call cfg c state = result at hstep hclock' ⊢
    obtain ⟨granted, state'⟩ := result
    cases hstep with
    | refused => exact ih h hrest hclock'
    | lacking => exact ih (h.refillLocked c.now) hrest hclock'
    | nothing => exact ih h hrest hclock'
    | paid n hpos hn =>
      have hamount : (0 : ℚ) < n := Nat.cast_pos.mpr hpos
      have hafter := (h.refillLocked c.now).after n
      have hpaced := (h.refillLocked c.now).paced hn (ih hafter hrest hclock')
      rw [hrefill] at hpaced
      simpa [paidGrants, hamount, hrefill] using hpaced

/-! ## Conformance -/

/-- What is granted in any interval is no more than the capacity and what the rate gives in it. -/
def Conforms (cfg : TokenBucketConfig) (granted : List (BucketCall × Grant ℚ)) : Prop :=
  ∀ s t, s ≤ t → total (within s t (granted.map Prod.snd)) ≤ cfg.capacity + cfg.refillRatePerSec * (t - s)

theorem amount_nonneg (calls : List BucketCall) (state : BucketState) :
    ∀ grant ∈ (grants cfg state calls).map Prod.snd, 0 ≤ grant.amount := by
  induction calls generalizing state with
  | nil => simp [grants]
  | cons c calls ih =>
    have hstep := @callStep cfg c state
    rw [grants_cons, List.map_append]
    refine List.forall_mem_append.mpr ⟨?_, ih _⟩
    generalize call cfg c state = result at hstep ⊢
    obtain ⟨granted, state'⟩ := result
    cases hstep with
    | refused => simp
    | lacking => simp
    | nothing => simp
    | paid n => simp

theorem behind_withClock (cfg : TokenBucketConfig) (created : ℚ) :
    Behind cfg created cfg.capacity (withClock cfg created) := by
  refine ⟨le_rfl, ?_, ?_⟩
  · simp [withClock]
  · simp [withClock]

/-- Every run from a new bucket conforms, and its grants to `acquire` calls of at least one token come in the order
of the calls. -/
theorem bucket_conforms (cfg : TokenBucketConfig) (created : ℚ) (calls : List BucketCall) (h : Ordered created calls) :
    Conforms cfg (grants cfg (withClock cfg created) calls) ∧
      ((acquired (grants cfg (withClock cfg created) calls)).filter (0 < ·.amount)).Pairwise
        fun grant grant' => grant.time ≤ grant'.time := by
  have hpaced := paced_paidGrants (behind_withClock cfg created) h le_rfl
  constructor
  · intro s t hst
    rw [within, ← total_filter_pos _ (amount_nonneg calls _)]
    exact hpaced.total_within cfg.refillRatePerSec_pos.le (Nat.cast_nonneg _) hst
  · refine hpaced.times.2.sublist ?_
    exact (List.filter_sublist.map Prod.snd).filter _

def sampleConfig : TokenBucketConfig := ⟨2, 2, two_pos, two_pos⟩

def sampleCalls : List BucketCall := [⟨0, .acquire 2⟩, ⟨0, .acquire 2⟩, ⟨1, .tryAcquire 1⟩]

theorem bucket_conforms_sample :
    Conforms sampleConfig (grants sampleConfig (withClock sampleConfig 0) sampleCalls) :=
  (bucket_conforms sampleConfig 0 sampleCalls ⟨by decide +kernel, by decide +kernel⟩).1

/-- Every run conforms, and its grants to `acquire` calls come in the order of the calls, whatever they ask for. -/
def BucketConforms (cfg : TokenBucketConfig) : Prop :=
  ∀ (created : ℚ) (calls : List BucketCall), Ordered created calls →
    Conforms cfg (grants cfg (withClock cfg created) calls) ∧
      (acquired (grants cfg (withClock cfg created) calls)).Pairwise fun grant grant' => grant.time ≤ grant'.time

/-- Who asks for nothing does not wait for the debt. -/
theorem not_bucketConforms : ¬ BucketConforms sampleConfig := by
  intro h
  have hpairs := (h 0 [⟨0, .acquire 2⟩, ⟨0, .acquire 2⟩, ⟨0, .acquire 0⟩] ⟨by decide +kernel, by decide +kernel⟩).2
  revert hpairs
  decide +kernel

end TokenBucket

end Pcloud
