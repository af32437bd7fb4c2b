import Mathlib.Algebra.Order.Floor.Ring
import Mathlib.Data.Rat.Floor
import Pcloud.Lib.Pacing
import Pcloud.Lib.Runs
import Pcloud.Model.Bytes

/-!
# The bandwidth pacer (`pcloud-resilience/src/pacing.rs`)

`acquire` and the state it shares between callers. Times and waits are exact: seconds are rational numbers.
-/

namespace Pcloud

open Pacing

structure PacerState where
  limit : Option Nat
  tokens : Nat
  lastRefill : ℚ
deriving DecidableEq, Repr

namespace BandwidthPacer

def new (bytesPerSec : Option Nat) (now : ℚ) : PacerState where
  limit := bytesPerSec
  tokens := bytesPerSec.getD 0
  lastRefill := now

/-- The whole bytes of some seconds, as a `u64`. -/
def wholeBytes (limit : Nat) (elapsed : ℚ) : Nat := min ⌊elapsed * limit⌋.toNat u64Max

/-- The refill at the start of `acquire`. Where not one byte has come the time of the last refill stays. -/
def refill (limit : Nat) (now : ℚ) (st : PacerState) : PacerState :=
  let elapsed := max (now - st.lastRefill) 0
  if 0 < wholeBytes limit elapsed then
    { st with tokens := min (satAdd st.tokens (wholeBytes limit elapsed)) limit, lastRefill := now }
  else st

/-- The answer is the time to wait. -/
def acquire (now : ℚ) (bytes : Nat) (st : PacerState) : ℚ × PacerState :=
  if bytes = 0 then (0, st)
  else
    match st.limit with
    | none => (0, st)
    | some limit =>
      if limit = 0 then (0, st)
      else
        let st := refill limit now st
        if bytes ≤ st.tokens then (0, { st with tokens := st.tokens - bytes })
        else
          let deficit := bytes - st.tokens
          let secs : ℚ := deficit / limit
          (secs, { st with tokens := 0, lastRefill := now + secs })

/-! ## Runs -/

structure PacerCall where
  now : ℚ
  bytes : Nat
deriving DecidableEq, Repr

def step (st : PacerState) (c : PacerCall) : PacerState := (acquire c.now c.bytes st).2

/-- What the calls of a run are admitted, each at the end of its wait. -/
def admitted (st : PacerState) : List PacerCall → List (Grant ℚ)
  | [] => []
  | c :: calls => ⟨c.now + (acquire c.now c.bytes st).1, c.bytes⟩ :: admitted (step st c) calls

/-- The calls are made one after the other, none before a time. -/
def Ordered (start : ℚ) (calls : List PacerCall) : Prop := InOrder PacerCall.now start calls

/-- No wait that was given out is still running when the call is made, or the call asks for nothing. -/
def NoWaitRunning (st : PacerState) (c : PacerCall) : Prop := 0 < c.bytes → st.lastRefill ≤ c.now

instance (st : PacerState) (c : PacerCall) : Decidable (NoWaitRunning st c) :=
  inferInstanceAs (Decidable (0 < c.bytes → st.lastRefill ≤ c.now))

/-- By every time since the creation no more is admitted than the rate gives and one second of burst. -/
def Conforms (limit : Nat) (granted : List (Grant ℚ)) : Prop :=
  ∀ t, 0 ≤ t → total (upTo t granted) ≤ limit * (1 + t)

/-! ## The reserve and the last grant -/

variable {limit : Nat} {time level now : ℚ} {st : PacerState} {c : PacerCall} {calls : List PacerCall}

/-- The state goes on from a grant: since then the tokens have risen by no more than the rate gives, and the grant
is no later than the last refill or than the last call. -/
structure Behind (limit : Nat) (time level clock : ℚ) (st : PacerState) : Prop where
  limited : st.limit = some limit
  risen : (st.tokens : ℚ) ≤ level + limit * (st.lastRefill - time)
  past : time ≤ max st.lastRefill clock

theorem wholeBytes_le {elapsed : ℚ} (h : 0 ≤ elapsed) : (wholeBytes limit elapsed : ℚ) ≤ limit * elapsed := by
  have hfloor : 0 ≤ ⌊elapsed * limit⌋ := Int.floor_nonneg.mpr (mul_nonneg h (Nat.cast_nonneg _))
  calc (wholeBytes limit elapsed : ℚ) ≤ (⌊elapsed * limit⌋.toNat : ℚ) := by exact_mod_cast min_le_left _ _
    _ = (⌊elapsed * limit⌋ : ℚ) := by exact_mod_cast Int.toNat_of_nonneg hfloor
    _ ≤ elapsed * limit := Int.floor_le _
    _ = limit * elapsed := mul_comm _ _

theorem refill_spec (hclock : st.lastRefill ≤ now) :
    (refill limit now st).limit = st.limit ∧ (refill limit now st).lastRefill ≤ now ∧
      ((refill limit now st).tokens : ℚ) + limit * (now - (refill limit now st).lastRefill) ≤
        st.tokens + limit * (now - st.lastRefill) := by
  have helapsed : max (now - st.lastRefill) 0 = now - st.lastRefill := max_eq_left (sub_nonneg.mpr hclock)
  have hbytes := @wholeBytes_le limit _ (sub_nonneg.mpr hclock)
  unfold refill
  simp only [helapsed]
  split
  · refine ⟨rfl, le_rfl, ?_⟩
    have hsum : min (satAdd st.tokens (wholeBytes limit (now - st.lastRefill))) limit ≤
        st.tokens + wholeBytes limit (now - st.lastRefill) := (min_le_left _ _).trans (min_le_left _ _)
    have hsum' : ((min (satAdd st.tokens (wholeBytes limit (now - st.lastRefill))) limit : Nat) : ℚ) ≤
        st.tokens + wholeBytes limit (now - st.lastRefill) := by exact_mod_cast hsum
    show ((min (satAdd st.tokens (wholeBytes limit (now - st.lastRefill))) limit : Nat) : ℚ) + limit * (now - now) ≤ _
    linarith
  · exact ⟨rfl, hclock, le_rfl⟩

theorem Behind.acquire {clock : ℚ} (h : Behind limit time level clock st) (hlimit : 0 < limit) (hbytes : 0 < c.bytes)
    (hnow : clock ≤ c.now) (hclock : st.lastRefill ≤ c.now) :
    ∃ level' : ℚ, 0 ≤ level' ∧ time ≤ c.now + (acquire c.now c.bytes st).1 ∧
      level' + c.bytes ≤ level + limit * (c.now + (acquire c.now c.bytes st).1 - time) ∧
      Behind limit (c.now + (acquire c.now c.bytes st).1) level' c.now (step st c) := by
  have htime : time ≤ c.now := h.past.trans (max_le hclock hnow)
  obtain ⟨hlimited, hrefilled, hgiven⟩ := @refill_spec limit _ _ hclock
  have hrisen := h.risen
  have hrate : (0 : ℚ) < limit := Nat.cast_pos.mpr hlimit
  have hlate := mul_nonneg hrate.le (sub_nonneg.mpr hrefilled)
  unfold step BandwidthPacer.acquire
  simp only [hbytes.ne', h.limited, hlimit.ne', ↓reduceIte]
  generalize refill limit c.now st = st' at hlimited hrefilled hgiven hlate ⊢
  split
  · next hthere =>
    have hthere' : (c.bytes : ℚ) ≤ st'.tokens := Nat.cast_le.mpr hthere
    refine ⟨st'.tokens - c.bytes + limit * (c.now - st'.lastRefill), ?_, ?_, ?_, ?_⟩
    · linarith
    · linarith
    · have hsplit : limit * (c.now + 0 - time) =
          limit * (c.now - st.lastRefill) + limit * (st.lastRefill - time) := by ring
      linarith
    · refine ⟨hlimited.trans h.limited, ?_, ?_⟩
      · show ((st'.tokens - c.bytes : Nat) : ℚ) ≤ _
        rw [Nat.cast_sub hthere]
        have hback : limit * (st'.lastRefill - (c.now + 0)) = -(limit * (c.now - st'.lastRefill)) := by ring
        linarith
      · rw [add_zero]
        exact le_max_right _ _
  · next hlacking =>
    have hlacking' : (st'.tokens : ℚ) ≤ c.bytes := Nat.cast_le.mpr (not_le.mp hlacking).le
    have hdeficit : ((c.bytes - st'.tokens : Nat) : ℚ) = c.bytes - st'.tokens := Nat.cast_sub (not_le.mp hlacking).le
    have hwait : (limit : ℚ) * (((c.bytes - st'.tokens : Nat) : ℚ) / limit) = c.bytes - st'.tokens := by
      rw [mul_div_cancel₀ _ hrate.ne', hdeficit]
    have hsecs : 0 ≤ ((c.bytes - st'.tokens : Nat) : ℚ) / limit := by positivity
    refine ⟨0, le_rfl, ?_, ?_, hlimited.trans h.limited, ?_, ?_⟩
    · linarith
    · have hsplit : limit * (c.now + ((c.bytes - st'.tokens : Nat) : ℚ) / limit - time) =
          limit * (c.now - st.lastRefill) + limit * (st.lastRefill - time) +
            limit * (((c.bytes - st'.tokens : Nat) : ℚ) / limit) := by ring
      linarith
    · simp
    · exact le_max_left _ _

theorem amount_nonneg (calls : List PacerCall) (st : PacerState) : ∀ grant ∈ admitted st calls, 0 ≤ grant.amount := by
  induction calls generalizing st with
  | nil => simp [admitted]
  | cons c calls ih => exact List.forall_mem_cons.mpr ⟨Nat.cast_nonneg _, ih _⟩

theorem paced_admitted (h : Behind limit time level now st) (hlimit : 0 < limit) (hcalls : Ordered now calls)
    (hok : Runs.AllSteps step NoWaitRunning st calls) :
    Paced (fun _ => True) (limit : ℚ) time level ((admitted st calls).filter (0 < ·.amount)) := by
  induction calls generalizing time level now st with
  | nil => exact .nil _ _
  | cons c calls ih =>
    obtain ⟨hnow, hrest⟩ := hcalls.tail
    obtain ⟨hhere, hthere⟩ := hok
    by_cases hbytes : c.bytes = 0
    · have hstep : step st c = st := by rw [step, acquire, if_pos hbytes]
      have hbehind : Behind limit time level c.now st :=
        ⟨h.limited, h.risen, h.past.trans (max_le_max_left _ hnow)⟩
      rw [admitted, List.filter_cons_of_neg (by simp [hbytes])]
      rw [hstep] at hthere ⊢
      exact ih hbehind hrest hthere
    · have hpos := Nat.pos_of_ne_zero hbytes
      obtain ⟨level', hlevel', htime, hpaid, hbehind⟩ := h.acquire hlimit hpos hnow (hhere hpos)
      rw [admitted, List.filter_cons_of_pos (by simpa using hpos)]
      exact .cons htime hlevel' trivial hpaid (ih hbehind hrest hthere)

theorem behind_new (limit : Nat) : Behind limit 0 limit 0 (new (some limit) 0) := by
  refine ⟨rfl, ?_, ?_⟩
  · simp [new]
  · simp [new]

/-- In a run whose calls meet no wait that is still running the pacer keeps to its limit. -/
theorem pacer_conforms (limit : Nat) (hlimit : 0 < limit) (calls : List PacerCall) (hcalls : Ordered 0 calls)
    (hok : Runs.AllSteps step NoWaitRunning (new (some limit) 0) calls) :
    Conforms limit (admitted (new (some limit) 0) calls) := by
  intro t ht
  have hpaced := paced_admitted (behind_new limit) hlimit hcalls hok
  have hbound := hpaced.total_upTo (Nat.cast_nonneg _) (Nat.cast_nonneg _) ht
  rw [upTo, total_filter_pos _ (amount_nonneg calls _)] at hbound
  have hsplit : (limit : ℚ) * (1 + t) = limit + limit * (t - 0) := by ring
  rw [upTo, hsplit]
  exact hbound

def sequentialCalls : List PacerCall := [⟨0, 10⟩, ⟨0, 10⟩, ⟨1, 5⟩]

theorem pacer_conforms_sample : Conforms 10 (admitted (new (some 10) 0) sequentialCalls) :=
  pacer_conforms 10 (by decide) sequentialCalls ⟨by decide +kernel, by decide +kernel⟩
    ⟨by decide +kernel, by decide +kernel, by decide +kernel, trivial⟩

/-- Every run of callers keeps to the limit. -/
def PacerConforms : Prop :=
  ∀ (limit : Nat) (calls : List PacerCall), 0 < limit → Ordered 0 calls →
    Conforms limit (admitted (new (some limit) 0) calls)

/-- Two callers that wait for the same second. -/
theorem not_pacerConforms : ¬ PacerConforms := by
  intro h
  have hbound := h 10 [⟨0, 10⟩, ⟨0, 10⟩, ⟨0, 10⟩] (by decide) ⟨by decide +kernel, by decide +kernel⟩ 1 (by decide)
  revert hbound
  decide +kernel

end BandwidthPacer

end Pcloud
