import Mathlib.Algebra.Group.Nat.Defs
import Pcloud.Lib.Runs

/-!
# The circuit breaker (`pcloud-resilience/src/circuit_breaker.rs`)

Callers acquire and report under a lock, in any order, while the clock goes on. A report says how a call
ended, and not which call it was: that is noted beside the breaker.
-/

namespace Pcloud

inductive BreakerState
  | Closed
  | Open
  | HalfOpen
deriving DecidableEq, Repr

/-- Durations and instants are counted in ticks of the clock. -/
structure CircuitBreakerConfig where
  failureThreshold : Nat
  resetTimeout : Nat
  threshold_pos : 1 ≤ failureThreshold

inductive CircuitBreakerError
  | Open
  | ProbeInFlight
deriving DecidableEq, Repr

structure CircuitBreaker where
  state : BreakerState := .Closed
  consecutiveFailures : Nat := 0
  openedAt : Option Nat := none
  probeInFlight : Bool := false
deriving DecidableEq, Repr

namespace CircuitBreaker

variable (cfg : CircuitBreakerConfig) (now : Nat) (breaker : CircuitBreaker)

/-- `tick_locked`. -/
def tick : CircuitBreaker :=
  match breaker.state, breaker.openedAt with
  | .Open, some openedAt =>
    if cfg.resetTimeout ≤ now - openedAt then { breaker with state := .HalfOpen, probeInFlight := false } else breaker
  | _, _ => breaker

/-- What `try_acquire` does after the tick. -/
def acquireTicked : Except CircuitBreakerError Unit × CircuitBreaker :=
  match breaker.state with
  | .Closed => (.ok (), breaker)
  | .Open => (.error .Open, breaker)
  | .HalfOpen =>
    if breaker.probeInFlight then (.error .ProbeInFlight, breaker)
    else (.ok (), { breaker with probeInFlight := true })

def tryAcquire : Except CircuitBreakerError Unit × CircuitBreaker := (breaker.tick cfg now).acquireTicked

def recordSuccess : CircuitBreaker :=
  match breaker.state with
  | .Closed => { breaker with consecutiveFailures := 0 }
  | .HalfOpen => { breaker with state := .Closed, consecutiveFailures := 0, openedAt := none, probeInFlight := false }
  | .Open => breaker

def recordFailure : CircuitBreaker :=
  match breaker.state with
  | .Closed =>
    -- the counter is a `u32` that saturates
    let consecutiveFailures := min (breaker.consecutiveFailures + 1) (2 ^ 32 - 1)
    if cfg.failureThreshold ≤ consecutiveFailures then
      { breaker with state := .Open, consecutiveFailures, openedAt := some now }
    else { breaker with consecutiveFailures }
  | .HalfOpen => { breaker with state := .Open, openedAt := some now, probeInFlight := false }
  | .Open => breaker

end CircuitBreaker

/-! ## The callers -/

/-- An admitted call that has not reported yet. `probeOf` is the HalfOpen phase that admitted it. -/
structure Admission where
  call : Nat
  guarded : Bool
  probeOf : Option Nat
deriving DecidableEq, Repr

/-- A breaker, its clock, and the calls that are out. `phase` counts the HalfOpen phases. -/
structure BreakerWorld where
  breaker : CircuitBreaker := {}
  now : Nat := 0
  phase : Nat := 0
  nextCall : Nat := 0
  outstanding : List Admission := []
deriving DecidableEq, Repr

inductive BreakerCall
  | tryAcquire
  | acquireGuarded
  | recordSuccess (call : Nat)
  | recordFailure (call : Nat)
  | dropGuard (call : Nat)
  | state
  | advance (ticks : Nat)
deriving DecidableEq, Repr

namespace BreakerWorld

variable (cfg : CircuitBreakerConfig) (w : BreakerWorld)

/-- A look at the state, which may begin a HalfOpen phase. -/
def observe : BreakerWorld :=
  let breaker := w.breaker.tick cfg w.now
  { w with breaker, phase := if breaker.state = w.breaker.state then w.phase else w.phase + 1 }

/-- An admitted call gets a number of its own. -/
def acquire (guarded : Bool) : BreakerWorld :=
  let w := w.observe cfg
  match w.breaker.acquireTicked with
  | (.ok (), breaker) =>
    let probeOf := if w.breaker.state = .HalfOpen then some w.phase else none
    { w with breaker, nextCall := w.nextCall + 1, outstanding := ⟨w.nextCall, guarded, probeOf⟩ :: w.outstanding }
  | (.error _, breaker) => { w with breaker }

/-- The report of a call that is out, after which it is not. -/
def report (call : Nat) (breaker : CircuitBreaker) : BreakerWorld :=
  if w.outstanding.any (·.call = call) then
    { w with breaker, outstanding := w.outstanding.filter (·.call ≠ call) }
  else w

def step : BreakerCall → BreakerWorld
  | .tryAcquire => w.acquire cfg false
  | .acquireGuarded => w.acquire cfg true
  | .recordSuccess call => w.report call w.breaker.recordSuccess
  | .recordFailure call => w.report call (w.breaker.recordFailure cfg w.now)
  | .dropGuard call =>
    if w.outstanding.any fun admission => admission.call = call && admission.guarded then
      w.report call (w.breaker.recordFailure cfg w.now)
    else w
  | .state => w.observe cfg
  | .advance ticks => { w with now := w.now + ticks }

/-! ## What is promised -/

/-- The calls out that a HalfOpen phase admitted. -/
def probes : List Admission := w.outstanding.filter (·.probeOf.isSome)

def SoleProbe : Prop := w.probes.length ≤ 1

/-- A call that is out was admitted in the phase that the breaker is in. -/
def Own (call : Nat) : Prop := ∃ admission ∈ w.outstanding, admission.call = call ∧ admission.probeOf = some w.phase

/-- From HalfOpen to Closed it is a success of the phase's own call. -/
def ClosedByOwn (call : BreakerCall) : Prop :=
  w.breaker.state = .HalfOpen → (w.step cfg call).breaker.state = .Closed → ∃ c, call = .recordSuccess c ∧ w.Own c

def ProbesHold (calls : List BreakerCall) : Prop :=
  Runs.AllStates (step cfg) SoleProbe {} calls ∧ Runs.AllSteps (step cfg) (ClosedByOwn cfg) {} calls

/-- No report that reaches a HalfOpen breaker is of a call from before the phase, but for a failure while the
probe slot is free. -/
def InPhase : BreakerCall → Prop
  | .recordSuccess call =>
    w.breaker.state = .HalfOpen → (∃ admission ∈ w.outstanding, admission.call = call) → w.Own call
  | .recordFailure call =>
    w.breaker.state = .HalfOpen → (∃ admission ∈ w.outstanding, admission.call = call) →
      w.Own call ∨ w.breaker.probeInFlight = false
  | .dropGuard call =>
    w.breaker.state = .HalfOpen → (∃ admission ∈ w.outstanding, admission.call = call ∧ admission.guarded = true) →
      w.Own call ∨ w.breaker.probeInFlight = false
  | _ => True

/-! ## The probe slot -/

/-- A probe that is out is the only one, of the present phase, and has the slot. The slot is not taken without one. -/
structure Slotted : Prop where
  sole : w.probes.length ≤ 1
  present : ∀ admission ∈ w.outstanding, admission.probeOf.isSome = true →
    w.breaker.state = .HalfOpen ∧ w.breaker.probeInFlight = true ∧ admission.probeOf = some w.phase
  taken : w.breaker.state = .HalfOpen → w.breaker.probeInFlight = true → w.probes ≠ []

variable {cfg w}

theorem Slotted.probes_eq_nil (h : w.Slotted) (hfree : w.breaker.state ≠ .HalfOpen ∨ w.breaker.probeInFlight = false) :
    w.probes = [] := by
  refine List.filter_eq_nil_iff.mpr fun admission hadmission hprobe => ?_
  obtain ⟨hstate, htaken, -⟩ := h.present admission hadmission hprobe
  rcases hfree with hfree | hfree
  · exact hfree hstate
  · rw [htaken] at hfree
    cases hfree

theorem slotted_of_nil (hnil : w.probes = []) (hfree : w.breaker.state = .HalfOpen → w.breaker.probeInFlight = false) :
    w.Slotted where
  sole := by rw [hnil]; exact Nat.zero_le 1
  present admission hadmission hprobe := absurd hprobe (List.filter_eq_nil_iff.mp hnil admission hadmission)
  taken hstate htaken := by
    rw [hfree hstate] at htaken
    cases htaken

theorem slotted_of_probe {probe : Admission} {rest : List Admission} (hout : w.outstanding = probe :: rest)
    (hrest : rest.filter (·.probeOf.isSome) = []) (hprobe : probe.probeOf = some w.phase)
    (hstate : w.breaker.state = .HalfOpen) (htaken : w.breaker.probeInFlight = true) : w.Slotted := by
  have hone : w.probes = [probe] := by
    unfold probes
    rw [hout, List.filter_cons_of_pos (by simp [hprobe]), hrest]
  refine ⟨by rw [hone]; exact Nat.le_refl 1, fun admission hadmission hisProbe => ?_, fun _ _ => by rw [hone]; simp⟩
  rw [hout] at hadmission
  rcases List.mem_cons.mp hadmission with rfl | hold
  · exact ⟨hstate, htaken, hprobe⟩
  · exact absurd hisProbe (List.filter_eq_nil_iff.mp hrest admission hold)

variable (cfg) in
theorem tick_cases (breaker : CircuitBreaker) (now : Nat) :
    breaker.tick cfg now = breaker ∨
      breaker.state = .Open ∧ (breaker.tick cfg now).state = .HalfOpen ∧
        (breaker.tick cfg now).probeInFlight = false := by
  unfold CircuitBreaker.tick
  split
  · rename_i hopen _
    split
    · exact .inr ⟨hopen, rfl, rfl⟩
    · exact .inl rfl
  · exact .inl rfl

variable (cfg w) in
theorem observe_cases :
    w.observe cfg = w ∨ w.breaker.state = .Open ∧ (w.observe cfg).breaker.state = .HalfOpen ∧
      (w.observe cfg).breaker.probeInFlight = false ∧ (w.observe cfg).outstanding = w.outstanding := by
  unfold observe
  rcases tick_cases cfg w.breaker w.now with hsame | ⟨hopen, hhalf, hfree⟩
  · left
    simp [hsame]
  · exact .inr ⟨hopen, hhalf, hfree, rfl⟩

theorem Slotted.observe (h : w.Slotted) : (w.observe cfg).Slotted := by
  rcases observe_cases cfg w with hsame | ⟨hopen, hhalf, hfree, hout⟩
  · rw [hsame]
    exact h
  · apply slotted_of_nil
    · have hnil := h.probes_eq_nil (.inl (by rw [hopen]; decide))
      unfold probes at hnil ⊢
      rw [hout, hnil]
    · intro _
      exact hfree

theorem Slotted.acquire (h : w.Slotted) (guarded : Bool) : (w.acquire cfg guarded).Slotted := by
  have hseen : (w.observe cfg).Slotted := h.observe
  unfold BreakerWorld.acquire
  generalize w.observe cfg = seen at hseen ⊢
  dsimp only
  unfold CircuitBreaker.acquireTicked
  rcases hstate : seen.breaker.state with _ | _ | _
  case Closed =>
    have hnil := hseen.probes_eq_nil (.inl (by rw [hstate]; decide))
    apply slotted_of_nil
    · simpa [probes] using hnil
    · intro hhalf
      simp [hstate] at hhalf
  case Open => exact hseen
  case HalfOpen =>
    by_cases htaken : seen.breaker.probeInFlight = true
    · simp only [htaken, if_true]
      exact hseen
    · have hfree : seen.breaker.probeInFlight = false := by simpa using htaken
      have hnil := hseen.probes_eq_nil (.inr hfree)
      simp only [hfree, Bool.false_eq_true, if_false, if_true]
      exact slotted_of_probe rfl hnil rfl rfl rfl

theorem probes_report {call : Nat} (breaker : CircuitBreaker) (h : ∃ admission ∈ w.outstanding, admission.call = call) :
    w.report call breaker = { w with breaker, outstanding := w.outstanding.filter (·.call ≠ call) } ∧
      (w.report call breaker).probes = w.probes.filter (·.call ≠ call) := by
  have hany : w.outstanding.any (·.call = call) = true := by simpa using h
  have hreport : w.report call breaker = { w with breaker, outstanding := w.outstanding.filter (·.call ≠ call) } := by
    unfold report
    rw [if_pos hany]
  refine ⟨hreport, ?_⟩
  rw [hreport]
  unfold probes
  rw [List.filter_filter, List.filter_filter]
  exact List.filter_congr fun _ _ => Bool.and_comm _ _

theorem Slotted.probes_own (h : w.Slotted) {call : Nat} (hown : w.Own call) :
    w.probes.filter (·.call ≠ call) = [] := by
  obtain ⟨admission, hadmission, hcall, hphase⟩ := hown
  have hmem : admission ∈ w.probes := List.mem_filter.mpr ⟨hadmission, by simp [hphase]⟩
  have hone : w.probes = [admission] := by
    obtain ⟨only, honly⟩ := List.length_eq_one_iff.mp (Nat.le_antisymm h.sole (List.length_pos_of_mem hmem))
    rw [honly] at hmem ⊢
    rw [List.mem_singleton.mp hmem]
  rw [hone]
  simp [hcall]

theorem Slotted.report (h : w.Slotted) {call : Nat} {breaker : CircuitBreaker}
    (hout : ∃ admission ∈ w.outstanding, admission.call = call) (hstate : breaker.state ≠ .HalfOpen)
    (hown : w.breaker.state = .HalfOpen → w.Own call ∨ w.breaker.probeInFlight = false) :
    (w.report call breaker).Slotted := by
  obtain ⟨hreport, hprobes⟩ := probes_report breaker hout
  apply slotted_of_nil
  · rw [hprobes]
    by_cases hhalf : w.breaker.state = .HalfOpen
    · rcases hown hhalf with hown | hfree
      · exact h.probes_own hown
      · rw [h.probes_eq_nil (.inr hfree)]
        rfl
    · rw [h.probes_eq_nil (.inl hhalf)]
      rfl
  · intro hhalf
    rw [hreport] at hhalf
    exact absurd hhalf hstate

theorem report_of_not_out {call : Nat} {breaker : CircuitBreaker}
    (h : ¬ ∃ admission ∈ w.outstanding, admission.call = call) : w.report call breaker = w := by
  unfold BreakerWorld.report
  rw [if_neg (by simpa using h)]

theorem recordSuccess_state (breaker : CircuitBreaker) : breaker.recordSuccess.state ≠ .HalfOpen := by
  unfold CircuitBreaker.recordSuccess
  rcases hstate : breaker.state with _ | _ | _
  · simp
  · simp [hstate]
  · simp

theorem recordFailure_state (breaker : CircuitBreaker) (now : Nat) :
    (breaker.recordFailure cfg now).state ≠ .HalfOpen := by
  unfold CircuitBreaker.recordFailure
  rcases hstate : breaker.state with _ | _ | _
  · dsimp only
    split
    · simp
    · simp
  · simp [hstate]
  · simp

theorem Slotted.step (h : w.Slotted) {call : BreakerCall} (hcall : w.InPhase call) : (w.step cfg call).Slotted := by
  have hfailure : ∀ c, (w.breaker.state = .HalfOpen → (∃ admission ∈ w.outstanding, admission.call = c) →
      w.Own c ∨ w.breaker.probeInFlight = false) → (w.report c (w.breaker.recordFailure cfg w.now)).Slotted := by
    intro c hown
    by_cases hout : ∃ admission ∈ w.outstanding, admission.call = c
    · exact h.report hout (recordFailure_state _ _) fun hhalf => hown hhalf hout
    · rw [report_of_not_out hout]
      exact h
  cases call with
  | tryAcquire => exact h.acquire false
  | acquireGuarded => exact h.acquire true
  | recordSuccess c =>
    by_cases hout : ∃ admission ∈ w.outstanding, admission.call = c
    · exact h.report hout (recordSuccess_state _) fun hhalf => .inl (hcall hhalf hout)
    · rw [BreakerWorld.step, report_of_not_out hout]
      exact h
  | recordFailure c => exact hfailure c hcall
  | dropGuard c =>
    unfold BreakerWorld.step
    dsimp only
    split
    · rename_i hguarded
      exact hfailure c fun hhalf _ => hcall hhalf (by simpa using hguarded)
    · exact h
  | state => exact h.observe
  | advance ticks => exact ⟨h.sole, h.present, h.taken⟩

theorem closedByOwn_of_inPhase {call : BreakerCall} (hcall : w.InPhase call) : w.ClosedByOwn cfg call := by
  intro hhalf hclosed
  have hobserve : w.observe cfg = w := by
    rcases observe_cases cfg w with hsame | ⟨hopen, -⟩
    · exact hsame
    · rw [hhalf] at hopen
      cases hopen
  have hacquire : ∀ guarded, (w.acquire cfg guarded).breaker.state = .HalfOpen := by
    intro guarded
    unfold acquire CircuitBreaker.acquireTicked
    rw [hobserve]
    rcases htaken : w.breaker.probeInFlight with _ | _
    · simp [hhalf, htaken]
    · simp [hhalf, htaken]
  have hreport : ∀ c breaker, (w.report c breaker).breaker.state = .Closed →
      (∃ admission ∈ w.outstanding, admission.call = c) ∧ breaker.state = .Closed := by
    intro c breaker h
    by_cases hout : ∃ admission ∈ w.outstanding, admission.call = c
    · rw [(probes_report _ hout).1] at h
      exact ⟨hout, h⟩
    · rw [report_of_not_out hout, hhalf] at h
      cases h
  have hfailure : (w.breaker.recordFailure cfg w.now).state = .Open := by
    unfold CircuitBreaker.recordFailure
    rw [hhalf]
  cases call with
  | tryAcquire =>
    rw [step, hacquire] at hclosed
    cases hclosed
  | acquireGuarded =>
    rw [step, hacquire] at hclosed
    cases hclosed
  | recordSuccess c => exact ⟨c, rfl, hcall hhalf (hreport c _ hclosed).1⟩
  | recordFailure c =>
    have hopen := (hreport c _ hclosed).2
    rw [hfailure] at hopen
    cases hopen
  | dropGuard c =>
    unfold step at hclosed
    dsimp only at hclosed
    split at hclosed
    · have hopen := (hreport c _ hclosed).2
      rw [hfailure] at hopen
      cases hopen
    · rw [hhalf] at hclosed
      cases hclosed
  | state =>
    rw [step, hobserve, hhalf] at hclosed
    cases hclosed
  | advance ticks =>
    rw [step, hhalf] at hclosed
    cases hclosed

theorem slotted_fresh : Slotted {} := slotted_of_nil rfl fun _ => rfl

/-- In a run whose reports are all in phase there is one probe at most, and only its success closes the breaker. -/
theorem probesHold_of_inPhase {calls : List BreakerCall} (h : Runs.AllSteps (step cfg) InPhase {} calls) :
    ProbesHold cfg calls := by
  have hslotted : Runs.AllStates (step cfg) Slotted {} calls :=
    h.allStates slotted_fresh (fun _ _ hw hcall => hw.step hcall) fun _ hw => hw
  exact ⟨hslotted.mono fun _ hw => hw.sole, h.mono fun _ _ hcall => closedByOwn_of_inPhase hcall⟩

theorem probes_acquire {openedAt : Nat} {guarded : Bool} (hopen : w.breaker.state = .Open)
    (hat : w.breaker.openedAt = some openedAt) (htime : cfg.resetTimeout ≤ w.now - openedAt) :
    (w.acquire cfg guarded).probes = ⟨w.nextCall, guarded, some (w.phase + 1)⟩ :: w.probes := by
  have htick : w.breaker.tick cfg w.now = { w.breaker with state := .HalfOpen, probeInFlight := false } := by
    unfold CircuitBreaker.tick
    simp only [hopen, hat]
    rw [if_pos htime]
  have hobserve : w.observe cfg =
      { w with breaker := { w.breaker with state := .HalfOpen, probeInFlight := false }, phase := w.phase + 1 } := by
    unfold observe
    simp [htick, hopen]
  unfold acquire CircuitBreaker.acquireTicked
  rw [hobserve]
  simp [probes]

/-- A failure that is taken for the probe's lets another probe in. -/
theorem second_probe {c : Nat} (h : w.Slotted) (hhalf : w.breaker.state = .HalfOpen)
    (hout : ∃ admission ∈ w.outstanding, admission.call = c) (hown : ¬ w.Own c)
    (htaken : w.breaker.probeInFlight = true) :
    ¬ SoleProbe (Runs.run (step cfg) (w.report c (w.breaker.recordFailure cfg w.now))
      [.advance cfg.resetTimeout, .tryAcquire]) := by
  obtain ⟨probe, hprobe⟩ := List.exists_mem_of_ne_nil _ (h.taken hhalf htaken)
  have hmem := List.mem_filter.mp hprobe
  obtain ⟨-, -, hphase⟩ := h.present probe hmem.1 hmem.2
  have hother : probe.call ≠ c := fun hcall => hown ⟨probe, hmem.1, hcall, hphase⟩
  obtain ⟨hreport, hprobes⟩ := probes_report (w.breaker.recordFailure cfg w.now) hout
  have hstays : probe ∈ (w.report c (w.breaker.recordFailure cfg w.now)).probes := by
    rw [hprobes]
    exact List.mem_filter.mpr ⟨hprobe, by simpa using hother⟩
  have hfailed : w.breaker.recordFailure cfg w.now =
      { w.breaker with state := .Open, openedAt := some w.now, probeInFlight := false } := by
    unfold CircuitBreaker.recordFailure
    rw [hhalf]
  rw [hreport, hfailed] at hstays ⊢
  unfold SoleProbe
  simp only [Runs.run_cons, Runs.run_nil, step]
  rw [probes_acquire rfl rfl (Nat.le_of_eq (Nat.add_sub_cancel_left ..).symm), List.length_cons]
  have hpos := List.length_pos_of_mem hstays
  unfold probes at hpos ⊢
  dsimp only at hpos ⊢
  omega

/-- A report that is not in phase can be followed by calls that break the promise. -/
theorem exists_not_probesHold {calls : List BreakerCall} {call : BreakerCall}
    (h : Runs.AllSteps (step cfg) InPhase {} calls) (hcall : ¬ InPhase (Runs.run (step cfg) {} calls) call) :
    ∃ more, ¬ ProbesHold cfg (calls ++ call :: more) := by
  have hslotted : Slotted (Runs.run (step cfg) {} calls) := h.invariant slotted_fresh fun _ _ hw hok => hw.step hok
  generalize hrun : Runs.run (step cfg) {} calls = w at hcall hslotted
  have hfailure : ∀ c, w.breaker.state = .HalfOpen → (∃ admission ∈ w.outstanding, admission.call = c) →
      ¬ (w.Own c ∨ w.breaker.probeInFlight = false) →
      w.step cfg call = w.report c (w.breaker.recordFailure cfg w.now) →
      ∃ more, ¬ ProbesHold cfg (calls ++ call :: more) := by
    intro c hhalf hout hnot hstep
    obtain ⟨hown, htaken⟩ := not_or.mp hnot
    refine ⟨[.advance cfg.resetTimeout, .tryAcquire], fun hhold => ?_⟩
    have hlast := hhold.1.run
    rw [Runs.run_append, Runs.run_cons, hrun, hstep] at hlast
    exact second_probe hslotted hhalf hout hown (by simpa using htaken) hlast
  cases call with
  | recordSuccess c =>
    simp only [InPhase, Classical.not_imp] at hcall
    obtain ⟨hhalf, hout, hown⟩ := hcall
    refine ⟨[], fun hhold => ?_⟩
    have hclosed := (Runs.allSteps_append.mp hhold.2).2.1
    rw [hrun] at hclosed
    have hstate : (w.step cfg (.recordSuccess c)).breaker.state = .Closed := by
      rw [step, (probes_report _ hout).1]
      unfold CircuitBreaker.recordSuccess
      rw [hhalf]
    obtain ⟨c', hc', hown'⟩ := hclosed hhalf hstate
    cases hc'
    exact hown hown'
  | recordFailure c =>
    simp only [InPhase, Classical.not_imp] at hcall
    obtain ⟨hhalf, hout, hnot⟩ := hcall
    exact hfailure c hhalf hout hnot rfl
  | dropGuard c =>
    simp only [InPhase, Classical.not_imp] at hcall
    obtain ⟨hhalf, ⟨admission, hadmission, hc, hguarded⟩, hnot⟩ := hcall
    have hany : (w.outstanding.any fun admission => admission.call = c && admission.guarded) = true :=
      List.any_eq_true.mpr ⟨admission, hadmission, by simp [hc, hguarded]⟩
    exact hfailure c hhalf ⟨admission, hadmission, hc⟩ hnot (if_pos hany)
  | tryAcquire => exact absurd trivial hcall
  | acquireGuarded => exact absurd trivial hcall
  | state => exact absurd trivial hcall
  | advance ticks => exact absurd trivial hcall

/-! ### A failure, a probe, and the late success of a call from before -/

def ProbesAlwaysHold : Prop := ∀ (cfg : CircuitBreakerConfig) (calls : List BreakerCall), ProbesHold cfg calls

def firstFailure : CircuitBreakerConfig := ⟨1, 1, by decide⟩

/-- The second call is admitted before the first one fails, and succeeds while the third one is the probe. -/
def lateSuccess : List BreakerCall :=
  [.tryAcquire, .tryAcquire, .recordFailure 0, .advance 1, .tryAcquire, .recordSuccess 1]

theorem not_probesAlwaysHold : ¬ ProbesAlwaysHold := by
  intro h
  obtain ⟨-, -, -, -, -, -, hlast, -⟩ := h firstFailure lateSuccess
  obtain ⟨c, hc, admission, hadmission, hcall, hprobe⟩ := hlast (by decide) (by decide)
  cases hc
  revert admission
  decide

theorem probesHold_of_oneProbe :
    ProbesHold firstFailure [.tryAcquire, .recordFailure 0, .advance 1, .tryAcquire, .recordSuccess 1] := by
  apply probesHold_of_inPhase
  refine ⟨trivial, ?_, trivial, trivial, ?_, trivial⟩
  · intro hhalf
    exact absurd hhalf (by decide)
  · intro _ _
    exact ⟨⟨1, false, some 1⟩, by decide, rfl, rfl⟩

end BreakerWorld

end Pcloud
