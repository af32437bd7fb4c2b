import Mathlib.Data.Bool.Count
import Pcloud.Backends.UploadSteps
import Pcloud.Lib.Runs

/-!
# What a refresh of the session costs an upload step (`pcloud-backends/src/upload_state.rs`)

`run_step` over the outcomes of its driver, one after another. The counter of the attempts decides when the step
gives up and how long it waits, and a turn that goes to the refresh counts as an attempt.
-/

namespace Pcloud.UploadState

open Program

/-- What an attempt comes to. An `Auth` comes with the answer of the refresher. -/
inductive StepOutcome (α : Type)
  | Ok (value : α)
  | PermFail
  | TempFail
  | Auth (refresh : Except String String)

/-- The loop of `run_step` between two turns. `tolerated` is for the record: how many `TempFail`s the loop has gone
on after. -/
structure StepRun (α : Type) where
  auth : String
  attempts : Nat := 0
  authRefreshed : Bool := false
  waits : List Duration := []
  tolerated : Nat := 0
  /-- The text of `UploadState::Failed`. -/
  failed : Option String := none
  result : Option (Except UploadStateError α) := none

namespace StepRun

section

variable {α : Type} (policy : RetryPolicy)

/-- A turn of the loop that is still going. -/
def turn (run : StepRun α) (outcome : StepOutcome α) : StepRun α :=
  let attempts := run.attempts + 1
  match outcome with
  | .Ok value => { run with attempts, result := some (.ok value) }
  | .PermFail =>
    { run with
      attempts, failed := some s!"permanent upload failure after {attempts} attempt(s)"
      result := some (.error (.Permanent attempts)) }
  | .Auth refresh =>
    if run.authRefreshed then
      { run with
        attempts, failed := some "auth refresh did not recover upload"
        result := some (.error (.Permanent attempts)) }
    else
      match refresh with
      | .ok newToken => { run with attempts, auth := newToken, authRefreshed := true }
      | .error message =>
        { run with
          attempts, failed := some s!"auth refresh failed: {message}"
          result := some (.error (.AuthRefresh message)) }
  | .TempFail =>
    match policy.next attempts with
    | .Retry wait => { run with attempts, waits := run.waits ++ [wait], tolerated := run.tolerated + 1 }
    | .GiveUp =>
      { run with
        attempts, failed := some s!"retry budget exhausted after {attempts} attempt(s)"
        result := some (.error (.RetriesExhausted attempts)) }

/-- An outcome after the loop has ended is not asked for. -/
def next (run : StepRun α) (outcome : StepOutcome α) : StepRun α :=
  if run.result.isSome then run else run.turn policy outcome

/-- `run_step` with these outcomes. -/
def runOver (auth : String) (outcomes : List (StepOutcome α)) : StepRun α :=
  Runs.run (next policy) { auth } outcomes

end

variable {α : Type} {policy : RetryPolicy} {run run' : StepRun α}

theorem next_of_none (h : run.result = none) (outcome : StepOutcome α) :
    run.next policy outcome = run.turn policy outcome := by
  rw [next, h]
  rfl

theorem next_of_some {result : Except UploadStateError α} (h : run.result = some result) (outcome : StepOutcome α) :
    run.next policy outcome = run := by
  rw [next, h]
  rfl

theorem run_of_some {result : Except UploadStateError α} (h : run.result = some result)
    (outcomes : List (StepOutcome α)) : Runs.run (next policy) run outcomes = run := by
  induction outcomes with
  | nil => rfl
  | cons outcome outcomes ih => rw [Runs.run_cons, next_of_some h, ih]

theorem next_retry {wait : Duration} (hgoing : run.result = none)
    (hretry : policy.next (run.attempts + 1) = .Retry wait) :
    run.next policy .TempFail =
      { run with attempts := run.attempts + 1, waits := run.waits ++ [wait], tolerated := run.tolerated + 1 } := by
  rw [next_of_none hgoing, turn, hretry]

theorem next_refresh (hgoing : run.result = none) (hfresh : run.authRefreshed = false) (newToken : String) :
    run.next policy (.Auth (.ok newToken)) =
      { run with attempts := run.attempts + 1, auth := newToken, authRefreshed := true } := by
  rw [next_of_none hgoing, turn, hfresh]
  rfl

theorem turn_giveUp (hle : policy.maxAttempts ≤ run.attempts + 1) :
    run.turn policy .TempFail =
      { run with
        attempts := run.attempts + 1
        failed := some s!"retry budget exhausted after {run.attempts + 1} attempt(s)"
        result := some (.error (.RetriesExhausted (run.attempts + 1))) } := by
  rw [turn, RetryPolicy.next_of_le hle]

theorem turn_refreshFailed (hfresh : run.authRefreshed = false) (message : String) :
    run.turn policy (.Auth (.error message)) =
      { run with
        attempts := run.attempts + 1
        failed := some s!"auth refresh failed: {message}"
        result := some (.error (.AuthRefresh message)) } := by
  rw [turn, hfresh]
  rfl

theorem turn_authAgain (hrefreshed : run.authRefreshed = true) (refresh : Except String String) :
    run.turn policy (.Auth refresh) =
      { run with
        attempts := run.attempts + 1
        failed := some "auth refresh did not recover upload"
        result := some (.error (.Permanent (run.attempts + 1))) } := by
  simp only [turn, hrefreshed, ↓reduceIte]

/-- A turn that ends the loop records no wait. -/
structure EndsAt (policy : RetryPolicy) (run : StepRun α) (outcome : StepOutcome α) : Prop where
  result : ∃ result, (run.next policy outcome).result = some result
  waits : (run.next policy outcome).waits = run.waits
  tolerated : (run.next policy outcome).tolerated = run.tolerated
  giveUp : outcome = .TempFail → policy.maxAttempts ≤ run.attempts + 1
  refreshed : ∀ newToken, outcome = .Auth (.ok newToken) → run.authRefreshed = true

theorem EndsAt.of_turn {outcome : StepOutcome α} {attempts : Nat} {failed : Option String}
    {result : Except UploadStateError α} (hgoing : run.result = none)
    (hturn : run.turn policy outcome = { run with attempts, failed, result := some result })
    (giveUp : outcome = .TempFail → policy.maxAttempts ≤ run.attempts + 1)
    (refreshed : ∀ newToken, outcome = .Auth (.ok newToken) → run.authRefreshed = true) :
    EndsAt policy run outcome := by
  have hnext := (next_of_none hgoing outcome).trans hturn
  exact ⟨⟨result, by rw [hnext]⟩, by rw [hnext], by rw [hnext], giveUp, refreshed⟩

theorem next_cases (policy : RetryPolicy) (hgoing : run.result = none) (outcome : StepOutcome α) :
    (∃ wait, outcome = .TempFail ∧ policy.next (run.attempts + 1) = .Retry wait) ∨
      (∃ newToken, outcome = .Auth (.ok newToken) ∧ run.authRefreshed = false) ∨ EndsAt policy run outcome := by
  rcases outcome with value | _ | _ | refresh
  · exact .inr (.inr (.of_turn hgoing rfl (fun h => by cases h) fun _ h => by cases h))
  · exact .inr (.inr (.of_turn hgoing rfl (fun h => by cases h) fun _ h => by cases h))
  · by_cases hlt : run.attempts + 1 < policy.maxAttempts
    · exact .inl ⟨_, rfl, RetryPolicy.next_of_lt hlt⟩
    · have hle := not_lt.mp hlt
      exact .inr (.inr (.of_turn hgoing (turn_giveUp hle) (fun _ => hle) fun _ h => by cases h))
  · rcases hrefreshed : run.authRefreshed with _ | _
    · rcases refresh with message | newToken
      · have hturn := @turn_refreshFailed _ policy run hrefreshed message
        exact .inr (.inr (.of_turn hgoing hturn (fun h => by cases h) fun _ h => by cases h))
      · exact .inr (.inl ⟨newToken, rfl, rfl⟩)
    · have hturn := @turn_authAgain _ policy _ hrefreshed refresh
      exact .inr (.inr (.of_turn hgoing hturn (fun h => by cases h) fun _ _ => hrefreshed))

theorem tolerated_next (outcome : StepOutcome α) (h : run.tolerated = run.waits.length) :
    (run.next policy outcome).tolerated = (run.next policy outcome).waits.length := by
  rcases hresult : run.result with _ | result
  · rcases next_cases policy hresult outcome with ⟨wait, rfl, hretry⟩ | ⟨newToken, rfl, hfresh⟩ | hends
    · rw [next_retry hresult hretry, List.length_append, List.length_singleton, h]
    · rw [next_refresh hresult hfresh]
      exact h
    · rw [hends.tolerated, hends.waits, h]
  · rw [next_of_some hresult, h]

theorem tolerated_runOver (auth : String) (outcomes : List (StepOutcome α)) :
    (runOver policy auth outcomes).tolerated = (runOver policy auth outcomes).waits.length := by
  induction outcomes using List.reverseRecOn with
  | nil => rfl
  | append_singleton outcomes outcome ih =>
    rw [runOver, Runs.run_append]
    exact tolerated_next outcome ih

theorem waits_next (outcome : StepOutcome α) : run.waits <+: (run.next policy outcome).waits := by
  rcases hresult : run.result with _ | result
  · rcases next_cases policy hresult outcome with ⟨wait, rfl, hretry⟩ | ⟨newToken, rfl, hfresh⟩ | hends
    · rw [next_retry hresult hretry]
      exact List.prefix_append _ _
    · simp only [next_refresh hresult hfresh, List.prefix_refl]
    · simp only [hends.waits, List.prefix_refl]
  · simp only [next_of_some hresult, List.prefix_refl]

theorem waits_run (outcomes : List (StepOutcome α)) : run.waits <+: (Runs.run (next policy) run outcomes).waits := by
  induction outcomes generalizing run with
  | nil => exact List.prefix_refl _
  | cons outcome outcomes ih => exact (waits_next outcome).trans ih

theorem EndsAt.waits_run {outcome : StepOutcome α} (h : EndsAt policy run outcome) (after : List (StepOutcome α)) :
    (Runs.run (next policy) (run.next policy outcome) after).waits = run.waits := by
  obtain ⟨result, hresult⟩ := h.result
  rw [run_of_some hresult, h.waits]

theorem waits_run_of_retry {wait : Duration} (hgoing : run.result = none)
    (hretry : policy.next (run.attempts + 1) = .Retry wait) (after : List (StepOutcome α)) :
    run.waits ++ [wait] <+: (Runs.run (next policy) (run.next policy .TempFail) after).waits := by
  have hgrown := @waits_run _ policy (run.next policy .TempFail) after
  rw [next_retry hgoing hretry] at hgrown ⊢
  exact hgrown

theorem waits_run_ne_of_retry {wait : Duration} (hgoing : run.result = none)
    (hretry : policy.next (run.attempts + 1) = .Retry wait) (after : List (StepOutcome α)) :
    (Runs.run (next policy) (run.next policy .TempFail) after).waits ≠ run.waits := by
  intro heq
  have hle := (waits_run_of_retry hgoing hretry after).length_le
  rw [heq, List.length_append, List.length_singleton] at hle
  omega

theorem endsAt_of_refreshed (hgoing : run.result = none) (hrefreshed : run.authRefreshed = true)
    (outcome : StepOutcome α) (hwhy : policy.maxAttempts ≤ run.attempts + 1 ∨ outcome ≠ .TempFail) :
    EndsAt policy run outcome := by
  rcases next_cases policy hgoing outcome with ⟨wait, rfl, hretry⟩ | ⟨newToken, rfl, hfresh⟩ | hends
  · have hlt := RetryPolicy.lt_of_nextWait hretry
    rcases hwhy with hle | hne
    · omega
    · exact absurd rfl hne
  · rw [hrefreshed] at hfresh
    cases hfresh
  · exact hends

/-! ## The loop and its outcomes -/

theorem exec_runTurns {σ F : Type} [Inhabited F] (perform : σ → (e : UploadEffect) → F → e.Answer × σ)
    (op : String → Upload UploadErrorClass α) (turns : Nat) (s : σ) (hgoing : run.result = none)
    (hturns : policy.maxAttempts < run.attempts + turns) (hattempts : run.attempts ≤ policy.maxAttempts)
    (hfresh : run.authRefreshed = false → run.attempts < policy.maxAttempts) :
    ∃ outcomes, (Runs.run (next policy) run outcomes).result =
      some ((exec perform (runTurns policy op turns run.attempts run.authRefreshed run.auth).run [] s).1.map
        Prod.fst) := by
  induction turns generalizing run s with
  | zero => omega
  | succ turns ih =>
    unfold runTurns
    rw [exec_lift_bind]
    rcases (exec perform (op run.auth).run [] s).1 with (_ | _ | _) | value
    · dsimp only
      split
      · next hrefreshed =>
        refine ⟨[.Auth (.ok run.auth)], ?_⟩
        rw [Runs.run_cons, Runs.run_nil, next_of_none hgoing, turn_authAgain hrefreshed]
        rfl
      · next hrefreshed =>
        have hlt := hfresh (Bool.not_eq_true _ ▸ hrefreshed)
        rw [exec_lift_bind]
        rcases (exec perform (Prog.perform UploadEffect.refresh) [] _).1 with message | newToken
        · refine ⟨[.Auth (.error message)], ?_⟩
          rw [Runs.run_cons, Runs.run_nil, next_of_none hgoing, turn_refreshFailed (Bool.not_eq_true _ ▸ hrefreshed)]
          rfl
        · have hturn := @next_refresh _ policy _ hgoing (Bool.not_eq_true _ ▸ hrefreshed) newToken
          obtain ⟨outcomes, hrun⟩ := @ih (run.next policy (.Auth (.ok newToken)))
            (exec perform (Prog.perform UploadEffect.refresh) [] (exec perform (op run.auth).run [] s).2).2
            (by rw [hturn]; exact hgoing) (by rw [hturn]; dsimp only; omega) (by rw [hturn]; exact hlt)
            (by rw [hturn]; exact fun h => by cases h)
          refine ⟨.Auth (.ok newToken) :: outcomes, ?_⟩
          rw [Runs.run_cons, hrun, hturn]
    · exact ⟨[.PermFail], by rw [Runs.run_cons, Runs.run_nil, next_of_none hgoing]; rfl⟩
    · dsimp only
      split
      · next wait hretry =>
        have hlt := RetryPolicy.lt_of_nextWait hretry
        have hturn := next_retry hgoing hretry
        obtain ⟨outcomes, hrun⟩ := @ih (run.next policy .TempFail) (exec perform (op run.auth).run [] s).2
          (by rw [hturn]; exact hgoing) (by rw [hturn]; dsimp only; omega) (by rw [hturn]; exact hlt.le)
          (by rw [hturn]; exact fun _ => hlt)
        refine ⟨.TempFail :: outcomes, ?_⟩
        rw [Runs.run_cons, hrun, hturn]
      · next hgiveUp =>
        exact ⟨[.TempFail], by rw [Runs.run_cons, Runs.run_nil, next_of_none hgoing, turn, hgiveUp]; rfl⟩
    · exact ⟨[.Ok value], by rw [Runs.run_cons, Runs.run_nil, next_of_none hgoing]; rfl⟩

theorem exec_runStep {σ F : Type} [Inhabited F] (perform : σ → (e : UploadEffect) → F → e.Answer × σ)
    (op : String → Upload UploadErrorClass α) (auth : String) (s : σ) :
    ∃ outcomes, (runOver policy auth outcomes).result =
      some ((exec perform (runStep policy op auth).run [] s).1.map Prod.fst) :=
  @exec_runTurns _ policy { auth } _ _ _ perform op (policy.maxAttempts + 1) s rfl (by dsimp only; omega)
    (Nat.zero_le _) fun _ => policy.attempts_pos

end StepRun

/-! ## A refresh between two outcomes -/

namespace StepOutcome

variable {α : Type}

def isTempFail : StepOutcome α → Bool
  | .TempFail => true
  | _ => false

/-- The session is refreshed. -/
def refreshes : StepOutcome α → Bool
  | .Auth (.ok _) => true
  | _ => false

/-- The step goes on after each of these outcomes, as far as the budget allows. -/
def GoesOn (earlier : List (StepOutcome α)) : Prop :=
  (∀ outcome ∈ earlier, outcome.isTempFail ∨ outcome.refreshes) ∧ earlier.countP refreshes ≤ 1

/-- After these outcomes, none of them a refresh, the policy decides the same one attempt later. -/
def SameDecision (policy : RetryPolicy) (earlier : List (StepOutcome α)) : Prop :=
  (∀ outcome ∈ earlier, outcome.isTempFail) ∧ policy.next (earlier.length + 2) = policy.next (earlier.length + 1)

/-- For each `TempFail` of `after` that the step reaches and tolerates, it would decide the same one attempt later. -/
def SameLater (policy : RetryPolicy) (before after : List (StepOutcome α)) : Prop :=
  ∀ passed rest, after = passed ++ .TempFail :: rest → GoesOn (before ++ passed) →
    (before ++ passed).length + 1 < policy.maxAttempts → SameDecision policy (before ++ passed)

variable {policy : RetryPolicy} {before after : List (StepOutcome α)} {outcome : StepOutcome α}

theorem GoesOn.left (h : GoesOn (before ++ after)) : GoesOn before := by
  obtain ⟨hall, hcount⟩ := h
  rw [List.countP_append] at hcount
  exact ⟨fun outcome houtcome => hall outcome (List.mem_append_left _ houtcome), by omega⟩

@[simp]
theorem sameLater_nil : SameLater policy before [] := fun passed rest h => by simp at h

theorem sameLater_cons : SameLater policy before (outcome :: after) ↔
    (outcome = .TempFail → GoesOn before → before.length + 1 < policy.maxAttempts → SameDecision policy before) ∧
    SameLater policy (before ++ [outcome]) after := by
  constructor
  · intro h
    constructor
    · rintro rfl hgoes hlt
      simpa using h [] after rfl (by simpa using hgoes) (by simpa using hlt)
    · intro passed rest hafter hgoes
      simpa using h (outcome :: passed) rest (by rw [hafter]; rfl) (by simpa using hgoes)
  · rintro ⟨hhead, htail⟩ passed rest hafter hgoes
    rcases passed with _ | ⟨first, passed⟩
    · obtain ⟨houtcome, -⟩ := List.cons.inj hafter
      simpa using hhead houtcome (by simpa using hgoes)
    · obtain ⟨rfl, hrest⟩ := List.cons.inj hafter
      simpa using htail passed rest hrest (by simpa using hgoes)

theorem sameLater_of_ended (h : GoesOn before → policy.maxAttempts ≤ before.length) :
    SameLater policy before after := by
  intro passed rest _ hgoes hlt
  have hle := h hgoes.left
  rw [List.length_append] at hlt
  omega

end StepOutcome

namespace StepRun

variable {α : Type} {policy : RetryPolicy} {run run' : StepRun α} {before after : List (StepOutcome α)}

open StepOutcome

/-- The loop has met these outcomes and is still going. -/
structure Going (before : List (StepOutcome α)) (run : StepRun α) : Prop where
  result : run.result = none
  attempts : run.attempts = before.length
  refreshed : run.authRefreshed = before.any refreshes
  goesOn : GoesOn before

theorem Going.start (auth : String) : Going [] ({ auth } : StepRun α) :=
  ⟨rfl, rfl, rfl, by simp, Nat.zero_le _⟩

theorem Going.allTempFail (h : Going before run) (hfresh : run.authRefreshed = false) :
    ∀ outcome ∈ before, outcome.isTempFail := by
  intro outcome houtcome
  rcases h.goesOn.1 outcome houtcome with htemp | hrefreshes
  · exact htemp
  · have hany : before.any refreshes = true := List.any_eq_true.mpr ⟨outcome, houtcome, hrefreshes⟩
    rw [← h.refreshed, hfresh] at hany
    cases hany

theorem Going.sameDecision_iff (h : Going before run) (hfresh : run.authRefreshed = false) :
    SameDecision policy before ↔ policy.next (run.attempts + 1 + 1) = policy.next (run.attempts + 1) := by
  rw [SameDecision, h.attempts]
  exact and_iff_right (h.allTempFail hfresh)

theorem Going.retry {wait : Duration} (h : Going before run) (hretry : policy.next (run.attempts + 1) = .Retry wait) :
    Going (before ++ [.TempFail]) (run.next policy .TempFail) := by
  rw [next_retry h.result hretry]
  refine ⟨h.result, ?_, ?_, ?_, ?_⟩
  · simp [h.attempts]
  · simp [h.refreshed, refreshes]
  · intro outcome houtcome
    rcases List.mem_append.mp houtcome with houtcome | houtcome
    · exact h.goesOn.1 outcome houtcome
    · rw [List.mem_singleton.mp houtcome]
      exact .inl rfl
  · simpa [List.countP_append, refreshes] using h.goesOn.2

theorem Going.refresh (h : Going before run) (hfresh : run.authRefreshed = false) (newToken : String) :
    Going (before ++ [.Auth (.ok newToken)]) (run.next policy (.Auth (.ok newToken))) := by
  rw [next_refresh h.result hfresh]
  have hnone : before.countP refreshes = 0 := by
    rw [List.countP_eq_zero]
    intro outcome houtcome hrefreshes
    have htemp := h.allTempFail hfresh outcome houtcome
    cases outcome <;> simp_all [isTempFail, refreshes]
  refine ⟨h.result, ?_, ?_, ?_, ?_⟩
  · simp [h.attempts]
  · simp [refreshes]
  · intro outcome houtcome
    rcases List.mem_append.mp houtcome with houtcome | houtcome
    · exact h.goesOn.1 outcome houtcome
    · rw [List.mem_singleton.mp houtcome]
      exact .inr rfl
  · simp [List.countP_append, hnone, refreshes]

theorem Going.exhausted (h : Going before run) {outcome : StepOutcome α} (hends : EndsAt policy run outcome) :
    GoesOn (before ++ [outcome]) → policy.maxAttempts ≤ (before ++ [outcome]).length := by
  rintro ⟨hall, hcount⟩
  have hlast : outcome.isTempFail ∨ outcome.refreshes := hall outcome (by simp)
  rcases outcome with value | _ | _ | (message | newToken)
  · rcases hlast with hlast | hlast <;> cases hlast
  · rcases hlast with hlast | hlast <;> cases hlast
  · rw [List.length_append, List.length_singleton, ← h.attempts]
    exact hends.giveUp rfl
  · rcases hlast with hlast | hlast <;> cases hlast
  · have hany := hends.refreshed newToken rfl
    rw [h.refreshed, List.any_eq_true] at hany
    have hpos : 0 < before.countP refreshes := List.countP_pos_iff.mpr hany
    rw [List.countP_append, List.countP_singleton] at hcount
    simp only [refreshes, ↓reduceIte] at hcount
    omega

theorem going_or_ended (auth : String) (before : List (StepOutcome α)) :
    Going before (runOver policy auth before) ∨
      (∃ result, (runOver policy auth before).result = some result) ∧
        (GoesOn before → policy.maxAttempts ≤ before.length) := by
  induction before using List.reverseRecOn with
  | nil => exact .inl (.start auth)
  | append_singleton before outcome ih =>
    rw [runOver, Runs.run_append]
    show Going _ ((runOver policy auth before).next policy outcome) ∨ _
    rcases ih with hgoing | ⟨⟨result, hresult⟩, hexhausted⟩
    · rcases next_cases policy hgoing.result outcome with ⟨wait, rfl, hretry⟩ | ⟨newToken, rfl, hfresh⟩ | hends
      · exact .inl (hgoing.retry hretry)
      · exact .inl (hgoing.refresh hfresh newToken)
      · exact .inr ⟨hends.result, hgoing.exhausted hends⟩
    · refine .inr ⟨⟨result, by rw [Runs.run_cons, Runs.run_nil]; exact (next_of_some hresult _).symm ▸ hresult⟩, ?_⟩
      intro hgoes
      have hle := hexhausted hgoes.left
      rw [List.length_append]
      omega

theorem Going.sameLater_of_endsAt (h : Going before run) {outcome : StepOutcome α} (hends : EndsAt policy run outcome)
    (after : List (StepOutcome α)) : SameLater policy before (outcome :: after) := by
  refine sameLater_cons.mpr ⟨?_, sameLater_of_ended (h.exhausted hends)⟩
  rintro rfl - hlt
  have hle := hends.giveUp rfl
  rw [h.attempts] at hle
  omega

theorem waits_eq_iff_of_refreshed (h : Going before run) (hrefreshed : run.authRefreshed = true)
    (after : List (StepOutcome α)) :
    (Runs.run (next policy) run after).waits = run.waits ↔ SameLater policy before after := by
  rcases after with _ | ⟨outcome, after⟩
  · exact iff_of_true rfl sameLater_nil
  rw [Runs.run_cons]
  rcases next_cases policy h.result outcome with ⟨wait, rfl, hretry⟩ | ⟨newToken, rfl, hfresh⟩ | hends
  · refine iff_of_false (waits_run_ne_of_retry h.result hretry after) ?_
    intro hsame
    have hlt := RetryPolicy.lt_of_nextWait hretry
    have hall := ((sameLater_cons.mp hsame).1 rfl h.goesOn (h.attempts ▸ hlt)).1
    rw [h.refreshed, List.any_eq_true] at hrefreshed
    obtain ⟨outcome, houtcome, hrefreshes⟩ := hrefreshed
    have htemp := hall outcome houtcome
    cases outcome <;> simp_all [isTempFail, refreshes]
  · rw [hrefreshed] at hfresh
    cases hfresh
  · exact iff_of_true (hends.waits_run after) (h.sameLater_of_endsAt hends after)

theorem eq_of_waits_run_eq {wait wait' : Duration} (hgoing : run.result = none) (hgoing' : run'.result = none)
    (hretry : policy.next (run.attempts + 1) = .Retry wait)
    (hretry' : policy.next (run'.attempts + 1) = .Retry wait') (hwaits : run'.waits = run.waits)
    {after : List (StepOutcome α)}
    (heq : (Runs.run (next policy) (run'.next policy .TempFail) after).waits =
      (Runs.run (next policy) (run.next policy .TempFail) after).waits) : wait' = wait := by
  have hgrown := waits_run_of_retry hgoing hretry after
  have hgrown' := waits_run_of_retry hgoing' hretry' after
  rw [heq, hwaits] at hgrown'
  have hboth := List.prefix_of_prefix_length_le hgrown' hgrown (by simp)
  exact List.singleton_inj.mp (List.append_cancel_left (hboth.eq_of_length (by simp)))

/-- The run with the refresh is one attempt ahead. -/
theorem waits_eq_iff_of_ahead (h : Going before run) (hfresh : run.authRefreshed = false)
    (hgoing : run'.result = none) (hattempts : run'.attempts = run.attempts + 1)
    (hrefreshed : run'.authRefreshed = true) (hwaits : run'.waits = run.waits) (after : List (StepOutcome α)) :
    (Runs.run (next policy) run' after).waits = (Runs.run (next policy) run after).waits ↔
      SameLater policy before after := by
  induction after generalizing run run' before with
  | nil => exact iff_of_true hwaits sameLater_nil
  | cons outcome after ih =>
    rw [Runs.run_cons, Runs.run_cons]
    rcases next_cases policy h.result outcome with ⟨wait, rfl, hretry⟩ | ⟨newToken, rfl, hfresh'⟩ | hends
    · have hlt := RetryPolicy.lt_of_nextWait hretry
      have hhead : (StepOutcome.TempFail (α := α) = .TempFail → GoesOn before →
          before.length + 1 < policy.maxAttempts → SameDecision policy before) ↔
          policy.next (run'.attempts + 1) = .Retry wait := by
        rw [hattempts, ← hretry, ← h.sameDecision_iff hfresh]
        exact ⟨fun hsame => hsame rfl h.goesOn (h.attempts ▸ hlt), fun hsame _ _ _ => hsame⟩
      rw [sameLater_cons, hhead]
      rcases hnext : policy.next (run'.attempts + 1) with wait' | _
      · have hstep := next_retry h.result hretry
        have hstep' := next_retry hgoing hnext
        by_cases hwait : wait' = wait
        · rw [hwait, and_iff_right rfl]
          exact ih (h.retry hretry) (by rw [hstep, hfresh]) (by rw [hstep', hgoing])
            (by rw [hstep, hstep', hattempts]) (by rw [hstep', hrefreshed]) (by rw [hstep, hstep', hwaits, hwait])
        · refine iff_of_false (fun heq => hwait ?_) fun hsame => hwait (RetryDecision.Retry.inj hsame.1)
          exact eq_of_waits_run_eq h.result hgoing hretry hnext hwaits heq
      · have hends := endsAt_of_refreshed hgoing hrefreshed .TempFail (.inl (RetryPolicy.le_of_next hnext))
        rw [hends.waits_run, hwaits]
        refine iff_of_false (fun heq => waits_run_ne_of_retry h.result hretry after heq.symm) ?_
        rintro ⟨hsame, -⟩
        cases hsame
    · -- The step with the refresh has none left.
      have hends := @endsAt_of_refreshed _ policy _ hgoing hrefreshed (.Auth (.ok newToken)) (.inr (by simp))
      have hnext := @Going.refresh _ policy _ _ h hfresh newToken
      have hiff := @waits_eq_iff_of_refreshed _ policy _ _ hnext (by rw [next_refresh h.result hfresh]) after
      rw [hends.waits_run, hwaits, eq_comm, sameLater_cons, and_iff_right fun h => by cases h]
      rwa [show (run.next policy (.Auth (.ok newToken))).waits = run.waits by
        rw [next_refresh h.result hfresh]] at hiff
    · have hwhy : policy.maxAttempts ≤ run'.attempts + 1 ∨ outcome ≠ .TempFail := by
        by_cases htemp : outcome = .TempFail
        · have hle := hends.giveUp htemp
          exact .inl (by omega)
        · exact .inr htemp
      rw [hends.waits_run, (endsAt_of_refreshed hgoing hrefreshed outcome hwhy).waits_run]
      exact iff_of_true hwaits (h.sameLater_of_endsAt hends after)

/-- The step tolerates as many failures with a refresh after `before` as without it, and waits as long. -/
def RefreshIsFree (policy : RetryPolicy) (auth newToken : String) (before after : List (StepOutcome α)) : Prop :=
  let refreshed := runOver policy auth (before ++ .Auth (.ok newToken) :: after)
  let plain := runOver policy auth (before ++ after)
  refreshed.tolerated = plain.tolerated ∧ refreshed.waits = plain.waits

theorem refreshIsFree_iff (policy : RetryPolicy) (auth newToken : String) (before after : List (StepOutcome α)) :
    RefreshIsFree policy auth newToken before after ↔ SameLater policy before after := by
  have hwaits : RefreshIsFree policy auth newToken before after ↔
      (runOver policy auth (before ++ .Auth (.ok newToken) :: after)).waits =
        (runOver policy auth (before ++ after)).waits := by
    rw [RefreshIsFree, tolerated_runOver, tolerated_runOver]
    exact ⟨fun h => h.2, fun h => ⟨congrArg List.length h, h⟩⟩
  rw [hwaits, runOver, runOver, Runs.run_append, Runs.run_append, Runs.run_cons]
  show (Runs.run _ ((runOver policy auth before).next policy _) after).waits =
    (Runs.run _ (runOver policy auth before) after).waits ↔ _
  rcases @going_or_ended _ policy auth before with hgoing | ⟨⟨result, hresult⟩, hexhausted⟩
  · rcases hfresh : (runOver policy auth before).authRefreshed with _ | _
    · have hnext := @next_refresh _ policy _ hgoing.result hfresh newToken
      exact waits_eq_iff_of_ahead hgoing hfresh (by rw [hnext, hgoing.result]) (by rw [hnext]) (by rw [hnext])
        (by rw [hnext]) after
    · have hturn := @turn_authAgain _ policy _ hfresh (.ok newToken)
      have hends : EndsAt policy (runOver policy auth before) (.Auth (.ok newToken)) :=
        .of_turn hgoing.result hturn (fun h => by cases h) fun _ _ => hfresh
      rw [hends.waits_run, eq_comm]
      exact waits_eq_iff_of_refreshed hgoing hfresh after
  · rw [next_of_some hresult]
    exact iff_of_true rfl (sameLater_of_ended hexhausted)

def defaultMaxAttempts : Nat := 5

def defaultRetryDelay : Duration := 2000 * 1000000

/-- The policy of `with_defaults`. -/
def withDefaults : RetryPolicy where
  maxAttempts := defaultMaxAttempts
  computeWait _ := defaultRetryDelay
  attempts_pos := Nat.succ_pos 4

/-- With these, four failures are tolerated, and three after a refresh. -/
theorem not_refreshIsFree : ¬∀ (policy : RetryPolicy) (auth newToken : String)
    (before after : List (StepOutcome UInt64)), RefreshIsFree policy auth newToken before after := by
  intro h
  have hfree := (h withDefaults "old" "new" [] [.TempFail, .TempFail, .TempFail, .TempFail, .Ok 7]).1
  revert hfree
  decide

end StepRun

end Pcloud.UploadState
