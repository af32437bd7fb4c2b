import Pcloud.Daemon.SignInRuns

/-!
# The timers of a session over runs
-/

namespace Pcloud.Auth

open Runs

namespace RuntimeShell

variable {shell : RuntimeShell} {faults : Faults}

/-! ## Idle time -/

/-- Idle time runs from the login or the last refresh, so a limit that the refresh is not due
before ends every session that a tick would renew. -/
theorem evaluate_ne_refresh {policy : RefreshPolicy} {session : SessionManager} (h : Timed policy session)
    {maxIdle nowSecs : Nat} (hidle : policy.maxIdle = some maxIdle)
    (hlimit : asSecs maxIdle ≤ policy.refreshAfterSecs) (hnow : nowSecs ≤ u64Max) :
    evaluate policy nowSecs session ≠ .refresh := by
  unfold evaluate
  cases hlifecycle : session.lifecycle with
  | none => simp
  | some lifecycle =>
    obtain ⟨hused, hexpires⟩ := h lifecycle hlifecycle
    dsimp only
    split
    · decide
    · rename_i hlive
      split
      · decide
      · rename_i hactive
        split
        · rename_i hdue
          -- Not idle means not due, unless the clock is at its end, where the session has expired.
          simp only [SessionLifecycle.isExpired, hexpires, decide_eq_true_eq] at hlive
          simp only [SessionLifecycle.isIdleExpired, hidle, hused, decide_eq_true_eq] at hactive
          simp only [SessionLifecycle.shouldRefresh, decide_eq_true_eq] at hdue
          unfold satAdd at hlive hdue
          omega
        · decide

/-- Where the idle limit is no longer than the time to the refresh, no tick of any run renews the
session or asks the server anything, whatever requests were served in between. -/
theorem allSteps_never_refreshes (setting : Setting) (calls : List Call) (maxIdle : Nat)
    (hidle : setting.policy.maxIdle = some maxIdle)
    (hlimit : asSecs maxIdle ≤ setting.policy.refreshAfterSecs)
    (hclock : ∀ call ∈ calls, call.nowSecs ≤ u64Max) :
    AllSteps (step setting) (fun shell call => ∀ inFlight answeredSecs,
      call.event = .refreshTick inFlight answeredSecs →
        (shell.step setting call).traffic = shell.traffic ∧
        ((shell.step setting call).auth = shell.auth ∨ (shell.step setting call).auth = .new)) fresh calls := by
  have hsteps : AllSteps (step setting) (fun _ call => call.nowSecs ≤ u64Max) fresh calls :=
    allSteps_of_calls hclock
  refine hsteps.mono_of_invariant (I := Trusted setting.policy) (.fresh _) (fun _ call h _ => h.step setting call) ?_
  rintro shell ⟨event, nowSecs, faults⟩ h hnow inFlight answeredSecs rfl
  unfold step
  dsimp only
  split
  · have hticked := ticked_tick setting.api setting.policy inFlight nowSecs answeredSecs shell.auth shell.traffic
    have hnever := evaluate_ne_refresh h.timed hidle hlimit hnow
    simp only [serve, refreshTick]
    generalize tick setting.api setting.policy inFlight nowSecs answeredSecs shell.auth shell.traffic = flow
      at hticked
    cases hticked with
    | rested outcome hharmless hdecided => exact ⟨rfl, .inl rfl⟩
    | revoked outcome hdecided => exact ⟨rfl, .inr rfl⟩
    | refreshed lifecycle current newToken hdecided htimed hheld hissued => exact absurd hdecided hnever
    | lost current result hdecided => exact absurd hdecided hnever
    | kept current result hdecided => exact absurd hdecided hnever
  · exact ⟨rfl, .inl rfl⟩

theorem allSteps_never_refreshes_signIn :
    AllSteps (step (steady 0)) (fun shell call => ∀ inFlight answeredSecs,
      call.event = .refreshTick inFlight answeredSecs →
        (shell.step (steady 0) call).traffic = shell.traffic ∧
        ((shell.step (steady 0) call).auth = shell.auth ∨ (shell.step (steady 0) call).auth = .new))
      fresh (signIn ++ [⟨.refreshTick false 61, 60, {}⟩, ⟨.refreshTick false 3001, 3000, {}⟩]) :=
  allSteps_never_refreshes (steady 0) _ (600 * nanosPerSec) rfl (by decide) (by simp [signIn, u64Max])

/-! ## How old a session can be -/

/-- The clock of the last call, and the last tick or start. -/
structure Watch where
  shell : RuntimeShell
  clock : Nat
  lastTick : Nat

/-- The clock when a call is done. A tick waits for the server. -/
def endSecs (call : Call) : Nat :=
  match call.event with
  | .refreshTick _ answeredSecs => answeredSecs
  | _ => call.nowSecs

def Watch.step (setting : Setting) (watch : Watch) (call : Call) : Watch where
  shell := watch.shell.step setting call
  clock := endSecs call
  lastTick :=
    match call.event with
    | .refreshTick _ _ | .restart _ _ => call.nowSecs
    | _ => watch.lastTick

/-- The process runs, and serves the call. -/
def Watch.Serves (watch : Watch) (call : Call) : Prop :=
  watch.shell.up ∧ ∀ config creds, call.event ≠ .restart config creds

/-- The clock does not go back, and a process that runs has a tick at least once in every period. -/
structure Punctual (period : Nat) (watch : Watch) (call : Call) : Prop where
  onward : watch.clock ≤ call.nowSecs
  within : call.nowSecs ≤ endSecs call
  ticked : watch.Serves call → call.nowSecs ≤ watch.lastTick + period

/-! ### What a request does to the timers -/

/-- The timers of a session are kept, dropped, or set anew. -/
def Rewinds (policy : RefreshPolicy) (nowSecs : Nat) (session session' : SessionManager) : Prop :=
  session'.lifecycle = session.lifecycle ∨ session'.lifecycle = none ∨
    session'.lifecycle = some (.new nowSecs policy false)

theorem Rewinds.of_eq {policy : RefreshPolicy} {nowSecs : Nat} {a b c : SessionManager}
    (h : Rewinds policy nowSecs b c) (hlifecycle : b.lifecycle = a.lifecycle ∨ b.lifecycle = none) :
    Rewinds policy nowSecs a c := by
  rcases h with h | h | h
  · rcases hlifecycle with ha | ha
    · exact .inl (h.trans ha)
    · exact .inr (.inl (h.trans ha))
  · exact .inr (.inl h)
  · exact .inr (.inr h)

section

variable {policy : RefreshPolicy} {nowSecs : Nat} {api : AuthApi}

theorem authResponse_rewinds (shell : RuntimeShell) (faults : Faults) (event : AuthEvent) :
    Rewinds policy nowSecs shell.auth (shell.authResponse faults policy nowSecs event).2.auth := by
  obtain ⟨after, hafter, hpersisted⟩ := authResponse_cases shell faults policy nowSecs event
  rw [hpersisted, (persistAuthState_persists _ faults).auth]
  rcases hafter with ⟨userId, -, rfl⟩ | rfl | rfl
  · exact .inr (.inr rfl)
  · exact .inl rfl
  · exact .inl rfl

theorem answer_rewinds {onFailed : Option String → AuthCommand} {command : AuthCommand}
    {flow : Flowed AuthFlowError AuthEvent}
    (hflow : ProtocolAuthFlow.Settles onFailed (shell.auth.apply command).2 shell.traffic flow)
    (faults : Faults) :
    Rewinds policy nowSecs shell.auth (shell.answer faults policy nowSecs flow).2.auth := by
  have hkept : flow.2.1.lifecycle = shell.auth.lifecycle ∨ flow.2.1.lifecycle = none := by
    rcases hflow.1.lifecycle with h | h
    · rw [h]; exact shell.auth.apply_lifecycle command
    · exact .inr h
  obtain ⟨result, auth, traffic⟩ := flow
  cases result with
  | error err => exact Rewinds.of_eq (.inl rfl) hkept
  | ok event => exact (authResponse_rewinds _ faults event).of_eq hkept

theorem syncBootstrapAuthState_lifecycle (h : shell.auth.lifecycle = none) (faults : Faults) (fileVault : Bool) :
    (shell.syncBootstrapAuthState faults fileVault).auth.lifecycle = none := by
  rcases syncBootstrapAuthState_cases shell faults fileVault with hp | ⟨after, -, hexited⟩
  · rw [hp.auth]; exact h
  · rw [hexited]; rfl

theorem settled_lifecycle {onFailed : Option String → AuthCommand} {command : AuthCommand}
    {flow : Flowed AuthFlowError AuthEvent} (h : shell.auth.lifecycle = none)
    (hflow : ProtocolAuthFlow.Settles onFailed (shell.auth.apply command).2 shell.traffic flow) :
    (shell.settled flow).auth.lifecycle = none := by
  have hbegun : (shell.auth.apply command).2.lifecycle = none := by
    rcases shell.auth.apply_lifecycle command with hsame | hnone
    · rw [hsame, h]
    · exact hnone
  rcases hflow.1.lifecycle with hsame | hnone
  · exact hsame.trans hbegun
  · exact hnone

theorem submitBootstrapCode_lifecycle (h : shell.auth.lifecycle = none)
    (hpending : shell.auth.snapshot.pendingChallenge.isSome) (htrusted : Trusted policy shell)
    (faults : Faults) (fileVault : Bool) (code : String) (trustDevice recoveryCode : Bool) :
    (shell.submitBootstrapCode faults api fileVault code trustDevice recoveryCode).auth.lifecycle = none := by
  obtain ⟨challenge, hchallenge⟩ := Option.isSome_iff_exists.mp hpending
  have hsettled := settled_lifecycle h (ProtocolAuthFlow.submitTwoFactorCode_settles api hchallenge
    (htrusted.sound.challenge _ hchallenge) code trustDevice recoveryCode)
  unfold submitBootstrapCode
  dsimp only
  split
  · rfl
  · exact syncBootstrapAuthState_lifecycle hsettled faults _

theorem applyBootstrapCredentials_lifecycle (h : Trusted policy shell) (hnone : shell.auth.lifecycle = none)
    (faults : Faults) (api : AuthApi) (fileVault : Bool) (creds : BootstrapCredentials) :
    (shell.applyBootstrapCredentials faults api fileVault creds).auth.lifecycle = none := by
  unfold applyBootstrapCredentials
  split
  · rename_i token htoken
    have hsettled := settled_lifecycle hnone (ProtocolAuthFlow.loginWithToken_settles api token)
    dsimp only
    split
    · rfl
    · exact syncBootstrapAuthState_lifecycle hsettled faults _
  · split
    · rename_i username password hname hpassword
      have hflow := @ProtocolAuthFlow.loginWithPassword_settles api shell.auth shell.traffic username password
      have hsettled := settled_lifecycle hnone hflow
      have htrusted := h.started ProtocolAuthFlow.refusesWith_failed (by simp) hflow
      dsimp only
      split
      · rfl
      · split
        · rename_i hpending
          split
          · exact submitBootstrapCode_lifecycle hsettled hpending htrusted ..
          · exact submitBootstrapCode_lifecycle hsettled hpending htrusted ..
          · rfl
        · exact syncBootstrapAuthState_lifecycle hsettled faults _
    · rfl

theorem restoreFromVault_lifecycle (hnone : shell.auth.lifecycle = none) (faults : Faults) (api : AuthApi)
    (fileVault : Bool) : (shell.restoreFromVault faults api fileVault).auth.lifecycle = none := by
  unfold restoreFromVault
  split
  · exact hnone
  · split
    · rfl
    · split
      · exact hnone
      · rename_i token htoken
        have hsettled := settled_lifecycle hnone (ProtocolAuthFlow.loginWithToken_settles api token)
        dsimp only
        split
        · exact syncBootstrapAuthState_lifecycle hsettled faults _
        · rw [← writeVault_auth _ fileVault none faults.vault] at hsettled
          generalize writeVault _ fileVault none faults.vault = written at hsettled
          split
          · split
            · rw [persistProfile_auth]
              exact hsettled
            · rfl
          · rfl

theorem bootstrap_lifecycle (h : Trusted policy shell) (faults : Faults) (api : AuthApi) (config : StartConfig)
    (creds : BootstrapCredentials) : (shell.bootstrap faults api config creds).auth.lifecycle = none := by
  unfold bootstrap
  dsimp only
  split
  · exact applyBootstrapCredentials_lifecycle (h.reopened config.durable) rfl faults api config.fileVault creds
  · exact restoreFromVault_lifecycle rfl faults api config.fileVault

end

theorem serve_rewinds (setting : Setting) (h : Trusted setting.policy shell) {call : Call}
    (hcall : ∀ inFlight answeredSecs, call.event ≠ .refreshTick inFlight answeredSecs) :
    Rewinds setting.policy call.nowSecs shell.auth (shell.serve setting call).auth := by
  obtain ⟨api, policy⟩ := setting
  obtain ⟨event, nowSecs, faults⟩ := call
  cases event with
  | loginBegin => exact .inl rfl
  | passwordSubmission username password =>
    have hflow := @ProtocolAuthFlow.loginWithPassword_settles api shell.auth shell.traffic username password
    have hkept := hflow.1.lifecycle
    simp only [serve, passwordSubmission]
    split
    · rename_i event auth traffic hlogin
      rw [hlogin] at hkept
      exact (authResponse_rewinds _ faults event).of_eq hkept
    · rename_i err auth traffic hlogin
      rw [hlogin] at hkept
      exact Rewinds.of_eq (.inl rfl) hkept
  | authTokenSubmission token =>
    exact answer_rewinds (ProtocolAuthFlow.loginWithToken_settles api token) faults
  | twoFactorCodeSubmission code trustDevice recoveryCode =>
    simp only [serve, twoFactorCodeSubmission, twoFactorFlow]
    cases hchallenge : shell.auth.snapshot.pendingChallenge with
    | none =>
      rw [if_neg (by simp), (ProtocolAuthFlow.submit_refused api hchallenge "" "" code trustDevice recoveryCode).1]
      exact .inl rfl
    | some challenge =>
      have hissued := h.sound.challenge _ hchallenge
      split
      · rename_i hempty
        have htoken : challenge.token = "" := by simpa using hempty
        rw [htoken] at hissued
        cases shell.pendingPasswordAuth with
        | none => exact .inl rfl
        | some pending =>
          exact answer_rewinds
            (ProtocolAuthFlow.submitTwoFactorCodeWithPassword_settles api hchallenge hissued ..) faults
      · exact answer_rewinds (ProtocolAuthFlow.submitTwoFactorCode_settles api hchallenge hissued ..) faults
  | logout =>
    simp only [serve, logout_eq]
    rw [(persistAuthState_persists shell.cleared faults).auth]
    exact .inr (.inl rfl)
  | getUserInfo =>
    simp only [serve]
    rcases fetchUserinfo_auth shell faults api with hsame | ⟨userId, email, hupdated⟩
    · rw [hsame]; exact .inl rfl
    · rw [hupdated]; exact .inl (shell.auth.updateUserinfo_keeps userId email).2.2.2
  | accountChangePassword currentPassword newPassword =>
    simp only [serve, accountChangePassword]
    split
    · exact .inl rfl
    · split
      · exact .inl rfl
      · split
        · exact .inl rfl
        · rename_i newToken traffic hchange
          have hmarked := shell.auth.apply_lifecycle
            (.markAuthenticated shell.auth.snapshot.authenticatedUser newToken)
          split <;> rename_i hmark <;> rw [hmark] at hmarked <;> exact hmarked.imp_right .inl
  | authPersistence enabled => exact .inl (by rw [serve, (setAuthPersistence_persists shell faults enabled).auth])
  | refreshTick inFlight answeredSecs => exact absurd rfl (hcall inFlight answeredSecs)
  | restart config creds => exact .inr (.inl (bootstrap_lifecycle h faults api config creds))

/-! ### The bound -/

theorem evaluate_live {policy : RefreshPolicy} {nowSecs : Nat} {session : SessionManager}
    {lifecycle : SessionLifecycle} (hlifecycle : session.lifecycle = some lifecycle)
    (h : evaluate policy nowSecs session ≠ .expired) : nowSecs < lifecycle.expiresAt := by
  by_contra hpast
  apply h
  have hexpired : lifecycle.isExpired nowSecs := by simpa [SessionLifecycle.isExpired] using hpast
  simp only [evaluate, hlifecycle, if_pos hexpired]

theorem ticked_live {api : AuthApi} {policy : RefreshPolicy} {nowSecs answeredSecs : Nat}
    {session : SessionManager} {traffic : Traffic} {flow : Flowed RefreshLoopError TickOutcome}
    (htimed : Timed policy session) (hlifetime : 0 < asSecs policy.lifetime) (hwithin : nowSecs ≤ answeredSecs)
    (hticked : Ticked api policy nowSecs answeredSecs session traffic flow)
    {lifecycle : SessionLifecycle} (hlifecycle : flow.2.1.lifecycle = some lifecycle) :
    nowSecs < lifecycle.establishedAt + asSecs policy.lifetime := by
  have hlive : ∀ {lifecycle : SessionLifecycle}, session.lifecycle = some lifecycle →
      evaluate policy nowSecs session ≠ .expired →
      nowSecs < lifecycle.establishedAt + asSecs policy.lifetime := by
    intro lifecycle hsame hdecided
    have hbefore := evaluate_live hsame hdecided
    rw [(htimed lifecycle hsame).2] at hbefore
    unfold satAdd at hbefore
    omega
  cases hticked with
  | rested outcome hharmless hdecided =>
    refine hlive hlifecycle fun hexpired => ?_
    rw [hexpired] at hdecided
    simp at hdecided
  | revoked outcome hdecided => cases hlifecycle
  | refreshed before current newToken hdecided htimed hheld hissued =>
    obtain rfl := Option.some.inj hlifecycle
    show nowSecs < answeredSecs + asSecs policy.lifetime
    omega
  | lost current result hdecided => cases hlifecycle
  | kept current result hdecided =>
    refine hlive hlifecycle fun hexpired => ?_
    rw [hexpired] at hdecided
    cases hdecided

/-- The timers of a process that runs end after its last tick. -/
structure Live (policy : RefreshPolicy) (watch : Watch) : Prop where
  trusted : Trusted policy watch.shell
  order : watch.lastTick ≤ watch.clock
  live : watch.shell.up → ∀ lifecycle, watch.shell.auth.lifecycle = some lifecycle →
    watch.lastTick < lifecycle.establishedAt + asSecs policy.lifetime

theorem Live.step {setting : Setting} {period : Nat} {watch : Watch} {call : Call}
    (hlifetime : 0 < asSecs setting.policy.lifetime) (h : Live setting.policy watch)
    (hcall : Punctual period watch call) : Live setting.policy (watch.step setting call) := by
  have honward := hcall.onward
  have hwithin := hcall.within
  have horder := h.order
  refine ⟨h.trusted.step setting call, ?_, ?_⟩
  · unfold Watch.step
    dsimp only
    split <;> omega
  · intro hup lifecycle hlifecycle
    obtain ⟨event, nowSecs, faults⟩ := call
    by_cases htick : ∃ inFlight answeredSecs, event = .refreshTick inFlight answeredSecs
    · obtain ⟨inFlight, answeredSecs, rfl⟩ := htick
      simp only [Watch.step, RuntimeShell.step] at hup hlifecycle ⊢
      split at hlifecycle
      · exact ticked_live h.trusted.timed hlifetime hwithin
          (ticked_tick setting.api setting.policy inFlight nowSecs answeredSecs watch.shell.auth
            watch.shell.traffic) hlifecycle
      · rename_i hdown
        rw [if_neg hdown] at hup
        exact absurd hup hdown
    · have hserve := @serve_rewinds _ setting h.trusted ⟨event, nowSecs, faults⟩
        fun inFlight answeredSecs hevent => htick ⟨inFlight, answeredSecs, hevent⟩
      by_cases hrestart : ∃ config creds, event = .restart config creds
      · obtain ⟨config, creds, rfl⟩ := hrestart
        have hnone := bootstrap_lifecycle h.trusted faults setting.api config creds
        simp only [Watch.step, RuntimeShell.step, serve] at hlifecycle
        rw [hnone] at hlifecycle
        cases hlifecycle
      · have hlast : (watch.step setting ⟨event, nowSecs, faults⟩).lastTick = watch.lastTick := by
          unfold Watch.step
          dsimp only
          split
          · rename_i inFlight answeredSecs
            exact absurd ⟨inFlight, answeredSecs, rfl⟩ htick
          · rename_i config creds
            exact absurd ⟨config, creds, rfl⟩ hrestart
          · rfl
        rw [hlast]
        have hstep : watch.shell.up ∧ (watch.step setting ⟨event, nowSecs, faults⟩).shell =
            watch.shell.serve setting ⟨event, nowSecs, faults⟩ := by
          unfold Watch.step RuntimeShell.step at hup ⊢
          dsimp only at hup ⊢
          split at hup
          · rename_i config creds
            exact absurd ⟨config, creds, rfl⟩ hrestart
          · split at hup
            · rename_i hrunning
              exact ⟨hrunning, if_pos hrunning⟩
            · rename_i hdown
              exact absurd hup hdown
        rw [hstep.2] at hlifecycle
        rcases hserve with hsame | hnone | hnew
        · exact h.live hstep.1 lifecycle (hsame ▸ hlifecycle)
        · rw [hnone] at hlifecycle
          cases hlifecycle
        · rw [hnew] at hlifecycle
          obtain rfl := Option.some.inj hlifecycle
          show watch.lastTick < nowSecs + asSecs setting.policy.lifetime
          simp only at honward
          omega

/-- Where a process that runs has a tick at least once in every period, it serves no request in a
session whose login or last refresh is a lifetime and a period ago. -/
theorem allSteps_young (setting : Setting) (period : Nat) (calls : List Call)
    (hlifetime : 0 < asSecs setting.policy.lifetime)
    (hcalls : AllSteps (Watch.step setting) (Punctual period) ⟨fresh, 0, 0⟩ calls) :
    AllSteps (Watch.step setting) (fun watch call => watch.Serves call → ∀ lifecycle,
      watch.shell.auth.lifecycle = some lifecycle →
        call.nowSecs < lifecycle.establishedAt + asSecs setting.policy.lifetime + period)
      ⟨fresh, 0, 0⟩ calls := by
  refine hcalls.mono_of_invariant (I := Live setting.policy) ⟨.fresh _, Nat.le_refl _, ?_⟩
    (fun _ _ h hcall => h.step hlifetime hcall) ?_
  · intro hup
    cases hup
  · intro watch call h hcall hserves lifecycle hlifecycle
    have hlive := h.live hserves.1 lifecycle hlifecycle
    have hticked := hcall.ticked hserves
    omega

theorem allSteps_young_minutely :
    AllSteps (Watch.step (steady 0)) (fun watch call => watch.Serves call → ∀ lifecycle,
      watch.shell.auth.lifecycle = some lifecycle →
        call.nowSecs < lifecycle.establishedAt + asSecs (steady 0).policy.lifetime + 60)
      ⟨fresh, 0, 0⟩
      [⟨.restart {} {}, 1000000, {}⟩, ⟨.authTokenSubmission "token", 1000010, {}⟩,
        ⟨.refreshTick false 1000061, 1000060, {}⟩, ⟨.restart {} {}, 2000000, {}⟩] := by
  refine allSteps_young (steady 0) 60 _ (by decide) ⟨⟨?_, ?_, ?_⟩, ⟨?_, ?_, ?_⟩, ⟨?_, ?_, ?_⟩,
    ⟨?_, ?_, ?_⟩, trivial⟩
  all_goals first | decide | exact fun hserves => absurd rfl (hserves.2 _ _) | exact fun _ => by decide

end RuntimeShell

end Pcloud.Auth
