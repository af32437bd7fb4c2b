import Pcloud.Daemon.SignInRuns

/-!
# The token file over runs, with token persistence off
-/

namespace Pcloud.Auth

open Runs

namespace RuntimeShell

variable {shell : RuntimeShell} {faults : Faults}

/-- Whether a token file may be there, by the saved preference, and where there is none by what the
configurations of the starts have said. -/
def Allows (ever : Prop) : Option Bool → Prop
  | some enabled => enabled = true
  | none => ever

structure Tidy (ever : Prop) (shell : RuntimeShell) : Prop where
  vault : shell.vault.isSome → Allows ever shell.saved.durableAuthTokensEnabled
  flag : shell.up → shell.durableAuthTokensEnabled → Allows ever shell.saved.durableAuthTokensEnabled
  store : shell.up → shell.store.durableAuthTokensEnabled = shell.saved.durableAuthTokensEnabled

/-- The disk does what it is told, up to the point where a failure would be undone. -/
structure Faults.Clean (faults : Faults) : Prop where
  load : faults.load = false
  vault : faults.vault = .done
  store : faults.store = false

theorem writeToken_some {durable : Bool} {file token : Option String}
    (h : (writeToken durable file token .done).2.isSome) : durable := by
  cases durable
  · cases token <;> cases h
  · rfl

namespace Tidy

variable {ever : Prop}

theorem of_eq (h : Tidy ever shell) {shell' : RuntimeShell} (hup : shell'.up → shell.up)
    (hvault : shell'.vault = shell.vault)
    (hdurable : shell'.durableAuthTokensEnabled = shell.durableAuthTokensEnabled)
    (hstore : shell'.store.durableAuthTokensEnabled = shell.store.durableAuthTokensEnabled)
    (hsaved : shell'.saved.durableAuthTokensEnabled = shell.saved.durableAuthTokensEnabled) :
    Tidy ever shell' := by
  refine ⟨?_, ?_, ?_⟩
  · rw [hvault, hsaved]; exact h.vault
  · rw [hdurable, hsaved]; exact fun hrunning => h.flag (hup hrunning)
  · rw [hstore, hsaved]; exact fun hrunning => h.store (hup hrunning)

theorem persistAuthState (h : Tidy ever shell) (hup : shell.up) (hclean : Faults.Clean faults) :
    Tidy ever (shell.persistAuthState faults).2 := by
  obtain ⟨load, vault, stale, store, restoreStore, restoreVault, audit⟩ := faults
  obtain ⟨rfl, rfl, rfl⟩ := hclean
  have hstore := h.store hup
  have hallows := h.flag hup
  simp only [RuntimeShell.persistAuthState, syncAuthVault, restoreVaultState, syncAccountStore, persistProfile,
    Bool.false_eq_true, if_false, if_true]
  split
  · refine ⟨fun hsome => ?_, fun _ => ?_, fun _ => rfl⟩
    · exact hstore ▸ hallows (writeToken_some hsome)
    · exact hstore ▸ hallows
  · exact ⟨fun hsome => hallows (writeToken_some hsome), h.flag, h.store⟩

theorem authResponse {policy : RefreshPolicy} {nowSecs : Nat} (h : Tidy ever shell) (hup : shell.up)
    (hclean : Faults.Clean faults) (event : AuthEvent) :
    Tidy ever (shell.authResponse faults policy nowSecs event).2 := by
  obtain ⟨after, hafter, hpersisted⟩ := authResponse_cases shell faults policy nowSecs event
  rw [hpersisted]
  rcases hafter with ⟨userId, -, rfl⟩ | rfl | rfl
  · exact persistAuthState (h.of_eq id rfl rfl rfl rfl) hup hclean
  · exact persistAuthState (h.of_eq id rfl rfl rfl rfl) hup hclean
  · exact persistAuthState h hup hclean

theorem answer {policy : RefreshPolicy} {nowSecs : Nat} (h : Tidy ever shell) (hup : shell.up)
    (hclean : Faults.Clean faults) (flow : Flowed AuthFlowError AuthEvent) :
    Tidy ever (shell.answer faults policy nowSecs flow).2 := by
  obtain ⟨result, auth, traffic⟩ := flow
  have hmoved : Tidy ever { shell with auth := auth, traffic := traffic } := h.of_eq id rfl rfl rfl rfl
  cases result with
  | error err => exact hmoved
  | ok event => exact hmoved.authResponse hup hclean event

theorem setAuthPersistence (shell : RuntimeShell) (hclean : Faults.Clean faults) (enabled : Bool) :
    Tidy ever (shell.setAuthPersistence faults enabled).2 := by
  obtain ⟨load, vault, stale, store, restoreStore, restoreVault, audit⟩ := faults
  obtain ⟨rfl, rfl, rfl⟩ := hclean
  have hdone : ∀ token, (writeToken enabled shell.vault token .done).1 = true := by
    intro token
    cases enabled <;> cases token <;> rfl
  simp only [RuntimeShell.setAuthPersistence, syncAuthVault, restoreVaultState, persistProfile, withDurable,
    Bool.false_eq_true, if_false, if_true, hdone]
  exact ⟨fun hsome => writeToken_some hsome, fun _ hon => hon, fun _ => rfl⟩

theorem exited (h : Tidy ever shell) : Tidy ever shell.exited :=
  ⟨h.vault, fun hup => (by cases hup), fun hup => (by cases hup)⟩

theorem settled (h : Tidy ever shell) (flow : Flowed AuthFlowError AuthEvent) :
    Tidy ever (shell.settled flow) := h.of_eq id rfl rfl rfl rfl

theorem writeVault (h : Tidy ever shell) (hup : shell.up) (hdurable : shell.durableAuthTokensEnabled)
    (fileVault : Bool) (token : Option String) (outcome : WriteOutcome) :
    Tidy ever (shell.writeVault fileVault token outcome).2 := by
  cases fileVault with
  | true => exact ⟨fun _ => h.flag hup hdurable, h.flag, h.store⟩
  | false => exact h.of_eq id rfl rfl rfl rfl

theorem persistProfile (h : Tidy ever shell) (hup : shell.up) (fails : Bool) :
    Tidy ever (shell.persistProfile fails).2 := by
  have hstore := h.store hup
  cases fails with
  | true => exact h
  | false => exact ⟨hstore ▸ h.vault, hstore ▸ h.flag, fun _ => rfl⟩

theorem syncBootstrapAuthState (h : Tidy ever shell) (hup : shell.up) (faults : Faults) (fileVault : Bool) :
    Tidy ever (shell.syncBootstrapAuthState faults fileVault) := by
  unfold RuntimeShell.syncBootstrapAuthState
  dsimp only
  set known : RuntimeShell := { shell with
    store := { shell.store with primaryAccount := desiredAccountRecord shell.auth } }
  have hknown : Tidy ever known := h.of_eq id rfl rfl rfl rfl
  have hsynced : Tidy ever (if known.durableAuthTokensEnabled then
      known.writeVault fileVault known.auth.snapshot.authToken faults.vault else (true, known)).2 := by
    split
    · rename_i hdurable
      exact hknown.writeVault hup hdurable ..
    · exact hknown
  have hrunning : (if known.durableAuthTokensEnabled then
      known.writeVault fileVault known.auth.snapshot.authToken faults.vault else (true, known)).2.up := by
    split
    · rw [writeVault_up]
      exact hup
    · exact hup
  set synced := if known.durableAuthTokensEnabled then
    known.writeVault fileVault known.auth.snapshot.authToken faults.vault else (true, known)
  split
  · split
    · exact hsynced.persistProfile hrunning _
    · exact (hsynced.persistProfile hrunning _).exited
  · exact hsynced.exited

theorem submitBootstrapCode (h : Tidy ever shell) (hup : shell.up) (faults : Faults) (api : AuthApi)
    (fileVault : Bool) (code : String) (trustDevice recoveryCode : Bool) :
    Tidy ever (shell.submitBootstrapCode faults api fileVault code trustDevice recoveryCode) := by
  unfold RuntimeShell.submitBootstrapCode
  dsimp only
  split
  · exact (h.settled _).exited
  · exact (h.settled _).syncBootstrapAuthState hup faults fileVault

theorem applyBootstrapCredentials (h : Tidy ever shell) (hup : shell.up) (faults : Faults) (api : AuthApi)
    (fileVault : Bool) (creds : BootstrapCredentials) :
    Tidy ever (shell.applyBootstrapCredentials faults api fileVault creds) := by
  unfold RuntimeShell.applyBootstrapCredentials
  split
  · dsimp only
    split
    · exact (h.settled _).exited
    · exact (h.settled _).syncBootstrapAuthState hup faults fileVault
  · split
    · dsimp only
      split
      · exact (h.settled _).exited
      · split
        · split
          · exact (h.settled _).submitBootstrapCode hup ..
          · exact (h.settled _).submitBootstrapCode hup ..
          · exact (h.settled _).exited
        · exact (h.settled _).syncBootstrapAuthState hup faults fileVault
    · exact h.exited

theorem restoreFromVault (h : Tidy ever shell) (hup : shell.up) (faults : Faults) (api : AuthApi)
    (fileVault : Bool) : Tidy ever (shell.restoreFromVault faults api fileVault) := by
  unfold RuntimeShell.restoreFromVault
  split
  · exact h
  · rename_i hdurable
    split
    · exact h.exited
    · split
      · exact h
      · rename_i token htoken
        dsimp only
        have hsettled := h.settled (ProtocolAuthFlow.loginWithToken api shell.auth shell.traffic token)
        split
        · exact hsettled.syncBootstrapAuthState hup faults fileVault
        · have hon : shell.durableAuthTokensEnabled := by simpa using hdurable
          have hwritten := hsettled.writeVault hup hon fileVault none faults.vault
          set flow := ProtocolAuthFlow.loginWithToken api shell.auth shell.traffic token
          have hrunning : ((shell.settled flow).writeVault fileVault none faults.vault).2.up := by
            rw [writeVault_up]
            exact hup
          have hstore : ((shell.settled flow).writeVault fileVault none faults.vault).2.store = shell.store :=
            writeVault_store ..
          generalize RuntimeShell.writeVault _ fileVault none faults.vault = written at hwritten hrunning hstore
          have hcleared : Tidy ever { written.2 with
              vault := (clearToken written.2.vault faults.stale).2
              store := { shell.store with primaryAccount := none } } := by
            refine ⟨?_, hwritten.flag, fun hup' => ?_⟩
            · exact clearToken_keeps
                (P := fun file => file.isSome → Allows ever written.2.saved.durableAuthTokensEnabled)
                (fun hnone => by cases hnone) hwritten.vault faults.stale
            · exact (congrArg (·.durableAuthTokensEnabled) hstore.symm).trans (hwritten.store hup')
          split
          · split
            · exact hcleared.persistProfile hrunning _
            · exact (hcleared.persistProfile hrunning _).exited
          · exact hwritten.exited

theorem reopened (h : Tidy ever shell) {durable : Bool} (hever : durable → ever) :
    Tidy ever (shell.reopened durable) := by
  refine ⟨h.vault, fun _ hon => ?_, fun _ => rfl⟩
  simp only [RuntimeShell.reopened] at hon ⊢
  cases hsaved : shell.saved.durableAuthTokensEnabled with
  | none => rw [hsaved] at hon; exact hever hon
  | some enabled => rw [hsaved] at hon; exact hon

theorem bootstrap (h : Tidy ever shell) (faults : Faults) (api : AuthApi) {config : StartConfig}
    (hever : config.durable → ever) (creds : BootstrapCredentials) :
    Tidy ever (shell.bootstrap faults api config creds) := by
  have hreopened := h.reopened hever
  unfold RuntimeShell.bootstrap
  dsimp only
  split
  · exact (hreopened.applyBootstrapCredentials rfl faults api config.fileVault creds).of_eq id rfl rfl rfl rfl
  · exact (hreopened.restoreFromVault rfl faults api config.fileVault).of_eq id rfl rfl rfl rfl

theorem step {setting : Setting} (h : Tidy ever shell) {call : Call} (hclean : Faults.Clean call.faults)
    (hever : ∀ config creds, call.event = .restart config creds → config.durable → ever) :
    Tidy ever (shell.step setting call) := by
  obtain ⟨api, policy⟩ := setting
  obtain ⟨event, nowSecs, faults⟩ := call
  by_cases hrestart : ∃ config creds, event = .restart config creds
  · obtain ⟨config, creds, rfl⟩ := hrestart
    exact h.bootstrap faults api (hever config creds rfl) creds
  · unfold RuntimeShell.step
    dsimp only
    split
    · exact absurd ⟨_, _, rfl⟩ hrestart
    · split
      · rename_i hup
        cases event with
        | loginBegin => exact h.of_eq id rfl rfl rfl rfl
        | passwordSubmission username password =>
          simp only [serve, passwordSubmission]
          split
          · rename_i event auth traffic hlogin
            have hmoved : Tidy ever { shell with
                auth := auth, traffic := traffic, pendingPasswordAuth := some ⟨username, password⟩ } :=
              h.of_eq id rfl rfl rfl rfl
            exact hmoved.authResponse hup hclean event
          · exact h.of_eq id rfl rfl rfl rfl
        | authTokenSubmission token => exact h.answer hup hclean _
        | twoFactorCodeSubmission code trustDevice recoveryCode => exact h.answer hup hclean _
        | logout =>
          have hcleared : Tidy ever shell.cleared := h.of_eq id rfl rfl rfl rfl
          simp only [serve, logout_eq]
          exact hcleared.persistAuthState hup hclean
        | getUserInfo =>
          simp only [serve, fetchUserinfo]
          split
          · exact h
          · split
            · exact h.of_eq id rfl rfl rfl rfl
            · rename_i info traffic hinfo
              split
              · exact h.of_eq id rfl rfl rfl rfl
              · rename_i auth hupdated
                have hmoved : Tidy ever { shell with
                    auth := auth, traffic := traffic
                    store := { shell.store with primaryAccount := desiredAccountRecord auth } } :=
                  h.of_eq id rfl rfl rfl rfl
                exact hmoved.persistProfile hup faults.store
        | accountChangePassword currentPassword newPassword =>
          simp only [serve, accountChangePassword]
          split
          · exact h
          · split
            · exact h
            · split
              · exact h.of_eq id rfl rfl rfl rfl
              · split <;> exact h.of_eq id rfl rfl rfl rfl
        | authPersistence enabled => exact setAuthPersistence shell hclean enabled
        | refreshTick inFlight answeredSecs => exact h.of_eq id rfl rfl rfl rfl
        | restart config creds => exact absurd ⟨config, creds, rfl⟩ hrestart
      · exact h

end Tidy

/-- A start of the run has token persistence on in its configuration. -/
def EverDurable (calls : List Call) : Prop :=
  ∃ call ∈ calls, ∃ config creds, call.event = .restart config creds ∧ config.durable

/-- A token file is there only where persistence is on by the saved preference, or where none is
saved and some start has had it on in its configuration. -/
theorem allStates_no_token_file (setting : Setting) (calls : List Call)
    (hclean : ∀ call ∈ calls, Faults.Clean call.faults) :
    AllStates (step setting) (fun shell =>
      shell.vault.isSome → Allows (EverDurable calls) shell.saved.durableAuthTokensEnabled) fresh calls := by
  have hsteps : AllSteps (step setting) (fun _ call => Faults.Clean call.faults ∧
      ∀ config creds, call.event = .restart config creds → config.durable → EverDurable calls) fresh calls :=
    allSteps_of_calls fun call hmem => ⟨hclean call hmem, fun config creds hevent hdurable =>
      ⟨call, hmem, config, creds, hevent, hdurable⟩⟩
  have hfresh : Tidy (EverDurable calls) fresh :=
    ⟨fun hsome => (by cases hsome), fun hup => (by cases hup), fun hup => (by cases hup)⟩
  exact hsteps.allStates hfresh (fun _ _ h hcall => h.step hcall.1 hcall.2) fun _ h => h.vault

theorem allStates_no_token_file_turnedOff :
    AllStates (step (steady 0)) (fun shell => shell.vault.isSome →
      Allows (EverDurable (signIn ++ [⟨.authPersistence false, 11, {}⟩])) shell.saved.durableAuthTokensEnabled)
      fresh (signIn ++ [⟨.authPersistence false, 11, {}⟩]) ∧
    (run (step (steady 0)) fresh signIn).vault = some "token" :=
  ⟨allStates_no_token_file (steady 0) _ (by simp [signIn, Faults.Clean.mk]), rfl⟩

end RuntimeShell

end Pcloud.Auth
