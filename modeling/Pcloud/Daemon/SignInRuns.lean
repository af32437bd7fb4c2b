import Pcloud.Daemon.SignIn

/-!
# Runs of the daemon's session

Any sequence of requests, ticks and restarts, with any answers of the server and any failures
of the disk.
-/

namespace Pcloud.Auth

open Runs

namespace RuntimeShell

variable {setting : Setting} {shell : RuntimeShell} {faults : Faults} {calls : List Call}

/-- A server that has the same answer for everything, an hour's lifetime and ten minutes of idleness. -/
def steady (result : UInt64) : Setting where
  api := {
    context := { deviceId := "dev" }
    sha1 := id
    server := fun _ _ => .ok (.hash [("result", .number result), ("digest", .string "d"),
      ("auth", .string "renewed"), ("userid", .number 7)]) }
  policy := ⟨3600 * nanosPerSec, 2880, some (600 * nanosPerSec)⟩

/-- A start, and a login with a token. -/
def signIn : List Call := [⟨.restart { durable := true } {}, 5, {}⟩, ⟨.authTokenSubmission "token", 10, {}⟩]

/-! ## Every state -/

theorem allStates_trusted (setting : Setting) (calls : List Call) :
    AllStates (step setting) (Trusted setting.policy) fresh calls :=
  allStates_of_invariant (.fresh _) (fun _ call h => h.step setting call) fun _ h => h

/-- In every state of every run the session holds what its state says: an authenticated session a
token and no open challenge, one that waits for a code its challenge, one that is logged out or
failed neither. Without a token there is no user, no address and no timer. -/
theorem allStates_wellFormed (setting : Setting) (calls : List Call) :
    AllStates (step setting) (fun shell => shell.auth.WellFormed) fresh calls :=
  (allStates_trusted setting calls).mono fun _ h => h.sound.wellFormed

theorem VaultKnown.loaded {exchanges : List Exchange} {file : Option String} (h : VaultKnown exchanges file)
    {loaded : String} (hload : loadToken file = some loaded) :
    ∃ token, Known exchanges token ∧ loaded = trimToken token := by
  cases file with
  | none => cases hload
  | some text =>
    obtain ⟨token, hknown, htext⟩ := h text rfl
    have htrim : loaded = trimToken text := by
      simp only [loadToken, Option.bind_some] at hload
      split at hload
      · cases hload
      · exact (Option.some.inj hload).symm
    refine ⟨token, hknown, ?_⟩
    rcases htext with rfl | rfl
    · exact htrim
    · rw [htrim, trimToken_trimToken]

/-- The token of the session, of the sync loop, or of the vault of the platform. -/
def Holds (shell : RuntimeShell) (token : String) : Prop :=
  shell.auth.snapshot.authToken = some token ∨ shell.loopToken = some token ∨ shell.platformVault = some token

theorem Trusted.holds {policy : RefreshPolicy} (h : Trusted policy shell) {token : String}
    (hheld : shell.Holds token) : Known shell.traffic.exchanges token := by
  rcases hheld with htoken | htoken | htoken
  · exact h.sound.token token htoken
  · exact h.loop token htoken
  · exact h.platform token htoken

/-- The server was asked about every token that the daemon holds, or gave it out. What it said of
the token is not looked at: a session may be authenticated by a token that no answer vouches for. -/
theorem held_vouched_or_refused :
    (∀ (setting : Setting) (calls : List Call), AllStates (step setting) (fun shell =>
      (∀ token, shell.Holds token →
        Vouched shell.traffic.exchanges token ∨ Refused shell.traffic.exchanges token) ∧
      ∀ loaded, loadToken shell.vault = some loaded → ∃ token, loaded = trimToken token ∧
        (Vouched shell.traffic.exchanges token ∨ Refused shell.traffic.exchanges token)) fresh calls) ∧
    ∃ (setting : Setting) (calls : List Call) (token : String),
      (run (step setting) fresh calls).auth.snapshot.state = .authenticated ∧
      (run (step setting) fresh calls).auth.snapshot.authToken = some token ∧
      ¬ Vouched (run (step setting) fresh calls).traffic.exchanges token := by
  refine ⟨fun setting calls => (allStates_trusted setting calls).mono fun shell h => ⟨?_, ?_⟩, ?_⟩
  · exact fun token hheld => (h.holds hheld).vouched_or_refused
  · intro loaded hload
    obtain ⟨token, hknown, htrim⟩ := h.vault.loaded hload
    exact ⟨token, htrim, hknown.vouched_or_refused⟩
  · refine ⟨steady 2094, signIn, "token", rfl, rfl, ?_⟩
    have hlog : ∀ exchange ∈ (run (step (steady 2094)) fresh signIn).traffic.exchanges, ¬ exchange.Succeeds := by
      rintro exchange hmem ⟨view, hresponse, hresult⟩
      have hanswered : ∀ exchange ∈ (run (step (steady 2094)) fresh signIn).traffic.exchanges,
          exchange.response = .ok (.hash [("result", .number 2094), ("digest", .string "d"),
            ("auth", .string "renewed"), ("userid", .number 7)]) := by
        intro exchange hmem
        obtain rfl := List.mem_singleton.mp hmem
        rfl
      rw [hanswered exchange hmem] at hresponse
      obtain rfl := Value.hash.inj (Except.ok.inj hresponse)
      revert hresult
      decide
    rintro ⟨exchange, hmem, ⟨-, hsucceeds⟩ | ⟨view, hresponse, hresult, -⟩⟩
    · exact hlog exchange hmem hsucceeds
    · exact hlog exchange hmem ⟨view, hresponse, hresult⟩

/-- Every second factor that was ever sent went with a challenge that the server had made before,
and so does the next one. -/
theorem allStates_codes (setting : Setting) (calls : List Call) :
    AllStates (step setting) (fun shell =>
      CodesAnswerChallenges shell.traffic.exchanges ∧
      ∀ challenge, shell.auth.snapshot.pendingChallenge = some challenge →
        Challenged shell.traffic.exchanges challenge.token) fresh calls :=
  (allStates_trusted setting calls).mono fun _ h => ⟨h.codes, h.sound.challenge⟩

/-! ## After a logout -/

/-- A new login, a start that is given credentials, or one from a vault that the logout has left. -/
def SignsIn (platformVault : Option String) : SessionEvent → Prop
  | .passwordSubmission _ _ | .authTokenSubmission _ => True
  | .restart config creds => creds.attempted ∨ (config.fileVault = false ∧ platformVault.isSome)
  | _ => False

/-- Nothing is left to sign in with, in the session or in the token file. -/
structure SignedOut (shell : RuntimeShell) : Prop where
  token : shell.auth.snapshot.authToken = none
  challenge : shell.auth.snapshot.pendingChallenge = none
  lifecycle : shell.auth.lifecycle = none
  vault : shell.vault = none

/-- What a logout does not reach, and what it asks of the server: nothing. -/
structure LeftAlone (shell shell' : RuntimeShell) : Prop where
  exchanges : shell'.traffic.exchanges = shell.traffic.exchanges
  platform : shell'.platformVault = shell.platformVault
  loop : shell'.loopToken = shell.loopToken ∨ shell'.loopToken = none

theorem LeftAlone.trans {a b c : RuntimeShell} (hab : LeftAlone a b) (hbc : LeftAlone b c) : LeftAlone a c := by
  refine ⟨hbc.exchanges.trans hab.exchanges, hbc.platform.trans hab.platform, ?_⟩
  rcases hbc.loop with hloop | hnone
  · rw [hloop]; exact hab.loop
  · exact .inr hnone

/-- What a logout leaves before it is persisted. -/
def cleared (shell : RuntimeShell) : RuntimeShell := { shell with auth := .new, pendingPasswordAuth := none }

theorem logout_eq (shell : RuntimeShell) (faults : Faults) (policy : RefreshPolicy) (nowSecs : Nat) :
    shell.logout faults policy nowSecs =
      (if (shell.cleared.persistAuthState faults).1 then auditedResponse faults else .internalError,
        (shell.cleared.persistAuthState faults).2) := rfl

theorem persistAuthState_platform (shell : RuntimeShell) (faults : Faults) :
    (shell.persistAuthState faults).2.platformVault = shell.platformVault := by
  unfold persistAuthState
  dsimp only
  split
  · rfl
  · obtain ⟨store, saved, hstored⟩ := syncAccountStore_eq (shell.syncAuthVault faults.vault).2 faults.store
    split
    · rw [hstored]
      split <;> rfl
    · rfl

theorem setAuthPersistence_platform (shell : RuntimeShell) (faults : Faults) (enabled : Bool) :
    (shell.setAuthPersistence faults enabled).2.platformVault = shell.platformVault := by
  unfold setAuthPersistence
  dsimp only
  split
  · rfl
  · obtain ⟨saved, hstored⟩ := persistProfile_eq (shell.withDurable enabled (some enabled)) faults.store
    rw [hstored]
    split
    · split
      · rfl
      · obtain ⟨saved', hback⟩ := persistProfile_eq
          ((({ shell.withDurable enabled (some enabled) with saved := saved }).syncAuthVault faults.vault).2.withDurable
            shell.durableAuthTokensEnabled shell.store.durableAuthTokensEnabled) faults.restoreStore
        rw [hback]
        rfl
    · rfl

namespace SignedOut

theorem of_persists {shell' : RuntimeShell} (h : shell.SignedOut) (hp : shell.Persists shell')
    (hplatform : shell'.platformVault = shell.platformVault) : shell'.SignedOut ∧ shell.LeftAlone shell' := by
  refine ⟨⟨?_, ?_, ?_, ?_⟩, congrArg (·.exchanges) hp.traffic, hplatform, .inl hp.loop⟩
  · rw [hp.auth]; exact h.token
  · rw [hp.auth]; exact h.challenge
  · rw [hp.auth]; exact h.lifecycle
  · exact hp.vault (· = none) rfl h.vault (by rw [h.vault]; rfl) h.token

theorem bootstrap (h : shell.SignedOut) (faults : Faults) (api : AuthApi) (config : StartConfig)
    {creds : BootstrapCredentials} (hcall : ¬ SignsIn shell.platformVault (.restart config creds)) :
    (shell.bootstrap faults api config creds).SignedOut ∧
    shell.LeftAlone (shell.bootstrap faults api config creds) := by
  obtain ⟨hattempted, hplatform⟩ : creds.attempted = false ∧
      (config.fileVault = false → shell.platformVault = none) := by
    simpa [SignsIn, not_or] using hcall
  have hload : (shell.reopened config.durable).loadVault config.fileVault = none := by
    unfold loadVault reopened
    split
    · rw [h.vault]; rfl
    · rename_i hother
      exact hplatform (by simpa using hother)
  simp only [RuntimeShell.bootstrap, hattempted, Bool.false_eq_true, if_false, restoreFromVault, hload]
  split
  · exact ⟨⟨rfl, rfl, rfl, h.vault⟩, rfl, rfl, .inr rfl⟩
  · split
    · exact ⟨⟨rfl, rfl, rfl, h.vault⟩, rfl, rfl, .inr rfl⟩
    · exact ⟨⟨rfl, rfl, rfl, h.vault⟩, rfl, rfl, .inr rfl⟩

theorem step (h : shell.SignedOut) (setting : Setting) {call : Call}
    (hcall : ¬ SignsIn shell.platformVault call.event) :
    (shell.step setting call).SignedOut ∧ shell.LeftAlone (shell.step setting call) := by
  have hsame : shell.LeftAlone shell := ⟨rfl, rfl, .inl rfl⟩
  suffices hserve : (shell.serve setting call).SignedOut ∧ shell.LeftAlone (shell.serve setting call) by
    unfold RuntimeShell.step
    split
    · exact hserve
    · split
      · exact hserve
      · exact ⟨h, hsame⟩
  obtain ⟨api, policy⟩ := setting
  obtain ⟨event, nowSecs, faults⟩ := call
  cases event with
  | loginBegin => exact ⟨⟨h.token, h.challenge, h.lifecycle, h.vault⟩, rfl, rfl, .inl rfl⟩
  | passwordSubmission username password => exact absurd trivial hcall
  | authTokenSubmission token => exact absurd trivial hcall
  | twoFactorCodeSubmission code trustDevice recoveryCode =>
    simp only [serve, twoFactorCodeSubmission, twoFactorFlow, h.challenge, Option.map_none, Option.getD_none,
      Bool.false_eq_true, if_false,
      (ProtocolAuthFlow.submit_refused api h.challenge "" "" code trustDevice recoveryCode).1]
    exact ⟨⟨h.token, h.challenge, h.lifecycle, h.vault⟩, rfl, rfl, .inl rfl⟩
  | logout =>
    have hcleared : shell.cleared.SignedOut := ⟨rfl, rfl, rfl, h.vault⟩
    obtain ⟨hout, halone⟩ := hcleared.of_persists (persistAuthState_persists shell.cleared faults)
      (persistAuthState_platform shell.cleared faults)
    simp only [serve, logout_eq]
    exact ⟨hout, halone.exchanges, halone.platform, halone.loop⟩
  | getUserInfo =>
    simp only [serve, fetchUserinfo, h.token]
    exact ⟨h, hsame⟩
  | accountChangePassword currentPassword newPassword =>
    simp only [serve, accountChangePassword, h.token]
    exact ⟨h, hsame⟩
  | authPersistence enabled =>
    exact h.of_persists (setAuthPersistence_persists shell faults enabled)
      (setAuthPersistence_platform shell faults enabled)
  | refreshTick inFlight answeredSecs =>
    have htick : shell.refreshTick api policy nowSecs inFlight answeredSecs = (.ok .noSession, shell) := by
      simp only [refreshTick, tick, evaluate, h.lifecycle]
    simp only [serve, htick]
    exact ⟨h, hsame⟩
  | restart config creds => exact h.bootstrap faults api config hcall

end SignedOut

theorem persistAuthState_clears (htoken : shell.auth.snapshot.authToken = none)
    (hdone : (shell.persistAuthState faults).1) : (shell.persistAuthState faults).2.vault = none := by
  have hcleared : (shell.syncAuthVault faults.vault).1 → (shell.syncAuthVault faults.vault).2.vault = none := by
    unfold syncAuthVault restoreVaultState
    rw [htoken]
    unfold writeToken
    split
    · rename_i heq; cases heq
    · intro hwritten
      cases hfault : faults.vault with
      | done => rfl
      | failed => rw [hfault] at hwritten; cases hwritten
      | failedAfter => rfl
  unfold persistAuthState at hdone ⊢
  split at hdone
  · cases hdone
  · rename_i hload
    rw [if_neg hload]
    dsimp only at hdone ⊢
    split at hdone
    · rename_i hsynced
      rw [if_pos hsynced]
      obtain ⟨store, saved, hstored⟩ := syncAccountStore_eq (shell.syncAuthVault faults.vault).2 faults.store
      split at hdone
      · rename_i hok
        rw [if_pos hok, hstored]
        exact hcleared hsynced
      · cases hdone
    · cases hdone

/-- Once a logout was answered with success, nothing but a new login, a start with credentials, or
a start from another vault than the file brings a token back: not a code, not a tick, not a restart.
None of these asks the server anything. The vault of the platform and the copy of the sync loop
stay as they are, until a start sets that copy to none. -/
theorem logout_final (setting : Setting) (shell : RuntimeShell) (faults : Faults) (nowSecs : Nat)
    (calls : List Call) (hdone : (shell.logout faults setting.policy nowSecs).1 = .ok)
    (hcalls : ∀ call ∈ calls, ¬ SignsIn shell.platformVault call.event) :
    AllStates (step setting)
      (fun after => after.SignedOut ∧ shell.LeftAlone after)
      (shell.logout faults setting.policy nowSecs).2 calls := by
  have hp := persistAuthState_persists shell.cleared faults
  have hwritten : (shell.cleared.persistAuthState faults).1 := by
    by_contra hfailed
    rw [logout_eq, if_neg hfailed] at hdone
    cases hdone
  have hout : (shell.logout faults setting.policy nowSecs).2.SignedOut ∧
      shell.LeftAlone (shell.logout faults setting.policy nowSecs).2 := by
    rw [logout_eq]
    refine ⟨⟨?_, ?_, ?_, persistAuthState_clears rfl hwritten⟩, ?_⟩
    · exact congrArg (·.snapshot.authToken) hp.auth
    · exact congrArg (·.snapshot.pendingChallenge) hp.auth
    · exact congrArg (·.lifecycle) hp.auth
    · exact ⟨congrArg (·.exchanges) hp.traffic, persistAuthState_platform shell.cleared faults, .inl hp.loop⟩
  have hsteps : AllSteps (step setting) (fun _ call => ¬ SignsIn shell.platformVault call.event)
      (shell.logout faults setting.policy nowSecs).2 calls := allSteps_of_calls hcalls
  refine hsteps.allStates (I := fun after => after.SignedOut ∧ shell.LeftAlone after) hout ?_ fun _ h => h
  rintro after call ⟨h, halone⟩ hcall
  obtain ⟨hnext, hleft⟩ := h.step setting (halone.platform ▸ hcall)
  exact ⟨hnext, halone.trans hleft⟩

theorem logout_final_signIn :
    AllStates (step (steady 0))
      (fun after => after.SignedOut ∧ (run (step (steady 0)) fresh signIn).LeftAlone after)
      ((run (step (steady 0)) fresh signIn).logout {} (steady 0).policy 11).2
      [⟨.twoFactorCodeSubmission "123456" true false, 12, {}⟩, ⟨.refreshTick false 61, 60, {}⟩,
        ⟨.restart { durable := true, fileVault := false } {}, 70, {}⟩] :=
  logout_final (steady 0) (run (step (steady 0)) fresh signIn) {} 11 _ rfl (by
    have hplatform : (run (step (steady 0)) fresh signIn).platformVault = none := rfl
    rw [hplatform]
    simp [SignsIn, BootstrapCredentials.attempted])

/-! ## After a start -/

/-- What is asked of a session that goes on: not to sign in, to sign out or to start anew. -/
def GoesOn : SessionEvent → Prop
  | .loginBegin | .twoFactorCodeSubmission _ _ _ | .getUserInfo | .accountChangePassword _ _
  | .authPersistence _ | .refreshTick _ _ => True
  | _ => False

theorem fetchUserinfo_auth (shell : RuntimeShell) (faults : Faults) (api : AuthApi) :
    (shell.fetchUserinfo faults api).2.auth = shell.auth ∨
    ∃ userId email, (shell.fetchUserinfo faults api).2.auth = (shell.auth.updateUserinfo userId email).2 := by
  unfold fetchUserinfo
  split
  · exact .inl rfl
  · split
    · exact .inl rfl
    · rename_i info traffic hinfo
      right
      refine ⟨info.userId, info.email, ?_⟩
      split
      · rename_i err auth hupdated
        rw [hupdated]
      · rename_i auth hupdated
        obtain ⟨store, saved, hstored⟩ := syncAccountStore_eq
          { shell with auth := auth, traffic := traffic } faults.store
        rw [hupdated]
        dsimp only
        rw [hstored]

theorem persistProfile_auth (shell : RuntimeShell) (fails : Bool) :
    (shell.persistProfile fails).2.auth = shell.auth := by
  obtain ⟨saved, h⟩ := persistProfile_eq shell fails
  rw [h]

/-- A session without timers, in no state that a token could be put into. -/
structure Untimed (token : Option String) (shell : RuntimeShell) : Prop where
  token : shell.auth.snapshot.authToken = token
  lifecycle : shell.auth.lifecycle = none
  challenge : shell.auth.snapshot.pendingChallenge = none
  state : ¬ shell.auth.snapshot.state.IsLogin ∧ shell.auth.snapshot.state ≠ .twoFactorRequired

theorem Untimed.of_auth {token : Option String} (h : Untimed token shell) {shell' : RuntimeShell}
    (hauth : shell'.auth = shell.auth) : Untimed token shell' := by
  refine ⟨?_, ?_, ?_, ?_⟩ <;> rw [hauth]
  · exact h.token
  · exact h.lifecycle
  · exact h.challenge
  · exact h.state

theorem Untimed.step {token : Option String} (h : Untimed token shell) (setting : Setting) {call : Call}
    (hcall : GoesOn call.event) : Untimed token (shell.step setting call) := by
  suffices hserve : Untimed token (shell.serve setting call) by
    unfold RuntimeShell.step
    split
    · exact hserve
    · split
      · exact hserve
      · exact h
  obtain ⟨api, policy⟩ := setting
  obtain ⟨event, nowSecs, faults⟩ := call
  have hmark : ∀ userId authToken, (shell.auth.apply (.markAuthenticated userId authToken)).2 = shell.auth := by
    intro userId authToken
    obtain ⟨hlogin, htwo⟩ := h.state
    unfold SessionManager.apply
    dsimp only
    split
    · rename_i hstate; exact absurd (.inl hstate) hlogin
    · rename_i hstate; exact absurd (.inr hstate) hlogin
    · rename_i hstate; exact absurd hstate htwo
    · rfl
  cases event with
  | loginBegin =>
    exact ⟨h.token, h.lifecycle, h.challenge,
      by simp [serve, loginBegin, SessionManager.apply, SessionState.IsLogin]⟩
  | passwordSubmission username password => exact hcall.elim
  | authTokenSubmission token => exact hcall.elim
  | twoFactorCodeSubmission code trustDevice recoveryCode =>
    simp only [serve, twoFactorCodeSubmission, twoFactorFlow, h.challenge, Option.map_none, Option.getD_none,
      Bool.false_eq_true, if_false,
      (ProtocolAuthFlow.submit_refused api h.challenge "" "" code trustDevice recoveryCode).1]
    exact ⟨h.token, h.lifecycle, h.challenge, h.state⟩
  | logout => exact hcall.elim
  | getUserInfo =>
    simp only [serve]
    rcases fetchUserinfo_auth shell faults api with hsame | ⟨userId, email, hupdated⟩
    · exact h.of_auth hsame
    · obtain ⟨hstate, htoken, hchallenge, hlifecycle⟩ := shell.auth.updateUserinfo_keeps userId email
      refine ⟨?_, ?_, ?_, ?_⟩ <;> rw [hupdated]
      · exact htoken.trans h.token
      · exact hlifecycle.trans h.lifecycle
      · exact hchallenge.trans h.challenge
      · rw [hstate]; exact h.state
  | accountChangePassword currentPassword newPassword =>
    simp only [serve, accountChangePassword]
    split
    · exact h
    · split
      · exact h
      · split
        · exact ⟨h.token, h.lifecycle, h.challenge, h.state⟩
        · rename_i newToken traffic hchange
          have hsame := hmark shell.auth.snapshot.authenticatedUser newToken
          split <;> rename_i hmarked <;> rw [hmarked] at hsame <;> subst hsame <;>
            exact ⟨h.token, h.lifecycle, h.challenge, h.state⟩
  | authPersistence enabled => exact h.of_auth (setAuthPersistence_persists shell faults enabled).auth
  | refreshTick inFlight answeredSecs =>
    have htick : shell.refreshTick api policy nowSecs inFlight answeredSecs = (.ok .noSession, shell) := by
      simp only [refreshTick, tick, evaluate, h.lifecycle]
    simp only [serve, htick]
    exact h
  | restart config creds => exact hcall.elim

theorem untimed_exited (shell : RuntimeShell) : Untimed none shell.exited :=
  ⟨rfl, rfl, rfl, by simp [exited, SessionManager.new, SessionState.IsLogin]⟩

theorem untimed_syncBootstrapAuthState {token : Option String} (h : Untimed token shell) (faults : Faults)
    (fileVault : Bool) : ∃ token, Untimed token (shell.syncBootstrapAuthState faults fileVault) := by
  rcases syncBootstrapAuthState_cases shell faults fileVault with hp | ⟨after, -, hexited⟩
  · exact ⟨token, h.of_auth hp.auth⟩
  · rw [hexited]
    exact ⟨none, untimed_exited after⟩

theorem untimed_restoreFromVault (hnew : shell.auth = .new) (faults : Faults) (api : AuthApi)
    (fileVault : Bool) : ∃ token, Untimed token (shell.restoreFromVault faults api fileVault) := by
  have hshell : Untimed none shell := (untimed_exited shell).of_auth hnew
  unfold restoreFromVault
  split
  · exact ⟨none, hshell⟩
  · split
    · exact ⟨none, untimed_exited shell⟩
    · split
      · exact ⟨none, hshell⟩
      · rename_i token htoken
        dsimp only
        rcases @ProtocolAuthFlow.loginWithToken_cases api shell.auth shell.traffic token with
          ⟨err, traffic, hflow⟩ | ⟨userId, email, traffic, hflow⟩
        · rw [hflow]
          dsimp only
          have hfailed : Untimed none (shell.settled (.error (.protocol err),
              { snapshot := { state := .authFailed, lastAuthError := some err.text }, lifecycle := none }, traffic)) :=
            ⟨rfl, rfl, rfl, by simp [settled, SessionState.IsLogin]⟩
          have hcleared := hfailed.of_auth (writeVault_auth _ fileVault none faults.vault)
          generalize writeVault _ fileVault none faults.vault = written at hcleared
          split
          · split
            · exact ⟨none, hcleared.of_auth (persistProfile_auth ..)⟩
            · exact ⟨none, untimed_exited _⟩
          · exact ⟨none, untimed_exited _⟩
        · rw [hflow]
          refine @untimed_syncBootstrapAuthState _ (some token) ⟨rfl, ?_, rfl, ?_⟩ faults fileVault
          · exact hshell.lifecycle
          · simp [settled, SessionManager.signedIn, SessionState.IsLogin]

/-- A session that a start brings back has no timers: no tick renews it, and none ends it for its
age or for idleness. Until someone signs in or out, or starts the daemon anew, its token stays. -/
theorem restored_untimed (setting : Setting) (shell : RuntimeShell) (faults : Faults) (config : StartConfig)
    (calls : List Call) (hcalls : ∀ call ∈ calls, GoesOn call.event) :
    AllStates (step setting)
      (fun after => after.auth.lifecycle = none ∧ after.auth.snapshot.authToken =
        (shell.bootstrap faults setting.api config {}).auth.snapshot.authToken)
      (shell.bootstrap faults setting.api config {}) calls := by
  obtain ⟨token, hrestored⟩ :=
    @untimed_restoreFromVault (shell.reopened config.durable) rfl faults setting.api config.fileVault
  have hstart : Untimed token (shell.bootstrap faults setting.api config {}) := hrestored.of_auth rfl
  rw [hstart.token]
  have hsteps : AllSteps (step setting) (fun _ call => GoesOn call.event)
      (shell.bootstrap faults setting.api config {}) calls := allSteps_of_calls hcalls
  exact hsteps.allStates (I := Untimed token) hstart (fun _ _ h hcall => h.step setting hcall)
    fun _ h => ⟨h.lifecycle, h.token⟩

theorem restored_untimed_overnight :
    AllStates (step (steady 0))
      (fun after => after.auth.lifecycle = none ∧ after.auth.snapshot.authToken =
        ((run (step (steady 0)) fresh signIn).bootstrap {} (steady 0).api { durable := true }
          {}).auth.snapshot.authToken)
      ((run (step (steady 0)) fresh signIn).bootstrap {} (steady 0).api { durable := true } {})
      [⟨.refreshTick false 30000, 30000, {}⟩, ⟨.getUserInfo, 30001, {}⟩] ∧
    ((run (step (steady 0)) fresh signIn).bootstrap {} (steady 0).api { durable := true }
      {}).auth.snapshot.authToken = some "token" :=
  ⟨restored_untimed (steady 0) (run (step (steady 0)) fresh signIn) {} { durable := true } _ (by simp [GoesOn]), rfl⟩

end RuntimeShell

end Pcloud.Auth
