import Pcloud.Auth.AuthApi
import Pcloud.Auth.SessionManager

/-!
# Signing in and refreshing (`pcloud-auth/src/{orchestrator,refresh}.rs`, `pcloud-session/src/refresh_loop.rs`)
-/

namespace Pcloud.Auth

inductive AuthFlowError
  | session (err : SessionManagerError)
  | protocol (err : AuthApiError)
deriving DecidableEq, Repr

/-- What a flow answers, the session it leaves, and the log with its requests. -/
abbrev Flowed (ε α : Type) := Except ε α × SessionManager × Traffic

namespace ProtocolAuthFlow

variable (api : AuthApi) (session : SessionManager) (traffic : Traffic)

/-! ## Signing in -/

def applied (answer : Except SessionManagerError AuthEvent × SessionManager) : Flowed AuthFlowError AuthEvent :=
  match answer with
  | (.error err, session) => (.error (.session err), session, traffic)
  | (.ok event, session) => (.ok event, session, traffic)

/-- The end of every login that the server accepts. -/
def markSignedIn (userId : Option UInt64) (email : Option String) (authToken : String) :
    Flowed AuthFlowError AuthEvent :=
  match session.apply (.markAuthenticated userId authToken) with
  | (.error err, session) => (.error (.session err), session, traffic)
  | (.ok event, session) =>
    match session.updateUserinfo userId email with
    | (.error err, session) => (.error (.session err), session, traffic)
    | (.ok (), session) => (.ok event, session, traffic)

def markFailed (err : AuthApiError) : Flowed AuthFlowError AuthEvent :=
  (.error (.protocol err), (session.apply (.markAuthenticationFailed (some err.text))).2, traffic)

/-- The `match outcome` of the login methods. They differ in the command for a refused login. -/
def settle (onFailed : Option String → AuthCommand)
    (answer : Except AuthApiError PasswordLoginOutcome × Traffic) : Flowed AuthFlowError AuthEvent :=
  match answer with
  | (.error err, traffic) => markFailed session traffic err
  | (.ok (.authenticated authToken userId _), traffic) =>
    match api.userinfo traffic authToken with
    -- `?`: the session is left as the login began it.
    | (.error err, traffic) => (.error (.protocol err), session, traffic)
    | (.ok info, traffic) => markSignedIn session traffic (info.userId.or userId) info.email authToken
  | (.ok (.twoFactorRequired challengeToken trustDevice _), traffic) =>
    let (event, session) := session.issueTwoFactorChallenge challengeToken trustDevice
    (.ok event, session, traffic)
  | (.ok (.failed _ message _), traffic) => applied traffic (session.apply (onFailed message))

def loginWithToken (authToken : String) : Flowed AuthFlowError AuthEvent :=
  match session.apply (.loginWithToken authToken) with
  | (.error err, session) => (.error (.session err), session, traffic)
  | (.ok _, session) =>
    match api.userinfo traffic authToken with
    | (.error err, traffic) => markFailed session traffic err
    | (.ok info, traffic) => markSignedIn session traffic info.userId info.email authToken

def loginWithPassword (username password : String) : Flowed AuthFlowError AuthEvent :=
  match session.apply (.loginWithPassword username password) with
  | (.error err, session) => (.error (.session err), session, traffic)
  | (.ok _, session) =>
    settle api session .markAuthenticationFailed (api.loginPassword traffic username password)

def submitTwoFactorCode (code : String) (trustDevice recoveryCode : Bool) : Flowed AuthFlowError AuthEvent :=
  match session.snapshot.pendingChallenge with
  | none => (.error (.session .noPendingChallenge), session, traffic)
  | some challenge =>
    match session.apply (.submitTwoFactorCode code trustDevice) with
    | (.error err, session) => (.error (.session err), session, traffic)
    | (.ok _, session) =>
      settle api session .markTwoFactorCodeInvalid
        (api.submitTwoFactorCode traffic challenge.token code trustDevice recoveryCode)

def submitTwoFactorCodeWithPassword (username password code : String) : Flowed AuthFlowError AuthEvent :=
  match session.apply (.submitTwoFactorCode code false) with
  | (.error err, session) => (.error (.session err), session, traffic)
  | (.ok _, session) =>
    settle api session .markAuthenticationFailed
      (api.loginPasswordWithCode traffic username password (some code))

/-! ## How a login ends -/

/-- How a login ends, for the session as the login began it and the log it leaves. -/
inductive Settled (onFailed : Option String → AuthCommand) (begun : SessionManager)
    (exchanges : List Exchange) : Except AuthFlowError AuthEvent → SessionManager → Prop
  | signedIn (userId : Option UInt64) (email : Option String) (authToken : String)
    (known : Known exchanges authToken) :
    Settled onFailed begun exchanges (.ok (.loginSucceeded userId)) (begun.signedIn userId email authToken)
  | challenged (token : String) (trustDevice : Bool) (issued : Challenged exchanges token) :
    Settled onFailed begun exchanges (.ok .twoFactorChallengeIssued)
      (begun.issueTwoFactorChallenge token trustDevice).2
  | refused (message : Option String) :
    Settled onFailed begun exchanges (.ok (.loginFailed message)) (begun.apply (onFailed message)).2
  | unanswered (err : AuthApiError) :
    Settled onFailed begun exchanges (.error (.protocol err))
      { snapshot := { state := .authFailed, lastAuthError := some err.text }, lifecycle := none }
  | stalled (err : AuthApiError) :
    Settled onFailed begun exchanges (.error (.protocol err)) begun

/-- The commands that the login methods give for a refused login. -/
def RefusesWith (onFailed : Option String → AuthCommand) : Prop :=
  ∀ begun : SessionManager, ∀ message, (begun.apply (onFailed message)).1 = .ok (.loginFailed message)

theorem refusesWith_failed : RefusesWith .markAuthenticationFailed := fun _ _ => rfl

theorem refusesWith_codeInvalid : RefusesWith .markTwoFactorCodeInvalid := fun _ _ => rfl

section

variable {session traffic}

theorem markSignedIn_eq (hlogin : session.snapshot.state.IsLogin) (userId : Option UInt64)
    (email : Option String) (authToken : String) :
    markSignedIn session traffic userId email authToken =
      (.ok (.loginSucceeded userId), session.signedIn userId email authToken, traffic) := by
  unfold markSignedIn SessionManager.apply
  rcases hlogin with h | h <;>
    simp [h, SessionManager.updateUserinfo, SessionManager.signedIn]

/-- A login flow: how it ends, and what it does to the log. -/
def Settles (onFailed : Option String → AuthCommand) (begun : SessionManager) (traffic : Traffic)
    (flow : Flowed AuthFlowError AuthEvent) : Prop :=
  Settled onFailed begun flow.2.2.exchanges flow.1 flow.2.1 ∧ traffic.Grows flow.2.2

theorem settle_settles {onFailed : Option String → AuthCommand}
    {answer : Except AuthApiError PasswordLoginOutcome × Traffic} (hlogin : session.snapshot.state.IsLogin)
    (hfailed : RefusesWith onFailed) (hgrows : traffic.Grows answer.2)
    (hattests : AuthApi.Attests answer.2.exchanges answer.1) :
    Settles onFailed session traffic (settle api session onFailed answer) := by
  obtain ⟨outcome, answered⟩ := answer
  cases outcome with
  | error err => exact ⟨.unanswered err, hgrows⟩
  | ok outcome =>
    cases outcome with
    | authenticated authToken userId apiServer =>
      have hinfo := AuthApi.userinfo_grows api answered authToken
      simp only [settle]
      split
      · rename_i err traffic' h
        rw [h] at hinfo
        exact ⟨.stalled err, hgrows.trans hinfo⟩
      · rename_i info traffic' h
        rw [h] at hinfo
        rw [markSignedIn_eq hlogin]
        exact ⟨.signedIn _ _ _ (hattests.mono hinfo.subset), hgrows.trans hinfo⟩
    | twoFactorRequired challengeToken trustDevice apiServer =>
      exact ⟨.challenged challengeToken trustDevice hattests, hgrows⟩
    | failed result message apiServer =>
      have hrefused := hfailed session message
      simp only [settle, applied]
      split
      · rename_i err session' h
        rw [h] at hrefused
        cases hrefused
      · rename_i event session' h
        rw [h] at hrefused
        obtain rfl : event = .loginFailed message := Except.ok.inj hrefused
        have hsession : (session.apply (onFailed message)).2 = session' := by rw [h]
        exact ⟨hsession ▸ .refused message, hgrows⟩

theorem loginWithToken_settles (authToken : String) :
    Settles .markAuthenticationFailed (session.apply (.loginWithToken authToken)).2 traffic
      (loginWithToken api session traffic authToken) := by
  have hgrows := AuthApi.userinfo_grows api traffic authToken
  simp only [loginWithToken, SessionManager.apply]
  split
  · rename_i err traffic' h
    rw [h] at hgrows
    exact ⟨.unanswered err, hgrows⟩
  · rename_i info traffic' h
    have hknown := @AuthApi.userinfo_known api traffic authToken info (by rw [h])
    rw [h] at hgrows hknown
    rw [markSignedIn_eq (.inr rfl)]
    exact ⟨.signedIn _ _ _ hknown, hgrows⟩

theorem loginWithToken_cases (authToken : String) :
    (∃ err traffic', loginWithToken api session traffic authToken =
      (.error (.protocol err),
        { snapshot := { state := .authFailed, lastAuthError := some err.text }, lifecycle := none }, traffic')) ∨
    ∃ userId email traffic', loginWithToken api session traffic authToken =
      (.ok (.loginSucceeded userId), session.signedIn userId email authToken, traffic') := by
  simp only [loginWithToken, SessionManager.apply]
  split
  · exact .inl ⟨_, _, rfl⟩
  · rw [markSignedIn_eq (.inr rfl)]
    exact .inr ⟨_, _, _, rfl⟩

theorem loginWithPassword_settles (username password : String) :
    Settles .markAuthenticationFailed (session.apply (.loginWithPassword username password)).2 traffic
      (loginWithPassword api session traffic username password) :=
  settle_settles api (.inl rfl) refusesWith_failed
    (AuthApi.loginPasswordWithCode_grows api traffic username password (by simp))
    (AuthApi.attests_loginPasswordWithCode api traffic ..)

theorem submit_eq {challenge : PendingChallenge} (h : session.snapshot.pendingChallenge = some challenge)
    (code : String) (trustDevice : Bool) :
    ∃ begun, session.apply (.submitTwoFactorCode code trustDevice) = (.ok .loginStarted, begun) ∧
      begun.snapshot.state = .authenticatingWithPassword := by
  unfold SessionManager.apply
  simp [h]

theorem submitTwoFactorCode_settles {challenge : PendingChallenge}
    (h : session.snapshot.pendingChallenge = some challenge)
    (hissued : Challenged traffic.exchanges challenge.token) (code : String) (trustDevice recoveryCode : Bool) :
    Settles .markTwoFactorCodeInvalid (session.apply (.submitTwoFactorCode code trustDevice)).2 traffic
      (submitTwoFactorCode api session traffic code trustDevice recoveryCode) := by
  obtain ⟨begun, happly, hstate⟩ := submit_eq h code trustDevice
  simp only [submitTwoFactorCode, h, happly]
  exact settle_settles api (.inl hstate) refusesWith_codeInvalid
    (AuthApi.submitTwoFactorCode_grows api traffic hissued ..)
    (AuthApi.attests_submitTwoFactorCode api traffic ..)

theorem submitTwoFactorCodeWithPassword_settles {challenge : PendingChallenge}
    (h : session.snapshot.pendingChallenge = some challenge) (hasked : Challenged traffic.exchanges "")
    (username password code : String) :
    Settles .markAuthenticationFailed (session.apply (.submitTwoFactorCode code false)).2 traffic
      (submitTwoFactorCodeWithPassword api session traffic username password code) := by
  obtain ⟨begun, happly, hstate⟩ := submit_eq h code false
  simp only [submitTwoFactorCodeWithPassword, happly]
  exact settle_settles api (.inl hstate) refusesWith_failed
    (AuthApi.loginPasswordWithCode_grows api traffic username password fun _ => hasked)
    (AuthApi.attests_loginPasswordWithCode api traffic ..)

theorem submit_refused (h : session.snapshot.pendingChallenge = none) (username password code : String)
    (trustDevice recoveryCode : Bool) :
    submitTwoFactorCode api session traffic code trustDevice recoveryCode =
      (.error (.session .noPendingChallenge), session, traffic) ∧
    submitTwoFactorCodeWithPassword api session traffic username password code =
      (.error (.session .noPendingChallenge), session, traffic) := by
  simp [submitTwoFactorCode, submitTwoFactorCodeWithPassword, SessionManager.apply, h]

end

/-! ## Refreshing -/

inductive RefreshTokenError
  | notAuthenticated
  | authExpired (result : UInt64)
  | temporaryFailure (message : String)
  | session (err : SessionManagerError)
  | missingAuthField
deriving DecidableEq, Repr

def refreshToken (current : String) : Flowed RefreshTokenError AuthEvent :=
  if session.snapshot.state ≠ .authenticated then (.error .notAuthenticated, session, traffic)
  else
    match api.refreshAuthToken traffic current with
    | (.ok newToken, traffic) =>
      match session.replaceAuthToken newToken with
      | (.error err, session) => (.error (.session err), session, traffic)
      | (.ok (), session) =>
        (.ok (.tokenRefreshed session.snapshot.authenticatedUser), session, traffic)
    | (.error (.authExpired result), traffic) => (.error (.authExpired result), session.revoke.2, traffic)
    | (.error .missingAuthField, traffic) => (.error .missingAuthField, session, traffic)
    | (.error (.temporaryFailure inner), traffic) =>
      (.error (.temporaryFailure inner.text), session, traffic)

end ProtocolAuthFlow

/-! ## The refresh loop -/

inductive RefreshDecision
  | noSession
  | ok
  | refresh
  | idleLogout
  | expired
deriving DecidableEq, Repr

/-- `RefreshCoordinator::evaluate`. -/
def evaluate (policy : RefreshPolicy) (nowSecs : Nat) (session : SessionManager) : RefreshDecision :=
  match session.lifecycle with
  | none => .noSession
  | some lifecycle =>
    if lifecycle.isExpired nowSecs then .expired
    else if lifecycle.isIdleExpired nowSecs policy then .idleLogout
    else if lifecycle.shouldRefresh nowSecs policy then .refresh
    else .ok

inductive TickOutcome
  | noSession
  | ok
  | refreshed
  | alreadyInFlight
  | idleLogout (auditDetails : String)
  | expired
  | authExpired (result : UInt64)
  | temporaryFailure (reason : String)
deriving DecidableEq, Repr

inductive RefreshLoopError
  | orchestrator (err : ProtocolAuthFlow.RefreshTokenError)
deriving DecidableEq, Repr

/-- `in_flight` is the guard as the tick finds it. The clock is read again once the server has
answered. -/
def tick (api : AuthApi) (policy : RefreshPolicy) (inFlight : Bool) (nowSecs answeredSecs : Nat)
    (session : SessionManager) (traffic : Traffic) : Flowed RefreshLoopError TickOutcome :=
  match evaluate policy nowSecs session with
  | .noSession => (.ok .noSession, session, traffic)
  | .ok => (.ok .ok, session, traffic)
  | .expired => (.ok .expired, session.revoke.2, traffic)
  | .idleLogout =>
    let user := (session.snapshot.authenticatedUser.map fun userId => toString userId.toNat).getD "unknown"
    (.ok (.idleLogout ("idle_logout user_id=" ++ user)), session.revoke.2, traffic)
  | .refresh =>
    if inFlight then (.ok .alreadyInFlight, session, traffic)
    else
      match session.snapshot.authToken with
      | none => (.ok .noSession, session, traffic)
      | some current =>
        match ProtocolAuthFlow.refreshToken api session traffic current with
        | (.ok (.tokenRefreshed _), session, traffic) =>
          match session.snapshot.authToken with
          | some token => (.ok .refreshed, (session.recordRefresh answeredSecs policy token).2, traffic)
          | none => (.ok .refreshed, session, traffic)
        | (.ok _, session, traffic) => (.ok .ok, session, traffic)
        | (.error (.authExpired result), session, traffic) => (.ok (.authExpired result), session, traffic)
        | (.error (.temporaryFailure reason), session, traffic) =>
          (.ok (.temporaryFailure reason), session, traffic)
        | (.error .notAuthenticated, session, traffic) => (.ok .noSession, session, traffic)
        | (.error err, session, traffic) => (.error (.orchestrator err), session, traffic)

/-! ## What a tick does -/

/-- All that a tick can do, with the decision and the answer that lead to it. -/
inductive Ticked (api : AuthApi) (policy : RefreshPolicy) (nowSecs answeredSecs : Nat)
    (session : SessionManager) (traffic : Traffic) : Flowed RefreshLoopError TickOutcome → Prop
  | rested (outcome : TickOutcome) (harmless : outcome ∈ [.noSession, .ok, .alreadyInFlight])
    (decided : evaluate policy nowSecs session ∈ [.noSession, .ok, .refresh]) :
    Ticked api policy nowSecs answeredSecs session traffic (.ok outcome, session, traffic)
  | revoked (outcome : TickOutcome) (decided : evaluate policy nowSecs session ∈ [.expired, .idleLogout]) :
    Ticked api policy nowSecs answeredSecs session traffic (.ok outcome, .new, traffic)
  | refreshed (lifecycle : SessionLifecycle) (current newToken : String)
    (decided : evaluate policy nowSecs session = .refresh) (timed : session.lifecycle = some lifecycle)
    (held : session.snapshot.authToken = some current)
    (issued : (api.refreshAuthToken traffic current).1 = .ok newToken) :
    Ticked api policy nowSecs answeredSecs session traffic (.ok .refreshed,
      { snapshot := { session.snapshot with authToken := some newToken }
        lifecycle := some (lifecycle.recordRefresh answeredSecs policy) },
      (api.refreshAuthToken traffic current).2)
  | lost (current : String) (result : UInt64) (decided : evaluate policy nowSecs session = .refresh) :
    Ticked api policy nowSecs answeredSecs session traffic (.ok (.authExpired result), .new,
      (api.refreshAuthToken traffic current).2)
  | kept (current : String) (result : Except RefreshLoopError TickOutcome)
    (decided : evaluate policy nowSecs session = .refresh) :
    Ticked api policy nowSecs answeredSecs session traffic (result, session,
      (api.refreshAuthToken traffic current).2)

theorem evaluate_lifecycle {policy : RefreshPolicy} {nowSecs : Nat} {session : SessionManager}
    (h : evaluate policy nowSecs session ≠ .noSession) : ∃ lifecycle, session.lifecycle = some lifecycle := by
  unfold evaluate at h
  split at h
  · exact absurd rfl h
  · exact ⟨_, by assumption⟩

theorem refreshToken_cases (api : AuthApi) (session : SessionManager) (traffic : Traffic) (current : String) :
    (session.snapshot.state ≠ .authenticated ∧
      ProtocolAuthFlow.refreshToken api session traffic current = (.error .notAuthenticated, session, traffic)) ∨
    (∃ newToken, (api.refreshAuthToken traffic current).1 = .ok newToken ∧
      ProtocolAuthFlow.refreshToken api session traffic current =
        (.ok (.tokenRefreshed session.snapshot.authenticatedUser),
          { session with snapshot := { session.snapshot with authToken := some newToken } },
          (api.refreshAuthToken traffic current).2) ∧ session.snapshot.state = .authenticated) ∨
    (∃ result, ProtocolAuthFlow.refreshToken api session traffic current =
      (.error (.authExpired result), .new, (api.refreshAuthToken traffic current).2)) ∨
    ∃ err, err ≠ .notAuthenticated ∧ ProtocolAuthFlow.refreshToken api session traffic current =
      (.error err, session, (api.refreshAuthToken traffic current).2) ∧ ∀ result, err ≠ .authExpired result := by
  unfold ProtocolAuthFlow.refreshToken
  by_cases hstate : session.snapshot.state = .authenticated
  · rw [if_neg (not_not.mpr hstate)]
    right
    obtain ⟨answer, traffic'⟩ := api.refreshAuthToken traffic current
    cases answer with
    | ok newToken => exact .inl ⟨newToken, rfl, by simp [SessionManager.replaceAuthToken, hstate], hstate⟩
    | error err =>
      right
      cases err with
      | authExpired result => exact .inl ⟨result, rfl⟩
      | temporaryFailure inner => exact .inr ⟨_, by simp, rfl, by simp⟩
      | missingAuthField => exact .inr ⟨_, by simp, rfl, by simp⟩
  · exact .inl ⟨hstate, by rw [if_pos hstate]⟩

theorem ticked_tick (api : AuthApi) (policy : RefreshPolicy) (inFlight : Bool) (nowSecs answeredSecs : Nat)
    (session : SessionManager) (traffic : Traffic) :
    Ticked api policy nowSecs answeredSecs session traffic
      (tick api policy inFlight nowSecs answeredSecs session traffic) := by
  unfold tick
  cases hdecision : evaluate policy nowSecs session with
  | noSession => exact .rested _ (by simp) (by simp [hdecision])
  | ok => exact .rested _ (by simp) (by simp [hdecision])
  | expired => exact .revoked _ (by simp [hdecision])
  | idleLogout => exact .revoked _ (by simp [hdecision])
  | refresh =>
    dsimp only
    split
    · exact .rested _ (by simp) (by simp [hdecision])
    · cases htoken : session.snapshot.authToken with
      | none => exact .rested _ (by simp) (by simp [hdecision])
      | some current =>
        obtain ⟨lifecycle, hlifecycle⟩ := evaluate_lifecycle (by rw [hdecision]; decide)
        dsimp only
        rcases refreshToken_cases api session traffic current with
          ⟨-, h⟩ | ⟨newToken, hissued, h, hstate⟩ | ⟨result, h⟩ | ⟨err, hstate, h, hexpired⟩
        · rw [h]
          exact .rested _ (by simp) (by simp [hdecision])
        · have hrecord : (SessionManager.recordRefresh
              { session with snapshot := { session.snapshot with authToken := some newToken } }
              answeredSecs policy newToken).2 =
              { snapshot := { session.snapshot with authToken := some newToken }
                lifecycle := some (lifecycle.recordRefresh answeredSecs policy) } := by
            simp [SessionManager.recordRefresh, hstate, hlifecycle]
          rw [h]
          dsimp only
          rw [hrecord]
          exact .refreshed lifecycle current newToken hdecision hlifecycle htoken hissued
        · rw [h]
          exact .lost current result hdecision
        · rw [h]
          cases err with
          | notAuthenticated => exact absurd rfl hstate
          | authExpired result => exact absurd rfl (hexpired result)
          | temporaryFailure message => exact .kept current _ hdecision
          | session err => exact .kept current _ hdecision
          | missingAuthField => exact .kept current _ hdecision

/-! ## Where the secrets come from -/

/-- A session whose secrets are all from the server's answers. -/
structure Sound (exchanges : List Exchange) (session : SessionManager) : Prop where
  wellFormed : session.WellFormed
  token : ∀ token, session.snapshot.authToken = some token → Known exchanges token
  challenge : ∀ challenge, session.snapshot.pendingChallenge = some challenge →
    Challenged exchanges challenge.token

namespace Sound

variable {exchanges exchanges' : List Exchange} {session : SessionManager}

theorem new : Sound exchanges .new := ⟨SessionManager.wellFormed_new, by simp [SessionManager.new],
  by simp [SessionManager.new]⟩

theorem mono (h : Sound exchanges session) (hsub : exchanges ⊆ exchanges') : Sound exchanges' session :=
  ⟨h.wellFormed, fun _ ht => (h.token _ ht).mono hsub, fun _ hc => (h.challenge _ hc).mono hsub⟩

theorem apply (h : Sound exchanges session) (command : AuthCommand)
    (hmark : ∀ userId authToken, command = .markAuthenticated userId authToken → Known exchanges authToken) :
    Sound exchanges (session.apply command).2 := by
  refine ⟨h.wellFormed.apply command, ?_, ?_⟩
  · intro token htoken
    unfold SessionManager.apply at htoken
    cases command with
    | markAuthenticated userId authToken =>
      have hknown := hmark userId authToken rfl
      dsimp only at htoken
      split at htoken
      · exact Option.some.inj htoken ▸ hknown
      · exact Option.some.inj htoken ▸ hknown
      · exact Option.some.inj htoken ▸ hknown
      · exact h.token token htoken
    | submitTwoFactorCode code trustDevice =>
      dsimp only at htoken
      split at htoken <;> exact h.token token htoken
    | markAuthenticationFailed message => cases htoken
    | logout => cases htoken
    | beginLogin | loginWithPassword _ _ | loginWithToken _ | markTwoFactorCodeInvalid _ =>
      exact h.token token htoken
  · intro challenge hchallenge
    unfold SessionManager.apply at hchallenge
    cases command with
    | markAuthenticated userId authToken =>
      dsimp only at hchallenge
      split at hchallenge
      · cases hchallenge
      · cases hchallenge
      · cases hchallenge
      · exact h.challenge challenge hchallenge
    | submitTwoFactorCode code trustDevice =>
      dsimp only at hchallenge
      split at hchallenge
      · exact h.challenge challenge hchallenge
      · rename_i pending hpending
        obtain rfl := Option.some.inj hchallenge
        exact h.challenge pending hpending
    | beginLogin | markTwoFactorCodeInvalid _ => exact h.challenge challenge hchallenge
    | markAuthenticationFailed _ | logout | loginWithPassword _ _ | loginWithToken _ => cases hchallenge

theorem of_settled {onFailed : Option String → AuthCommand} {result : Except AuthFlowError AuthEvent}
    {session' : SessionManager} (h : Sound exchanges session)
    (hfailed : ProtocolAuthFlow.RefusesWith onFailed)
    (hsettled : ProtocolAuthFlow.Settled onFailed session exchanges result session') :
    Sound exchanges session' := by
  cases hsettled with
  | signedIn userId email authToken hknown =>
    refine ⟨.signedIn userId email authToken, fun token ht => ?_, by simp [SessionManager.signedIn]⟩
    exact Option.some.inj ht ▸ hknown
  | challenged token trustDevice hissued =>
    refine ⟨h.wellFormed.issueTwoFactorChallenge token trustDevice, h.token, fun challenge hc => ?_⟩
    exact Option.some.inj hc ▸ hissued
  | refused message =>
    refine h.apply _ fun userId authToken hmark => ?_
    -- A command that signs in does not answer with a failure.
    have hanswer := hfailed session message
    rw [hmark] at hanswer
    unfold SessionManager.apply at hanswer
    dsimp only at hanswer
    split at hanswer <;> cases hanswer
  | unanswered err =>
    exact ⟨SessionManager.wellFormed_failed _, by simp, by simp⟩
  | stalled err => exact h

theorem updateUserinfo (h : Sound exchanges session) (userId : Option UInt64) (email : Option String) :
    Sound exchanges (session.updateUserinfo userId email).2 := by
  obtain ⟨-, htoken, hchallenge, -⟩ := session.updateUserinfo_keeps userId email
  exact ⟨h.wellFormed.updateUserinfo userId email, fun token ht => h.token token (htoken ▸ ht),
    fun challenge hc => h.challenge challenge (hchallenge ▸ hc)⟩

theorem of_ticked {api : AuthApi} {policy : RefreshPolicy} {nowSecs answeredSecs : Nat} {traffic : Traffic}
    {flow : Flowed RefreshLoopError TickOutcome} (h : Sound traffic.exchanges session)
    (hticked : Ticked api policy nowSecs answeredSecs session traffic flow) :
    Sound flow.2.2.exchanges flow.2.1 ∧ traffic.Grows flow.2.2 := by
  cases hticked with
  | rested outcome hharmless hdecided => exact ⟨h, .refl traffic⟩
  | revoked outcome hdecided => exact ⟨.new, .refl traffic⟩
  | refreshed lifecycle current newToken hdecided htimed hheld hissued =>
    have hgrows := AuthApi.refreshAuthToken_grows api traffic current
    refine ⟨⟨⟨?_, h.wellFormed.twoFactor, ?_, by simp⟩, ?_, ?_⟩, hgrows⟩
    · intro hstate
      exact ⟨rfl, (h.wellFormed.authenticated hstate).2⟩
    · intro hclosed
      have hnone := (h.wellFormed.closed hclosed).1
      rw [hheld] at hnone
      cases hnone
    · intro token htoken
      exact Option.some.inj htoken ▸ AuthApi.refreshAuthToken_known api traffic hissued
    · exact fun challenge hc => (h.challenge challenge hc).mono hgrows.subset
  | lost current result hdecided => exact ⟨.new, AuthApi.refreshAuthToken_grows api traffic current⟩
  | kept current result hdecided =>
    have hgrows := AuthApi.refreshAuthToken_grows api traffic current
    exact ⟨h.mono hgrows.subset, hgrows⟩

end Sound

/-! ## The timers -/

/-- The timers as a login or a refresh sets them. Nothing in the daemon marks a session as used. -/
def Timed (policy : RefreshPolicy) (session : SessionManager) : Prop :=
  ∀ lifecycle, session.lifecycle = some lifecycle →
    lifecycle.lastUsedAt = lifecycle.establishedAt ∧
    lifecycle.expiresAt = satAdd lifecycle.establishedAt (asSecs policy.lifetime)

namespace Timed

variable {policy : RefreshPolicy} {session : SessionManager}

theorem of_none (h : session.lifecycle = none) : Timed policy session := fun lifecycle hsome => by
  rw [h] at hsome
  cases hsome

theorem of_kept (h : Timed policy session) {session' : SessionManager}
    (hkept : session'.lifecycle = session.lifecycle ∨ session'.lifecycle = none) : Timed policy session' := by
  rcases hkept with hsame | hnone
  · exact fun lifecycle hsome => h lifecycle (hsame ▸ hsome)
  · exact of_none hnone

theorem attached (session : SessionManager) (policy : RefreshPolicy) (nowSecs : Nat) (retained : Bool) :
    Timed policy (session.attachLifecycle nowSecs policy retained) := by
  rintro lifecycle ⟨⟩
  exact ⟨rfl, rfl⟩

theorem of_ticked {api : AuthApi} {nowSecs answeredSecs : Nat} {traffic : Traffic}
    {flow : Flowed RefreshLoopError TickOutcome} (h : Timed policy session)
    (hticked : Ticked api policy nowSecs answeredSecs session traffic flow) : Timed policy flow.2.1 := by
  cases hticked with
  | rested outcome hharmless hdecided => exact h
  | revoked outcome hdecided => exact of_none rfl
  | refreshed lifecycle current newToken hdecided htimed hheld hissued =>
    rintro _ ⟨⟩
    exact ⟨rfl, rfl⟩
  | lost current result hdecided => exact of_none rfl
  | kept current result hdecided => exact h

end Timed

theorem ProtocolAuthFlow.Settled.lifecycle {onFailed : Option String → AuthCommand} {begun session : SessionManager}
    {exchanges : List Exchange} {result : Except AuthFlowError AuthEvent}
    (h : ProtocolAuthFlow.Settled onFailed begun exchanges result session) :
    session.lifecycle = begun.lifecycle ∨ session.lifecycle = none := by
  cases h with
  | signedIn userId email authToken hknown => exact .inl rfl
  | challenged token trustDevice hissued => exact .inl rfl
  | refused message => exact begun.apply_lifecycle _
  | unanswered err => exact .inr rfl
  | stalled err => exact .inl rfl

theorem ProtocolAuthFlow.Settled.token {onFailed : Option String → AuthCommand} {begun session : SessionManager}
    {exchanges : List Exchange} {userId : Option UInt64}
    (h : ProtocolAuthFlow.Settled onFailed begun exchanges (.ok (.loginSucceeded userId)) session) :
    session.snapshot.authToken.isSome := by
  cases h with
  | signedIn userId email authToken hknown => rfl

end Pcloud.Auth
