import Pcloud.Model.Bytes

/-!
# The session state machine (`pcloud-auth/src/{state,commands,events,lifecycle,manager}.rs`)

A `&mut self` method returns what it answers beside the manager it leaves behind. Secrets are
their text, and durations are nanoseconds.
-/

namespace Pcloud.Auth

/-! ## States, commands and events -/

inductive SessionState
  | loggedOut
  | awaitingCredentials
  | authenticatingWithPassword
  | authenticatingWithToken
  | twoFactorRequired
  | authenticated
  | authFailed
deriving DecidableEq, Repr

/-- A login is under way. -/
def SessionState.IsLogin (state : SessionState) : Prop :=
  state = .authenticatingWithPassword ∨ state = .authenticatingWithToken

structure PendingChallenge where
  token : String
  trustDevice : Bool
deriving DecidableEq, Repr

structure SessionSnapshot where
  state : SessionState := .loggedOut
  authenticatedUser : Option UInt64 := none
  authToken : Option String := none
  email : Option String := none
  pendingChallenge : Option PendingChallenge := none
  lastAuthError : Option String := none
deriving DecidableEq, Repr

inductive AuthCommand
  | beginLogin
  | loginWithPassword (username password : String)
  | loginWithToken (token : String)
  | submitTwoFactorCode (code : String) (trustDevice : Bool)
  | markAuthenticated (userId : Option UInt64) (authToken : String)
  | markAuthenticationFailed (message : Option String)
  | markTwoFactorCodeInvalid (message : Option String)
  | logout
deriving DecidableEq, Repr

inductive AuthEvent
  | loginStarted
  | loginSucceeded (userId : Option UInt64)
  | loginFailed (message : Option String)
  | twoFactorChallengeIssued
  | loggedOut
  | tokenRefreshed (userId : Option UInt64)
  | tokenRefreshExpired (result : UInt64)
  | tokenRefreshTemporaryFailure (message : String)
deriving DecidableEq, Repr

inductive SessionManagerError
  | noPendingChallenge
  | invalidAuthenticatedTransition
deriving DecidableEq, Repr

/-! ## Timing -/

def nanosPerSec : Nat := 1000000000

def asSecs (duration : Nat) : Nat := duration / nanosPerSec

/-- `refreshAfterSecs` stands for what `refresh_after_secs` makes of the lifetime and of the
threshold, a product of floating-point numbers. -/
structure RefreshPolicy where
  lifetime : Nat
  refreshAfterSecs : Nat
  maxIdle : Option Nat
deriving DecidableEq, Repr

structure SessionLifecycle where
  establishedAt : Nat
  expiresAt : Nat
  lastUsedAt : Nat
  credentialsRetained : Bool
deriving DecidableEq, Repr

namespace SessionLifecycle

def new (nowSecs : Nat) (policy : RefreshPolicy) (credentialsRetained : Bool) : SessionLifecycle where
  establishedAt := nowSecs
  expiresAt := satAdd nowSecs (asSecs policy.lifetime)
  lastUsedAt := nowSecs
  credentialsRetained := credentialsRetained

variable (lifecycle : SessionLifecycle) (nowSecs : Nat) (policy : RefreshPolicy)

def markUsed : SessionLifecycle := { lifecycle with lastUsedAt := nowSecs }

def shouldRefresh : Bool :=
  decide (nowSecs ≥ satAdd lifecycle.establishedAt policy.refreshAfterSecs)

def isExpired : Bool := decide (nowSecs ≥ lifecycle.expiresAt)

def isIdleExpired : Bool :=
  match policy.maxIdle with
  | some max => decide (nowSecs - lifecycle.lastUsedAt ≥ asSecs max)
  | none => false

def recordRefresh : SessionLifecycle :=
  { lifecycle with
    establishedAt := nowSecs
    expiresAt := satAdd nowSecs (asSecs policy.lifetime)
    lastUsedAt := nowSecs }

end SessionLifecycle

/-! ## The manager -/

structure SessionManager where
  snapshot : SessionSnapshot := {}
  lifecycle : Option SessionLifecycle := none
deriving DecidableEq, Repr

namespace SessionManager

def new : SessionManager := {}

variable (session : SessionManager)

def attachLifecycle (nowSecs : Nat) (policy : RefreshPolicy) (credentialsRetained : Bool) : SessionManager :=
  { session with lifecycle := some (.new nowSecs policy credentialsRetained) }

def markUsed (nowSecs : Nat) : SessionManager :=
  { session with lifecycle := session.lifecycle.map (·.markUsed nowSecs) }

def recordRefresh (nowSecs : Nat) (policy : RefreshPolicy) (newToken : String) :
    Except SessionManagerError Unit × SessionManager :=
  if session.snapshot.state ≠ .authenticated then (.error .invalidAuthenticatedTransition, session)
  else
    (.ok (), {
      snapshot := { session.snapshot with authToken := some newToken }
      lifecycle :=
        match session.lifecycle with
        | some lifecycle => some (lifecycle.recordRefresh nowSecs policy)
        | none => some (.new nowSecs policy false) })

def revoke (_session : SessionManager) : AuthEvent × SessionManager :=
  (.loggedOut, { snapshot := {}, lifecycle := none })

def updateUserinfo (userId : Option UInt64) (email : Option String) :
    Except SessionManagerError Unit × SessionManager :=
  match session.snapshot.state with
  | .authenticated =>
    (.ok (), { session with
      snapshot := { session.snapshot with
        authenticatedUser := userId.or session.snapshot.authenticatedUser
        email := email } })
  | _ => (.error .invalidAuthenticatedTransition, session)

def replaceAuthToken (authToken : String) : Except SessionManagerError Unit × SessionManager :=
  match session.snapshot.state with
  | .authenticated =>
    (.ok (), { session with snapshot := { session.snapshot with authToken := some authToken } })
  | _ => (.error .invalidAuthenticatedTransition, session)

def apply (command : AuthCommand) : Except SessionManagerError AuthEvent × SessionManager :=
  let snapshot := session.snapshot
  match command with
  | .beginLogin =>
    (.ok .loginStarted, { session with
      snapshot := { snapshot with state := .awaitingCredentials, lastAuthError := none } })
  | .loginWithPassword _ _ =>
    (.ok .loginStarted, { session with
      snapshot := { snapshot with
        state := .authenticatingWithPassword, pendingChallenge := none, lastAuthError := none } })
  | .loginWithToken _ =>
    (.ok .loginStarted, { session with
      snapshot := { snapshot with
        state := .authenticatingWithToken, pendingChallenge := none, lastAuthError := none } })
  | .submitTwoFactorCode _ trustDevice =>
    match snapshot.pendingChallenge with
    | none => (.error .noPendingChallenge, session)
    | some challenge =>
      (.ok .loginStarted, { session with
        snapshot := { snapshot with
          state := .authenticatingWithPassword
          pendingChallenge := some { challenge with trustDevice := trustDevice } } })
  | .markAuthenticated userId authToken =>
    match snapshot.state with
    | .authenticatingWithPassword | .authenticatingWithToken | .twoFactorRequired =>
      (.ok (.loginSucceeded userId), { session with
        snapshot := { snapshot with
          state := .authenticated
          authenticatedUser := userId
          authToken := some authToken
          pendingChallenge := none
          lastAuthError := none } })
    | _ => (.error .invalidAuthenticatedTransition, session)
  | .markAuthenticationFailed message =>
    (.ok (.loginFailed message), {
      snapshot := { state := .authFailed, lastAuthError := message }
      lifecycle := none })
  | .markTwoFactorCodeInvalid message =>
    (.ok (.loginFailed message), { session with
      snapshot := { snapshot with lastAuthError := message } })
  | .logout => (.ok .loggedOut, { snapshot := {}, lifecycle := none })

def issueTwoFactorChallenge (token : String) (trustDevice : Bool) : AuthEvent × SessionManager :=
  (.twoFactorChallengeIssued, { session with
    snapshot := { session.snapshot with
      state := .twoFactorRequired
      pendingChallenge := some ⟨token, trustDevice⟩
      lastAuthError := none } })

/-! ## What a session holds in each state -/

/-- The state says which secrets are held, and nothing outlives the token. -/
structure WellFormed : Prop where
  authenticated : session.snapshot.state = .authenticated →
    session.snapshot.authToken.isSome ∧ session.snapshot.pendingChallenge = none
  twoFactor : session.snapshot.state = .twoFactorRequired → session.snapshot.pendingChallenge.isSome
  closed : session.snapshot.state = .loggedOut ∨ session.snapshot.state = .authFailed →
    session.snapshot.authToken = none ∧ session.snapshot.pendingChallenge = none
  identity : session.snapshot.authToken = none →
    session.snapshot.authenticatedUser = none ∧ session.snapshot.email = none ∧ session.lifecycle = none

variable {session}

theorem wellFormed_new : new.WellFormed := by
  constructor <;> simp [new]

/-- Signed in as the last steps of every login leave it. -/
def signedIn (session : SessionManager) (userId : Option UInt64) (email : Option String)
    (authToken : String) : SessionManager :=
  { session with
    snapshot := {
      state := .authenticated
      authenticatedUser := userId
      authToken := some authToken
      email := email } }

theorem WellFormed.signedIn (userId : Option UInt64) (email : Option String) (authToken : String) :
    (session.signedIn userId email authToken).WellFormed := by
  constructor <;> simp [SessionManager.signedIn]

theorem wellFormed_failed (message : Option String) :
    WellFormed { snapshot := { state := .authFailed, lastAuthError := message }, lifecycle := none } := by
  constructor <;> simp

theorem WellFormed.apply (h : session.WellFormed) (command : AuthCommand) :
    (session.apply command).2.WellFormed := by
  obtain ⟨hauth, htwo, hclosed, hid⟩ := h
  unfold SessionManager.apply
  cases command with
  | submitTwoFactorCode code trustDevice =>
    dsimp only
    split
    · exact ⟨hauth, htwo, hclosed, hid⟩
    · constructor <;> simp_all
  | markAuthenticated userId authToken =>
    dsimp only
    split
    · constructor <;> simp
    · constructor <;> simp
    · constructor <;> simp
    · exact ⟨hauth, htwo, hclosed, hid⟩
  | markTwoFactorCodeInvalid message => exact ⟨hauth, htwo, hclosed, hid⟩
  | beginLogin => exact ⟨by simp, by simp, by simp, hid⟩
  | loginWithPassword username password => exact ⟨by simp, by simp, by simp, hid⟩
  | loginWithToken token => exact ⟨by simp, by simp, by simp, hid⟩
  | markAuthenticationFailed message => exact wellFormed_failed message
  | logout => exact wellFormed_new

theorem WellFormed.issueTwoFactorChallenge (h : session.WellFormed) (token : String) (trustDevice : Bool) :
    (session.issueTwoFactorChallenge token trustDevice).2.WellFormed :=
  ⟨by simp [SessionManager.issueTwoFactorChallenge], by simp [SessionManager.issueTwoFactorChallenge],
    by simp [SessionManager.issueTwoFactorChallenge], h.identity⟩

theorem WellFormed.updateUserinfo (h : session.WellFormed) (userId : Option UInt64) (email : Option String) :
    (session.updateUserinfo userId email).2.WellFormed := by
  obtain ⟨hauth, htwo, hclosed, hid⟩ := h
  unfold SessionManager.updateUserinfo
  split
  · rename_i hstate
    have htoken := (hauth hstate).1
    exact ⟨hauth, htwo, hclosed, fun hnone => by simp_all⟩
  · exact ⟨hauth, htwo, hclosed, hid⟩

theorem updateUserinfo_keeps (session : SessionManager) (userId : Option UInt64) (email : Option String) :
    (session.updateUserinfo userId email).2.snapshot.state = session.snapshot.state ∧
    (session.updateUserinfo userId email).2.snapshot.authToken = session.snapshot.authToken ∧
    (session.updateUserinfo userId email).2.snapshot.pendingChallenge = session.snapshot.pendingChallenge ∧
    (session.updateUserinfo userId email).2.lifecycle = session.lifecycle := by
  unfold SessionManager.updateUserinfo
  split <;> exact ⟨rfl, rfl, rfl, rfl⟩

theorem WellFormed.attachLifecycle (h : session.WellFormed) (htoken : session.snapshot.authToken.isSome)
    (nowSecs : Nat) (policy : RefreshPolicy) (credentialsRetained : Bool) :
    (session.attachLifecycle nowSecs policy credentialsRetained).WellFormed :=
  ⟨h.authenticated, h.twoFactor, h.closed, fun hnone => by
    simp [SessionManager.attachLifecycle] at hnone
    simp [hnone] at htoken⟩

theorem apply_lifecycle (session : SessionManager) (command : AuthCommand) :
    (session.apply command).2.lifecycle = session.lifecycle ∨ (session.apply command).2.lifecycle = none := by
  unfold SessionManager.apply
  cases command with
  | submitTwoFactorCode code trustDevice => dsimp only; split <;> exact .inl rfl
  | markAuthenticated userId authToken => dsimp only; split <;> exact .inl rfl
  | markAuthenticationFailed message => exact .inr rfl
  | logout => exact .inr rfl
  | beginLogin | loginWithPassword _ _ | loginWithToken _ | markTwoFactorCodeInvalid _ => exact .inl rfl

end SessionManager

end Pcloud.Auth
