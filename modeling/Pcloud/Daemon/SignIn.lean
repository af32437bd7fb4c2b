import Mathlib.Data.List.DropRight
import Pcloud.Auth.AuthFlow
import Pcloud.Ipc.Protocol
import Pcloud.Lib.Runs
import Pcloud.Store.SyncGraph

/-!
# The daemon's session (`pcloud-daemon/src/{runtime,bootstrap,serve,sync_loop_runtime}.rs`, `vault/*.rs`)

The part of `RuntimeShell` that the requests about the session touch, and what they leave behind:
the token file, the saved profile, and the vault that a start has selected, which need not be the
file. Which of these operations fail is an input of each request. The sync loop has a copy of the
token, which only a start sets. The texts of the responses and the audit rows are left out.
-/

namespace Pcloud.Auth

open SyncGraph (AccountRecord)
open Ipc (ResponseStatus)

/-! ## The token file -/

def isAsciiWhitespace (c : Char) : Bool :=
  c = ' ' || c = '\t' || c = '\n' || c = '\r' || c = Char.ofNat 12

def trimToken (text : String) : String :=
  String.ofList ((text.toList.dropWhile isAsciiWhitespace).rdropWhile isAsciiWhitespace)

theorem trimToken_trimToken (text : String) : trimToken (trimToken text) = trimToken text := by
  have hleft : ((text.toList.dropWhile isAsciiWhitespace).rdropWhile isAsciiWhitespace).dropWhile
      isAsciiWhitespace = (text.toList.dropWhile isAsciiWhitespace).rdropWhile isAsciiWhitespace := by
    cases hm : (text.toList.dropWhile isAsciiWhitespace).rdropWhile isAsciiWhitespace with
    | nil => rfl
    | cons c rest =>
      have hprefix := List.rdropWhile_prefix isAsciiWhitespace (text.toList.dropWhile isAsciiWhitespace)
      rw [hm] at hprefix
      obtain ⟨after, hafter⟩ := hprefix
      have hhead := List.head?_dropWhile_not isAsciiWhitespace text.toList
      rw [← hafter] at hhead
      exact List.dropWhile_cons_of_neg (by simpa using hhead)
  simp only [trimToken, String.toList_ofList]
  rw [hleft, List.rdropWhile_idempotent]

/-- `load_token`, of a file that passes its checks. -/
def loadToken (file : Option String) : Option String :=
  file.bind fun text => if (trimToken text).isEmpty then none else some (trimToken text)

/-- How a write ends. `store_token` may fail once the file is in place. -/
inductive WriteOutcome
  | done
  | failed
  | failedAfter
deriving DecidableEq, Repr

def storeToken (file : Option String) (token : String) : WriteOutcome → Bool × Option String
  | .done => (true, some token)
  | .failed => (false, file)
  | .failedAfter => (false, some token)

/-- A keychain may report a failure once the token is gone. -/
def clearToken (file : Option String) : WriteOutcome → Bool × Option String
  | .done => (true, none)
  | .failed => (false, file)
  | .failedAfter => (false, none)

/-- What `sync_auth_vault` and `restore_vault_state` do with the file for a token. -/
def writeToken (durable : Bool) (file token : Option String) (outcome : WriteOutcome) : Bool × Option String :=
  match durable, token with
  | true, some token => storeToken file token outcome
  | _, _ => clearToken file outcome

/-- The disk operations of a request that fail, in the order they come in. -/
structure Faults where
  load : Bool := false
  vault : WriteOutcome := .done
  /-- Of the token file that a start clears beside its vault. -/
  stale : WriteOutcome := .done
  store : Bool := false
  restoreStore : Bool := false
  restoreVault : WriteOutcome := .done
  audit : Bool := false
deriving DecidableEq, Repr

/-! ## The runtime -/

structure PendingPasswordAuth where
  username : String
  password : String
deriving DecidableEq, Repr

/-- What the requests about the session write into the profile. -/
structure StoredProfile where
  primaryAccount : Option AccountRecord := none
  durableAuthTokensEnabled : Option Bool := none
deriving DecidableEq, Repr

structure RuntimeShell where
  /-- Whether the process runs. -/
  up : Bool := true
  auth : SessionManager := .new
  pendingPasswordAuth : Option PendingPasswordAuth := none
  durableAuthTokensEnabled : Bool := false
  store : StoredProfile := {}
  saved : StoredProfile := {}
  /-- The token file. -/
  vault : Option String := none
  /-- The vault of the platform: a keychain, a Secret Service or a DPAPI file. -/
  platformVault : Option String := none
  /-- The copy that the sync loop polls and transfers with. -/
  loopToken : Option String := none
  traffic : Traffic := {}

def mapAuthFlowError : AuthFlowError → ResponseStatus
  | .session _ => .conflict
  | .protocol _ => .unavailable

def desiredAccountRecord (auth : SessionManager) : Option AccountRecord :=
  match auth.snapshot.authenticatedUser, auth.snapshot.email with
  | some userId, some email => some ⟨userId, email, auth.snapshot.authToken.isSome⟩
  | _, _ => none

namespace RuntimeShell

variable (shell : RuntimeShell) (faults : Faults)

/-! ### Persistence -/

/-- `persist_profile`: all of it is saved, or nothing. -/
def persistProfile (fails : Bool) : Bool × RuntimeShell :=
  if fails then (false, shell) else (true, { shell with saved := shell.store })

def restoreVaultState (token : Option String) (outcome : WriteOutcome) : Bool × RuntimeShell :=
  let written := writeToken shell.durableAuthTokensEnabled shell.vault token outcome
  (written.1, { shell with vault := written.2 })

def syncAuthVault (outcome : WriteOutcome) : Bool × RuntimeShell :=
  shell.restoreVaultState shell.auth.snapshot.authToken outcome

def syncAccountStore (fails : Bool) : Bool × RuntimeShell :=
  { shell with
    store := { shell.store with primaryAccount := desiredAccountRecord shell.auth } }.persistProfile fails

def persistAuthState : Bool × RuntimeShell :=
  if faults.load then (false, shell)
  else
    let synced := shell.syncAuthVault faults.vault
    if synced.1 then
      let stored := synced.2.syncAccountStore faults.store
      if stored.1 then (true, stored.2)
      else
        let back := { stored.2 with
          store := { stored.2.store with primaryAccount := shell.store.primaryAccount } }
        (false, (back.restoreVaultState (loadToken shell.vault) faults.restoreVault).2)
    else (false, synced.2)

def auditedResponse : ResponseStatus := if faults.audit then .internalError else .ok

def authResponse (policy : RefreshPolicy) (nowSecs : Nat) (event : AuthEvent) :
    ResponseStatus × RuntimeShell :=
  let shell :=
    match event with
    | .loginSucceeded _ =>
      { shell with
        pendingPasswordAuth := none
        auth := shell.auth.attachLifecycle nowSecs policy false }
    | .loginFailed _ | .loggedOut => { shell with pendingPasswordAuth := none }
    | _ => shell
  let persisted := shell.persistAuthState faults
  (if persisted.1 then auditedResponse faults else .internalError, persisted.2)

theorem authResponse_cases (policy : RefreshPolicy) (nowSecs : Nat) (event : AuthEvent) :
    ∃ after : RuntimeShell,
      ((∃ userId, event = .loginSucceeded userId ∧ after = { shell with
        pendingPasswordAuth := none
        auth := shell.auth.attachLifecycle nowSecs policy false }) ∨
      after = { shell with pendingPasswordAuth := none } ∨ after = shell) ∧
      (shell.authResponse faults policy nowSecs event).2 = (after.persistAuthState faults).2 := by
  cases event with
  | loginSucceeded userId => exact ⟨_, .inl ⟨userId, rfl, rfl⟩, rfl⟩
  | loginFailed message => exact ⟨_, .inr (.inl rfl), rfl⟩
  | loggedOut => exact ⟨_, .inr (.inl rfl), rfl⟩
  | _ => exact ⟨_, .inr (.inr rfl), rfl⟩

/-! ### The requests -/

variable (api : AuthApi) (policy : RefreshPolicy) (nowSecs : Nat)

def loginBegin : ResponseStatus × RuntimeShell :=
  match shell.auth.apply .beginLogin with
  | (.ok _, auth) => (.ok, { shell with auth := auth })
  | (.error _, auth) => (.conflict, { shell with auth := auth })

/-- The end of the requests that sign in. -/
def answer (flow : Flowed AuthFlowError AuthEvent) : ResponseStatus × RuntimeShell :=
  match flow with
  | (.ok event, auth, traffic) =>
    { shell with auth := auth, traffic := traffic }.authResponse faults policy nowSecs event
  | (.error err, auth, traffic) =>
    (mapAuthFlowError err, { shell with auth := auth, traffic := traffic })

def passwordSubmission (username password : String) : ResponseStatus × RuntimeShell :=
  let shell := { shell with pendingPasswordAuth := some ⟨username, password⟩ }
  match ProtocolAuthFlow.loginWithPassword api shell.auth shell.traffic username password with
  | (.ok event, auth, traffic) =>
    { shell with auth := auth, traffic := traffic }.authResponse faults policy nowSecs event
  | (.error err, auth, traffic) =>
    (mapAuthFlowError err,
      { shell with auth := auth, traffic := traffic, pendingPasswordAuth := none })

def authTokenSubmission (token : String) : ResponseStatus × RuntimeShell :=
  shell.answer faults policy nowSecs (ProtocolAuthFlow.loginWithToken api shell.auth shell.traffic token)

/-- A challenge without a token is answered with the password once more. -/
def twoFactorFlow (code : String) (trustDevice recoveryCode : Bool) : Flowed AuthFlowError AuthEvent :=
  if (shell.auth.snapshot.pendingChallenge.map fun challenge => challenge.token.isEmpty).getD false then
    match shell.pendingPasswordAuth with
    | some pending =>
      ProtocolAuthFlow.submitTwoFactorCodeWithPassword api shell.auth shell.traffic pending.username
        pending.password code
    | none => (.error (.session .noPendingChallenge), shell.auth, shell.traffic)
  else
    ProtocolAuthFlow.submitTwoFactorCode api shell.auth shell.traffic code trustDevice recoveryCode

def twoFactorCodeSubmission (code : String) (trustDevice recoveryCode : Bool) :
    ResponseStatus × RuntimeShell :=
  shell.answer faults policy nowSecs (shell.twoFactorFlow api code trustDevice recoveryCode)

/-- The mount and the crypto state are dropped first. -/
def logout : ResponseStatus × RuntimeShell :=
  match shell.auth.apply .logout with
  | (.ok event, auth) => { shell with auth := auth }.authResponse faults policy nowSecs event
  | (.error _, auth) => (.conflict, { shell with auth := auth })

def fetchUserinfo : ResponseStatus × RuntimeShell :=
  match shell.auth.snapshot.authToken with
  | none => (.conflict, shell)
  | some authToken =>
    match api.userinfo shell.traffic authToken with
    | (.error err, traffic) => (mapAuthFlowError (.protocol err), { shell with traffic := traffic })
    | (.ok info, traffic) =>
      match shell.auth.updateUserinfo info.userId info.email with
      | (.error _, auth) => (.conflict, { shell with auth := auth, traffic := traffic })
      | (.ok (), auth) =>
        let stored := { shell with auth := auth, traffic := traffic }.syncAccountStore faults.store
        (if stored.1 then .ok else .internalError, stored.2)

def accountChangePassword (currentPassword newPassword : String) : ResponseStatus × RuntimeShell :=
  match shell.auth.snapshot.authToken with
  | none => (.conflict, shell)
  | some authToken =>
    if currentPassword.isEmpty || newPassword.isEmpty then (.invalidRequest, shell)
    else
      match api.changePassword shell.traffic authToken currentPassword newPassword "pcloudc" with
      | (.error _, traffic) => (.internalError, { shell with traffic := traffic })
      | (.ok newToken, traffic) =>
        match shell.auth.apply (.markAuthenticated shell.auth.snapshot.authenticatedUser newToken) with
        | (.error _, auth) => (.internalError, { shell with auth := auth, traffic := traffic })
        | (.ok _, auth) => (auditedResponse faults, { shell with auth := auth, traffic := traffic })

/-- The two places of the feature flag. -/
def withDurable (enabled : Bool) (preference : Option Bool) : RuntimeShell :=
  { shell with
    durableAuthTokensEnabled := enabled
    store := { shell.store with durableAuthTokensEnabled := preference } }

def setAuthPersistence (enabled : Bool) : ResponseStatus × RuntimeShell :=
  let goBack (after : RuntimeShell) :=
    after.withDurable shell.durableAuthTokensEnabled shell.store.durableAuthTokensEnabled
  if faults.load then (.internalError, shell)
  else
    let stored := (shell.withDurable enabled (some enabled)).persistProfile faults.store
    if stored.1 then
      let synced := stored.2.syncAuthVault faults.vault
      if synced.1 then (auditedResponse faults, synced.2)
      else
        let back := ((goBack synced.2).persistProfile faults.restoreStore).2
        (.internalError, (back.restoreVaultState (loadToken shell.vault) faults.restoreVault).2)
    else (.internalError, goBack stored.2)

/-- `run_refresh_tick`. -/
def refreshTick (inFlight : Bool) (answeredSecs : Nat) : Except RefreshLoopError TickOutcome × RuntimeShell :=
  let (outcome, auth, traffic) := tick api policy inFlight nowSecs answeredSecs shell.auth shell.traffic
  (outcome, { shell with auth := auth, traffic := traffic })

/-! ### Starting -/

structure BootstrapCredentials where
  token : Option String := none
  username : Option String := none
  password : Option String := none
  twoFactorCode : Option String := none
  recoveryCode : Option String := none
  trustDevice : Bool := false
deriving DecidableEq, Repr

def BootstrapCredentials.attempted (creds : BootstrapCredentials) : Bool :=
  creds.token.isSome || creds.username.isSome || creds.password.isSome || creds.twoFactorCode.isSome ||
    creds.recoveryCode.isSome

/-- What is left of a process that ends: its files, and what it sent. -/
def exited : RuntimeShell where
  up := false
  saved := shell.saved
  vault := shell.vault
  platformVault := shell.platformVault
  traffic := { exchanges := shell.traffic.exchanges }

/-- What `select_vault` gives is the token file, or the vault of the platform. -/
def loadVault (fileVault : Bool) : Option String :=
  if fileVault then loadToken shell.vault else shell.platformVault

def writeVault (fileVault : Bool) (token : Option String) (outcome : WriteOutcome) : Bool × RuntimeShell :=
  if fileVault then
    let written := writeToken true shell.vault token outcome
    (written.1, { shell with vault := written.2 })
  else
    let written := writeToken true shell.platformVault token outcome
    (written.1, { shell with platformVault := written.2 })

def syncBootstrapAuthState (fileVault : Bool) : RuntimeShell :=
  let known := { shell with
    store := { shell.store with primaryAccount := desiredAccountRecord shell.auth } }
  let synced :=
    if known.durableAuthTokensEnabled then
      known.writeVault fileVault known.auth.snapshot.authToken faults.vault
    else (true, known)
  if synced.1 then
    let stored := synced.2.persistProfile faults.store
    if stored.1 then stored.2 else stored.2.exited
  else synced.2.exited

def settled (flow : Flowed AuthFlowError AuthEvent) : RuntimeShell :=
  { shell with auth := flow.2.1, traffic := flow.2.2 }

def submitBootstrapCode (fileVault : Bool) (code : String) (trustDevice recoveryCode : Bool) : RuntimeShell :=
  let flow := ProtocolAuthFlow.submitTwoFactorCode api shell.auth shell.traffic code trustDevice recoveryCode
  let shell := shell.settled flow
  match flow.1 with
  | .error _ => shell.exited
  | .ok _ => shell.syncBootstrapAuthState faults fileVault

/-- `apply_bootstrap_credentials_with_vault`, once there are credentials. -/
def applyBootstrapCredentials (fileVault : Bool) (creds : BootstrapCredentials) : RuntimeShell :=
  match creds.token with
  | some token =>
    let flow := ProtocolAuthFlow.loginWithToken api shell.auth shell.traffic token
    let shell := shell.settled flow
    match flow.1 with
    | .error _ => shell.exited
    | .ok _ => shell.syncBootstrapAuthState faults fileVault
  | none =>
    match creds.username, creds.password with
    | some username, some password =>
      let flow := ProtocolAuthFlow.loginWithPassword api shell.auth shell.traffic username password
      let shell := shell.settled flow
      match flow.1 with
      | .error _ => shell.exited
      | .ok _ =>
        if shell.auth.snapshot.pendingChallenge.isSome then
          match creds.recoveryCode, creds.twoFactorCode with
          | some code, none => shell.submitBootstrapCode faults api fileVault code creds.trustDevice true
          | none, some code => shell.submitBootstrapCode faults api fileVault code creds.trustDevice false
          | _, _ => shell.exited
        else shell.syncBootstrapAuthState faults fileVault
    | _, _ => shell.exited

/-- The start with the token of its vault, where the feature is on. -/
def restoreFromVault (fileVault : Bool) : RuntimeShell :=
  if !shell.durableAuthTokensEnabled then shell
  else if faults.load then shell.exited
  else
    match shell.loadVault fileVault with
    | none => shell
    | some token =>
      let flow := ProtocolAuthFlow.loginWithToken api shell.auth shell.traffic token
      let shell := shell.settled flow
      match flow.1 with
      | .ok _ => shell.syncBootstrapAuthState faults fileVault
      | .error _ =>
        let cleared := shell.writeVault fileVault none faults.vault
        if cleared.1 then
          let stored := { cleared.2 with
            vault := (clearToken cleared.2.vault faults.stale).2
            store := { shell.store with primaryAccount := none } }.persistProfile faults.store
          if stored.1 then stored.2 else stored.2.exited
        else cleared.2.exited

/-- A new process: all it knows is on disk, and in its configuration. -/
def reopened (durable : Bool) : RuntimeShell where
  durableAuthTokensEnabled := shell.saved.durableAuthTokensEnabled.getD durable
  store := shell.saved
  saved := shell.saved
  vault := shell.vault
  platformVault := shell.platformVault
  traffic := { exchanges := shell.traffic.exchanges }

/-- `spawn_daemon_sync_loop`. The handle it gives back is dropped. -/
def spawnSyncLoop : RuntimeShell := { shell with loopToken := shell.auth.snapshot.authToken }

/-- What a start reads from its configuration. -/
structure StartConfig where
  durable : Bool := false
  fileVault : Bool := true
deriving DecidableEq, Repr

def bootstrap (config : StartConfig) (creds : BootstrapCredentials) : RuntimeShell :=
  let started :=
    if creds.attempted then
      (shell.reopened config.durable).applyBootstrapCredentials faults api config.fileVault creds
    else (shell.reopened config.durable).restoreFromVault faults api config.fileVault
  started.spawnSyncLoop

end RuntimeShell

/-! ## Runs -/

inductive SessionEvent
  | loginBegin
  | passwordSubmission (username password : String)
  | authTokenSubmission (token : String)
  | twoFactorCodeSubmission (code : String) (trustDevice recoveryCode : Bool)
  | logout
  | getUserInfo
  | accountChangePassword (currentPassword newPassword : String)
  | authPersistence (enabled : Bool)
  | refreshTick (inFlight : Bool) (answeredSecs : Nat)
  | restart (config : RuntimeShell.StartConfig) (creds : RuntimeShell.BootstrapCredentials)
deriving DecidableEq, Repr

structure Call where
  event : SessionEvent
  nowSecs : Nat
  faults : Faults := {}
deriving DecidableEq, Repr

/-- What every call of a run has in common: the server, and the policy of the supervisor. -/
structure Setting where
  api : AuthApi
  policy : RefreshPolicy

namespace RuntimeShell

variable (setting : Setting)

/-- A process that runs serves one request. -/
def serve (shell : RuntimeShell) (call : Call) : RuntimeShell :=
  let ⟨api, policy⟩ := setting
  match call.event with
  | .loginBegin => shell.loginBegin.2
  | .passwordSubmission username password =>
    (shell.passwordSubmission call.faults api policy call.nowSecs username password).2
  | .authTokenSubmission token => (shell.authTokenSubmission call.faults api policy call.nowSecs token).2
  | .twoFactorCodeSubmission code trustDevice recoveryCode =>
    (shell.twoFactorCodeSubmission call.faults api policy call.nowSecs code trustDevice recoveryCode).2
  | .logout => (shell.logout call.faults policy call.nowSecs).2
  | .getUserInfo => (shell.fetchUserinfo call.faults api).2
  | .accountChangePassword currentPassword newPassword =>
    (shell.accountChangePassword call.faults api currentPassword newPassword).2
  | .authPersistence enabled => (shell.setAuthPersistence call.faults enabled).2
  | .refreshTick inFlight answeredSecs =>
    (shell.refreshTick api policy call.nowSecs inFlight answeredSecs).2
  | .restart config creds => shell.bootstrap call.faults api config creds

/-- Only a start reaches a process that does not run. -/
def step (shell : RuntimeShell) (call : Call) : RuntimeShell :=
  match call.event with
  | .restart _ _ => shell.serve setting call
  | _ => if shell.up then shell.serve setting call else shell

/-- Nothing was ever started here. -/
def fresh : RuntimeShell := { up := false }

/-! ### What persistence leaves alone -/

/-- The session is the same, and each vault holds what it held, or the token held, or nothing. -/
structure Persists (shell shell' : RuntimeShell) : Prop where
  up : shell'.up = shell.up
  auth : shell'.auth = shell.auth
  pending : shell'.pendingPasswordAuth = shell.pendingPasswordAuth
  loop : shell'.loopToken = shell.loopToken
  traffic : shell'.traffic = shell.traffic
  vault : ∀ P : Option String → Prop, P none → P shell.vault → P (loadToken shell.vault) →
    P shell.auth.snapshot.authToken → P shell'.vault
  platform : ∀ P : Option String → Prop, P none → P shell.platformVault →
    P shell.auth.snapshot.authToken → P shell'.platformVault

variable {setting} {shell : RuntimeShell} {faults : Faults}

theorem clearToken_keeps {P : Option String → Prop} {file : Option String} (hnone : P none) (hfile : P file)
    (outcome : WriteOutcome) : P (clearToken file outcome).2 := by
  cases outcome
  · exact hnone
  · exact hfile
  · exact hnone

theorem writeToken_keeps {P : Option String → Prop} {durable : Bool} {file token : Option String}
    (hnone : P none) (hfile : P file) (htoken : P token) (outcome : WriteOutcome) :
    P (writeToken durable file token outcome).2 := by
  unfold writeToken
  split
  · cases outcome
    · exact htoken
    · exact hfile
    · exact htoken
  · exact clearToken_keeps hnone hfile outcome

theorem persistProfile_eq (shell : RuntimeShell) (fails : Bool) :
    ∃ saved, (shell.persistProfile fails).2 = { shell with saved := saved } := by
  cases fails
  · exact ⟨shell.store, rfl⟩
  · exact ⟨shell.saved, rfl⟩

theorem syncAccountStore_eq (shell : RuntimeShell) (fails : Bool) :
    ∃ store saved, (shell.syncAccountStore fails).2 = { shell with store := store, saved := saved } := by
  obtain ⟨saved, h⟩ := persistProfile_eq { shell with
    store := { shell.store with primaryAccount := desiredAccountRecord shell.auth } } fails
  exact ⟨_, saved, h⟩

theorem Persists.of_vault {shell' : RuntimeShell} (up : shell'.up = shell.up) (auth : shell'.auth = shell.auth)
    (pending : shell'.pendingPasswordAuth = shell.pendingPasswordAuth) (loop : shell'.loopToken = shell.loopToken)
    (traffic : shell'.traffic = shell.traffic)
    (vault : ∀ P : Option String → Prop, P none → P shell.vault → P (loadToken shell.vault) →
      P shell.auth.snapshot.authToken → P shell'.vault)
    (platform : shell'.platformVault = shell.platformVault) : shell.Persists shell' :=
  ⟨up, auth, pending, loop, traffic, vault, fun _ _ hplatform _ => platform ▸ hplatform⟩

theorem Persists.of_store (shell : RuntimeShell) (durable : Bool) (store saved : StoredProfile) :
    shell.Persists { shell with durableAuthTokensEnabled := durable, store := store, saved := saved } :=
  .of_vault rfl rfl rfl rfl rfl (fun _ _ hvault _ _ => hvault) rfl

theorem persistAuthState_persists (shell : RuntimeShell) (faults : Faults) :
    shell.Persists (shell.persistAuthState faults).2 := by
  unfold persistAuthState
  split
  · exact .of_store shell ..
  · dsimp only
    obtain ⟨store, saved, hstored⟩ := syncAccountStore_eq (shell.syncAuthVault faults.vault).2 faults.store
    split
    · rw [hstored]
      split
      · exact .of_vault rfl rfl rfl rfl rfl
          (fun _ hnone hvault _ htoken => writeToken_keeps hnone hvault htoken _) rfl
      · exact .of_vault rfl rfl rfl rfl rfl (fun _ hnone hvault hloaded htoken =>
          writeToken_keeps hnone (writeToken_keeps hnone hvault htoken _) hloaded _) rfl
    · exact .of_vault rfl rfl rfl rfl rfl
        (fun _ hnone hvault _ htoken => writeToken_keeps hnone hvault htoken _) rfl

theorem setAuthPersistence_persists (shell : RuntimeShell) (faults : Faults) (enabled : Bool) :
    shell.Persists (shell.setAuthPersistence faults enabled).2 := by
  unfold setAuthPersistence
  dsimp only
  split
  · exact .of_store shell ..
  · obtain ⟨saved, hstored⟩ := persistProfile_eq (shell.withDurable enabled (some enabled)) faults.store
    rw [hstored]
    split
    · split
      · exact .of_vault rfl rfl rfl rfl rfl
          (fun _ hnone hvault _ htoken => writeToken_keeps hnone hvault htoken _) rfl
      · obtain ⟨saved', hback⟩ := persistProfile_eq
          ((({ shell.withDurable enabled (some enabled) with saved := saved }).syncAuthVault faults.vault).2.withDurable
            shell.durableAuthTokensEnabled shell.store.durableAuthTokensEnabled) faults.restoreStore
        rw [hback]
        exact .of_vault rfl rfl rfl rfl rfl (fun _ hnone hvault hloaded htoken =>
          writeToken_keeps hnone (writeToken_keeps hnone hvault htoken _) hloaded _) rfl
    · exact .of_store shell ..

theorem writeVault_up (shell : RuntimeShell) (fileVault : Bool) (token : Option String) (outcome : WriteOutcome) :
    (shell.writeVault fileVault token outcome).2.up = shell.up := by
  cases fileVault <;> rfl

theorem writeVault_auth (shell : RuntimeShell) (fileVault : Bool) (token : Option String) (outcome : WriteOutcome) :
    (shell.writeVault fileVault token outcome).2.auth = shell.auth := by
  cases fileVault <;> rfl

theorem writeVault_store (shell : RuntimeShell) (fileVault : Bool) (token : Option String) (outcome : WriteOutcome) :
    (shell.writeVault fileVault token outcome).2.store = shell.store := by
  cases fileVault <;> rfl

theorem writeVault_persists (shell : RuntimeShell) (fileVault : Bool) (outcome : WriteOutcome) :
    shell.Persists (shell.writeVault fileVault shell.auth.snapshot.authToken outcome).2 := by
  cases fileVault with
  | true =>
    exact .of_vault rfl rfl rfl rfl rfl
      (fun _ hnone hvault _ htoken => writeToken_keeps hnone hvault htoken _) rfl
  | false =>
    exact ⟨rfl, rfl, rfl, rfl, rfl, fun _ _ hvault _ _ => hvault,
      fun _ hnone hplatform htoken => writeToken_keeps hnone hplatform htoken _⟩

theorem syncBootstrapAuthState_cases (shell : RuntimeShell) (faults : Faults) (fileVault : Bool) :
    shell.Persists (shell.syncBootstrapAuthState faults fileVault) ∨
    ∃ after, shell.Persists after ∧ shell.syncBootstrapAuthState faults fileVault = after.exited := by
  unfold syncBootstrapAuthState
  dsimp only
  set known : RuntimeShell := { shell with
    store := { shell.store with primaryAccount := desiredAccountRecord shell.auth } }
  have hsynced : shell.Persists (if known.durableAuthTokensEnabled then
      known.writeVault fileVault known.auth.snapshot.authToken faults.vault else (true, known)).2 := by
    split
    · have hwritten := writeVault_persists known fileVault faults.vault
      exact ⟨hwritten.up, hwritten.auth, hwritten.pending, hwritten.loop, hwritten.traffic, hwritten.vault,
        hwritten.platform⟩
    · exact .of_store shell ..
  set synced := if known.durableAuthTokensEnabled then
    known.writeVault fileVault known.auth.snapshot.authToken faults.vault else (true, known)
  obtain ⟨saved, hstored⟩ := persistProfile_eq synced.2 faults.store
  have hsaved : shell.Persists (synced.2.persistProfile faults.store).2 := by
    rw [hstored]
    exact ⟨hsynced.up, hsynced.auth, hsynced.pending, hsynced.loop, hsynced.traffic, hsynced.vault,
      hsynced.platform⟩
  split
  · split
    · exact .inl hsaved
    · exact .inr ⟨_, hsaved, rfl⟩
  · exact .inr ⟨_, hsynced, rfl⟩

/-! ### The invariant -/

/-- The file holds a token that the server knows, or one that a load has trimmed. -/
def VaultKnown (exchanges : List Exchange) (file : Option String) : Prop :=
  ∀ text, file = some text → ∃ token, Known exchanges token ∧ (text = token ∨ text = trimToken token)

def AllKnown (exchanges : List Exchange) (held : Option String) : Prop :=
  ∀ token, held = some token → Known exchanges token

structure Trusted (policy : RefreshPolicy) (shell : RuntimeShell) : Prop where
  sound : Sound shell.traffic.exchanges shell.auth
  codes : CodesAnswerChallenges shell.traffic.exchanges
  vault : VaultKnown shell.traffic.exchanges shell.vault
  platform : AllKnown shell.traffic.exchanges shell.platformVault
  loop : AllKnown shell.traffic.exchanges shell.loopToken
  timed : Timed policy shell.auth

variable {policy : RefreshPolicy} {api : AuthApi} {nowSecs : Nat}

theorem AllKnown.none (exchanges : List Exchange) : AllKnown exchanges none := fun _ hnone => by cases hnone

theorem AllKnown.mono {xs ys : List Exchange} {held : Option String} (h : AllKnown xs held) (hxs : xs ⊆ ys) :
    AllKnown ys held := fun token htoken => (h token htoken).mono hxs

theorem VaultKnown.none (exchanges : List Exchange) : VaultKnown exchanges none := fun _ hnone => by cases hnone

theorem VaultKnown.of_held {exchanges : List Exchange} {held : Option String} (h : AllKnown exchanges held) :
    VaultKnown exchanges held := fun token htoken => ⟨token, h token htoken, .inl rfl⟩

theorem VaultKnown.mono {xs ys : List Exchange} {file : Option String} (h : VaultKnown xs file) (hxs : xs ⊆ ys) :
    VaultKnown ys file := by
  intro text htext
  obtain ⟨token, hknown, hstored⟩ := h text htext
  exact ⟨token, hknown.mono hxs, hstored⟩

theorem VaultKnown.load {exchanges : List Exchange} {file : Option String} (h : VaultKnown exchanges file) :
    VaultKnown exchanges (loadToken file) := by
  intro text htext
  cases file with
  | none => cases htext
  | some stored =>
    obtain ⟨token, hknown, hstored⟩ := h stored rfl
    have htrim : text = trimToken stored := by
      simp only [loadToken, Option.bind_some] at htext
      split at htext
      · cases htext
      · exact (Option.some.inj htext).symm
    refine ⟨token, hknown, .inr ?_⟩
    rcases hstored with rfl | rfl
    · exact htrim
    · rw [htrim, trimToken_trimToken]

namespace Trusted

theorem of_persists {shell' : RuntimeShell} (h : Trusted policy shell) (hp : shell.Persists shell') :
    Trusted policy shell' := by
  refine ⟨?_, ?_, ?_, ?_, ?_, ?_⟩
  · rw [hp.traffic, hp.auth]; exact h.sound
  · rw [hp.traffic]; exact h.codes
  · rw [hp.traffic]
    exact hp.vault _ (.none _) h.vault h.vault.load (.of_held h.sound.token)
  · rw [hp.traffic]
    exact hp.platform _ (.none _) h.platform h.sound.token
  · rw [hp.traffic, hp.loop]; exact h.loop
  · rw [hp.auth]; exact h.timed

theorem exited (h : Trusted policy shell) : Trusted policy shell.exited :=
  ⟨.new, h.codes, h.vault, h.platform, .none _, .of_none rfl⟩

theorem moved {shell' : RuntimeShell} (h : Trusted policy shell) (hgrows : shell.traffic.Grows shell'.traffic)
    (hsound : Sound shell'.traffic.exchanges shell'.auth) (htimed : Timed policy shell'.auth)
    (hvault : shell'.vault = shell.vault) (hplatform : shell'.platformVault = shell.platformVault)
    (hloop : shell'.loopToken = shell.loopToken) : Trusted policy shell' := by
  refine ⟨hsound, hgrows.codes h.codes, ?_, ?_, ?_, htimed⟩
  · rw [hvault]; exact h.vault.mono hgrows.subset
  · rw [hplatform]; exact h.platform.mono hgrows.subset
  · rw [hloop]; exact h.loop.mono hgrows.subset

theorem authResponse (h : Trusted policy shell) {event : AuthEvent}
    (htoken : ∀ userId, event = .loginSucceeded userId → shell.auth.snapshot.authToken.isSome)
    (faults : Faults) (nowSecs : Nat) :
    Trusted policy (shell.authResponse faults policy nowSecs event).2 := by
  obtain ⟨after, hafter, hpersisted⟩ := authResponse_cases shell faults policy nowSecs event
  rw [hpersisted]
  refine of_persists ?_ (persistAuthState_persists _ faults)
  rcases hafter with ⟨userId, hevent, rfl⟩ | rfl | rfl
  · exact h.moved (.refl _) ⟨h.sound.wellFormed.attachLifecycle (htoken userId hevent) .., h.sound.token,
      h.sound.challenge⟩ (Timed.attached shell.auth policy nowSecs false) rfl rfl rfl
  · exact ⟨h.sound, h.codes, h.vault, h.platform, h.loop, h.timed⟩
  · exact h

section

variable {onFailed : Option String → AuthCommand} {command : AuthCommand}
  {flow : Flowed AuthFlowError AuthEvent}

theorem of_settles (h : Trusted policy shell) (hfailed : ProtocolAuthFlow.RefusesWith onFailed)
    (hcommand : ∀ userId authToken, command ≠ .markAuthenticated userId authToken)
    (hflow : ProtocolAuthFlow.Settles onFailed (shell.auth.apply command).2 shell.traffic flow)
    (pending : Option PendingPasswordAuth) :
    Trusted policy { shell with
      auth := flow.2.1, traffic := flow.2.2, pendingPasswordAuth := pending } := by
  obtain ⟨hsettled, hgrows⟩ := hflow
  have hbegun := h.sound.apply command fun userId authToken hmark => absurd hmark (hcommand userId authToken)
  refine h.moved hgrows ((hbegun.mono hgrows.subset).of_settled hfailed hsettled) ?_ rfl rfl rfl
  exact (h.timed.of_kept (shell.auth.apply_lifecycle command)).of_kept hsettled.lifecycle

theorem answer (h : Trusted policy shell) (hfailed : ProtocolAuthFlow.RefusesWith onFailed)
    (hcommand : ∀ userId authToken, command ≠ .markAuthenticated userId authToken)
    (hflow : ProtocolAuthFlow.Settles onFailed (shell.auth.apply command).2 shell.traffic flow)
    (faults : Faults) (nowSecs : Nat) : Trusted policy (shell.answer faults policy nowSecs flow).2 := by
  have hmoved := h.of_settles hfailed hcommand hflow shell.pendingPasswordAuth
  obtain ⟨result, auth, traffic⟩ := flow
  cases result with
  | error err => exact hmoved
  | ok event =>
    refine hmoved.authResponse (fun userId hevent => ?_) faults nowSecs
    subst hevent
    exact hflow.1.token

end

theorem passwordSubmission (h : Trusted policy shell) (faults : Faults) (api : AuthApi) (nowSecs : Nat)
    (username password : String) :
    Trusted policy (shell.passwordSubmission faults api policy nowSecs username password).2 := by
  have hflow := @ProtocolAuthFlow.loginWithPassword_settles api shell.auth shell.traffic username password
  unfold RuntimeShell.passwordSubmission
  dsimp only
  split
  · rename_i event auth traffic hlogin
    rw [hlogin] at hflow
    refine (h.of_settles ProtocolAuthFlow.refusesWith_failed (by simp) hflow _).authResponse ?_ faults nowSecs
    rintro userId rfl
    exact hflow.1.token
  · rename_i err auth traffic hlogin
    rw [hlogin] at hflow
    exact h.of_settles ProtocolAuthFlow.refusesWith_failed (by simp) hflow none

theorem authTokenSubmission (h : Trusted policy shell) (faults : Faults) (api : AuthApi) (nowSecs : Nat)
    (token : String) : Trusted policy (shell.authTokenSubmission faults api policy nowSecs token).2 :=
  h.answer ProtocolAuthFlow.refusesWith_failed (by simp)
    (ProtocolAuthFlow.loginWithToken_settles api token) faults nowSecs

theorem twoFactorCodeSubmission (h : Trusted policy shell) (faults : Faults) (api : AuthApi) (nowSecs : Nat)
    (code : String) (trustDevice recoveryCode : Bool) :
    Trusted policy (shell.twoFactorCodeSubmission faults api policy nowSecs code trustDevice recoveryCode).2 := by
  unfold RuntimeShell.twoFactorCodeSubmission twoFactorFlow
  cases hchallenge : shell.auth.snapshot.pendingChallenge with
  | none =>
    rw [if_neg (by simp), (ProtocolAuthFlow.submit_refused api hchallenge "" "" code trustDevice recoveryCode).1]
    exact h
  | some challenge =>
    have hissued := h.sound.challenge _ hchallenge
    split
    · rename_i hempty
      have hasked : Challenged shell.traffic.exchanges "" := by
        have htoken : challenge.token = "" := by simpa using hempty
        exact htoken ▸ hissued
      cases shell.pendingPasswordAuth with
      | none => exact h
      | some pending =>
        exact h.answer ProtocolAuthFlow.refusesWith_failed (by simp)
          (ProtocolAuthFlow.submitTwoFactorCodeWithPassword_settles api hchallenge hasked ..) faults nowSecs
    · exact h.answer ProtocolAuthFlow.refusesWith_codeInvalid (by simp)
        (ProtocolAuthFlow.submitTwoFactorCode_settles api hchallenge hissued ..) faults nowSecs

theorem commanded (h : Trusted policy shell) {command : AuthCommand}
    (hcommand : ∀ userId authToken, command ≠ .markAuthenticated userId authToken) :
    Trusted policy { shell with auth := (shell.auth.apply command).2 } :=
  h.moved (.refl _) (h.sound.apply _ fun userId authToken hmark => absurd hmark (hcommand userId authToken))
    (h.timed.of_kept (shell.auth.apply_lifecycle command)) rfl rfl rfl

theorem logout (h : Trusted policy shell) (faults : Faults) (nowSecs : Nat) :
    Trusted policy (shell.logout faults policy nowSecs).2 :=
  (@commanded _ _ h .logout (by simp)).authResponse (by simp) faults nowSecs

theorem fetchUserinfo (h : Trusted policy shell) (faults : Faults) (api : AuthApi) :
    Trusted policy (shell.fetchUserinfo faults api).2 := by
  unfold RuntimeShell.fetchUserinfo
  split
  · exact h
  · rename_i authToken htoken
    have hgrows := AuthApi.userinfo_grows api shell.traffic authToken
    split
    · rename_i err traffic hinfo
      rw [hinfo] at hgrows
      exact h.moved hgrows (h.sound.mono hgrows.subset) h.timed rfl rfl rfl
    · rename_i info traffic hinfo
      rw [hinfo] at hgrows
      have hupdated : Trusted policy { shell with
          auth := (shell.auth.updateUserinfo info.userId info.email).2, traffic := traffic } := by
        refine h.moved hgrows ((h.sound.mono hgrows.subset).updateUserinfo ..) ?_ rfl rfl rfl
        exact h.timed.of_kept (.inl (shell.auth.updateUserinfo_keeps info.userId info.email).2.2.2)
      split
      · rename_i auth herr
        rw [herr] at hupdated
        exact hupdated
      · rename_i auth hok
        rw [hok] at hupdated
        obtain ⟨store, saved, hstored⟩ := syncAccountStore_eq
          { shell with auth := auth, traffic := traffic } faults.store
        dsimp only
        rw [hstored]
        exact ⟨hupdated.sound, hupdated.codes, hupdated.vault, hupdated.platform, hupdated.loop, hupdated.timed⟩

theorem accountChangePassword (h : Trusted policy shell) (faults : Faults) (api : AuthApi)
    (currentPassword newPassword : String) :
    Trusted policy (shell.accountChangePassword faults api currentPassword newPassword).2 := by
  unfold RuntimeShell.accountChangePassword
  split
  · exact h
  · rename_i authToken htoken
    split
    · exact h
    · have hgrows := AuthApi.changePassword_grows api shell.traffic authToken currentPassword newPassword "pcloudc"
      split
      · rename_i err traffic hchange
        rw [hchange] at hgrows
        exact h.moved hgrows (h.sound.mono hgrows.subset) h.timed rfl rfl rfl
      · rename_i newToken traffic hchange
        have hknown := @AuthApi.changePassword_known api shell.traffic authToken currentPassword
          newPassword "pcloudc" newToken (by rw [hchange])
        rw [hchange] at hgrows hknown
        have hmarked : Trusted policy { shell with
            auth := (shell.auth.apply (.markAuthenticated shell.auth.snapshot.authenticatedUser newToken)).2
            traffic := traffic } := by
          refine h.moved hgrows ((h.sound.mono hgrows.subset).apply _ ?_)
            (h.timed.of_kept (shell.auth.apply_lifecycle _)) rfl rfl rfl
          rintro userId token ⟨⟩
          exact hknown
        split <;> rename_i hmark <;> rw [hmark] at hmarked <;> exact hmarked

theorem refreshTick (h : Trusted policy shell) (api : AuthApi) (nowSecs : Nat) (inFlight : Bool)
    (answeredSecs : Nat) : Trusted policy (shell.refreshTick api policy nowSecs inFlight answeredSecs).2 := by
  have hticked := ticked_tick api policy inFlight nowSecs answeredSecs shell.auth shell.traffic
  obtain ⟨hsound, hgrows⟩ := h.sound.of_ticked hticked
  exact h.moved hgrows hsound (h.timed.of_ticked hticked) rfl rfl rfl

/-! ### The invariant of a start -/

theorem syncBootstrapAuthState (h : Trusted policy shell) (faults : Faults) (fileVault : Bool) :
    Trusted policy (shell.syncBootstrapAuthState faults fileVault) := by
  rcases syncBootstrapAuthState_cases shell faults fileVault with hp | ⟨after, hp, hexited⟩
  · exact h.of_persists hp
  · rw [hexited]
    exact (h.of_persists hp).exited

theorem started {onFailed : Option String → AuthCommand} {command : AuthCommand}
    {flow : Flowed AuthFlowError AuthEvent} (h : Trusted policy shell)
    (hfailed : ProtocolAuthFlow.RefusesWith onFailed)
    (hcommand : ∀ userId authToken, command ≠ .markAuthenticated userId authToken)
    (hflow : ProtocolAuthFlow.Settles onFailed (shell.auth.apply command).2 shell.traffic flow) :
    Trusted policy (shell.settled flow) := by
  exact h.of_settles hfailed hcommand hflow shell.pendingPasswordAuth

theorem submitBootstrapCode (h : Trusted policy shell) (hpending : shell.auth.snapshot.pendingChallenge.isSome)
    (faults : Faults) (api : AuthApi) (fileVault : Bool) (code : String) (trustDevice recoveryCode : Bool) :
    Trusted policy (shell.submitBootstrapCode faults api fileVault code trustDevice recoveryCode) := by
  obtain ⟨challenge, hchallenge⟩ := Option.isSome_iff_exists.mp hpending
  have hsettled := h.started ProtocolAuthFlow.refusesWith_codeInvalid (by simp)
    (ProtocolAuthFlow.submitTwoFactorCode_settles api hchallenge (h.sound.challenge _ hchallenge) code
      trustDevice recoveryCode)
  unfold RuntimeShell.submitBootstrapCode
  dsimp only
  split
  · exact hsettled.exited
  · exact hsettled.syncBootstrapAuthState faults fileVault

theorem applyBootstrapCredentials (h : Trusted policy shell) (faults : Faults) (api : AuthApi)
    (fileVault : Bool) (creds : BootstrapCredentials) :
    Trusted policy (shell.applyBootstrapCredentials faults api fileVault creds) := by
  unfold RuntimeShell.applyBootstrapCredentials
  split
  · rename_i token htoken
    have hsettled := h.started ProtocolAuthFlow.refusesWith_failed (by simp)
      (ProtocolAuthFlow.loginWithToken_settles api token)
    dsimp only
    split
    · exact hsettled.exited
    · exact hsettled.syncBootstrapAuthState faults fileVault
  · split
    · rename_i username password hname hpassword
      have hsettled := h.started ProtocolAuthFlow.refusesWith_failed (by simp)
        (ProtocolAuthFlow.loginWithPassword_settles api username password)
      dsimp only
      split
      · exact hsettled.exited
      · split
        · rename_i hpending
          split
          · exact hsettled.submitBootstrapCode hpending faults api fileVault _ _ true
          · exact hsettled.submitBootstrapCode hpending faults api fileVault _ _ false
          · exact hsettled.exited
        · exact hsettled.syncBootstrapAuthState faults fileVault
    · exact h.exited

theorem writeVault_none (h : Trusted policy shell) (fileVault : Bool) (outcome : WriteOutcome) :
    Trusted policy (shell.writeVault fileVault none outcome).2 := by
  cases fileVault with
  | true =>
    exact ⟨h.sound, h.codes, clearToken_keeps (VaultKnown.none _) h.vault outcome, h.platform, h.loop, h.timed⟩
  | false =>
    exact ⟨h.sound, h.codes, h.vault, clearToken_keeps (AllKnown.none _) h.platform outcome, h.loop, h.timed⟩

theorem restoreFromVault (h : Trusted policy shell) (faults : Faults) (api : AuthApi) (fileVault : Bool) :
    Trusted policy (shell.restoreFromVault faults api fileVault) := by
  unfold RuntimeShell.restoreFromVault
  split
  · exact h
  · split
    · exact h.exited
    · split
      · exact h
      · rename_i token htoken
        have hsettled := h.started ProtocolAuthFlow.refusesWith_failed (by simp)
          (ProtocolAuthFlow.loginWithToken_settles api token)
        dsimp only
        split
        · exact hsettled.syncBootstrapAuthState faults fileVault
        · have hcleared := hsettled.writeVault_none fileVault faults.vault
          generalize RuntimeShell.writeVault _ fileVault none faults.vault = cleared at hcleared
          split
          · obtain ⟨saved, hsaved⟩ := persistProfile_eq { cleared.2 with
              vault := (clearToken cleared.2.vault faults.stale).2
              store := { shell.store with primaryAccount := none } } faults.store
            have hstored : Trusted policy ({ cleared.2 with
                vault := (clearToken cleared.2.vault faults.stale).2
                store := { shell.store with primaryAccount := none } }.persistProfile faults.store).2 := by
              rw [hsaved]
              exact ⟨hcleared.sound, hcleared.codes, clearToken_keeps (VaultKnown.none _) hcleared.vault _,
                hcleared.platform, hcleared.loop, hcleared.timed⟩
            split
            · exact hstored
            · exact hstored.exited
          · exact hcleared.exited

theorem reopened (h : Trusted policy shell) (durable : Bool) : Trusted policy (shell.reopened durable) :=
  ⟨.new, h.codes, h.vault, h.platform, .none _, .of_none rfl⟩

theorem spawnSyncLoop (h : Trusted policy shell) : Trusted policy shell.spawnSyncLoop :=
  ⟨h.sound, h.codes, h.vault, h.platform, h.sound.token, h.timed⟩

theorem bootstrap (h : Trusted policy shell) (faults : Faults) (api : AuthApi) (config : StartConfig)
    (creds : BootstrapCredentials) : Trusted policy (shell.bootstrap faults api config creds) := by
  have hreopened := h.reopened config.durable
  unfold RuntimeShell.bootstrap
  dsimp only
  split
  · exact (hreopened.applyBootstrapCredentials faults api config.fileVault creds).spawnSyncLoop
  · exact (hreopened.restoreFromVault faults api config.fileVault).spawnSyncLoop

theorem serve (setting : Setting) (h : Trusted setting.policy shell) (call : Call) :
    Trusted setting.policy (shell.serve setting call) := by
  obtain ⟨api, policy⟩ := setting
  obtain ⟨event, nowSecs, faults⟩ := call
  cases event with
  | loginBegin => exact @commanded _ _ h .beginLogin (by simp)
  | passwordSubmission username password => exact h.passwordSubmission faults api nowSecs username password
  | authTokenSubmission token => exact h.authTokenSubmission faults api nowSecs token
  | twoFactorCodeSubmission code trustDevice recoveryCode =>
    exact h.twoFactorCodeSubmission faults api nowSecs code trustDevice recoveryCode
  | logout => exact h.logout faults nowSecs
  | getUserInfo => exact h.fetchUserinfo faults api
  | accountChangePassword currentPassword newPassword =>
    exact h.accountChangePassword faults api currentPassword newPassword
  | authPersistence enabled => exact h.of_persists (setAuthPersistence_persists shell faults enabled)
  | refreshTick inFlight answeredSecs => exact h.refreshTick api nowSecs inFlight answeredSecs
  | restart config creds => exact h.bootstrap faults api config creds

theorem step (setting : Setting) (h : Trusted setting.policy shell) (call : Call) :
    Trusted setting.policy (shell.step setting call) := by
  unfold RuntimeShell.step
  split
  · exact h.serve setting call
  · split
    · exact h.serve setting call
    · exact h

theorem fresh (policy : RefreshPolicy) : Trusted policy RuntimeShell.fresh := by
  refine ⟨.new, ?_, .none _, .none _, .none _, .of_none rfl⟩
  intro before _ after hsplit
  cases before <;> cases hsplit

end Trusted

end RuntimeShell

end Pcloud.Auth
