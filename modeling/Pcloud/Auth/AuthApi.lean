import Pcloud.Proto.HttpDownload
import Pcloud.Proto.Request
import Pcloud.Proto.Response

/-!
# The auth methods (`pcloud-proto/src/{auth_api,account_api}.rs`, `methods/auth.rs`)

The server is any function of what it was asked before and of the request. `Traffic` keeps every
exchange, which the source does not: it is what the provenance of a token is read off.
-/

namespace Pcloud.Auth

/-! ## Requests -/

structure AuthRequestContext where
  timeformat : String := "timestamp"
  osVersion : String := "Desktop, Linux"
  appVersion : String := "1.5.1"
  deviceId : String
  deviceName : String := "Desktop, Linux, 1.5.1"
  osId : UInt64 := 7
  getAuth : Bool := true
  cryptoKeysSign : Bool := true
  getApiServer : Bool := true
  getLastSubscription : Bool := true

def AuthRequestContext.standardParams (context : AuthRequestContext) : List BinaryParam :=
  [⟨"timeformat", .string context.timeformat⟩,
   ⟨"osversion", .string context.osVersion⟩,
   ⟨"appversion", .string context.appVersion⟩,
   ⟨"deviceid", .string context.deviceId⟩,
   ⟨"device", .string context.deviceName⟩,
   ⟨"getauth", .bool context.getAuth⟩,
   ⟨"cryptokeyssign", .bool context.cryptoKeysSign⟩,
   ⟨"getapiserver", .bool context.getApiServer⟩,
   ⟨"getlastsubscription", .bool context.getLastSubscription⟩,
   ⟨"os", .number context.osId⟩]

def userInfoParams (context : AuthRequestContext) (authToken : String) : List BinaryParam :=
  ⟨"auth", .string authToken⟩ :: context.standardParams

def twoFactorLoginCommand (recoveryCode : Bool) : String :=
  if recoveryCode then "tfa_loginwithrecoverycode" else "tfa_login"

def twoFactorLoginParams (context : AuthRequestContext) (token code : String) (trustDevice : Bool) :
    List BinaryParam :=
  ⟨"token", .string token⟩ :: ⟨"code", .string code⟩ :: ⟨"trustdevice", .bool trustDevice⟩ ::
    context.standardParams

def loginDigestParams (context : AuthRequestContext) (username digestToken passwordDigest : String)
    (code : Option String) : List BinaryParam :=
  [⟨"username", .string username⟩, ⟨"digest", .string digestToken⟩,
   ⟨"passworddigest", .string passwordDigest⟩] ++
    (code.map fun code => (⟨"code", .string code⟩ : BinaryParam)).toList ++ context.standardParams

def changePasswordParams (authToken currentPassword newPassword device : String) : List BinaryParam :=
  [⟨"auth", .string authToken⟩, ⟨"oldpassword", .string currentPassword⟩,
   ⟨"newpassword", .string newPassword⟩, ⟨"device", .string device⟩]

/-! ## Answers -/

inductive AuthApiError
  | encode (err : FrameParseError)
  | transport (err : String)
  | malformed (what : String)
deriving DecidableEq, Repr

def frameParseErrorText : FrameParseError → String
  | .commandTooLong => "command name is too long for on-wire encoding"
  | .paramNameTooLong name => "parameter name '" ++ name ++ "' is too long for on-wire encoding"
  | .requestTooLarge => "request frame exceeds protocol limit"

def AuthApiError.text : AuthApiError → String
  | encode err => "request encoding failed: " ++ frameParseErrorText err
  | transport err => "transport failed: " ++ err
  | malformed what => "response was malformed: " ++ what

structure ApiServerHint where
  binapi : String
deriving DecidableEq, Repr

inductive PasswordLoginOutcome
  | authenticated (authToken : String) (userId : Option UInt64) (apiServer : Option ApiServerHint)
  | twoFactorRequired (challengeToken : String) (trustDevice : Bool) (apiServer : Option ApiServerHint)
  | failed (result : UInt64) (message : Option String) (apiServer : Option ApiServerHint)
deriving DecidableEq, Repr

def PasswordLoginOutcome.apiServer : PasswordLoginOutcome → Option ApiServerHint
  | authenticated _ _ apiServer | twoFactorRequired _ _ apiServer | failed _ _ apiServer => apiServer

structure UserInfo where
  userId : Option UInt64
  email : Option String
  apiServer : Option ApiServerHint
  quota : Option UInt64
  usedQuota : Option UInt64
  premium : Option Bool
  premiumExpires : Option UInt64
  emailVerified : Option Bool
  plan : Option UInt64
deriving DecidableEq, Repr

def orMalformed {α : Type} (what : String) : Option α → Except AuthApiError α
  | some a => .ok a
  | none => .error (.malformed what)

def extractApiServerHint (view : HashView) : Option ApiServerHint :=
  let direct := view.getString "binapi"
  let nested := (view.getHash "apiserver").bind fun (apiserver : HashView) =>
    ((apiserver.getArray "binapi").bind fun entries => entries.head?.bind Value.asString).or
      (apiserver.getString "binapi")
  (direct.or nested).map ApiServerHint.mk

def resultCode (view : HashView) : UInt64 := (view.getNumber "result").getD 0

def parseLoginOutcome (response : Value) : Except AuthApiError PasswordLoginOutcome := do
  let view ← orMalformed "login response was not a hash" response.asHash
  if resultCode view = 0 then
    let authToken ← orMalformed "missing auth token on successful login" (view.getString "auth")
    return .authenticated authToken (view.getNumber "userid") (extractApiServerHint view)
  else
    match (view.getString "token").or (view.getString "tfa_token") with
    | some challengeToken =>
      return .twoFactorRequired challengeToken ((view.getBool "trustdevice").getD false)
        (extractApiServerHint view)
    | none =>
      if resultCode view = 2297 then
        return .twoFactorRequired "" ((view.getBool "trustdevice").getD false)
          (extractApiServerHint view)
      else
        return .failed (resultCode view) (view.getString "error") (extractApiServerHint view)

/-- `result` is not looked at. -/
def readUserInfo (response : Value) : Except AuthApiError UserInfo := do
  let view ← orMalformed "userinfo response was not a hash" response.asHash
  return {
    userId := view.getNumber "userid"
    email := view.getString "email"
    apiServer := extractApiServerHint view
    quota := view.getNumber "quota"
    usedQuota := view.getNumber "usedquota"
    premium := view.getBool "premium"
    premiumExpires := view.getNumber "premiumexpires"
    emailVerified := view.getBool "emailverified"
    plan := view.getNumber "plan" }

def readDigest (response : Value) : Except AuthApiError String := do
  let view ← orMalformed "getdigest response was not a hash" response.asHash
  if resultCode view ≠ 0 then .error (.malformed "getdigest result was non-zero")
  else orMalformed "getdigest response was missing digest" (view.getString "digest")

inductive AuthRefreshError
  | authExpired (result : UInt64)
  | temporaryFailure (err : AuthApiError)
  | missingAuthField
deriving DecidableEq, Repr

def authExpiredResults : List UInt64 := [1000, 2000, 2094, 2297]

def readRefresh (view : HashView) : Except AuthRefreshError String :=
  if resultCode view ≠ 0 then
    if resultCode view ∈ authExpiredResults then .error (.authExpired (resultCode view))
    else .error (.temporaryFailure (.malformed "refresh returned non-zero result"))
  else
    match view.getString "auth" with
    | some newToken => if newToken.isEmpty then .error .missingAuthField else .ok newToken
    | none => .error .missingAuthField

inductive AccountApiError
  | encode (err : FrameParseError)
  | transport (err : String)
  | result (result : UInt64) (message : Option String)
  | malformed (what : String)
deriving DecidableEq, Repr

def readChangePassword (response : Value) : Except AccountApiError String :=
  match response.asHash with
  | none => .error (.malformed "changepassword response was not a hash")
  | some (view : HashView) =>
    if resultCode view ≠ 0 then .error (.result (resultCode view) (view.getString "error"))
    else
      match view.getString "auth" with
      | some authToken => .ok authToken
      | none => .error (.malformed "changepassword missing auth")

/-! ## The client -/

structure Exchange where
  request : EncodedRequest
  response : Except String Value

/-- What was exchanged, and where the hints of the server have steered the transport since the start. -/
structure Traffic where
  exchanges : List Exchange := []
  host : Option String := none
  port : Option Nat := none

/-- `rsplit_once(':')`. -/
def rsplitOnce (text : List Char) : Option (List Char × List Char) :=
  (splitOnce text.reverse).map fun (after, before) => (before.reverse, after.reverse)

def parseApiServerHint (apiServer : String) : List Char × Option Nat :=
  let trimmed := trim apiServer.toList
  match rsplitOnce trimmed with
  | some (host, portText) =>
    match parseUnsigned 10 (2 ^ 16 - 1) portText with
    | some port => (host, some port)
    | none => (trimmed, none)
  | none => (trimmed, none)

def isKnownSafeHost (host : List Char) : Bool :=
  ".pcloud.com".toList.isSuffixOf host || ".pcloud.link".toList.isSuffixOf host

/-- `apply_api_server_hint` of the transport. A hint without a port leaves the port as it is. -/
def Traffic.applyApiServerHint (traffic : Traffic) (hint : Option ApiServerHint) : Traffic :=
  match hint with
  | none => traffic
  | some hint =>
    if (trim hint.binapi.toList).isEmpty then traffic
    else
      let (host, port) := parseApiServerHint hint.binapi
      if isKnownSafeHost host then
        { traffic with host := some (String.ofList host), port := port.or traffic.port }
      else traffic

structure AuthApi where
  context : AuthRequestContext
  sha1 : Bytes → Bytes
  server : List Exchange → EncodedRequest → Except String Value

namespace AuthApi

variable (api : AuthApi) (traffic : Traffic)

/-- `ProtocolMethod::encode`, then `ProtocolTransport::execute`. -/
def execute (command : String) (params : List BinaryParam) : Except AuthApiError Value × Traffic :=
  match encodeRequest command params (some 0) with
  | .error err => (.error (.encode err), traffic)
  | .ok request =>
    let response := api.server traffic.exchanges request
    (response.mapError .transport,
      { traffic with exchanges := traffic.exchanges ++ [⟨request, response⟩] })

/-- The answer as `read` decodes it. A hint is taken from what was decoded. -/
def answered {α : Type} (read : Value → Except AuthApiError α) (hint : α → Option ApiServerHint)
    (answer : Except AuthApiError Value × Traffic) : Except AuthApiError α × Traffic :=
  match answer.1.bind read with
  | .error err => (.error err, answer.2)
  | .ok a => (.ok a, answer.2.applyApiServerHint (hint a))

def userinfo (authToken : String) : Except AuthApiError UserInfo × Traffic :=
  answered readUserInfo UserInfo.apiServer
    (api.execute traffic "userinfo" (userInfoParams api.context authToken))

/-- The `getauth` of this request is set whatever the context says. -/
def refreshAuthToken (current : String) : Except AuthRefreshError String × Traffic :=
  let context := { api.context with getAuth := true }
  let (response, traffic) := api.execute traffic "userinfo" (userInfoParams context current)
  match response.bind fun value => orMalformed "refresh response was not a hash" value.asHash with
  | .error err => (.error (.temporaryFailure err), traffic)
  | .ok view =>
    (readRefresh view,
      -- The hint is taken once the result is zero, with the token or without it.
      if resultCode view = 0 then traffic.applyApiServerHint (extractApiServerHint view) else traffic)

def getDigest : Except AuthApiError String × Traffic :=
  answered readDigest (fun _ => none) (api.execute traffic "getdigest" [⟨"MS", .string "sucks"⟩])

def computePasswordDigest (username password serverDigest : String) : String :=
  let lowerUser := String.ofList (username.toList.map Char.toLower)
  let userHex := hexEncode (api.sha1 (utf8 lowerUser))
  hexEncode (api.sha1 (utf8 password ++ utf8 userHex ++ utf8 serverDigest))

def loginPasswordWithCode (username password : String) (code : Option String) :
    Except AuthApiError PasswordLoginOutcome × Traffic :=
  match api.getDigest traffic with
  | (.error err, traffic) => (.error err, traffic)
  | (.ok digest, traffic) =>
    answered parseLoginOutcome PasswordLoginOutcome.apiServer
      (api.execute traffic "login" (loginDigestParams api.context username digest
        (api.computePasswordDigest username password digest) code))

def loginPassword (username password : String) : Except AuthApiError PasswordLoginOutcome × Traffic :=
  api.loginPasswordWithCode traffic username password none

def submitTwoFactorCode (token code : String) (trustDevice recoveryCode : Bool) :
    Except AuthApiError PasswordLoginOutcome × Traffic :=
  answered parseLoginOutcome PasswordLoginOutcome.apiServer
    (api.execute traffic (twoFactorLoginCommand recoveryCode)
      (twoFactorLoginParams api.context token code trustDevice))

/-- `AccountApi::change_password`, over the same servers. -/
def changePassword (authToken currentPassword newPassword device : String) :
    Except AccountApiError String × Traffic :=
  match api.execute traffic "changepassword"
      (changePasswordParams authToken currentPassword newPassword device) with
  | (.error (.encode err), traffic) => (.error (.encode err), traffic)
  | (.error (.transport err), traffic) => (.error (.transport err), traffic)
  | (.error (.malformed what), traffic) => (.error (.malformed what), traffic)
  | (.ok value, traffic) => (readChangePassword value, traffic)

end AuthApi

/-! ## What the log says of a token -/

/-- The server answered a `userinfo` request about the token with a hash, whatever its result. -/
def Exchange.Answers (exchange : Exchange) (token : String) : Prop :=
  exchange.request.frame.command = "userinfo" ∧
    (⟨"auth", .string token⟩ : BinaryParam) ∈ exchange.request.params ∧
    ∃ view, exchange.response = .ok (.hash view)

/-- The server gave the token out in an answer whose result is zero. -/
def Exchange.Issues (exchange : Exchange) (token : String) : Prop :=
  ∃ view : HashView, exchange.response = .ok (.hash view) ∧ resultCode view = 0 ∧
    view.getString "auth" = some token

/-- The server gave the token out, or was asked about it and answered. -/
def Known (exchanges : List Exchange) (token : String) : Prop :=
  ∃ exchange ∈ exchanges, exchange.Answers token ∨ exchange.Issues token

def Exchange.Succeeds (exchange : Exchange) : Prop :=
  ∃ view : HashView, exchange.response = .ok (.hash view) ∧ resultCode view = 0

/-- The server gave the token out, or was asked about it and answered with a result of zero. -/
def Vouched (exchanges : List Exchange) (token : String) : Prop :=
  ∃ exchange ∈ exchanges, exchange.Answers token ∧ exchange.Succeeds ∨ exchange.Issues token

/-- The server was asked about the token and answered with another result. -/
def Refused (exchanges : List Exchange) (token : String) : Prop :=
  ∃ exchange ∈ exchanges, exchange.Answers token ∧ ¬ exchange.Succeeds

/-- The server asked for a second factor, and named the challenge by this token. -/
def Exchange.Names (exchange : Exchange) (token : String) : Prop :=
  ∃ view : HashView, exchange.response = .ok (.hash view) ∧ resultCode view ≠ 0 ∧
    (view.getString "token").or (view.getString "tfa_token") = some token

/-- The server asked for a second factor, and did not name the challenge. -/
def Exchange.AsksUnnamed (exchange : Exchange) : Prop :=
  ∃ view : HashView, exchange.response = .ok (.hash view) ∧ resultCode view = 2297 ∧
    (view.getString "token").or (view.getString "tfa_token") = none

/-- The empty token stands in where the challenge has none. -/
def Exchange.Challenges (exchange : Exchange) (token : String) : Prop :=
  exchange.Names token ∨ token = "" ∧ exchange.AsksUnnamed

def Challenged (exchanges : List Exchange) (token : String) : Prop :=
  ∃ exchange ∈ exchanges, exchange.Challenges token

def CarriesCode (params : List BinaryParam) : Prop :=
  ∃ code, (⟨"code", .string code⟩ : BinaryParam) ∈ params

/-- The request goes with a challenge of the log: it carries the token, or it is a login and the
token is empty. -/
def AnswersChallenge (exchanges : List Exchange) (command : String) (params : List BinaryParam) : Prop :=
  ∃ token, Challenged exchanges token ∧
    ((⟨"token", .string token⟩ : BinaryParam) ∈ params ∨ token = "" ∧ command = "login")

/-- Each code of the log went with a challenge that the server had made before. -/
def CodesAnswerChallenges (exchanges : List Exchange) : Prop :=
  ∀ before exchange after, exchanges = before ++ exchange :: after → CarriesCode exchange.request.params →
    AnswersChallenge before exchange.request.frame.command exchange.request.params

theorem Known.mono {xs ys : List Exchange} {token : String} (h : Known xs token) (hxs : xs ⊆ ys) :
    Known ys token := by
  obtain ⟨exchange, hmem, hsays⟩ := h
  exact ⟨exchange, hxs hmem, hsays⟩

theorem Known.vouched_or_refused {exchanges : List Exchange} {token : String} (h : Known exchanges token) :
    Vouched exchanges token ∨ Refused exchanges token := by
  obtain ⟨exchange, hmem, hanswers | hissues⟩ := h
  · by_cases hsucceeds : exchange.Succeeds
    · exact .inl ⟨exchange, hmem, .inl ⟨hanswers, hsucceeds⟩⟩
    · exact .inr ⟨exchange, hmem, hanswers, hsucceeds⟩
  · exact .inl ⟨exchange, hmem, .inr hissues⟩

theorem Challenged.mono {xs ys : List Exchange} {token : String} (h : Challenged xs token) (hxs : xs ⊆ ys) :
    Challenged ys token := by
  obtain ⟨exchange, hmem, hsays⟩ := h
  exact ⟨exchange, hxs hmem, hsays⟩

theorem challenges_of_parse {exchange : Exchange} {value : Value} {token : String} {trustDevice : Bool}
    {apiServer : Option ApiServerHint} (hresponse : exchange.response = .ok value)
    (h : parseLoginOutcome value = .ok (.twoFactorRequired token trustDevice apiServer)) :
    exchange.Challenges token := by
  cases value with
  | hash view =>
    unfold parseLoginOutcome at h
    simp only [Value.asHash, orMalformed, bind, Except.bind] at h
    split at h
    · cases hauth : HashView.getString view "auth" <;> rw [hauth] at h <;> cases h
    · rename_i hresult
      split at h
      · rename_i named hnamed
        obtain ⟨rfl, -, -⟩ := PasswordLoginOutcome.twoFactorRequired.inj (Except.ok.inj h)
        exact .inl ⟨view, hresponse, hresult, hnamed⟩
      · rename_i hunnamed
        split at h
        · rename_i hasks
          obtain ⟨rfl, -, -⟩ := PasswordLoginOutcome.twoFactorRequired.inj (Except.ok.inj h)
          exact .inr ⟨rfl, view, hresponse, hasks, hunnamed⟩
        · cases h
  | _ => cases h

theorem codesAnswerChallenges_append {exchanges : List Exchange} {exchange : Exchange}
    (h : CodesAnswerChallenges exchanges)
    (hlast : CarriesCode exchange.request.params →
      AnswersChallenge exchanges exchange.request.frame.command exchange.request.params) :
    CodesAnswerChallenges (exchanges ++ [exchange]) := by
  intro before x after hsplit hcode
  rcases List.eq_nil_or_concat after with rfl | ⟨after', last, rfl⟩
  · obtain ⟨rfl, hx⟩ := List.append_inj' hsplit rfl
    obtain rfl : exchange = x := by simpa using hx
    exact hlast hcode
  · have hinit : exchanges = before ++ x :: after' := by
      have hsame : exchanges ++ [exchange] = (before ++ x :: after') ++ [last] := by
        simpa [List.concat_eq_append] using hsplit
      exact (List.append_inj' hsame rfl).1
    exact h before x after' hinit hcode

/-! ## What one request adds to the log -/

theorem encodeRequest_ok {command : String} {params : List BinaryParam} {rawBodyLen : Option UInt64}
    {request : EncodedRequest} (h : encodeRequest command params rawBodyLen = .ok request) :
    request.frame.command = command ∧ request.params = params := by
  unfold encodeRequest at h
  split at h
  · cases h
  · split at h
    · cases h
    · split at h
      · cases h
      · obtain rfl := Except.ok.inj h
        exact ⟨rfl, rfl⟩

namespace AuthApi

variable {api : AuthApi} {traffic : Traffic} {command : String} {params : List BinaryParam}

theorem execute_cases (api : AuthApi) (traffic : Traffic) (command : String) (params : List BinaryParam) :
    (∃ err, api.execute traffic command params = (.error (.encode err), traffic)) ∨
    ∃ exchange : Exchange,
      api.execute traffic command params = (exchange.response.mapError .transport,
        { traffic with exchanges := traffic.exchanges ++ [exchange] }) ∧
      exchange.request.frame.command = command ∧ exchange.request.params = params := by
  unfold execute
  cases h : encodeRequest command params (some 0) with
  | error err => exact .inl ⟨err, rfl⟩
  | ok request => exact .inr ⟨⟨request, _⟩, rfl, encodeRequest_ok h⟩

theorem execute_subset :
    traffic.exchanges ⊆ (api.execute traffic command params).2.exchanges := by
  rcases execute_cases api traffic command params with ⟨err, h⟩ | ⟨exchange, h, -⟩
  · rw [h]; exact fun _ hx => hx
  · rw [h]; exact List.subset_append_left ..

theorem execute_ok {value : Value} (h : (api.execute traffic command params).1 = .ok value) :
    ∃ exchange ∈ (api.execute traffic command params).2.exchanges,
      exchange.request.frame.command = command ∧ exchange.request.params = params ∧
      exchange.response = .ok value := by
  rcases execute_cases api traffic command params with ⟨err, hex⟩ | ⟨exchange, hex, hcommand, hparams⟩
  · rw [hex] at h
    cases h
  · rw [hex] at h ⊢
    refine ⟨exchange, by simp, hcommand, hparams, ?_⟩
    cases hresponse : exchange.response with
    | error err => rw [hresponse] at h; cases h
    | ok answer =>
      rw [hresponse] at h
      rw [← Except.ok.inj h]

theorem execute_codes (h : CodesAnswerChallenges traffic.exchanges)
    (hcode : CarriesCode params → AnswersChallenge traffic.exchanges command params) :
    CodesAnswerChallenges (api.execute traffic command params).2.exchanges := by
  rcases execute_cases api traffic command params with ⟨err, hex⟩ | ⟨exchange, hex, hcommand, hparams⟩
  · rw [hex]; exact h
  · rw [hex]
    refine codesAnswerChallenges_append h ?_
    rw [hcommand, hparams]
    exact hcode

end AuthApi

/-! ## What each method adds to the log -/

/-- The log only grows, and stays one in which every code answers a challenge. -/
structure Traffic.Grows (traffic traffic' : Traffic) : Prop where
  subset : traffic.exchanges ⊆ traffic'.exchanges
  codes : CodesAnswerChallenges traffic.exchanges → CodesAnswerChallenges traffic'.exchanges

theorem Traffic.Grows.refl (traffic : Traffic) : traffic.Grows traffic := ⟨fun _ hx => hx, fun h => h⟩

theorem Traffic.Grows.trans {a b c : Traffic} (hab : a.Grows b) (hbc : b.Grows c) : a.Grows c :=
  ⟨fun _ hx => hbc.subset (hab.subset hx), fun h => hbc.codes (hab.codes h)⟩

@[simp]
theorem Traffic.applyApiServerHint_exchanges (traffic : Traffic) (hint : Option ApiServerHint) :
    (traffic.applyApiServerHint hint).exchanges = traffic.exchanges := by
  unfold Traffic.applyApiServerHint
  split
  · rfl
  · dsimp only
    split
    · rfl
    · split <;> rfl

theorem Traffic.Grows.hint {a b : Traffic} (h : a.Grows b) (hint : Option ApiServerHint) :
    a.Grows (b.applyApiServerHint hint) := by
  constructor
  · rw [Traffic.applyApiServerHint_exchanges]
    exact h.subset
  · rw [Traffic.applyApiServerHint_exchanges]
    exact h.codes

theorem userInfoParams_no_code (context : AuthRequestContext) (authToken : String) :
    ¬ CarriesCode (userInfoParams context authToken) := by
  simp [CarriesCode, userInfoParams, AuthRequestContext.standardParams]

theorem loginDigestParams_no_code (context : AuthRequestContext) (username digestToken passwordDigest : String) :
    ¬ CarriesCode (loginDigestParams context username digestToken passwordDigest none) := by
  simp [CarriesCode, loginDigestParams, AuthRequestContext.standardParams]

namespace AuthApi

variable (api : AuthApi) (traffic : Traffic)

theorem execute_grows (command : String) {params : List BinaryParam} (hnone : ¬ CarriesCode params) :
    traffic.Grows (api.execute traffic command params).2 :=
  ⟨execute_subset, fun h => execute_codes h fun hcode => absurd hcode hnone⟩

@[simp]
theorem answered_fst {α : Type} (read : Value → Except AuthApiError α) (hint : α → Option ApiServerHint)
    (answer : Except AuthApiError Value × Traffic) :
    (answered read hint answer).1 = answer.1.bind read := by
  unfold answered
  split <;> rename_i h <;> exact h.symm

@[simp]
theorem answered_exchanges {α : Type} (read : Value → Except AuthApiError α)
    (hint : α → Option ApiServerHint) (answer : Except AuthApiError Value × Traffic) :
    (answered read hint answer).2.exchanges = answer.2.exchanges := by
  unfold answered
  split <;> simp

theorem answered_grows {α : Type} {answer : Except AuthApiError Value × Traffic}
    (h : traffic.Grows answer.2) (read : Value → Except AuthApiError α)
    (hint : α → Option ApiServerHint) : traffic.Grows (answered read hint answer).2 := by
  constructor
  · rw [answered_exchanges]; exact h.subset
  · rw [answered_exchanges]; exact h.codes

theorem answered_ok {α : Type} {read : Value → Except AuthApiError α} {hint : α → Option ApiServerHint}
    {command : String} {params : List BinaryParam} {a : α}
    (h : (answered read hint (api.execute traffic command params)).1 = .ok a) :
    ∃ exchange ∈ (answered read hint (api.execute traffic command params)).2.exchanges,
      exchange.request.frame.command = command ∧ exchange.request.params = params ∧
      ∃ value, exchange.response = .ok value ∧ read value = .ok a := by
  rw [answered_fst] at h
  rw [answered_exchanges]
  cases hvalue : (api.execute traffic command params).1 with
  | error err => rw [hvalue] at h; cases h
  | ok value =>
    obtain ⟨exchange, hmem, hcommand, hparams, hresponse⟩ := execute_ok hvalue
    rw [hvalue] at h
    exact ⟨exchange, hmem, hcommand, hparams, value, hresponse, h⟩

theorem userinfo_grows (authToken : String) : traffic.Grows (api.userinfo traffic authToken).2 :=
  answered_grows traffic (execute_grows api traffic _ (userInfoParams_no_code _ _)) _ _

theorem userinfo_known {authToken : String} {info : UserInfo}
    (h : (api.userinfo traffic authToken).1 = .ok info) :
    Known (api.userinfo traffic authToken).2.exchanges authToken := by
  obtain ⟨exchange, hmem, hcommand, hparams, value, hresponse, hread⟩ := answered_ok api traffic h
  refine ⟨exchange, hmem, .inl ⟨hcommand, ?_, ?_⟩⟩
  · rw [hparams]
    exact List.mem_cons_self ..
  · cases value with
    | hash view => exact ⟨view, hresponse⟩
    | _ => cases hread

theorem readRefresh_ok {view : HashView} {newToken : String} (h : readRefresh view = .ok newToken) :
    resultCode view = 0 ∧ view.getString "auth" = some newToken := by
  unfold readRefresh at h
  split at h
  · split at h <;> cases h
  · rename_i hresult
    split at h
    · rename_i token htoken
      split at h
      · cases h
      · exact ⟨not_not.mp hresult, by rw [htoken, Except.ok.inj h]⟩
    · cases h

theorem refreshAuthToken_grows (current : String) :
    traffic.Grows (api.refreshAuthToken traffic current).2 := by
  have hgrows := execute_grows api traffic "userinfo"
    (userInfoParams_no_code { api.context with getAuth := true } current)
  unfold refreshAuthToken
  dsimp only
  split
  · exact hgrows
  · split
    · exact hgrows.hint _
    · exact hgrows

theorem refreshAuthToken_known {current newToken : String}
    (h : (api.refreshAuthToken traffic current).1 = .ok newToken) :
    Known (api.refreshAuthToken traffic current).2.exchanges newToken := by
  unfold refreshAuthToken at h ⊢
  dsimp only at h ⊢
  split at h
  · cases h
  · rename_i view hview
    obtain ⟨hresult, htoken⟩ := readRefresh_ok h
    rw [if_pos hresult]
    unfold Known
    rw [Traffic.applyApiServerHint_exchanges]
    cases hvalue : (api.execute traffic "userinfo"
        (userInfoParams { api.context with getAuth := true } current)).1 with
    | error err => rw [hvalue] at hview; cases hview
    | ok value =>
      obtain ⟨exchange, hmem, -, -, hresponse⟩ := execute_ok hvalue
      rw [hvalue] at hview
      cases value with
      | hash view' =>
        obtain rfl : view' = view := Except.ok.inj hview
        exact ⟨exchange, hmem, .inr ⟨_, hresponse, hresult, htoken⟩⟩
      | _ => cases hview

/-! ### The login methods -/

theorem parseLoginOutcome_issues {exchange : Exchange} {value : Value} {authToken : String}
    {userId : Option UInt64} {apiServer : Option ApiServerHint} (hresponse : exchange.response = .ok value)
    (h : parseLoginOutcome value = .ok (.authenticated authToken userId apiServer)) :
    exchange.Issues authToken := by
  cases value with
  | hash view =>
    unfold parseLoginOutcome at h
    simp only [Value.asHash, orMalformed, bind, Except.bind] at h
    split at h
    · rename_i hresult
      cases hauth : HashView.getString view "auth" with
      | none => rw [hauth] at h; cases h
      | some token =>
        rw [hauth] at h
        obtain ⟨rfl, -, -⟩ := PasswordLoginOutcome.authenticated.inj (Except.ok.inj h)
        exact ⟨view, hresponse, hresult, hauth⟩
    · split at h
      · cases h
      · split at h <;> cases h
  | _ => cases h

/-- What a decoded login outcome says of the log. -/
def Attests (exchanges : List Exchange) : Except AuthApiError PasswordLoginOutcome → Prop
  | .ok (.authenticated authToken _ _) => Known exchanges authToken
  | .ok (.twoFactorRequired challengeToken _ _) => Challenged exchanges challengeToken
  | _ => True

theorem attests_answered (command : String) (params : List BinaryParam) :
    Attests
      (answered parseLoginOutcome PasswordLoginOutcome.apiServer (api.execute traffic command params)).2.exchanges
      (answered parseLoginOutcome PasswordLoginOutcome.apiServer (api.execute traffic command params)).1 := by
  cases h : (answered parseLoginOutcome PasswordLoginOutcome.apiServer
      (api.execute traffic command params)).1 with
  | error err => trivial
  | ok outcome =>
    obtain ⟨exchange, hmem, -, -, value, hresponse, hread⟩ := answered_ok api traffic h
    cases outcome with
    | authenticated authToken userId apiServer =>
      exact ⟨exchange, hmem, .inr (parseLoginOutcome_issues hresponse hread)⟩
    | twoFactorRequired challengeToken trustDevice apiServer =>
      exact ⟨exchange, hmem, challenges_of_parse hresponse hread⟩
    | failed result message apiServer => trivial

theorem getDigest_grows : traffic.Grows (api.getDigest traffic).2 :=
  answered_grows traffic (execute_grows api traffic _ (by simp [CarriesCode])) _ _

theorem loginPasswordWithCode_grows (username password : String) {code : Option String}
    (hcode : code.isSome → Challenged traffic.exchanges "") : traffic.Grows
    (api.loginPasswordWithCode traffic username password code).2 := by
  have hdigest := getDigest_grows api traffic
  unfold loginPasswordWithCode
  split
  · rename_i err traffic' h
    rw [h] at hdigest
    exact hdigest
  · rename_i digest traffic' h
    rw [h] at hdigest
    refine hdigest.trans (answered_grows traffic' ?_ _ _)
    cases code with
    | none => exact execute_grows api traffic' _ (loginDigestParams_no_code _ _ _ _)
    | some code =>
      have hchallenged := (hcode rfl).mono hdigest.subset
      exact ⟨execute_subset, fun h => execute_codes h fun _ => ⟨"", hchallenged, .inr ⟨rfl, rfl⟩⟩⟩

theorem attests_loginPasswordWithCode (username password : String) (code : Option String) :
    Attests (api.loginPasswordWithCode traffic username password code).2.exchanges
      (api.loginPasswordWithCode traffic username password code).1 := by
  unfold loginPasswordWithCode
  split
  · trivial
  · exact attests_answered api _ _ _

theorem submitTwoFactorCode_grows {token : String} (hchallenged : Challenged traffic.exchanges token)
    (code : String) (trustDevice recoveryCode : Bool) :
    traffic.Grows (api.submitTwoFactorCode traffic token code trustDevice recoveryCode).2 := by
  refine answered_grows traffic ⟨execute_subset, fun h => ?_⟩ _ _
  exact execute_codes h fun _ => ⟨token, hchallenged, .inl (List.mem_cons_self ..)⟩

theorem attests_submitTwoFactorCode (token code : String) (trustDevice recoveryCode : Bool) :
    Attests (api.submitTwoFactorCode traffic token code trustDevice recoveryCode).2.exchanges
      (api.submitTwoFactorCode traffic token code trustDevice recoveryCode).1 :=
  attests_answered api traffic _ _

/-! ### The change of password -/

theorem changePassword_grows (authToken currentPassword newPassword device : String) :
    traffic.Grows (api.changePassword traffic authToken currentPassword newPassword device).2 := by
  have hnone : ¬ CarriesCode (changePasswordParams authToken currentPassword newPassword device) := by
    simp [CarriesCode, changePasswordParams]
  have hgrows := execute_grows api traffic "changepassword" hnone
  unfold changePassword
  split <;> rename_i h <;> rw [h] at hgrows <;> exact hgrows

theorem changePassword_known {authToken currentPassword newPassword device newToken : String}
    (h : (api.changePassword traffic authToken currentPassword newPassword device).1 = .ok newToken) :
    Known (api.changePassword traffic authToken currentPassword newPassword device).2.exchanges
      newToken := by
  unfold changePassword at h ⊢
  split at h
  · cases h
  · cases h
  · cases h
  · rename_i value traffic' hvalue
    have hok : (api.execute traffic "changepassword"
        (changePasswordParams authToken currentPassword newPassword device)).1 = .ok value := by
      rw [hvalue]
    obtain ⟨exchange, hmem, -, -, hresponse⟩ := execute_ok hok
    rw [hvalue] at hmem
    cases value with
    | hash view =>
      simp only [readChangePassword, Value.asHash] at h
      split at h
      · cases h
      · rename_i hresult
        split at h
        · rename_i token htoken
          exact ⟨exchange, hmem, .inr ⟨view, hresponse, not_not.mp hresult, by rw [htoken, Except.ok.inj h]⟩⟩
        · cases h
    | _ => cases h

end AuthApi

end Pcloud.Auth
