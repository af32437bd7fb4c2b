import Mathlib.Data.List.Range
import Pcloud.Proto.HttpDownload
import Pcloud.Resilience.Retry

/-!
# The transport that retries (`pcloud-resilience/src/transport.rs`)

A round sends the request and looks at the answer. Two budgets bound the rounds, and a `429` that says when to
come back is charged to neither.
-/

namespace Pcloud

/-! ## The `Retry-After` header -/

def isLeapYear (y : Int) : Bool := (y.tmod 4 == 0 && y.tmod 100 != 0) || y.tmod 400 == 0

def daysInMonth (year : Int) (month : Nat) : Nat :=
  match month with
  | 1 | 3 | 5 | 7 | 8 | 10 | 12 => 31
  | 4 | 6 | 9 | 11 => 30
  | 2 => if isLeapYear year then 29 else 28
  | _ => 0

def unixTimestamp (year : Int) (month day hour minute second : Nat) : Int :=
  let y := if month ≤ 2 then year - 1 else year
  let era := (if 0 ≤ y then y else y - 399).tdiv 400
  let yoe := (y - era * 400).toNat
  let doy := (153 * (if 2 < month then month - 3 else month + 9) + 2) / 5 + day - 1
  let doe := yoe * 365 + yoe / 4 - yoe / 100 + doy
  let days := era * 146097 + doe - 719468
  days * 86400 + hour * 3600 + minute * 60 + second

def monthNumber (name : String) : Option Nat :=
  match name with
  | "Jan" => some 1
  | "Feb" => some 2
  | "Mar" => some 3
  | "Apr" => some 4
  | "May" => some 5
  | "Jun" => some 6
  | "Jul" => some 7
  | "Aug" => some 8
  | "Sep" => some 9
  | "Oct" => some 10
  | "Nov" => some 11
  | "Dec" => some 12
  | _ => none

/-- `parse::<i32>` of a text that may have a sign. -/
def parseSigned (text : List Char) : Option Int :=
  match text with
  | '-' :: digits =>
    if digits.head? = some '+' then none else (parseUnsigned 10 (2 ^ 31) digits).map fun n => -(n : Int)
  | _ => (parseUnsigned 10 (2 ^ 31 - 1) text).map fun n => (n : Int)

/-- The fields stand at fixed bytes; a byte above `127` fits none of them. -/
def parseImfFixdateUnix (s : List Char) : Option Int := do
  let bytes := (String.ofList s).toUTF8.toList.map fun b => Char.ofNat b.toNat
  let field (start length : Nat) := (bytes.drop start).take length
  guard (bytes.length = 29)
  guard (field 3 2 = ", ".toList ∧ bytes.drop 25 = " GMT".toList)
  let day ← parseUnsigned 10 (2 ^ 32 - 1) (field 5 2)
  let year ← parseSigned (field 12 4)
  let hour ← parseUnsigned 10 (2 ^ 32 - 1) (field 17 2)
  let minute ← parseUnsigned 10 (2 ^ 32 - 1) (field 20 2)
  let second ← parseUnsigned 10 (2 ^ 32 - 1) (field 23 2)
  guard (hour < 24 ∧ minute < 60 ∧ second < 60)
  let month ← monthNumber (String.ofList (field 8 3))
  guard (day ≠ 0 ∧ day ≤ daysInMonth year month)
  pure (unixTimestamp year month day hour minute second)

/-- `parseF64` is the `parse::<f64>` of the standard library, and `now` the system clock in seconds, if it is not
before the epoch. -/
def parseRetryAfterHeader (parseF64 : List Char → Option Float) (now : Option Int) (value : String) :
    Option Duration :=
  let trimmed := trim value.toList
  match parseF64 trimmed with
  | some secs =>
    if secs < 0.0 || !secs.isFinite then none
    else some ((min secs 300.0 * 1000.0).toUInt64.toNat * 10 ^ 6)
  | none => do
    let target ← parseImfFixdateUnix trimmed
    let now ← now
    if target - now ≤ 0 then none else some ((min (target - now) 300).toNat * 10 ^ 9)

/-! ## Errors -/

inductive ErrorKind
  | Transient
  | Terminal
deriving DecidableEq, Repr

/-- The kinds that have a name in a tag; the others are `Other`. -/
inductive IoErrorKind
  | TimedOut
  | Interrupted
  | WouldBlock
  | ConnectionReset
  | BrokenPipe
  | ConnectionAborted
  | PermissionDenied
  | NotFound
  | AlreadyExists
  | InvalidInput
  | InvalidData
  | UnexpectedEof
  | Other
deriving DecidableEq, Repr

inductive TlsError
  | InvalidCertificate
  | AlertReceived
  | NoVersionOrCipher
  | InvalidServerName
  | Other
deriving DecidableEq, Repr

inductive TransportError
  | Io (kind : IoErrorKind)
  | Tls (tls : TlsError)
  | Connect
  | InvalidAddress
  | Timeout
  | Body
  | Decode
  | ResponseTooLarge
  | SocketConfig
  | Unknown
deriving DecidableEq, Repr

def isRetryableIoKind : IoErrorKind → Bool
  | .TimedOut | .ConnectionReset | .BrokenPipe | .ConnectionAborted | .Interrupted | .WouldBlock => true
  | _ => false

def classifyTransportError : TransportError → ErrorKind
  | .Io kind => if isRetryableIoKind kind then .Transient else .Terminal
  | .Tls _ => .Terminal
  | .Connect => .Transient
  | .Timeout => .Transient
  | .Body => .Transient
  | .InvalidAddress => .Terminal
  | .Decode => .Terminal
  | .ResponseTooLarge => .Terminal
  | .SocketConfig => .Terminal
  | .Unknown => .Terminal

def typedErrPrefix : String := "pcloud-resilience:typed:"

def decodeIoKind (payload : String) : IoErrorKind :=
  match payload with
  | "TimedOut" => .TimedOut
  | "Interrupted" => .Interrupted
  | "WouldBlock" => .WouldBlock
  | "ConnectionReset" => .ConnectionReset
  | "BrokenPipe" => .BrokenPipe
  | "ConnectionAborted" => .ConnectionAborted
  | "PermissionDenied" => .PermissionDenied
  | "NotFound" => .NotFound
  | "AlreadyExists" => .AlreadyExists
  | "InvalidInput" => .InvalidInput
  | "InvalidData" => .InvalidData
  | "UnexpectedEof" => .UnexpectedEof
  | _ => .Other

def decodeTls (payload : String) : TlsError :=
  match payload with
  | "InvalidCertificate" => .InvalidCertificate
  | "AlertReceived" => .AlertReceived
  | "NoVersionOrCipher" => .NoVersionOrCipher
  | "InvalidServerName" => .InvalidServerName
  | _ => .Other

def decodeTypedTag (rest : List Char) : Option TransportError :=
  let (variant, payload) := (splitOnce rest).getD (rest, [])
  match String.ofList variant with
  | "io" => some (.Io (decodeIoKind (String.ofList payload)))
  | "tls" => some (.Tls (decodeTls (String.ofList payload)))
  | "connect" => some .Connect
  | "timeout" => some .Timeout
  | "body" => some .Body
  | "invalid_address" => some .InvalidAddress
  | "decode" => some .Decode
  | "response_too_large" => some .ResponseTooLarge
  | "socket_config" => some .SocketConfig
  | "unknown" => some .Unknown
  | _ => none

def IoErrorKind.tag : IoErrorKind → String
  | .TimedOut => "TimedOut"
  | .Interrupted => "Interrupted"
  | .WouldBlock => "WouldBlock"
  | .ConnectionReset => "ConnectionReset"
  | .BrokenPipe => "BrokenPipe"
  | .ConnectionAborted => "ConnectionAborted"
  | .PermissionDenied => "PermissionDenied"
  | .NotFound => "NotFound"
  | .AlreadyExists => "AlreadyExists"
  | .InvalidInput => "InvalidInput"
  | .InvalidData => "InvalidData"
  | .UnexpectedEof => "UnexpectedEof"
  | .Other => "Other"

def TlsError.tag : TlsError → String
  | .InvalidCertificate => "InvalidCertificate"
  | .AlertReceived => "AlertReceived"
  | .NoVersionOrCipher => "NoVersionOrCipher"
  | .InvalidServerName => "InvalidServerName"
  | .Other => "Other"

def encodeTypedTag : TransportError → String
  | .Io kind => typedErrPrefix ++ "io:" ++ kind.tag
  | .Tls tls => typedErrPrefix ++ "tls:" ++ tls.tag
  | .Connect => typedErrPrefix ++ "connect:"
  | .Timeout => typedErrPrefix ++ "timeout:"
  | .Body => typedErrPrefix ++ "body:"
  | .InvalidAddress => typedErrPrefix ++ "invalid_address:"
  | .Decode => typedErrPrefix ++ "decode:"
  | .ResponseTooLarge => typedErrPrefix ++ "response_too_large:"
  | .SocketConfig => typedErrPrefix ++ "socket_config:"
  | .Unknown => typedErrPrefix ++ "unknown:"

/-- Only an error with a tag can be transient. -/
def classifyError (errorMessage : String) : ErrorKind :=
  if typedErrPrefix.toList.isPrefixOf errorMessage.toList then
    match decodeTypedTag (errorMessage.toList.drop typedErrPrefix.length) with
    | some err => classifyTransportError err
    | none => .Terminal
  else .Terminal

theorem classifyError_of_tag {rest : String} {err : TransportError} (h : decodeTypedTag rest.toList = some err) :
    classifyError (typedErrPrefix ++ rest) = classifyTransportError err := by
  unfold classifyError
  have hdrop : (typedErrPrefix.toList ++ rest.toList).drop typedErrPrefix.length = rest.toList := List.drop_left
  rw [String.toList_append, if_pos (by simp), hdrop, h]

theorem decodeIoKind_tag (kind : IoErrorKind) : decodeIoKind kind.tag = kind := by
  cases kind <;> rfl

theorem decodeTls_tag (tls : TlsError) : decodeTls tls.tag = tls := by
  cases tls <;> rfl

theorem decodeTypedTag_io (kind : IoErrorKind) : decodeTypedTag ("io:" ++ kind.tag).toList = some (.Io kind) := by
  have hsplit : splitOnce ("io:" ++ kind.tag).toList = some ("io".toList, kind.tag.toList) := by
    rw [String.toList_append]
    rfl
  rw [decodeTypedTag, hsplit, Option.getD_some]
  simp only [String.ofList_toList, decodeIoKind_tag]

theorem decodeTypedTag_tls (tls : TlsError) : decodeTypedTag ("tls:" ++ tls.tag).toList = some (.Tls tls) := by
  have hsplit : splitOnce ("tls:" ++ tls.tag).toList = some ("tls".toList, tls.tag.toList) := by
    rw [String.toList_append]
    rfl
  rw [decodeTypedTag, hsplit, Option.getD_some]
  simp only [String.ofList_toList, decodeTls_tag]

theorem classifyError_encodeTypedTag (err : TransportError) :
    classifyError (encodeTypedTag err) = classifyTransportError err := by
  cases err with
  | Io kind =>
    refine (congrArg classifyError (String.append_assoc ..)).trans (classifyError_of_tag ?_)
    exact decodeTypedTag_io kind
  | Tls tls =>
    refine (congrArg classifyError (String.append_assoc ..)).trans (classifyError_of_tag ?_)
    exact decodeTypedTag_tls tls
  | _ => exact classifyError_of_tag rfl

/-! ## Responses -/

structure TransportResponse where
  status : Nat
  headers : List (String × String) := []
  error : Option String := none
deriving DecidableEq, Repr

namespace TransportResponse

def ok (status : Nat) : TransportResponse where
  status := status

variable (response : TransportResponse)

def isRateLimited : Bool := response.status == 429

def isServerError : Bool := 500 ≤ response.status && response.status < 600

def isSuccess : Bool := 200 ≤ response.status && response.status < 300

def header (name : String) : Option String := response.headers.lookup name

def retryAfter (parseF64 : List Char → Option Float) (now : Option Int) : Option Duration :=
  (response.header "retry-after" <|> response.header "Retry-After").bind (parseRetryAfterHeader parseF64 now)

/-- The gate for terminal errors. -/
def isTerminal : Bool := response.error.any fun message => classifyError message == .Terminal

/-- A `4xx` that is not about the rate. -/
def isRefusal : Bool := 400 ≤ response.status && response.status < 500 && response.status != 429

/-- What ends the run at once. -/
def isFinal : Bool := response.isTerminal || response.isSuccess || response.isRefusal

/-- The request may not have reached the server: no status, or an error in place of an answer. -/
def isConnectionError : Bool := response.status == 0 || response.error.isSome && !response.isRateLimited

end TransportResponse

/-! ## The loop -/

structure ResilientTransportConfig where
  methodPolicy : MethodRetryPolicy
  maxTotalAttempts : Nat := 10

inductive TransportOutcome
  | Response (response : TransportResponse)
  | Failed (message : String)
deriving DecidableEq, Repr

/-- What the loop does after an answer: return, or wait and go on with this count of attempts. -/
inductive Round
  | returns (outcome : TransportOutcome)
  | waits (wait : Duration) (attempt : Nat)
deriving DecidableEq, Repr

/-- An answer, and what the system clock says when its header is read. -/
structure TransportAnswer where
  response : TransportResponse
  now : Option Int := none
deriving DecidableEq, Repr

section

variable (parseF64 : List Char → Option Float)

/-- The hint of a `429`. -/
def TransportAnswer.rateHint (answer : TransportAnswer) : Option Duration :=
  if answer.response.isRateLimited then answer.response.retryAfter parseF64 answer.now else none

namespace ResilientTransportConfig

variable (config : ResilientTransportConfig) (cls : RetryClass) (attempt : Nat) (answer : TransportAnswer)

/-- What follows the check of the policy. -/
def roundOf (prohibited : String) : RetryDecision → Round
  | .GiveUp => .returns (.Failed prohibited)
  | .Retry wait => .waits wait attempt

/-- The round with the request number `attempt`, as the budget counts. -/
def round : Round :=
  let response := answer.response
  let maxTotal := config.maxTotalAttempts
  let status := response.status
  if response.isTerminal then
    .returns (.Failed ("Terminal transport error (not retried): " ++ response.error.getD ""))
  else if response.isSuccess then .returns (.Response response)
  else if response.isRefusal then .returns (.Response response)
  else if maxTotal ≤ attempt then
    .returns (.Failed
      s!"Global retry budget exhausted after {attempt} attempt(s) (max_total_attempts = {maxTotal})")
  else match answer.rateHint parseF64 with
    | some hint => .waits hint (attempt - 1)
    | none =>
      if response.isServerError then
        roundOf attempt
          s!"Method policy prohibits retry of {status} error for non-idempotent request (attempt {attempt})"
          (config.methodPolicy.next cls attempt)
      else
        roundOf attempt s!"Method policy prohibits retry (attempt {attempt})"
          (config.methodPolicy.nextWait cls attempt none)

end ResilientTransportConfig

/-- The loop between two requests: `attempt` of them were charged. -/
inductive Execution
  | sending (attempt : Nat)
  | returned (outcome : TransportOutcome)
deriving DecidableEq, Repr

def Round.next : Round → Execution
  | .returns outcome => .returned outcome
  | .waits _ attempt => .sending attempt

def Execution.isSending : Execution → Bool
  | .sending _ => true
  | .returned _ => false

namespace ResilientTransportConfig

variable (config : ResilientTransportConfig) (cls : RetryClass) (answers : Nat → TransportAnswer)

def afterAnswer (execution : Execution) (answer : TransportAnswer) : Execution :=
  match execution with
  | .sending attempt => (config.round parseF64 cls (attempt + 1) answer).next
  | .returned outcome => .returned outcome

/-- `execute` after `n` answers of the stream. -/
def executeAfter : Nat → Execution
  | 0 => .sending 0
  | n + 1 => config.afterAnswer parseF64 cls (executeAfter n) (answers n)

/-- Request number `n` is sent. -/
def requested (n : Nat) : Bool := (config.executeAfter parseF64 cls answers n).isSending

/-- How many of the first `n` requests were sent and not answered by a `429` with a hint. -/
def charged (n : Nat) : Nat :=
  (List.range n).countP fun i =>
    config.requested parseF64 cls answers i && ((answers i).rateHint parseF64).isNone

/-- What a caller may rely on, whatever the answers are. -/
structure RetrySafe : Prop where
  final {i j : Nat} (hij : i < j) (hfinal : (answers i).response.isFinal) :
    config.requested parseF64 cls answers j = false
  budget (n : Nat) : config.charged parseF64 cls answers n ≤
    max 1 (min config.maxTotalAttempts config.methodPolicy.inner.maxAttempts)
  refused (hclass : config.methodPolicy.allowed cls = false) (n : Nat) : config.charged parseF64 cls answers n ≤ 1
  mutation {inner : RetryPolicy} (hpolicy : config.methodPolicy = .secureDefault inner) (hclass : cls = .Mutation)
    {i j : Nat} (hij : i < j)
    (hfailed : (answers i).response.isServerError ∨ (answers i).response.isConnectionError) :
    config.requested parseF64 cls answers j = false

end ResilientTransportConfig

end

/-! ## One round -/

section

variable {parseF64 : List Char → Option Float} {config : ResilientTransportConfig} {cls : RetryClass}
variable {attempt attempt' : Nat} {wait : Duration} {answer : TransportAnswer} {answers : Nat → TransportAnswer}

theorem TransportAnswer.isRateLimited_of_rateHint (h : answer.rateHint parseF64 = some wait) :
    answer.response.isRateLimited := by
  unfold rateHint at h
  split at h
  · assumption
  · cases h

namespace ResilientTransportConfig

theorem roundOf_eq_waits {prohibited : String} {decision : RetryDecision}
    (h : roundOf attempt prohibited decision = .waits wait attempt') :
    decision = .Retry wait ∧ attempt' = attempt := by
  cases decision with
  | GiveUp => cases h
  | Retry wait' =>
    cases h
    exact ⟨rfl, rfl⟩

theorem round_eq_waits (h : config.round parseF64 cls attempt answer = .waits wait attempt') :
    answer.response.isFinal = false ∧ attempt < config.maxTotalAttempts ∧
      (answer.rateHint parseF64 = some wait ∧ attempt' = attempt - 1 ∨
        answer.rateHint parseF64 = none ∧ attempt' = attempt ∧ config.methodPolicy.allowed cls ∧
          attempt < config.methodPolicy.inner.maxAttempts) := by
  unfold round at h
  dsimp only at h
  split at h
  · cases h
  next hterminal =>
  split at h
  · cases h
  next hsuccess =>
  split at h
  · cases h
  next hrefusal =>
  split at h
  · cases h
  next hbudget =>
  refine ⟨by simp [TransportResponse.isFinal, hterminal, hsuccess, hrefusal], by omega, ?_⟩
  split at h
  · next hhint =>
    cases h
    exact .inl ⟨hhint, rfl⟩
  · next hhint =>
    split at h
    all_goals
      obtain ⟨hdecision, rfl⟩ := roundOf_eq_waits h
      exact .inr ⟨hhint, rfl, MethodRetryPolicy.allowed_of_nextWait hdecision⟩

/-! ## Runs -/

theorem executeAfter_succ_of_sending (n : Nat) (h : config.executeAfter parseF64 cls answers n = .sending attempt) :
    config.executeAfter parseF64 cls answers (n + 1) = (config.round parseF64 cls (attempt + 1) (answers n)).next := by
  simp only [executeAfter, h, afterAnswer]

theorem requested_iff (n : Nat) : config.requested parseF64 cls answers n ↔
    ∃ attempt, config.executeAfter parseF64 cls answers n = .sending attempt := by
  unfold requested
  cases config.executeAfter parseF64 cls answers n with
  | sending attempt => simp [Execution.isSending]
  | returned outcome => simp [Execution.isSending]

theorem requested_succ {n : Nat} (h : config.requested parseF64 cls answers (n + 1)) :
    config.requested parseF64 cls answers n ∧ ∃ attempt wait attempt',
      config.executeAfter parseF64 cls answers n = .sending attempt ∧
      config.round parseF64 cls (attempt + 1) (answers n) = .waits wait attempt' ∧
      config.executeAfter parseF64 cls answers (n + 1) = .sending attempt' := by
  obtain ⟨attempt', h'⟩ := (requested_iff (n + 1)).mp h
  cases hn : config.executeAfter parseF64 cls answers n with
  | returned outcome => simp [executeAfter, hn, afterAnswer] at h'
  | sending attempt =>
    have hnext := executeAfter_succ_of_sending n hn
    cases hround : config.round parseF64 cls (attempt + 1) (answers n) with
    | returns outcome => simp [hnext, hround, Round.next] at h'
    | waits wait attempt'' =>
      refine ⟨(requested_iff n).mpr ⟨attempt, hn⟩, attempt, wait, attempt'', rfl, hround, ?_⟩
      rw [hnext, hround, Round.next]

theorem waits_of_requested {i j : Nat} (hij : i < j) (h : config.requested parseF64 cls answers j) :
    ∃ attempt wait attempt', config.round parseF64 cls attempt (answers i) = .waits wait attempt' := by
  induction j with
  | zero => omega
  | succ j ih =>
    obtain ⟨hj, attempt, wait, attempt', -, hround, -⟩ := requested_succ h
    rcases Nat.lt_succ_iff_lt_or_eq.mp hij with hlt | rfl
    · exact ih hlt hj
    · exact ⟨attempt + 1, wait, attempt', hround⟩

theorem charged_succ (n : Nat) : config.charged parseF64 cls answers (n + 1) =
    config.charged parseF64 cls answers n +
      if config.requested parseF64 cls answers n && ((answers n).rateHint parseF64).isNone then 1 else 0 := by
  simp only [charged, List.range_succ, List.countP_append, List.countP_singleton]

theorem charged_eq (n : Nat) (h : config.executeAfter parseF64 cls answers n = .sending attempt) :
    config.charged parseF64 cls answers n = attempt ∧
      (0 < attempt → config.methodPolicy.allowed cls ∧
        attempt < min config.maxTotalAttempts config.methodPolicy.inner.maxAttempts) := by
  induction n generalizing attempt with
  | zero =>
    cases h
    exact ⟨rfl, fun hpos => absurd hpos (Nat.lt_irrefl 0)⟩
  | succ n ih =>
    obtain ⟨hn, before, wait, attempt', hbefore, hround, hafter⟩ := requested_succ ((requested_iff _).mpr ⟨_, h⟩)
    obtain rfl : attempt' = attempt := by
      rw [h] at hafter
      cases hafter
      rfl
    obtain ⟨hcharged, hroom⟩ := ih hbefore
    rw [charged_succ, hn, hcharged]
    obtain ⟨-, htotal, ⟨hhint, rfl⟩ | ⟨hhint, rfl, hallowed, hclass⟩⟩ := round_eq_waits hround
    · rw [hhint]
      exact ⟨rfl, hroom⟩
    · rw [hhint]
      exact ⟨rfl, fun _ => ⟨hallowed, by omega⟩⟩

theorem charged_le {bound : Nat} (hbound : 1 ≤ bound)
    (hroom : ∀ n attempt, config.executeAfter parseF64 cls answers n = .sending attempt → 0 < attempt → attempt < bound)
    (n : Nat) : config.charged parseF64 cls answers n ≤ bound := by
  induction n with
  | zero => exact Nat.zero_le _
  | succ n ih =>
    rw [charged_succ]
    split
    · next hn =>
      obtain ⟨attempt, hattempt⟩ := (requested_iff n).mp (Bool.and_eq_true_iff.mp hn).1
      have := hroom n attempt hattempt
      have := (charged_eq n hattempt).1
      omega
    · exact ih

end ResilientTransportConfig

/-! ## Every stream -/

theorem execute_retrySafe (parseF64 : List Char → Option Float) (config : ResilientTransportConfig) (cls : RetryClass)
    (answers : Nat → TransportAnswer) : config.RetrySafe parseF64 cls answers where
  final {i j} hij hfinal := by
    by_contra hj
    obtain ⟨attempt, wait, attempt', hround⟩ :=
      ResilientTransportConfig.waits_of_requested hij (Bool.not_eq_false _ ▸ hj)
    have hnotFinal := (ResilientTransportConfig.round_eq_waits hround).1
    rw [hfinal] at hnotFinal
    cases hnotFinal
  budget := by
    refine ResilientTransportConfig.charged_le (Nat.le_max_left ..) fun n attempt hattempt hpos => ?_
    have hroom := ((ResilientTransportConfig.charged_eq n hattempt).2 hpos).2
    omega
  refused hclass := by
    refine ResilientTransportConfig.charged_le (Nat.le_refl 1) fun n attempt hattempt hpos => ?_
    have hallowed := ((ResilientTransportConfig.charged_eq n hattempt).2 hpos).1
    rw [hclass] at hallowed
    cases hallowed
  mutation {inner} hpolicy hclass {i j} hij hfailed := by
    by_contra hj
    obtain ⟨attempt, wait, attempt', hround⟩ :=
      ResilientTransportConfig.waits_of_requested hij (Bool.not_eq_false _ ▸ hj)
    obtain ⟨-, -, ⟨hhint, -⟩ | ⟨-, -, hallowed, -⟩⟩ := ResilientTransportConfig.round_eq_waits hround
    · have hlimited := TransportAnswer.isRateLimited_of_rateHint hhint
      simp only [TransportResponse.isRateLimited, TransportResponse.isServerError,
        TransportResponse.isConnectionError, beq_iff_eq, Bool.and_eq_true, decide_eq_true_eq] at hlimited hfailed
      simp [hlimited] at hfailed
    · rw [hpolicy, hclass] at hallowed
      cases hallowed

end

end Pcloud
