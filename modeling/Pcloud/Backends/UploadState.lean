import Mathlib.Tactic.IntervalCases
import Pcloud.Lib.Program
import Pcloud.Proto.Response
import Pcloud.Resilience.Retry

/-!
# Chunked uploads that can be resumed (`pcloud-backends/src/upload_state.rs`)

`UploadStateMachine::run` over a driver, and the driver of `transfer_backend.rs`, which puts each step to the
server. A row of `upload_resume_state` (`pcloud-store/src/repositories/upload_resume.rs`) says where the next run
takes an upload up. What is around the program (the server, the network, the disk, the session) is a state of its
own, which answers as it likes.
-/

namespace Pcloud.UploadState

open Program

/-! ## Errors -/

inductive UploadErrorClass
  | Auth
  | PermFail
  | TempFail
deriving DecidableEq, Repr

def permanentResults : List UInt64 := [2003, 2005, 2007, 2009, 2029, 2067, 5002]

def UploadErrorClass.classify (result : UInt64) : Option UploadErrorClass :=
  if result = 0 then none
  else if result = 2000 then some .Auth
  else if result ∈ permanentResults then some .PermFail
  else some .TempFail

/-- `classify_result`. -/
def classifyResult (hash : HashView) : Except UploadErrorClass Unit :=
  match hash.getNumber "result" with
  | none => .ok ()
  | some code =>
    match UploadErrorClass.classify code with
    | none => .ok ()
    | some cls => .error cls

inductive UploadStateError
  | Store
  | Permanent (attempts : Nat)
  | RetriesExhausted (attempts : Nat)
  | AuthRefresh (message : String)
  /-- No error of the source: the loop over the chunks has had its turns. -/
  | Unfinished
deriving DecidableEq, Repr

/-! ## Requests and rows -/

inductive ConflictMode
  | Overwrite
  | IfHashMatches (hash : UInt64)
  | CreateIfNew
deriving DecidableEq, Repr

inductive ConflictHint
  | None
  | IfHash (hash : UInt64)
  | IfNew
deriving DecidableEq, Repr

def ConflictMode.toHint : ConflictMode → ConflictHint
  | .Overwrite => .None
  | .IfHashMatches hash => .IfHash hash
  | .CreateIfNew => .IfNew

def ConflictMode.fromHint : ConflictHint → ConflictMode
  | .None => .Overwrite
  | .IfHash hash => .IfHashMatches hash
  | .IfNew => .CreateIfNew

@[simp]
theorem ConflictMode.fromHint_toHint (mode : ConflictMode) : fromHint mode.toHint = mode := by
  cases mode <;> rfl

structure UploadRequest where
  localPath : String
  parentFolderId : UInt64
  fileName : String
  totalSize : Nat
  conflict : ConflictMode
deriving DecidableEq, Repr

/-- A row of `upload_resume_state`. The columns hold an `i64` for each `u64`, and no bit is lost in between. -/
structure UploadResumeRecord where
  localPath : String
  parentFolderId : UInt64
  fileName : String
  uploadId : UInt64
  offset : Nat
  totalSize : Nat
  conflict : ConflictHint
deriving DecidableEq, Repr

inductive ChunkedConflictMode
  | IfHash (hash : UInt64)
  | CreateIfNew
deriving DecidableEq, Repr

def ChunkedConflictMode.intoState : ChunkedConflictMode → ConflictMode
  | .IfHash hash => .IfHashMatches hash
  | .CreateIfNew => .CreateIfNew

inductive ConflictParam
  | IfHash (hash : UInt64)
  | New
deriving DecidableEq, Repr

def ChunkedConflictMode.toParam : ChunkedConflictMode → ConflictParam
  | .IfHash hash => .IfHash hash
  | .CreateIfNew => .New

structure ChunkedUploadRequest where
  localPath : String
  parentFolderId : UInt64
  fileName : String
  totalSize : Nat
  modifiedAtUnix : UInt64
  ctime : Option UInt64
  conflict : ChunkedConflictMode
deriving DecidableEq, Repr

def ChunkedUploadRequest.state (req : ChunkedUploadRequest) : UploadRequest where
  localPath := req.localPath
  parentFolderId := req.parentFolderId
  fileName := req.fileName
  totalSize := req.totalSize
  conflict := req.conflict.intoState

/-! ## What goes to the server -/

structure UploadCreateRequest where
  authToken : String
  parentFolderId : UInt64
  fileName : String
  fileSize : Nat
  idempotencyKey : Option String
deriving DecidableEq, Repr

structure UploadWriteRequest where
  authToken : String
  uploadId : UInt64
  uploadOffset : Nat
  chunkId : Nat
  idempotencyKey : Option String
deriving DecidableEq, Repr

structure UploadInfoRequest where
  authToken : String
  uploadId : UInt64
  chunkId : Nat
deriving DecidableEq, Repr

structure UploadSaveRequest where
  authToken : String
  parentFolderId : UInt64
  fileName : String
  uploadId : UInt64
  modifiedAtUnix : UInt64
  ctime : Option UInt64
  conflict : Option ConflictParam
  idempotencyKey : Option String
deriving DecidableEq, Repr

inductive ServerRequest
  | create (request : UploadCreateRequest)
  | write (request : UploadWriteRequest) (body : Bytes)
  | info (request : UploadInfoRequest)
  | save (request : UploadSaveRequest)
  | delete (authToken : String) (uploadId : UInt64)
deriving DecidableEq, Repr

/-! ## Effects -/

inductive UploadEffect
  | get (localPath : String)
  | put (record : UploadResumeRecord)
  | updateOffset (localPath : String) (offset : Nat)
  | deleteRow (localPath : String)
  | refresh
  | send (request : ServerRequest)
  /-- The cells of the driver: `auth_cache` and `upload_id_cell`. -/
  | cacheAuth (authToken : String)
  | setUploadId (uploadId : UInt64)
  | cells

namespace UploadEffect

/-- A request that cannot be encoded, sent or answered has no answer. -/
abbrev Answer : UploadEffect → Type
  | get _ => Except Unit (Option UploadResumeRecord)
  | put _ | updateOffset _ _ | deleteRow _ => Except Unit Unit
  | refresh => Except String String
  | send _ => Option Value
  | cacheAuth _ | setUploadId _ => Unit
  | cells => String × Option UInt64

end UploadEffect

abbrev Upload (ε α : Type) := Fallible UploadEffect UploadEffect.Answer ε α

/-- A statement on the table: its error ends the run. -/
def store {α : Type} (statement : Prog UploadEffect UploadEffect.Answer (Except Unit α)) :
    Upload UploadStateError α := do
  match ← ExceptT.lift statement with
  | .ok a => pure a
  | .error () => throw .Store

/-! ## The driver -/

structure UploadDriver where
  create : UploadRequest → (auth : String) → Upload UploadErrorClass UInt64
  write : (uploadId : UInt64) → (offset remaining : Nat) → (auth : String) → Upload UploadErrorClass Nat
  save : (uploadId : UInt64) → UploadRequest → (auth : String) → Upload UploadErrorClass Unit

def psyncCopyBufferSize : Nat := 256 * 1024

def psyncHashDigestHexlen : Nat := 40

def orTempFail {α : Type} : Option α → Upload UploadErrorClass α
  | some a => pure a
  | none => throw .TempFail

/-- A request, its answer, and what `classify_result` says of it. -/
def exchange (request : ServerRequest) : Upload UploadErrorClass HashView := do
  let response : Option Value ← ExceptT.lift (Prog.perform (UploadEffect.send request))
  let hash ← orTempFail (response.bind Value.asHash)
  match classifyResult hash with
  | .ok () => pure hash
  | .error cls => throw cls

def cacheAuth (auth : String) : Upload UploadErrorClass Unit :=
  ExceptT.lift (Prog.perform (UploadEffect.cacheAuth auth))

structure ChunkedUploadDriver where
  payload : Buffer
  localSha1 : String
  req : ChunkedUploadRequest
  idempotencyKey : String

namespace ChunkedUploadDriver

variable (driver : ChunkedUploadDriver)

def create (auth : String) : Upload UploadErrorClass UInt64 := do
  cacheAuth auth
  let hash ← exchange (.create
    { authToken := auth, parentFolderId := driver.req.parentFolderId, fileName := driver.req.fileName,
      fileSize := driver.req.totalSize, idempotencyKey := some driver.idempotencyKey })
  let uploadId ← orTempFail (hash.getNumber "uploadid")
  ExceptT.lift (Prog.perform (UploadEffect.setUploadId uploadId))
  pure uploadId

/-- One chunk, where it ends within the payload. -/
def writeChunk (uploadId : UInt64) (offset chunkLen : Nat) (auth : String) : Upload UploadErrorClass Nat := do
  let _ ← exchange (.write
    { authToken := auth, uploadId, uploadOffset := offset, chunkId := offset / psyncCopyBufferSize,
      idempotencyKey := some driver.idempotencyKey } ((driver.payload.bytes.drop offset).take chunkLen))
  pure (offset + chunkLen)

def write (uploadId : UInt64) (offset remaining : Nat) (auth : String) : Upload UploadErrorClass Nat := do
  cacheAuth auth
  let chunkLen := min remaining psyncCopyBufferSize
  if driver.payload.bytes.length < offset + chunkLen then throw .PermFail
  else driver.writeChunk uploadId offset chunkLen auth

/-- The check of `save` before it commits. -/
def verify (uploadId : UInt64) (auth : String) : Upload UploadErrorClass Unit := do
  let info ← exchange (.info { authToken := auth, uploadId, chunkId := 0 })
  let reportedSize ← orTempFail (info.getNumber "size")
  let reportedSha1 ← orTempFail (info.getString "sha1")
  if reportedSize.toNat ≠ driver.req.totalSize ∨ (utf8 reportedSha1).length ≠ psyncHashDigestHexlen ∨
      reportedSha1 ≠ driver.localSha1 then throw .PermFail
  else pure ()

def save (uploadId : UInt64) (auth : String) : Upload UploadErrorClass Unit := do
  cacheAuth auth
  driver.verify uploadId auth
  let _ ← exchange (.save
    { authToken := auth, parentFolderId := driver.req.parentFolderId, fileName := driver.req.fileName, uploadId,
      modifiedAtUnix := driver.req.modifiedAtUnix, ctime := driver.req.ctime,
      conflict := some driver.req.conflict.toParam, idempotencyKey := some driver.idempotencyKey })

def toUploadDriver : UploadDriver where
  create _ auth := driver.create auth
  write := driver.write
  save uploadId _ auth := driver.save uploadId auth

end ChunkedUploadDriver

/-! ## The state machine -/

section

variable (policy : RetryPolicy) (driver : UploadDriver) (req : UploadRequest)

/-- The loop of `run_step`, with the session that it leaves. A turn makes an attempt or fails, and one turn is for
the refresh: `maxAttempts + 1` turns are enough. -/
def runTurns {α : Type} (op : String → Upload UploadErrorClass α) :
    (turns attempts : Nat) → (authRefreshed : Bool) → (auth : String) → Upload UploadStateError (α × String)
  | 0, attempts, _, _ => throw (.RetriesExhausted attempts)
  | turns + 1, attempts, authRefreshed, auth => do
    match ← ExceptT.lift (op auth).run with
    | .ok value => pure (value, auth)
    | .error .PermFail => throw (.Permanent (attempts + 1))
    | .error .Auth =>
      if authRefreshed then throw (.Permanent (attempts + 1))
      else
        match ← ExceptT.lift (Prog.perform UploadEffect.refresh) with
        | .ok newToken => runTurns op turns (attempts + 1) true newToken
        | .error message => throw (.AuthRefresh message)
    | .error .TempFail =>
      match policy.next (attempts + 1) with
      | .Retry _ => runTurns op turns (attempts + 1) authRefreshed auth
      | .GiveUp => throw (.RetriesExhausted (attempts + 1))

def runStep {α : Type} (op : String → Upload UploadErrorClass α) (auth : String) :
    Upload UploadStateError (α × String) :=
  runTurns policy op (policy.maxAttempts + 1) 0 false auth

/-- The row selects the session that it names. -/
def UploadResumeRecord.Selects (record : UploadResumeRecord) (req : UploadRequest) : Prop :=
  record.totalSize = req.totalSize ∧ record.parentFolderId = req.parentFolderId ∧ record.fileName = req.fileName ∧
    ConflictMode.fromHint record.conflict = req.conflict

instance (record : UploadResumeRecord) : Decidable (record.Selects req) := by
  unfold UploadResumeRecord.Selects
  infer_instance

def UploadRequest.record (uploadId : UInt64) : UploadResumeRecord where
  localPath := req.localPath
  parentFolderId := req.parentFolderId
  fileName := req.fileName
  uploadId := uploadId
  offset := 0
  totalSize := req.totalSize
  conflict := req.conflict.toHint

/-- From scratch: the session, the offset and the token to go on with. -/
def startOver (existing : Option UploadResumeRecord) (auth : String) :
    Upload UploadStateError (UInt64 × Nat × String) := do
  if existing.isSome then store (Prog.perform (UploadEffect.deleteRow req.localPath))
  let (uploadId, auth) ← runStep policy (driver.create req) auth
  store (Prog.perform (UploadEffect.put (req.record uploadId)))
  pure (uploadId, 0, auth)

/-- The check for a row to resume from. -/
def begin (auth : String) : Upload UploadStateError (UInt64 × Nat × String) := do
  let existing : Option UploadResumeRecord ← store (Prog.perform (UploadEffect.get req.localPath))
  match existing with
  | some record =>
    if record.Selects req then pure (record.uploadId, record.offset, auth)
    else startOver policy driver req existing auth
  | none => startOver policy driver req existing auth

/-- The loop over the chunks, for so many turns. -/
def writeLoop (uploadId : UInt64) : (turns offset : Nat) → (auth : String) → Upload UploadStateError String
  | turns, offset, auth =>
    if req.totalSize ≤ offset then pure auth
    else match turns with
      | 0 => throw .Unfinished
      | turns + 1 => do
        let (newOffset, auth) ← runStep policy (driver.write uploadId offset (req.totalSize - offset)) auth
        let offset := min newOffset req.totalSize
        store (Prog.perform (UploadEffect.updateOffset req.localPath offset))
        writeLoop uploadId turns offset auth

/-- `UploadStateMachine::run`. -/
def run (turns : Nat) (auth : String) : Upload UploadStateError Unit := do
  let (uploadId, offset, auth) ← begin policy driver req auth
  let auth ← writeLoop policy driver req uploadId turns offset auth
  let _ ← runStep policy (driver.save uploadId req) auth
  store (Prog.perform (UploadEffect.deleteRow req.localPath))

end

/-! ## The caller -/

abbrev Sha1Digest := { digest : Bytes // digest.length = 20 }

def uploadSha1Hex (sha1 : Bytes → Sha1Digest) (bytes : Bytes) : String := hexEncode (sha1 bytes)

theorem length_utf8_hexEncode (bytes : Bytes) : (utf8 (hexEncode bytes)).length = 2 * bytes.length := by
  have hdigit : ∀ d, (hexEncode.hexDigit d).utf8Size = 1 := by
    intro d
    by_cases hd : d < 16
    · interval_cases d <;> rfl
    · rw [hexEncode.hexDigit, List.getD_eq_getElem?_getD, List.getElem?_eq_none (by simpa using hd)]
      rfl
  rw [length_utf8, hexEncode, Utf8.utf8ByteSize_ofList]
  induction bytes with
  | nil => rfl
  | cons byte bytes ih =>
    rw [List.flatMap_cons, List.length_cons]
    simp only [List.cons_append, List.nil_append, Utf8.size_cons, hdigit, ih]
    omega

theorem length_uploadSha1Hex (sha1 : Bytes → Sha1Digest) (bytes : Bytes) :
    (utf8 (uploadSha1Hex sha1 bytes)).length = 40 := by
  rw [uploadSha1Hex, length_utf8_hexEncode, (sha1 bytes).property]

inductive ChunkedUploadError
  | PayloadSizeMismatch (declared actual : Nat)
  | State (e : UploadStateError)
deriving DecidableEq, Repr

structure ChunkedUploadResult where
  uploadId : UInt64
  bytesUploaded : Nat
  sha1Hex : String
deriving DecidableEq, Repr

section

variable (sha1 : Bytes → Sha1Digest) (policy : RetryPolicy) (key : String)

/-- The cleanup after a permanent failure: only a session that this run has created. -/
def cleanUp : Prog UploadEffect UploadEffect.Answer Unit := do
  let (authCache, uploadId) ← Prog.perform UploadEffect.cells
  match uploadId with
  | some uploadId =>
    let _ ← Prog.perform (UploadEffect.send (.delete authCache uploadId))
    pure ()
  | none => pure ()

/-- What is returned after the run. -/
def finish (req : ChunkedUploadRequest) (sha1 : String) :
    Except UploadStateError Unit → Upload ChunkedUploadError ChunkedUploadResult
  | .ok () => do
    let (_, uploadId) ← ExceptT.lift (Prog.perform UploadEffect.cells)
    pure { uploadId := uploadId.getD 0, bytesUploaded := req.totalSize, sha1Hex := sha1 }
  | .error (.Permanent attempts) => do
    ExceptT.lift cleanUp
    throw (.State (.Permanent attempts))
  | .error e => throw (.State e)

/-- `upload_bytes_chunked_with_observer`, with a transport. -/
def uploadBytesChunked (turns : Nat) (authToken : String) (req : ChunkedUploadRequest) (payload : Buffer) :
    Upload ChunkedUploadError ChunkedUploadResult := do
  if payload.bytes.length ≠ req.totalSize then throw (.PayloadSizeMismatch req.totalSize payload.bytes.length)
  else
    let localSha1 := uploadSha1Hex sha1 payload.bytes
    let driver : ChunkedUploadDriver := { payload, localSha1, req, idempotencyKey := key }
    let outcome ← ExceptT.lift (run policy driver.toUploadDriver req.state turns authToken).run
    finish req localSha1 outcome

end

/-! ## What is around -/

/-- The server, the session and the disk: what they answer may depend on all that they were asked before. `store`
says whether a statement on the table succeeds. -/
structure Surroundings (σ : Type) where
  respond : σ → ServerRequest → Option Value × σ
  refresh : σ → Except String String × σ
  store : σ → Bool × σ

/-- `exchanges` is for the record: what went to the server, and what came back. -/
structure UploadWorld (σ : Type) where
  around : σ
  rows : String → Option UploadResumeRecord := fun _ => none
  authCache : String := ""
  uploadIdCell : Option UInt64 := none
  exchanges : List (ServerRequest × Option Value) := []

section

variable {σ : Type} (env : Surroundings σ) (w : UploadWorld σ)

namespace UploadWorld

def statement {α : Type} (answer : α) (rows : String → Option UploadResumeRecord) : Except Unit α × UploadWorld σ :=
  match env.store w.around with
  | (true, around) => (.ok answer, { w with around, rows })
  | (false, around) => (.error (), { w with around })

def perform : (e : UploadEffect) → Unit → e.Answer × UploadWorld σ
  | .get localPath, _ => w.statement env (w.rows localPath) w.rows
  | .put record, _ => w.statement env () (Function.update w.rows record.localPath (some record))
  | .updateOffset localPath offset, _ =>
    w.statement env ()
      (Function.update w.rows localPath ((w.rows localPath).map fun record => { record with offset }))
  | .deleteRow localPath, _ => w.statement env () (Function.update w.rows localPath none)
  | .refresh, _ =>
    let (answer, around) := env.refresh w.around
    (answer, { w with around })
  | .send request, _ =>
    let (reply, around) := env.respond w.around request
    (reply, { w with around, exchanges := w.exchanges ++ [(request, reply)] })
  | .cacheAuth authToken, _ => ((), { w with authCache := authToken })
  | .setUploadId uploadId, _ => ((), { w with uploadIdCell := some uploadId })
  | .cells, _ => ((w.authCache, w.uploadIdCell), w)

/-- The world as a new driver finds it. -/
def newDriver : UploadWorld σ := { w with authCache := "", uploadIdCell := none, exchanges := [] }

end UploadWorld

/-- What a call passes on. -/
structure UploadCall where
  authToken : String
  idempotencyKey : String
  req : ChunkedUploadRequest
  payload : Buffer
  turns : Nat

/-- The driver of a call. -/
def UploadCall.driver (sha1 : Bytes → Sha1Digest) (call : UploadCall) : ChunkedUploadDriver where
  payload := call.payload
  localSha1 := uploadSha1Hex sha1 call.payload.bytes
  req := call.req
  idempotencyKey := call.idempotencyKey

/-- A call in a world. -/
def UploadWorld.upload (sha1 : Bytes → Sha1Digest) (policy : RetryPolicy) (call : UploadCall) :
    Except ChunkedUploadError ChunkedUploadResult × UploadWorld σ :=
  exec (UploadWorld.perform env)
    (uploadBytesChunked sha1 policy call.idempotencyKey call.turns call.authToken call.req call.payload).run []
    w.newDriver

end

end Pcloud.UploadState
