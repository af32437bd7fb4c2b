import Pcloud.Fs.WriteWorld

/-!
# The write path (`pcloud-fs/src/write_path.rs`)

Each call of the service as a program of the effects it asks for, in the order of the source.
-/

namespace Pcloud

open Program

structure WritePathOptions where
  flushThresholdBytes : Nat := 64 * 1024 * 1024
  flushInterval : Nat := 30
  chunkSizeBytes : Nat := 4 * 1024 * 1024
  maxStagingBytes : Nat := 512 * 1024 * 1024
  chunkRetryAttempts : Nat := 5
  maxGlobalStagingBytes : Nat := 2 * 1024 * 1024 * 1024
deriving DecidableEq, Repr

def chunkedNotSupported : String := "chunked upload api not implemented"

def statusNotSupported : String := "upload_status api not implemented"

def defaultChunkSizeBytes : Nat := 4 * 1024 * 1024

def splitParentName (path : String) : Option (String × String) :=
  if path = "/" then none
  else
    let chars := path.toList
    let reversedName := chars.reverse.takeWhile (· ≠ '/')
    let before := chars.reverse.drop reversedName.length
    match before with
    | [] => none
    | _ :: reversedParent =>
      let parent := if reversedParent = [] then "/" else String.ofList reversedParent.reverse
      if reversedName = [] then none else some (parent, String.ofList reversedName.reverse)

/-- A call, or a part of one. -/
abbrev WriteProg (α : Type) := Fallible Effect Effect.Answer WritePathError α

abbrev effect (e : Effect) : Prog Effect Effect.Answer e.Answer := Prog.perform e

/-- The effects as a protocol, whatever their fates. -/
abbrev anyFate : Protocol World Effect Effect.Answer := effects World.perform fun _ => True

/-- An effect that always answers. -/
def ask (e : Effect) : WriteProg e.Answer := ExceptT.lift (effect e)

/-- An effect that may answer with an error, which ends the call as `?` does. -/
def attempt {α : Type} (p : Prog Effect Effect.Answer (Except WritePathError α)) : WriteProg α := ExceptT.mk p

/-- What a call comes to, to be matched on. -/
def outcome {α : Type} (call : WriteProg α) : WriteProg (Except WritePathError α) := ExceptT.lift call.run

/-- `map_err` to `Upload`. -/
def orUpload {α : Type} (message : String) (call : WriteProg α) : WriteProg α := do
  match ← outcome call with
  | .ok a => return a
  | .error _ => throw (.upload message)

section Follows

variable {σ α : Type} {P : Protocol σ Effect Effect.Answer} {s : σ}

theorem follows_ask {e : Effect} {post : Except WritePathError e.Answer → σ → Prop} :
    Follows P post (ask e).run s ↔ P.allowed s e ∧ ∀ ans s', P.moves s e ans s' → post (.ok ans) s' := Iff.rfl

theorem follows_attempt {p : Prog Effect Effect.Answer (Except WritePathError α)}
    {post : Except WritePathError α → σ → Prop} : Follows P post (attempt p).run s ↔ Follows P post p s := Iff.rfl

theorem follows_outcome {call : WriteProg α} {post : Except WritePathError (Except WritePathError α) → σ → Prop} :
    Follows P post (outcome call).run s ↔ Follows P (fun result => post (.ok result)) call.run s := follows_lift

theorem follows_orUpload {message : String} {call : WriteProg α} {post : Except WritePathError α → σ → Prop} :
    Follows P post (orUpload message call).run s ↔
      Follows P (fun result => post (result.mapError fun _ => .upload message)) call.run s := by
  rw [orUpload, follows_fallible_bind, follows_outcome]
  constructor
  · intro h
    apply h.mono
    rintro (err | a) s h
    · exact h
    · exact h
  · intro h
    apply h.mono
    rintro (err | a) s h
    · exact h
    · exact h

theorem asks_ask {kind : Effect → Prop} {e : Effect} (h : kind e) : Asks kind (ask e).run :=
  Asks.lift (asks_perform.mpr h)

theorem asks_attempt {kind : Effect → Prop} {p : Prog Effect Effect.Answer (Except WritePathError α)}
    (h : Asks kind p) : Asks kind (attempt p).run := h

theorem asks_outcome {kind : Effect → Prop} {call : WriteProg α} (h : Asks kind call.run) :
    Asks kind (outcome call).run := Asks.lift h

theorem asks_orUpload {kind : Effect → Prop} {message : String} {call : WriteProg α} (h : Asks kind call.run) :
    Asks kind (orUpload message call).run := by
  apply Asks.fallible_bind (asks_outcome h)
  rintro (error | a) <;>
  trivial

end Follows

namespace WritePathService

variable (options : WritePathOptions)

def getHandle (ino : Nat) : WriteProg Nat := do
  match ← ask (.getHandle ino) with
  | some id => return id
  | none => throw (.notOpen ino)

def openForWrite (ino : Nat) (path : String) (appendMode oTrunc : Bool) : WriteProg Unit := do
  if oTrunc then
    attempt (effect (.truncateBlob ino 0))
  else if !(← ask (.blobExists ino)) then
    attempt (effect (.writeBlobFull ino []))
  let now ← ask .now
  ask (.insertHandle ino { path, blobName := ino, dirtyBytes := 0, lastFlush := now, appendMode })

def seedBlob (ino : Nat) (bytes : Bytes) : WriteProg Unit := attempt (effect (.writeBlobFull ino bytes))

def create (ino : Nat) (parentPath name : String) : WriteProg Unit := do
  if name = "" ∨ '/' ∈ name.toList ∨ Char.ofNat 0 ∈ name.toList then throw (.invalid "name")
  openForWrite ino (joinPath parentPath name) false true
  let _ ← attempt (effect (.journalAppend (.create parentPath name)))

/-! ## Uploads -/

/-- One chunk, sent again up to `attempts` times more where the failure is transient. -/
def uploadChunk (maxAttempts uploadId offset : Nat) (chunk : Bytes) : (attempts : Nat) → WriteProg Unit
  | 0 => do
    match ← outcome (attempt (effect (.uploadWrite uploadId offset chunk))) with
    | .ok () => return ()
    | .error (.uploadTransient message) =>
      throw (.uploadTransient s!"exhausted {maxAttempts} retries at offset {offset}: {message}")
    | .error err => throw err
  | attempts + 1 => do
    match ← outcome (attempt (effect (.uploadWrite uploadId offset chunk))) with
    | .ok () => return ()
    | .error (.uploadTransient _) => uploadChunk maxAttempts uploadId offset chunk attempts
    | .error err => throw err

def chunkBytes : Nat := if options.chunkSizeBytes = 0 then defaultChunkSizeBytes else options.chunkSizeBytes

/-- The loop over the chunks. Each has a byte or more, so `turns` may be the size of the blob. -/
def uploadChunks (ino : Nat) (path : String) (blobName totalSize uploadId : Nat) :
    (turns offset : Nat) → WriteProg Unit
  | 0, _ => return ()
  | turns + 1, offset => do
    if offset < totalSize then
      let want := min (chunkBytes options) (totalSize - offset)
      let chunk ← orUpload "read staging blob" (attempt (effect (.readBlobAt blobName offset want)))
      uploadChunk options.chunkRetryAttempts uploadId offset chunk options.chunkRetryAttempts
      let _ ← attempt (effect (.journalAppend (.chunkAck path uploadId offset want)))
      let now ← ask .now
      attempt (effect (.saveProgress ino ⟨uploadId, blobName, totalSize, offset + want, now⟩))
      uploadChunks ino path blobName totalSize uploadId turns (offset + want)

/-- A new session, with a sidecar that has nothing acknowledged. -/
def startSession (ino : Nat) (parent name : String) (blobName totalSize : Nat) : WriteProg (Nat × Nat) := do
  let uploadId ← attempt (effect (.uploadCreate parent name))
  let now ← ask .now
  attempt (effect (.saveProgress ino ⟨uploadId, blobName, totalSize, 0, now⟩))
  return (uploadId, 0)

/-- The session of a sidecar with the blob's name and size, or a new one. -/
def resumeOrStart (ino : Nat) (parent name : String) (blobName totalSize : Nat) : WriteProg (Nat × Nat) := do
  match ← attempt (effect (.loadProgress ino)) with
  | some progress =>
    if progress.blobName = blobName ∧ progress.totalSize = totalSize then
      return (progress.uploadId, progress.ackedOffset)
    else startSession ino parent name blobName totalSize
  | none => startSession ino parent name blobName totalSize

def runChunkedSession (ino : Nat) (parent name : String) (blobName totalSize : Nat) : WriteProg Unit := do
  let (uploadId, resumeOffset) ← resumeOrStart ino parent name blobName totalSize
  orUpload "open staging blob" (attempt (effect (.openBlob blobName)))
  uploadChunks options ino (joinPath parent name) blobName totalSize uploadId totalSize resumeOffset
  attempt (effect (.uploadSave ino uploadId parent name totalSize))
  ask (.removeProgress ino)

/-- Sessions until one is saved, with `restarts` new ones after a permanent failure. -/
def runSessions (ino : Nat) (parent name : String) (blobName totalSize : Nat) : (restarts : Nat) → WriteProg Unit
  | 0 => runChunkedSession options ino parent name blobName totalSize
  | restarts + 1 => do
    match ← outcome (runChunkedSession options ino parent name blobName totalSize) with
    | .ok () => return ()
    | .error (.uploadPermanent _) =>
      ask (.removeProgress ino)
      runSessions ino parent name blobName totalSize restarts
    | .error err => throw err

def chunkedFlush (ino : Nat) : WriteProg Unit := do
  let id ← getHandle ino
  let h ← ask (.readHandle id)
  match splitParentName h.path with
  | none => throw (.invalid "path has no parent")
  | some (parent, name) =>
    let _ ← attempt (effect (.journalAppend (.flushBarrier h.path)))
    match ← ask (.blobLen h.blobName) with
    | none => throw (.upload "staging metadata")
    | some totalSize =>
      runSessions options ino parent name h.blobName totalSize 1
      let now ← ask .now
      ask (.resetDirty id options.maxGlobalStagingBytes now)

def flush (ino : Nat) : WriteProg Unit := do
  let id ← getHandle ino
  let h ← ask (.readHandle id)
  let _ ← attempt (effect (.journalAppend (.flushBarrier h.path)))
  match splitParentName h.path with
  | none => throw (.invalid "path has no parent")
  | some (parent, name) =>
    attempt (effect (.uploadFile h.blobName parent name))
    let now ← ask .now
    ask (.resetDirty id options.maxGlobalStagingBytes now)

/-! ## Writes -/

/-- `effective_offset`. -/
def effectiveOffset (h : WriteHandle) (offset : Nat) : WriteProg Nat :=
  if h.appendMode then do return (← ask (.blobLen h.blobName)).getD 0 else return offset

/-- The ceilings of `write`. The bytes are counted before the second is checked, and taken back where it is passed. -/
def checkCeilings (offset : Nat) (data : Bytes) : WriteProg Unit := do
  if options.maxStagingBytes < usizeMax ∧ satAdd offset data.length > options.maxStagingBytes then
    throw (.invalid "write would exceed max_staging_bytes ceiling")
  if options.maxGlobalStagingBytes < usizeMax then
    let prev ← ask (.fetchAdd data.length)
    if satAdd prev data.length > options.maxGlobalStagingBytes then
      ask (.fetchSub data.length)
      throw (.invalid "write would exceed process-wide max_global_staging_bytes ceiling")

/-- `write` up to its flush triggers. The counter that is written back is the one read at the start. -/
def stageWrite (ino offset : Nat) (data : Bytes) : WriteProg (Nat × Nat) := do
  let id ← getHandle ino
  let h ← ask (.readHandle id)
  let offset ← effectiveOffset h offset
  checkCeilings options offset data
  attempt (effect (.writeBlobAt h.blobName offset data))
  let _ ← attempt (effect (.journalAppend (.write h.path offset data.length h.blobName)))
  let dirty := satAdd h.dirtyBytes data.length
  ask (.setDirty id dirty)
  return (dirty, h.lastFlush)

/-- The flush triggers of `write`. -/
def flushIfDue (ino dirty lastFlush : Nat) : WriteProg Unit := do
  let now ← ask .now
  if dirty ≥ options.flushThresholdBytes then
    match ← outcome (chunkedFlush options ino) with
    | .ok () => return ()
    | .error (.upload message) =>
      if message = chunkedNotSupported then flush options ino else throw (.upload message)
    | .error err => throw err
  else if now - lastFlush ≥ options.flushInterval then
    flush options ino

def write (ino offset : Nat) (data : Bytes) : WriteProg Nat := do
  let (dirty, lastFlush) ← stageWrite options ino offset data
  flushIfDue options ino dirty lastFlush
  return data.length

/-! ## The other calls -/

def truncate (ino newSize : Nat) : WriteProg Unit := do
  let id ← getHandle ino
  let h ← ask (.readHandle id)
  attempt (effect (.truncateBlob h.blobName newSize))
  let _ ← attempt (effect (.journalAppend (.truncate h.path newSize)))

def unlink (ino : Option Nat) (path : String) : WriteProg Unit := do
  let _ ← attempt (effect (.journalAppend (.unlink path)))
  match ino with
  | some ino =>
    ask (.removeBlob ino)
    ask (.removeHandle ino)
  | none => pure ()
  attempt (effect (.unlinkRemote path))

def rename (source target : String) : WriteProg Unit := do
  let _ ← attempt (effect (.journalAppend (.rename source target)))
  attempt (effect (.renameRemote source target))
  ask (.renamePaths source target)

/-- The loop of `tick`, which stops at the first error. -/
def flushEach : List Nat → WriteProg Unit
  | [] => return ()
  | ino :: inos => do
    flush options ino
    flushEach inos

def tick : WriteProg Unit := do
  let now ← ask .now
  let handles ← ask .listHandles
  flushEach options ((handles.filter fun (_, h) =>
    0 < h.dirtyBytes ∧ now - h.lastFlush ≥ options.flushInterval).map Prod.fst)

def drainEach : List Nat → WriteProg (List (Nat × Except WritePathError Unit))
  | [] => return []
  | ino :: inos => do
    let result ← outcome (flush options ino)
    return (ino, result) :: (← drainEach inos)

def drainAll : WriteProg (List (Nat × Except WritePathError Unit)) := do
  let handles ← ask .listHandles
  drainEach options ((handles.filter fun (_, h) => 0 < h.dirtyBytes).map Prod.fst)

def release (ino : Nat) : WriteProg Unit := ask (.releaseHandle ino options.maxGlobalStagingBytes)

/-! ## Sidecars -/

def idleForIfStalled (progress : UploadProgress) (now timeout : Nat) : Option Nat :=
  if progress.heartbeatUnixSecs = 0 then none
  else if timeout ≤ now - progress.heartbeatUnixSecs then some (now - progress.heartbeatUnixSecs)
  else none

inductive ResumeOutcome
  | resumed (uploadId ackedOffset : Nat)
  | serverAhead (uploadId ackedOffset : Nat)
  | sidecarTrimmed (uploadId ackedOffset : Nat)
  | expired (uploadId : Nat)
  | stalled (uploadId idleFor : Nat)
  | unparseable
  | backendError (uploadId : Nat)
deriving DecidableEq, Repr

/-- Rewrites a sidecar with the count of the server. -/
def reconcile (ino now serverBytes : Nat) (progress : UploadProgress) (done : ResumeOutcome) :
    WriteProg (Option ResumeOutcome) := do
  let updated := { progress with ackedOffset := serverBytes, heartbeatUnixSecs := now }
  match ← outcome (attempt (effect (.saveProgress ino updated))) with
  | .ok () => return some done
  | .error _ => return some (.backendError progress.uploadId)

/-- One turn of the loop over the sidecars. -/
def replayUploadSidecar (timeout now ino : Nat) : WriteProg (Option ResumeOutcome) := do
  match ← outcome (attempt (effect (.loadProgress ino))) with
  | .error _ => return some .unparseable
  | .ok none => return none
  | .ok (some progress) =>
    match ← outcome (attempt (effect (.uploadStatus progress.uploadId))) with
    | .error err =>
      if err = .upload statusNotSupported ∨ err = .upload chunkedNotSupported then
        match idleForIfStalled progress now timeout with
        | some idle =>
          ask (.removeProgress ino)
          return some (.stalled progress.uploadId idle)
        | none => return some (.resumed progress.uploadId progress.ackedOffset)
      else return some (.backendError progress.uploadId)
    | .ok .notFound =>
      ask (.removeProgress ino)
      return some (.expired progress.uploadId)
    | .ok (.bytes serverBytes) =>
      if serverBytes ≤ progress.ackedOffset ∧ (idleForIfStalled progress now timeout).isSome then
        ask (.removeProgress ino)
        return some (.stalled progress.uploadId (now - progress.heartbeatUnixSecs))
      else if serverBytes = progress.ackedOffset then
        return some (.resumed progress.uploadId progress.ackedOffset)
      else if progress.ackedOffset < serverBytes then
        reconcile ino now (min serverBytes progress.totalSize) progress
          (.serverAhead progress.uploadId (min serverBytes progress.totalSize))
      else reconcile ino now serverBytes progress (.sidecarTrimmed progress.uploadId serverBytes)

def replayUploadSidecarsFrom (timeout now : Nat) : List Nat → WriteProg (List ResumeOutcome)
  | [] => return []
  | ino :: inos => do
    let result ← replayUploadSidecar timeout now ino
    return result.toList ++ (← replayUploadSidecarsFrom timeout now inos)

def replayUploadSidecars (timeout : Nat) : WriteProg (List ResumeOutcome) := do
  let now ← ask .now
  replayUploadSidecarsFrom timeout now (← ask .listSidecars)

end WritePathService

end Pcloud
