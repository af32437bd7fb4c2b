import Pcloud.Lib.Program
import Pcloud.Model.Bytes
import Pcloud.Model.Sync

/-!
# Uploads over the bridge (`execute_upload_with_chunk_size` of `pcloud-daemon/src/transfer_bridge.rs`)

A session is opened, the chunks that the tracker (`pcloud-engine/src/transfers/uploads.rs`) plans go out one
after the other, and each goes through `upload_bytes` (`pcloud-backends/src/transfer_backend.rs`), which writes
its payload to the session and saves the session.
-/

namespace Pcloud

open Program

inductive TransferBridgeError
  | localFileNotFound (path : String)
  | localIo (path source : String)
  | uploadFailed (message : String)
  | notATransfer (what : String)
deriving DecidableEq

inductive TransferDirection
  | upload
  | download
deriving DecidableEq

structure TransferResult where
  path : String
  direction : TransferDirection
  bytesTransferred : Nat
deriving DecidableEq

structure UploadSession where
  uploadId : Nat
  parentFolderId : Nat
  fileName : String
deriving DecidableEq

/-! ## The chunk plan -/

structure ChunkedUploadTracker where
  uploadId : Nat
  totalSize : Nat
  ackedOffset : Nat
  chunkSize : Nat
  chunksDone : Nat
deriving DecidableEq

namespace ChunkedUploadTracker

def new (uploadId totalSize chunkSize : Nat) : ChunkedUploadTracker :=
  { uploadId, totalSize, ackedOffset := 0, chunkSize, chunksDone := 0 }

variable (tracker : ChunkedUploadTracker)

def advance (bytesWritten : Nat) : ChunkedUploadTracker :=
  { tracker with ackedOffset := tracker.ackedOffset + bytesWritten, chunksDone := tracker.chunksDone + 1 }

def isComplete : Bool := tracker.totalSize ≤ tracker.ackedOffset

def remaining : Nat := tracker.totalSize - tracker.ackedOffset

def nextChunkSize : Nat := min tracker.remaining tracker.chunkSize

end ChunkedUploadTracker

/-! ## What an upload works on -/

/-- The local files, what the server stored of each session, and its files by folder and name. -/
structure BridgeWorld where
  disk : String → Option Bytes := fun _ => none
  sessions : List Bytes := []
  published : Nat → String → Option Bytes := fun _ _ => none

inductive BridgeEffect
  | readFile (path : String)
  | writeFile (path text : String)
  | uploadCreate (parentFolderId : Nat) (fileName : String) (fileSize : Nat)
  | uploadWrite (uploadId uploadOffset : Nat) (body : Bytes)
  | uploadSave (parentFolderId : Nat) (fileName : String) (uploadId : Nat)

namespace BridgeEffect

abbrev Answer : BridgeEffect → Type
  | readFile _ => Except (Option String) Bytes
  | writeFile _ _ => Unit
  | uploadCreate _ _ _ => Except String UploadSession
  | uploadWrite _ _ _ | uploadSave _ _ _ => Except String Unit

end BridgeEffect

/-- What becomes of a request, or of an operation on a local file. -/
inductive BridgeFate
  | done
  /-- The server does what it is asked to, and the answer is lost. -/
  | lost (error : String)
  | refused (error : String)
deriving DecidableEq

instance : Inhabited BridgeFate := ⟨.done⟩

namespace BridgeWorld

variable (w : BridgeWorld)

/-- A request that the server can meet. -/
def request {α : Type} (fate : BridgeFate) (answer : α) (after : BridgeWorld) : Except String α × BridgeWorld :=
  match fate with
  | .done => (.ok answer, after)
  | .lost error => (.error error, after)
  | .refused error => (.error error, w)

def perform : (e : BridgeEffect) → BridgeFate → e.Answer × BridgeWorld
  | .readFile path, fate =>
    match w.disk path, fate with
    | some bytes, .done => (.ok bytes, w)
    | none, .done => (.error none, w)
    | _, .lost error | _, .refused error => (.error (some error), w)
  | .writeFile path text, fate =>
    match fate with
    | .done => ((), { w with disk := Function.update w.disk path (some (utf8 text)) })
    | _ => ((), w)
  | .uploadCreate parentFolderId fileName _, fate =>
    w.request fate { uploadId := w.sessions.length, parentFolderId, fileName } { w with sessions := w.sessions ++ [[]] }
  | .uploadWrite uploadId uploadOffset body, fate =>
    match w.sessions[uploadId]? with
    | some stored => w.request fate () { w with sessions := w.sessions.set uploadId (writeAt stored uploadOffset body) }
    | none => (.error "unknown upload", w)
  | .uploadSave parentFolderId fileName uploadId, fate =>
    match w.sessions[uploadId]? with
    | some stored =>
      w.request fate ()
        { w with
          published := Function.update w.published parentFolderId
            (Function.update (w.published parentFolderId) fileName (some stored)) }
    | none => (.error "unknown upload", w)

end BridgeWorld

abbrev Bridge (ε α : Type) := Fallible BridgeEffect BridgeEffect.Answer ε α

/-! ## Paths -/

/-- `Path::join`. -/
def pathJoin (root path : String) : String :=
  if path.startsWith "/" then path
  else if root.isEmpty || root.endsWith "/" then root ++ path
  else root ++ "/" ++ path

/-- `Path::with_extension`, on a path that ends with a file name. -/
def withExtension (path extension : String) : String :=
  let fileName := (path.toList.reverse.takeWhile (· ≠ '/')).reverse
  let parent := path.toList.take (path.length - fileName.length)
  let stem := ((fileName.reverse.dropWhile (· ≠ '.')).drop 1).reverse
  String.ofList (parent ++ if stem.isEmpty then fileName else stem) ++ "." ++ extension

/-! ## The upload -/

namespace Bridge

def uploadCreate (parentFolderId : Nat) (fileName : String) (fileSize : Nat) : Bridge String UploadSession :=
  ExceptT.mk (Prog.perform (BridgeEffect.uploadCreate parentFolderId fileName fileSize))

def uploadBytes (session : UploadSession) (payload : Bytes) : Bridge String Unit := do
  ExceptT.mk (Prog.perform (BridgeEffect.uploadWrite session.uploadId 0 payload))
  ExceptT.mk (Prog.perform (BridgeEffect.uploadSave session.parentFolderId session.fileName session.uploadId))

def maxAttempts : Nat := 5

/-- The loops around the requests. `RetryPolicy::next` gives up at attempt `maxAttempts`, which is when `left` is 0.
The number of the last attempt comes with its error. -/
def retrying {α : Type} (call : Bridge String α) : (left attempt : Nat) → Bridge (Nat × String) α
  | left, attempt => do
    match ← ExceptT.lift call.run with
    | .ok a => pure a
    | .error e =>
      match left with
      | 0 => throw (attempt, e)
      | left + 1 => retrying call left (attempt + 1)

/-- `retrying`, with what is done when it gives up. -/
def retryingOr {α : Type} (call : Bridge String α) (giveUp : Nat → String → Bridge TransferBridgeError α) :
    Bridge TransferBridgeError α := do
  match ← ExceptT.lift (retrying call (maxAttempts - 1) 1).run with
  | .ok a => pure a
  | .error (attempt, e) => giveUp attempt e

/-- The loop over the chunks. A turn takes a byte at least, and there are as many turns as bytes. -/
def uploadChunks (localPath : String) (session : UploadSession) (fileBytes : Bytes) :
    Nat → ChunkedUploadTracker → Bridge TransferBridgeError Unit
  | turns, tracker =>
    if tracker.isComplete then pure ()
    else match turns with
      | 0 => throw (.uploadFailed "no turn is left")
      | turns + 1 => do
        let chunkLen := tracker.nextChunkSize
        let chunk := (fileBytes.drop tracker.ackedOffset).take chunkLen
        retryingOr (uploadBytes session chunk) fun attempt e => do
          ExceptT.lift (Prog.perform (BridgeEffect.writeFile (withExtension localPath "pcloud-resume")
            ("upload_id=" ++ toString session.uploadId ++ "\nacked_offset=" ++ toString tracker.ackedOffset ++ "\n")))
          throw (.uploadFailed ("chunk upload failed at offset " ++ toString tracker.ackedOffset ++ " after " ++
            toString attempt ++ " attempts: " ++ e))
        uploadChunks localPath session fileBytes turns (tracker.advance chunkLen)

def useChunked (chunkSize : Option Nat) (fileSize : Nat) : Bool :=
  (chunkSize.map fun chunkSize => decide (chunkSize < fileSize ∧ 0 < chunkSize)).getD false

def readLocal (localPath : String) : Bridge TransferBridgeError Bytes := do
  let read : Except (Option String) Bytes ← ExceptT.lift (Prog.perform (BridgeEffect.readFile localPath))
  match read with
  | .ok bytes => pure bytes
  | .error none => throw (.localFileNotFound localPath)
  | .error (some source) => throw (.localIo localPath source)

def executeUploadWithChunkSize (operation : PlannedOperation) (syncRootPath : String) (chunkSize : Option Nat) :
    Bridge TransferBridgeError TransferResult :=
  match operation with
  | .UploadFile _ path remoteParentFolderId remoteName => do
    let parentFolderId := (remoteParentFolderId.map fun id => id.get.toNat).getD 0
    let localPath := pathJoin syncRootPath path
    let fileBytes ← readLocal localPath
    let fileSize := fileBytes.length
    let session ← retryingOr (uploadCreate parentFolderId remoteName fileSize) fun attempt e =>
      throw (.uploadFailed ("upload_create failed after " ++ toString attempt ++ " attempts: " ++ e))
    if useChunked chunkSize fileSize then
      uploadChunks localPath session fileBytes fileSize (.new session.uploadId fileSize (chunkSize.getD 0))
    else
      retryingOr (uploadBytes session fileBytes) fun attempt e =>
        throw (.uploadFailed ("upload_bytes failed after " ++ toString attempt ++ " attempts: " ++ e))
    pure { path, direction := .upload, bytesTransferred := fileSize }
  | other => throw (.notATransfer ("expected UploadFile, got Discriminant(" ++ toString other.ctorIdx ++ ")"))

end Bridge

/-! ## What is published -/

/-- The session is there, and has stored at most `bound` bytes. -/
def BridgeWorld.Holds (session : UploadSession) (bound : Nat) (w : BridgeWorld) : Prop :=
  ∃ stored, w.sessions[session.uploadId]? = some stored ∧ stored.length ≤ bound

/-- The file of the session has at most `bound` bytes, and `payload` at its start. -/
def BridgeWorld.Shows (session : UploadSession) (payload : Bytes) (bound : Nat) (w : BridgeWorld) : Prop :=
  ∃ content, w.published session.parentFolderId session.fileName = some content ∧ content.length ≤ bound ∧
    payload <+: content

namespace Bridge

variable {ε ε' α β : Type} {kind : BridgeFate → Prop} {w : BridgeWorld} {session : UploadSession}
variable {payload fileBytes : Bytes} {bound : Nat} {done : α → BridgeWorld → Prop} {done' : β → BridgeWorld → Prop}
variable {kept kept' : BridgeWorld → Prop}

/-- Without a fault the end is a good one. -/
def Ends (kind : BridgeFate → Prop) (done : α → BridgeWorld → Prop) (kept : BridgeWorld → Prop) :
    Except ε α → BridgeWorld → Prop
  | .ok a => done a
  | .error _ => fun w => kept w ∧ ∃ fate, kind fate ∧ fate ≠ .done

abbrev bridge (kind : BridgeFate → Prop) : Protocol BridgeWorld BridgeEffect BridgeEffect.Answer :=
  effects BridgeWorld.perform kind

theorem follows_bind_ends (done : α → BridgeWorld → Prop) {x : Bridge ε α} {f : α → Bridge ε β}
    (hx : Follows (bridge kind) (Ends kind done kept) x.run w)
    (hf : ∀ a w, done a w → Follows (bridge kind) (Ends kind done' kept) (f a).run w) :
    Follows (bridge kind) (Ends kind done' kept) (x >>= f).run w := by
  rw [follows_fallible_bind]
  apply hx.mono
  rintro (e | a) w h
  · exact h
  · exact hf a w h

theorem ends_request {fate : BridgeFate} (hfate : kind fate) {answer : α} {after : BridgeWorld}
    (hkept : kept w) (hafter : kept after) (hdone : done answer after) :
    Ends kind done kept (w.request fate answer after).1 (w.request fate answer after).2 := by
  rcases fate with _ | error | error
  · exact hdone
  · exact ⟨hafter, _, hfate, by simp⟩
  · exact ⟨hkept, _, hfate, by simp⟩

theorem follows_retrying {call : Bridge String α}
    (hcall : ∀ w, kept w → Follows (bridge kind) (Ends kind done kept) call.run w) (left attempt : Nat) (h : kept w) :
    Follows (bridge kind) (Ends kind done kept) (retrying call left attempt).run w := by
  induction left generalizing attempt w with
  | zero =>
    unfold retrying
    rw [follows_fallible_bind, follows_lift]
    apply (hcall w h).mono
    rintro (e | a) w h
    · exact h
    · exact h
  | succ left ih =>
    unfold retrying
    rw [follows_fallible_bind, follows_lift]
    apply (hcall w h).mono
    rintro (e | a) w h
    · exact ih (attempt + 1) h.1
    · exact h

theorem follows_retryingOr (kept : BridgeWorld → Prop) {call : Bridge String α}
    {giveUp : Nat → String → Bridge TransferBridgeError α}
    (hcall : ∀ w, kept w → Follows (bridge kind) (Ends kind done kept) call.run w)
    (hgiveUp : ∀ attempt e w, (∃ fate, kind fate ∧ fate ≠ .done) →
      Follows (bridge kind) (Ends kind done kept') (giveUp attempt e).run w) (h : kept w) :
    Follows (bridge kind) (Ends kind done kept') (retryingOr call giveUp).run w := by
  unfold retryingOr
  rw [follows_fallible_bind, follows_lift]
  apply (follows_retrying hcall _ _ h).mono
  rintro (⟨attempt, e⟩ | a) w h
  · exact hgiveUp attempt e w h.2
  · exact h

theorem follows_uploadBytes (hpayload : payload.length ≤ bound) (h : w.Holds session bound) :
    Follows (bridge kind)
      (Ends kind (fun _ w => w.Holds session bound ∧ w.Shows session payload bound) (BridgeWorld.Holds session bound))
      (uploadBytes session payload).run w := by
  unfold uploadBytes
  apply follows_bind_ends fun _ w => ∃ stored, w.sessions[session.uploadId]? = some stored ∧ stored.length ≤ bound ∧
    payload <+: stored
  · obtain ⟨stored, hstored, hlength⟩ := h
    apply follows_perform_effects.mpr
    intro fate hfate
    simp only [BridgeWorld.perform, hstored]
    have hwritten : writeAt stored 0 payload = payload ++ stored.drop payload.length := by simp [writeAt_of_le]
    have hbound : (writeAt stored 0 payload).length ≤ bound := by
      rw [length_writeAt]
      omega
    obtain ⟨hid, -⟩ := List.getElem?_eq_some_iff.mp hstored
    have hset : (w.sessions.set session.uploadId (writeAt stored 0 payload))[session.uploadId]? =
        some (writeAt stored 0 payload) := List.getElem?_set_self hid
    apply ends_request hfate
    · exact ⟨stored, hstored, hlength⟩
    · exact ⟨_, hset, hbound⟩
    · exact ⟨_, hset, hbound, hwritten ▸ List.prefix_append _ _⟩
  · rintro _ w ⟨stored, hstored, hlength, hstarts⟩
    apply follows_perform_effects.mpr
    intro fate hfate
    simp only [BridgeWorld.perform, hstored]
    have hkept : w.Holds session bound := ⟨stored, hstored, hlength⟩
    apply ends_request hfate hkept
    · exact hkept
    · exact ⟨hkept, stored, by simp, hlength, hstarts⟩

theorem follows_uploadChunks (localPath : String) (turns : Nat) {tracker : ChunkedUploadTracker}
    (hturns : tracker.remaining ≤ turns) (hbound : tracker.chunkSize = bound) (hchunk : 0 < bound)
    (htotal : 0 < tracker.totalSize) (h : w.Holds session bound)
    (hshows : 0 < tracker.ackedOffset → w.Shows session [] bound) :
    Follows (bridge kind) (Ends kind (fun _ w => w.Shows session [] bound) fun _ => True)
      (uploadChunks localPath session fileBytes turns tracker).run w := by
  induction turns generalizing tracker w with
  | zero =>
    unfold uploadChunks
    unfold ChunkedUploadTracker.remaining at hturns
    rw [if_pos (by simp [ChunkedUploadTracker.isComplete]; omega)]
    exact hshows (by omega)
  | succ turns ih =>
    unfold uploadChunks
    split_ifs with hcomplete
    · simp only [ChunkedUploadTracker.isComplete, decide_eq_true_eq] at hcomplete
      exact hshows (by omega)
    · simp only [ChunkedUploadTracker.isComplete, decide_eq_true_eq] at hcomplete
      have hnext : 0 < tracker.nextChunkSize ∧ tracker.nextChunkSize ≤ bound := by
        unfold ChunkedUploadTracker.nextChunkSize ChunkedUploadTracker.remaining
        omega
      dsimp only
      apply follows_bind_ends
      · apply follows_retryingOr (BridgeWorld.Holds session bound) (fun w h => follows_uploadBytes _ h) _ h
        · rw [List.length_take]
          omega
        · rintro attempt e w hfault
          rw [follows_fallible_bind, follows_lift]
          apply follows_perform_effects.mpr
          intro fate _
          exact ⟨trivial, hfault⟩
      · rintro _ w ⟨hholds, content, hcontent, hlength, -⟩
        apply ih
        · unfold ChunkedUploadTracker.remaining at hturns ⊢
          show tracker.totalSize - (tracker.ackedOffset + tracker.nextChunkSize) ≤ turns
          omega
        · exact hbound
        · exact htotal
        · exact hholds
        · exact fun _ => ⟨content, hcontent, hlength, List.nil_prefix⟩

theorem useChunked_eq_true {chunkSize : Option Nat} {fileSize : Nat} :
    useChunked chunkSize fileSize = true ↔ ∃ n, chunkSize = some n ∧ n < fileSize ∧ 0 < n := by
  unfold useChunked
  rcases chunkSize with _ | n
  · simp
  · simp

theorem follows_uploadCreate (parentFolderId : Nat) (fileName : String) (fileSize : Nat) :
    Follows (bridge kind)
      (Ends kind (fun session w => session.parentFolderId = parentFolderId ∧ session.fileName = fileName ∧
        w.Holds session 0) fun _ => True)
      (uploadCreate parentFolderId fileName fileSize).run w := by
  apply follows_perform_effects.mpr
  intro fate hfate
  apply ends_request hfate trivial trivial
  exact ⟨rfl, rfl, [], by simp, le_rfl⟩

theorem follows_executeUpload (kind : BridgeFate → Prop) {syncRootPath path : String} (syncId : SyncId)
    (parent : Option RemoteFolderId) (name : String) (chunkSize : Option Nat)
    (hfile : w.disk (pathJoin syncRootPath path) = some fileBytes) :
    Follows (bridge kind)
      (Ends kind
        (fun _ w => ∃ content, w.published ((parent.map fun id => id.get.toNat).getD 0) name = some content ∧
          if useChunked chunkSize fileBytes.length then content.length < fileBytes.length
          else content = fileBytes)
        fun _ => True)
      (executeUploadWithChunkSize (.UploadFile syncId path parent name) syncRootPath chunkSize).run w := by
  unfold executeUploadWithChunkSize
  apply follows_bind_ends fun bytes _ => bytes = fileBytes
  · unfold readLocal
    rw [follows_fallible_bind, follows_lift]
    apply follows_perform_effects.mpr
    intro fate hfate
    simp only [BridgeWorld.perform, hfile]
    rcases fate with _ | error | error
    · exact rfl
    · exact ⟨trivial, _, hfate, by simp⟩
    · exact ⟨trivial, _, hfate, by simp⟩
  · rintro bytes w rfl
    apply follows_bind_ends
    · apply follows_retryingOr (fun _ => True) fun w _ => follows_uploadCreate _ _ _
      · rintro attempt e w hfault
        exact ⟨trivial, hfault⟩
      · trivial
    · rintro session w ⟨hparent, hname, stored, hstored, hlength⟩
      split_ifs with hchunked
      · obtain ⟨chunk, rfl, hlt, hpos⟩ := useChunked_eq_true.mp hchunked
        apply follows_bind_ends fun _ w => w.Shows session [] chunk
        · apply follows_uploadChunks
          · exact le_rfl
          · rfl
          · exact hpos
          · exact hpos.trans hlt
          · exact ⟨stored, hstored, hlength.trans (Nat.zero_le _)⟩
          · exact fun h => absurd h (lt_irrefl 0)
        · rintro _ w ⟨content, hcontent, hshort, -⟩
          exact ⟨content, by rw [← hparent, ← hname]; exact hcontent, by omega⟩
      · apply follows_bind_ends fun _ w => w.Holds session bytes.length ∧ w.Shows session bytes bytes.length
        · apply follows_retryingOr (BridgeWorld.Holds session bytes.length) (fun w h => follows_uploadBytes le_rfl h)
          · rintro attempt e w hfault
            exact ⟨trivial, hfault⟩
          · exact ⟨stored, hstored, hlength.trans (Nat.zero_le _)⟩
        · rintro _ w ⟨-, content, hcontent, hshort, hstarts⟩
          exact ⟨content, by rw [← hparent, ← hname]; exact hcontent, (hstarts.eq_of_length_le hshort).symm⟩

theorem follows_executeUpload_missing (kind : BridgeFate → Prop) {syncRootPath path : String} (syncId : SyncId)
    (parent : Option RemoteFolderId) (name : String) (chunkSize : Option Nat)
    (hfile : w.disk (pathJoin syncRootPath path) = none) :
    Follows (bridge kind) (Returns fun _ _ => False)
      (executeUploadWithChunkSize (.UploadFile syncId path parent name) syncRootPath chunkSize).run w := by
  unfold executeUploadWithChunkSize
  apply follows_returns_bind fun _ _ => False
  · unfold readLocal
    rw [follows_fallible_bind, follows_lift]
    apply follows_perform_effects.mpr
    intro fate _
    simp only [BridgeWorld.perform, hfile]
    rcases fate with _ | error | error
    · trivial
    · trivial
    · trivial
  · intro _ _ h
    exact h.elim

end Bridge

/-- Whatever becomes of the requests, an upload that ends well has published the local file. -/
def PublishesWhole (w : BridgeWorld) (syncRootPath : String) (syncId : SyncId) (path : String)
    (parent : Option RemoteFolderId) (name : String) (chunkSize : Option Nat) : Prop :=
  ∀ fates,
    let outcome := exec BridgeWorld.perform
      (Bridge.executeUploadWithChunkSize (.UploadFile syncId path parent name) syncRootPath chunkSize).run fates w
    ∀ result, outcome.1 = .ok result →
      ∃ file, w.disk (pathJoin syncRootPath path) = some file ∧
        outcome.2.published ((parent.map fun id => id.get.toNat).getD 0) name = some file

section

variable {w : BridgeWorld} {syncRootPath path : String} {fileBytes : Bytes} (syncId : SyncId)
variable (parent : Option RemoteFolderId) (name : String) (chunkSize : Option Nat)

theorem published_of_ok (hfile : w.disk (pathJoin syncRootPath path) = some fileBytes) (fates : List BridgeFate) :
    let outcome := exec BridgeWorld.perform
      (Bridge.executeUploadWithChunkSize (.UploadFile syncId path parent name) syncRootPath chunkSize).run fates w
    ∀ result, outcome.1 = .ok result →
      ∃ content, outcome.2.published ((parent.map fun id => id.get.toNat).getD 0) name = some content ∧
        if Bridge.useChunked chunkSize fileBytes.length then content.length < fileBytes.length
        else content = fileBytes := by
  intro outcome result hresult
  have hrun := (Bridge.follows_executeUpload (fun _ => True) syncId parent name chunkSize hfile).exec trivial
    fun fate (_ : fate ∈ fates) => trivial
  change Bridge.Ends _ _ _ outcome.1 outcome.2 at hrun
  rw [hresult] at hrun
  exact hrun

theorem ok_of_done (hfile : w.disk (pathJoin syncRootPath path) = some fileBytes) :
    ∃ result, (exec BridgeWorld.perform
      (Bridge.executeUploadWithChunkSize (.UploadFile syncId path parent name) syncRootPath chunkSize).run [] w).1 =
        .ok result := by
  have hrun := (Bridge.follows_executeUpload (· = .done) syncId parent name chunkSize hfile).exec rfl
    (List.forall_mem_nil _)
  rcases houtcome : (exec BridgeWorld.perform
    (Bridge.executeUploadWithChunkSize (.UploadFile syncId path parent name) syncRootPath chunkSize).run [] w).1
    with e | result
  · rw [houtcome] at hrun
    obtain ⟨-, fate, hdone, hnot⟩ := hrun
    exact absurd hdone hnot
  · exact ⟨result, rfl⟩

theorem not_ok_of_missing (hfile : w.disk (pathJoin syncRootPath path) = none) (fates : List BridgeFate)
    (result : TransferResult) :
    (exec BridgeWorld.perform
      (Bridge.executeUploadWithChunkSize (.UploadFile syncId path parent name) syncRootPath chunkSize).run fates w).1 ≠
        .ok result := by
  intro hresult
  have hnever := Bridge.follows_executeUpload_missing (fun _ => True) syncId parent name chunkSize hfile
  have hrun := hnever.exec trivial fun fate (_ : fate ∈ fates) => trivial
  rw [hresult] at hrun
  exact hrun

end

/-- It has just if the file goes out in one piece. -/
theorem publishesWhole_iff (w : BridgeWorld) (syncRootPath : String) (syncId : SyncId) (path : String)
    (parent : Option RemoteFolderId) (name : String) (chunkSize : Option Nat) :
    PublishesWhole w syncRootPath syncId path parent name chunkSize ↔
      ∀ file n, w.disk (pathJoin syncRootPath path) = some file → chunkSize = some n → n = 0 ∨ file.length ≤ n := by
  constructor
  · intro h file n hfile hn
    by_contra hlarge
    have hchunked : Bridge.useChunked chunkSize file.length = true := by
      refine Bridge.useChunked_eq_true.mpr ⟨n, hn, ?_⟩
      omega
    obtain ⟨result, hresult⟩ := ok_of_done syncId parent name chunkSize hfile
    obtain ⟨content, hcontent, hshort⟩ := published_of_ok syncId parent name chunkSize hfile [] result hresult
    rw [if_pos hchunked] at hshort
    obtain ⟨file', hfile', hpublished⟩ := h [] result hresult
    rw [hfile, Option.some.injEq] at hfile'
    rw [hcontent, ← hfile', Option.some.injEq] at hpublished
    rw [hpublished] at hshort
    exact lt_irrefl _ hshort
  · intro h fates outcome result hresult
    rcases hfile : w.disk (pathJoin syncRootPath path) with _ | file
    · exact absurd hresult (not_ok_of_missing syncId parent name chunkSize hfile fates result)
    · obtain ⟨content, hcontent, hwhole⟩ := published_of_ok syncId parent name chunkSize hfile fates result hresult
      have hsingle : ¬ Bridge.useChunked chunkSize file.length = true := by
        intro hchunked
        obtain ⟨n, hn, hlt, hpos⟩ := Bridge.useChunked_eq_true.mp hchunked
        rcases h file n hfile hn with hzero | hle
        · omega
        · omega
      rw [if_neg hsingle] at hwhole
      exact ⟨file, rfl, hwhole ▸ hcontent⟩

def twoLetters : BridgeWorld where
  disk := fun path => if path = "/sync/ab" then some (utf8 "ab") else none

/-- Sent in two chunks, the file has the second one only. -/
theorem not_publishesWhole : ¬ PublishesWhole twoLetters "/sync" ⟨1⟩ "ab" none "ab" (some 1) := by
  intro h
  obtain ⟨file, hfile, hpublished⟩ := h [] { path := "ab", direction := .upload, bytesTransferred := 2 }
    (by decide +kernel)
  rw [← hfile] at hpublished
  revert hpublished
  decide +kernel

end Pcloud
