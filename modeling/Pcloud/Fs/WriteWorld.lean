import Mathlib.Data.List.AList
import Mathlib.Logic.Function.Basic
import Pcloud.Fs.WriteJournal
import Pcloud.Lib.Program
import Pcloud.Model.Bytes

/-!
# What the write path works on (`pcloud-fs/src/{staging,write_path}.rs`)

The staging blobs, the journal, the progress sidecars, the open handles and the server, and the
steps on them. A step is one call of the operating system or of the backend, or what happens under
one lock; another thread, or a crash, may come between any two. A blob is named by its inode.
-/

namespace Pcloud

open Program

inductive WritePathError
  | journal
  | staging
  | upload (message : String)
  | uploadTransient (message : String)
  | uploadPermanent (message : String)
  | notOpen (ino : Nat)
  | invalid (what : String)
deriving DecidableEq, Repr

def joinPath (parent name : String) : String := if parent = "/" then "/" ++ name else parent ++ "/" ++ name

/-! ## The state -/

structure WriteHandle where
  path : String
  blobName : Nat
  dirtyBytes : Nat
  lastFlush : Nat
  appendMode : Bool
deriving DecidableEq, Repr, Inhabited

structure UploadProgress where
  uploadId : Nat
  blobName : Nat
  totalSize : Nat
  ackedOffset : Nat
  heartbeatUnixSecs : Nat
deriving DecidableEq, Repr

inductive UploadStatus
  | bytes (n : Nat)
  | notFound
deriving DecidableEq, Repr

/-- What the server was made to do to its files. -/
inductive RemoteChange
  | saved (ino : Nat) (path : String) (content : Bytes)
  | unlinked (path : String)
  | renamed (source target : String)
deriving DecidableEq, Repr

/-- `handles` maps an inode to its `Arc`, and `heap` has what that points to. `sessions` has what the server
stored of each upload, and `remote` what became of its files, the newest first. -/
structure World where
  globalStagingBytes : Nat := 0
  blobs : Nat → Option Bytes := fun _ => none
  handles : AList fun _ : Nat => Nat := ∅
  heap : List WriteHandle := []
  journal : WriteJournal := {}
  sidecars : AList fun _ : Nat => UploadProgress := ∅
  sessions : List Bytes := []
  remote : List RemoteChange := []

namespace World

variable (w : World)

def blob (ino : Nat) : Bytes := (w.blobs ino).getD []

def setBlob (ino : Nat) (blob : Option Bytes) : World := { w with blobs := Function.update w.blobs ino blob }

def handle (id : Nat) : WriteHandle := w.heap.getD id default

def setHandle (id : Nat) (handle : WriteHandle) : World := { w with heap := w.heap.set id handle }

/-- `fetch_sub` of what there is to subtract. -/
def releaseBytes (maxGlobal dirty : Nat) : World :=
  if maxGlobal < usizeMax ∧ 0 < dirty then
    { w with globalStagingBytes := w.globalStagingBytes - min (min dirty usizeMax) w.globalStagingBytes }
  else w

@[simp] theorem releaseBytes_blobs (maxGlobal dirty : Nat) : (w.releaseBytes maxGlobal dirty).blobs = w.blobs := by
  unfold releaseBytes
  split <;> rfl

@[simp] theorem releaseBytes_handles (maxGlobal dirty : Nat) : (w.releaseBytes maxGlobal dirty).handles = w.handles := by
  unfold releaseBytes
  split <;> rfl

@[simp] theorem releaseBytes_heap (maxGlobal dirty : Nat) : (w.releaseBytes maxGlobal dirty).heap = w.heap := by
  unfold releaseBytes
  split <;> rfl

@[simp] theorem releaseBytes_journal (maxGlobal dirty : Nat) : (w.releaseBytes maxGlobal dirty).journal = w.journal := by
  unfold releaseBytes
  split <;> rfl

@[simp] theorem releaseBytes_sidecars (maxGlobal dirty : Nat) : (w.releaseBytes maxGlobal dirty).sidecars = w.sidecars := by
  unfold releaseBytes
  split <;> rfl

@[simp] theorem releaseBytes_sessions (maxGlobal dirty : Nat) : (w.releaseBytes maxGlobal dirty).sessions = w.sessions := by
  unfold releaseBytes
  split <;> rfl

@[simp] theorem releaseBytes_remote (maxGlobal dirty : Nat) : (w.releaseBytes maxGlobal dirty).remote = w.remote := by
  unfold releaseBytes
  split <;> rfl

end World

theorem lookup_insert_eq_some {α : Type} {entries : AList fun _ : Nat => α} {ino ino' : Nat} {a a' : α} :
    (entries.insert ino a).lookup ino' = some a' ↔
      ino' = ino ∧ a' = a ∨ ino' ≠ ino ∧ entries.lookup ino' = some a' := by
  by_cases h : ino' = ino
  · subst h
    simp [eq_comm]
  · simp [AList.lookup_insert_ne h, h]

theorem lookup_erase_eq_some {α : Type} {entries : AList fun _ : Nat => α} {ino ino' : Nat} {a : α} :
    (entries.erase ino).lookup ino' = some a ↔ ino' ≠ ino ∧ entries.lookup ino' = some a := by
  by_cases h : ino' = ino
  · subst h
    simp
  · simp [AList.lookup_erase_ne h, h]

/-! ## Effects -/

inductive Effect
  | getHandle (ino : Nat)
  | insertHandle (ino : Nat) (handle : WriteHandle)
  | removeHandle (ino : Nat)
  | listHandles
  | readHandle (id : Nat)
  | setDirty (id dirty : Nat)
  | resetDirty (id maxGlobal now : Nat)
  | releaseHandle (ino maxGlobal : Nat)
  | renamePaths (source target : String)
  | fetchAdd (n : Nat)
  | fetchSub (n : Nat)
  | now
  | blobExists (ino : Nat)
  | blobLen (ino : Nat)
  | openBlob (ino : Nat)
  | readBlobAt (ino offset len : Nat)
  | writeBlobFull (ino : Nat) (bytes : Bytes)
  | writeBlobAt (ino offset : Nat) (bytes : Bytes)
  | truncateBlob (ino size : Nat)
  | removeBlob (ino : Nat)
  | journalAppend (op : JournalOp)
  | listSidecars
  | loadProgress (ino : Nat)
  | saveProgress (ino : Nat) (progress : UploadProgress)
  | removeProgress (ino : Nat)
  | uploadFile (ino : Nat) (parent name : String)
  | uploadCreate (parent name : String)
  | uploadWrite (uploadId offset : Nat) (chunk : Bytes)
  | uploadSave (ino uploadId : Nat) (parent name : String) (totalSize : Nat)
  | uploadStatus (uploadId : Nat)
  | unlinkRemote (path : String)
  | renameRemote (source target : String)
deriving DecidableEq, Repr

namespace Effect

abbrev Answer : Effect → Type
  | getHandle _ => Option Nat
  | listHandles => List (Nat × WriteHandle)
  | readHandle _ => WriteHandle
  | blobExists _ => Bool
  | fetchAdd _ | now => Nat
  | blobLen _ => Option Nat
  | readBlobAt _ _ _ => Except WritePathError Bytes
  | openBlob _ | writeBlobFull _ _ | writeBlobAt _ _ _ | truncateBlob _ _ => Except WritePathError Unit
  | journalAppend _ => Except WritePathError Nat
  | listSidecars => List Nat
  | loadProgress _ => Except WritePathError (Option UploadProgress)
  | saveProgress _ _ | uploadFile _ _ _ | uploadWrite _ _ _ | uploadSave _ _ _ _ _ => Except WritePathError Unit
  | uploadCreate _ _ => Except WritePathError Nat
  | uploadStatus _ => Except WritePathError UploadStatus
  | unlinkRemote _ | renameRemote _ _ => Except WritePathError Unit
  | insertHandle _ _ | removeHandle _ | setDirty _ _ | resetDirty _ _ _ | releaseHandle _ _ | renamePaths _ _
  | fetchSub _ | removeBlob _ | removeProgress _ => Unit

end Effect

/-- What the program has no part in. A fate that is not about the effect at hand is as good as `fine`. -/
inductive Fate
  | fine
  /-- What the clock says. -/
  | time (n : Nat)
  /-- The order in which a map or a directory is listed. -/
  | order (inos : List Nat)
  /-- A file operation of the staging area fails, after some bytes or before any. -/
  | disk (reached : Option Nat)
  | append (failure : AppendFailure)
  /-- The backend, or the file of a sidecar, answers with an error. -/
  | refused (error : WritePathError)
  | gone
deriving DecidableEq, Repr

instance : Inhabited Fate := ⟨.fine⟩

def Fate.clock : Fate → Nat
  | time n => n
  | _ => 0

/-- The keys in the order of the fate, if it has them all. -/
def Fate.arrange (keys : List Nat) : Fate → List Nat
  | order inos => if inos.Perm keys then inos else keys
  | _ => keys

/-! ## What an effect does -/

namespace World

/-- A call of the backend, or on a sidecar, that is refused changes nothing. -/
def unlessRefused {α : Type} (w : World) (fate : Fate) (granted : Except WritePathError α × World) :
    Except WritePathError α × World :=
  match fate with
  | .refused error => (.error error, w)
  | _ => granted

/-- A file operation on a blob. `reached` is what it leaves behind when it fails after some bytes. -/
def unlessDisk {α : Type} (w : World) (ino : Nat) (fate : Fate) (reached : Nat → Bytes)
    (done : Except WritePathError α × World) : Except WritePathError α × World :=
  match fate with
  | .disk none => (.error .staging, w)
  | .disk (some n) => (.error .staging, w.setBlob ino (some (reached n)))
  | _ => done

def perform (w : World) : (e : Effect) → Fate → e.Answer × World
  | .getHandle ino, _ => (w.handles.lookup ino, w)
  | .insertHandle ino handle, _ =>
    ((), { w with handles := w.handles.insert ino w.heap.length, heap := w.heap ++ [handle] })
  | .removeHandle ino, _ => ((), { w with handles := w.handles.erase ino })
  | .listHandles, fate =>
    ((fate.arrange w.handles.keys).filterMap fun ino => (w.handles.lookup ino).map fun id => (ino, w.handle id), w)
  | .readHandle id, _ => (w.handle id, w)
  | .setDirty id dirty, _ => ((), w.setHandle id { w.handle id with dirtyBytes := dirty })
  | .resetDirty id maxGlobal now, _ =>
    ((), (w.releaseBytes maxGlobal (w.handle id).dirtyBytes).setHandle id
      { w.handle id with dirtyBytes := 0, lastFlush := now })
  | .releaseHandle ino maxGlobal, _ =>
    let released :=
      match w.handles.lookup ino with
      | some id => w.releaseBytes maxGlobal (w.handle id).dirtyBytes
      | none => w
    ((), { released with handles := w.handles.erase ino })
  | .renamePaths source target, _ =>
    let renamed := fun handle : WriteHandle => if handle.path = source then { handle with path := target } else handle
    ((), { w with
      heap := w.heap.mapIdx fun id handle =>
        if w.handles.entries.any fun entry => entry.2 = id then renamed handle else handle })
  | .fetchAdd n, _ =>
    (w.globalStagingBytes, { w with globalStagingBytes := (w.globalStagingBytes + n) % 2 ^ 64 })
  | .fetchSub n, _ =>
    ((), { w with globalStagingBytes := (w.globalStagingBytes + (2 ^ 64 - n % 2 ^ 64)) % 2 ^ 64 })
  | .now, fate => (fate.clock, w)
  | .blobExists ino, _ => ((w.blobs ino).isSome, w)
  | .blobLen ino, fate =>
    match fate with
    | .disk _ => (none, w)
    | _ => ((w.blobs ino).map List.length, w)
  | .openBlob ino, fate =>
    match fate, w.blobs ino with
    | .disk _, _ | _, none => (.error .staging, w)
    | _, some _ => (.ok (), w)
  | .readBlobAt ino offset len, fate =>
    match fate with
    | .disk _ => (.error .staging, w)
    | _ => if offset + len ≤ (w.blob ino).length then (.ok (((w.blob ino).drop offset).take len), w)
      else (.error .staging, w)
  | .writeBlobFull ino bytes, fate =>
    w.unlessDisk ino fate (fun n => bytes.take n) (.ok (), w.setBlob ino (some bytes))
  | .writeBlobAt ino offset bytes, fate =>
    w.unlessDisk ino fate (fun n => writeAt (w.blob ino) offset (bytes.take n))
      (.ok (), w.setBlob ino (some (writeAt (w.blob ino) offset bytes)))
  | .truncateBlob ino size, fate =>
    w.unlessDisk ino fate (fun n => if n = 0 then w.blob ino else setLen (w.blob ino) size)
      (.ok (), w.setBlob ino (some (setLen (w.blob ino) size)))
  | .removeBlob ino, fate =>
    match fate with
    | .disk _ => ((), w)
    | _ => ((), w.setBlob ino none)
  | .journalAppend op, fate =>
    let failure := match fate with
      | .append failure => some failure
      | _ => none
    let (seq, journal) := w.journal.append op failure
    (seq.elim (.error .journal) .ok, { w with journal })
  | .listSidecars, fate => (fate.arrange w.sidecars.keys, w)
  | .loadProgress ino, fate => w.unlessRefused fate (.ok (w.sidecars.lookup ino), w)
  | .saveProgress ino progress, fate =>
    w.unlessRefused fate (.ok (), { w with sidecars := w.sidecars.insert ino progress })
  | .removeProgress ino, fate =>
    match fate with
    | .refused _ => ((), w)
    | _ => ((), { w with sidecars := w.sidecars.erase ino })
  | .uploadFile ino parent name, fate =>
    match w.blobs ino with
    | none => (.error .staging, w)
    | some content =>
      w.unlessRefused fate (.ok (), { w with remote := .saved ino (joinPath parent name) content :: w.remote })
  | .uploadCreate _ _, fate =>
    w.unlessRefused fate (.ok w.sessions.length, { w with sessions := w.sessions ++ [[]] })
  | .uploadWrite uploadId offset chunk, fate =>
    match w.sessions[uploadId]? with
    | none => (.error (.uploadPermanent "unknown upload"), w)
    | some stored =>
      w.unlessRefused fate (.ok (), { w with sessions := w.sessions.set uploadId (writeAt stored offset chunk) })
  | .uploadSave ino uploadId parent name _, fate =>
    match w.sessions[uploadId]? with
    | none => (.error (.uploadPermanent "unknown upload"), w)
    | some stored =>
      w.unlessRefused fate (.ok (), { w with remote := .saved ino (joinPath parent name) stored :: w.remote })
  | .uploadStatus uploadId, fate =>
    match fate, w.sessions[uploadId]? with
    | .refused error, _ => (.error error, w)
    | .gone, _ | _, none => (.ok .notFound, w)
    | _, some stored => (.ok (.bytes stored.length), w)
  | .unlinkRemote path, fate => w.unlessRefused fate (.ok (), { w with remote := .unlinked path :: w.remote })
  | .renameRemote source target, fate =>
    w.unlessRefused fate (.ok (), { w with remote := .renamed source target :: w.remote })

variable (w : World) (fate : Fate)

theorem unlessRefused_cases {α : Type} (granted : Except WritePathError α × World) :
    (∃ error, fate = .refused error ∧ w.unlessRefused fate granted = (.error error, w)) ∨
      w.unlessRefused fate granted = granted := by
  unfold unlessRefused
  split
  · exact .inl ⟨_, rfl, rfl⟩
  · exact .inr rfl

theorem unlessRefused_keeps {α : Type} {I : World → Prop} {granted : Except WritePathError α × World} (h : I w)
    (hgranted : I granted.2) : I (w.unlessRefused fate granted).2 := by
  rcases w.unlessRefused_cases fate granted with ⟨error, -, heq⟩ | heq <;>
  rw [heq]
  · exact h
  · exact hgranted

theorem unlessDisk_cases {α : Type} (ino : Nat) (reached : Nat → Bytes) (done : Except WritePathError α × World) :
    (∃ n, fate = .disk n) ∧ (w.unlessDisk ino fate reached done).1 = .error .staging ∨
      (¬ ∃ n, fate = .disk n) ∧ w.unlessDisk ino fate reached done = done := by
  unfold unlessDisk
  split
  · exact .inl ⟨⟨_, rfl⟩, rfl⟩
  · exact .inl ⟨⟨_, rfl⟩, rfl⟩
  · right
    refine ⟨?_, rfl⟩
    rintro ⟨_ | n, rfl⟩ <;> simp_all

theorem journalAppend_cases (op : JournalOp) :
    (∃ failure, fate = .append failure) ∧ (w.perform (.journalAppend op) fate).1 = .error .journal ∨
      (¬ ∃ failure, fate = .append failure) ∧ ∃ seq, (w.perform (.journalAppend op) fate).1 = .ok seq := by
  cases fate
  case append failure =>
    left
    refine ⟨⟨failure, rfl⟩, ?_⟩
    cases failure <;> rfl
  all_goals exact .inr ⟨by simp, w.journal.nextSeq, rfl⟩

theorem perform_journalAppend (op : JournalOp) :
    ∃ failure, w.perform (.journalAppend op) fate =
      ((w.journal.append op failure).1.elim (.error .journal) .ok,
        { w with journal := (w.journal.append op failure).2 }) := ⟨_, rfl⟩

/-! ## What an effect changes -/

variable (e : Effect) (ino id : Nat)

-- The attribute has the equations of `perform` made here, once for all the proofs below.
attribute [local simp] perform in
theorem perform_readBlobAt (offset len : Nat) : (w.perform (.readBlobAt ino offset len) fate).2 = w := by
  simp only [perform]
  split
  · rfl
  · split_ifs <;> rfl

theorem handle_setHandle_self {handle : WriteHandle} (h : id < w.heap.length) :
    (w.setHandle id handle).handle id = handle := by
  simp [World.handle, setHandle, List.getD_eq_getElem?_getD, h]

theorem handle_setHandle_of_ne {handle : WriteHandle} {id' : Nat} (h : id ≠ id') :
    (w.setHandle id' handle).handle id = w.handle id := by
  simp [World.handle, setHandle, List.getD_eq_getElem?_getD, List.getElem?_set_ne (Ne.symm h)]

theorem handle_renamePaths (source target : String) :
    ((w.perform (.renamePaths source target) fate).2.handle id).dirtyBytes = (w.handle id).dirtyBytes ∧
      ((w.perform (.renamePaths source target) fate).2.handle id).blobName = (w.handle id).blobName := by
  simp only [perform, handle, List.getD_eq_getElem?_getD, List.getElem?_mapIdx]
  rcases w.heap[id]? with _ | handle
  · simp
  · simp only [Option.map_some, Option.getD_some]
    split_ifs <;> simp

theorem perform_blob : (w.perform e fate).2.blob ino = w.blob ino ∨
    (w.perform e fate).2.handles = w.handles ∧ (w.perform e fate).2.heap = w.heap ∧
      (w.perform e fate).2.remote = w.remote := by
  cases e
  case readBlobAt => simp [perform_readBlobAt]
  all_goals
    simp only [perform, unlessRefused, unlessDisk, setHandle, setBlob, blob]
    repeat' split
    all_goals simp

theorem perform_remote : (w.perform e fate).2.remote = w.remote ∨
    (w.perform e fate).2.handles = w.handles ∧ (w.perform e fate).2.heap = w.heap ∧
      (w.perform e fate).2.blobs = w.blobs ∧ ∃ change, (w.perform e fate).2.remote = change :: w.remote := by
  cases e
  case readBlobAt => simp [perform_readBlobAt]
  all_goals
    simp only [perform, unlessRefused, unlessDisk, setHandle, setBlob]
    repeat' split
    all_goals simp

variable {w e fate ino id}

theorem perform_handles (h : (w.perform e fate).2.handles.lookup ino = some id) :
    w.handles.lookup ino = some id ∨ id = w.heap.length ∧ ∃ handle, e = .insertHandle ino handle := by
  cases e
  case insertHandle ino' handle =>
    rcases lookup_insert_eq_some.mp h with ⟨rfl, rfl⟩ | ⟨-, h⟩
    · exact .inr ⟨rfl, handle, rfl⟩
    · exact .inl h
  case removeHandle ino' => exact .inl (lookup_erase_eq_some.mp h).2
  case releaseHandle ino' maxGlobal => exact .inl (lookup_erase_eq_some.mp h).2
  case readBlobAt => exact .inl (by simpa [perform_readBlobAt] using h)
  all_goals
    left
    revert h
    simp only [perform, unlessRefused, unlessDisk, setHandle, setBlob]
    repeat' split
    all_goals simp

variable (e fate) in
theorem perform_dirtyBytes (hid : id < w.heap.length) :
    ((w.perform e fate).2.handle id).dirtyBytes = (w.handle id).dirtyBytes ∨
      (∃ dirty, e = .setDirty id dirty ∧ ((w.perform e fate).2.handle id).dirtyBytes = dirty) ∨
      ∃ maxGlobal now, e = .resetDirty id maxGlobal now ∧ ((w.perform e fate).2.handle id).dirtyBytes = 0 := by
  cases e
  case insertHandle ino' handle' =>
    left
    simp [perform, handle, List.getD_eq_getElem?_getD, List.getElem?_append_left hid]
  case setDirty id' dirty =>
    rcases eq_or_ne id id' with rfl | h
    · right; left
      exact ⟨dirty, rfl, by simp only [perform, handle_setHandle_self w id hid]⟩
    · left
      simp only [perform, handle_setHandle_of_ne w id h]
  case resetDirty id' maxGlobal now =>
    have hid' : id < (w.releaseBytes maxGlobal (w.handle id').dirtyBytes).heap.length := by simpa using hid
    rcases eq_or_ne id id' with rfl | h
    · right; right
      exact ⟨maxGlobal, now, rfl, by simp only [perform, handle_setHandle_self _ id hid']⟩
    · left
      simp only [perform, handle_setHandle_of_ne _ id h]
      rw [handle, releaseBytes_heap, handle]
  case renamePaths source target => exact .inl (w.handle_renamePaths fate id source target).1
  case readBlobAt => exact .inl (by rw [perform_readBlobAt])
  all_goals
    left
    simp only [perform, unlessRefused, unlessDisk, setBlob, handle]
    repeat' split
    all_goals simp

theorem perform_blobName (hid : id < w.heap.length) :
    ((w.perform e fate).2.handle id).blobName = (w.handle id).blobName := by
  cases e
  case insertHandle ino' handle' =>
    simp [perform, handle, List.getD_eq_getElem?_getD, List.getElem?_append_left hid]
  case setDirty id' dirty =>
    rcases eq_or_ne id id' with rfl | h
    · simp only [perform, handle_setHandle_self w id hid]
    · simp only [perform, handle_setHandle_of_ne w id h]
  case resetDirty id' maxGlobal now =>
    have hid' : id < (w.releaseBytes maxGlobal (w.handle id').dirtyBytes).heap.length := by simpa using hid
    rcases eq_or_ne id id' with rfl | h
    · simp only [perform, handle_setHandle_self _ id hid']
    · simp only [perform, handle_setHandle_of_ne _ id h]
      rw [handle, releaseBytes_heap, handle]
  case renamePaths source target => exact (w.handle_renamePaths fate id source target).2
  case readBlobAt => rw [perform_readBlobAt]
  all_goals
    simp only [perform, unlessRefused, unlessDisk, setBlob, handle]
    repeat' split
    all_goals simp

theorem perform_heap_length : w.heap.length ≤ (w.perform e fate).2.heap.length := by
  cases e
  case readBlobAt => rw [perform_readBlobAt]
  all_goals
    simp only [perform, unlessRefused, unlessDisk, setHandle, setBlob]
    repeat' split
    all_goals simp

/-- The open handles are in the heap, and have the names of their blobs. -/
structure Sound (w : World) : Prop where
  range : ∀ ino id, w.handles.lookup ino = some id → id < w.heap.length
  named : ∀ ino id, w.handles.lookup ino = some id → (w.handle id).blobName = ino

theorem Sound.empty : Sound {} where
  range ino id h := by simp at h
  named ino id h := by simp at h

theorem Sound.step {w : World} (h : Sound w) {e : Effect} (fate : Fate)
    (hnamed : ∀ ino handle, e = .insertHandle ino handle → handle.blobName = ino) : Sound (w.perform e fate).2 where
  range ino id hopen := by
    rcases World.perform_handles hopen with hold | ⟨rfl, handle, rfl⟩
    · exact lt_of_lt_of_le (h.range ino id hold) World.perform_heap_length
    · simp [World.perform]
  named ino id hopen := by
    rcases World.perform_handles hopen with hold | ⟨rfl, handle, rfl⟩
    · rw [World.perform_blobName (h.range ino id hold), h.named ino id hold]
    · simp [World.perform, World.handle, hnamed ino handle rfl]

end World

end Pcloud
