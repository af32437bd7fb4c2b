import Mathlib.Data.String.Basic

/-!
# The sync model (`pcloud-model`)

Ids, the two sides of a sync pair, candidates, and the operations that the planner
makes of them. Paths compare by code point, as UTF-8 byte strings do in Rust.
-/

namespace Pcloud

/-! ## Ids -/

structure SyncId where
  get : UInt64
  deriving DecidableEq, Repr

structure RemoteFileId where
  get : UInt64
  deriving DecidableEq, Repr

structure RemoteFolderId where
  get : UInt64
  deriving DecidableEq, Repr

/-! ## Changes -/

inductive ChangeSource where
  | Local
  | Remote
  deriving DecidableEq, Repr

inductive EntryKind where
  | File
  | Folder
  deriving DecidableEq, Repr

inductive ChangeKind where
  | Upsert
  | Delete
  deriving DecidableEq, Repr

inductive SyncType where
  | DownloadOnly
  | UploadOnly
  | Full
  | BackupArchive
  deriving DecidableEq, Repr

/-- A change seen on one side. `path` is relative to the sync root. -/
structure SyncCandidate where
  syncId : SyncId
  source : ChangeSource
  path : String
  entryKind : EntryKind
  changeKind : ChangeKind
  remoteFileId : Option RemoteFileId
  remoteFolderId : Option RemoteFolderId
  deriving DecidableEq, Repr

inductive ConflictKind where
  | LocalModifyVsRemoteModify
  | LocalDeleteVsRemoteModify
  | RemoteDeleteVsLocalModify
  | TypeMismatch
  | RenameCollision
  | ParentPathConflict
  | ResumeChecksumMismatch
  | CryptoAvailabilityConflict
  deriving DecidableEq, Repr

/-! ## Operations -/

inductive PlannedOperation where
  | UploadFile (syncId : SyncId) (path : String) (remoteParentFolderId : Option RemoteFolderId)
      (remoteName : String)
  | DownloadFile (syncId : SyncId) (path : String) (remoteFileId : Option RemoteFileId)
  | CreateLocalDirectory (syncId : SyncId) (path : String) (remoteFolderId : Option RemoteFolderId)
  | CreateRemoteDirectory (syncId : SyncId) (path : String)
  | DeleteLocal (syncId : SyncId) (path : String)
  | DeleteRemote (syncId : SyncId) (path : String)
  | Conflict (syncId : SyncId) (path : String) (kind : ConflictKind)
  deriving DecidableEq, Repr

namespace PlannedOperation

def syncId : PlannedOperation → SyncId
  | UploadFile s .. | DownloadFile s .. | CreateLocalDirectory s .. | CreateRemoteDirectory s ..
  | DeleteLocal s .. | DeleteRemote s .. | Conflict s .. => s

def path : PlannedOperation → String
  | UploadFile _ p .. | DownloadFile _ p .. | CreateLocalDirectory _ p ..
  | CreateRemoteDirectory _ p | DeleteLocal _ p | DeleteRemote _ p | Conflict _ p _ => p

/-- Lower is more urgent. -/
def priority : PlannedOperation → Nat
  | Conflict .. => 0
  | DeleteLocal .. | DeleteRemote .. => 1
  | CreateLocalDirectory .. | CreateRemoteDirectory .. => 2
  | DownloadFile .. | UploadFile .. => 3

/-- The operation changes the local tree after the remote one. -/
def writesLocal : PlannedOperation → Bool
  | DownloadFile .. | CreateLocalDirectory .. | DeleteLocal .. => true
  | _ => false

/-- The operation changes the remote tree after the local one. -/
def writesRemote : PlannedOperation → Bool
  | UploadFile .. | CreateRemoteDirectory .. | DeleteRemote .. => true
  | _ => false

end PlannedOperation

end Pcloud
