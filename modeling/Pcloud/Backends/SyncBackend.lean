import Pcloud.Engine.Normalize

/-!
# The diff of the sync backend (`pcloud-backends/src/sync_backend.rs`)

The server's answer, as `pcloud-proto` decodes it, and its conversion into the batch that the
engine ingests.
-/

namespace Pcloud

structure DiffEntryMetadata where
  name : String
  isFolder : Bool
  fileId : Option UInt64
  folderId : Option UInt64
  parentFolderId : Option UInt64
  deleted : Bool
  deriving DecidableEq, Repr

structure DiffEntry where
  event : Option Nat
  metadata : DiffEntryMetadata
  deriving DecidableEq, Repr

structure DiffBatch where
  diffId : Nat
  hasMore : Bool
  entries : List DiffEntry
  deriving DecidableEq, Repr

def pathFromMetadata (metadata : DiffEntryMetadata) : String := metadata.name

def convertDiffEntry (entry : DiffEntry) : RemoteDiffEntry where
  path := pathFromMetadata entry.metadata
  entryKind := if entry.metadata.isFolder then .Folder else .File
  changeKind := if entry.metadata.deleted then .Delete else .Upsert
  remoteFileId := entry.metadata.fileId.map RemoteFileId.mk
  remoteFolderId := entry.metadata.folderId.map RemoteFolderId.mk
  event := entry.event

-- The source writes `SyncId::new(1)` here, whatever root is polled.
def convertDiffBatch (batch : DiffBatch) : RemoteDiffBatch where
  syncId := ⟨1⟩
  cursor := batch.diffId
  hasMore := batch.hasMore
  entries := batch.entries.map convertDiffEntry

/-- The candidate that a diff entry becomes. -/
def remoteCandidate (entry : DiffEntry) : SyncCandidate :=
  DiffPoller.candidateOf ⟨1⟩ (convertDiffEntry entry)

theorem normalize_convert_eq_ok {batch : DiffBatch} {candidates : List SyncCandidate} :
    DiffPoller.normalizeBatch (convertDiffBatch batch) = .ok candidates ↔
      (∀ e ∈ batch.entries, isValidRelativePath e.metadata.name = true) ∧
        candidates = batch.entries.map remoteCandidate := by
  have hvalid : (∀ e ∈ (convertDiffBatch batch).entries, isValidRelativePath e.path = true) ↔
      ∀ e ∈ batch.entries, isValidRelativePath e.metadata.name = true := by
    simp [convertDiffBatch, convertDiffEntry, pathFromMetadata]
  have hmap : (convertDiffBatch batch).entries.map (DiffPoller.candidateOf (convertDiffBatch batch).syncId) =
      batch.entries.map remoteCandidate := by
    unfold convertDiffBatch remoteCandidate
    simp
  rw [normalizeBatch_eq_ok, hvalid, hmap]

end Pcloud
