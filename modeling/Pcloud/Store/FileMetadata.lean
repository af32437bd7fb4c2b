import Pcloud.Engine.Normalize

/-!
# The metadata cache (`pcloud-store/src/repositories/file_metadata.rs`)

The rows of the `file_metadata` table, in the order in which a query yields them. Queries are
taken to succeed.
-/

namespace Pcloud

structure FileMetadataRecord where
  fileId : UInt64
  parentFolderId : UInt64
  name : String
  isFolder : Bool
  deriving DecidableEq, Repr

abbrev FileMetadataRepository := List FileMetadataRecord

namespace FileMetadataRepository

variable (rows : FileMetadataRepository)

def getById (fileId : UInt64) : Option FileMetadataRecord := rows.find? (·.fileId = fileId)

def getByParentAndName (parentFolderId : UInt64) (name : String) : Option FileMetadataRecord :=
  rows.find? fun record => record.parentFolderId = parentFolderId ∧ record.name = name

/-- The loop of `resolve_path` from one folder on. -/
def resolveSegments (currentFolderId : UInt64) : List String → Option FileMetadataRecord
  | [] => none
  | [segment] => rows.getByParentAndName currentFolderId segment
  | segment :: rest =>
    match rows.getByParentAndName currentFolderId segment with
    | some record => if record.isFolder then resolveSegments record.fileId rest else none
    | none => none

def resolvePath (path : String) : Option FileMetadataRecord :=
  let trimmed := path.toList.dropWhile (· = '/')
  if trimmed.isEmpty then rows.getById 0
  else rows.resolveSegments 0 (((trimmed.splitOn '/').filter (!·.isEmpty)).map String.ofList)

/-- The folder of that name in a folder, where both are known. -/
def childFolder (parent : Option RemoteFolderId) (name : String) : Option RemoteFolderId :=
  match parent with
  | some id => match rows.getByParentAndName id.get name with
    | some record => if record.isFolder then some ⟨record.fileId⟩ else none
    | none => none
  | none => none

/-- The remote folder of a directory, by its names from a folder on. -/
def folderUnder (folder : Option RemoteFolderId) (names : List String) : Option RemoteFolderId :=
  names.foldl rows.childFolder folder

end FileMetadataRepository

/-- The remote folder of a sync root: 0 for `/` and for nothing, else what the cache knows. -/
def resolveSyncRootRemoteFolderId (rows : FileMetadataRepository) (remotePath : String) :
    Option RemoteFolderId :=
  let trimmed := trim remotePath.toList
  if trimmed.isEmpty ∨ trimmed = "/".toList then some ⟨0⟩
  else match rows.resolvePath (String.ofList trimmed) with
    | some record => if record.isFolder then some ⟨record.fileId⟩ else none
    | none => none

end Pcloud
