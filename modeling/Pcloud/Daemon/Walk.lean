import Pcloud.Lib.Runs
import Pcloud.Model.OsPath
import Pcloud.Daemon.Execute
import Pcloud.Store.FileMetadata

/-!
# Where an upload goes

The walk of the local tree gives each entry the remote folder of its directory, level by level
from the sync root's own folder. The upload uses it for nested files. A top-level file goes to
folder 0, whatever the root's folder is.
-/

namespace Pcloud

/-- A name in a directory. -/
abbrev FileName := { name : String // name ≠ "" ∧ '/' ∉ name.toList }

/-- What `read_dir` yields, entry by entry, down to where it ends or fails. A directory that is
reached again through a hard link is entered once, so no tree that is walked is infinite. -/
inductive Listing where
  | done
  | fails (err : String)
  | file (name : FileName) (rest : Listing)
  | symlink (name : FileName) (rest : Listing)
  | directory (name : FileName) (inode : UInt64) (entries : Listing) (rest : Listing)

/-- An entry of the walk, by the names of its directory and its own. -/
structure Walked where
  parents : List FileName
  leaf : FileName
  entryKind : EntryKind
  remoteParentFolderId : Option RemoteFolderId
  deriving DecidableEq, Repr

structure WalkState where
  entries : List Walked := []
  visitedInodes : List UInt64 := []

def WalkState.push (state : WalkState) (entry : Walked) : WalkState :=
  { state with entries := state.entries ++ [entry] }

def walkRecursive (rows : FileMetadataRepository) : Listing → List FileName → Option RemoteFolderId →
    WalkState → Except String WalkState
  | .done, _, _, state => .ok state
  | .fails err, _, _, _ => .error err
  | .symlink _ rest, parents, folder, state => walkRecursive rows rest parents folder state
  | .file name rest, parents, folder, state =>
    walkRecursive rows rest parents folder (state.push ⟨parents, name, .File, folder⟩)
  | .directory name inode entries rest, parents, folder, state =>
    let state := state.push ⟨parents, name, .Folder, folder⟩
    if inode ∈ state.visitedInodes then walkRecursive rows rest parents folder state
    else
      let entered := { state with visitedInodes := inode :: state.visitedInodes }
      match walkRecursive rows entries (parents ++ [name]) (rows.childFolder folder name.val) entered with
      | .error err => .error err
      | .ok state => walkRecursive rows rest parents folder state

/-- The path of an entry from the base on. -/
def Walked.path (entry : Walked) : String :=
  String.ofList ((List.intercalate ['/'] ((entry.parents ++ [entry.leaf]).map (·.val.toList))).map toSlash)

def Walked.toFound (entry : Walked) : Runtime.Found :=
  ⟨entry.path, entry.entryKind, entry.remoteParentFolderId⟩

/-- `none` stands for a base that is no directory. -/
def walkTree (rows : FileMetadataRepository) (localPath remotePath : String) (base : Option Listing) :
    Except String (List Walked) :=
  match base with
  | none => .error ("sync root path does not exist or is not a directory: " ++ localPath)
  | some listing =>
    (walkRecursive rows listing [] (resolveSyncRootRemoteFolderId rows remotePath) {}).map (·.entries)

/-! ## The folder of an entry -/

section Folders

variable {rows : FileMetadataRepository} {root : Option RemoteFolderId}

def Walked.directory (entry : Walked) : List String := entry.parents.map (·.val)

/-- The entry carries the remote folder of its own directory. -/
def Walked.Placed (rows : FileMetadataRepository) (root : Option RemoteFolderId) (entry : Walked) : Prop :=
  entry.remoteParentFolderId = rows.folderUnder root entry.directory

theorem folderUnder_snoc (names : List String) (name : String) :
    rows.folderUnder root (names ++ [name]) = rows.childFolder (rows.folderUnder root names) name := by
  unfold FileMetadataRepository.folderUnder
  rw [List.foldl_append]
  rfl

theorem placed_push {state : WalkState} {entry : Walked} (h : ∀ w ∈ state.entries, w.Placed rows root)
    (hentry : entry.Placed rows root) : ∀ w ∈ (state.push entry).entries, w.Placed rows root := by
  intro w hw
  rcases List.mem_append.mp hw with hold | hnew
  · exact h w hold
  · rw [List.mem_singleton.mp hnew]
    exact hentry

theorem walkRecursive_placed (listing : Listing) {parents : List FileName} {folder : Option RemoteFolderId}
    {state state' : WalkState} (hfolder : folder = rows.folderUnder root (parents.map (·.val)))
    (hstate : ∀ w ∈ state.entries, w.Placed rows root)
    (h : walkRecursive rows listing parents folder state = .ok state') :
    ∀ w ∈ state'.entries, w.Placed rows root := by
  induction listing generalizing parents folder state state' with
  | done =>
    obtain rfl := Except.ok.inj h
    exact hstate
  | fails err => cases h
  | file name rest ih =>
    have hplaced : Walked.Placed rows root ⟨parents, name, .File, folder⟩ := hfolder
    exact ih hfolder (placed_push hstate hplaced) h
  | symlink name rest ih => exact ih hfolder hstate h
  | directory name inode entries rest ihEntries ihRest =>
    have hplaced : Walked.Placed rows root ⟨parents, name, .Folder, folder⟩ := hfolder
    have hpushed := placed_push hstate hplaced
    rw [walkRecursive] at h
    simp only at h
    split at h
    · exact ihRest hfolder hpushed h
    · split at h
      · cases h
      · rename_i entered hentered
        have hchild : rows.childFolder folder name.val =
            rows.folderUnder root ((parents ++ [name]).map (·.val)) := by
          rw [hfolder, List.map_append, List.map_singleton, folderUnder_snoc]
        have hbelow := ihEntries hchild (by exact hpushed) hentered
        exact ihRest hfolder hbelow h

theorem walkTree_placed {localPath remotePath : String} {base : Option Listing} {walked : List Walked}
    (h : walkTree rows localPath remotePath base = .ok walked) {entry : Walked} (hentry : entry ∈ walked) :
    entry.Placed rows (resolveSyncRootRemoteFolderId rows remotePath) := by
  unfold walkTree at h
  split at h
  · cases h
  · rename_i listing
    cases hwalk : walkRecursive rows listing [] (resolveSyncRootRemoteFolderId rows remotePath) {} with
    | error err =>
      rw [hwalk] at h
      cases h
    | ok state =>
      rw [hwalk] at h
      obtain rfl := Except.ok.inj h
      exact walkRecursive_placed listing rfl (fun w hw => absurd hw List.not_mem_nil) hwalk entry hentry

end Folders

/-! ## Top-level files -/

theorem suffix_dropWhile {α : Type*} {p : α → Bool} {y : α} (hy : p y = false) (xs ys : List α) :
    (y :: ys) <:+ (xs ++ y :: ys).dropWhile p := by
  induction xs with
  | nil => simp [hy]
  | cons x xs ih =>
    rw [List.cons_append, List.dropWhile_cons]
    split
    · exact ih
    · exact List.suffix_cons_iff.mpr (.inr (List.suffix_append xs (y :: ys)))

theorem parentPath_ne_empty {path : String} {before after : List Char} (hne : before ≠ [])
    (h : path.toList = before ++ '/' :: after) : Daemon.parentPath path ≠ "" := by
  intro hempty
  have hlist := congrArg String.toList hempty
  unfold Daemon.parentPath at hlist
  rw [String.toList_ofList, h] at hlist
  simp only [List.reverse_append, List.reverse_cons, List.append_assoc, List.singleton_append] at hlist
  have hsuffix := suffix_dropWhile (p := fun c => decide (c ≠ '/')) (y := '/') (by simp) after.reverse before.reverse
  have hlen := hsuffix.length_le
  have hdropped := congrArg List.length hlist
  simp only [List.length_reverse, List.length_drop, List.length_cons, String.toList_empty,
    List.length_nil] at hlen hdropped
  have hpos := List.length_pos_of_ne_nil hne
  omega

theorem Walked.parents_eq_nil {entry : Walked} (h : Daemon.parentPath entry.path = "") :
    entry.parents = [] := by
  by_contra hne
  obtain ⟨first, more, heq⟩ := List.exists_cons_of_ne_nil hne
  obtain ⟨next, others, hmore⟩ : ∃ next others, (more ++ [entry.leaf]).map (·.val.toList) = next :: others := by
    refine List.exists_cons_of_ne_nil ?_
    simp
  have hpath : entry.path.toList = first.val.toList.map toSlash ++
      '/' :: (List.intercalate ['/'] (next :: others)).map toSlash := by
    unfold Walked.path
    rw [String.toList_ofList, heq, List.cons_append, List.map_cons, hmore]
    simp [List.intercalate, toSlash]
  refine parentPath_ne_empty ?_ hpath h
  have hname := first.property.1
  simpa using hname

/-! ## The folder of an upload -/

/-- The candidate that a full scan of a root makes of an entry. -/
def Walked.candidate (root : SyncRootRecord) (entry : Walked) : SyncCandidate :=
  LocalScanner.candidateOf
    ⟨root.syncId, entry.path, entry.entryKind, false, entry.remoteParentFolderId⟩

theorem walkLocalTree_candidates (root : SyncRootRecord) (walked : List Walked) :
    (Runtime.walkLocalTree root (walked.map Walked.toFound)).map LocalScanner.candidateOf =
      walked.map (Walked.candidate root) := by
  simp [Runtime.walkLocalTree, Walked.candidate, Walked.toFound]

theorem Walked.planSingle_candidate {root : SyncRootRecord} {entry : Walked} (h : entry.entryKind = .File) :
    planSingle (entry.candidate root) =
      .UploadFile root.syncId entry.path entry.remoteParentFolderId (basename entry.path) := by
  unfold Walked.candidate LocalScanner.candidateOf planSingle
  simp [h]

theorem uploadFile_created {d : Daemon} {syncId : SyncId} {path name : String}
    {parent : Option RemoteFolderId} {answers : Daemon.UploadAnswers} {create : Daemon.UploadCreate}
    (h : (d.uploadFile (.UploadFile syncId path parent name) answers).created = some create) :
    Daemon.resolveUploadParent path parent = .ok create.parentFolderId := by
  unfold Daemon.uploadFile at h
  simp only at h
  split at h
  · cases h
  · rename_i id hid
    split at h
    · cases h
    · have hcreate : create.parentFolderId = id := by
        repeat' split at h
        all_goals
          obtain rfl := Option.some.inj h
          rfl
      rw [hid, hcreate]

/-- The `upload_create` of a file that the walk found names the remote folder of its directory
exactly when the file is nested or the root's own folder is folder 0. -/
theorem upload_parent_iff (rows : FileMetadataRepository) (root : SyncRootRecord)
    (localPath remotePath : String) (base : Option Listing) {walked : List Walked}
    (hwalk : walkTree rows localPath remotePath base = .ok walked) {entry : Walked}
    (hentry : entry ∈ walked) (hfile : entry.entryKind = .File) (d : Daemon)
    (answers : Nat → Daemon.UploadAnswers) {report : Daemon.UploadReport}
    (hreport : report ∈ d.uploadReports answers)
    (hop : report.operation = planSingle (entry.candidate root)) {create : Daemon.UploadCreate}
    (hcreate : report.created = some create) :
    rows.folderUnder (resolveSyncRootRemoteFolderId rows remotePath) entry.directory =
        some ⟨create.parentFolderId⟩ ↔
      Daemon.parentPath entry.path ≠ "" ∨ resolveSyncRootRemoteFolderId rows remotePath = some ⟨0⟩ := by
  have hplaced := walkTree_placed hwalk hentry
  obtain ⟨i, task, -, -, rfl⟩ := d.mem_uploadReports.mp hreport
  rw [Daemon.uploadFile_operation, Walked.planSingle_candidate hfile] at hop
  rw [hop] at hcreate
  have hparent := uploadFile_created hcreate
  unfold Daemon.resolveUploadParent at hparent
  by_cases htop : Daemon.parentPath entry.path = ""
  · rw [if_pos htop] at hparent
    have hzero : create.parentFolderId = 0 := (Except.ok.inj hparent).symm
    have hdirectory : entry.directory = [] := by
      unfold Walked.directory
      rw [Walked.parents_eq_nil htop, List.map_nil]
    rw [hzero, hdirectory]
    simp [htop, FileMetadataRepository.folderUnder]
  · rw [if_neg htop] at hparent
    refine iff_of_true ?_ (.inl htop)
    cases hknown : entry.remoteParentFolderId with
    | none =>
      rw [hknown] at hparent
      cases hparent
    | some id =>
      rw [hknown] at hparent
      rw [← Except.ok.inj hparent, ← hplaced, hknown]

/-! ## A root that is not the account's root

The cache knows the folders `/Remote` (1000) and `/Remote/nested` (2000). The root `/Remote` has a
file at the top and one in `nested`. Both are staged, scanned and dispatched. -/

namespace RemoteRoot

def rows : FileMetadataRepository := [⟨1000, 0, "Remote", true⟩, ⟨2000, 1000, "nested", true⟩]

def root : SyncRootRecord := { syncId := ⟨42⟩, syncType := .Full }

def base : Listing :=
  .file ⟨"top.txt", by decide⟩
    (.directory ⟨"nested", by decide⟩ 7 (.file ⟨"inner.txt", by decide⟩ .done) .done)

def walked : List Walked :=
  [⟨[], ⟨"top.txt", by decide⟩, .File, some ⟨1000⟩⟩, ⟨[], ⟨"nested", by decide⟩, .Folder, some ⟨1000⟩⟩,
    ⟨[⟨"nested", by decide⟩], ⟨"inner.txt", by decide⟩, .File, some ⟨2000⟩⟩]

def dispatched : Daemon :=
  Runs.run Daemon.step (Daemon.new [root] {} 300 true)
    [.seedStagedFile ⟨42⟩ "top.txt" [1], .seedStagedFile ⟨42⟩ "nested/inner.txt" [2, 3],
      .runLocalScan root { walk := .ok (walked.map Walked.toFound) }, .advanceTransfers]

def reports : List Daemon.UploadReport := dispatched.uploadReports fun _ => ⟨.ok (), .ok ()⟩

/-- The nested file goes to the folder of `nested`. -/
theorem upload_parent_nested :
    rows.folderUnder (resolveSyncRootRemoteFolderId rows "/Remote") ["nested"] = some ⟨2000⟩ :=
  (upload_parent_iff rows root "/home/sync-root" "/Remote" (some base)
    (show walkTree rows "/home/sync-root" "/Remote" (some base) = .ok walked by decide +kernel)
    (show ⟨[⟨"nested", by decide⟩], ⟨"inner.txt", by decide⟩, .File, some ⟨2000⟩⟩ ∈ walked by decide +kernel)
    rfl dispatched (fun _ => ⟨.ok (), .ok ()⟩)
    (show ⟨.UploadFile ⟨42⟩ "nested/inner.txt" (some ⟨2000⟩) "inner.txt", some ⟨2000, "inner.txt", 2⟩,
      some ⟨[2, 3], .Local ⟨42⟩ "nested/inner.txt"⟩, none⟩ ∈ reports by decide +kernel)
    (by decide +kernel) rfl).mpr (.inl (by decide +kernel))

/-- The file at the top is sent to folder 0, and the root's folder is 1000. -/
theorem top_upload_misplaced :
    walkTree rows "/home/sync-root" "/Remote" (some base) = .ok walked ∧
      reports.map (fun report => (report.operation, report.created)) =
        [(.UploadFile ⟨42⟩ "nested/inner.txt" (some ⟨2000⟩) "inner.txt", some ⟨2000, "inner.txt", 2⟩),
          (.UploadFile ⟨42⟩ "top.txt" (some ⟨1000⟩) "top.txt", some ⟨0, "top.txt", 1⟩)] ∧
      rows.folderUnder (resolveSyncRootRemoteFolderId rows "/Remote") [] = some ⟨1000⟩ := by
  refine ⟨?_, ?_, ?_⟩
  all_goals decide +kernel

end RemoteRoot

end Pcloud
